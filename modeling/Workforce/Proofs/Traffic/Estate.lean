import Workforce.Proofs.Traffic.Occupancy

/-
  A traffic whose pool and views are freed once nobody holds them. A view is held by the views over
  it, by the threads at its gate, and by the tasks that it admitted until they have ended; the pool
  by its views, its workers and all threads. Handles outside are not listed: they may be dropped at
  any time, so what nothing inside holds may be freed (`Frees`), and nothing outside names it from
  then on. Tasks that wait hold neither the pool nor the view where they wait, and are dropped with
  it unrun.

  `conserved_iff`: in a run without a forced termination the tasks that were accepted are conserved
  exactly if no act loses one. Three acts do (`Loses`): the two of `Traffic.Loses`, and the freeing
  of the pool or the view where the task waits. A pool that is closed does not replace a worker that
  dies, so the last one may leave tasks in the queues; a view whose admissions slipped keeps tasks
  waiting behind nothing. `task_lost` has a run for each of them.

  What overdraws a view may make its gate overflow, which `Gate.release` does not follow. So the law
  for a single task is for runs without; the law for all tasks needs no such condition, because the
  act that overdraws has lost a task.
-/

namespace Workforce

/-- What an act names: views by number, and the pool. -/
def Traffic.Act.names {τ : Type} : Traffic.Act τ → List (Option Nat)
  | .build d _ _ => [d]
  | .call d _ => [d]
  | .callFrom _ d _ _ => [d]
  | .raise w vs => w.toList.map (fun _ => none) ++ vs.map some
  | .lower w vs => w.toList.map (fun _ => none) ++ vs.map some
  | .close => [none]
  | .terminate => [none]
  | _ => []

/-- The number of a view that is a dispatcher; the pool has none. -/
def Dispatcher.number (d : Dispatcher) : Option Nat := d.view?.map View.id

/-- The views that a thread is at because of a chore, and those whose admissions it holds or is to
give back. -/
def Chore.views {τ : Type} : Chore τ → List View
  | .submit d j _ => d.view?.toList ++ j.views
  | .requeue k j => k.views ++ j.views
  | .forward d j _ => d.view?.toList ++ j.views
  | .next v => [v]
  | .release v => [v]
  | .raise v => [v]
  | .lower v => [v]
  | .body _ j => j.views
  | _ => []

def Phase.hasLeft {τ : Type} : Phase τ → Bool
  | .gone => true
  | _ => false

namespace Traffic

variable {τ : Type}

/-- No task and no thread holds a view, or no worker and no thread the pool. -/
def Unheld (s : Traffic τ) : Option Nat → Prop
  | some i => i < s.views.length ∧ s.unended i = 0 ∧
      ∀ c ∈ s.threads.flatten, ∀ v ∈ c.views, v.id ≠ i
  | none => s.pool.closed = true ∧ (∀ x ∈ s.pool.workers, x.phase.hasLeft = true) ∧
      s.threads.flatten.isEmpty = true

instance (s : Traffic τ) (d : Option Nat) : Decidable (s.Unheld d) :=
  match d with
  | some i => inferInstanceAs (Decidable (i < s.views.length ∧ s.unended i = 0 ∧
      ∀ c ∈ s.threads.flatten, ∀ v ∈ c.views, v.id ≠ i))
  | none => inferInstanceAs (Decidable (s.pool.closed = true ∧
      (∀ x ∈ s.pool.workers, x.phase.hasLeft = true) ∧ s.threads.flatten.isEmpty = true))

/-- The tasks that wait at a view, or in the pool. -/
def waitingAt (s : Traffic τ) : Option Nat → List (Job τ)
  | some i => ((s.gates[i]?).map Gate.queue).getD []
  | none => s.pool.cpuQueue ++ s.pool.blockingQueue

/-- A view or the pool is left without the tasks that wait there. -/
def emptied (s : Traffic τ) : Option Nat → Traffic τ
  | some i => { s with gates := s.gates.modify i fun g => { g with queue := [] } }
  | none => { s with pool := { s.pool with cpuQueue := [], blockingQueue := [] } }

/-- A view or the pool is freed: the tasks that wait there are dropped. -/
def free (s : Traffic τ) (d : Option Nat) : Traffic τ :=
  { s.emptied d with log := s.log ++ (s.waitingAt d).flatMap fun j => j.lost .freed }

theorem gatesWeight_emptied (m : Weights τ) (gs : List (Gate (Job τ))) (i : Nat) :
    gatesWeight m (gs.modify i fun g => { g with queue := [] }) +
        ((((gs[i]?).map Gate.queue).getD []).map (Job.waiting m)).sum = gatesWeight m gs := by
  cases hx : gs[i]? with
  | none =>
    rw [List.modify_eq_self (List.getElem?_eq_none_iff.mp hx)]
    rfl
  | some x =>
    rw [modify_eq_set _ hx]
    exact gatesWeight_set m { x with queue := [] } hx

/-- What is freed is booked as dropped. -/
theorem balanced_free {m : Weights τ} {s : Traffic τ} (h : s.Balanced m) (d : Option Nat) :
    (s.free d).Balanced m := by
  obtain ⟨ho, hi⟩ := lost_weight m (s.waitingAt d) .freed
  have hw : (s.emptied d).weight m + ((s.waitingAt d).map (Job.waiting m)).sum = s.weight m := by
    cases d with
    | some i =>
      have hg := gatesWeight_emptied m s.gates i
      unfold weight emptied waitingAt
      dsimp only
      omega
    | none =>
      have hq : s.pool.queueHolding (Job.waiting m) =
          ((s.pool.cpuQueue ++ s.pool.blockingQueue).map (Job.waiting m)).sum := by
        rw [List.map_append, List.sum_append]
        rfl
      have hp : poolWeight m s.pool =
          s.pool.queueHolding (Job.waiting m) + poolWeight m (s.emptied none).pool := by
        unfold poolWeight Pool.holding Pool.queueHolding emptied
        simp only [List.map_nil, List.sum_nil, Nat.zero_add]
        rfl
      have hrest : gatesWeight m (s.emptied none).gates = gatesWeight m s.gates ∧
          threadsWeight m (s.emptied none).threads = threadsWeight m s.threads := ⟨rfl, rfl⟩
      unfold weight
      rw [hp, hq, hrest.1, hrest.2]
      show _ + ((s.pool.cpuQueue ++ s.pool.blockingQueue).map (Job.waiting m)).sum = _
      omega
  unfold Balanced at h ⊢
  have hlog : (s.free d).log = s.log ++ (s.waitingAt d).flatMap fun j => j.lost .freed := rfl
  have hweight : (s.free d).weight m = (s.emptied d).weight m := by cases d <;> rfl
  rw [hlog, hweight, outgo_append, income_append, ho, hi]
  omega

theorem orderly_free [Kinded τ] {s : Traffic τ} (h : s.pool.Orderly) (d : Option Nat) :
    (s.free d).pool.Orderly := by
  cases d with
  | some i => exact h
  | none => exact ⟨nofun, nofun, h.slots⟩

theorem abandoned_free (s : Traffic τ) (d : Option Nat) :
    (s.free d).pool.abandoned = s.pool.abandoned := by
  cases d <;> rfl

theorem countP_isDrop_lost [DecidableEq τ] (t : τ) (js : List (Job τ)) (cause : Cause) :
    (js.flatMap fun j => j.lost cause).countP (Event.isDrop t) = countTask t js := by
  have hlost : ∀ j : Job τ, (j.lost cause).countP (Event.isDrop t) =
      if j.task = t then 1 else 0 := by
    intro j
    have hstranded : (j.views.map (Event.stranded (τ := τ))).countP (Event.isDrop t) = 0 :=
      List.countP_eq_zero.mpr (by simp [Event.isDrop])
    rw [Job.lost, List.countP_cons, hstranded, Nat.zero_add]
    simp [Event.isDrop]
  rw [List.countP_flatMap, ← countTask_eq]
  exact congrArg List.sum (List.map_congr_left fun j _ => hlost j)

end Traffic

/-- A traffic, and what of it has been freed. -/
structure Estate (τ : Type) where
  traffic : Traffic τ
  /-- Views by number, and the pool. -/
  freed : List (Option Nat) := []

namespace Estate

variable {τ : Type}

/-- What can happen. -/
inductive Act (τ : Type) where
  | act (a : Traffic.Act τ)
  /-- A view or the pool is freed. -/
  | free (d : Option Nat)

/-- A view or the pool may be freed: nothing inside holds it, and no view stands on it. -/
def Frees (e : Estate τ) (d : Option Nat) : Prop :=
  d ∉ e.freed ∧ e.traffic.Unheld d ∧
    ∀ v ∈ e.traffic.views, v.parent.number = d → some v.id ∈ e.freed

/-- An act can take place: it names nothing that is freed, or frees what may be freed. -/
def Can (e : Estate τ) : Act τ → Prop
  | .act a => ∀ d ∈ a.names, d ∉ e.freed
  | .free d => e.Frees d

instance (e : Estate τ) (d : Option Nat) : Decidable (e.Frees d) :=
  inferInstanceAs (Decidable (d ∉ e.freed ∧ e.traffic.Unheld d ∧
    ∀ v ∈ e.traffic.views, v.parent.number = d → some v.id ∈ e.freed))

instance (e : Estate τ) (x : Act τ) : Decidable (e.Can x) :=
  match x with
  | .act a => inferInstanceAs (Decidable (∀ d ∈ a.names, d ∉ e.freed))
  | .free d => inferInstanceAs (Decidable (e.Frees d))

variable [Kinded τ]

/-- What an act does that can take place. -/
def happen (e : Estate τ) : Act τ → Estate τ
  | .act a => { e with traffic := e.traffic.step a }
  | .free d => { traffic := e.traffic.free d, freed := d :: e.freed }

/-- Lets something happen, if it can. -/
def step (e : Estate τ) (x : Act τ) : Estate τ := if e.Can x then e.happen x else e

/-- Lets things happen in order. -/
def run (e : Estate τ) (xs : List (Act τ)) : Estate τ := xs.foldl step e

/-- A new pool without views. -/
def start (c : Config) : Estate τ := { traffic := .start c }

theorem run_concat (e : Estate τ) (xs : List (Act τ)) (x : Act τ) :
    e.run (xs ++ [x]) = (e.run xs).step x :=
  List.foldl_append

/-! ## What every run keeps -/

/-- The ledger is balanced, and the pool is in order. -/
structure Sound (e : Estate τ) : Prop where
  balanced : ∀ m, e.traffic.Balanced m
  orderly : e.traffic.pool.Orderly

theorem sound_step {e : Estate τ} (h : e.Sound) (x : Act τ) : (e.step x).Sound := by
  unfold step
  split
  case isFalse => exact h
  case isTrue =>
    cases x with
    | act a =>
      exact ⟨fun m => Traffic.balanced_step m (h.balanced m) a, Traffic.orderly_step h.orderly a⟩
    | free d =>
      exact ⟨fun m => Traffic.balanced_free (h.balanced m) d, Traffic.orderly_free h.orderly d⟩

theorem sound_run (c : Config) (xs : List (Act τ)) : ((start c).run xs).Sound := by
  have hs : (start c : Estate τ).Sound :=
    ⟨fun m => Traffic.balanced_run m c [], Pool.orderly_ofConfig c⟩
  exact List.foldlRecOn (motive := Sound) xs step hs fun _ hs x _ => sound_step hs x

/-- Without a forced termination the pool is not abandoned. -/
theorem kept_run (c : Config) {xs : List (Act τ)} (hn : .act .terminate ∉ xs) :
    ((start c).run xs).traffic.pool.abandoned = false := by
  have hs : (start c : Estate τ).traffic.pool.abandoned = false :=
    congrArg Prod.snd (Pool.marks_ofConfig c)
  refine List.foldlRecOn (motive := fun e => e.traffic.pool.abandoned = false) xs step hs
    fun e he x hx => ?_
  unfold step
  split
  case isFalse => exact he
  case isTrue =>
    cases x with
    | act a => exact (Traffic.abandoned_step fun ha => hn (ha ▸ hx)).trans he
    | free d => exact (Traffic.abandoned_free _ d).trans he

/-! ## Acts that lose tasks -/

variable [DecidableEq τ]

/-- An act loses a task: it is one of a traffic that does, or frees the view or the pool where the
task waits. -/
def Loses (e : Estate τ) (x : Act τ) (t : τ) : Prop :=
  e.Can x ∧ match x with
    | .act a => e.traffic.Loses a t
    | .free d => ∃ j ∈ e.traffic.waitingAt d, j.task = t

/-- Until a forced termination an act drops what it loses. -/
theorem drops_step {e : Estate τ} (h : e.Sound) (hk : e.traffic.pool.abandoned = false) {x : Act τ}
    (hx : x ≠ .act .terminate) (t : τ) : ∃ es, (e.step x).traffic.log = e.traffic.log ++ es ∧
      (0 < es.countP (Event.isDrop t) ↔ e.Loses x t) := by
  by_cases hc : e.Can x
  · have hstep : e.step x = e.happen x := if_pos hc
    rw [hstep]
    cases x with
    | act a =>
      have ha : a ≠ .terminate := fun he => hx (congrArg Act.act he)
      obtain ⟨es, hl, hd⟩ := (Traffic.steps e.traffic a).drops hk h.orderly ha t
      refine ⟨es, hl, fun hpos => ⟨hc, ?_⟩, fun hloses => ?_⟩
      · by_contra hn
        rw [hd.2 hn] at hpos
        cases hpos
      · rw [hd.1 hloses.2]
        exact Nat.one_pos
    | free d =>
      refine ⟨_, rfl, ?_⟩
      rw [Traffic.countP_isDrop_lost, countTask, List.countP_pos_iff]
      exact ⟨fun ⟨j, hj, ht⟩ => ⟨hc, j, hj, of_decide_eq_true ht⟩,
        fun ⟨_, j, hj, ht⟩ => ⟨j, hj, decide_eq_true ht⟩⟩
  · have hstep : e.step x = e := if_neg hc
    refine ⟨[], by rw [hstep, List.append_nil], iff_of_false (Nat.lt_irrefl 0) fun hl => hc hl.1⟩

/-- A task is dropped in a run without a forced termination exactly if an act loses it. -/
theorem drops_eq_zero_iff (c : Config) {xs : List (Act τ)} (hn : .act .terminate ∉ xs) (t : τ) :
    ((start c).run xs).traffic.drops t = 0 ↔
      ∀ us x, us ++ [x] <+: xs → ¬ ((start c).run us).Loses x t := by
  -- induction on the number of acts
  induction xs using List.reverseRecOn with
  | nil => exact iff_of_true rfl forall_prefix_nil
  | append_singleton xs x ih =>
    have hna : .act .terminate ∉ xs := fun he => hn (List.mem_append_left [x] he)
    have hx : x ≠ .act .terminate := by
      rintro rfl
      exact hn (by simp)
    obtain ⟨es, hlog, hdrop⟩ := drops_step (sound_run c xs) (kept_run c hna) hx t
    have hsum : ((start c).run (xs ++ [x])).traffic.drops t =
        ((start c).run xs).traffic.drops t + es.countP (Event.isDrop t) := by
      rw [run_concat, Traffic.drops, hlog, List.countP_append, Traffic.drops]
    rw [hsum, Nat.add_eq_zero_iff, ih hna]
    refine Iff.trans (and_congr_right fun _ => ?_) forall_prefix_concat_iff.symm
    rw [← hdrop, Nat.pos_iff_ne_zero, not_not]

/-! ## Conservation -/

/-- An accepted task is in exactly one place, started at most once and not dropped exactly if no act
of the run loses it. -/
theorem conserved_iff_of_accepted (c : Config) {xs : List (Act τ)} (hn : .act .terminate ∉ xs)
    {t : τ} (ha : ((start c).run xs).traffic.Accepted t) :
    ((start c).run xs).traffic.Conserved t ↔
      ∀ us x, us ++ [x] <+: xs → ¬ ((start c).run us).Loses x t := by
  rw [Traffic.conserved_iff_drops (sound_run c xs).balanced ha, drops_eq_zero_iff c hn t]

/-- In a run without a forced termination every task that was called once and accepted is in exactly
one place, was started at most once and not dropped, exactly if no act of the run loses such a task.
As long as no act overdraws a view, this holds of every single task. -/
theorem conserved_iff (c : Config) {xs : List (Act τ)} (hn : .act .terminate ∉ xs) :
    ((∀ t, ((start c).run xs).traffic.Accepted t → ((start c).run xs).traffic.Conserved t) ↔
      ∀ us x, us ++ [x] <+: xs → ∀ t, ((start c).run xs).traffic.Accepted t →
        ¬ ((start c).run us).Loses x t) ∧
    ((∀ us a, us ++ [.act a] <+: xs → ∀ i, ¬ ((start c).run us).traffic.Overdraws a i) →
      ∀ t, ((start c).run xs).traffic.Accepted t → (((start c).run xs).traffic.Conserved t ↔
        ∀ us x, us ++ [x] <+: xs → ¬ ((start c).run us).Loses x t)) := by
  refine ⟨⟨fun h us x hu t ha => ?_, fun h t ha => ?_⟩, fun _ t ha => ?_⟩
  · exact (conserved_iff_of_accepted c hn ha).mp (h t ha) us x hu
  · exact (conserved_iff_of_accepted c hn ha).mpr fun us x hu => h us x hu t ha
  · exact conserved_iff_of_accepted c hn ha

/-! ## Lost tasks -/

/-- Task 0 runs and task 1 is queued. The pool is closed, task 0 takes the only worker with it, and
nobody holds the pool. -/
def freedRun : List (Act Nat) :=
  ([.begin 0, .call none 0, .go 1, .resume 0 false, .call none 1, .go 3, .close,
    .endBody 2 true (.error .disconnected) true, .go 2] : List (Traffic.Act Nat)).map .act ++
    [.free none]

/-- Task 2 waits at the view behind task 1, whose context could not be entered, and nobody holds the
view. -/
def forsakenRun : List (Act Nat) := Traffic.barredRun.map .act ++ [.free (some 0)]

/-- In each of these runs a task was accepted and is nowhere in the end: its worker died, it was
displaced while the pool was closed, its pool was freed, its view was freed. -/
theorem task_lost :
    (.accepted 1 ∈ ((start Traffic.lone).run (Traffic.fatalRun.map .act)).traffic.log ∧
      (((start Traffic.lone).run (Traffic.fatalRun.map .act)).traffic.places 1).sum = 0) ∧
    (.accepted 1 ∈ ((start Traffic.lone).run (Traffic.lateRun.map .act)).traffic.log ∧
      (((start Traffic.lone).run (Traffic.lateRun.map .act)).traffic.places 1).sum = 0) ∧
    (.accepted 1 ∈ ((start Traffic.lone).run freedRun).traffic.log ∧
      (((start Traffic.lone).run freedRun).traffic.places 1).sum = 0) ∧
    (.accepted 2 ∈ ((start Traffic.lone).run forsakenRun).traffic.log ∧
      (((start Traffic.lone).run forsakenRun).traffic.places 2).sum = 0) := by
  simp only [← Traffic.acceptances_pos_iff]
  decide

/-- The law for the third of them: an act loses a task. -/
theorem conserved_iff_freedRun :
    .act .terminate ∉ freedRun ∧ ((start Traffic.lone).run freedRun).traffic.Accepted 1 ∧
      ¬ ∀ us x, us ++ [x] <+: freedRun → ∀ t,
        ((start Traffic.lone).run freedRun).traffic.Accepted t →
        ¬ ((start Traffic.lone).run us).Loses x t := by
  have hn : .act .terminate ∉ freedRun := by simp [freedRun]
  have ha : ((start Traffic.lone).run freedRun).traffic.Accepted 1 :=
    ⟨by decide, Traffic.acceptances_pos_iff.mp (by decide)⟩
  refine ⟨hn, ha, fun hall => ?_⟩
  have hd := ((conserved_iff Traffic.lone hn).1.mpr hall 1 ha).kept
  exact absurd hd (by decide)

end Estate

end Workforce
