import Workforce.Proofs.Traffic.Admissions
import Workforce.Proofs.Traffic.Diaries
import Workforce.Proofs.Traffic.Routes

/-
  The admissions that views have out. A gate counts as running the tasks that it admitted and that
  have not ended, unless an act parts a task from its admissions.

  Three acts do so in any pool (`Slips`): a context that cannot be entered bars a task before its
  admissions are tied to it, a worker dies with an admitted task in its slot, and a task displaced
  from a slot is cut off by a close, upon which the admissions of the task that displaced it are
  given back instead of its own. A forced termination adds what it drops itself, and what is
  dropped later because of it (`Abandons`). `counted_prefixes_iff`: a gate counts exactly at every
  moment exactly if no act is one of these. How a task ends makes no difference otherwise.

  Without a forced termination the three acts are all there is to look for
  (`exact_prefixes_iff`). Only the last of them gives back more than was taken (`Overdraws`); until
  then no gate overflows (`unpoisoned_run`).
-/

namespace Workforce

variable {τ : Type}

/-- An admission is stranded or overdrawn. -/
def Event.slips : Event τ → Bool
  | .stranded _ => true
  | .overdrawn _ => true
  | _ => false

/-- How many admissions to a view are on their way because of a chore. -/
def Chore.admissions (i : Nat) : Chore τ → Nat
  | .submit _ j _ => j.passes i
  | .requeue displaced _ => displaced.passes i
  | .forward _ j _ => j.passes i
  | .body _ j => j.passes i
  | .release v => if v.id = i then 1 else 0
  | _ => 0

theorem Chore.admissions_of_job? {c : Chore τ} {j : Job τ} (h : c.job? = some j) (i : Nat) :
    c.admissions i = j.passes i := by
  cases c <;> cases h <;> rfl

namespace Traffic

/-! ## Tasks that have not ended -/

/-- The tasks that a view admitted and that have not ended: those in the queues of the pool, in
slots and at other gates, those in the hands of threads, and those whose bodies run or whose
admissions are just being given back. -/
def unended (s : Traffic τ) (i : Nat) : Nat :=
  ((s.pool.cpuQueue ++ s.pool.blockingQueue).map (Job.passes i)).sum +
    ((s.pool.workers.filterMap Worker.slot).map (Job.passes i)).sum +
    ((s.gates.flatMap Gate.queue).map (Job.passes i)).sum +
    (s.threads.flatten.map (Chore.admissions i)).sum

theorem views_ofGate (i : Nat) (vs : List View) :
    (Weights.ofGate (τ := τ) i).views vs = vs.countP fun v => v.id = i :=
  sum_map_ite (fun v : View => v.id = i) vs

theorem waiting_ofGate (i : Nat) : Job.waiting (Weights.ofGate (τ := τ) i) = Job.passes i := by
  funext j
  unfold Job.waiting
  rw [views_ofGate]
  exact Nat.zero_add _

theorem weight_ofGate_chore (i : Nat) :
    Chore.weight (Weights.ofGate (τ := τ) i) = Chore.admissions i := by
  funext c
  cases c with
  | submit d j slot => exact congrFun (waiting_ofGate i) j
  | requeue k j => exact congrFun (waiting_ofGate i) k
  | forward d j n => exact congrFun (waiting_ofGate i) j
  | body w j => exact views_ofGate i j.views
  | _ => rfl

/-- The tasks that have not ended are what the ledger of the gate counts. -/
theorem weight_ofGate [Kinded τ] (s : Traffic τ) (i : Nat) :
    s.weight (Weights.ofGate i) = s.unended i := by
  have hcrew : s.pool.crewHolding (Job.passes i) (Job.running (Weights.ofGate i)) =
      ((s.pool.workers.filterMap Worker.slot).map (Job.passes i)).sum := by
    have hz : ∀ j : Job τ, j.running (Weights.ofGate i) = 0 := fun _ => rfl
    unfold Pool.crewHolding Worker.holding
    rw [List.sum_map_add, sum_worth _ Worker.slot,
      sum_worth _ (fun x : Worker (Job τ) => x.phase.task?),
      List.sum_eq_zero (List.forall_mem_map.mpr fun j _ => hz j)]
    exact Nat.add_zero _
  have hqueue : s.pool.queueHolding (Job.passes i) =
      ((s.pool.cpuQueue ++ s.pool.blockingQueue).map (Job.passes i)).sum := by
    rw [List.map_append, List.sum_append]
    rfl
  have hgates : gatesWeight (Weights.ofGate i) s.gates =
      ((s.gates.flatMap Gate.queue).map (Job.passes i)).sum := by
    unfold gatesWeight
    rw [waiting_ofGate, sum_flatMap]
  have hthreads : threadsWeight (Weights.ofGate i) s.threads =
      (s.threads.flatten.map (Chore.admissions i)).sum := by
    unfold threadsWeight choresWeight
    rw [weight_ofGate_chore, sum_flatMap, List.flatMap_id']
  unfold weight poolWeight Pool.holding unended
  rw [waiting_ofGate, hcrew, hqueue, hgates, hthreads]

/-! ## Slips -/

/-- A chore lets admissions to a view slip: a worker dies with a task in its slot, or a task
displaced from a slot is dropped and another one is taken for it. -/
def ChoreSlips (s : Traffic τ) (i : Nat) : Chore τ → Prop
  | .finish w _ fatal => fatal = true ∧ ∃ j, s.pool.slotOf? w = some j ∧ 0 < j.passes i
  | .requeue displaced submitted =>
    s.pool.closed = true ∧ displaced.passes i ≠ submitted.passes i
  | _ => False

/-- An act lets admissions to a view slip: the context of a task cannot be entered, or a thread
performs a chore that does. -/
def Slips (s : Traffic τ) (a : Act τ) (i : Nat) : Prop :=
  match a with
  | .endBody k entered _ _ =>
    entered = false ∧ ∃ w j rest, s.threads[k]? = some (.body w j :: rest) ∧ 0 < j.passes i
  | .go k => ∃ c rest, s.threads[k]? = some (c :: rest) ∧ s.ChoreSlips i c
  | _ => False

/-- A chore abandons admissions to a view: a terminated pool does not take a task that a view has
handed on, and the views that admitted it before are not told, or a worker leaves a terminated
pool with a task in its slot. -/
def ChoreAbandons (s : Traffic τ) (i : Nat) : Chore τ → Prop
  | .forward (.pool ..) j passed =>
    s.pool.abandoned = true ∧ 0 < (j.views.drop passed).countP fun v => v.id = i
  | .finish w _ fatal => fatal = false ∧ s.pool.abandoned = true ∧
      ∃ j, s.pool.slotOf? w = some j ∧ 0 < j.passes i
  | _ => False

/-- An act abandons admissions to a view: a termination drops a queued task, or a thread performs a
chore that does. -/
def Abandons (s : Traffic τ) (a : Act τ) (i : Nat) : Prop :=
  match a with
  | .terminate => s.pool.closed = true ∧ s.pool.atRest = false ∧
      ∃ j ∈ s.pool.cpuQueue ++ s.pool.blockingQueue, 0 < j.passes i
  | .go k => ∃ c rest, s.threads[k]? = some (c :: rest) ∧ s.ChoreAbandons i c
  | _ => False

/-- An act parts a task from an admission to a view. -/
def Strays (s : Traffic τ) (a : Act τ) (i : Nat) : Prop := s.Slips a i ∨ s.Abandons a i

/-- A chore makes a view get back more admissions than are gone: the task that was displaced had
fewer than the one that is taken for it. -/
def ChoreOverdraws (s : Traffic τ) (i : Nat) : Chore τ → Prop
  | .requeue displaced submitted =>
    s.pool.closed = true ∧ displaced.passes i < submitted.passes i
  | _ => False

/-- An act overdraws a view. -/
def Overdraws (s : Traffic τ) (a : Act τ) (i : Nat) : Prop :=
  match a with
  | .go k => ∃ c rest, s.threads[k]? = some (c :: rest) ∧ s.ChoreOverdraws i c
  | _ => False

theorem Overdraws.closed {s : Traffic τ} {a : Act τ} {i : Nat} (h : s.Overdraws a i) :
    s.pool.closed = true := by
  cases a with
  | go k =>
    obtain ⟨c, rest, -, hc⟩ := h
    cases c with
    | requeue => exact hc.1
    | _ => exact hc.elim
  | _ => exact h.elim

/-- What overdraws a view is one of the acts that part tasks from admissions. -/
theorem Overdraws.strays {s : Traffic τ} {a : Act τ} {i : Nat} (h : s.Overdraws a i) :
    s.Strays a i := by
  cases a with
  | go k =>
    obtain ⟨c, rest, hk, hc⟩ := h
    cases c with
    | requeue displaced submitted =>
      exact .inl ⟨_, rest, hk, hc.1, Nat.ne_of_lt hc.2⟩
    | _ => exact hc.elim
  | _ => exact h.elim

/-! ## Strandings and overdrafts -/

/-- Whether events strand other admissions to a view than they overdraw, and whether they overdraw
more. -/
structure Parts (i : Nat) (es : List (Event τ)) (strays overdraws : Prop) : Prop where
  uneven : es.countP (Event.isStranding i) ≠ es.countP (Event.isOverdraft i) ↔ strays
  excess : es.countP (Event.isStranding i) < es.countP (Event.isOverdraft i) ↔ overdraws

theorem Parts.none {i : Nat} {es : List (Event τ)} {strays overdraws : Prop}
    (h : ∀ e ∈ es, e.slips = false) (hs : ¬ strays) (ho : ¬ overdraws) :
    Parts i es strays overdraws := by
  have hz : ∀ p : Event τ → Bool, (∀ e, p e = true → e.slips = true) → es.countP p = 0 := by
    intro p hp
    rw [List.countP_eq_zero]
    intro e he hpe
    have hs := hp e hpe
    rw [h e he] at hs
    cases hs
  have hstranded : es.countP (Event.isStranding i) = 0 := hz _ fun e he => by
    cases e <;> first | rfl | cases he
  have hoverdrawn : es.countP (Event.isOverdraft i) = 0 := hz _ fun e he => by
    cases e <;> first | rfl | cases he
  exact ⟨iff_of_false (fun hne => hne (hstranded.trans hoverdrawn.symm)) hs,
    iff_of_false (by omega) ho⟩

/-- Events that strand some admissions and overdraw none. -/
theorem Parts.stranded {i n : Nat} {es : List (Event τ)} {strays overdraws : Prop}
    (hs : es.countP (Event.isStranding i) = n) (ho : es.countP (Event.isOverdraft i) = 0)
    (hstrays : 0 < n ↔ strays) (hover : ¬ overdraws) : Parts i es strays overdraws := by
  rw [← Nat.pos_iff_ne_zero.symm, ← hs] at hstrays
  exact ⟨by rw [ho]; exact hstrays, iff_of_false (by omega) hover⟩

theorem Parts.cons {i : Nat} {es : List (Event τ)} {strays overdraws : Prop} {e : Event τ}
    (he : e.slips = false) (h : Parts i es strays overdraws) :
    Parts i (e :: es) strays overdraws := by
  have hcount : (e :: es).countP (Event.isStranding i) = es.countP (Event.isStranding i) ∧
      (e :: es).countP (Event.isOverdraft i) = es.countP (Event.isOverdraft i) := by
    cases e <;> first | exact ⟨rfl, rfl⟩ | cases he
  exact ⟨by rw [hcount.1, hcount.2]; exact h.uneven, by rw [hcount.1, hcount.2]; exact h.excess⟩

theorem countP_stranded (i : Nat) (vs : List View) :
    (vs.map (Event.stranded (τ := τ))).countP (Event.isStranding i) =
        vs.countP (fun v => v.id = i) ∧
      (vs.map (Event.stranded (τ := τ))).countP (Event.isOverdraft i) = 0 := by
  rw [List.countP_map, List.countP_map]
  exact ⟨rfl, List.countP_eq_zero.mpr nofun⟩

theorem countP_overdrawn (i : Nat) (vs : List View) :
    (vs.map (Event.overdrawn (τ := τ))).countP (Event.isOverdraft i) =
        vs.countP (fun v => v.id = i) ∧
      (vs.map (Event.overdrawn (τ := τ))).countP (Event.isStranding i) = 0 := by
  rw [List.countP_map, List.countP_map]
  exact ⟨rfl, List.countP_eq_zero.mpr nofun⟩

/-- A job that is lost strands its admissions. -/
theorem countP_lost (i : Nat) (j : Job τ) (cause : Cause) :
    (j.lost cause).countP (Event.isStranding i) = j.passes i ∧
      (j.lost cause).countP (Event.isOverdraft i) = 0 := by
  obtain ⟨hs, ho⟩ := countP_stranded (τ := τ) i j.views
  unfold Job.lost
  rw [List.countP_cons, List.countP_cons, hs, ho]
  exact ⟨rfl, rfl⟩

/-- A worker that leaves strands the admissions of the task in its slot. -/
theorem Parts.turn {i : Nat} {cause : Cause} {r : Pool.Turn (Job τ)} {strays overdraws : Prop}
    (hs : (∃ j, r = .leaves (some j) ∧ 0 < j.passes i) ↔ strays) (ho : ¬ overdraws) :
    Parts i (turnEvents cause r) strays overdraws := by
  have hnone : (∀ j, r ≠ .leaves (some j)) → ¬ strays := fun hr hst =>
    (hs.mpr hst).elim fun j hj => hr j hj.1
  cases r with
  | runs j => exact .none (by simp [turnEvents, Event.slips]) (hnone (by simp)) ho
  | rests => exact .none (by simp [turnEvents]) (hnone (by simp)) ho
  | leaves o =>
    cases o with
    | none => exact .none (by simp [turnEvents]) (hnone (by simp)) ho
    | some j =>
      obtain ⟨hl, hl'⟩ := countP_lost i j cause
      refine .stranded hl hl' (Iff.trans ⟨fun hp => ⟨j, rfl, hp⟩, ?_⟩ hs) ho
      rintro ⟨k, hk, hp⟩
      cases hk
      exact hp

variable [Kinded τ]

/-- A chore strands and overdraws what it slips, abandons and overdraws. -/
theorem Performs.parts {s : Traffic τ} {c : Chore τ} {d : Deed τ} (h : Performs s c d)
    (ho : s.pool.Orderly) (i : Nat) :
    Parts i d.events (s.ChoreSlips i c ∨ s.ChoreAbandons i c) (s.ChoreOverdraws i c) := by
  have hneither : ¬ (False ∨ False) := not_or.mpr ⟨id, id⟩
  have hsettling : ∀ {c : Chore τ} {v : View} {change : Gate (Job τ) → Gate (Job τ)}
      {es : List (Event τ)}, Settling c v change es → (∀ e ∈ es, e.slips = false) ∧
      ¬ (s.ChoreSlips i c ∨ s.ChoreAbandons i c) ∧ ¬ s.ChoreOverdraws i c := by
    intro c v change es hc
    cases hc with
    | next => exact ⟨by simp, hneither, id⟩
    | release => exact ⟨by simp [Event.slips], hneither, id⟩
    | raise => exact ⟨by simp, hneither, id⟩
  cases h with
  | @idle c hc =>
    refine .none (by simp [Traffic.idle]) ?_ ?_
    · cases c with
      | forward d =>
        cases d with
        | pool => cases hc
        | view => exact hneither
      | submit => exact hneither
      | body => exact hneither
      | _ => cases hc
    · cases c <;> first | exact id | cases hc
  | accepted => exact .none (by simp [Event.slips]) hneither id
  | placed => exact .none (by simp [Event.slips]) hneither id
  | displaced => exact .none (by simp) hneither id
  | refused => exact .none (by simp [refuse, Event.slips]) hneither id
  | entered => exact .none (by simp [Event.slips]) hneither id
  | waits => exact .none (by simp [Event.slips]) hneither id
  | requeued h =>
    have hopen : s.pool.closed ≠ true := by
      rw [(Pool.accept_eq_some_iff.mp h).1]
      exact Bool.false_ne_true
    exact .none (by simp [Event.slips]) (by rintro (⟨hc, -⟩ | hf); exacts [hopen hc, hf])
      fun hover => hopen hover.1
  | @cut k j hc =>
    obtain ⟨hs, ho⟩ := countP_lost i k .cut
    obtain ⟨ho', hs'⟩ := countP_overdrawn (τ := τ) i j.views
    have hstranded : (.misled j.task :: k.lost .cut ++ j.views.map .overdrawn :
        List (Event τ)).countP (Event.isStranding i) = k.passes i := by
      rw [List.countP_append, List.countP_cons, hs, hs']
      rfl
    have hoverdrawn : (.misled j.task :: k.lost .cut ++ j.views.map .overdrawn :
        List (Event τ)).countP (Event.isOverdraft i) = j.passes i := by
      rw [List.countP_append, List.countP_cons, ho, ho']
      exact Nat.zero_add _
    constructor
    · rw [hstranded, hoverdrawn]
      exact ⟨fun hne => .inl ⟨hc, hne⟩, by rintro (⟨-, hne⟩ | hf); exacts [hne, hf.elim]⟩
    · rw [hstranded, hoverdrawn]
      exact ⟨fun hlt => ⟨hc, hlt⟩, fun hover => hover.2⟩
  | handed h =>
    have hkept : s.pool.abandoned ≠ true := fun ha => by
      rw [Pool.submitAccepted_eq_none_iff.mpr ha] at h
      cases h
    exact .none (by simp [taken]) (by rintro (hf | ⟨ha, -⟩); exacts [hf, hkept ha]) id
  | passed => exact .none (by simp [Event.slips]) hneither id
  | waitsAgain => exact .none (by simp [taken]) hneither id
  | @discarded _ _ n j ha =>
    obtain ⟨hs, ho⟩ := countP_stranded (τ := τ) i (j.views.drop n)
    refine Parts.cons rfl (.stranded hs ho ?_ id)
    exact ⟨fun hp => .inr ⟨ha, hp⟩, by rintro (hf | ⟨-, hp⟩); exacts [hf.elim, hp]⟩
  | settled hc => exact .none (hsettling hc).1 (hsettling hc).2.1 (hsettling hc).2.2
  | admits hc =>
    refine .none (fun e he => ?_) (hsettling hc).2.1 (hsettling hc).2.2
    rcases List.mem_append.mp he with he | he
    · exact (hsettling hc).1 e he
    · rw [List.mem_singleton.mp he]
      rfl
  | missing hc => exact .none (hsettling hc).1 (hsettling hc).2.1 (hsettling hc).2.2
  | lowered => exact .none (by simp) hneither id
  | unlowered => exact .none (by simp) hneither id
  | raisedWorker => exact .none (by simp) hneither id
  | loweredWorker => exact .none (by simp) hneither id
  | flushed => exact .none (by simp) hneither id
  | unflushed => exact .none (by simp) hneither id
  | @unfinished w outcome fatal hn =>
    have hslot : ∀ j, s.pool.slotOf? w ≠ some j := fun j hj => by
      cases (ho.slotOf?_eq_none hn).symm.trans hj
    refine .none (by simp) ?_ id
    rintro (⟨-, j, hj, -⟩ | ⟨-, -, j, hj, -⟩)
    · exact hslot j hj
    · exact hslot j hj
  | @finished w outcome x j hw hr =>
    refine Parts.cons rfl (Parts.turn ?_ id)
    constructor
    · rintro ⟨k, hk, hp⟩
      obtain ⟨ha, hs⟩ := Pool.finish_leaves_some_iff.mp hk
      exact .inr ⟨rfl, ha, k, hs, hp⟩
    · rintro (⟨hf, -⟩ | ⟨-, ha, k, hs, hp⟩)
      · cases hf
      · exact ⟨k, Pool.finish_leaves_some_iff.mpr ⟨ha, hs⟩, hp⟩
  | @died w outcome x j hw hr =>
    refine Parts.cons rfl (Parts.turn ?_ id)
    rw [Pool.die_fst]
    constructor
    · rintro ⟨k, hk, hp⟩
      exact .inl ⟨rfl, k, Pool.Turn.leaves.inj hk, hp⟩
    · rintro (⟨-, k, hs, hp⟩ | ⟨hf, -⟩)
      · exact ⟨k, congrArg Pool.Turn.leaves hs, hp⟩
      · cases hf

/-- The end of a body strands admissions exactly if the context of its task was not entered. -/
theorem parts_endBody (s : Traffic τ) (k : Nat) (entered : Bool) (outcome : Except Failure Unit)
    (fatal : Bool) : ∃ es, (s.step (.endBody k entered outcome fatal)).log = s.log ++ es ∧
      ∀ i, Parts i es (s.Strays (.endBody k entered outcome fatal) i) False := by
  by_cases hb : ∃ w j rest, s.threads[k]? = some (.body w j :: rest)
  · obtain ⟨w, j, rest, hi⟩ := hb
    cases entered with
    | true =>
      refine ⟨[], ?_, fun i => .none (by simp) ?_ id⟩
      · simp only [step, hi, if_true, List.append_nil]
      · rintro (⟨hf, -⟩ | hf)
        · cases hf
        · exact hf
    | false =>
      refine ⟨j.views.map .stranded, by simp only [step, hi, Bool.false_eq_true, if_false],
        fun i => ?_⟩
      obtain ⟨hs, ho⟩ := countP_stranded (τ := τ) i j.views
      refine .stranded hs ho ⟨fun hp => .inl ⟨rfl, w, j, rest, hi, hp⟩, ?_⟩ id
      rintro (⟨-, w', j', rest', hi', hp⟩ | hf)
      · cases hi.symm.trans hi'
        exact hp
      · exact hf.elim
  · refine ⟨[], ?_, fun i => .none (by simp) ?_ id⟩
    · rw [List.append_nil]
      simp only [step]
      split
      · exact absurd ⟨_, _, _, ‹_›⟩ hb
      · rfl
    · rintro (⟨-, w, j, rest, hi, -⟩ | hf)
      · exact hb ⟨w, j, rest, hi⟩
      · exact hf

omit [Kinded τ] in
theorem countP_lost_flatMap (i : Nat) (js : List (Job τ)) (cause : Cause) :
    (js.flatMap fun j => j.lost cause).countP (Event.isStranding i) =
        (js.map (Job.passes i)).sum ∧
      (js.flatMap fun j => j.lost cause).countP (Event.isOverdraft i) = 0 := by
  rw [List.countP_flatMap, List.countP_flatMap]
  constructor
  · exact congrArg List.sum (List.map_congr_left fun j _ => (countP_lost i j cause).1)
  · exact List.sum_eq_zero (List.forall_mem_map.mpr fun j _ => (countP_lost i j cause).2)

/-- A termination strands the admissions of the tasks that it drops. -/
theorem parts_terminate (s : Traffic τ) : ∃ es, (s.step .terminate).log = s.log ++ es ∧
    ∀ i, Parts i es (s.Strays .terminate i) False := by
  by_cases hc : s.pool.closed = true ∧ s.pool.atRest = false
  · refine ⟨s.pool.terminate.2.1.flatMap fun j => j.lost .forced, ?_, fun i => ?_⟩
    · simp only [step, if_pos hc]
    · obtain ⟨hs, ho⟩ := countP_lost_flatMap i s.pool.terminate.2.1 .forced
      refine .stranded hs ho ?_ id
      rw [Nat.pos_iff_ne_zero, Ne, List.sum_eq_zero_iff, List.forall_mem_map, not_forall]
      constructor
      · rintro ⟨j, hj⟩
        obtain ⟨hm, hp⟩ := Classical.not_imp.mp hj
        exact .inr ⟨hc.1, hc.2, j, hm, Nat.pos_of_ne_zero hp⟩
      · rintro (hf | ⟨-, -, j, hm, hp⟩)
        · exact hf.elim
        · exact ⟨j, fun hz => absurd (hz hm) (Nat.pos_iff_ne_zero.mp hp)⟩
  · refine ⟨[], ?_, fun i => .none (by simp) ?_ id⟩
    · simp only [step, if_neg hc, List.append_nil]
    · rintro (hf | ⟨hclosed, hrest, -⟩)
      · exact hf
      · exact hc ⟨hclosed, hrest⟩

/-- An act strands and overdraws what it parts from its task and what it overdraws. -/
theorem parts_step {s : Traffic τ} (ho : s.pool.Orderly) (a : Act τ) :
    ∃ es, (s.step a).log = s.log ++ es ∧ ∀ i, Parts i es (s.Strays a i) (s.Overdraws a i) := by
  by_cases hbody : ∃ k entered outcome fatal, a = .endBody k entered outcome fatal
  · obtain ⟨k, entered, outcome, fatal, rfl⟩ := hbody
    exact parts_endBody s k entered outcome fatal
  by_cases hterminate : a = .terminate
  · subst hterminate
    exact parts_terminate s
  have hneither : ¬ (False ∨ False) := not_or.mpr ⟨id, id⟩
  have hidle : ∀ {w : Nat} {x : Worker (Job τ)}, s.pool.worker? w = some x →
      x.phase.task? = none → s.pool.taskOf? w = none := fun hw hx =>
    (Pool.taskOf?_eq hw).trans hx
  have hs := steps s a
  generalize s.step a = s' at hs
  cases hs with
  | stays hs =>
    refine ⟨[], (List.append_nil _).symm, fun i => .none (by simp) ?_ ?_⟩
    · cases a with
      | go k =>
        rintro (⟨c, rest, hi, -⟩ | ⟨c, rest, hi, -⟩)
        · exact hs k c rest rfl hi
        · exact hs k c rest rfl hi
      | endBody k entered outcome fatal => exact absurd ⟨k, entered, outcome, fatal, rfl⟩ hbody
      | terminate => exact absurd rfl hterminate
      | _ => exact hneither
    · cases a with
      | go k =>
        rintro ⟨c, rest, hi, -⟩
        exact hs k c rest rfl hi
      | _ => exact id
  | ended => exact absurd ⟨_, _, _, _, rfl⟩ hbody
  | barred => exact absurd ⟨_, _, _, _, rfl⟩ hbody
  | terminated => exact absurd rfl hterminate
  | built => exact ⟨[], (List.append_nil _).symm, fun i => .none (by simp) hneither id⟩
  | called => exact ⟨_, rfl, fun i => .none (by simp [Event.slips]) hneither id⟩
  | calledFrom => exact ⟨_, rfl, fun i => .none (by simp [Event.slips]) hneither id⟩
  | flushes => exact ⟨[], (List.append_nil _).symm, fun i => .none (by simp) hneither id⟩
  | raised => exact ⟨[], (List.append_nil _).symm, fun i => .none (by simp) hneither id⟩
  | lowered => exact ⟨[], (List.append_nil _).symm, fun i => .none (by simp) hneither id⟩
  | closed => exact ⟨[], (List.append_nil _).symm, fun i => .none (by simp) hneither id⟩
  | began hw hx =>
    have hn := hidle hw (by rw [hx]; rfl)
    refine ⟨_, rfl, fun i => .turn (iff_of_false ?_ hneither) id⟩
    exact fun ⟨j, hj, _⟩ => Pool.begin_ne_leaves_some ho hn j hj
  | @resumed w timedOut woken x hw hx =>
    have hn := hidle hw (by rw [hx]; rfl)
    refine ⟨_, rfl, fun i => .turn (iff_of_false ?_ hneither) id⟩
    exact fun ⟨j, hj, _⟩ => Pool.resume_ne_leaves_some ho hn timedOut j hj
  | @goes k c rest d hi hp =>
    have hhead : ∀ P : Chore τ → Prop,
        (∃ c' rest', s.threads[k]? = some (c' :: rest') ∧ P c') ↔ P c := by
      refine fun P => ⟨?_, fun hc => ⟨c, rest, hi, hc⟩⟩
      rintro ⟨c', rest', hi', hc⟩
      cases hi.symm.trans hi'
      exact hc
    refine ⟨d.events, rfl, fun i => ?_⟩
    obtain ⟨huneven, hover⟩ := hp.parts ho i
    exact ⟨huneven.trans (or_congr (hhead _) (hhead _)).symm, hover.trans (hhead _).symm⟩

/-! ## Views that acts are about -/

omit [Kinded τ] in
theorem lt_of_passes {s : Traffic τ} (h : s.Charted) {j : Job τ}
    (hj : s.Called j.task j.views.reverse) {i : Nat} (hp : 0 < j.passes i) :
    i < s.gates.length := by
  obtain ⟨v, hv, hi⟩ := List.countP_pos_iff.mp hp
  have hk : s.Known v := (h.routes _ _ hj).known v (List.mem_reverse.mpr hv)
  have hlt := hk.id_lt h
  rwa [of_decide_eq_true hi] at hlt

omit [Kinded τ] in
/-- Only tasks of views of the traffic are parted from admissions. -/
theorem Strays.lt {s : Traffic τ} (h : s.Charted) {a : Act τ} {i : Nat} (hs : s.Strays a i) :
    i < s.gates.length := by
  have hfits : ∀ {k : Nat} {c : Chore τ} {rest : List (Chore τ)},
      s.threads[k]? = some (c :: rest) → s.Fits c := fun hk =>
    h.chores _ (List.mem_of_getElem? hk) _ List.mem_cons_self
  cases a with
  | endBody k entered outcome fatal =>
    rcases hs with ⟨-, w, j, rest, hk, hp⟩ | hf
    · exact lt_of_passes h (hfits hk) hp
    · exact hf.elim
  | terminate =>
    rcases hs with hf | ⟨-, -, j, hj, hp⟩
    · exact hf.elim
    · exact lt_of_passes h (h.queued.queued j hj) hp
  | go k =>
    rcases hs with ⟨c, rest, hk, hc⟩ | ⟨c, rest, hk, hc⟩
    · cases c with
      | finish w outcome fatal =>
        obtain ⟨-, j, hj, hp⟩ := hc
        exact lt_of_passes h (h.queued.slotted w j hj) hp
      | requeue displaced submitted =>
        obtain ⟨hd, hj⟩ : s.Called displaced.task displaced.views.reverse ∧
          s.Called submitted.task submitted.views.reverse := hfits hk
        obtain ⟨-, hne⟩ := hc
        rcases Nat.lt_or_gt_of_ne hne with hlt | hlt
        · exact lt_of_passes h hj (Nat.zero_lt_of_lt hlt)
        · exact lt_of_passes h hd (Nat.zero_lt_of_lt hlt)
      | _ => exact hc.elim
    · cases c with
      | finish w outcome fatal =>
        obtain ⟨-, -, j, hj, hp⟩ := hc
        exact lt_of_passes h (h.queued.slotted w j hj) hp
      | forward d j passed =>
        cases d with
        | view => exact hc.elim
        | pool id core =>
          have hj : s.Called j.task (j.views.reverse ++ []) := hfits hk
          rw [List.append_nil] at hj
          refine lt_of_passes h hj (Nat.lt_of_lt_of_le hc.2 ?_)
          exact (List.drop_sublist passed j.views).countP_le
      | _ => exact hc.elim
  | _ => exact hs.elim False.elim False.elim

/-- Views stay. -/
theorem length_gates_step (s : Traffic τ) (a : Act τ) :
    s.gates.length ≤ (s.step a).gates.length := by
  rcases (steps s a).gates with ⟨hg, -⟩ | ⟨base, hg, -⟩ | ⟨-, c, -, -, es, -, ht⟩
  · exact Nat.le_of_eq (congrArg List.length hg.symm)
  · rw [hg, List.length_append]
    exact Nat.le_add_right _ _
  · generalize (s.step a).gates = gs at ht
    cases ht with
    | nothing => exact Nat.le_refl _
    | missing => exact Nat.le_refl _
    | one => exact Nat.le_of_eq List.length_set.symm

theorem length_gates_run (s : Traffic τ) (as : List (Act τ)) :
    s.gates.length ≤ (s.run as).gates.length := by
  induction as generalizing s with
  | nil => exact Nat.le_refl _
  | cons a as ih => exact Nat.le_trans (length_gates_step s a) (ih (s.step a))

/-! ## Counts of one gate -/

/-- The strandings at a view are matched by overdrafts. -/
def Matched (s : Traffic τ) (i : Nat) : Prop := s.strandings i = s.overdrafts i

/-- As long as no act overdraws a view, what is overdrawn is covered, and what is stranded is
matched exactly if nothing is. -/
theorem covered_run (c : Config) {as : List (Act τ)} {i : Nat}
    (h : ∀ us a, us ++ [a] <+: as → ¬ ((start c).run us).Overdraws a i) :
    ((start c).run as).Covered i ∧ (((start c).run as).Matched i ↔
      ∀ us a, us ++ [a] <+: as → ¬ ((start c).run us).Strays a i) := by
  -- induction on the number of acts
  induction as using List.reverseRecOn with
  | nil => exact ⟨Nat.le_refl _, iff_of_true rfl forall_prefix_nil⟩
  | append_singleton as a ih =>
    obtain ⟨hprev, hlast⟩ := forall_prefix_concat_iff.mp h
    obtain ⟨hcov, hmatch⟩ := ih hprev
    obtain ⟨es, hl, hparts⟩ := parts_step (orderly_run c as) a
    have hover : ¬ es.countP (Event.isStranding i) < es.countP (Event.isOverdraft i) := fun hlt =>
      hlast ((hparts i).excess.mp hlt)
    have huneven := (hparts i).uneven
    have hstr : ((start c).run (as ++ [a])).strandings i =
        ((start c).run as).strandings i + es.countP (Event.isStranding i) := by
      rw [run_concat, strandings, hl, List.countP_append, strandings]
    have hovd : ((start c).run (as ++ [a])).overdrafts i =
        ((start c).run as).overdrafts i + es.countP (Event.isOverdraft i) := by
      rw [run_concat, overdrafts, hl, List.countP_append, overdrafts]
    unfold Covered at hcov ⊢
    unfold Matched at hmatch ⊢
    rw [hstr, hovd]
    refine ⟨by omega, Iff.trans ?_ forall_prefix_concat_iff.symm⟩
    rw [← hmatch, ← huneven, not_not]
    -- both sums grew alike, since the strandings were never behind
    omega

/-- As long as no act overdraws a view, its gate counts what it admitted and did not get back. -/
theorem tallied_of_not_overdraws (c : Config) {as : List (Act τ)} {i : Nat}
    (h : ∀ us a, us ++ [a] <+: as → ¬ ((start c).run us).Overdraws a i) :
    ((start c).run as).Tallied i :=
  tallied_run c fun us a hu => (covered_run c fun vs b hv =>
    h vs b (hv.trans ((List.prefix_append us [a]).trans hu))).1

/-- As long as no act overdraws a view, its gate counts at least the tasks that it admitted and that
have not ended, and exactly those if no act parts a task from its admission. -/
theorem running_run (c : Config) {as : List (Act τ)} {i : Nat}
    (h : ∀ us a, us ++ [a] <+: as → ¬ ((start c).run us).Overdraws a i) {x : Gate (Job τ)}
    (hx : ((start c).run as).gates[i]? = some x) :
    ((start c).run as).unended i ≤ x.running ∧ (x.running = ((start c).run as).unended i ↔
      ∀ us a, us ++ [a] <+: as → ¬ ((start c).run us).Strays a i) := by
  have hadd := (tallied_of_not_overdraws c h).running_add (balanced_run _ c as) hx
  obtain ⟨hcov, hmatch⟩ := covered_run c h
  rw [weight_ofGate] at hadd
  rw [← hmatch]
  unfold Covered at hcov
  unfold Matched
  omega

theorem not_overdraws_of_not_strays {s : Traffic τ} {as : List (Act τ)} {i : Nat}
    (h : ∀ us a, us ++ [a] <+: as → ¬ (s.run us).Strays a i) :
    ∀ us a, us ++ [a] <+: as → ¬ (s.run us).Overdraws a i := fun us a hu ho =>
  h us a hu ho.strays

/-- The first act that parts a task from an admission makes its view miscount. -/
theorem not_strays_of_running (c : Config) {as : List (Act τ)} {a : Act τ} {i : Nat}
    (h : ∀ us b, us ++ [b] <+: as → ¬ ((start c).run us).Strays b i)
    (hr : ∀ x, ((start c).run (as ++ [a])).gates[i]? = some x →
      x.running = ((start c).run (as ++ [a])).unended i) :
    ¬ ((start c).run as).Strays a i := by
  obtain ⟨hcov, hmatch⟩ := covered_run c (not_overdraws_of_not_strays h)
  have hmi := hmatch.mpr h
  -- the gate is tallied one act further
  have ht : ((start c).run (as ++ [a])).Tallied i := by
    rw [run_concat]
    exact tallied_step (tallied_of_not_overdraws c (not_overdraws_of_not_strays h))
      (balanced_run _ c as) hcov a
  have hb := balanced_run (Weights.ofGate (τ := τ) i) c (as ++ [a])
  have hs : (start c).run (as ++ [a]) = ((start c).run as).step a := run_concat _ as a
  obtain ⟨es, hl, hparts⟩ := parts_step (orderly_run c as) a
  intro hstray
  have hlt : i < ((start c).run (as ++ [a])).gates.length := by
    rw [hs]
    exact Nat.lt_of_lt_of_le (hstray.lt (charted_run c as)) (length_gates_step _ a)
  have hadd := ht.running_add hb (List.getElem?_eq_getElem hlt)
  have hrun := hr _ (List.getElem?_eq_getElem hlt)
  rw [weight_ofGate, hrun] at hadd
  refine (hparts i).uneven.mpr hstray ?_
  have hcount : ((start c).run (as ++ [a])).strandings i =
      ((start c).run (as ++ [a])).overdrafts i := by omega
  unfold Matched strandings overdrafts at *
  rw [hs, hl, List.countP_append, List.countP_append] at hcount
  omega

/-- In every run a view counts the tasks that it admitted and that have not ended, at every moment,
exactly if no act parts a task from its admission. -/
theorem counted_prefixes_iff (c : Config) (as : List (Act τ)) (i : Nat) :
    (∀ us, us <+: as → ∀ x, ((start c).run us).gates[i]? = some x →
        x.running = ((start c).run us).unended i) ↔
      ∀ us a, us ++ [a] <+: as → ¬ ((start c).run us).Strays a i := by
  constructor
  · intro h
    -- induction on the number of acts
    induction as using List.reverseRecOn with
    | nil => exact forall_prefix_nil
    | append_singleton as a ih =>
      have hi := ih fun us hu => h us (hu.trans (List.prefix_append as [a]))
      exact forall_prefix_concat_iff.mpr ⟨hi, not_strays_of_running c hi (h _ (List.prefix_refl _))⟩
  · intro h us hu x hx
    have hus : ∀ vs a, vs ++ [a] <+: us → ¬ ((start c).run vs).Strays a i := fun vs a hv =>
      h vs a (hv.trans hu)
    exact (running_run c (not_overdraws_of_not_strays hus) hx).2.mpr hus

/-! ## Exact counts -/

/-- Every view counts its admissions exactly. -/
structure Exact (s : Traffic τ) : Prop where
  /-- What runs is what was admitted and has not ended. -/
  running : ∀ (i : Nat) (x : Gate (Job τ)), s.gates[i]? = some x → x.running = s.unended i
  /-- Every admission was given back once, or its task has not ended. -/
  once : ∀ i, i < s.gates.length → s.releases i + s.unended i = s.admissions i
  /-- There is something to give back whenever an admission is. -/
  owed : ∀ (k : Nat) (v : View) (rest : List (Chore τ)) (x : Gate (Job τ)),
    s.threads[k]? = some (.release v :: rest) → s.gates[v.id]? = some x → 0 < x.running
  /-- Only tasks that have not ended keep others waiting. -/
  waiting : ∀ (i : Nat) (x : Gate (Job τ)), s.gates[i]? = some x → x.queue ≠ [] →
    x.limit ≤ s.unended i

/-- Where the counts are tallied and nothing is parted, they are exact. -/
theorem exact_of_matched {s : Traffic τ} (ht : ∀ i, s.Tallied i) (hset : s.Settled)
    (hb : ∀ i, s.Balanced (Weights.ofGate i)) (hm : ∀ i, s.Matched i) : s.Exact := by
  have hrun : ∀ (i : Nat) (x : Gate (Job τ)), s.gates[i]? = some x →
      x.running = s.unended i := by
    intro i x hx
    have hadd := (ht i).running_add (hb i) hx
    have hmi : s.strandings i = s.overdrafts i := hm i
    rw [← weight_ofGate]
    omega
  refine ⟨hrun, fun i hi => ?_, fun k v rest x hk hx => ?_, fun i x hx hq => ?_⟩
  · have hbal := balanced_ofGate (hb i)
    have hmi : s.strandings i = s.overdrafts i := hm i
    rw [← weight_ofGate]
    omega
  · exact (ht v.id).running_pos (hb v.id) (Nat.le_of_eq (hm v.id).symm) hk hx
  · rw [← hrun i x hx]
    exact hset x (List.mem_of_getElem? hx) hq

/-- As long as no act parts a task from its admissions, the counts are exact. -/
theorem exact_run (c : Config) {as : List (Act τ)}
    (h : ∀ us a, us ++ [a] <+: as → ∀ i, ¬ ((start c).run us).Strays a i) :
    ((start c).run as).Exact := by
  have hi : ∀ i us a, us ++ [a] <+: as → ¬ ((start c).run us).Strays a i := fun i us a hu =>
    h us a hu i
  have hover := fun i => not_overdraws_of_not_strays (hi i)
  exact exact_of_matched (fun i => tallied_of_not_overdraws c (hover i)) (settled_run c as)
    (fun i => balanced_run _ c as) fun i => (covered_run c (hover i)).2.mpr (hi i)

omit [Kinded τ] in
/-- Until a forced termination nothing is abandoned. -/
theorem strays_iff {s : Traffic τ} (hk : s.pool.abandoned = false) {a : Act τ}
    (ha : a ≠ .terminate) (i : Nat) : s.Strays a i ↔ s.Slips a i := by
  refine or_iff_left fun hab => ?_
  cases a with
  | terminate => exact ha rfl
  | go k =>
    obtain ⟨c, rest, -, hc⟩ := hab
    cases c with
    | forward d j passed =>
      cases d with
      | pool => exact Bool.false_ne_true (hk.symm.trans hc.1)
      | view => exact hc
    | finish => exact Bool.false_ne_true (hk.symm.trans hc.2.1)
    | _ => exact hc
  | _ => exact hab

theorem strays_run_iff (c : Config) {as us : List (Act τ)} {a : Act τ} (hn : .terminate ∉ as)
    (hu : us ++ [a] <+: as) (i : Nat) :
    ((start c).run us).Strays a i ↔ ((start c).run us).Slips a i :=
  strays_iff (kept_run c fun he => hn (hu.subset (List.mem_append_left [a] he)))
    (fun he => hn (hu.subset (by simp [he]))) i

/-- In a run without a forced termination every view counts the tasks that it admitted and that
have not ended, at every moment, exactly if no act lets an admission slip. -/
theorem exact_prefixes_iff (c : Config) {as : List (Act τ)} (hn : .terminate ∉ as) :
    (∀ us, us <+: as → ((start c).run us).Exact) ↔
      ∀ us a, us ++ [a] <+: as → ∀ i, ¬ ((start c).run us).Slips a i := by
  constructor
  · intro h us a hu i hs
    refine (counted_prefixes_iff c as i).mp (fun vs hv x hx => (h vs hv).running i x hx) us a hu ?_
    exact (strays_run_iff c hn hu i).mpr hs
  · intro h us hu
    refine exact_run c fun vs a hv i hs => h vs a (hv.trans hu) i ?_
    exact (strays_run_iff c hn (hv.trans hu) i).mp hs

/-! ## Overflows -/

omit [Kinded τ] in
/-- A gate does not overflow as long as it counts the admissions that are given back. -/
theorem no_overflow {s : Traffic τ} {i : Nat}
    (ho : ∀ (k : Nat) (v : View) (rest : List (Chore τ)) (x : Gate (Job τ)), v.id = i →
      s.threads[k]? = some (.release v :: rest) → s.gates[i]? = some x → 0 < x.running)
    {d : Gate.Diary (Job τ)} (hd : d.poisoned = false) (hx : s.gates[i]? = some d.gate)
    (a : Act τ) : (d.run (s.sections i a)).poisoned = false := by
  cases a with
  | go k =>
    simp only [sections]
    split
    case h_1 c rest hk =>
      rcases c.sections_cases s.pool.closed i with hs | ⟨t, hs, hr⟩
      · rw [hs]
        exact hd
      · rw [hs]
        refine Bool.eq_false_iff.mpr fun hp => ?_
        obtain ⟨ht, hz⟩ := Gate.Diary.overflow_cases hd hp
        obtain ⟨v, rfl, hv⟩ := hr ht
        have hpos : 0 < d.gate.running := ho k v rest d.gate hv hk hx
        omega
    case h_2 => exact hd
  | _ => exact hd

/-- As long as no act overdraws a view, its gate does not overflow. -/
theorem unpoisoned_run (c : Config) {as bs : List (Act τ)} {i limit : Nat}
    (h : ∀ us a, us ++ [a] <+: as ++ bs → ¬ ((start c).run us).Overdraws a i)
    (hi : ((start c).run as).gates[i]? = some { limit }) :
    ((Gate.Diary.start limit).run (sectionsAt i ((start c).run as) bs)).poisoned = false := by
  -- induction on the number of acts after the gate was made
  induction bs using List.reverseRecOn with
  | nil => rfl
  | append_singleton bs b ih =>
    rw [← List.append_assoc] at h
    have h' := fun us a (hu : us ++ [a] <+: as ++ bs) =>
      h us a (hu.trans (List.prefix_append (as ++ bs) [b]))
    have hx := follows_run (d := Gate.Diary.start limit) hi bs
    rw [← run_append] at hx
    rw [sectionsAt_concat, Gate.Diary.run_append, ← run_append]
    refine no_overflow (fun k v rest x hv hk hg => ?_) (ih h') hx b
    subst hv
    have htallied := tallied_of_not_overdraws c h'
    exact htallied.running_pos (balanced_run _ c _) (covered_run c h').1 hk hg

/-! ## Miscounts -/

/-- Task 1 passed view 0 and is begun, but its context cannot be entered. Then task 2 comes to the
view. -/
def barredRun : List (Act Nat) :=
  [.build none .soft 1, .begin 0, .call (some 0) 1, .go 1, .go 1, .resume 0 false,
    .endBody 2 false (.ok ()) false, .go 2, .call (some 0) 2, .go 3]

/-- Task 0 puts task 1 into the slot of its worker, and displaces it by task 2, which passed view
0. The pool is closed in the middle of that. -/
def overdrawnRun : List (Act Nat) :=
  [.build none .soft 1, .begin 0, .call none 0, .go 1, .resume 0 false, .callFrom 2 none 1 true,
    .go 2, .callFrom 2 (some 0) 2 true, .go 2, .go 2, .close, .go 2, .go 2]

/-- After the first of them nothing runs, and task 2 was accepted and waits behind a task that has
ended. After the second task 2 is in the slot and not counted. -/
theorem admissions_slip :
    (((start lone).run barredRun).Quiet ∧
      .accepted 2 ∈ ((start lone).run barredRun).log ∧
      (((start lone).run barredRun).gates.map fun x => (x.running, x.queue.map Job.task)) =
        [(1, [2])] ∧
      ((start lone).run barredRun).unended 0 = 0) ∧
    ((((start lone).run overdrawnRun).gates.map Gate.running) = [0] ∧
      ((start lone).run overdrawnRun).unended 0 = 1) := by
  have hlog : ((start lone).run barredRun).log[7]? = some (.accepted 2) := rfl
  exact ⟨⟨by decide, List.mem_of_getElem? hlog, by decide, by decide⟩, by decide, by decide⟩

/-- The law for the first of them: an act lets an admission slip. -/
theorem exact_prefixes_iff_barredRun :
    .terminate ∉ barredRun ∧
      ¬ ∀ us a, us ++ [a] <+: barredRun → ∀ i, ¬ ((start lone).run us).Slips a i := by
  have hn : .terminate ∉ barredRun := by simp [barredRun]
  refine ⟨hn, fun hall => ?_⟩
  have hexact := (exact_prefixes_iff lone hn).mpr hall barredRun (List.prefix_refl _)
  have hgate : ((start lone).run barredRun).gates[0]?.map Gate.running = some 1 := rfl
  obtain ⟨x, hx, hr⟩ := Option.map_eq_some_iff.mp hgate
  have hrun := hexact.running 0 x hx
  rw [hr] at hrun
  exact absurd hrun (by decide)

end Traffic

end Workforce
