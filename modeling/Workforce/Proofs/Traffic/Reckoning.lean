import Workforce.Proofs.Traffic.Answers
import Workforce.Proofs.Traffic.Drivers
import Workforce.Proofs.Traffic.Routes
import Workforce.Proofs.Traffic.Starts

/-
  The reckoning of a forced termination. A close that gives up waiting answers how many queued
  tasks it dropped and how many are still running. With the tasks that have ended, these are to be
  all tasks that were accepted, each counted once (`Reckoned`).

  The count looks at the queues and at the counters of the pool. A task in the slot of a worker is in
  neither: it is not counted, and it is not started any more, since its worker leaves as soon as its
  body ends. `reckoned_iff`: where all tasks are submitted to the pool itself, the outcome is right
  exactly if all slots are empty and no task was dropped before.

  All tasks are counted by the ledger (`totals`). The case that a displaced task is on its way from
  a slot to the queues needs no condition of its own: its slot is taken then
  (`Seated.slot_of_requeue`).
-/

namespace Workforce

variable {τ : Type}

/-- The act submits no task to a view. -/
def Traffic.Act.direct : Traffic.Act τ → Bool
  | .call d _ => d.isNone
  | .callFrom _ d _ _ => d.isNone
  | _ => true

/-- The weights that count tasks, and calls. -/
def Weights.perTask : Weights τ := { task := fun _ => 1 }

def Weights.perCall : Weights τ := { call := fun _ => 1 }

namespace Event

/-- The events of a kind. -/
def accepts : Event τ → Bool
  | accepted _ => true
  | _ => false

def misleads : Event τ → Bool
  | misled _ => true
  | _ => false

def ends : Event τ → Bool
  | ended .. => true
  | _ => false

def drops : Event τ → Bool
  | dropped .. => true
  | _ => false

end Event

/-- A view hands on a task. -/
def Chore.forwards : Chore τ → Bool
  | .forward .. => true
  | _ => false

namespace Traffic

/-- The tasks on workers, and in slots. -/
def running (s : Traffic τ) : List (Job τ) := s.pool.workers.filterMap fun x => x.phase.task?

def slotted (s : Traffic τ) : List (Job τ) := s.pool.workers.filterMap Worker.slot

/-- How many tasks were accepted, and have ended. -/
def acceptances (s : Traffic τ) : Nat := s.log.countP Event.accepts

def finishes (s : Traffic τ) : Nat := s.log.countP Event.ends

/-- The outcome of a close that gives up waiting now accounts for all tasks. -/
structure Reckoned [DecidableEq τ] (s : Traffic τ) : Prop where
  /-- A task that was accepted and has not ended is dropped or is running, and not both. -/
  each : ∀ t, .accepted t ∈ s.log → s.log.countP (Event.isEnd t) = 0 →
    countTask t s.pool.terminate.2.1 + countTask t s.running = 1
  /-- With the tasks that have ended these are all. -/
  all : s.pool.terminate.1.dropped + s.pool.terminate.1.running + s.finishes = s.acceptances

/-! ## The ledger of all tasks -/

theorem sum_map_one {α : Type} (xs : List α) : (xs.map fun _ => 1).sum = xs.length := by
  rw [List.map_const', List.sum_replicate_nat, Nat.mul_one]

theorem waiting_perTask (j : Job τ) : j.waiting Weights.perTask = 1 := waiting_eq_task rfl j

theorem waiting_perCall (j : Job τ) : j.waiting Weights.perCall = 0 := waiting_eq_task rfl j

theorem poolWeight_perTask (s : Traffic τ) :
    poolWeight Weights.perTask s.pool =
      (s.pool.cpuQueue ++ s.pool.blockingQueue).length + s.slotted.length + s.running.length := by
  have hw : Job.waiting (Weights.perTask (τ := τ)) = fun _ => 1 := funext waiting_perTask
  have hr : Job.running (Weights.perTask (τ := τ)) = fun _ => 1 := rfl
  have hcrew : s.pool.crewHolding (Job.waiting Weights.perTask) (Job.running Weights.perTask) =
      s.slotted.length + s.running.length := by
    unfold Pool.crewHolding Worker.holding
    rw [hw, hr, List.sum_map_add, sum_worth _ Worker.slot,
      sum_worth _ (fun x : Worker (Job τ) => x.phase.task?), sum_map_one, sum_map_one]
    rfl
  unfold poolWeight Pool.holding Pool.queueHolding
  rw [hcrew, hw, sum_map_one, sum_map_one, List.length_append]
  omega

/-- What a chore carries is what waits for an answer, unless a view hands it on. -/
theorem weight_perTask {c : Chore τ} (h : c.forwards = false) :
    c.weight Weights.perTask = c.weight Weights.perCall := by
  have hadd : ∀ j k : Job τ, j.waiting Weights.perTask + Weights.perTask.call k.task =
      j.waiting Weights.perCall + Weights.perCall.call k.task := fun j k => by
    rw [waiting_perTask, waiting_perCall]
    rfl
  cases c with
  | submit d j slot => exact hadd j j
  | requeue k j => exact hadd k j
  | forward d j n => cases h
  | _ => rfl

theorem outgo_perTask (es : List (Event τ)) :
    outgo Weights.perTask es + es.countP Event.accepts + es.countP Event.misleads =
      outgo Weights.perCall es + es.countP Event.ends + es.countP Event.drops := by
  induction es with
  | nil => rfl
  | cons e es ih =>
    simp only [outgo_cons, List.countP_cons]
    cases e <;> simp [Event.outgo, Event.accepts, Event.misleads, Event.ends, Event.drops,
      Weights.perTask, Weights.perCall] at ih ⊢ <;> omega

theorem income_perTask (es : List (Event τ)) :
    income Weights.perTask es = income Weights.perCall es := by
  induction es with
  | nil => rfl
  | cons e es ih =>
    rw [income_cons, income_cons, ih]
    cases e <;> rfl

/-- Where no view has tasks, what was accepted waits in the pool, runs, has ended or was dropped, and so
is what was kept although its submission was answered with an error. -/
theorem totals {s : Traffic τ} (ht : s.Balanced Weights.perTask)
    (hc : s.Balanced Weights.perCall) (hg : ∀ x ∈ s.gates, x.queue = [])
    (hf : ∀ c ∈ s.threads.flatten, c.forwards = false) :
    (s.pool.cpuQueue ++ s.pool.blockingQueue).length + s.slotted.length + s.running.length +
        s.finishes + s.log.countP Event.drops =
      s.acceptances + s.log.countP Event.misleads := by
  have hgates : ∀ m : Weights τ, gatesWeight m s.gates = 0 := by
    intro m
    refine List.sum_eq_zero (List.forall_mem_map.mpr fun x hx => ?_)
    rw [hg x hx]
    rfl
  have hthreads : threadsWeight Weights.perTask s.threads =
      threadsWeight Weights.perCall s.threads := by
    refine congrArg List.sum (List.map_congr_left fun cs hcs => ?_)
    refine congrArg List.sum (List.map_congr_left fun c hc => ?_)
    exact weight_perTask (hf c (List.mem_flatten.mpr ⟨cs, hcs, hc⟩))
  have hlog := outgo_perTask s.log
  unfold Balanced weight at ht hc
  rw [poolWeight_perTask, hgates, hthreads, income_perTask] at ht
  rw [poolWeight_eq_zero waiting_perCall fun _ => rfl, hgates] at hc
  unfold acceptances finishes
  omega

variable [Kinded τ] {s : Traffic τ}

/-! ## Runs without submissions to views -/

/-- No task was submitted to a view, and no view hands one on. -/
structure Direct (s : Traffic τ) : Prop where
  called : ∀ t route, s.Called t route → route = []
  unforwarded : ∀ c ∈ s.threads.flatten, c.forwards = false

omit [Kinded τ] in
/-- No task waits at a gate. -/
theorem Direct.gates {s : Traffic τ} (h : s.Direct) (hc : s.Charted) : ∀ x ∈ s.gates, x.queue = [] := by
  intro x hx
  obtain ⟨i, hi⟩ := List.getElem?_of_mem hx
  refine List.eq_nil_iff_forall_not_mem.mpr fun j hj => ?_
  obtain ⟨v, -, hr⟩ := hc.gated i x hi j hj
  have hn := h.called _ _ hr
  simp [View.toDispatcher, Dispatcher.views] at hn

/-- Where no task waits at a gate, no chore makes a view hand one on. -/
theorem Performs.forwards {c : Chore τ} {d : Deed τ} (h : Performs s c d)
    (hg : ∀ x ∈ s.gates, x.queue = []) (hc : c.forwards = false) :
    ∀ e ∈ d.todo, e.forwards = false := by
  cases h with
  | idle => simpa [Traffic.idle] using hc
  | passed => cases hc
  | @admits c v change es x j rest hs hx hq =>
    rw [hs.queue, hg x (List.mem_of_getElem? hx)] at hq
    cases hq
  | discarded => cases hc
  | finished =>
    intro e he
    obtain ⟨j, -, rfl⟩ := mem_turnChores.mp he
    rfl
  | died =>
    intro e he
    rw [Pool.die_fst] at he
    cases he
  | _ => simp [refuse, taken, Chore.forwards]

theorem called_step (h : ∀ t route, s.Called t route → route = []) {a : Act τ}
    (ha : a.direct = true) : ∀ t route, (s.step a).Called t route → route = [] := by
  intro t route hr
  rcases (steps s a).logs hr with hm | hl
  · exact h t route hm
  · have hroot : ∀ {n : Option Nat} {d : Dispatcher}, n.isNone = true →
        s.dispatcher? n = some d → d.views = [] := by
      intro n d hn hd
      rw [Option.isNone_iff_eq_none.mp hn] at hd
      cases hd
      rfl
    cases hl with
    | called hd => exact hroot ha hd
    | calledFrom hd => exact hroot ha hd
    | began _ _ he => cases not_rare_turn _ _ _ he
    | resumed _ _ he => cases not_rare_turn _ _ _ he
    | performed _ hp he => exact absurd rfl ((hp.rare he rfl).2.2 t route)
    | terminated he => cases not_rare_lost _ _ _ he

theorem unforwarded_step (hg : ∀ x ∈ s.gates, x.queue = [])
    (h : ∀ c ∈ s.threads.flatten, c.forwards = false) (a : Act τ) :
    ∀ c ∈ (s.step a).threads.flatten, c.forwards = false := by
  intro c hc
  rcases (steps s a).chore hc with hm | hb
  · exact h c hm
  · cases hb with
    | left hi hp he => exact hp.forwards hg (h _ (mem_thread hi List.mem_cons_self)) c he
    | _ => rfl

/-- A run of direct acts stays direct. -/
theorem direct_run (c : Config) {as : List (Act τ)} (hd : ∀ a ∈ as, a.direct = true) :
    ((start c).run as).Direct := by
  -- induction on the number of acts
  induction as using List.reverseRecOn with
  | nil => exact ⟨nofun, nofun⟩
  | append_singleton as a ih =>
    rw [run_concat]
    have h := ih fun b hb => hd b (List.mem_append_left [a] hb)
    exact ⟨called_step h.called (hd a (by simp)),
      unforwarded_step (h.gates (charted_run c as)) h.unforwarded a⟩

/-! ## The ledger of one task -/

section task

variable [DecidableEq τ]

omit [Kinded τ] in
theorem countTask_pos {t : τ} {js : List (Job τ)} {j : Job τ} (hj : j ∈ js) (ht : j.task = t) :
    0 < countTask t js :=
  List.countP_pos_iff.mpr ⟨j, hj, decide_eq_true ht⟩

omit [Kinded τ] [DecidableEq τ] in
theorem mem_slotted {s : Traffic τ} {w : Nat} {j : Job τ} (h : s.pool.slotOf? w = some j) :
    j ∈ s.slotted := by
  obtain ⟨x, hw, hs⟩ := Option.bind_eq_some_iff.mp h
  exact List.mem_filterMap.mpr ⟨x, List.mem_of_getElem? hw, hs⟩

omit [Kinded τ] [DecidableEq τ] in
theorem mem_hands {s : Traffic τ} {c : Chore τ} {j : Job τ} (hc : c ∈ s.threads.flatten)
    (hj : c.job? = some j) : j ∈ s.threads.flatten.filterMap Chore.job? :=
  List.mem_filterMap.mpr ⟨c, hc, hj⟩

omit [Kinded τ] in
/-- A task that was displaced and displaces no other is more often carried than answered for. -/
theorem countTask_call_lt {cs : List (Chore τ)} {k j : Job τ} (hm : .requeue k j ∈ cs)
    (hn : ∀ l i, .requeue l i ∈ cs → i.task ≠ k.task) :
    countTask k.task (cs.filterMap Chore.call?) < countTask k.task (cs.filterMap Chore.job?) := by
  rw [← countTask_eq, ← countTask_eq, ← sum_worth, ← sum_worth]
  refine List.sum_lt_sum _ _ (fun e he => ?_) ⟨_, hm, ?_⟩
  · cases e with
    | requeue l i =>
      refine Nat.le_trans (Nat.le_of_eq ?_) (Nat.zero_le _)
      exact if_neg (hn l i he)
    | submit => exact Nat.le_refl _
    | _ => exact Nat.zero_le _
  · show (if j.task = k.task then 1 else 0) < if k.task = k.task then 1 else 0
    rw [if_neg (hn k j hm), if_pos rfl]
    exact Nat.one_pos

/-- A displaced task was accepted, unless its submission was answered with an error. -/
theorem accepted_of_requeue (c : Config) (as : List (Act τ)) {k j : Job τ}
    (hc : ((start c).run as).calls k.task ≤ 1)
    (hm : .requeue k j ∈ ((start c).run as).threads.flatten)
    (hn : .misled k.task ∉ ((start c).run as).log) :
    .accepted k.task ∈ ((start c).run as).log := by
  have hseated := seated_run c as
  have hplaces := places_eq_calls (balanced_run (Weights.ofTask k.task) c as)
  have hanswers := answers_eq_calls (balanced_run (Weights.ofCall k.task) c as)
  generalize (start c).run as = s at *
  have hhand := countTask_pos (t := k.task) (mem_hands hm rfl) rfl
  unfold places at hplaces
  simp only [List.sum_cons, List.sum_nil] at hplaces
  -- nothing displaced by the task itself is on its way, since the task is in no slot
  have hslot : ∀ l i : Job τ, .requeue l i ∈ s.threads.flatten → i.task ≠ k.task := by
    intro l i hi ht
    obtain ⟨w, hw⟩ := hseated.slot_of_requeue hi
    have hpos := countTask_pos (mem_slotted hw) ht
    unfold slotted at hpos
    omega
  have hlt := countTask_call_lt hm hslot
  have hmis := misleadings_eq_zero hn
  exact acceptances_pos_iff.mp (by omega)

end task

omit [Kinded τ] in
theorem mem_discard {j : Job τ} {n : Nat} {e : Event τ} (h : e ∈ (s.discard j n).events) :
    e = .dropped .forced j ∨ ∃ v, e = .stranded v := by
  refine (List.mem_cons.mp h).imp id fun h => ?_
  obtain ⟨v, -, rfl⟩ := List.mem_map.mp h
  exact ⟨v, rfl⟩

/-! ## Misleading answers -/

/-- Who is misled displaced a task that is dropped now. -/
theorem Performs.misled {c : Chore τ} {d : Deed τ} (h : Performs s c d) {t : τ}
    (hm : .misled t ∈ d.events) : ∃ k j, c = .requeue k j ∧ .dropped .cut k ∈ d.events := by
  cases h with
  | @cut k j => exact ⟨k, j, rfl, by simp [Job.lost]⟩
  | settled hc => cases hc <;> simp at hm
  | admits hc => cases hc <;> simp at hm
  | missing hc => cases hc <;> simp at hm
  | discarded => rcases mem_discard hm with he | ⟨v, he⟩ <;> cases he
  | finished =>
    rcases List.mem_cons.mp hm with hm | hm
    · cases hm
    · cases not_rare_turn _ _ _ hm
  | died =>
    rcases List.mem_cons.mp hm with hm | hm
    · cases hm
    · cases not_rare_turn _ _ _ hm
  | _ => simp [Traffic.idle, refuse, taken] at hm

theorem Steps.misled {s' : Traffic τ} {a : Act τ} (h : Steps s a s') {t : τ}
    (hm : .misled t ∈ s'.log) : .misled t ∈ s.log ∨
      ∃ k j, .requeue k j ∈ s.threads.flatten ∧ .dropped .cut k ∈ s'.log := by
  rcases h.logs hm with hm | hl
  · exact .inl hm
  · cases hl with
    | began _ _ he => cases not_rare_turn _ _ _ he
    | resumed _ _ he => cases not_rare_turn _ _ _ he
    | performed hi hp he hl =>
      obtain ⟨k, j, rfl, hd⟩ := hp.misled he
      exact .inr ⟨k, j, mem_thread hi List.mem_cons_self, hl hd⟩
    | terminated he => cases not_rare_lost _ _ _ he

section misled

variable [DecidableEq τ]

theorem calls_append_le (c : Config) (as : List (Act τ)) (a : Act τ) (t : τ) :
    ((start c).run as).calls t ≤ ((start c).run (as ++ [a])).calls t := by
  rw [run_concat]
  exact (log_prefix_step _ a).sublist.countP_le

/-- If anybody was misled, a task was dropped that had been accepted: the first one that was cut
off. -/
theorem accepted_of_misled (c : Config) (as : List (Act τ))
    (hc : ∀ t, ((start c).run as).calls t ≤ 1) {t : τ} (hm : .misled t ∈ ((start c).run as).log) :
    ∃ k, .dropped .cut k ∈ ((start c).run as).log ∧
      .accepted k.task ∈ ((start c).run as).log := by
  -- induction on the number of acts
  induction as using List.reverseRecOn generalizing t with
  | nil => cases hm
  | append_singleton as a ih =>
    have hc' : ∀ u, ((start c).run as).calls u ≤ 1 := fun u =>
      Nat.le_trans (calls_append_le c as a u) (hc u)
    have hgrows : ((start c).run as).log <+: ((start c).run (as ++ [a])).log := by
      rw [run_concat]
      exact log_prefix_step _ a
    have hold : ∀ {u : τ}, .misled u ∈ ((start c).run as).log →
        ∃ k, .dropped .cut k ∈ ((start c).run (as ++ [a])).log ∧
          .accepted k.task ∈ ((start c).run (as ++ [a])).log := fun hu =>
      (ih hc' hu).imp fun k hk => ⟨hgrows.subset hk.1, hgrows.subset hk.2⟩
    rw [run_concat] at hm
    rcases (steps _ a).misled hm with hm | ⟨k, j, hr, hd⟩
    · exact hold hm
    · by_cases hk : .misled k.task ∈ ((start c).run as).log
      · exact hold hk
      · refine ⟨k, ?_, hgrows.subset (accepted_of_requeue c as (hc' k.task) hr hk)⟩
        rw [run_concat]
        exact hd

end misled

/-! ## After a forced termination -/

omit [Kinded τ] in
theorem started_of_mem_turn {r : Pool.Turn (Job τ)} {cause : Cause} {t : τ}
    (h : .started t ∈ turnEvents cause r) : ∃ j, r.started = some j ∧ j.task = t := by
  rcases r with j | - | (- | j)
  · cases List.mem_singleton.mp h
    exact ⟨j, rfl, rfl⟩
  · cases h
  · cases h
  · simp [turnEvents, Job.lost] at h

/-- A chore starts a task only as the end of another. -/
theorem Performs.started {c : Chore τ} {d : Deed τ} (h : Performs s c d) {t : τ}
    (hm : .started t ∈ d.events) {i : Nat} {rest : List (Chore τ)}
    (hi : s.threads[i]? = some (c :: rest)) : ∃ j, s.started? (.go i) = some j ∧ j.task = t := by
  cases h with
  | finished hw hr =>
    rw [started?_finish hi ((Pool.taskOf?_eq hw).trans hr)]
    rcases List.mem_cons.mp hm with hm | hm
    · cases hm
    · exact started_of_mem_turn hm
  | died =>
    rcases List.mem_cons.mp hm with hm | hm
    · cases hm
    · rw [Pool.die_fst] at hm
      obtain ⟨j, hj, -⟩ := started_of_mem_turn hm
      cases hj
  | settled hc => cases hc <;> simp at hm
  | admits hc => cases hc <;> simp at hm
  | missing hc => cases hc <;> simp at hm
  | discarded => rcases mem_discard hm with he | ⟨v, he⟩ <;> cases he
  | _ => simp [Traffic.idle, refuse, taken, Job.lost] at hm

theorem Steps.started {s' : Traffic τ} {a : Act τ} (h : Steps s a s') {t : τ}
    (hm : .started t ∈ s'.log) : .started t ∈ s.log ∨ ∃ j, s.started? a = some j ∧ j.task = t := by
  rcases h.logs hm with hm | hl
  · exact .inl hm
  · cases hl with
    | began hw hx he =>
      rw [started?_begin hw hx]
      exact .inr (started_of_mem_turn he)
    | resumed hw hx he =>
      rw [started?_resume hw hx]
      exact .inr (started_of_mem_turn he)
    | performed hi hp he => exact .inr (hp.started he hi)
    | terminated he => exact absurd he (by simp [Job.lost])

theorem started?_of_abandoned (h : s.pool.abandoned = true) (a : Act τ) : s.started? a = none := by
  unfold started?
  split
  · exact Pool.started?_of_abandoned h _
  · exact Pool.started?_of_abandoned h _
  · split
    · split <;> exact Pool.started?_of_abandoned h _
    · rfl
  · rfl

theorem abandoned_of_abandoned (h : s.pool.abandoned = true) (a : Act τ) :
    (s.step a).pool.abandoned = true := by
  rcases (steps s a).pool with he | ⟨sec, -, he⟩
  · rw [he]
    exact h
  · rw [he]
    exact Pool.abandoned_of_abandoned h sec

/-- No task is started after a forced termination. -/
theorem not_started_of_abandoned (h : s.pool.abandoned = true) {t : τ} (hn : .started t ∉ s.log)
    (as : List (Act τ)) : .started t ∉ (s.run as).log := by
  induction as generalizing s with
  | nil => exact hn
  | cons a as ih =>
    refine ih (abandoned_of_abandoned h a) fun hm => ?_
    rcases (steps s a).started hm with hm | ⟨j, hj, -⟩
    · exact hn hm
    · rw [started?_of_abandoned h a] at hj
      cases hj

/-! ## The outcome of a close -/

theorem sum_ofKind (ts : List τ) :
    (ts.map (Pool.ofKind .cpu)).sum + (ts.map (Pool.ofKind .blocking)).sum = ts.length := by
  have hone : (fun t : τ => Pool.ofKind .cpu t + Pool.ofKind .blocking t) = fun _ => 1 := by
    funext t
    unfold Pool.ofKind
    cases Kinded.kind t <;> rfl
  rw [← List.sum_map_add, hone, sum_map_one]

/-- The counters of a pool count the tasks on its workers. -/
theorem running_eq {p : Pool τ} (h : Pool.Counted p) :
    p.running = (p.workers.filterMap fun x => x.phase.task?).length := by
  have hk : ∀ k, p.runningOf k =
      ((p.workers.filterMap fun x => x.phase.task?).map (Pool.ofKind k)).sum := by
    intro k
    rw [h k, ← sum_worth]
    unfold Pool.holding Pool.crewHolding Pool.queueHolding Worker.holding
    simp only [List.map_const', List.sum_replicate_nat, Nat.mul_zero, worth_zero, Nat.zero_add]
  rw [← sum_ofKind, ← hk, ← hk]
  rfl

theorem counted_run (c : Config) (as : List (Act τ)) : Pool.Counted ((start c).run as).pool := by
  obtain ⟨ss, hss, -⟩ := exists_sections c as
  rw [hss]
  exact Pool.counted_run c ss

omit [Kinded τ] in
theorem slotted_eq_nil_iff {s : Traffic τ} : s.slotted = [] ↔ ∀ w, s.pool.slotOf? w = none := by
  unfold slotted
  rw [List.filterMap_eq_nil_iff]
  constructor
  · intro h w
    cases hw : s.pool.worker? w with
    | none => rw [Pool.slotOf?, hw]; rfl
    | some x => exact (Pool.slotOf?_eq hw).trans (h x (List.mem_of_getElem? hw))
  · intro h x hx
    obtain ⟨w, hw⟩ := List.getElem?_of_mem hx
    exact (Pool.slotOf?_eq hw).symm.trans (h w)

omit [Kinded τ] in
theorem countP_drops_eq_zero_iff {es : List (Event τ)} :
    es.countP Event.drops = 0 ↔ ∀ cause j, .dropped cause j ∉ es := by
  rw [List.countP_eq_zero]
  refine ⟨fun h cause j he => h _ he rfl, fun h e he hd => ?_⟩
  cases e with
  | dropped cause j => exact h cause j he
  | _ => cases hd

omit [Kinded τ] in
theorem countP_misleads_eq_zero {es : List (Event τ)} (h : ∀ t, .misled t ∉ es) :
    es.countP Event.misleads = 0 := by
  rw [List.countP_eq_zero]
  intro e he hm
  cases e with
  | misled t => exact h t he
  | _ => cases hm

section outcome

variable [DecidableEq τ]

/-- Where no slot is taken, no thread has a task in its hands that was accepted. -/
theorem hands_eq_zero (c : Config) (as : List (Act τ)) (hd : ((start c).run as).Direct)
    (hs : ∀ w, ((start c).run as).pool.slotOf? w = none) {t : τ}
    (hc : ((start c).run as).calls t ≤ 1) (ha : .accepted t ∈ ((start c).run as).log) :
    countTask t (((start c).run as).threads.flatten.filterMap Chore.job?) = 0 := by
  have hseated := seated_run c as
  have hanswers := answers_eq_calls (balanced_run (Weights.ofCall t) c as)
  generalize (start c).run as = s at *
  have hpos := acceptances_pos_iff.mpr ha
  refine List.countP_eq_zero.mpr fun j hj ht => ?_
  obtain ⟨e, he, hj⟩ := List.mem_filterMap.mp hj
  cases e with
  | submit d i slot =>
    -- this submission has not been answered
    cases hj
    have hcall : j ∈ s.threads.flatten.filterMap Chore.call? := List.mem_filterMap.mpr ⟨_, he, rfl⟩
    have hpos := countTask_pos hcall (of_decide_eq_true ht)
    omega
  | requeue k i =>
    obtain ⟨w, hw⟩ := hseated.slot_of_requeue he
    cases (hs w).symm.trans hw
  | forward d i n => cases hd.unforwarded _ he
  | _ => cases hj

theorem calls_eq_one (c : Config) (as : List (Act τ)) {t : τ}
    (hc : ((start c).run as).calls t ≤ 1) (ha : .accepted t ∈ ((start c).run as).log) :
    ((start c).run as).calls t = 1 := by
  have hanswers := answers_eq_calls (balanced_run (Weights.ofCall t) c as)
  have hpos := acceptances_pos_iff.mpr ha
  omega

/-- Where the outcome accounts for all tasks, nobody was misled: the first who was cost a task its
place that the outcome had to count. -/
theorem Reckoned.honest {c : Config} {as : List (Act τ)} (h : ((start c).run as).Reckoned)
    (hc : ∀ t, ((start c).run as).calls t ≤ 1) (t : τ) : .misled t ∉ ((start c).run as).log := by
  intro hm
  obtain ⟨k, hd, ha⟩ := accepted_of_misled c as hc hm
  have hplaces := places_add_drops (fun m => balanced_run m c as)
    ⟨calls_eq_one c as (hc k.task) ha, ha⟩
  have heach := h.each k.task ha
  generalize (start c).run as = s at *
  have hpos : 0 < s.drops k.task := List.countP_pos_iff.mpr ⟨_, hd, decide_eq_true rfl⟩
  unfold places at hplaces
  simp only [List.sum_cons, List.sum_nil] at hplaces
  have hone := heach (by omega)
  have hqueue : s.pool.terminate.2.1 = s.pool.cpuQueue ++ s.pool.blockingQueue := rfl
  rw [hqueue] at hone
  unfold running at hone
  omega

/-- The outcome accounts for all tasks exactly if no slot is taken and nothing was dropped before. -/
theorem reckoned_iff_of_direct (c : Config) (as : List (Act τ)) (hd : ((start c).run as).Direct)
    (hc : ∀ t, ((start c).run as).calls t ≤ 1) : ((start c).run as).Reckoned ↔
      (∀ w, ((start c).run as).pool.slotOf? w = none) ∧
        ∀ cause j, .dropped cause j ∉ ((start c).run as).log := by
  have hsum := totals (balanced_run Weights.perTask c as) (balanced_run Weights.perCall c as)
    (hd.gates (charted_run c as)) hd.unforwarded
  have hrun := running_eq (counted_run c as)
  have hcount : ((start c).run as).pool.terminate.1.dropped +
      ((start c).run as).pool.terminate.1.running =
      (((start c).run as).pool.cpuQueue ++ ((start c).run as).pool.blockingQueue).length +
        ((start c).run as).running.length := congrArg (_ + ·) hrun
  rw [← slotted_eq_nil_iff, ← countP_drops_eq_zero_iff]
  constructor
  · intro h
    have hall := h.all
    have hmis := countP_misleads_eq_zero (h.honest hc)
    refine ⟨List.eq_nil_of_length_eq_zero ?_, ?_⟩ <;> omega
  · rintro ⟨hs, hn⟩
    have hnone := countP_drops_eq_zero_iff.mp hn
    refine ⟨fun t ha he => ?_, ?_⟩
    · have hplaces := places_add_drops (fun m => balanced_run m c as)
        ⟨calls_eq_one c as (hc t) ha, ha⟩
      have hhands := hands_eq_zero c as hd (slotted_eq_nil_iff.mp hs) (hc t) ha
      have hgates : ((start c).run as).gates.flatMap Gate.queue = [] :=
        List.flatMap_eq_nil_iff.mpr (hd.gates (charted_run c as))
      have hdrops : ((start c).run as).drops t = 0 := by
        refine List.countP_eq_zero.mpr fun e hm ht => ?_
        obtain ⟨cause, j, rfl⟩ := exists_of_isDrop ht
        exact hnone cause j hm
      unfold slotted at hs
      unfold places at hplaces
      have hqueue : ((start c).run as).pool.terminate.2.1 =
          ((start c).run as).pool.cpuQueue ++ ((start c).run as).pool.blockingQueue := rfl
      have hzero : countTask t ([] : List (Job τ)) = 0 := rfl
      rw [hs, hgates, hhands, he, hdrops] at hplaces
      simp only [List.sum_cons, List.sum_nil, hzero] at hplaces
      rw [hqueue]
      unfold running
      omega
    · have hmis : ((start c).run as).log.countP Event.misleads = 0 :=
        countP_misleads_eq_zero fun t ht =>
          (accounts_run c as t ht).elim fun k hk => hnone .cut k hk
      rw [hs, List.length_nil] at hsum
      omega

/-- What a close drops that gives up waiting was not started. -/
theorem not_started_of_queued (c : Config) (as : List (Act τ)) {j : Job τ}
    (hc : ((start c).run as).calls j.task ≤ 1)
    (hj : j ∈ ((start c).run as).pool.cpuQueue ++ ((start c).run as).pool.blockingQueue) :
    .started j.task ∉ ((start c).run as).log := by
  have hplaces := places_eq_calls (balanced_run (Weights.ofTask j.task) c as)
  have hstarts := starts_eq (balanced_run (Weights.ofRun j.task) c as)
  have hpos := countTask_pos hj rfl
  unfold places at hplaces
  simp only [List.sum_cons, List.sum_nil] at hplaces
  intro hm
  have hstarted : 0 < ((start c).run as).starts j.task :=
    List.countP_pos_iff.mpr ⟨_, hm, decide_eq_true rfl⟩
  omega

/-- Tasks are submitted to the pool itself, each under a name of its own. A close that gives up
waiting answers how many queued tasks it drops and how many tasks run, and what it drops is never
started. It accounts for every task that was accepted exactly if no worker has a task in its slot
and no task was dropped before. -/
theorem reckoned_iff (c : Config) {as : List (Act τ)} (hd : ∀ a ∈ as, a.direct = true)
    (hc : ∀ t, ((start c).run as).calls t ≤ 1) (ho : ((start c).run as).pool.closed = true)
    (hr : ((start c).run as).pool.atRest = false) :
    (((start c).run as).pool.terminate.1.dropped =
        ((start c).run as).pool.terminate.2.1.length ∧
      ((start c).run as).pool.terminate.1.running = ((start c).run as).running.length ∧
      ∀ j ∈ ((start c).run as).pool.terminate.2.1, ∀ bs,
        .started j.task ∉ ((start c).run (as ++ .terminate :: bs)).log) ∧
    (((start c).run as).Reckoned ↔
      (∀ w, ((start c).run as).pool.slotOf? w = none) ∧
        ∀ cause j, .dropped cause j ∉ ((start c).run as).log) := by
  refine ⟨⟨rfl, running_eq (counted_run c as), fun j hj bs => ?_⟩,
    reckoned_iff_of_direct c as (direct_run c hd) hc⟩
  have hstep : (start c).run (as ++ .terminate :: bs) =
      (((start c).run as).step .terminate).run bs := run_append _ as _
  have hn := not_started_of_queued c as (hc j.task) hj
  rw [hstep]
  generalize (start c).run as = s at *
  have habandoned : (s.step .terminate).pool.abandoned = true := by
    rw [step, if_pos ⟨ho, hr⟩]
    rfl
  refine not_started_of_abandoned habandoned (fun hm => ?_) bs
  rcases (steps s .terminate).started hm with hm | ⟨i, hi, -⟩
  · exact hn hm
  · cases hi

end outcome

/-! ## Tasks that are not counted -/

/-- Task 0 runs with task 1 in the slot of its worker when the pool is closed. -/
def seatedRun : List (Act Nat) := slotRun ++ [.close]

/-- Task 0 runs and task 1 is in the queue when the pool is closed. -/
def queuedRun : List (Act Nat) :=
  [.begin 0, .call none 0, .go 1, .resume 0 false, .call none 1, .go 3, .close]

/-- Task 1 was accepted and has not ended, and the close counts it neither as dropped nor as
running. It is not started any more. -/
theorem slot_not_reckoned :
    ((start lone).run seatedRun).log.countP (Event.isAcceptance 1) = 1 ∧
      ((start lone).run seatedRun).log.countP (Event.isEnd 1) = 0 ∧
      ((start lone).run seatedRun).pool.terminate.1 = ⟨false, 0, 1⟩ ∧
      ((start lone).run seatedRun).acceptances = 2 ∧
      ((start lone).run seatedRun).finishes = 0 ∧
      ¬ ((start lone).run seatedRun).Reckoned ∧
      ((start lone).run (seatedRun ++ [.terminate, .endBody 2 true (.ok ()) false, .go 2])).starts 1
        = 0 := by
  refine ⟨by decide, by decide, by decide, by decide, by decide, ?_, by decide⟩
  exact fun h => absurd h.all (by decide)

/-- Nothing is missing where task 1 waits in the queue. -/
theorem reckoned_iff_queuedRun :
    (∀ a ∈ queuedRun, a.direct = true) ∧ (∀ t, ((start lone).run queuedRun).calls t ≤ 1) ∧
      ((start lone).run queuedRun).pool.closed = true ∧
      ((start lone).run queuedRun).pool.atRest = false ∧
      ((start lone).run queuedRun).pool.terminate.1 = ⟨false, 1, 1⟩ ∧
      ((start lone).run queuedRun).acceptances = 2 ∧ ((start lone).run queuedRun).Reckoned := by
  have hd : ∀ a ∈ queuedRun, a.direct = true := by decide
  have hc : ∀ t, ((start lone).run queuedRun).calls t ≤ 1
    | 0 => by decide
    | 1 => by decide
    | _ + 2 => Nat.zero_le 1
  refine ⟨hd, hc, by decide, by decide, by decide, by decide, ?_⟩
  refine (reckoned_iff lone hd hc (by decide) (by decide)).2.mpr ⟨?_, ?_⟩
  · rintro (_ | w) <;> rfl
  · exact countP_drops_eq_zero_iff.mp (by decide)

end Traffic

end Workforce
