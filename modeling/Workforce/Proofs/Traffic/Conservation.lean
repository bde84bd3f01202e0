import Mathlib.Data.List.Induction
import Workforce.Proofs.Traffic.Crew
import Workforce.Proofs.Traffic.Ledger

/-
  Where tasks are. `places` counts how often a task is in each place where it can be: the queues
  of the pool, the slots of workers, the queues of views, the hands of threads, on workers, and
  among the tasks that have ended. A task that was accepted is in one place at any time, or it was
  dropped once (`places_add_drops`).

  While the pool and its views are held, two acts lose tasks (`Loses`): a worker dies with a task
  in its slot, and a task displaced from a slot by a later submission finds the pool closed. An
  act drops what it loses, and what a forced termination leaves behind (`Steps.discards`).
-/

namespace Workforce

variable {τ : Type}

/-! ## Counting -/

theorem sum_map_ite {α : Type} (p : α → Prop) [DecidablePred p] (xs : List α) :
    (xs.map fun x => if p x then 1 else 0).sum = xs.countP fun x => p x := by
  induction xs with
  | nil => rfl
  | cons x xs ih =>
    rw [List.map_cons, List.sum_cons, ih, List.countP_cons]
    by_cases h : p x
    · simp [h, Nat.add_comm]
    · simp [h]

theorem sum_worth {α β : Type} (f : β → Nat) (o : α → Option β) (xs : List α) :
    (xs.map fun x => Worth f (o x)).sum = ((xs.filterMap o).map f).sum := by
  induction xs with
  | nil => rfl
  | cons x xs ih =>
    cases h : o x with
    | none => simp [h, ih]
    | some y => simp [h, ih]

theorem sum_flatMap {α β : Type} (f : β → Nat) (l : α → List β) (xs : List α) :
    (xs.map fun x => ((l x).map f).sum).sum = ((xs.flatMap l).map f).sum := by
  induction xs with
  | nil => rfl
  | cons x xs ih =>
    simp only [List.map_cons, List.sum_cons, ih, List.flatMap_cons, List.map_append,
      List.sum_append]

/-- The job that a chore carries. -/
def Chore.job? : Chore τ → Option (Job τ)
  | .submit _ j _ => some j
  | .requeue displaced _ => some displaced
  | .forward _ j _ => some j
  | _ => none

/-- The job whose submission a chore will answer. -/
def Chore.call? : Chore τ → Option (Job τ)
  | .submit _ j _ => some j
  | .requeue _ submitted => some submitted
  | _ => none

variable [DecidableEq τ]

/-- How often a task is among jobs. -/
def countTask (t : τ) (js : List (Job τ)) : Nat := js.countP fun j => j.task = t

/-- The weights that count one task, one call, or one start. -/
def Weights.ofTask (t : τ) : Weights τ := { task := fun u => if u = t then 1 else 0 }

def Weights.ofCall (t : τ) : Weights τ := { call := fun u => if u = t then 1 else 0 }

def Weights.ofRun (t : τ) : Weights τ := { run := fun u => if u = t then 1 else 0 }

namespace Event

/-- The event of a kind about a task. -/
def isCall (t : τ) : Event τ → Bool
  | called u _ => u = t
  | _ => false

def isStart (t : τ) : Event τ → Bool
  | started u => u = t
  | _ => false

def isEnd (t : τ) : Event τ → Bool
  | ended u _ => u = t
  | _ => false

def isDrop (t : τ) : Event τ → Bool
  | dropped _ j => j.task = t
  | _ => false

/-- A task is dropped although the pool was not terminated by force. -/
def isLoss (t : τ) : Event τ → Bool
  | dropped .forced _ => false
  | dropped _ j => j.task = t
  | _ => false

def isAcceptance (t : τ) : Event τ → Bool
  | accepted u => u = t
  | _ => false

def isMisleading (t : τ) : Event τ → Bool
  | misled u => u = t
  | _ => false

def isRefusal (t : τ) : Event τ → Bool
  | refused j => j.task = t
  | _ => false

end Event

namespace Traffic

/-- How often a task was submitted, started, and dropped after its submission. -/
def calls (s : Traffic τ) (t : τ) : Nat := s.log.countP (Event.isCall t)

def starts (s : Traffic τ) (t : τ) : Nat := s.log.countP (Event.isStart t)

def drops (s : Traffic τ) (t : τ) : Nat := s.log.countP (Event.isDrop t)

/-- How often a task is in each place: queues of the pool, slots, queues of views, hands of
threads, workers, and the tasks that have ended. -/
def places (s : Traffic τ) (t : τ) : List Nat :=
  [countTask t (s.pool.cpuQueue ++ s.pool.blockingQueue),
    countTask t (s.pool.workers.filterMap Worker.slot),
    countTask t (s.gates.flatMap Gate.queue),
    countTask t (s.threads.flatten.filterMap Chore.job?),
    countTask t (s.pool.workers.filterMap fun x => x.phase.task?),
    s.log.countP (Event.isEnd t)]

/-! ## Places and weights -/

omit [DecidableEq τ] in
theorem views_eq_zero {m : Weights τ} (h : m.admission = fun _ => 0) (vs : List View) :
    m.views vs = 0 := by
  induction vs with
  | nil => rfl
  | cons v vs ih => rw [views_cons, ih, h]

omit [DecidableEq τ] in
theorem waiting_eq_task {m : Weights τ} (h : m.admission = fun _ => 0) (j : Job τ) :
    j.waiting m = m.task j.task := by
  rw [Job.waiting, views_eq_zero h, Nat.add_zero]

omit [DecidableEq τ] in
theorem poolWeight_eq_zero {m : Weights τ} (hw : ∀ j : Job τ, j.waiting m = 0)
    (hr : ∀ j : Job τ, j.running m = 0) (p : Pool (Job τ)) : poolWeight m p = 0 := by
  have hworth : ∀ {f : Job τ → Nat} (o : Option (Job τ)), (∀ j, f j = 0) → Worth f o = 0 := by
    intro f o hf
    cases o with
    | none => rfl
    | some j => exact hf j
  exact (Pool.holding_eq_zero_iff _ _ p).mpr
    ⟨fun j _ => hw j, fun x _ => ⟨hworth x.slot hw, hworth x.phase.task? hr⟩⟩

omit [DecidableEq τ] in
theorem gatesWeight_eq_zero {m : Weights τ} (hw : ∀ j : Job τ, j.waiting m = 0)
    (gs : List (Gate (Job τ))) : gatesWeight m gs = 0 := by
  unfold gatesWeight
  refine List.sum_eq_zero (List.forall_mem_map.mpr fun x _ => ?_)
  exact List.sum_eq_zero (List.forall_mem_map.mpr fun j _ => hw j)

theorem countTask_eq (t : τ) (js : List (Job τ)) :
    (js.map fun j => if j.task = t then 1 else 0).sum = countTask t js :=
  sum_map_ite (fun j => j.task = t) js

theorem poolWeight_ofTask (t : τ) (p : Pool (Job τ)) :
    poolWeight (Weights.ofTask t) p = countTask t (p.cpuQueue ++ p.blockingQueue) +
      countTask t (p.workers.filterMap Worker.slot) +
      countTask t (p.workers.filterMap fun x => x.phase.task?) := by
  have hw : Job.waiting (Weights.ofTask t) = fun j => if j.task = t then 1 else 0 :=
    funext (waiting_eq_task rfl)
  have hr : Job.running (Weights.ofTask t) = fun j => if j.task = t then 1 else 0 := rfl
  have hc : p.crewHolding (Job.waiting (Weights.ofTask t)) (Job.running (Weights.ofTask t)) =
      countTask t (p.workers.filterMap Worker.slot) +
        countTask t (p.workers.filterMap fun x => x.phase.task?) := by
    unfold Pool.crewHolding
    rw [hw, hr]
    unfold Worker.holding
    rw [List.sum_map_add, sum_worth _ Worker.slot,
      sum_worth _ (fun x : Worker (Job τ) => x.phase.task?),
      countTask_eq, countTask_eq]
  have hq : p.queueHolding (Job.waiting (Weights.ofTask t)) =
      countTask t (p.cpuQueue ++ p.blockingQueue) := by
    unfold Pool.queueHolding
    rw [hw, countTask_eq, countTask_eq]
    unfold countTask
    rw [List.countP_append]
  unfold poolWeight Pool.holding
  rw [hc, hq]
  omega

theorem gatesWeight_ofTask (t : τ) (gs : List (Gate (Job τ))) :
    gatesWeight (Weights.ofTask t) gs = countTask t (gs.flatMap Gate.queue) := by
  have hw : Job.waiting (Weights.ofTask t) = fun j => if j.task = t then 1 else 0 :=
    funext (waiting_eq_task rfl)
  unfold gatesWeight
  rw [hw, sum_flatMap, countTask_eq]

theorem threadsWeight_ofTask (t : τ) (ts : List (List (Chore τ))) :
    threadsWeight (Weights.ofTask t) ts = countTask t (ts.flatten.filterMap Chore.job?) := by
  have hc : Chore.weight (Weights.ofTask t) =
      fun c => Worth (fun j : Job τ => if j.task = t then 1 else 0) c.job? := by
    funext c
    cases c <;> simp [Chore.weight, Chore.job?, Job.waiting, views_eq_zero, Weights.ofTask]
  unfold threadsWeight choresWeight
  rw [hc, sum_flatMap, List.flatMap_id', sum_worth, countTask_eq]

theorem outgo_ofTask (t : τ) (es : List (Event τ)) :
    outgo (Weights.ofTask t) es =
      es.countP (Event.isRefusal t) + es.countP (Event.isEnd t) + es.countP (Event.isDrop t) := by
  have he : Event.outgo (Weights.ofTask t) = fun e =>
      (if Event.isRefusal t e = true then 1 else 0) + (if Event.isEnd t e = true then 1 else 0) +
        (if Event.isDrop t e = true then 1 else 0) := by
    funext e
    cases e <;> simp [Event.outgo, Event.isRefusal, Event.isEnd, Event.isDrop, Weights.ofTask]
  unfold outgo
  rw [he, List.sum_map_add, List.sum_map_add, sum_map_ite, sum_map_ite, sum_map_ite]
  simp

theorem income_ofTask (t : τ) (es : List (Event τ)) :
    income (Weights.ofTask t) es = es.countP (Event.isCall t) := by
  have he : Event.income (Weights.ofTask t) = fun e => if Event.isCall t e = true then 1 else 0 := by
    funext e
    cases e <;> simp [Event.income, Event.isCall, Weights.ofTask]
  unfold income
  rw [he, sum_map_ite]
  simp

/-- Each call of a task put it in one place, or it was refused or dropped. -/
theorem places_eq_calls {s : Traffic τ} {t : τ} (h : s.Balanced (Weights.ofTask t)) :
    (s.places t).sum + s.log.countP (Event.isRefusal t) + s.drops t = s.calls t := by
  unfold Balanced weight at h
  rw [poolWeight_ofTask, gatesWeight_ofTask, threadsWeight_ofTask, outgo_ofTask, income_ofTask] at h
  unfold drops places calls
  simp only [List.sum_cons, List.sum_nil]
  omega

/-! ## Answers and starts -/

theorem waiting_ofCall (t : τ) (j : Job τ) : j.waiting (Weights.ofCall t) = 0 :=
  waiting_eq_task rfl j

theorem threadsWeight_ofCall (t : τ) (ts : List (List (Chore τ))) :
    threadsWeight (Weights.ofCall t) ts = countTask t (ts.flatten.filterMap Chore.call?) := by
  have hc : Chore.weight (Weights.ofCall t) =
      fun c => Worth (fun j : Job τ => if j.task = t then 1 else 0) c.call? := by
    funext c
    cases c with
    | submit d j slot =>
      rw [Chore.weight, waiting_ofCall, Nat.zero_add]
      rfl
    | requeue k j =>
      rw [Chore.weight, waiting_ofCall, Nat.zero_add]
      rfl
    | forward d j n => exact waiting_ofCall t j
    | body w j => exact views_eq_zero rfl j.views
    | _ => rfl
  unfold threadsWeight choresWeight
  rw [hc, sum_flatMap, List.flatMap_id', sum_worth, countTask_eq]

/-- A call returns once: with a success, with a refusal, or misleadingly. -/
theorem outgo_ofCall (t : τ) (es : List (Event τ)) :
    outgo (Weights.ofCall t) es =
      es.countP (Event.isAcceptance t) + es.countP (Event.isRefusal t) +
        es.countP (Event.isMisleading t) := by
  have he : Event.outgo (Weights.ofCall t) = fun e =>
      (if Event.isAcceptance t e = true then 1 else 0) +
        (if Event.isRefusal t e = true then 1 else 0) +
        (if Event.isMisleading t e = true then 1 else 0) := by
    funext e
    cases e <;> simp [Event.outgo, Event.isAcceptance, Event.isRefusal, Event.isMisleading,
      Weights.ofCall]
  unfold outgo
  rw [he, List.sum_map_add, List.sum_map_add, sum_map_ite, sum_map_ite, sum_map_ite]
  simp

theorem income_ofCall (t : τ) (es : List (Event τ)) :
    income (Weights.ofCall t) es = es.countP (Event.isCall t) := by
  have he : Event.income (Weights.ofCall t) = fun e => if Event.isCall t e = true then 1 else 0 := by
    funext e
    cases e <;> simp [Event.income, Event.isCall, Weights.ofCall]
  unfold income
  rw [he, sum_map_ite]
  simp

theorem acceptances_pos_iff {es : List (Event τ)} {t : τ} :
    0 < es.countP (Event.isAcceptance t) ↔ .accepted t ∈ es := by
  rw [List.countP_pos_iff]
  constructor
  · rintro ⟨e, he, ht⟩
    cases e with
    | accepted u =>
      cases of_decide_eq_true ht
      exact he
    | _ => cases ht
  · exact fun h => ⟨_, h, decide_eq_true rfl⟩

theorem misleadings_eq_zero {es : List (Event τ)} {t : τ} (h : .misled t ∉ es) :
    es.countP (Event.isMisleading t) = 0 := by
  rw [List.countP_eq_zero]
  intro e he ht
  cases e with
  | misled u =>
    cases of_decide_eq_true ht
    exact h he
  | _ => cases ht

/-- Each call of a task has been answered or is under way. -/
theorem answers_eq_calls {s : Traffic τ} {t : τ} (h : s.Balanced (Weights.ofCall t)) :
    countTask t (s.threads.flatten.filterMap Chore.call?) + s.log.countP (Event.isAcceptance t) +
        s.log.countP (Event.isRefusal t) + s.log.countP (Event.isMisleading t) = s.calls t := by
  unfold Balanced weight at h
  rw [poolWeight_eq_zero (waiting_ofCall t) fun _ => rfl, gatesWeight_eq_zero (waiting_ofCall t),
    threadsWeight_ofCall, outgo_ofCall, income_ofCall] at h
  unfold calls
  omega

/-- A task called once whose submission succeeded was not refused. -/
theorem refusals_eq_zero {s : Traffic τ} {t : τ} (h : s.Balanced (Weights.ofCall t))
    (hc : s.calls t = 1) (ha : .accepted t ∈ s.log) : s.log.countP (Event.isRefusal t) = 0 := by
  have hpos := acceptances_pos_iff.mpr ha
  have hsum := answers_eq_calls h
  omega

theorem starts_eq {s : Traffic τ} {t : τ} (h : s.Balanced (Weights.ofRun t)) :
    s.starts t = countTask t (s.pool.workers.filterMap fun x => x.phase.task?) +
      s.log.countP (Event.isEnd t) := by
  have hw : ∀ j : Job τ, j.waiting (Weights.ofRun t) = 0 := waiting_eq_task rfl
  have hpool : poolWeight (Weights.ofRun t) s.pool =
      countTask t (s.pool.workers.filterMap fun x => x.phase.task?) := by
    have hz : ∀ js : List (Job τ), (js.map (Job.waiting (Weights.ofRun t))).sum = 0 := fun js =>
      List.sum_eq_zero (List.forall_mem_map.mpr fun j _ => hw j)
    have hq : s.pool.queueHolding (Job.waiting (Weights.ofRun t)) = 0 := by
      rw [Pool.queueHolding, hz, hz]
    have hr : Job.running (Weights.ofRun t) = fun j => if j.task = t then 1 else 0 := by
      funext j
      simp [Job.running, Weights.ofRun]
    unfold poolWeight Pool.holding Pool.crewHolding Worker.holding
    rw [hq, List.sum_map_add, sum_worth _ Worker.slot,
      sum_worth _ (fun x : Worker (Job τ) => x.phase.task?),
      hr, countTask_eq, hz]
    omega
  have hgates := gatesWeight_eq_zero hw s.gates
  have hthreads : threadsWeight (Weights.ofRun t) s.threads = 0 := by
    refine List.sum_eq_zero (List.forall_mem_map.mpr fun cs _ => ?_)
    refine choresWeight_eq_zero _ fun c _ => ?_
    cases c with
    | submit d j slot => exact hw j
    | requeue k j => exact hw k
    | forward d j n => exact hw j
    | body w j => exact views_eq_zero rfl j.views
    | _ => rfl
  have hout : outgo (Weights.ofRun t) s.log = s.log.countP (Event.isEnd t) := by
    have he : Event.outgo (Weights.ofRun t) = fun e => if Event.isEnd t e = true then 1 else 0 := by
      funext e
      cases e <;> simp [Event.outgo, Event.isEnd, Weights.ofRun]
    unfold outgo
    rw [he, sum_map_ite]
    simp
  have hin : income (Weights.ofRun t) s.log = s.starts t := by
    have he : Event.income (Weights.ofRun t) =
        fun e => if Event.isStart t e = true then 1 else 0 := by
      funext e
      cases e <;> simp [Event.income, Event.isStart, Weights.ofRun]
    unfold income starts
    rw [he, sum_map_ite]
    simp
  unfold Balanced weight at h
  omega

/-- A task was submitted once, and its submission returned without an error. -/
structure Accepted (s : Traffic τ) (t : τ) : Prop where
  once : s.calls t = 1
  answered : .accepted t ∈ s.log

/-- A task is in exactly one place, was started at most once and was not dropped. -/
structure Conserved (s : Traffic τ) (t : τ) : Prop where
  placed : (s.places t).sum = 1
  started : s.starts t ≤ 1
  kept : s.drops t = 0

/-- A task called once and accepted is in one place, or it was dropped once. -/
theorem places_add_drops {s : Traffic τ} (hb : ∀ m, s.Balanced m) {t : τ} (ha : s.Accepted t) :
    (s.places t).sum + s.drops t = 1 := by
  have hp := places_eq_calls (hb (Weights.ofTask t))
  have hr := refusals_eq_zero (hb (Weights.ofCall t)) ha.once ha.answered
  have hc := ha.once
  omega

theorem starts_le_places {s : Traffic τ} {t : τ} (h : s.Balanced (Weights.ofRun t)) :
    s.starts t ≤ (s.places t).sum := by
  rw [starts_eq h]
  unfold places
  simp only [List.sum_cons, List.sum_nil]
  omega

/-- An accepted task is conserved unless it was dropped. -/
theorem conserved_iff_drops {s : Traffic τ} (hb : ∀ m, s.Balanced m) {t : τ} (ha : s.Accepted t) :
    s.Conserved t ↔ s.drops t = 0 := by
  have hp := places_add_drops hb ha
  have hs := starts_le_places (hb (Weights.ofRun t))
  exact ⟨fun h => h.kept, fun hd => ⟨by omega, by omega, hd⟩⟩

/-! ## Acts that lose tasks -/

variable [Kinded τ]

/-- A chore loses a task, in a pool that is held: a worker dies with the task in its slot, or the
task was displaced from a slot and the pool is closed now. -/
def ChoreLoses (s : Traffic τ) (t : τ) : Chore τ → Prop
  | .finish w _ fatal => fatal = true ∧ ∃ j, s.pool.slotOf? w = some j ∧ j.task = t
  | .requeue displaced _ => displaced.task = t ∧ s.pool.closed = true
  | _ => False

/-- An act loses a task: a thread performs a chore that does. -/
def Loses (s : Traffic τ) (a : Act τ) (t : τ) : Prop :=
  match a with
  | .go i => ∃ c rest, s.threads[i]? = some (c :: rest) ∧ s.ChoreLoses t c
  | _ => False

/-- Whether events drop a task once or not at all. -/
def DropsIf (t : τ) (es : List (Event τ)) (lost : Prop) : Prop :=
  (lost → es.countP (Event.isDrop t) = 1) ∧ (¬ lost → es.countP (Event.isDrop t) = 0)

/-- What events drop: only what a forced termination leaves behind, or one task that is lost. -/
inductive Discards (es : List (Event τ)) (forced : Prop) (lost : τ → Prop) : Prop where
  | forced (h : ∀ cause j, .dropped cause j ∈ es → cause = .forced ∧ forced) (hl : ∀ t, ¬ lost t)
  | one (cause : Cause) (j : Job τ) (us vs : List (Event τ)) (hc : cause ≠ .forced)
      (he : es = us ++ .dropped cause j :: vs) (hn : ∀ c k, .dropped c k ∉ us ++ vs)
      (hl : ∀ t, lost t ↔ j.task = t)

omit [Kinded τ] [DecidableEq τ] in
theorem Discards.none {es : List (Event τ)} {forced : Prop} {lost : τ → Prop}
    (h : ∀ cause j, .dropped cause j ∉ es) (hl : ∀ t, ¬ lost t) : Discards es forced lost :=
  .forced (fun cause j he => absurd he (h cause j)) hl

omit [Kinded τ] in
theorem exists_of_isDrop {t : τ} {e : Event τ} (h : Event.isDrop t e = true) :
    ∃ cause j, e = .dropped cause j := by
  cases e with
  | dropped cause j => exact ⟨cause, j, rfl⟩
  | _ => cases h

omit [Kinded τ] in
theorem isDrop_of_isLoss {t : τ} {e : Event τ} (h : Event.isLoss t e = true) :
    Event.isDrop t e = true := by
  cases e with
  | dropped cause j =>
    cases cause with
    | forced => cases h
    | _ => exact h
  | _ => cases h

omit [Kinded τ] [DecidableEq τ] in
/-- Tests that only drops pass count one drop at most if there is one. -/
theorem countP_one {cause : Cause} {j : Job τ} {us vs : List (Event τ)}
    (hn : ∀ c k, .dropped c k ∉ us ++ vs) {test : Event τ → Bool}
    (ht : ∀ e, test e = true → ∃ c k, e = .dropped c k) :
    (us ++ .dropped cause j :: vs).countP test = if test (.dropped cause j) = true then 1 else 0 := by
  have hz : (us ++ vs).countP test = 0 := by
    rw [List.countP_eq_zero]
    intro e he hy
    obtain ⟨c, k, rfl⟩ := ht e hy
    exact hn c k he
  rw [List.countP_append] at hz
  rw [List.countP_append, List.countP_cons]
  omega

omit [Kinded τ] in
/-- Without a forced termination what is lost is all that is dropped. -/
theorem Discards.dropsIf {es : List (Event τ)} {forced : Prop} {lost : τ → Prop}
    (h : Discards es forced lost) (hf : ¬ forced) (t : τ) : DropsIf t es (lost t) := by
  cases h with
  | forced h hl =>
    refine ⟨fun hy => absurd hy (hl t), fun _ => ?_⟩
    rw [List.countP_eq_zero]
    intro e he hd
    obtain ⟨cause, j, rfl⟩ := exists_of_isDrop hd
    exact hf (h cause j he).2
  | one cause j us vs _ he hn hl =>
    have hcount : es.countP (Event.isDrop t) = if j.task = t then 1 else 0 := by
      rw [he, countP_one hn fun e => exists_of_isDrop]
      simp [Event.isDrop]
    exact ⟨fun hy => by rw [hcount, if_pos ((hl t).mp hy)],
      fun hy => by rw [hcount, if_neg fun hj => hy ((hl t).mpr hj)]⟩

omit [Kinded τ] in
/-- What is lost is dropped once, for another reason than a forced termination. -/
theorem Discards.losses {es : List (Event τ)} {forced : Prop} {lost : τ → Prop}
    (h : Discards es forced lost) (t : τ) :
    (lost t → es.countP (Event.isLoss t) = 1) ∧ (¬ lost t → es.countP (Event.isLoss t) = 0) := by
  cases h with
  | forced h hl =>
    refine ⟨fun hy => absurd hy (hl t), fun _ => ?_⟩
    rw [List.countP_eq_zero]
    intro e he hd
    obtain ⟨cause, j, rfl⟩ := exists_of_isDrop (isDrop_of_isLoss hd)
    rw [(h cause j he).1] at hd
    cases hd
  | one cause j us vs hc he hn hl =>
    have hloss : Event.isLoss t (.dropped cause j) = decide (j.task = t) := by
      cases cause with
      | forced => exact absurd rfl hc
      | _ => rfl
    have hcount : es.countP (Event.isLoss t) = if j.task = t then 1 else 0 := by
      rw [he, countP_one hn fun e hy => exists_of_isDrop (isDrop_of_isLoss hy), hloss]
      simp
    exact ⟨fun hy => by rw [hcount, if_pos ((hl t).mp hy)],
      fun hy => by rw [hcount, if_neg fun hj => hy ((hl t).mpr hj)]⟩

omit [Kinded τ] [DecidableEq τ] in
theorem not_mem_stranded (vs : List View) (cause : Cause) (j : Job τ) :
    .dropped cause j ∉ vs.map (Event.stranded : View → Event τ) := by
  simp

omit [Kinded τ] [DecidableEq τ] in
/-- A turn drops what its worker leaves with. -/
theorem dropped_of_mem_turn {cause c : Cause} {j : Job τ} {r : Pool.Turn (Job τ)}
    (h : .dropped c j ∈ turnEvents cause r) : c = cause ∧ r = .leaves (some j) := by
  cases r with
  | runs k => simp [turnEvents] at h
  | rests => simp [turnEvents] at h
  | leaves o =>
    cases o with
    | none => simp [turnEvents] at h
    | some k =>
      simp only [turnEvents, Job.lost, List.mem_cons, Event.dropped.injEq] at h
      rcases h with ⟨rfl, rfl⟩ | h
      · exact ⟨rfl, rfl⟩
      · exact absurd h (not_mem_stranded _ _ _)

omit [Kinded τ] [DecidableEq τ] in
/-- A turn other than a death drops only what a forced termination leaves behind. -/
theorem Discards.turn {r : Pool.Turn (Job τ)} {forced : Prop} {lost : τ → Prop}
    (h : ∀ j, r = .leaves (some j) → forced) (hl : ∀ t, ¬ lost t) :
    Discards (turnEvents .forced r) forced lost := by
  refine .forced (fun cause j he => ?_) hl
  obtain ⟨hc, hr⟩ := dropped_of_mem_turn he
  exact ⟨hc, h j hr⟩

omit [Kinded τ] [DecidableEq τ] in
theorem Settling.no_drop {c : Chore τ} {v : View} {change : Gate (Job τ) → Gate (Job τ)}
    {es : List (Event τ)} (hc : Settling c v change es) (cause : Cause) (j : Job τ) :
    .dropped cause j ∉ es := by
  cases hc <;> simp

omit [Kinded τ] [DecidableEq τ] in
theorem Settling.no_loss {c : Chore τ} {v : View} {change : Gate (Job τ) → Gate (Job τ)}
    {es : List (Event τ)} (hc : Settling c v change es) (s : Traffic τ) (t : τ) :
    ¬ s.ChoreLoses t c := by
  cases hc <;> exact id

omit [DecidableEq τ] in
/-- A chore drops what it loses, and what a forced termination leaves behind. -/
theorem Performs.discards {s : Traffic τ} {c : Chore τ} {d : Deed τ} (h : Performs s c d)
    (ho : s.pool.Orderly) :
    Discards d.events (s.pool.abandoned = true) fun t => s.ChoreLoses t c := by
  cases h with
  | @idle c hc =>
    refine .none (by simp [Traffic.idle]) fun t => ?_
    cases c <;> first | exact id | cases hc
  | accepted => exact .none (by simp) fun _ => id
  | placed => exact .none (by simp) fun _ => id
  | displaced => exact .none (by simp) fun _ => id
  | refused => exact .none (by simp [refuse]) fun _ => id
  | entered => exact .none (by simp) fun _ => id
  | waits => exact .none (by simp) fun _ => id
  | requeued h =>
    refine .none (by simp) ?_
    rintro t ⟨-, hc⟩
    rw [(Pool.accept_eq_some_iff.mp h).1] at hc
    cases hc
  | @cut k j hc =>
    refine .one .cut k [.misled j.task] (k.views.map .stranded ++ j.views.map .overdrawn)
      (by simp) ?_ (by simp) fun t => ?_
    · simp [Job.lost]
    · exact ⟨fun hl => hl.1, fun ht => ⟨ht, hc⟩⟩
  | handed => exact .none (by simp [taken]) fun _ => id
  | passed => exact .none (by simp) fun _ => id
  | waitsAgain => exact .none (by simp [taken]) fun _ => id
  | discarded ha =>
    refine .forced (fun cause k he => ?_) fun _ => id
    simp only [discard, List.mem_cons, Event.dropped.injEq] at he
    rcases he with ⟨hc, -⟩ | he
    · exact ⟨hc, ha⟩
    · exact absurd he (not_mem_stranded _ _ _)
  | settled hc => exact .none hc.no_drop (hc.no_loss s)
  | admits hc =>
    refine .none (fun cause k he => ?_) (hc.no_loss s)
    rcases List.mem_append.mp he with he | he
    · exact hc.no_drop cause k he
    · simp at he
  | missing hc => exact .none hc.no_drop (hc.no_loss s)
  | lowered => exact .none (by simp) fun _ => id
  | unlowered => exact .none (by simp) fun _ => id
  | raisedWorker => exact .none (by simp) fun _ => id
  | loweredWorker => exact .none (by simp) fun _ => id
  | flushed => exact .none (by simp) fun _ => id
  | unflushed => exact .none (by simp) fun _ => id
  | @unfinished w outcome fatal hn =>
    refine .none (by simp) ?_
    rintro t ⟨-, j, hs, -⟩
    rw [ho.slotOf?_eq_none hn] at hs
    cases hs
  | @finished w outcome x j hw hr =>
    refine .forced (fun cause k he => ?_) fun t hl => Bool.false_ne_true hl.1
    obtain ⟨hc, hleaves⟩ := dropped_of_mem_turn (List.mem_of_ne_of_mem (by simp) he)
    exact ⟨hc, (Pool.finish_leaves_some_iff.mp hleaves).1⟩
  | @died w outcome x j hw hr =>
    rw [Pool.die_fst]
    have hs : s.pool.slotOf? w = x.slot := Pool.slotOf?_eq hw
    cases hx : x.slot with
    | none =>
      rw [hs, hx]
      refine .none (by simp [turnEvents]) ?_
      rintro t ⟨-, k, hk, -⟩
      rw [hs, hx] at hk
      cases hk
    | some k =>
      rw [hs, hx]
      refine .one .died k [.ended j.task outcome] (k.views.map .stranded)
        (by simp) rfl (by simp) fun t => ⟨?_, fun ht => ⟨rfl, k, hs.trans hx, ht⟩⟩
      rintro ⟨-, k', hk', ht⟩
      rw [hs, hx] at hk'
      cases hk'
      exact ht

omit [DecidableEq τ] in
/-- An act drops what it loses, and what a forced termination leaves behind. -/
theorem Steps.discards {s s' : Traffic τ} {a : Act τ} (h : Steps s a s') (ho : s.pool.Orderly) :
    ∃ es, s'.log = s.log ++ es ∧
      Discards es (s.pool.abandoned = true ∨ a = .terminate) fun t => s.Loses a t := by
  have hidle : ∀ {w : Nat} {x : Worker (Job τ)}, s.pool.worker? w = some x →
      x.phase.task? = none → s.pool.taskOf? w = none := fun hw hx =>
    (Pool.taskOf?_eq hw).trans hx
  have hnone : (∀ t, ¬ s.Loses a t) → Discards ([] : List (Event τ))
      (s.pool.abandoned = true ∨ a = .terminate) fun t => s.Loses a t := .none (by simp)
  cases h with
  | stays hs =>
    refine ⟨[], (List.append_nil _).symm, hnone ?_⟩
    cases a with
    | go i =>
      rintro t ⟨c, rest, hi, -⟩
      exact hs i c rest rfl hi
    | _ => exact fun _ => id
  | built => exact ⟨[], (List.append_nil _).symm, hnone fun _ => id⟩
  | called => exact ⟨_, rfl, .none (by simp) fun _ => id⟩
  | calledFrom => exact ⟨_, rfl, .none (by simp) fun _ => id⟩
  | flushes => exact ⟨[], (List.append_nil _).symm, hnone fun _ => id⟩
  | raised => exact ⟨[], (List.append_nil _).symm, hnone fun _ => id⟩
  | lowered => exact ⟨[], (List.append_nil _).symm, hnone fun _ => id⟩
  | ended => exact ⟨[], (List.append_nil _).symm, hnone fun _ => id⟩
  | barred => exact ⟨_, rfl, .none (fun cause j => not_mem_stranded _ cause j) fun _ => id⟩
  | began hw hx =>
    have hn := hidle hw (by rw [hx]; rfl)
    exact ⟨_, rfl, .turn (fun j hj => absurd hj (Pool.begin_ne_leaves_some ho hn j)) fun _ => id⟩
  | @resumed w timedOut woken x hw hx =>
    have hn := hidle hw (by rw [hx]; rfl)
    exact ⟨_, rfl,
      .turn (fun j hj => absurd hj (Pool.resume_ne_leaves_some ho hn timedOut j)) fun _ => id⟩
  | @goes i c rest d hi hp =>
    have hiff : ∀ t, s.Loses (.go i) t ↔ s.ChoreLoses t c := by
      refine fun t => ⟨?_, fun hl => ⟨c, rest, hi, hl⟩⟩
      rintro ⟨c', rest', hi', hl⟩
      rw [hi] at hi'
      cases hi'
      exact hl
    refine ⟨d.events, rfl, ?_⟩
    cases hp.discards ho with
    | forced h hl =>
      exact .forced (fun cause j he => ⟨(h cause j he).1, Or.inl (h cause j he).2⟩) fun t ht =>
        hl t ((hiff t).mp ht)
    | one cause j us vs hc he hn hl => exact .one cause j us vs hc he hn fun t => (hiff t).trans (hl t)
  | closed => exact ⟨[], (List.append_nil _).symm, hnone fun _ => id⟩
  | terminated =>
    refine ⟨_, rfl, .forced (fun cause j he => ?_) fun _ => id⟩
    obtain ⟨k, -, hk⟩ := List.mem_flatMap.mp he
    simp only [Job.lost, List.mem_cons, Event.dropped.injEq] at hk
    rcases hk with ⟨hc, -⟩ | hk
    · exact ⟨hc, Or.inr rfl⟩
    · exact absurd hk (not_mem_stranded _ _ _)

/-- Until a forced termination an act drops what it loses. -/
theorem Steps.drops {s s' : Traffic τ} {a : Act τ} (h : Steps s a s')
    (hk : s.pool.abandoned = false) (ho : s.pool.Orderly) (ha : a ≠ .terminate) (t : τ) :
    ∃ es, s'.log = s.log ++ es ∧ DropsIf t es (s.Loses a t) := by
  obtain ⟨es, hlog, hd⟩ := h.discards ho
  refine ⟨es, hlog, hd.dropsIf ?_ t⟩
  rintro (hf | hf)
  · rw [hk] at hf
    cases hf
  · exact ha hf

/-! ## Runs that lose tasks -/

/-- Numbered processor-bound tasks. -/
instance : Kinded Nat := ⟨fun _ => .cpu⟩

/-- Settings for a single worker. -/
def lone : Config := { core := 1, max := 1, keepAlive := ⟨60, 0⟩, threadName := "" }

/-- Task 0 runs and has put task 1 into the slot of its worker. -/
def slotRun : List (Act Nat) :=
  [.begin 0, .call none 0, .go 1, .resume 0 false, .callFrom 2 none 1 true, .go 2]

/-- Task 0 takes its worker with it. -/
def fatalRun : List (Act Nat) := slotRun ++ [.endBody 2 true (.error .disconnected) true, .go 2]

/-- Task 0 submits task 2 for the same slot, and the pool is closed in the middle of that. -/
def lateRun : List (Act Nat) := slotRun ++ [.callFrom 2 none 2 true, .go 2, .close, .go 2]

end Traffic

end Workforce
