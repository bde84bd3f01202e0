import Workforce.Slot
import Workforce.Proofs.Traffic.Occupancy

/-
  What is left when nothing runs any more. A forced termination drops the tasks that wait in the
  pool without telling the views that admitted them; such an admission is stranded, and the view
  counts it as running for good, with whatever waits behind it.

  `cleared_iff`: when nothing runs and nothing is on its way, nothing is left of all tasks of views
  exactly if every gate counts its admissions, no job that a view admitted is left in the queues
  of the pool, and no task waits at a gate whose limit is zero. As long as nothing is overdrawn, the
  gates count their admissions exactly if no act parted a task from one. Whether the pool was
  terminated does not matter for the law; a termination is what strands admissions.
-/

namespace Workforce

variable {τ : Type} [DecidableEq τ]

/-- What an event reports to the handle of a task. -/
def Event.report? (t : τ) : Event τ → Option (Except Failure Unit)
  | ended u outcome => if u = t then some outcome else none
  | refused j => if j.task = t then some (.error .disconnected) else none
  | dropped _ j => if j.task = t then some (.error .disconnected) else none
  | _ => none

namespace Traffic

/-! ## Handles -/

/-- The handle of a task: the first report fills it. -/
def handle (s : Traffic τ) (t : τ) : Slot Unit :=
  (s.log.filterMap (Event.report? t)).foldl (fun h outcome => h.complete outcome) .pending

/-- A task ran to its end or was dropped without having run, and its handle says so. -/
def Resolved (s : Traffic τ) (t : τ) : Prop :=
  (∃ outcome, .ended t outcome ∈ s.log ∧ s.drops t = 0 ∧ s.handle t = .ready outcome) ∨
  (∃ cause j, .dropped cause j ∈ s.log ∧ j.task = t ∧ s.starts t = 0 ∧
    s.handle t = .ready (.error .disconnected))

theorem length_reports (t : τ) (es : List (Event τ)) :
    (es.filterMap (Event.report? t)).length =
      es.countP (Event.isEnd t) + es.countP (Event.isDrop t) + es.countP (Event.isRefusal t) := by
  induction es with
  | nil => rfl
  | cons e es ih =>
    have hlen : ((e :: es).filterMap (Event.report? t)).length =
        (if (e.report? t).isSome then 1 else 0) + (es.filterMap (Event.report? t)).length := by
      rw [List.filterMap_cons]
      cases e.report? t with
      | none => simp
      | some o => simp [Nat.add_comm]
    have hhead : (if (e.report? t).isSome then 1 else 0) =
        (if Event.isEnd t e = true then 1 else 0) + (if Event.isDrop t e = true then 1 else 0) +
          (if Event.isRefusal t e = true then 1 else 0) := by
      cases e <;> simp [Event.report?, Event.isEnd, Event.isDrop, Event.isRefusal]
    rw [hlen, ih, hhead]
    simp only [List.countP_cons]
    omega

/-- The only report about a task is what its handle holds. -/
theorem handle_eq {s : Traffic τ} {t : τ} (h : (s.log.filterMap (Event.report? t)).length = 1)
    {e : Event τ} (he : e ∈ s.log) {outcome : Except Failure Unit}
    (hr : e.report? t = some outcome) : s.handle t = .ready outcome := by
  obtain ⟨o, ho⟩ := List.length_eq_one_iff.mp h
  have hm : outcome ∈ s.log.filterMap (Event.report? t) := List.mem_filterMap.mpr ⟨e, he, hr⟩
  rw [ho] at hm
  unfold handle
  rw [ho, List.mem_singleton.mp hm]
  rfl

/-- A task called once has one route. -/
theorem route_unique {s : Traffic τ} {t : τ} (hc : s.calls t = 1) {q r : List View}
    (hq : s.Called t q) (hr : s.Called t r) : q = r := by
  unfold calls at hc
  rw [List.countP_eq_length_filter] at hc
  obtain ⟨e, he⟩ := List.length_eq_one_iff.mp hc
  have hmem : ∀ route, s.Called t route → .called t route = e := by
    intro route h
    have hm : .called t route ∈ s.log.filter (Event.isCall t) :=
      List.mem_filter.mpr ⟨h, by simp [Event.isCall]⟩
    rw [he] at hm
    exact List.mem_singleton.mp hm
  have hqr := (hmem q hq).trans (hmem r hr).symm
  injection hqr

/-! ## Cleared states -/

/-- Nothing is left at the gates or of the tasks that they admitted, and every task that came
through a view and was accepted is resolved. -/
structure Cleared (s : Traffic τ) : Prop where
  gates : ∀ x ∈ s.gates, x.running = 0 ∧ x.queue = []
  left : ∀ i, s.unended i = 0
  tasks : ∀ t route, s.Called t route → route ≠ [] → s.calls t = 1 → .accepted t ∈ s.log →
    s.Resolved t

variable [Kinded τ]

omit [DecidableEq τ] in
/-- In a quiet state no slot is taken and no thread has anything to do. -/
theorem Quiet.nothing {s : Traffic τ} (h : s.Quiet) (ho : s.pool.Orderly) :
    s.pool.workers.filterMap Worker.slot = [] ∧ s.threads.flatten = [] := by
  rw [List.filterMap_eq_nil_iff, List.flatten_eq_nil_iff]
  exact ⟨fun x hx => (h.crew ho x hx).1, h.threads⟩

omit [DecidableEq τ] in
/-- In a quiet state the tasks that a view admitted wait in the queues of the pool or at other
gates. -/
theorem Quiet.unended_eq {s : Traffic τ} (h : s.Quiet) (ho : s.pool.Orderly) (i : Nat) :
    s.unended i = ((s.pool.cpuQueue ++ s.pool.blockingQueue).map (Job.passes i)).sum +
      ((s.gates.flatMap Gate.queue).map (Job.passes i)).sum := by
  obtain ⟨hslots, hthreads⟩ := h.nothing ho
  unfold unended
  rw [hslots, hthreads]
  rfl

omit [DecidableEq τ] [Kinded τ] in
/-- Jobs that have passed no view do not count. -/
theorem passes_sum_eq_zero {js : List (Job τ)} {i : Nat} (h : ∀ j ∈ js, ∀ v ∈ j.views, v.id ≠ i) :
    (js.map (Job.passes i)).sum = 0 := by
  refine List.sum_eq_zero (List.forall_mem_map.mpr fun j hj => ?_)
  exact List.countP_eq_zero.mpr fun v hv hi => h j hj v hv (of_decide_eq_true hi)

/-! ## Gates in quiet states -/

omit [DecidableEq τ] [Kinded τ] in
/-- A job that waits at a gate has passed only gates with greater numbers. -/
theorem Charted.gate_lt {s : Traffic τ} (h : s.Charted) {i : Nat} {x : Gate (Job τ)}
    (hx : s.gates[i]? = some x) {j : Job τ} (hj : j ∈ x.queue) {u : View} (hu : u ∈ j.views) :
    i < u.id := by
  obtain ⟨v, hv, hr⟩ := h.gated i x hx j hj
  have hsorted := (h.routes _ _ hr).sorted
  rw [List.pairwise_append] at hsorted
  have hlt := hsorted.2.2 u (List.mem_reverse.mpr hu) v List.mem_cons_self
  rw [h.numbered i v hv] at hlt
  exact hlt

omit [DecidableEq τ] in
/-- Gates run empty from the pool upwards: what passed a gate waits below it. -/
theorem gates_empty {s : Traffic τ} (hq : s.Quiet) (ho : s.pool.Orderly) (hc : s.Charted)
    (hs : s.Settled)
    (hrun : ∀ (i : Nat) (x : Gate (Job τ)), s.gates[i]? = some x → x.running = s.unended i)
    (hpool : ∀ j ∈ s.pool.cpuQueue ++ s.pool.blockingQueue, j.views = [])
    (hlimit : ∀ x ∈ s.gates, x.limit = 0 → x.queue = []) (i : Nat) (x : Gate (Job τ))
    (hx : s.gates[i]? = some x) : x.running = 0 ∧ x.queue = [] := by
  -- induction on the number of the gate: those below are empty
  induction i using Nat.strongRecOn generalizing x with
  | ind i ih =>
    have hqueues : ((s.pool.cpuQueue ++ s.pool.blockingQueue).map (Job.passes i)).sum = 0 :=
      passes_sum_eq_zero fun j hj v hv => by
        rw [hpool j hj] at hv
        cases hv
    have hgates : ((s.gates.flatMap Gate.queue).map (Job.passes i)).sum = 0 := by
      refine passes_sum_eq_zero fun j hj v hv => ?_
      obtain ⟨y, hy, hj⟩ := List.mem_flatMap.mp hj
      obtain ⟨k, hk⟩ := List.getElem?_of_mem hy
      have hki : i ≤ k := by
        refine Nat.le_of_not_lt fun hlt => ?_
        rw [(ih k hlt y hk).2] at hj
        cases hj
      have hlt := hc.gate_lt hk hj hv
      omega
    have hzero : x.running = 0 := by rw [hrun i x hx, hq.unended_eq ho, hqueues, hgates]
    refine ⟨hzero, ?_⟩
    by_cases hqueue : x.queue = []
    · exact hqueue
    · have hfull := hs x (List.mem_of_getElem? hx) hqueue
      exact hlimit x (List.mem_of_getElem? hx) (by omega)

omit [DecidableEq τ] in
/-- If nobody waits at gates and no job of a view is in the pool, nothing is left. -/
theorem unended_eq_zero {s : Traffic τ} (hq : s.Quiet) (ho : s.pool.Orderly)
    (hgates : ∀ x ∈ s.gates, x.queue = [])
    (hpool : ∀ j ∈ s.pool.cpuQueue ++ s.pool.blockingQueue, j.views = []) (i : Nat) :
    s.unended i = 0 := by
  have hqueues : s.gates.flatMap Gate.queue = [] := List.flatMap_eq_nil_iff.mpr hgates
  have hz : ((s.pool.cpuQueue ++ s.pool.blockingQueue).map (Job.passes i)).sum = 0 :=
    passes_sum_eq_zero fun j hj v hv => by
      rw [hpool j hj] at hv
      cases hv
  rw [hq.unended_eq ho, hqueues, hz]
  rfl

omit [DecidableEq τ] [Kinded τ] in
/-- If nothing is left, no job of a view is in the pool. -/
theorem views_eq_nil_of_unended {s : Traffic τ} (h : ∀ i, s.unended i = 0) :
    ∀ j ∈ s.pool.cpuQueue ++ s.pool.blockingQueue, j.views = [] := by
  intro j hj
  refine List.eq_nil_iff_forall_not_mem.mpr fun v hv => ?_
  have hz := h v.id
  unfold unended at hz
  have hsum : ((s.pool.cpuQueue ++ s.pool.blockingQueue).map (Job.passes v.id)).sum = 0 := by
    omega
  have hpasses : j.passes v.id = 0 := List.forall_mem_map.mp (List.sum_eq_zero_iff.mp hsum) j hj
  exact List.countP_eq_zero.mp hpasses v hv (decide_eq_true rfl)

/-! ## Tasks in quiet states -/

/-- In a quiet state with empty gates a task is in the queues of the pool or has ended. -/
theorem Quiet.places {s : Traffic τ} (h : s.Quiet) (ho : s.pool.Orderly)
    (hg : ∀ x ∈ s.gates, x.queue = []) (t : τ) :
    (s.places t).sum = countTask t (s.pool.cpuQueue ++ s.pool.blockingQueue) +
      s.log.countP (Event.isEnd t) ∧
    countTask t (s.pool.workers.filterMap fun x => x.phase.task?) = 0 := by
  obtain ⟨hslots, hthreads⟩ := h.nothing ho
  have hrunning : (s.pool.workers.filterMap fun x => x.phase.task?) = [] := by
    rw [List.filterMap_eq_nil_iff]
    exact fun x hx => (h.crew ho x hx).2
  have hgates : s.gates.flatMap Gate.queue = [] := List.flatMap_eq_nil_iff.mpr hg
  have hnone : countTask t ([] : List (Job τ)) = 0 := rfl
  unfold Traffic.places
  rw [hslots, hrunning, hgates, hthreads]
  simp only [List.filterMap_nil, List.sum_cons, List.sum_nil, hnone]
  exact ⟨by omega, trivial⟩

/-- In a quiet state with empty gates and no job of a view in the pool, every accepted task of a
view is resolved. -/
theorem tasks_resolved (c : Config) (as : List (Act τ)) (hq : ((start c).run as).Quiet)
    (hg : ∀ x ∈ ((start c).run as).gates, x.queue = [])
    (hpool : ∀ j ∈ ((start c).run as).pool.cpuQueue ++ ((start c).run as).pool.blockingQueue,
      j.views = []) {t : τ} {route : List View} (hr : ((start c).run as).Called t route)
    (hne : route ≠ []) (hc : ((start c).run as).calls t = 1)
    (ha : .accepted t ∈ ((start c).run as).log) : ((start c).run as).Resolved t := by
  have hsum := places_add_drops (fun m => balanced_run m c as) ⟨hc, ha⟩
  have hrefused := refusals_eq_zero (balanced_run (Weights.ofCall t) c as) hc ha
  have hstarts := starts_eq (balanced_run (Weights.ofRun t) c as)
  have hcharted := charted_run c as
  obtain ⟨hplaces, hrunning⟩ := hq.places (orderly_run c as) hg t
  generalize (start c).run as = s at *
  have hqueued : countTask t (s.pool.cpuQueue ++ s.pool.blockingQueue) = 0 := by
    unfold countTask
    rw [List.countP_eq_zero]
    intro j hj ht
    have hjt : j.task = t := by simpa using ht
    have hcalled : s.Called j.task j.views.reverse := hcharted.queued.queued j hj
    rw [hpool j hj, hjt] at hcalled
    exact hne (route_unique hc hr hcalled)
  have hlength := length_reports t s.log
  unfold drops at hsum
  unfold Resolved
  by_cases hend : s.log.countP (Event.isEnd t) = 0
  · refine Or.inr ?_
    have hpos : 0 < s.log.countP (Event.isDrop t) := by omega
    obtain ⟨e, he, hd⟩ := List.countP_pos_iff.mp hpos
    cases e with
    | dropped cause j =>
      have hjt : j.task = t := by simpa [Event.isDrop] using hd
      refine ⟨cause, j, he, hjt, by omega, ?_⟩
      exact handle_eq (by omega) he (by simp [Event.report?, hjt])
    | _ => cases hd
  · refine Or.inl ?_
    obtain ⟨e, he, hd⟩ := List.countP_pos_iff.mp (Nat.pos_of_ne_zero hend)
    cases e with
    | ended u outcome =>
      have hut : u = t := by simpa [Event.isEnd] using hd
      subst hut
      refine ⟨outcome, he, ?_, handle_eq (by omega) he (by simp [Event.report?])⟩
      unfold drops
      omega
    | _ => cases hd

omit [DecidableEq τ] in
/-- As long as no act overdraws a view, all gates count their admissions exactly if no act parts a
task from one. -/
theorem running_iff (c : Config) {as : List (Act τ)}
    (h : ∀ us a, us ++ [a] <+: as → ∀ i, ¬ ((start c).run us).Overdraws a i) :
    (∀ (i : Nat) (x : Gate (Job τ)), ((start c).run as).gates[i]? = some x →
        x.running = ((start c).run as).unended i) ↔
      ∀ us a, us ++ [a] <+: as → ∀ i, ¬ ((start c).run us).Strays a i := by
  constructor
  · intro hrun us a hu i hs
    obtain ⟨vs, rfl⟩ := hu
    have hlt : i < ((start c).run (us ++ [a] ++ vs)).gates.length := by
      rw [run_append, run_concat]
      refine Nat.lt_of_lt_of_le (hs.lt (charted_run c us)) ?_
      exact Nat.le_trans (length_gates_step _ a) (length_gates_run _ vs)
    have hx := List.getElem?_eq_getElem hlt
    have hstrays := (running_run c (fun us a hu => h us a hu i) hx).2.mp (hrun i _ hx)
    exact hstrays us a (List.prefix_append _ _) hs
  · intro hs i x hx
    exact (running_run c (fun us a hu => h us a hu i) hx).2.mpr fun us a hu => hs us a hu i

/-- When nothing runs and nothing is on its way, in particular after a forced termination, all is
cleared exactly if all gates count their admissions, no job of a view is left in the queues of the
pool and no task waits at a gate that admits none. As long as no act overdraws a view, the gates
count their admissions exactly if no act parts a task from one. -/
theorem cleared_iff (c : Config) (as : List (Act τ)) (hq : ((start c).run as).Quiet) :
    (((start c).run as).Cleared ↔
      (∀ (i : Nat) (x : Gate (Job τ)), ((start c).run as).gates[i]? = some x →
        x.running = ((start c).run as).unended i) ∧
      (∀ j ∈ ((start c).run as).pool.cpuQueue ++ ((start c).run as).pool.blockingQueue,
        j.views = []) ∧
      ∀ x ∈ ((start c).run as).gates, x.limit = 0 → x.queue = []) ∧
    ((∀ us a, us ++ [a] <+: as → ∀ i, ¬ ((start c).run us).Overdraws a i) →
      (((start c).run as).Cleared ↔
        (∀ us a, us ++ [a] <+: as → ∀ i, ¬ ((start c).run us).Strays a i) ∧
        (∀ j ∈ ((start c).run as).pool.cpuQueue ++ ((start c).run as).pool.blockingQueue,
          j.views = []) ∧
        ∀ x ∈ ((start c).run as).gates, x.limit = 0 → x.queue = [])) := by
  have ho := orderly_run c as
  have hstate : ((start c).run as).Cleared ↔
      (∀ (i : Nat) (x : Gate (Job τ)), ((start c).run as).gates[i]? = some x →
        x.running = ((start c).run as).unended i) ∧
      (∀ j ∈ ((start c).run as).pool.cpuQueue ++ ((start c).run as).pool.blockingQueue,
        j.views = []) ∧
      ∀ x ∈ ((start c).run as).gates, x.limit = 0 → x.queue = [] := by
    constructor
    · intro h
      refine ⟨fun i x hx => ?_, views_eq_nil_of_unended h.left, fun x hx _ => (h.gates x hx).2⟩
      rw [(h.gates x (List.mem_of_getElem? hx)).1, h.left]
    · rintro ⟨hrun, hpool, hlimit⟩
      have hgates : ∀ x ∈ ((start c).run as).gates, x.running = 0 ∧ x.queue = [] := by
        intro x hx
        obtain ⟨i, hi⟩ := List.getElem?_of_mem hx
        exact gates_empty hq ho (charted_run c as) (settled_run c as) hrun hpool hlimit i x hi
      have hqueues := fun x hx => (hgates x hx).2
      exact ⟨hgates, unended_eq_zero hq ho hqueues hpool, fun t route hr hne hc ha =>
        tasks_resolved c as hq hqueues hpool hr hne hc ha⟩
  refine ⟨hstate, fun hover => ?_⟩
  rw [hstate, running_iff c hover]

/-! ## Forced terminations -/

/-- Task 0 runs, task 1 passed view 0 and waits in the pool, and task 2 waits at the view. The pool
is terminated and task 0 ends. -/
def strandedRun : List (Act Nat) :=
  [.build none .soft 1, .begin 0, .call none 0, .go 1, .resume 0 false, .call (some 0) 1, .go 3,
    .go 3, .call (some 0) 2, .go 4, .close, .terminate, .endBody 2 true (.ok ()) false, .go 2]

/-- Task 1 runs and task 2 waits at the view. The pool is terminated and task 1 ends. -/
def clearedRun : List (Act Nat) :=
  [.build none .soft 1, .begin 0, .call (some 0) 1, .go 1, .go 1, .resume 0 false,
    .call (some 0) 2, .go 3, .close, .terminate, .endBody 2 true (.ok ()) false, .go 2, .go 2,
    .go 2, .go 2]

/-- After the first of them nothing runs, and task 2 was accepted and waits at the view for good:
the admission of task 1 was stranded. -/
theorem waits_forever :
    ((start lone).run strandedRun).pool.abandoned = true ∧
    ((start lone).run strandedRun).Quiet ∧
    .accepted 2 ∈ ((start lone).run strandedRun).log ∧
    (((start lone).run strandedRun).gates.map fun x => (x.running, x.queue.map Job.task)) =
      [(1, [2])] ∧
    (((start lone).run strandedRun).handle 2).isReady = false ∧
    ¬ ((start lone).run strandedRun).Cleared := by
  have hgate : ((start lone).run strandedRun).gates[0]?.map Gate.running = some 1 := rfl
  have hlog : ((start lone).run strandedRun).log[7]? = some (.accepted 2) := rfl
  refine ⟨rfl, by decide, List.mem_of_getElem? hlog, by decide, rfl, fun h => ?_⟩
  obtain ⟨x, hx, hr⟩ := Option.map_eq_some_iff.mp hgate
  have hz := (h.gates x (List.mem_of_getElem? hx)).1
  rw [hr] at hz
  cases hz

/-- The law for the second: all is cleared. -/
theorem cleared_iff_clearedRun :
    ((start lone).run clearedRun).pool.abandoned = true ∧
    ((start lone).run clearedRun).Quiet ∧
    ((start lone).run clearedRun).Cleared := by
  have hq : ((start lone).run clearedRun).Quiet := by decide
  have hgates : ((start lone).run clearedRun).gates = [{ limit := 1 }] := rfl
  have hpool : ((start lone).run clearedRun).pool.cpuQueue ++
      ((start lone).run clearedRun).pool.blockingQueue = [] := rfl
  refine ⟨rfl, hq, (cleared_iff lone clearedRun hq).1.mpr ⟨fun i x hx => ?_, ?_, ?_⟩⟩
  · rw [hgates] at hx
    cases i with
    | zero =>
      cases hx
      decide
    | succ => cases hx
  · rw [hpool]
    simp
  · rw [hgates]
    simp

end Traffic

end Workforce
