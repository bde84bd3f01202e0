import Workforce.Proofs.Pool.Headcount

/-
  Healthy pools, which were not terminated, keep the order and count what they run. Updates of a
  pool come in two kinds. Some only let tasks wait in it (`Gains`): submissions, flushes, and
  changes of limits. Others are turns of a worker (`Turns`), which change what this worker runs.
  Both kinds keep pools healthy and say what the pool holds afterwards.
-/

namespace Workforce.Pool

variable {τ : Type} [Kinded τ]

/-- A pool that was not terminated, keeps the order and counts what it runs. -/
structure Healthy (p : Pool τ) : Prop where
  kept : p.abandoned = false
  orderly : Orderly p
  counted : Counted p

theorem Healthy.step {p : Pool τ} (h : Healthy p) {s : Section τ} (hs : s ≠ .terminate) :
    Healthy (p.step s) :=
  ⟨(abandoned_step hs).trans h.kept, orderly_step h.orderly s, counted_step h.counted s⟩

theorem healthy_ofConfig (c : Config) : Healthy (ofConfig c : Pool τ) :=
  ⟨congrArg Prod.snd (marks_ofConfig c), orderly_ofConfig c, counted_ofConfig c⟩

/-! ## Tasks that come to wait -/

/-- An update that lets tasks wait in a pool and leaves alone what runs. -/
structure Gains (p q : Pool τ) (ts : List τ) : Prop where
  healthy : Healthy p → Healthy q
  task : ∀ u, q.taskOf? u = p.taskOf? u
  holding : ∀ f b, q.holding f b = p.holding f b + (ts.map f).sum

theorem gains_step {p : Pool τ} {s : Section τ} {ts : List τ} (hs : s ≠ .terminate)
    (ht : ∀ u, (p.step s).taskOf? u = p.taskOf? u)
    (hh : ∀ f b, (p.step s).holding f b = p.holding f b + (ts.map f).sum) :
    Gains p (p.step s) ts :=
  ⟨fun h => h.step hs, ht, hh⟩

omit [Kinded τ] in
/-- A change of a worker that keeps its phase keeps what all workers run. -/
theorem taskOf?_modifyWorker_of_phase (p : Pool τ) (w : Nat) (f : Worker τ → Worker τ)
    (hf : ∀ x, (f x).phase = x.phase) (u : Nat) : (p.modifyWorker w f).taskOf? u = p.taskOf? u := by
  rw [taskOf?_modifyWorker]
  split
  case isTrue h =>
    unfold taskOf?
    cases p.worker? u with
    | none => rfl
    | some x => exact congrArg Phase.task? (hf x)
  case isFalse => rfl

theorem taskOf?_queueUp (p : Pool τ) (t : τ) (u : Nat) :
    (p.queueUp t).taskOf? u = p.taskOf? u := by
  have he : (p.enqueue t).taskOf? u = p.taskOf? u := by
    unfold enqueue
    cases Kinded.kind t <;> rfl
  rw [queueUp, (sameHands_ensureCapacity _).task, he]

theorem gains_accept {p q : Pool τ} {t : τ} (h : p.accept t = some q) : Gains p q [t] := by
  have hq : p.step (.accept t) = q := by
    show (p.accept t).getD p = q
    rw [h]
    rfl
  rw [← hq]
  refine gains_step nofun (fun u => ?_) fun f b => ?_
  · rw [hq]
    obtain ⟨-, rfl⟩ := accept_eq_some_iff.mp h
    exact taskOf?_queueUp p t u
  · rw [hq, holding_accept f b h]
    simp

theorem gains_submitAccepted {p q : Pool τ} {t : τ} (h : p.submitAccepted t = some q) :
    Gains p q [t] := by
  have hq : p.step (.take t) = q := by
    show (p.submitAccepted t).getD p = q
    rw [h]
    rfl
  rw [← hq]
  refine gains_step nofun (fun u => ?_) fun f b => ?_
  · rw [hq]
    obtain ⟨-, rfl⟩ := submitAccepted_eq_some_iff.mp h
    exact taskOf?_queueUp p t u
  · rw [hq, holding_submitAccepted f b h]
    simp

omit [Kinded τ] in
theorem taskOf?_place (p : Pool τ) (w : Nat) (t : τ) (u : Nat) :
    (p.place w t).2.taskOf? u = p.taskOf? u := by
  have hm : (p.modifyWorker w fun x => { x with slot := some t }).taskOf? u = p.taskOf? u := by
    refine taskOf?_modifyWorker_of_phase p w _ (fun _ => ?_) u
    rfl
  unfold place
  split
  · rfl
  · split
    · rfl
    · split <;> exact hm

theorem gains_flush {p : Pool τ} {w : Nat} (hw : (p.taskOf? w).isSome = true) :
    Gains p (p.flush w) [] := by
  have hq : p.step (.flush w) = p.flush w := by
    show (if (p.taskOf? w).isSome = true then p.flush w else p) = _
    rw [if_pos hw]
  rw [← hq]
  refine gains_step nofun (fun u => ?_) fun f b => ?_
  · rw [hq]
    unfold flush
    split
    · rfl
    · rw [taskOf?_queueUp]
      refine taskOf?_modifyWorker_of_phase p w _ (fun _ => ?_) u
      rfl
  · rw [hq, holding_flush]
    rfl

theorem gains_raise (p : Pool τ) (w : Nat) : Gains p (p.raise w) [] := by
  refine gains_step (s := .raise w) nofun (fun u => ?_) fun f b => holding_raise f b p w
  show (p.raise w).taskOf? u = _
  unfold raise
  split
  · rfl
  · split
    · refine taskOf?_modifyWorker_of_phase p w _ (fun _ => ?_) u
      rfl
    · rw [(sameHands_ensureCapacity _).task]
      refine taskOf?_modifyWorker_of_phase { p with limit := p.limit + 1 } w _ (fun _ => ?_) u
      rfl

theorem gains_lower (p : Pool τ) (w : Nat) : Gains p (p.lower w) [] := by
  refine gains_step (s := .lower w) nofun (fun u => ?_) fun f b => holding_lower f b p w
  show (p.lower w).taskOf? u = _
  unfold lower
  split
  · rfl
  · split
    · refine taskOf?_modifyWorker_of_phase p w _ (fun _ => ?_) u
      rfl
    · refine taskOf?_modifyWorker_of_phase { p with limit := p.limit - 1 } w _ (fun _ => ?_) u
      rfl

theorem gains_beginClose (p : Pool τ) : Gains p p.beginClose [] := by
  refine gains_step (s := .beginClose) nofun (fun u => ?_) fun f b => holding_beginClose f b p
  show p.beginClose.taskOf? u = _
  unfold beginClose
  split
  · rfl
  · exact (sameHands_notifyAll { p with closed := true }).task u

/-- A task that is placed into the slot of a running worker waits there, and what it displaces
waits nowhere. -/
theorem gains_place {p : Pool τ} {w : Nat} {x : Worker τ} (t : τ) (hw : p.worker? w = some x)
    (hr : (p.taskOf? w).isSome = true) (ho : p.closed = false) :
    (Healthy p → Healthy (p.place w t).2) ∧
    (∀ f b, (p.place w t).2.holding f b + Worth f x.slot = p.holding f b + f t) := by
  have hstep : p.step (.place w t) = (p.place w t).2 := by
    show (if (p.taskOf? w).isSome = true then (p.place w t).2 else p) = _
    rw [if_pos hr]
  refine ⟨fun h => ?_, fun f b => (holding_place f b t hw ho).2⟩
  rw [← hstep]
  exact h.step (by simp)

/-- A tail submission to an empty slot. -/
theorem gains_place_of_empty {p : Pool τ} {w : Nat} {x : Worker τ} (t : τ)
    (hw : p.worker? w = some x) (hr : (p.taskOf? w).isSome = true) (ho : p.closed = false)
    (hs : x.slot = none) : Gains p (p.place w t).2 [t] := by
  obtain ⟨hhealthy, hheld⟩ := gains_place t hw hr ho
  refine ⟨hhealthy, taskOf?_place p w t, fun f b => ?_⟩
  have hh := hheld f b
  rw [hs] at hh
  simpa using hh

/-- A tail submission that displaces a task, which is queued then. -/
theorem gains_place_of_full {p : Pool τ} {w : Nat} {x : Worker τ} {u : τ} (t : τ)
    (hw : p.worker? w = some x) (hr : (p.taskOf? w).isSome = true) (ho : p.closed = false)
    (hs : x.slot = some u) : Gains p ((p.place w t).2.queueUp u) [t] := by
  obtain ⟨hhealthy, hheld⟩ := gains_place t hw hr ho
  have ha : (p.place w t).2.accept u = some ((p.place w t).2.queueUp u) :=
    accept_eq_some_iff.mpr ⟨(closed_place p w t).trans ho, rfl⟩
  have hg := gains_accept ha
  refine ⟨fun h => hg.healthy (hhealthy h), fun v => (hg.task v).trans (taskOf?_place p w t v),
    fun f b => ?_⟩
  have hh := hheld f b
  have hgh := hg.holding f b
  rw [hs] at hh
  simp only [worth_some, List.map_cons, List.map_nil, List.sum_cons, List.sum_nil] at hh hgh ⊢
  omega

/-- A submission lets its task wait, or refuses it and leaves the pool alone. Only a worker that
runs a task asks for its slot. -/
theorem gains_submit (p : Pool τ) {caller : Option Nat} (t : τ) (tail : Bool)
    (hc : ∀ w, caller = some w → (p.taskOf? w).isSome = true) :
    (∃ q, p.submit caller t tail = (.accepted, q) ∧ Gains p q [t]) ∨
      p.submit caller t tail = (.refused t, p) := by
  cases ho : p.closed with
  | true => exact Or.inr (submit_refused_of_closed p caller t tail ho)
  | false =>
    refine Or.inl ?_
    cases hw : (if tail then caller else none) with
    | none =>
      have ha : p.accept t = some (p.queueUp t) := accept_eq_some_iff.mpr ⟨ho, rfl⟩
      exact ⟨_, submit_accepted hw ha, gains_accept ha⟩
    | some w =>
      have hcw : caller = some w := by
        split at hw
        · exact hw
        · cases hw
      have hrun := hc w hcw
      obtain ⟨v, hv⟩ := Option.isSome_iff_exists.mp hrun
      obtain ⟨x, hx, -⟩ := exists_of_taskOf? hv
      cases hs : x.slot with
      | none =>
        exact ⟨_, submit_placed hw (place_of_empty ho hx hs t),
          gains_place_of_empty t hx hrun ho hs⟩
      | some u =>
        have ha : (p.place w t).2.accept u = some ((p.place w t).2.queueUp u) :=
          accept_eq_some_iff.mpr ⟨(closed_place p w t).trans ho, rfl⟩
        exact ⟨_, submit_left hw (place_of_full ho hx hs t) ha,
          gains_place_of_full t hx hrun ho hs⟩

/-! ## Turns of workers -/

/-- A turn of a worker. It gives up what it ran, takes up what it starts, and leaves the tasks of
other workers alone. -/
structure Turns (p : Pool τ) (w : Nat) (x : Worker τ) (r : Turn τ × Pool τ) : Prop where
  healthy : Healthy p → Healthy r.2
  task : ∀ u, r.2.taskOf? u = if u = w then r.1.started else p.taskOf? u
  law : ∀ f b, TurnLaw f b p x r
  /-- A worker that leaves has an empty slot. -/
  lifted : Healthy p → r.1.lifted = r.1.started

omit [Kinded τ] in
theorem taskOf?_setPhase {p : Pool τ} {w : Nat} {x : Worker τ} (hw : p.worker? w = some x)
    (phase : Phase τ) (u : Nat) :
    (p.setPhase w phase).taskOf? u = if u = w then phase.task? else p.taskOf? u := by
  rw [setPhase, taskOf?_modifyWorker]
  by_cases h : w = u
  · subst h
    rw [if_pos rfl, if_pos rfl, hw]
    rfl
  · rw [if_neg h, if_neg (Ne.symm h)]

omit [Kinded τ] in
theorem taskOf?_leave (p : Pool τ) {w : Nat} {x : Worker τ} (hw : p.worker? w = some x) (u : Nat) :
    (p.leave w).2.taskOf? u = if u = w then none else p.taskOf? u := by
  have he : (p.leave w).2.taskOf? u = ({ p with live := p.live - 1 }.modifyWorker w fun x =>
      { x with phase := .gone, slot := none }).taskOf? u := rfl
  rw [he, taskOf?_modifyWorker]
  by_cases h : w = u
  · subst h
    rw [if_pos rfl, if_pos rfl]
    show ((p.worker? w).bind fun _ => none) = none
    rw [hw]
    rfl
  · rw [if_neg h, if_neg (Ne.symm h)]
    rfl

theorem taskOf?_schedule {p : Pool τ} {w : Nat} {x : Worker τ} (hw : p.worker? w = some x)
    (u : Nat) : (p.schedule w).2.taskOf? u =
      if u = w then (p.schedule w).1.started else p.taskOf? u := by
  have hempty : ∀ {o : Option τ} {q : Pool τ}, Picks (p.emptySlot w) (p.slotOf? w) (o, q) →
      q.worker? w = some { x with slot := none } ∧ ∀ u, q.taskOf? u = p.taskOf? u := by
    intro o q hp
    rw [hp.frame]
    constructor
    · show (p.emptySlot w).worker? w = _
      rw [emptySlot, worker?_modifyWorker, if_pos rfl, hw]
      rfl
    · intro u
      refine taskOf?_modifyWorker_of_phase p w _ (fun _ => ?_) u
      rfl
  generalize hr : p.schedule w = r
  have hsch : Schedules p w r := hr ▸ schedules p w
  cases hsch with
  | abandoned => exact taskOf?_leave p hw u
  | @runs t q _ hp =>
    obtain ⟨hq, ht⟩ := hempty hp
    have hc : (q.countStart (Kinded.kind t)).worker? w = q.worker? w ∧
        (q.countStart (Kinded.kind t)).taskOf? u = q.taskOf? u := by
      unfold countStart
      cases Kinded.kind t <;> exact ⟨rfl, rfl⟩
    rw [taskOf?_setPhase (hc.1.trans hq), hc.2, ht]
    rfl
  | @drained q _ hp =>
    obtain ⟨hq, ht⟩ := hempty hp
    rw [taskOf?_leave q hq, ht]
    rfl
  | @rests q _ hp =>
    obtain ⟨hq, ht⟩ := hempty hp
    rw [taskOf?_setPhase (p := { q with idle := q.idle + 1 }) hq]
    show (if u = w then none else q.taskOf? u) = _
    rw [ht]
    rfl

omit [Kinded τ] in
theorem lifted_eq_started {r : Turn τ × Pool τ} (h : ∀ t, r.1 ≠ .leaves (some t)) :
    r.1.lifted = r.1.started := by
  generalize r.1 = turn at h
  cases turn with
  | runs t => rfl
  | rests => rfl
  | leaves o =>
    cases o with
    | none => rfl
    | some t => exact absurd rfl (h t)

theorem turns_begin {p : Pool τ} {w : Nat} {x : Worker τ} (hw : p.worker? w = some x)
    (hx : x.phase = .starting) : Turns p w x (p.begin w) := by
  have hq : p.step (.begin w) = (p.begin w).2 := by
    simp only [step, phaseOf?, hw, Option.map_some, hx]
  have ht : p.taskOf? w = none := by
    rw [taskOf?_eq hw, hx]
    rfl
  refine ⟨fun h => ?_, fun u => ?_, fun f b => turnLaw_begin f b hw, fun h => ?_⟩
  · rw [← hq]
    exact h.step (by simp)
  · exact taskOf?_schedule (p := { p with starting := p.starting - 1 }) hw u
  · exact lifted_eq_started (begin_ne_leaves_some h.orderly ht)

theorem turns_resume {p : Pool τ} {w : Nat} {x : Worker τ} {woken : Bool}
    (hw : p.worker? w = some x) (hx : x.phase = .idle woken) (timedOut : Bool) :
    Turns p w x (p.resume w timedOut) := by
  have hq : p.step (.resume w timedOut) = (p.resume w timedOut).2 := by
    simp only [step, phaseOf?, hw, Option.map_some, hx]
  have ht : p.taskOf? w = none := by
    rw [taskOf?_eq hw, hx]
    rfl
  refine ⟨fun h => ?_, fun u => ?_, fun f b => turnLaw_resume f b hw timedOut, fun h => ?_⟩
  · rw [← hq]
    exact h.step (by simp)
  · unfold resume
    dsimp only
    split
    · exact taskOf?_leave { p with idle := p.idle - 1 } hw u
    · exact taskOf?_schedule (p := { p with idle := p.idle - 1 }) hw u
  · exact lifted_eq_started (resume_ne_leaves_some h.orderly ht timedOut)

theorem turns_finish {p : Pool τ} {w : Nat} {x : Worker τ} {t : τ} (hw : p.worker? w = some x)
    (hx : x.phase.task? = some t) : Turns p w x (p.finish w (Kinded.kind t)) := by
  have ht : p.taskOf? w = some t := (taskOf?_eq hw).trans hx
  have hq : p.step (.finish w) = (p.finish w (Kinded.kind t)).2 := by
    simp only [step, ht]
  have hc : ∀ u, (p.countEnd (Kinded.kind t)).taskOf? u = p.taskOf? u := by
    intro u
    rw [taskOf?, worker?_countEnd]
    rfl
  refine ⟨fun h => ?_, fun u => ?_, fun f b => turnLaw_finish f b hw _, fun h => ?_⟩
  · rw [← hq]
    exact h.step (by simp)
  · have hs := taskOf?_schedule ((worker?_countEnd p (Kinded.kind t) w).trans hw) u
    rw [hc] at hs
    exact hs
  · exact lifted_eq_started (finish_ne_leaves_some h.kept _)

/-! ## What all tasks have in common -/

/-- Every task that waits in a pool or runs there has a property. -/
def AllTasks (P : τ → Prop) (p : Pool τ) : Prop := p.holding (lacking P) (lacking P) = 0

omit [Kinded τ] in
theorem AllTasks.holding_eq_zero {P : τ → Prop} {p : Pool τ} (h : AllTasks P p) {f b : τ → Nat}
    (hf : ∀ t, P t → f t = 0) (hb : ∀ t, P t → b t = 0) : p.holding f b = 0 := by
  obtain ⟨hq, hc⟩ := (holding_eq_zero_iff _ _ p).mp h
  refine (holding_eq_zero_iff f b p).mpr ⟨fun t ht => ?_, fun x hx => ⟨?_, ?_⟩⟩
  · exact hf t (lacking_eq_zero_iff.mp (hq t ht))
  · have hs := worth_lacking_eq_zero_iff.mp (hc x hx).1
    cases ht : x.slot with
    | none => rfl
    | some t => exact hf t (hs t ht)
  · have hr := worth_lacking_eq_zero_iff.mp (hc x hx).2
    cases ht : x.phase.task? with
    | none => rfl
    | some t => exact hb t (hr t ht)

omit [Kinded τ] in
theorem AllTasks.imp {P Q : τ → Prop} {p : Pool τ} (h : AllTasks P p) (hpq : ∀ t, P t → Q t) :
    AllTasks Q p :=
  h.holding_eq_zero (fun t ht => lacking_eq_zero_iff.mpr (hpq t ht)) fun t ht =>
    lacking_eq_zero_iff.mpr (hpq t ht)

omit [Kinded τ] in
theorem AllTasks.running {P : τ → Prop} {p : Pool τ} (h : AllTasks P p) {w : Nat} {t : τ}
    (ht : p.taskOf? w = some t) : P t := by
  obtain ⟨x, hw, hx⟩ := exists_of_taskOf? ht
  have hr := (((holding_eq_zero_iff _ _ p).mp h).2 x (List.mem_of_getElem? hw)).2
  exact worth_lacking_eq_zero_iff.mp hr t hx

theorem Gains.allTasks {P : τ → Prop} {p q : Pool τ} {ts : List τ} (hg : Gains p q ts)
    (h : AllTasks P p) (ht : ∀ t ∈ ts, P t) : AllTasks P q := by
  unfold AllTasks at h ⊢
  rw [hg.holding, h, Nat.zero_add]
  exact List.sum_eq_zero (List.forall_mem_map.mpr fun t hm => lacking_eq_zero_iff.mpr (ht t hm))

theorem Turns.allTasks {P : τ → Prop} {p : Pool τ} {w : Nat} {x : Worker τ}
    {r : Turn τ × Pool τ} (ht : Turns p w x r) (hp : Healthy p) (h : AllTasks P p) :
    AllTasks P r.2 := by
  have hl := ht.law (lacking P) (lacking P)
  unfold TurnLaw at hl
  unfold AllTasks at h ⊢
  rw [h, ht.lifted hp] at hl
  omega

/-- A pool at rest holds nothing. -/
theorem Healthy.holding_eq_zero {p : Pool τ} (h : Healthy p) (hq : p.queued = 0)
    (hr : p.running = 0) (f b : τ → Nat) : p.holding f b = 0 := by
  have hcpu : p.cpuQueue = [] := List.eq_nil_of_length_eq_zero (Nat.eq_zero_of_add_eq_zero_right hq)
  have hblocking : p.blockingQueue = [] :=
    List.eq_nil_of_length_eq_zero (Nat.eq_zero_of_add_eq_zero_left hq)
  refine (holding_eq_zero_iff f b p).mpr ⟨?_, fun x hx => ?_⟩
  · rw [hcpu, hblocking]
    simp
  · obtain ⟨w, hw⟩ := List.getElem?_of_mem hx
    have ht := h.counted.taskOf?_eq_none hr w
    have hs := h.orderly.slotOf?_eq_none ht
    rw [taskOf?_eq hw] at ht
    rw [slotOf?_eq hw] at hs
    rw [ht, hs]
    exact ⟨rfl, rfl⟩

end Workforce.Pool
