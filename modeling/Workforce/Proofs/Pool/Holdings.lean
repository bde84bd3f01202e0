import Mathlib.Algebra.GroupWithZero.Nat
import Mathlib.Algebra.Order.BigOperators.Group.List
import Mathlib.Algebra.Order.Group.Nat
import Workforce.Proofs.Pool.Sections

/-
  What a pool holds. With a weight `f` for tasks that wait and a weight `b` for tasks that run,
  the holding of a pool adds up its queues, its slots and what its workers run. One law for each
  section says how it changes the holding: a submission adds its task, a worker that takes a task
  turns its weight from `f` into `b`, a worker that ends a task gives it up, and all other tasks
  stay where they were counted. Weights that count one task or one admission make the laws of
  conservation out of this.
-/

namespace Workforce

/-- Replacing a member of a list replaces its share of the sum. -/
theorem sum_map_set {α : Type} {xs : List α} {i : Nat} {x : α} (f : α → Nat) (y : α)
    (h : xs[i]? = some x) : ((xs.set i y).map f).sum + f x = (xs.map f).sum + f y := by
  induction xs generalizing i with
  | nil => cases h
  | cons a xs ih =>
    cases i with
    | zero =>
      cases h
      simp only [List.set_cons_zero, List.map_cons, List.sum_cons]
      omega
    | succ i =>
      have hi := ih (i := i) h
      simp only [List.set_cons_succ, List.map_cons, List.sum_cons]
      omega

theorem modify_eq_set {α : Type} {xs : List α} {i : Nat} {x : α} (f : α → α)
    (h : xs[i]? = some x) : xs.modify i f = xs.set i (f x) := by
  refine List.ext_getElem? fun k => ?_
  obtain ⟨hi, -⟩ := List.getElem?_eq_some_iff.mp h
  rw [List.getElem?_modify, List.getElem?_set]
  by_cases hk : i = k
  · subst hk
    rw [h, if_pos rfl, if_pos hi]
    simp
  · rw [if_neg hk]
    cases xs[k]? <;> simp [hk]

theorem sum_map_modify {α : Type} {xs : List α} {i : Nat} {x : α} (f : α → Nat) (g : α → α)
    (h : xs[i]? = some x) : ((xs.modify i g).map f).sum + f x = (xs.map f).sum + f (g x) := by
  rw [modify_eq_set g h]
  exact sum_map_set f (g x) h

/-- The weight of a task that may be there. -/
def Worth {τ : Type} (f : τ → Nat) (t : Option τ) : Nat := (t.map f).getD 0

@[simp] theorem worth_none {τ : Type} (f : τ → Nat) : Worth f none = 0 := rfl

@[simp] theorem worth_some {τ : Type} (f : τ → Nat) (t : τ) : Worth f (some t) = f t := rfl

theorem worth_zero {τ : Type} (o : Option τ) : Worth (fun _ : τ => 0) o = 0 := by
  cases o <;> rfl

/-- What a worker holds: the task in its slot and the one it runs. -/
def Worker.holding {τ : Type} (f b : τ → Nat) (x : Worker τ) : Nat :=
  Worth f x.slot + Worth b x.phase.task?

namespace Pool

variable {τ : Type} (f b : τ → Nat)

/-- What the queues of a pool hold. -/
def queueHolding (p : Pool τ) : Nat := (p.cpuQueue.map f).sum + (p.blockingQueue.map f).sum

/-- What the workers of a pool hold. -/
def crewHolding (p : Pool τ) : Nat := (p.workers.map (Worker.holding f b)).sum

/-- What a pool holds. -/
def holding (p : Pool τ) : Nat := p.queueHolding f + p.crewHolding f b

/-! ## Waking and starting workers -/

theorem crewHolding_modifyWorker {p : Pool τ} {w : Nat} {x : Worker τ} (u : Worker τ → Worker τ)
    (h : p.worker? w = some x) :
    (p.modifyWorker w u).crewHolding f b + x.holding f b = p.crewHolding f b + (u x).holding f b :=
  sum_map_modify _ u h

theorem crewHolding_modifyWorker_of_eq {p : Pool τ} (w : Nat) (u : Worker τ → Worker τ)
    (h : ∀ x, p.worker? w = some x → (u x).holding f b = x.holding f b) :
    (p.modifyWorker w u).crewHolding f b = p.crewHolding f b := by
  cases hx : p.worker? w with
  | some x =>
    have hm := crewHolding_modifyWorker f b u hx
    rw [h x hx] at hm
    omega
  | none =>
    have hl : p.workers.length ≤ w := List.getElem?_eq_none_iff.mp hx
    unfold crewHolding modifyWorker
    rw [List.modify_eq_self hl]

@[simp] theorem crewHolding_spawnWorker (p : Pool τ) :
    p.spawnWorker.crewHolding f b = p.crewHolding f b := by
  simp [crewHolding, spawnWorker, Worker.holding, Phase.task?]

theorem holding_wake {x : Worker τ} (h : sleeps x = true) :
    (wake x).holding f b = x.holding f b := by
  unfold Worker.holding wake
  rw [(sleeps_iff x).mp h]
  rfl

theorem crewHolding_notifyOne (p : Pool τ) : p.notifyOne.crewHolding f b = p.crewHolding f b := by
  unfold notifyOne
  split
  case h_1 w hw =>
    refine crewHolding_modifyWorker_of_eq f b w wake fun x hx => holding_wake f b ?_
    obtain ⟨h, hs, -⟩ := List.findIdx?_eq_some_iff_getElem.mp hw
    rw [worker?, List.getElem?_eq_getElem h] at hx
    rw [← Option.some.inj hx]
    exact hs
  case h_2 => rfl

@[simp] theorem crewHolding_notifyAll (p : Pool τ) :
    p.notifyAll.crewHolding f b = p.crewHolding f b := by
  unfold crewHolding notifyAll
  rw [List.map_map]
  congr 1
  refine List.map_congr_left fun x _ => ?_
  show Worker.holding f b (if sleeps x = true then wake x else x) = _
  split
  case isTrue h => exact holding_wake f b h
  case isFalse => rfl

@[simp] theorem holding_ensureCapacity (p : Pool τ) :
    p.ensureCapacity.holding f b = p.holding f b := by
  have hq : p.ensureCapacity.bare.queueHolding f = p.bare.queueHolding f := by
    rcases bare_ensureCapacity p with ⟨-, h⟩ | ⟨-, h⟩
    · rw [h]
    · rw [h]
      rfl
  have hc : p.ensureCapacity.crewHolding f b = p.crewHolding f b := by
    unfold ensureCapacity
    split
    · rfl
    · split
      · exact crewHolding_spawnWorker f b p
      · exact crewHolding_notifyOne f b p
  unfold holding
  rw [hc]
  exact congrArg (· + p.crewHolding f b) hq

/-! ## Submissions -/

section submission

variable [Kinded τ]

theorem holding_queueUp (p : Pool τ) (t : τ) :
    (p.queueUp t).holding f b = p.holding f b + f t := by
  unfold queueUp
  rw [holding_ensureCapacity]
  unfold enqueue holding queueHolding
  cases Kinded.kind t with
  | cpu =>
    simp only [List.map_append, List.sum_append, List.map_cons, List.map_nil, List.sum_cons,
      List.sum_nil]
    show _ + p.crewHolding f b = _ + p.crewHolding f b + _
    omega
  | blocking =>
    simp only [List.map_append, List.sum_append, List.map_cons, List.map_nil, List.sum_cons,
      List.sum_nil]
    show _ + p.crewHolding f b = _ + p.crewHolding f b + _
    omega

theorem holding_accept {p q : Pool τ} {t : τ} (h : p.accept t = some q) :
    q.holding f b = p.holding f b + f t := by
  obtain ⟨-, rfl⟩ := accept_eq_some_iff.mp h
  exact holding_queueUp f b p t

theorem holding_submitAccepted {p q : Pool τ} {t : τ} (h : p.submitAccepted t = some q) :
    q.holding f b = p.holding f b + f t := by
  obtain ⟨-, rfl⟩ := submitAccepted_eq_some_iff.mp h
  exact holding_queueUp f b p t

omit [Kinded τ] in
/-- What a worker holds after its slot was changed. -/
theorem holding_setSlot {p : Pool τ} {w : Nat} {x : Worker τ} (slot : Option τ)
    (h : p.worker? w = some x) :
    (p.modifyWorker w fun x => { x with slot }).holding f b + Worth f x.slot =
      p.holding f b + Worth f slot := by
  have hm := crewHolding_modifyWorker f b (fun x => { x with slot }) h
  change _ + (Worth f x.slot + Worth b x.phase.task?) =
    _ + (Worth f slot + Worth b x.phase.task?) at hm
  show p.queueHolding f + (p.modifyWorker w fun x => { x with slot }).crewHolding f b + _ =
    p.queueHolding f + p.crewHolding f b + _
  omega

omit [Kinded τ] in
/-- A task placed into a slot is held; one displaced from there is not any more. -/
theorem holding_place {p : Pool τ} {w : Nat} {x : Worker τ} (t : τ) (h : p.worker? w = some x)
    (hc : p.closed = false) :
    (p.place w t).1 = (match x.slot with
      | none => .placed
      | some displaced => .left displaced) ∧
    (p.place w t).2.holding f b + Worth f x.slot = p.holding f b + f t := by
  have hm := holding_setSlot f b (some t) h
  unfold place
  rw [hc, h]
  dsimp only
  cases hs : x.slot with
  | none =>
    rw [hs] at hm
    exact ⟨rfl, hm⟩
  | some displaced =>
    rw [hs] at hm
    exact ⟨rfl, hm⟩

@[simp] theorem holding_flush (p : Pool τ) (w : Nat) : (p.flush w).holding f b = p.holding f b := by
  unfold flush
  split
  case h_1 => rfl
  case h_2 t ht =>
    rw [holding_queueUp]
    cases hx : p.worker? w with
    | none => rw [hx] at ht; cases ht
    | some x =>
      rw [hx] at ht
      have hs : x.slot = some t := ht
      have hm := holding_setSlot f b none hx
      rw [hs] at hm
      exact hm

end submission

/-! ## Limits and closing -/

@[simp] theorem holding_raise (p : Pool τ) (w : Nat) : (p.raise w).holding f b = p.holding f b := by
  unfold raise
  split
  · rfl
  · split
    · exact congrArg (p.queueHolding f + ·)
        (crewHolding_modifyWorker_of_eq f b w _ fun _ _ => rfl)
    · rw [holding_ensureCapacity]
      exact congrArg (p.queueHolding f + ·)
        (crewHolding_modifyWorker_of_eq f b (p := { p with limit := p.limit + 1 }) w _
          fun _ _ => rfl)

@[simp] theorem holding_lower (p : Pool τ) (w : Nat) : (p.lower w).holding f b = p.holding f b := by
  unfold lower
  split
  · rfl
  · split
    · exact congrArg (p.queueHolding f + ·)
        (crewHolding_modifyWorker_of_eq f b w _ fun _ _ => rfl)
    · exact congrArg (p.queueHolding f + ·)
        (crewHolding_modifyWorker_of_eq f b (p := { p with limit := p.limit - 1 }) w _
          fun _ _ => rfl)

@[simp] theorem holding_beginClose (p : Pool τ) : p.beginClose.holding f b = p.holding f b := by
  unfold beginClose
  split
  · rfl
  · exact congrArg (p.queueHolding f + ·) (crewHolding_notifyAll f b { p with closed := true })

/-- A forced termination gives up the queues. -/
theorem holding_terminate (p : Pool τ) :
    p.terminate.2.2.holding f b + (p.terminate.2.1.map f).sum = p.holding f b := by
  have hc : p.terminate.2.2.crewHolding f b = p.crewHolding f b :=
    crewHolding_notifyAll f b { p with abandoned := true, cpuQueue := [], blockingQueue := [] }
  have hq : p.terminate.2.2.queueHolding f = 0 := rfl
  have hd : (p.terminate.2.1.map f).sum = p.queueHolding f := by
    show ((p.cpuQueue ++ p.blockingQueue).map f).sum = _
    rw [List.map_append, List.sum_append]
    rfl
  unfold holding
  rw [hc, hq, hd]
  omega

/-! ## Workers -/

/-- The task that a worker leaves waiting no longer: the one it starts, or the one that was in its
slot as it left. -/
def Turn.lifted : Turn τ → Option τ
  | .runs t => some t
  | .leaves t => t
  | .rests => none

/-- The task that a turn starts. -/
def Turn.started : Turn τ → Option τ
  | .runs t => some t
  | _ => none

theorem Turn.lifted_of_started {r : Turn τ} {t : τ} (h : r.started = some t) :
    r.lifted = some t := by
  cases r with
  | runs u => exact h
  | rests => cases h
  | leaves o => cases h

section scheduling

variable [Kinded τ]

theorem Picks.holding {p q : Pool τ} {slot o : Option τ} (h : Picks p slot (o, q)) :
    q.holding f b + Worth f o = p.holding f b + Worth f slot := by
  generalize hr : (o, q) = r at h
  induction h with
  | fromSlot => cases hr; rfl
  | @cpu p t rest _ hq =>
    cases hr
    unfold Pool.holding queueHolding
    rw [hq]
    simp only [List.map_cons, List.sum_cons, worth_none, worth_some]
    show _ + p.crewHolding f b + _ = _ + p.crewHolding f b + _
    omega
  | @blocking p t rest _ hq =>
    cases hr
    unfold Pool.holding queueHolding
    rw [hq]
    simp only [List.map_cons, List.sum_cons, worth_none, worth_some]
    show _ + p.crewHolding f b + _ = _ + p.crewHolding f b + _
    omega
  | nothing => cases hr; rfl
  | @aside p t r _ _ _ ih =>
    rw [ih hr]
    unfold Pool.holding queueHolding
    simp only [List.map_append, List.sum_append, List.map_cons, List.map_nil, List.sum_cons,
      List.sum_nil, worth_none, worth_some]
    show _ + p.crewHolding f b + _ = _ + p.crewHolding f b + _
    omega

omit [Kinded τ] in
theorem holding_leave {p : Pool τ} {w : Nat} {x : Worker τ} (h : p.worker? w = some x) :
    (p.leave w).1 = .leaves x.slot ∧
      (p.leave w).2.holding f b + x.holding f b = p.holding f b := by
  have hm := crewHolding_modifyWorker f b (p := { p with live := p.live - 1 })
    (fun x => { x with phase := .gone, slot := none }) h
  unfold leave
  rw [h]
  refine ⟨rfl, ?_⟩
  show p.queueHolding f + ({ p with live := p.live - 1 }.modifyWorker w _).crewHolding f b + _ =
    p.queueHolding f + p.crewHolding f b
  have hz : ({ x with phase := .gone, slot := none } : Worker τ).holding f b = 0 := rfl
  rw [hz] at hm
  change _ = p.crewHolding f b + 0 at hm
  omega

/-- A worker that picked a task, what it takes up then, and what the pool held before. -/
theorem Picks.emptied {p q : Pool τ} {w : Nat} {x : Worker τ} {o : Option τ}
    (h : p.worker? w = some x) (hp : Picks (p.emptySlot w) (p.slotOf? w) (o, q))
    (phase : Phase τ) : q.worker? w = some { x with slot := none } ∧
      (q.setPhase w phase).crewHolding f b + Worth b x.phase.task? =
        q.crewHolding f b + Worth b phase.task? ∧
      q.holding f b + Worth f o = p.holding f b := by
  have hw : q.worker? w = some { x with slot := none } := by
    rw [hp.frame]
    show (p.emptySlot w).worker? w = _
    rw [emptySlot, worker?_modifyWorker, if_pos rfl, h]
    rfl
  refine ⟨hw, ?_, ?_⟩
  · have hm := crewHolding_modifyWorker f b (fun x => { x with phase }) hw
    unfold Worker.holding at hm
    simp only [worth_none] at hm
    unfold setPhase
    omega
  · have he := holding_setSlot f b none h
    have hpk := hp.holding f b
    rw [slotOf?_eq h] at hpk
    change _ = (p.emptySlot w).holding f b + _ at hpk
    change (p.emptySlot w).holding f b + _ = _ at he
    simp only [worth_none] at he
    omega

/-- The law of scheduling: what the worker ran is given up, a task that it starts is counted as
running, and a task that it leaves waiting no longer is taken out. -/
theorem holding_schedule {p : Pool τ} {w : Nat} {x : Worker τ} (h : p.worker? w = some x) :
    (p.schedule w).2.holding f b + Worth b x.phase.task? + Worth f (p.schedule w).1.lifted =
      p.holding f b + Worth b (p.schedule w).1.started := by
  generalize hr : p.schedule w = r
  have hsch : Schedules p w r := hr ▸ schedules p w
  cases hsch with
  | abandoned =>
    obtain ⟨ht, hl⟩ := holding_leave f b h
    rw [ht]
    unfold Worker.holding at hl
    simp only [Turn.lifted, Turn.started, worth_none]
    omega
  | @runs t q _ hp =>
    obtain ⟨-, hc, hq⟩ := hp.emptied f b h (.running t)
    have hcount : (q.countStart (Kinded.kind t)).holding f b = q.holding f b ∧
        ((q.countStart (Kinded.kind t)).setPhase w (.running t)).crewHolding f b =
          (q.setPhase w (.running t)).crewHolding f b ∧
        ((q.countStart (Kinded.kind t)).setPhase w (.running t)).queueHolding f =
          q.queueHolding f := by
      unfold countStart
      cases Kinded.kind t <;> exact ⟨rfl, rfl, rfl⟩
    obtain ⟨h1, h2, h3⟩ := hcount
    simp only [Turn.lifted, Turn.started, worth_some]
    unfold Pool.holding at hq ⊢
    rw [h2, h3]
    simp only [worth_some] at hq
    have hrun : Worth b (Phase.running t).task? = b t := rfl
    rw [hrun] at hc
    omega
  | @drained q _ hp =>
    obtain ⟨hw, -, hq⟩ := hp.emptied f b h .gone
    obtain ⟨ht, hl⟩ := holding_leave f b hw
    rw [ht]
    unfold Worker.holding at hl
    simp only [Turn.lifted, Turn.started, worth_none] at hl hq ⊢
    omega
  | @rests q _ hp =>
    obtain ⟨-, hc, hq⟩ := hp.emptied f b h (.idle false)
    simp only [Turn.lifted, Turn.started, worth_none] at hq ⊢
    have hidle : Worth b (Phase.idle false : Phase τ).task? = 0 := rfl
    rw [hidle] at hc
    show q.queueHolding f + (q.setPhase w (.idle false)).crewHolding f b + _ + _ = _
    unfold Pool.holding at hq ⊢
    omega

/-- The law of scheduling for a section of worker `x` that ends in a turn. -/
def TurnLaw (p : Pool τ) (x : Worker τ) (r : Turn τ × Pool τ) : Prop :=
  r.2.holding f b + Worth b x.phase.task? + Worth f r.1.lifted =
    p.holding f b + Worth b r.1.started

omit [Kinded τ] in
theorem turnLaw_leave {p : Pool τ} {w : Nat} {x : Worker τ} (h : p.worker? w = some x) :
    TurnLaw f b p x (p.leave w) := by
  obtain ⟨ht, hl⟩ := holding_leave f b h
  unfold TurnLaw
  rw [ht]
  unfold Worker.holding at hl
  simp only [Turn.lifted, Turn.started, worth_none]
  omega

theorem turnLaw_begin {p : Pool τ} {w : Nat} {x : Worker τ} (h : p.worker? w = some x) :
    TurnLaw f b p x (p.begin w) :=
  holding_schedule f b (p := { p with starting := p.starting - 1 }) h

theorem turnLaw_resume {p : Pool τ} {w : Nat} {x : Worker τ} (h : p.worker? w = some x)
    (timedOut : Bool) : TurnLaw f b p x (p.resume w timedOut) := by
  unfold resume
  dsimp only
  split
  · exact turnLaw_leave f b (p := { p with idle := p.idle - 1 }) h
  · exact holding_schedule f b (p := { p with idle := p.idle - 1 }) h

omit [Kinded τ] in
theorem countEnd_hands (p : Pool τ) (k : Kind) :
    (p.countEnd k).workers = p.workers ∧ (p.countEnd k).cpuQueue = p.cpuQueue ∧
      (p.countEnd k).blockingQueue = p.blockingQueue := by
  unfold countEnd signal
  cases k <;> dsimp only <;> split <;> exact ⟨rfl, rfl, rfl⟩

omit [Kinded τ] in
theorem holding_countEnd (p : Pool τ) (k : Kind) :
    (p.countEnd k).holding f b = p.holding f b := by
  obtain ⟨hw, hc, hb⟩ := countEnd_hands p k
  unfold holding queueHolding crewHolding
  rw [hw, hc, hb]

omit [Kinded τ] in
theorem worker?_countEnd (p : Pool τ) (k : Kind) (w : Nat) :
    (p.countEnd k).worker? w = p.worker? w := by
  rw [worker?, (countEnd_hands p k).1]
  rfl

theorem turnLaw_finish {p : Pool τ} {w : Nat} {x : Worker τ} (h : p.worker? w = some x)
    (k : Kind) : TurnLaw f b p x (p.finish w k) := by
  have hs := holding_schedule f b (p := p.countEnd k) ((worker?_countEnd p k w).trans h)
  rw [holding_countEnd] at hs
  exact hs

omit [Kinded τ] in
/-- A worker that dies gives up its task and its slot, whether it is replaced or not. -/
theorem turnLaw_die {p : Pool τ} {w : Nat} {x : Worker τ} (h : p.worker? w = some x)
    (k : Kind) : TurnLaw f b p x (p.die w k) := by
  have hl := turnLaw_leave f b (p := p.countEnd k) ((worker?_countEnd p k w).trans h)
  unfold TurnLaw at hl ⊢
  rw [holding_countEnd] at hl
  unfold die
  dsimp only
  split
  · have hs : ((p.countEnd k).leave w).2.spawnWorker.holding f b =
        ((p.countEnd k).leave w).2.holding f b :=
      congrArg (((p.countEnd k).leave w).2.queueHolding f + ·) (crewHolding_spawnWorker f b _)
    rw [hs]
    exact hl
  · exact hl

end scheduling

/-- A new pool holds nothing. -/
theorem holding_ofConfig (c : Config) : (ofConfig c : Pool τ).holding f b = 0 := by
  refine ofConfig_induct (I := fun p => p.holding f b = 0) c rfl fun p h => ?_
  exact (congrArg (p.queueHolding f + ·) (crewHolding_spawnWorker f b p)).trans h

/-! ## What waiting tasks have in common -/

/-- Every task in a queue or a slot has a property. -/
structure AllWaiting (P : τ → Prop) (p : Pool τ) : Prop where
  queued : ∀ t ∈ p.cpuQueue ++ p.blockingQueue, P t
  slotted : ∀ w t, p.slotOf? w = some t → P t

theorem AllWaiting.imp {P Q : τ → Prop} {p : Pool τ} (h : AllWaiting P p) (hi : ∀ t, P t → Q t) :
    AllWaiting Q p :=
  ⟨fun t ht => hi t (h.queued t ht), fun w t ht => hi t (h.slotted w t ht)⟩

/-- The weight that counts the tasks without a property. -/
noncomputable def lacking (P : τ → Prop) (t : τ) : Nat :=
  open Classical in if P t then 0 else 1

theorem lacking_eq_zero_iff {P : τ → Prop} {t : τ} : lacking P t = 0 ↔ P t := by
  unfold lacking
  by_cases h : P t
  · simp [h]
  · simp [h]

theorem holding_eq_zero_iff (f b : τ → Nat) (p : Pool τ) :
    p.holding f b = 0 ↔ (∀ t ∈ p.cpuQueue ++ p.blockingQueue, f t = 0) ∧
      ∀ x ∈ p.workers, Worth f x.slot = 0 ∧ Worth b x.phase.task? = 0 := by
  have hq : p.queueHolding f = 0 ↔ ∀ t ∈ p.cpuQueue ++ p.blockingQueue, f t = 0 := by
    have hs : p.queueHolding f = ((p.cpuQueue ++ p.blockingQueue).map f).sum := by
      rw [List.map_append, List.sum_append]
      rfl
    rw [hs, List.sum_eq_zero_iff, List.forall_mem_map]
  have hc : p.crewHolding f b = 0 ↔
      ∀ x ∈ p.workers, Worth f x.slot = 0 ∧ Worth b x.phase.task? = 0 := by
    unfold crewHolding Worker.holding
    rw [List.sum_eq_zero_iff, List.forall_mem_map]
    exact forall_congr' fun x => imp_congr_right fun _ => Nat.add_eq_zero_iff
  unfold holding
  rw [Nat.add_eq_zero_iff, hq, hc]

theorem worth_lacking_eq_zero_iff {P : τ → Prop} {o : Option τ} :
    Worth (lacking P) o = 0 ↔ ∀ t, o = some t → P t := by
  cases o with
  | none => simp
  | some t => simp [lacking_eq_zero_iff]

/-- All waiting tasks have a property if the holding of those without it is zero. -/
theorem allWaiting_iff {P : τ → Prop} {p : Pool τ} :
    AllWaiting P p ↔ p.holding (lacking P) (fun _ => 0) = 0 := by
  rw [holding_eq_zero_iff]
  constructor
  · intro h
    refine ⟨fun t ht => lacking_eq_zero_iff.mpr (h.queued t ht), fun x hx => ⟨?_, worth_zero _⟩⟩
    obtain ⟨w, hw⟩ := List.getElem?_of_mem hx
    exact worth_lacking_eq_zero_iff.mpr fun t ht => h.slotted w t ((slotOf?_eq hw).trans ht)
  · rintro ⟨hq, hc⟩
    refine ⟨fun t ht => lacking_eq_zero_iff.mp (hq t ht), fun w t ht => ?_⟩
    obtain ⟨x, hw, hs⟩ := Option.bind_eq_some_iff.mp ht
    exact worth_lacking_eq_zero_iff.mp (hc x (List.mem_of_getElem? hw)).1 t hs

/-- A turn of a worker keeps a property of all waiting tasks, and takes up a task that has it. -/
theorem AllWaiting.turn {P : τ → Prop} {p : Pool τ} (h : AllWaiting P p) {x : Worker τ}
    {r : Turn τ × Pool τ} (hr : TurnLaw (lacking P) (fun _ => 0) p x r) :
    AllWaiting P r.2 ∧ ∀ t, r.1.lifted = some t → P t := by
  unfold TurnLaw at hr
  rw [worth_zero, worth_zero, allWaiting_iff.mp h] at hr
  refine ⟨allWaiting_iff.mpr (by omega), fun t ht => ?_⟩
  rw [ht] at hr
  exact lacking_eq_zero_iff.mp (by simp only [worth_some] at hr; omega)

/-- A section that adds a task with a property. -/
theorem AllWaiting.add {P : τ → Prop} {p q : Pool τ} (h : AllWaiting P p) {t : τ} (ht : P t)
    (hq : q.holding (lacking P) (fun _ => 0) =
      p.holding (lacking P) (fun _ => 0) + lacking P t) : AllWaiting P q := by
  rw [allWaiting_iff, hq, allWaiting_iff.mp h, lacking_eq_zero_iff.mpr ht]

/-- A section that adds none. -/
theorem AllWaiting.same {P : τ → Prop} {p q : Pool τ} (h : AllWaiting P p)
    (hq : q.holding (lacking P) (fun _ => 0) = p.holding (lacking P) (fun _ => 0)) :
    AllWaiting P q := by
  rw [allWaiting_iff, hq, allWaiting_iff.mp h]

/-- A task is placed into a slot. One that it displaces from there has waited. -/
theorem AllWaiting.place {P : τ → Prop} {p : Pool τ} (h : AllWaiting P p) {w : Nat} {x : Worker τ}
    (hw : p.worker? w = some x) (ho : p.closed = false) {t : τ} (ht : P t) :
    AllWaiting P (p.place w t).2 ∧ ∀ k, x.slot = some k → P k := by
  have hslot : ∀ k, x.slot = some k → P k := fun k hk =>
    h.slotted w k ((slotOf?_eq hw).trans hk)
  have hl := (holding_place (lacking P) (fun _ => 0) t hw ho).2
  rw [worth_lacking_eq_zero_iff.mpr hslot] at hl
  exact ⟨h.add ht hl, hslot⟩

theorem AllWaiting.terminate {P : τ → Prop} {p : Pool τ} (h : AllWaiting P p) :
    AllWaiting P p.terminate.2.2 := by
  have ht := holding_terminate (lacking P) (fun _ => 0) p
  rw [allWaiting_iff.mp h] at ht
  exact allWaiting_iff.mpr (Nat.eq_zero_of_add_eq_zero_right ht)

end Pool

end Workforce
