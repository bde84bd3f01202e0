import Workforce.Proofs.Pool.Sections

/-
  The marks of closing. A pool is marked as closed by the first close and as abandoned by the
  first forced termination; no other section touches the marks (`marks_step`), and neither is
  ever taken back (`closed_step`, `abandoned_of_abandoned`). Only closed pools are abandoned
  (`closedFirst_run`).
-/

namespace Workforce.Pool

variable {τ : Type} [Kinded τ]

/-- Whether a pool is closed, and whether it is abandoned. -/
def marks (p : Pool τ) : Bool × Bool := (p.closed, p.abandoned)

omit [Kinded τ] in
theorem marks_ensureCapacity (p : Pool τ) : p.ensureCapacity.marks = p.marks := by
  have hb : p.ensureCapacity.bare.marks = p.marks := by
    rcases bare_ensureCapacity p with ⟨-, h⟩ | ⟨-, h⟩ <;> rw [h] <;> rfl
  exact hb

theorem marks_queueUp (p : Pool τ) (t : τ) : (p.queueUp t).marks = p.marks := by
  unfold queueUp
  rw [marks_ensureCapacity]
  unfold enqueue
  cases Kinded.kind t <;> rfl

theorem marks_schedule (p : Pool τ) (w : Nat) : (p.schedule w).2.marks = p.marks := by
  generalize hr : p.schedule w = r
  have hsch : Schedules p w r := hr ▸ schedules p w
  cases hsch with
  | abandoned => rfl
  | runs _ hp =>
    rw [hp.frame]
    unfold countStart
    split <;> rfl
  | drained _ hp => rw [hp.frame]; rfl
  | rests _ hp => rw [hp.frame]; rfl

omit [Kinded τ] in
theorem marks_countEnd (p : Pool τ) (k : Kind) : (p.countEnd k).marks = p.marks := by
  unfold countEnd signal
  cases k <;> dsimp only <;> split <;> rfl

omit [Kinded τ] in
theorem marks_place (p : Pool τ) (w : Nat) (t : τ) : (p.place w t).2.marks = p.marks := by
  unfold place
  split
  · rfl
  · split
    · rfl
    · split <;> rfl

theorem marks_flush (p : Pool τ) (w : Nat) : (p.flush w).marks = p.marks := by
  unfold flush
  split
  · rfl
  · exact marks_queueUp _ _

theorem marks_resume (p : Pool τ) (w : Nat) (timedOut : Bool) :
    (p.resume w timedOut).2.marks = p.marks := by
  unfold resume
  dsimp only
  split
  · rfl
  · exact marks_schedule _ w

omit [Kinded τ] in
theorem marks_die (p : Pool τ) (w : Nat) (k : Kind) : (p.die w k).2.marks = p.marks := by
  unfold die
  dsimp only
  split
  · exact marks_countEnd p k
  · exact marks_countEnd p k

omit [Kinded τ] in
theorem marks_raise (p : Pool τ) (w : Nat) : (p.raise w).marks = p.marks := by
  unfold raise
  split
  · rfl
  · split
    · rfl
    · exact marks_ensureCapacity _

omit [Kinded τ] in
theorem marks_lower (p : Pool τ) (w : Nat) : (p.lower w).marks = p.marks := by
  unfold lower
  split
  · rfl
  · split <;> rfl

/-- Only closes mark a pool as closed or abandoned. -/
theorem marks_step {p : Pool τ} {s : Section τ} (hc : s ≠ .beginClose) (ht : s ≠ .terminate) :
    (p.step s).marks = p.marks := by
  have hm := moves p s
  generalize p.step s = q at hm
  cases hm with
  | stays => rfl
  | accepted => exact marks_queueUp p _
  | taken => exact marks_queueUp p _
  | placed => exact marks_place p _ _
  | flushed => exact marks_flush p _
  | began => exact marks_schedule _ _
  | resumed => exact marks_resume p _ _
  | finished => exact (marks_schedule _ _).trans (marks_countEnd p _)
  | died => exact marks_die p _ _
  | raised w => exact marks_raise p w
  | lowered w => exact marks_lower p w
  | closed => exact absurd rfl hc
  | terminated => exact absurd rfl ht

omit [Kinded τ] in
theorem marks_beginClose (p : Pool τ) : p.beginClose.marks = (true, p.abandoned) := by
  unfold beginClose
  split
  case isTrue h => exact Prod.ext h rfl
  case isFalse => rfl

/-- Only a forced termination marks a pool as abandoned. -/
theorem abandoned_step {p : Pool τ} {s : Section τ} (hs : s ≠ .terminate) :
    (p.step s).abandoned = p.abandoned := by
  by_cases hc : s = .beginClose
  · subst hc
    exact congrArg Prod.snd (marks_beginClose p)
  · exact congrArg Prod.snd (marks_step hc hs)

/-- A forced termination closes a pool that is closed already. -/
theorem closed_terminate_step {p : Pool τ} : (p.step .terminate).closed = p.closed := by
  rw [step]
  split <;> rfl

/-- A pool that is closed stays closed. -/
theorem closed_step {p : Pool τ} (h : p.closed = true) (s : Section τ) :
    (p.step s).closed = true := by
  by_cases hc : s = .beginClose
  · subst hc
    exact congrArg Prod.fst (marks_beginClose p)
  · by_cases ht : s = .terminate
    · subst ht
      rw [closed_terminate_step, h]
    · exact (congrArg Prod.fst (marks_step hc ht)).trans h

/-- A pool that is abandoned stays abandoned. -/
theorem abandoned_of_abandoned {p : Pool τ} (h : p.abandoned = true) (s : Section τ) :
    (p.step s).abandoned = true := by
  by_cases ht : s = .terminate
  · subst ht
    rw [step]
    split
    · rfl
    · exact h
  · rw [abandoned_step ht, h]

/-- A pool is abandoned by a forced termination, if at all. -/
theorem abandoned_run_eq (p : Pool τ) {ss : List (Section τ)} (hn : .terminate ∉ ss) :
    (p.run ss).abandoned = p.abandoned :=
  List.foldlRecOn (motive := fun q => q.abandoned = p.abandoned) ss step rfl fun _ hq _ hs =>
    (abandoned_step fun he => hn (he ▸ hs)).trans hq

/-- A pool is closed by a close, if at all. -/
theorem closed_run_eq (p : Pool τ) {ss : List (Section τ)} (hn : .beginClose ∉ ss) :
    (p.run ss).closed = p.closed := by
  refine List.foldlRecOn (motive := fun q => q.closed = p.closed) ss step rfl fun q hq s hs => ?_
  by_cases ht : s = .terminate
  · rw [ht, closed_terminate_step, hq]
  · exact (congrArg Prod.fst (marks_step (fun he => hn (he ▸ hs)) ht)).trans hq

/-- Only pools that are closed are abandoned. -/
def ClosedFirst (p : Pool τ) : Prop := p.abandoned = true → p.closed = true

theorem closedFirst_step {p : Pool τ} (h : ClosedFirst p) (s : Section τ) :
    ClosedFirst (p.step s) := by
  intro ha
  by_cases ht : s = .terminate
  · subst ht
    rw [closed_terminate_step]
    by_cases hc : p.closed = true ∧ p.atRest = false
    · exact hc.1
    · rw [step, if_neg hc] at ha
      exact h ha
  · rw [abandoned_step ht] at ha
    exact closed_step (h ha) s

omit [Kinded τ] in
theorem marks_ofConfig (c : Config) : (ofConfig c : Pool τ).marks = (false, false) :=
  ofConfig_induct (I := fun p => p.marks = (false, false)) c rfl fun _ h => h

theorem closedFirst_run {p : Pool τ} (h : ClosedFirst p) (ss : List (Section τ)) :
    ClosedFirst (p.run ss) :=
  List.foldlRecOn (motive := ClosedFirst) ss step h fun _ hq s _ => closedFirst_step hq s

omit [Kinded τ] in
theorem closedFirst_ofConfig (c : Config) : ClosedFirst (ofConfig c : Pool τ) := by
  intro ha
  have hm : (ofConfig c : Pool τ).abandoned = false := congrArg Prod.snd (marks_ofConfig c)
  rw [hm] at ha
  cases ha

end Workforce.Pool
