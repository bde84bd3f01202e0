import Workforce.Plant.Unwind

/-
  What a task reports. The closure of a task with a handle is wrapped: the wrapper catches a panic,
  makes a failure of it, destroys the payload and fills the slot of the handle. Where destroying the
  payload panics once more, control leaves the wrapper before that, and the slot is filled by the
  destructor of the unused completer, as if the closure had been dropped.

  `slot_endBody`: however the closure of a task ends, and whatever guarded calls it still owes, its
  slot holds what the wrapper makes of that when the task is over. The guarded calls settle before
  the wrapper is left and touch no slot; all that is left after it finds the slot filled.
-/

namespace Workforce

variable {ν : Type}

/-- What the wrapper of a closure reports, and how control leaves the wrapper. -/
def Exit.report : Exit ν → Except Failure (Option ν) × Exit ν
  | .returned value => (.ok value, .returned none)
  | .panicked p =>
    match p.aftershock with
    | none => (.error (.taskPanicked p.message), .returned none)
    | some q => (.error .disconnected, .panicked q)

/-- The frame belongs to the closure of a task: it is left before the outcome is reported. -/
def Frame.inner : Frame ν → Bool
  | .guard _ => true
  | .script .. => true
  | .body _ => true
  | _ => false

namespace Plant

variable {m m' m'' : Plant ν} {a : Actor} {t : Nat} {exit : Exit ν}

/-- The slot of a task. -/
def slotOf? (m : Plant ν) (t : Nat) : Option (Slot (Option ν)) := (m.tasks[t]?).map TaskRecord.slot

theorem leaveFrame_report (m : Plant ν) (a : Actor) (t : Nat) (exit : Exit ν) :
    m.leaveFrame a (.report t) exit = (exit.report.2, m.complete t exit.report.1) := by
  cases exit with
  | returned value => rfl
  | panicked p => cases h : p.aftershock <;> simp only [leaveFrame, Exit.report, h]

/-! ## Slots -/

theorem slotOf?_complete (m : Plant ν) (t u : Nat) (outcome : Except Failure (Option ν)) :
    (m.complete t outcome).slotOf? u =
      if t = u then (m.slotOf? u).map (Slot.complete outcome) else m.slotOf? u := by
  simp only [slotOf?, complete, onTask, List.getElem?_modify]
  split <;> simp [Function.comp_def]

theorem slotOf?_setStatus (m : Plant ν) (t u : Nat) (status : Status) :
    (m.setStatus t status).slotOf? u = m.slotOf? u := by
  simp only [slotOf?, setStatus, onTask, List.getElem?_modify]
  split <;> simp [Function.comp_def]

theorem slotOf?_of_tasks (h : m'.tasks = m.tasks) (t : Nat) : m'.slotOf? t = m.slotOf? t := by
  rw [slotOf?, slotOf?, h]

/-! ## Slots that are filled -/

/-- Slots that are filled stay as they are. -/
def KeepsReady (m m' : Plant ν) : Prop :=
  ∀ t outcome, m.slotOf? t = some (.ready outcome) → m'.slotOf? t = some (.ready outcome)

theorem KeepsReady.trans (h : KeepsReady m m') (h' : KeepsReady m' m'') : KeepsReady m m'' :=
  fun t outcome ht => h' t outcome (h t outcome ht)

theorem keepsReady_of_tasks (h : m'.tasks = m.tasks) : KeepsReady m m' :=
  fun t _ ht => (slotOf?_of_tasks h t).trans ht

theorem keepsReady_setStatus (m : Plant ν) (t : Nat) (status : Status) :
    KeepsReady m (m.setStatus t status) :=
  fun u _ hu => (slotOf?_setStatus m t u status).trans hu

theorem keepsReady_complete (m : Plant ν) (t : Nat) (outcome : Except Failure (Option ν)) :
    KeepsReady m (m.complete t outcome) := by
  intro u o hu
  rw [slotOf?_complete, hu]
  split <;> rfl

theorem keepsReady_discard (m : Plant ν) (t : Task ν) : KeepsReady m (m.discard t) := by
  unfold discard
  dsimp only
  split
  · exact (keepsReady_setStatus m _ _).trans (keepsReady_complete _ _ _)
  · exact keepsReady_setStatus m _ _

theorem keepsReady_withNetwork (m : Plant ν) (n : Network (Task ν)) :
    KeepsReady m (m.withNetwork n) := by
  have hput : KeepsReady m { m with network := { n with dropped := [] } } :=
    keepsReady_of_tasks rfl
  exact List.foldlRecOn n.dropped _ hput fun m' h j _ => h.trans (keepsReady_discard m' j.task)

theorem keepsReady_pay (m : Plant ν) (d : Debt) : KeepsReady m (m.pay d) := by
  unfold pay
  split
  · exact keepsReady_of_tasks rfl
  · exact keepsReady_withNetwork m _
  · split
    · exact keepsReady_of_tasks rfl
    · dsimp only
      split
      · exact fun u o hu => keepsReady_withNetwork _ _ u o hu
      · exact keepsReady_of_tasks rfl
      · exact keepsReady_of_tasks rfl

theorem keepsReady_leaveFrame (m : Plant ν) (a : Actor) (f : Frame ν) (exit : Exit ν) :
    KeepsReady m (m.leaveFrame a f exit).2 := by
  cases f with
  | guard debt => exact keepsReady_pay m debt
  | script => exact keepsReady_of_tasks rfl
  | body t => exact keepsReady_setStatus m t _
  | report t =>
    rw [leaveFrame_report]
    exact keepsReady_complete m t _
  | scope => exact keepsReady_of_tasks rfl
  | view v => exact keepsReady_withNetwork m _
  | context => exact keepsReady_of_tasks rfl

theorem keepsReady_leaveAll (a : Actor) (fs : List (Frame ν)) (m : Plant ν) (exit : Exit ν) :
    KeepsReady m (m.leaveAll a fs exit).2 := by
  induction fs generalizing m exit with
  | nil => exact keepsReady_of_tasks rfl
  | cons f fs ih => exact (keepsReady_leaveFrame m a f exit).trans (ih _ _)

theorem keepsReady_endRun (m : Plant ν) (w : WorkerId) (exit : Exit ν) :
    KeepsReady m (m.endRun w exit) := by
  unfold endRun
  split
  · unfold withTurn
    dsimp only
    split
    · exact fun u o hu => keepsReady_discard _ _ u o hu
    · exact keepsReady_of_tasks rfl
  · exact keepsReady_of_tasks rfl

/-! ## The frames of a closure -/

/-- The outcome of a task with a handle is reported when the frames of its closure are left. -/
theorem bodyFrames_report {u : Task ν} (hr : u.reports = true) (frames : List (Frame ν)) :
    ∃ fs, bodyFrames u frames = fs ++ .report u.id :: frames ∧ ∀ f ∈ fs, f.inner = true := by
  unfold bodyFrames
  rw [hr]
  cases u.body with
  | none => exact ⟨[.body u.id], rfl, by simp [Frame.inner]⟩
  | some steps => exact ⟨[.script u.id steps, .body u.id], rfl, by simp [Frame.inner]⟩

theorem dropped_lower (n : Network (Task ν)) (c : Compensator) :
    (n.lower c).dropped = n.dropped := by
  have hviews : (c.views.foldr (fun v n => n.onGate v.id Gate.lower) n).dropped = n.dropped := by
    induction c.views with
    | nil => rfl
    | cons v vs ih => exact ih
  unfold Network.lower
  dsimp only
  split
  · exact hviews
  · exact hviews

/-- No slot was touched, and the network has dropped nothing. -/
structure Untold (m m' : Plant ν) : Prop where
  slots : ∀ t, m'.slotOf? t = m.slotOf? t
  emptied : m.network.dropped = [] → m'.network.dropped = []

theorem Untold.trans (h : Untold m m') (h' : Untold m' m'') : Untold m m'' :=
  ⟨fun t => (h'.slots t).trans (h.slots t), fun he => h'.emptied (h.emptied he)⟩

theorem untold_tickets (m : Plant ν) (ts : List (Ticket × Compensator)) :
    Untold m { m with tickets := ts } := ⟨fun _ => rfl, id⟩

theorem untold_lower (he : m.network.dropped = []) (c : Compensator) :
    Untold m (m.lower c) := by
  have hd : (m.network.lower c).dropped = [] := (dropped_lower m.network c).trans he
  unfold lower withNetwork
  rw [hd]
  exact ⟨fun _ => rfl, fun _ => rfl⟩

theorem untold_pay (he : m.network.dropped = []) (d : Debt) : Untold m (m.pay d) := by
  unfold pay
  split
  · exact ⟨fun _ => rfl, id⟩
  · exact untold_lower he _
  · split
    · exact ⟨fun _ => rfl, id⟩
    · dsimp only
      split
      · refine (untold_tickets m _).trans (untold_lower ?_ _)
        exact he
      · exact ⟨fun _ => rfl, id⟩
      · exact ⟨fun _ => rfl, id⟩

/-- Leaving a frame of a closure touches no slot and does not change how control leaves. -/
theorem leaveFrame_inner {f : Frame ν} (hf : f.inner = true) (he : m.network.dropped = [])
    (a : Actor) (exit : Exit ν) :
    (m.leaveFrame a f exit).1 = exit ∧ Untold m (m.leaveFrame a f exit).2 := by
  cases f with
  | guard debt => exact ⟨rfl, untold_pay he debt⟩
  | script => exact ⟨rfl, fun _ => rfl, id⟩
  | body t => exact ⟨rfl, fun u => slotOf?_setStatus m t u _, id⟩
  | _ => cases hf

/-- The frames of a closure are left, and then its outcome is reported. -/
theorem slot_leaveAll {fs below : List (Frame ν)} (hf : ∀ f ∈ fs, f.inner = true)
    (he : m.network.dropped = []) (hs : m.slotOf? t = some .pending) (a : Actor)
    (exit : Exit ν) :
    (m.leaveAll a (fs ++ .report t :: below) exit).2.slotOf? t =
      some (.ready exit.report.1) := by
  induction fs generalizing m with
  | nil =>
    have hfilled : (m.complete t exit.report.1).slotOf? t = some (.ready exit.report.1) := by
      rw [slotOf?_complete, if_pos rfl, hs]
      rfl
    rw [List.nil_append, leaveAll, leaveFrame_report]
    exact keepsReady_leaveAll a below _ _ t _ hfilled
  | cons f fs ih =>
    obtain ⟨hexit, huntold⟩ := leaveFrame_inner (hf f List.mem_cons_self) he a exit
    rw [List.cons_append, leaveAll]
    dsimp only
    rw [hexit]
    exact ih (fun g hg => hf g (List.mem_cons_of_mem f hg)) (huntold.emptied he)
      ((huntold.slots t).trans hs)

/-- When a task is over, its slot holds what the wrapper makes of the end of its closure. -/
theorem slot_endBody {w : WorkerId} {fs below : List (Frame ν)}
    (hstack : (m.thread (.worker w)).stack = fs ++ .report t :: below)
    (hf : ∀ f ∈ fs, f.inner = true) (he : m.network.dropped = [])
    (hs : m.slotOf? t = some .pending) (exit : Exit ν) :
    (m.endBody w exit).slotOf? t = some (.ready exit.report.1) := by
  unfold endBody
  dsimp only
  rw [hstack]
  refine keepsReady_endRun _ w _ t _ (slot_leaveAll hf ?_ ?_ (.worker w) exit)
  · exact he
  · exact hs

/-- A task that is dropped without having run leaves word of that. -/
theorem slot_discard {u : Task ν} (hr : u.reports = true) (hs : m.slotOf? u.id = some .pending) :
    (m.discard u).slotOf? u.id = some (.ready (.error .disconnected)) := by
  unfold discard
  rw [hr]
  dsimp only
  rw [if_pos rfl, slotOf?_complete, if_pos rfl, slotOf?_setStatus, hs]
  rfl

end Plant

end Workforce
