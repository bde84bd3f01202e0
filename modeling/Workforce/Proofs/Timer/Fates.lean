import Workforce.Proofs.Timer.Clockwork

/-
  The fate of an entry of a timer. Starting its callback and cancelling it exclude each other and
  happen once at most, whatever the order in which its entry is popped, cancelled and fired and
  the timer dropped: both need the entry to be armed, and end that. What is in the queue when the
  timer is dropped stays there.
-/

namespace Workforce.Clockwork

variable {α : Type} {m m' : Clockwork α} {e : Entry α} {seq : Nat} {next : EntryState}

/-! ## What the states say -/

/-- The states say which callbacks started and which entries were cancelled. -/
structure Recorded (m : Clockwork α) : Prop where
  started_once : m.starts.Nodup
  cancelled_once : m.cancels.Nodup
  fired : ∀ seq ∈ m.starts, m.timer.states[seq]? = some .fired
  cancelled : ∀ seq ∈ m.cancels, m.timer.states[seq]? = some .cancelled
  /-- No entry in the line was started before. -/
  unstarted : ∀ e ∈ m.line, e.seq ∉ m.starts

theorem recorded_start : Recorded ({} : Clockwork α) where
  started_once := .nil
  cancelled_once := .nil
  fired := nofun
  cancelled := nofun
  unstarted := nofun

/-- A move that starts nothing, cancels nothing and adds nothing to the line. -/
theorem Recorded.quiet (h : Recorded m) (hl : ∀ e ∈ m'.line, e ∈ m.line)
    (hs : m'.timer.states = m.timer.states) (hst : m'.starts = m.starts)
    (hc : m'.cancels = m.cancels) : Recorded m' where
  started_once := hst ▸ h.started_once
  cancelled_once := hc ▸ h.cancelled_once
  fired := by rw [hst, hs]; exact h.fired
  cancelled := by rw [hc, hs]; exact h.cancelled
  unstarted := fun e he => hst ▸ h.unstarted e (hl e he)

/-- An armed entry has neither started nor been cancelled. -/
theorem Recorded.of_armed (h : Recorded m) (ha : m.timer.stateOf seq = .armed) :
    seq ∉ m.starts ∧ seq ∉ m.cancels := by
  have hs := Timer.stateOf_eq_armed.mp ha
  constructor
  · intro hmem
    rw [h.fired seq hmem] at hs
    cases hs
  · intro hmem
    rw [h.cancelled seq hmem] at hs
    cases hs

/-- What was decided about other entries stays when an armed entry moves on. -/
theorem getElem?_set_of_settled {s : EntryState} {i : Nat} (ha : m.timer.stateOf seq = .armed)
    (hs : s ≠ .armed) (h : m.timer.states[i]? = some s) :
    (m.timer.states.set seq next)[i]? = some s := by
  have hne : seq ≠ i := by
    rintro rfl
    rw [Timer.stateOf_eq_armed.mp ha] at h
    exact hs (Option.some.inj h).symm
  rw [List.getElem?_set_ne hne, h]

theorem getElem?_set_of_armed (ha : m.timer.stateOf seq = .armed) :
    (m.timer.states.set seq next)[seq]? = some next := by
  rw [List.getElem?_set_self (Timer.lt_of_armed ha)]

theorem Recorded.schedule (h : Recorded m) (hsound : Sound m) {delay : Duration} {callback : α} :
    Recorded (m.schedule delay callback) := by
  have hst : (m.schedule delay callback).starts = m.starts := by
    simp [starts, Clockwork.schedule, Event.started?]
  have hc : (m.schedule delay callback).cancels = m.cancels := by
    simp [cancels, Clockwork.schedule, Event.cancelled?]
  have hkeep {i : Nat} {s : EntryState} (hi : m.timer.states[i]? = some s) :
      (m.schedule delay callback).timer.states[i]? = some s := by
    have hlt := (List.getElem?_eq_some_iff.mp hi).1
    rw [← hi]
    exact List.getElem?_append_left hlt
  constructor
  case started_once => exact hst ▸ h.started_once
  case cancelled_once => exact hc ▸ h.cancelled_once
  case fired => exact fun i hi => hkeep (h.fired i (hst ▸ hi))
  case cancelled => exact fun i hi => hkeep (h.cancelled i (hc ▸ hi))
  case unstarted =>
    intro e he
    rw [hst]
    rw [hsound.line_schedule] at he
    obtain rfl | he := Entry.mem_insert.mp he
    · intro hmem
      have hlt := (List.getElem?_eq_some_iff.mp (h.fired _ hmem)).1
      exact absurd hlt (Nat.lt_irrefl _)
    · exact h.unstarted e he

/-- An armed entry is cancelled. -/
theorem Recorded.cancelled_armed (h : Recorded m) (ha : m.timer.stateOf seq = .armed)
    (hl : m'.line = m.line) (hs : m'.timer.states = m.timer.states.set seq .cancelled)
    (hst : m'.starts = m.starts) (hc : m'.cancels = m.cancels ++ [seq]) : Recorded m' := by
  constructor
  case started_once => exact hst ▸ h.started_once
  case cancelled_once =>
    rw [hc, List.nodup_append]
    refine ⟨h.cancelled_once, by simp, fun i hi j hj hij => ?_⟩
    obtain rfl := List.mem_singleton.mp hj
    exact (h.of_armed ha).2 (hij ▸ hi)
  case fired =>
    intro i hi
    rw [hs]
    exact getElem?_set_of_settled ha nofun (h.fired i (hst ▸ hi))
  case cancelled =>
    intro i hi
    rw [hs]
    obtain hi | hi := List.mem_append.mp (hc ▸ hi)
    · exact getElem?_set_of_settled ha nofun (h.cancelled i hi)
    · obtain rfl := List.mem_singleton.mp hi
      exact getElem?_set_of_armed ha
  case unstarted =>
    intro e he
    rw [hst]
    exact h.unstarted e (hl ▸ he)

/-- The entry in hand is armed, and its callback starts. -/
theorem Recorded.started_armed (h : Recorded m) (hsound : Sound m) (hp : m.post = .holding e)
    (ha : m.timer.stateOf e.seq = .armed) (hl : m'.line = m.timer.queue)
    (hs : m'.timer.states = m.timer.states.set e.seq .fired)
    (hst : m'.starts = m.starts ++ [e.seq]) (hc : m'.cancels = m.cancels) : Recorded m' := by
  have hline := line_of_holding hp
  constructor
  case started_once =>
    rw [hst, List.nodup_append]
    refine ⟨h.started_once, by simp, fun i hi j hj hij => ?_⟩
    obtain rfl := List.mem_singleton.mp hj
    exact (h.of_armed ha).1 (hij ▸ hi)
  case cancelled_once => exact hc ▸ h.cancelled_once
  case fired =>
    intro i hi
    rw [hs]
    obtain hi | hi := List.mem_append.mp (hst ▸ hi)
    · exact getElem?_set_of_settled ha nofun (h.fired i hi)
    · obtain rfl := List.mem_singleton.mp hi
      exact getElem?_set_of_armed ha
  case cancelled =>
    intro i hi
    rw [hs]
    exact getElem?_set_of_settled ha nofun (h.cancelled i (hc ▸ hi))
  case unstarted =>
    intro x hx hmem
    rw [hl] at hx
    obtain hmem | hmem := List.mem_append.mp (hst ▸ hmem)
    · exact h.unstarted x (hline ▸ List.mem_cons_of_mem e hx) hmem
    · -- the entries that are left have other numbers than the one that starts
      have hn := hsound.distinct
      rw [hline, List.map_cons, List.nodup_cons] at hn
      rw [← List.mem_singleton.mp hmem] at hn
      exact hn.1 (List.mem_map_of_mem hx)

theorem Recorded.moves (h : Recorded m) (hsound : Sound m) (hm : Moves m m') : Recorded m' := by
  cases hm with
  | stays => exact h
  | passes => exact h.quiet (fun _ he => he) rfl rfl rfl
  | schedules => exact h.schedule hsound
  | cancels ha =>
    exact h.cancelled_armed ha rfl rfl (by simp [starts, Event.started?])
      (by simp [cancels, Event.cancelled?])
  | fails =>
    exact h.quiet (fun _ he => he) rfl (by simp [starts, Event.started?])
      (by simp [cancels, Event.cancelled?])
  | stops => exact h.quiet (fun _ he => he) rfl rfl rfl
  | leaves hp => exact h.quiet (fun _ he => line_of_looks hp ▸ he) rfl rfl rfl
  | pops hp hs hq =>
    refine h.quiet (fun x hx => ?_) rfl rfl rfl
    rw [line_of_looks hp, hq]
    exact hx
  | waits hp => exact h.quiet (fun _ he => line_of_looks hp ▸ he) rfl rfl rfl
  | starts hp ha =>
    exact h.started_armed hsound hp ha rfl rfl (by simp [starts, Event.started?])
      (by simp [cancels, Event.cancelled?])
  | skips hp =>
    refine h.quiet (fun x hx => ?_) rfl rfl rfl
    rw [line_of_holding hp]
    exact List.mem_cons_of_mem _ hx
  | ends panic hp =>
    refine h.quiet (fun x hx => ?_) rfl rfl rfl
    rw [line, hand_postAfter] at hx
    exact List.mem_append_right _ hx

theorem recorded_run (as : List (Act α)) : Recorded (run as) :=
  (run_induction (P := fun m : Clockwork α => Sound m ∧ Recorded m)
    ⟨sound_start, recorded_start⟩
    (fun m a h => ⟨h.1.moves (Clockwork.moves m a), h.2.moves h.1 (Clockwork.moves m a)⟩) as).2

/-! ## After the drop -/

/-- Nothing comes into the queue of a timer that was dropped, and nothing out of it. -/
theorem Moves.of_stopped (hm : Moves m m') (hs : m.timer.stopped = true) :
    m'.timer.stopped = true ∧ m'.timer.queue = m.timer.queue := by
  cases hm with
  | schedules _ _ h => rw [h] at hs; cases hs
  | pops _ h => rw [h] at hs; cases hs
  | stops => exact ⟨rfl, rfl⟩
  | _ => exact ⟨hs, rfl⟩

theorem foldl_of_stopped (bs : List (Act α)) (hs : m.timer.stopped = true) :
    (bs.foldl step m).timer.queue = m.timer.queue := by
  induction bs generalizing m with
  | nil => rfl
  | cons b bs ih =>
    obtain ⟨hs', hq⟩ := (moves m b).of_stopped hs
    exact (ih hs').trans hq

/-- What is in the queue when a timer is dropped is there ever after. -/
theorem queue_of_stop (as bs : List (Act α)) :
    (run (as ++ .stop :: bs)).timer.queue = (run as).timer.queue := by
  rw [run_append, List.foldl_cons]
  exact foldl_of_stopped bs rfl

/-! ## Firing, cancelling and stopping -/

/-- Starting the callback of an entry and cancelling it exclude each other. -/
structure Decided (m : Clockwork α) : Prop where
  started_once : m.starts.Nodup
  /-- One call to cancel an entry succeeds at most. -/
  cancelled_once : m.cancels.Nodup
  /-- No callback of an entry starts that was or will be cancelled. -/
  exclusive : ∀ seq ∈ m.cancels, seq ∉ m.starts
  /-- The handle of an entry whose callback has started says so. -/
  fired : ∀ seq ∈ m.starts, m.timer.stateOf seq = .fired
  /-- Calls to cancel an entry whose callback has started fail. -/
  late : ∀ l₁ e l₂, m.log = l₁ ++ .started e :: l₂ → ∀ done, .cancelled e.seq done ∈ l₂ →
    done = false

theorem Recorded.exclusive (h : Recorded m) : ∀ seq ∈ m.cancels, seq ∉ m.starts := by
  intro seq hc hs
  have heq := (h.cancelled seq hc).symm.trans (h.fired seq hs)
  cases heq

theorem Recorded.late (h : Recorded m) {l₁ l₂ : List (Event α)}
    (heq : m.log = l₁ ++ .started e :: l₂) : .cancelled e.seq true ∉ l₂ := by
  intro hmem
  have hs : e.seq ∈ m.starts := List.mem_filterMap.mpr ⟨.started e, by simp [heq], rfl⟩
  have hc : e.seq ∈ m.cancels :=
    List.mem_filterMap.mpr ⟨.cancelled e.seq true, by simp [heq, hmem], rfl⟩
  exact h.exclusive e.seq hc hs

theorem Recorded.decided (h : Recorded m) : Decided m where
  started_once := h.started_once
  cancelled_once := h.cancelled_once
  exclusive := h.exclusive
  fired := fun seq hs => by
    rw [Timer.stateOf, h.fired seq hs]
    rfl
  late := fun l₁ e l₂ heq done hmem => by
    cases done with
    | false => rfl
    | true => exact absurd hmem (h.late heq)

/-- Firing, cancelling and stopping exclude each other: each entry of a timer has one fate, and
what is in the queue when the timer is dropped never starts. -/
theorem fates_exclusive (as bs : List (Act α)) : Decided (run as) ∧
    ∀ e ∈ (run as).timer.queue, e.seq ∉ (run (as ++ .stop :: bs)).starts := by
  refine ⟨(recorded_run as).decided, fun e he => ?_⟩
  apply (recorded_run (as ++ .stop :: bs)).unstarted
  rw [line, queue_of_stop]
  exact List.mem_append_right _ he

end Workforce.Clockwork
