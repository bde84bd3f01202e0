import Workforce.Proofs.Pool.Holdings
import Workforce.Proofs.Pool.WorkConservation

/-
  After a forced termination. An abandoned pool starts no task any more: whatever turn a worker
  takes there, it leaves (`started?_of_abandoned`). Its queues are to stay empty. Submissions find
  the pool closed, tasks that a view forwards find it abandoned, and a worker that leaves does not
  put aside what is in its slot; but a worker that flushes its slot looks at neither mark
  (`Revives`).

  `final_iff`: the queues of a pool stay empty from its forced termination on exactly if no section
  revives it, and no section starts a task from then on in either case.
-/

namespace Workforce.Pool

variable {τ : Type} [Kinded τ]

/-! ## Starts -/

/-- The task that a section starts. -/
def started? (p : Pool τ) (s : Section τ) : Option τ := (p.turn? s).bind Turn.started

theorem schedule_of_abandoned {p : Pool τ} (h : p.abandoned = true) (w : Nat) :
    p.schedule w = p.leave w := if_pos h

theorem started_schedule_of_abandoned {p : Pool τ} (h : p.abandoned = true) (w : Nat) :
    (p.schedule w).1.started = none := by
  rw [schedule_of_abandoned h]
  rfl

/-- No task is started in an abandoned pool. -/
theorem started?_of_abandoned {p : Pool τ} (h : p.abandoned = true) (s : Section τ) :
    p.started? s = none := by
  unfold started?
  cases s with
  | begin w =>
    rw [turn?]
    split
    · exact started_schedule_of_abandoned (p := { p with starting := p.starting - 1 }) h w
    · rfl
  | resume w timedOut =>
    rw [turn?]
    split
    · show (p.resume w timedOut).1.started = none
      unfold resume
      dsimp only
      split
      · rfl
      · exact started_schedule_of_abandoned (p := { p with idle := p.idle - 1 }) h w
    · rfl
  | finish w =>
    rw [turn?]
    cases p.taskOf? w with
    | none => rfl
    | some t =>
      have ha : (p.countEnd (Kinded.kind t)).abandoned = true :=
        (congrArg Prod.snd (marks_countEnd p _)).trans h
      exact started_schedule_of_abandoned ha w
  | die w =>
    rw [turn?]
    cases p.taskOf? w <;> rfl
  | _ => rfl

/-! ## Queues -/

/-- The two queues of a pool. -/
def queues (p : Pool τ) : List τ × List τ := (p.cpuQueue, p.blockingQueue)

omit [Kinded τ] in
theorem queues_of_ensureCapacity (p : Pool τ) : p.ensureCapacity.queues = p.queues :=
  Prod.ext (queues_ensureCapacity p).1 (queues_ensureCapacity p).2

theorem queues_queueUp_ne (p : Pool τ) (t : τ) : (p.queueUp t).queues ≠ ([], []) := by
  rw [queueUp, queues_of_ensureCapacity]
  unfold enqueue queues
  cases Kinded.kind t <;> simp

omit [Kinded τ] in
theorem queues_countEnd (p : Pool τ) (k : Kind) : (p.countEnd k).queues = p.queues := by
  unfold countEnd signal
  cases k <;> dsimp only <;> split <;> rfl

theorem queues_schedule_of_abandoned {p : Pool τ} (h : p.abandoned = true) (w : Nat) :
    (p.schedule w).2.queues = p.queues := by
  rw [schedule_of_abandoned h]
  rfl

theorem queues_resume_of_abandoned {p : Pool τ} (h : p.abandoned = true) (w : Nat)
    (timedOut : Bool) : (p.resume w timedOut).2.queues = p.queues := by
  unfold resume
  dsimp only
  split
  · rfl
  · exact queues_schedule_of_abandoned (p := { p with idle := p.idle - 1 }) h w

theorem queues_finish_of_abandoned {p : Pool τ} (h : p.abandoned = true) (w : Nat) (k : Kind) :
    (p.finish w k).2.queues = p.queues := by
  have ha : (p.countEnd k).abandoned = true := (congrArg Prod.snd (marks_countEnd p k)).trans h
  exact (queues_schedule_of_abandoned ha w).trans (queues_countEnd p k)

omit [Kinded τ] in
theorem queues_die (p : Pool τ) (w : Nat) (k : Kind) : (p.die w k).2.queues = p.queues := by
  unfold die
  dsimp only
  split
  · exact queues_countEnd p k
  · exact queues_countEnd p k

omit [Kinded τ] in
theorem queues_raise (p : Pool τ) (w : Nat) : (p.raise w).queues = p.queues := by
  unfold raise
  split
  · rfl
  · split
    · rfl
    · exact queues_of_ensureCapacity _

omit [Kinded τ] in
theorem queues_lower (p : Pool τ) (w : Nat) : (p.lower w).queues = p.queues := by
  unfold lower
  split
  · rfl
  · split <;> rfl

omit [Kinded τ] in
theorem queues_beginClose (p : Pool τ) : p.beginClose.queues = p.queues := by
  unfold beginClose
  split <;> rfl

/-! ## Sections of an abandoned pool -/

/-- The queues of a pool are empty if the pool is abandoned. -/
def Final (p : Pool τ) : Prop := p.abandoned = true → p.queues = ([], [])

/-- A section queues a task in an abandoned pool: a running worker flushes its slot. -/
def Revives (p : Pool τ) : Section τ → Prop
  | .flush w =>
    p.abandoned = true ∧ (p.taskOf? w).isSome = true ∧ (p.slotOf? w).isSome = true
  | _ => False

theorem flush_of_slot {p : Pool τ} {w : Nat} {t : τ} (h : p.slotOf? w = some t) :
    p.flush w = (p.emptySlot w).queueUp t := by
  unfold flush
  rw [show (p.worker? w).bind Worker.slot = some t from h]
  rfl

theorem flush_of_no_slot {p : Pool τ} {w : Nat} (h : p.slotOf? w = none) : p.flush w = p := by
  unfold flush
  rw [show (p.worker? w).bind Worker.slot = none from h]

/-- A section that revives an abandoned pool leaves a task in its queues. -/
theorem Revives.queues_ne {p : Pool τ} {s : Section τ} (h : p.Revives s) :
    (p.step s).abandoned = true ∧ (p.step s).queues ≠ ([], []) := by
  cases s with
  | flush w =>
    obtain ⟨ha, ht, hs⟩ := h
    refine ⟨abandoned_of_abandoned ha _, ?_⟩
    obtain ⟨t, hs⟩ := Option.isSome_iff_exists.mp hs
    rw [step, if_pos ht, flush_of_slot hs]
    exact queues_queueUp_ne _ t
  | _ => exact h.elim

/-- Every other section leaves the queues of an abandoned pool as they are, or empties them. -/
theorem queues_step_of_abandoned {p : Pool τ} (ha : p.abandoned = true) (hc : p.closed = true)
    {s : Section τ} (hs : ¬ p.Revives s) :
    (p.step s).queues = p.queues ∨ (p.step s).queues = ([], []) := by
  have hm := moves p s
  generalize p.step s = q at hm
  cases hm with
  | stays => exact Or.inl rfl
  | accepted ho => rw [hc] at ho; cases ho
  | taken hk => rw [ha] at hk; cases hk
  | @placed w t _ => exact Or.inl (by rw [place_of_closed hc])
  | @flushed w ht =>
    have hn : p.slotOf? w = none := by
      cases hw : p.slotOf? w with
      | none => rfl
      | some t => exact absurd ⟨ha, ht, by rw [hw]; rfl⟩ hs
    exact Or.inl (by rw [flush_of_no_slot hn])
  | @began w =>
    exact Or.inl (queues_schedule_of_abandoned (p := { p with starting := p.starting - 1 }) ha w)
  | resumed => exact Or.inl (queues_resume_of_abandoned ha _ _)
  | finished => exact Or.inl (queues_finish_of_abandoned ha _ _)
  | died => exact Or.inl (queues_die p _ _)
  | raised w => exact Or.inl (queues_raise p w)
  | lowered w => exact Or.inl (queues_lower p w)
  | closed => exact Or.inl (queues_beginClose p)
  | terminated => exact Or.inr rfl

/-- A forced termination empties the queues. -/
theorem final_terminate {p : Pool τ} (h : Final p) : Final (p.step .terminate) := by
  rw [step]
  split
  · exact fun _ => rfl
  · exact h

/-- The queues stay empty in a section exactly if it does not revive the pool. -/
theorem final_step_iff {p : Pool τ} (hc : ClosedFirst p) (h : Final p) (s : Section τ) :
    Final (p.step s) ↔ ¬ p.Revives s := by
  constructor
  · intro hf hr
    obtain ⟨ha, hq⟩ := hr.queues_ne
    exact hq (hf ha)
  · intro hr
    by_cases ht : s = .terminate
    · subst ht
      exact final_terminate h
    · intro ha
      rw [abandoned_step ht] at ha
      rcases queues_step_of_abandoned ha (hc ha) hr with hq | hq
      · rw [hq, h ha]
      · exact hq

/-! ## Runs -/

theorem abandoned_run {p : Pool τ} (h : p.abandoned = true) (ss : List (Section τ)) :
    (p.run ss).abandoned = true :=
  List.foldlRecOn (motive := fun q => q.abandoned = true) ss step h fun _ hq s _ =>
    abandoned_of_abandoned hq s

/-- A pool that is abandoned after a prefix of a run is abandoned from there on. -/
theorem abandoned_later {p : Pool τ} {vs us : List (Section τ)} (hv : vs <+: us)
    (h : (p.run vs).abandoned = true) : (p.run us).abandoned = true := by
  obtain ⟨ws, rfl⟩ := hv
  unfold run at h ⊢
  rw [List.foldl_append]
  exact abandoned_run h ws

/-- The queues of a pool are empty from its forced termination on exactly if no section of the run
revives the pool. In either case no section starts a task from then on. -/
theorem final_iff (c : Config) (ss : List (Section τ)) :
    ((∀ vs us, vs <+: us → us <+: ss → ((ofConfig c).run vs).abandoned = true →
        ((ofConfig c).run us).queues = ([], [])) ↔
      ∀ us s, us ++ [s] <+: ss → ¬ ((ofConfig c).run us).Revives s) ∧
    ∀ vs us s, vs <+: us → us ++ [s] <+: ss → ((ofConfig c).run vs).abandoned = true →
      ((ofConfig c).run us).started? s = none := by
  have hstart : Final ((ofConfig c : Pool τ)) := by
    intro ha
    rw [show (ofConfig c : Pool τ).abandoned = false from
      congrArg Prod.snd (marks_ofConfig c)] at ha
    cases ha
  have hpre := forall_prefix_iff hstart fun us s (_ : us ++ [s] <+: ss) hf =>
    final_step_iff (closedFirst_run (closedFirst_ofConfig c) us) hf s
  refine ⟨Iff.trans ⟨fun h us hu => ?_, fun h vs us hv hu ha => ?_⟩ hpre, fun vs us s hv _ ha => ?_⟩
  · exact h us us (List.prefix_refl us) hu
  · exact h us hu (abandoned_later hv ha)
  · exact started?_of_abandoned (abandoned_later hv ha) s

/-! ## A pool that is revived -/

/-- The only worker runs a task and has another in its slot when a close gives up waiting; then the
running task makes a guarded call. -/
def revivedRun : List (Section Kind) :=
  [.begin 0, .accept .cpu, .resume 0 false, .place 0 .cpu, .beginClose, .terminate, .flush 0]

/-- The task that was in the slot is in the queue of the abandoned pool, and stays there when the
worker has left. -/
theorem revived_for_good :
    ((ofConfig (single 1)).run (revivedRun.take 6)).abandoned = true ∧
      ((ofConfig (single 1)).run (revivedRun.take 6)).queues = ([], []) ∧
      ((ofConfig (single 1)).run revivedRun).queues = ([.cpu], []) ∧
      ((ofConfig (single 1)).run (revivedRun ++ [.finish 0])).queues = ([.cpu], []) ∧
      ((ofConfig (single 1)).run (revivedRun ++ [.finish 0])).live = 0 := by
  decide

end Workforce.Pool
