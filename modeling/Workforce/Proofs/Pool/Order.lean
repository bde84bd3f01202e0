import Workforce.Proofs.Pool.Marks

/-
  The order that every pool keeps: each queue holds tasks of its kind, and only a worker that
  runs a task has one in its slot (`Orderly`). Every section keeps it (`orderly_step`), a forced
  termination included, so it holds in all runs from a new pool (`orderly_run`).
-/

namespace Workforce.Pool

variable {τ : Type} [Kinded τ]

/-- Queues hold tasks of their kind, and slots are filled on running workers only. -/
structure Orderly (p : Pool τ) : Prop where
  cpu : ∀ t ∈ p.cpuQueue, Kinded.kind t = .cpu
  blocking : ∀ t ∈ p.blockingQueue, Kinded.kind t = .blocking
  slots : ∀ w t, p.slotOf? w = some t → ∃ u, p.taskOf? w = some u

theorem Orderly.slotOf?_eq_none {p : Pool τ} (h : Orderly p) {w : Nat} (hw : p.taskOf? w = none) :
    p.slotOf? w = none := by
  cases hs : p.slotOf? w with
  | none => rfl
  | some t =>
    obtain ⟨u, hu⟩ := h.slots w t hs
    rw [hw] at hu
    cases hu

/-- A pool with the queues and hands of an orderly one is orderly. -/
theorem Orderly.transfer {p q : Pool τ} (h : Orderly p) (hc : q.cpuQueue = p.cpuQueue)
    (hb : q.blockingQueue = p.blockingQueue) (hh : SameHands p q) : Orderly q := by
  refine ⟨?_, ?_, ?_⟩
  · rw [hc]; exact h.cpu
  · rw [hb]; exact h.blocking
  · intro w t ht
    rw [hh.slot] at ht
    rw [hh.task]
    exact h.slots w t ht

/-- The order does not depend on counters and flags. -/
theorem Orderly.recount {p q : Pool τ} (h : Orderly p) (hc : q.cpuQueue = p.cpuQueue)
    (hb : q.blockingQueue = p.blockingQueue) (hw : q.workers = p.workers) : Orderly q := by
  refine h.transfer hc hb ⟨fun u => ?_, fun u => ?_⟩
  · rw [taskOf?, worker?, hw]; rfl
  · rw [slotOf?, worker?, hw]; rfl

/-! ## Queueing -/

omit [Kinded τ] in
theorem queues_ensureCapacity (p : Pool τ) :
    p.ensureCapacity.cpuQueue = p.cpuQueue ∧
      p.ensureCapacity.blockingQueue = p.blockingQueue := by
  have hc : p.ensureCapacity.bare.cpuQueue = p.cpuQueue ∧
      p.ensureCapacity.bare.blockingQueue = p.blockingQueue := by
    rcases bare_ensureCapacity p with ⟨-, h⟩ | ⟨-, h⟩ <;> rw [h] <;> exact ⟨rfl, rfl⟩
  exact hc

theorem orderly_enqueue {p : Pool τ} (h : Orderly p) (t : τ) : Orderly (p.enqueue t) := by
  unfold enqueue
  cases hk : Kinded.kind t with
  | cpu =>
    refine ⟨?_, h.blocking, h.slots⟩
    intro u hu
    rcases List.mem_append.mp hu with hu | hu
    · exact h.cpu u hu
    · rw [List.mem_singleton.mp hu]; exact hk
  | blocking =>
    refine ⟨h.cpu, ?_, h.slots⟩
    intro u hu
    rcases List.mem_append.mp hu with hu | hu
    · exact h.blocking u hu
    · rw [List.mem_singleton.mp hu]; exact hk

theorem orderly_ensureCapacity {p : Pool τ} (h : Orderly p) : Orderly p.ensureCapacity :=
  h.transfer (queues_ensureCapacity p).1 (queues_ensureCapacity p).2 (sameHands_ensureCapacity p)

theorem orderly_queueUp {p : Pool τ} (h : Orderly p) (t : τ) : Orderly (p.queueUp t) :=
  orderly_ensureCapacity (orderly_enqueue h t)

/-! ## Changing one worker -/

/-- Emptying the slot of a worker, or letting it run something, keeps the order. -/
theorem orderly_modifyWorker {p : Pool τ} (h : Orderly p) (w : Nat) (f : Worker τ → Worker τ)
    (hf : ∀ x t, p.worker? w = some x → (f x).slot = some t → ∃ u, (f x).phase.task? = some u) :
    Orderly (p.modifyWorker w f) := by
  refine ⟨h.cpu, h.blocking, ?_⟩
  intro u t ht
  rw [slotOf?_modifyWorker] at ht
  rw [taskOf?_modifyWorker]
  split at ht
  case isTrue hu =>
    subst hu
    rw [if_pos rfl]
    cases hx : p.worker? w with
    | none => rw [hx] at ht; cases ht
    | some x =>
      rw [hx] at ht
      exact hf x t hx ht
  case isFalse hu =>
    rw [if_neg hu]
    exact h.slots u t ht

theorem orderly_place {p : Pool τ} (h : Orderly p) (w : Nat) (t : τ)
    (hw : (p.taskOf? w).isSome = true) : Orderly (p.place w t).2 := by
  have hf : Orderly (p.modifyWorker w fun x => { x with slot := some t }) := by
    refine orderly_modifyWorker h w _ fun x u hx _ => ?_
    obtain ⟨v, hv⟩ := Option.isSome_iff_exists.mp hw
    rw [taskOf?, hx] at hv
    exact ⟨v, hv⟩
  unfold place
  split
  · exact h
  · split
    · exact h
    · split <;> exact hf

theorem orderly_flush {p : Pool τ} (h : Orderly p) (w : Nat) : Orderly (p.flush w) := by
  unfold flush
  split
  · exact h
  · refine orderly_queueUp (orderly_modifyWorker h w _ fun x t _ ht => ?_) _
    cases ht

/-! ## The sections of workers -/

theorem Picks.orderly {p q : Pool τ} {slot o : Option τ} (hp : Picks p slot (o, q))
    (h : Orderly p) : Orderly q := by
  generalize hr : (o, q) = r at hp
  induction hp with
  | fromSlot => cases hr; exact h
  | @cpu p t rest _ hq =>
    cases hr
    exact ⟨fun u hu => h.cpu u (hq ▸ List.mem_cons_of_mem t hu), h.blocking, h.slots⟩
  | @blocking p t rest _ hq =>
    cases hr
    exact ⟨h.cpu, fun u hu => h.blocking u (hq ▸ List.mem_cons_of_mem t hu), h.slots⟩
  | nothing => cases hr; exact h
  | @aside p t r hk _ _ ih =>
    refine ih ⟨?_, h.blocking, h.slots⟩ hr
    intro u hu
    rcases List.mem_append.mp hu with hu | hu
    · exact h.cpu u hu
    · rw [List.mem_singleton.mp hu]; exact hk

theorem orderly_leave {p : Pool τ} (h : Orderly p) (w : Nat) : Orderly (p.leave w).2 := by
  have hl : Orderly { p with live := p.live - 1 } := h.recount rfl rfl rfl
  have hm : Orderly ({ p with live := p.live - 1 }.modifyWorker w fun x =>
      { x with phase := .gone, slot := none }) := by
    refine orderly_modifyWorker hl w _ fun x t _ ht => ?_
    cases ht
  exact hm.recount rfl rfl rfl

theorem orderly_emptySlot {p : Pool τ} (h : Orderly p) (w : Nat) : Orderly (p.emptySlot w) :=
  orderly_modifyWorker h w _ fun x t _ ht => by cases ht

omit [Kinded τ] in
theorem slotOf?_emptySlot (p : Pool τ) (w : Nat) : (p.emptySlot w).slotOf? w = none := by
  unfold emptySlot
  rw [slotOf?_modifyWorker, if_pos rfl]
  cases p.worker? w <;> rfl

/-- A worker with an empty slot may enter any phase. -/
theorem orderly_setPhase {p : Pool τ} (h : Orderly p) (w : Nat) (phase : Phase τ)
    (hs : p.slotOf? w = none) : Orderly (p.setPhase w phase) := by
  refine orderly_modifyWorker h w _ fun x t hx ht => ?_
  rw [slotOf?, hx] at hs
  have : x.slot = none := hs
  rw [show x.slot = some t from ht] at this
  cases this

theorem orderly_schedule {p : Pool τ} (h : Orderly p) (w : Nat) : Orderly (p.schedule w).2 := by
  have hs : ∀ {o : Option τ} {q : Pool τ}, Picks (p.emptySlot w) (p.slotOf? w) (o, q) →
      Orderly q ∧ q.slotOf? w = none := by
    intro o q hp
    refine ⟨hp.orderly (orderly_emptySlot h w), ?_⟩
    rw [hp.frame]
    exact slotOf?_emptySlot p w
  generalize hr : p.schedule w = r
  have hsch : Schedules p w r := hr ▸ schedules p w
  cases hsch with
  | abandoned => exact orderly_leave h w
  | @runs t q _ hp =>
    obtain ⟨hq, hn⟩ := hs hp
    refine orderly_setPhase ?_ w _ ?_
    · unfold countStart
      split <;> exact hq.recount rfl rfl rfl
    · unfold countStart
      split <;> exact hn
  | drained _ hp => exact orderly_leave (hs hp).1 w
  | @rests q _ hp =>
    obtain ⟨hq, hn⟩ := hs hp
    have hi : Orderly { q with idle := q.idle + 1 } := hq.recount rfl rfl rfl
    exact orderly_setPhase hi w _ hn

theorem orderly_countEnd {p : Pool τ} (h : Orderly p) (k : Kind) : Orderly (p.countEnd k) := by
  unfold countEnd signal
  cases k <;> dsimp only <;> split <;> exact h.recount rfl rfl rfl

theorem orderly_finish {p : Pool τ} (h : Orderly p) (w : Nat) (k : Kind) :
    Orderly (p.finish w k).2 :=
  orderly_schedule (orderly_countEnd h k) w

theorem orderly_begin {p : Pool τ} (h : Orderly p) (w : Nat) : Orderly (p.begin w).2 := by
  have hs : Orderly { p with starting := p.starting - 1 } := h.recount rfl rfl rfl
  exact orderly_schedule hs w

theorem orderly_resume {p : Pool τ} (h : Orderly p) (w : Nat) (timedOut : Bool) :
    Orderly (p.resume w timedOut).2 := by
  have hi : Orderly { p with idle := p.idle - 1 } := h.recount rfl rfl rfl
  unfold resume
  dsimp only
  split
  · exact orderly_leave hi w
  · exact orderly_schedule hi w

theorem orderly_die {p : Pool τ} (h : Orderly p) (w : Nat) (k : Kind) : Orderly (p.die w k).2 := by
  have hl := orderly_leave (orderly_countEnd h k) w
  unfold die
  dsimp only
  split
  · exact hl.transfer rfl rfl (sameHands_spawnWorker _)
  · exact hl

/-! ## Limits and closing -/

theorem orderly_raise {p : Pool τ} (h : Orderly p) (w : Nat) : Orderly (p.raise w) := by
  unfold raise
  split
  · exact h
  · split
    · exact h.transfer rfl rfl (sameHands_modifyWorker p w _ (fun _ _ => rfl) fun _ _ => rfl)
    · have hl : Orderly { p with limit := p.limit + 1 } := h.recount rfl rfl rfl
      exact orderly_ensureCapacity (hl.transfer rfl rfl
        (sameHands_modifyWorker _ w _ (fun _ _ => rfl) fun _ _ => rfl))

theorem orderly_lower {p : Pool τ} (h : Orderly p) (w : Nat) : Orderly (p.lower w) := by
  unfold lower
  split
  · exact h
  · split
    · exact h.transfer rfl rfl (sameHands_modifyWorker p w _ (fun _ _ => rfl) fun _ _ => rfl)
    · have hl : Orderly { p with limit := p.limit - 1 } := h.recount rfl rfl rfl
      exact hl.transfer rfl rfl (sameHands_modifyWorker _ w _ (fun _ _ => rfl) fun _ _ => rfl)

theorem orderly_beginClose {p : Pool τ} (h : Orderly p) : Orderly p.beginClose := by
  unfold beginClose
  split
  · exact h
  · have hl : Orderly { p with closed := true } := h.recount rfl rfl rfl
    exact hl.transfer rfl rfl (sameHands_notifyAll _)

theorem orderly_terminate {p : Pool τ} (h : Orderly p) : Orderly p.terminate.2.2 := by
  have he : Orderly { p with abandoned := true, cpuQueue := [], blockingQueue := [] } :=
    ⟨by simp, by simp, h.slots⟩
  exact he.transfer rfl rfl (sameHands_notifyAll _)

/-! ## Runs -/

theorem orderly_step {p : Pool τ} (h : Orderly p) (s : Section τ) : Orderly (p.step s) := by
  have hm := moves p s
  generalize p.step s = q at hm
  cases hm with
  | stays => exact h
  | accepted => exact orderly_queueUp h _
  | taken => exact orderly_queueUp h _
  | placed hw => exact orderly_place h _ _ hw
  | flushed => exact orderly_flush h _
  | began => exact orderly_begin h _
  | resumed => exact orderly_resume h _ _
  | finished => exact orderly_finish h _ _
  | died => exact orderly_die h _ _
  | raised w => exact orderly_raise h w
  | lowered w => exact orderly_lower h w
  | closed => exact orderly_beginClose h
  | terminated => exact orderly_terminate h

theorem orderly_ofConfig (c : Config) : Orderly (ofConfig c : Pool τ) := by
  refine ofConfig_induct c ⟨by simp, by simp, fun w t h => ?_⟩ fun p h => ?_
  · simp [slotOf?, worker?] at h
  · exact Orderly.transfer h rfl rfl (sameHands_spawnWorker p)

theorem orderly_run {p : Pool τ} (h : Orderly p) (ss : List (Section τ)) : Orderly (p.run ss) :=
  List.foldlRecOn (motive := Orderly) ss step h fun _ hq s _ => orderly_step hq s

/-! ## Workers that leave -/

/-- A worker that looks for a task leaves with what is in its slot exactly if the pool is
abandoned. -/
theorem schedule_leaves_some_iff {p : Pool τ} {w : Nat} {t : τ} :
    (p.schedule w).1 = .leaves (some t) ↔ p.abandoned = true ∧ p.slotOf? w = some t := by
  constructor
  · intro he
    generalize hr : p.schedule w = r at he
    have hsch : Schedules p w r := hr ▸ schedules p w
    cases hsch with
    | abandoned ha => exact ⟨ha, Turn.leaves.inj he⟩
    | runs => cases he
    | rests => cases he
    | @drained q _ hp =>
      have hs : (q.leave w).1 = .leaves (q.slotOf? w) := rfl
      rw [hs, hp.frame] at he
      have hn : (p.emptySlot w).slotOf? w = none := slotOf?_emptySlot p w
      change Turn.leaves ((p.emptySlot w).slotOf? w) = _ at he
      rw [hn] at he
      cases he
  · rintro ⟨ha, hs⟩
    unfold schedule
    rw [if_pos ha]
    exact congrArg Turn.leaves hs

omit [Kinded τ] in
theorem slotOf?_countEnd (p : Pool τ) (k : Kind) (w : Nat) :
    (p.countEnd k).slotOf? w = p.slotOf? w := by
  unfold countEnd signal
  cases k <;> dsimp only <;> split <;> rfl

theorem finish_leaves_some_iff {p : Pool τ} {w : Nat} {k : Kind} {t : τ} :
    (p.finish w k).1 = .leaves (some t) ↔ p.abandoned = true ∧ p.slotOf? w = some t := by
  have ha : (p.countEnd k).abandoned = p.abandoned := congrArg Prod.snd (marks_countEnd p k)
  unfold finish
  rw [schedule_leaves_some_iff, ha, slotOf?_countEnd]

theorem finish_ne_leaves_some {p : Pool τ} {w : Nat} (h : p.abandoned = false) (k : Kind) (t : τ) :
    (p.finish w k).1 ≠ .leaves (some t) := fun he =>
  Bool.false_ne_true (h.symm.trans (finish_leaves_some_iff.mp he).1)

/-- Workers start with an empty slot and leave with it. -/
theorem begin_ne_leaves_some {p : Pool τ} {w : Nat} (ho : Orderly p) (hw : p.taskOf? w = none)
    (t : τ) : (p.begin w).1 ≠ .leaves (some t) := by
  intro he
  cases (ho.slotOf?_eq_none hw).symm.trans (schedule_leaves_some_iff.mp he).2

theorem resume_ne_leaves_some {p : Pool τ} {w : Nat} (ho : Orderly p) (hw : p.taskOf? w = none)
    (timedOut : Bool) (t : τ) : (p.resume w timedOut).1 ≠ .leaves (some t) := by
  have hs : p.slotOf? w = none := ho.slotOf?_eq_none hw
  unfold resume
  dsimp only
  split
  · intro he
    cases hs.symm.trans (Turn.leaves.inj he)
  · intro he
    cases hs.symm.trans (schedule_leaves_some_iff.mp he).2

omit [Kinded τ] in
/-- A worker that dies leaves with what is in its slot. -/
theorem die_fst (p : Pool τ) (w : Nat) (k : Kind) : (p.die w k).1 = .leaves (p.slotOf? w) :=
  congrArg Turn.leaves (slotOf?_countEnd p k w)

end Workforce.Pool
