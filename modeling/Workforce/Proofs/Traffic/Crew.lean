import Workforce.Proofs.Pool.Order
import Workforce.Proofs.Traffic.Performs

/-
  The pool of a traffic goes through locked sections and nothing else (`Steps.pool`), so it is what
  some run of a pool alone makes of it (`exists_sections`). What holds in all runs of a pool holds
  in all runs of a traffic (`orderly_run`).
-/

namespace Workforce

namespace Traffic

variable {τ : Type} [Kinded τ]

/-! ## Sections of the pool -/

/-- The pool of a chore goes through one section at most, and is neither closed nor terminated. -/
theorem Performs.pool {s : Traffic τ} {c : Chore τ} {d : Deed τ} (h : Performs s c d) :
    d.pool = s.pool ∨
      ∃ sec, (sec ≠ .terminate ∧ sec ≠ .beginClose) ∧ d.pool = s.pool.step sec := by
  have hrun : ∀ {w : Nat} {x : Worker (Job τ)}, s.pool.worker? w = some x →
      x.phase.task?.isSome = true → (s.pool.taskOf? w).isSome = true := by
    intro w x hw hx
    rw [Pool.taskOf?_eq hw]
    exact hx
  cases h with
  | idle => exact Or.inl rfl
  | @accepted _ _ j p h =>
    refine Or.inr ⟨.accept j, by simp, ?_⟩
    show p = (s.pool.accept j).getD s.pool
    rw [h]
    rfl
  | @placed _ _ w j x _ hw hr _ =>
    refine Or.inr ⟨.place w j, by simp, ?_⟩
    simp only [Pool.step, hrun hw hr, if_true]
  | @displaced _ _ w j k x _ hw hr _ =>
    refine Or.inr ⟨.place w j, by simp, ?_⟩
    simp only [Pool.step, hrun hw hr, if_true]
  | refused => exact Or.inl rfl
  | entered => exact Or.inl rfl
  | waits => exact Or.inl rfl
  | @requeued k j p h =>
    refine Or.inr ⟨.accept k, by simp, ?_⟩
    show p = (s.pool.accept k).getD s.pool
    rw [h]
    rfl
  | cut => exact Or.inl rfl
  | @handed _ _ n j p h =>
    refine Or.inr ⟨.take j, by simp, ?_⟩
    show p = (s.pool.submitAccepted j).getD s.pool
    rw [h]
    rfl
  | passed => exact Or.inl rfl
  | waitsAgain => exact Or.inl rfl
  | discarded => exact Or.inl rfl
  | settled => exact Or.inl rfl
  | admits => exact Or.inl rfl
  | missing => exact Or.inl rfl
  | lowered => exact Or.inl rfl
  | unlowered => exact Or.inl rfl
  | raisedWorker w => exact Or.inr ⟨.raise w, by simp, rfl⟩
  | loweredWorker w => exact Or.inr ⟨.lower w, by simp, rfl⟩
  | @flushed w x hw hr =>
    refine Or.inr ⟨.flush w, by simp, ?_⟩
    simp only [Pool.step, hrun hw hr, if_true]
  | unflushed => exact Or.inl rfl
  | unfinished => exact Or.inl rfl
  | @finished w _ x j hw hr =>
    refine Or.inr ⟨.finish w, by simp, ?_⟩
    simp only [Pool.step, Pool.taskOf?_eq hw, hr]
  | @died w _ x j hw hr =>
    refine Or.inr ⟨.die w, by simp, ?_⟩
    simp only [Pool.step, Pool.taskOf?_eq hw, hr]

/-- An act takes the pool through one section at most. Only a termination terminates it, and only
a close begins to close it. -/
theorem Steps.pool {s s' : Traffic τ} {a : Act τ} (h : Steps s a s') :
    s'.pool = s.pool ∨ ∃ sec, ((sec = .terminate → a = .terminate) ∧
      (sec = .beginClose → a = .close)) ∧ s'.pool = s.pool.step sec := by
  have hphase : ∀ {w : Nat} {x : Worker (Job τ)}, s.pool.worker? w = some x →
      s.pool.phaseOf? w = some x.phase := by
    intro w x hw
    rw [Pool.phaseOf?, hw]
    rfl
  cases h with
  | stays => exact Or.inl rfl
  | built => exact Or.inl rfl
  | called => exact Or.inl rfl
  | calledFrom => exact Or.inl rfl
  | flushes => exact Or.inl rfl
  | raised => exact Or.inl rfl
  | lowered => exact Or.inl rfl
  | ended => exact Or.inl rfl
  | barred => exact Or.inl rfl
  | @began w x hw hx =>
    refine Or.inr ⟨.begin w, by simp, ?_⟩
    simp only [Pool.step, hphase hw, hx]
  | @resumed w timedOut woken x hw hx =>
    refine Or.inr ⟨.resume w timedOut, by simp, ?_⟩
    simp only [Pool.step, hphase hw, hx]
  | goes _ hp =>
    rcases hp.pool with he | ⟨sec, hn, he⟩
    · exact Or.inl he
    · exact Or.inr ⟨sec, ⟨fun ht => absurd ht hn.1, fun hc => absurd hc hn.2⟩, he⟩
  | closed => exact Or.inr ⟨.beginClose, by simp, rfl⟩
  | terminated hc hr =>
    refine Or.inr ⟨.terminate, by simp, ?_⟩
    simp only [Pool.step, hc, hr, and_self, if_true]

/-- However calls overlap, the pool goes through a run of its own sections. -/
theorem exists_sections (c : Config) (as : List (Act τ)) :
    ∃ ss, ((start c).run as).pool = (Pool.ofConfig c).run ss ∧
      (.terminate ∈ ss → .terminate ∈ as) ∧ (.beginClose ∈ ss → .close ∈ as) := by
  refine List.foldlRecOn (motive := fun s => ∃ ss, s.pool = (Pool.ofConfig c).run ss ∧
    (.terminate ∈ ss → .terminate ∈ as) ∧ (.beginClose ∈ ss → .close ∈ as)) as step
    ⟨[], rfl, nofun, nofun⟩ fun s hs a ha => ?_
  obtain ⟨ss, hss, ht, hc⟩ := hs
  rcases (steps s a).pool with he | ⟨sec, ⟨hst, hsc⟩, he⟩
  · rw [he]
    exact ⟨ss, hss, ht, hc⟩
  · refine ⟨ss ++ [sec], ?_, fun hm => ?_, fun hm => ?_⟩
    · rw [he, hss, Pool.run_append_singleton]
    · rcases List.mem_append.mp hm with hm | hm
      · exact ht hm
      · exact hst (List.mem_singleton.mp hm).symm ▸ ha
    · rcases List.mem_append.mp hm with hm | hm
      · exact hc hm
      · exact hsc (List.mem_singleton.mp hm).symm ▸ ha

theorem orderly_step {s : Traffic τ} (h : s.pool.Orderly) (a : Act τ) :
    (s.step a).pool.Orderly := by
  rcases (steps s a).pool with he | ⟨sec, -, he⟩ <;> rw [he]
  · exact h
  · exact Pool.orderly_step h sec

/-- Only a termination abandons the pool. -/
theorem abandoned_step {s : Traffic τ} {a : Act τ} (ha : a ≠ .terminate) :
    (s.step a).pool.abandoned = s.pool.abandoned := by
  rcases (steps s a).pool with he | ⟨sec, ⟨hst, -⟩, he⟩ <;> rw [he]
  exact Pool.abandoned_step fun hs => ha (hst hs)

theorem orderly_run (c : Config) (as : List (Act τ)) : ((start c).run as).pool.Orderly := by
  obtain ⟨ss, hss, -⟩ := exists_sections c as
  rw [hss]
  exact Pool.orderly_run (Pool.orderly_ofConfig c) ss

theorem kept_run (c : Config) {as : List (Act τ)} (hn : .terminate ∉ as) :
    ((start c).run as).pool.abandoned = false := by
  obtain ⟨ss, hss, ht, -⟩ := exists_sections c as
  rw [hss, Pool.abandoned_run_eq _ fun hm => hn (ht hm)]
  exact congrArg Prod.snd (Pool.marks_ofConfig c)

theorem open_run (c : Config) {as : List (Act τ)} (hn : .close ∉ as) :
    ((start c).run as).pool.closed = false := by
  obtain ⟨ss, hss, -, hc⟩ := exists_sections c as
  rw [hss, Pool.closed_run_eq _ fun hm => hn (hc hm)]
  exact congrArg Prod.fst (Pool.marks_ofConfig c)

/-! ## Quiet states -/

/-- Nothing runs and nothing is on its way. -/
structure Quiet (s : Traffic τ) : Prop where
  threads : ∀ cs ∈ s.threads, cs = []
  workers : ∀ w, s.pool.taskOf? w = none

omit [Kinded τ] in
theorem quiet_iff (s : Traffic τ) :
    s.Quiet ↔ (s.threads.all List.isEmpty = true ∧
      s.pool.workers.all (fun x => x.phase.task?.isNone) = true) := by
  simp only [List.all_eq_true, List.isEmpty_iff, Option.isNone_iff_eq_none]
  constructor
  · intro h
    refine ⟨h.threads, fun x hx => ?_⟩
    obtain ⟨w, hw⟩ := List.getElem?_of_mem hx
    have hn := h.workers w
    rw [Pool.taskOf?_eq hw] at hn
    exact hn
  · rintro ⟨ht, hw⟩
    refine ⟨ht, fun w => ?_⟩
    cases hx : s.pool.worker? w with
    | none => rw [Pool.taskOf?, hx]; rfl
    | some x =>
      rw [Pool.taskOf?_eq hx]
      exact hw x (List.mem_of_getElem? hx)

instance (s : Traffic τ) : Decidable s.Quiet := decidable_of_iff' _ (quiet_iff s)

/-- In a quiet state workers have nothing. -/
theorem Quiet.crew {s : Traffic τ} (h : s.Quiet) (ho : s.pool.Orderly) :
    ∀ x ∈ s.pool.workers, x.slot = none ∧ x.phase.task? = none := by
  intro x hx
  obtain ⟨w, hw⟩ := List.getElem?_of_mem hx
  have hn := h.workers w
  have hs := ho.slotOf?_eq_none hn
  rw [Pool.taskOf?_eq hw] at hn
  rw [Pool.slotOf?_eq hw] at hs
  exact ⟨hs, hn⟩

end Traffic

end Workforce
