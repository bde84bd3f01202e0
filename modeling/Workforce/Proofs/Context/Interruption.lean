import Workforce.Proofs.Context.Nesting

/-
  Contexts that cannot be entered. If an element panics as it is installed, no token remembers what
  the elements before it displaced, so nobody puts it back: the cells that they bind keep their
  values on the thread (`enter_of_balks`), and whoever uses the thread next finds them.

  `restored_iff`: a computation inside a context leaves the cells of the context as they were
  exactly if the context does not leak in this way (`Context.Leaks`).
-/

namespace Workforce

namespace Element

theorem held?_isSome_iff {es : List Element} {cell : Cell} :
    (held? es cell).isSome = true ↔ ∃ e ∈ es, (e.value? cell).isSome = true := by
  induction es with
  | nil => simp [held?_nil]
  | cons e es ih =>
    rw [held?_cons, Option.isSome_or, Bool.or_eq_true, ih]
    constructor
    · rintro (⟨f, hf, hv⟩ | hv)
      · exact ⟨f, List.mem_cons_of_mem e hf, hv⟩
      · exact ⟨e, List.mem_cons_self, hv⟩
    · rintro ⟨f, hf, hv⟩
      rcases List.mem_cons.mp hf with rfl | hf
      · exact Or.inr hv
      · exact Or.inl ⟨f, hf, hv⟩

/-- What the installed elements hold, all elements hold. -/
theorem held?_of_installed {es : List Element} {cell : Cell}
    (h : (held? (installed es) cell).isSome = true) : (held? es cell).isSome = true := by
  obtain ⟨e, he, hv⟩ := held?_isSome_iff.mp h
  exact held?_isSome_iff.mpr ⟨e, (List.takeWhile_sublist _).subset he, hv⟩

end Element

namespace Context

/-- Some element panics on a thread as it is installed, and the elements before it gave some cell
another value. -/
def Leaks (c : Context) (a : Ambient) : Prop :=
  c.elements.any Element.balks = true ∧
    ∃ cell value, Element.held? (Element.installed c.elements) cell = some value ∧
      a.cells cell ≠ value

/-- A context with an element that panics is not entered, and the elements before that one stay
installed. -/
theorem enter_of_balks {c : Context} (h : ∀ e ∈ c.elements, e.Restorable)
    (hb : c.elements.any Element.balks = true) (a : Ambient) :
    ∃ p s, c.enter a = (.error p, { a with surface := s }) ∧
      ∀ cell, s.cells cell =
        (Element.held? (Element.installed c.elements) cell).getD (a.cells cell) := by
  obtain ⟨p, s, hi, hs⟩ := Element.installAll_of_balks h hb a.surface
  refine ⟨p, s, ?_, hs⟩
  rw [enter, installInto_error hi]

/-- A computation inside such a context does not run. -/
theorem within_of_balks {c : Context} (h : ∀ e ∈ c.elements, e.Restorable)
    (hb : c.elements.any Element.balks = true) (a : Ambient) {α : Type}
    (body : Ambient → Except Payload α × Ambient) :
    (∃ p, (c.within body a).1 = .error p) ∧
      ∀ cell, (c.within body a).2.cells cell =
        (Element.held? (Element.installed c.elements) cell).getD (a.cells cell) := by
  obtain ⟨p, s, he, hs⟩ := enter_of_balks h hb a
  rw [within, he]
  exact ⟨⟨p, rfl⟩, hs⟩

end Context

/-- After a computation inside a context of restorable elements, on every way out, what was current
on the thread is current again, and the cells that the context binds hold what they held before
exactly if the context does not leak on this thread. One with an element that panics leaves the
values of the elements before it in their cells. -/
theorem restored_iff (c : Context) (hc : ∀ e ∈ c.elements, e.Restorable) (a : Ambient)
    (ha : a.Typed) (b : Computation) :
    (c.within b.run a).2.current = a.current ∧
      ((∀ cell, (Element.held? c.elements cell).isSome = true →
          (c.within b.run a).2.cells cell = a.cells cell) ↔ ¬ c.Leaks a) ∧
      (c.elements.any Element.balks = true → ∀ cell, (c.within b.run a).2.cells cell =
        (Element.held? (Element.installed c.elements) cell).getD (a.cells cell)) := by
  refine ⟨c.current_within b.run a, ?_, fun hb => (c.within_of_balks hc hb a b.run).2⟩
  cases hb : c.elements.any Element.balks with
  | false =>
    have hcalm (e : Element) (he : e ∈ c.elements) : e.Restorable ∧ e.balks = false :=
      ⟨hc e he, by simpa using List.any_eq_false.mp hb e he⟩
    obtain ⟨token, entered, -, -, -, left, -, -, hcells, hw⟩ := c.within_exact hcalm ha b.run
    refine ⟨fun _ hl => ?_, fun _ cell hcell => ?_⟩
    · rw [Context.Leaks, hb] at hl
      cases hl.1
    · rw [hw, hcells, if_pos hcell]
  | true =>
    obtain ⟨-, hcells⟩ := c.within_of_balks hc hb a b.run
    constructor
    · rintro h ⟨-, cell, value, hv, hne⟩
      have hs : (Element.held? (Element.installed c.elements) cell).isSome = true := by rw [hv]; rfl
      have hcell := h cell (Element.held?_of_installed hs)
      rw [hcells, hv] at hcell
      exact hne hcell.symm
    · intro h cell _
      rw [hcells]
      cases hv : Element.held? (Element.installed c.elements) cell with
      | none => rfl
      | some value =>
        -- the cell held that value already
        exact Decidable.byContradiction fun hne => h ⟨hb, cell, value, hv, Ne.symm hne⟩

/-- An element after a binding panics as it is installed. -/
def interrupted : Context :=
  ⟨1, [⟨"level", .bind levelCell (.nat32 5)⟩, ⟨"probe", .probe .install⟩]⟩

theorem restored_iff_interrupted :
    (∀ e ∈ interrupted.elements, e.Restorable) ∧ (Ambient.ofCells .blank).Typed ∧
      interrupted.Leaks (.ofCells .blank) ∧
      ¬ ∀ cell, (Element.held? interrupted.elements cell).isSome = true →
        (interrupted.within Computation.returns.run (.ofCells .blank)).2.cells cell =
          (Ambient.ofCells .blank).cells cell := by
  have hr : ∀ e ∈ interrupted.elements, e.Restorable := by
    rintro e (_ | ⟨_, _ | ⟨_, he⟩⟩)
    · trivial
    · exact nofun
    · cases he
  have hleaks : interrupted.Leaks (.ofCells .blank) :=
    ⟨by decide, levelCell, .nat32 5, by decide, by decide⟩
  obtain ⟨-, hiff, -⟩ := restored_iff interrupted hr (.ofCells .blank) typed_blank .returns
  exact ⟨hr, typed_blank, hleaks, fun h => hiff.mp h hleaks⟩

/-- The bound cell keeps the value that only the interrupted computation was to see, and the next
one on the thread, inside a context without elements, finds it there. -/
theorem leaked_into_next :
    let a := Ambient.ofCells .blank
    let left := (interrupted.within Computation.returns.run a).2
    (∀ e ∈ interrupted.elements, e.Restorable) ∧ a.Typed ∧
      (Element.held? interrupted.elements levelCell).isSome = true ∧
      a.cells levelCell = .nat32 0 ∧ left.cells levelCell = .nat32 5 ∧
      (Context.empty.enter left).2.cells levelCell = .nat32 5 := by
  refine ⟨?_, typed_blank, rfl, rfl, rfl, rfl⟩
  rintro e (_ | ⟨_, _ | ⟨_, he⟩⟩)
  · trivial
  · exact nofun
  · cases he

end Workforce
