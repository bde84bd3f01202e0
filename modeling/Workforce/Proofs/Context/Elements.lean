import Workforce.Context.Ambient

/-
  Lists of elements. What installing displaces and restoring puts back is an exchange of cells
  (`Exchange`), of one element or of several: the last element that binds a cell decides what it
  holds meanwhile, and the first one that binds it decides what it holds afterwards. Exchanges that
  are undone in the reverse order make up one exchange (`Exchange.comp`), which carries the
  induction over the list (`exchange_installAll`). A list with an element that panics stops short
  of it (`installAll_of_balks`).
-/

namespace Workforce.Element

/-! ## What elements hold -/

/-- The value at which an element holds a cell. -/
def value? (e : Element) (cell : Cell) : Option Datum :=
  match e.action with
  | .bind bound value => if bound = cell then some value else none
  | _ => none

/-- The value at which elements hold a cell: that of the last one that binds it. -/
def held? (es : List Element) (cell : Cell) : Option Datum :=
  (es.filterMap fun e => e.value? cell).getLast?

/-- Installing the element panics. -/
def balks (e : Element) : Bool := e.action = .probe .install

/-- A binding, or an element without a cell whose restore does not panic. -/
def Restorable (e : Element) : Prop :=
  match e.action with
  | .bind _ _ => True
  | .bindForgetful _ _ => False
  | .probe fault => fault ≠ .restore

theorem IsBinding.restorable {e : Element} (h : e.IsBinding) : e.Restorable := by
  obtain ⟨cell, value, h⟩ := h
  rw [Restorable, h]
  trivial

theorem IsBinding.balks_eq {e : Element} (h : e.IsBinding) : e.balks = false := by
  obtain ⟨cell, value, h⟩ := h
  simp [balks, h]

theorem held?_nil (cell : Cell) : held? [] cell = none := rfl

theorem held?_cons (e : Element) (es : List Element) (cell : Cell) :
    held? (e :: es) cell = (held? es cell).or (e.value? cell) := by
  unfold held?
  rw [List.filterMap_cons]
  cases e.value? cell with
  | none => exact Option.or_none.symm
  | some v =>
    show (v :: es.filterMap fun e => e.value? cell).getLast? = _
    rw [List.getLast?_cons]
    cases (es.filterMap fun e => e.value? cell).getLast? <;> rfl

/-! ## Exchanges -/

/-- The cells of `after` hold what `held` says and otherwise what those of `before` do, and `undo`
hands back the values displaced. A cell of `before` with a value of another type is not promised
anything. -/
structure Exchange (held : Cell → Option Datum) (before after : Surface)
    (undo : Surface → Option Payload × Surface) : Prop where
  installed : ∀ cell, after.cells cell = (held cell).getD (before.cells cell)
  calm : ∀ s, (undo s).1 = none
  restored : ∀ s cell, (before.cells cell).type = cell.type →
    (undo s).2.cells cell = if (held cell).isSome then before.cells cell else s.cells cell

/-- An exchange inside another is undone before it. -/
theorem Exchange.comp {held held' : Cell → Option Datum} {s t u : Surface}
    {undo undo' : Surface → Option Payload × Surface} (h : Exchange held s t undo)
    (h' : Exchange held' t u undo') :
    Exchange (fun cell => (held' cell).or (held cell)) s u fun x => undo (undo' x).2 := by
  refine ⟨fun cell => ?_, fun x => h.calm _, fun x cell hs => ?_⟩
  · rw [h'.installed, h.installed]
    cases held' cell <;> rfl
  · rw [h.restored _ cell hs]
    cases hc : held cell with
    | some v => cases held' cell <;> rfl
    | none =>
      -- the outer exchange left this cell to the inner one
      have ht : t.cells cell = s.cells cell := by rw [h.installed, hc]; rfl
      rw [h'.restored x cell (by rw [ht]; exact hs), ht, Option.or_none]
      rfl

theorem exchange_none (s : Surface) :
    Exchange (fun _ => none) s s fun t => (none, t) :=
  ⟨fun _ => rfl, fun _ => rfl, fun _ _ _ => rfl⟩

theorem putBack_cells {cell : Cell} {prior : Datum} (h : prior.type = cell.type) (s : Surface) :
    (putBack cell prior s).cells = s.cells.set cell prior := by
  rw [putBack, if_pos h]
  rfl

theorem putBack_of_ne {cell other : Cell} (h : other ≠ cell) (prior : Datum) (s : Surface) :
    (putBack cell prior s).cells other = s.cells other := by
  unfold putBack
  split
  · exact Cells.set_of_ne _ h prior
  · rfl

/-- Installing a binding swaps the value of its cell. -/
theorem exchange_bind {e : Element} {cell : Cell} {value : Datum} (h : e.action = .bind cell value)
    (s : Surface) :
    e.install s = (.ok (s.cells cell), s.setCell cell value) ∧
      Exchange e.value? s (s.setCell cell value) (e.restore (s.cells cell)) := by
  have hrestore (t : Surface) : e.restore (s.cells cell) t = (none, putBack cell (s.cells cell) t) := by
    rw [restore, h]
  refine ⟨by rw [install, h], fun other => ?_, fun t => ?_, fun t other ht => ?_⟩
  · rw [value?, h]
    show s.cells.set cell value other = (if cell = other then some value else none).getD _
    split
    case isTrue he => rw [← he, Cells.set_self]; rfl
    case isFalse hn => rw [Cells.set_of_ne _ (Ne.symm hn)]; rfl
  · rw [hrestore]
  · rw [hrestore, value?, h]
    show (putBack cell (s.cells cell) t).cells other =
      if (if cell = other then some value else none).isSome = true then _ else _
    by_cases he : cell = other
    · subst he
      rw [putBack_cells ht, Cells.set_self]
      simp
    · rw [putBack_of_ne (Ne.symm he)]
      simp [he]

/-- Installing an element that does not panic is an exchange. -/
theorem exchange_install {e : Element} (h : e.Restorable) (hb : e.balks = false) (s : Surface) :
    ∃ prior t, e.install s = (.ok prior, t) ∧ Exchange e.value? s t (e.restore prior) := by
  cases ha : e.action with
  | bind cell value => exact ⟨_, _, exchange_bind ha s⟩
  | bindForgetful cell value =>
    rw [Restorable, ha] at h
    exact h.elim
  | probe fault =>
    have hi : fault ≠ .install := by
      rintro rfl
      simp [balks, ha] at hb
    have hr : fault ≠ .restore := by simpa [Restorable, ha] using h
    refine ⟨.unit, s.note ("install " ++ e.key), by simp [install, ha, hi], fun cell => ?_,
      fun t => ?_, fun t cell _ => ?_⟩
    · rw [value?, ha]
      rfl
    · simp [restore, ha, hr]
    · simp [restore, ha, hr, value?, Surface.note]

theorem install_of_balks {e : Element} (h : e.balks = true) (s : Surface) :
    ∃ p t, e.install s = (.error p, t) ∧ t.cells = s.cells := by
  have ha : e.action = .probe .install := of_decide_eq_true h
  refine ⟨.text ("install of " ++ e.key ++ " failed"), s.note ("install " ++ e.key), ?_, rfl⟩
  rw [install, ha]
  rfl

/-! ## Lists -/

theorem restoreAll_concat {xs : List (Element × Datum)} {s : Surface}
    (h : (restoreAll xs s).1 = none) (e : Element) (prior : Datum) :
    restoreAll (xs ++ [(e, prior)]) s = e.restore prior (restoreAll xs s).2 := by
  induction xs generalizing s with
  | nil =>
    show restoreAll [(e, prior)] s = e.restore prior s
    unfold restoreAll
    split
    case h_1 he => exact he.symm
    case h_2 he => exact he.symm
  | cons x xs ih =>
    obtain ⟨f, q⟩ := x
    rw [List.cons_append, restoreAll]
    rw [restoreAll] at h ⊢
    cases hx : f.restore q s with
    | mk o t =>
      rw [hx] at h
      cases o with
      | some p => cases h
      | none => exact ih h

/-- Elements none of which panics are installed one after the other and restored in the reverse
order. -/
theorem exchange_installAll {es : List Element} (h : ∀ e ∈ es, e.Restorable ∧ e.balks = false)
    (s : Surface) :
    ∃ priors t, installAll es s = (.ok priors, t) ∧ priors.length = es.length ∧
      Exchange (held? es) s t (restoreAll (es.zip priors).reverse) := by
  induction es generalizing s with
  | nil => exact ⟨[], s, rfl, rfl, exchange_none s⟩
  | cons e es ih =>
    obtain ⟨he, hes⟩ := List.forall_mem_cons.mp h
    obtain ⟨prior, t, hi, hx⟩ := exchange_install he.1 he.2 s
    obtain ⟨priors, u, hall, hlen, hxs⟩ := ih hes t
    refine ⟨prior :: priors, u, by simp [installAll, hi, hall], by simp [hlen], ?_⟩
    have hundo : restoreAll ((e :: es).zip (prior :: priors)).reverse =
        fun x => e.restore prior (restoreAll (es.zip priors).reverse x).2 := by
      funext x
      rw [List.zip_cons_cons, List.reverse_cons, restoreAll_concat (hxs.calm x)]
    have hheld : held? (e :: es) = fun cell => (held? es cell).or (e.value? cell) :=
      funext (held?_cons e es)
    rw [hundo, hheld]
    exact hx.comp hxs

/-- The elements before the first one that panics. -/
def installed (es : List Element) : List Element := es.takeWhile fun e => !e.balks

/-- Elements one of which panics are installed up to that one, and stay so. -/
theorem installAll_of_balks {es : List Element} (h : ∀ e ∈ es, e.Restorable)
    (hb : es.any balks = true) (s : Surface) :
    ∃ p t, installAll es s = (.error p, t) ∧
      ∀ cell, t.cells cell = (held? (installed es) cell).getD (s.cells cell) := by
  induction es generalizing s with
  | nil => cases hb
  | cons e es ih =>
    obtain ⟨he, hes⟩ := List.forall_mem_cons.mp h
    cases hbe : e.balks with
    | true =>
      obtain ⟨p, t, hi, ht⟩ := install_of_balks hbe s
      refine ⟨p, t, by simp [installAll, hi], fun cell => ?_⟩
      rw [ht, installed, List.takeWhile_cons_of_neg (by simp [hbe])]
      rfl
    | false =>
      obtain ⟨prior, t, hi, hx⟩ := exchange_install he hbe s
      rw [List.any_cons, hbe, Bool.false_or] at hb
      obtain ⟨p, u, hall, hu⟩ := ih hes hb t
      refine ⟨p, u, by simp [installAll, hi, hall], fun cell => ?_⟩
      have hcons : installed (e :: es) = e :: installed es :=
        List.takeWhile_cons_of_pos (by simp [hbe])
      rw [hu, hx.installed, hcons, held?_cons]
      cases held? (installed es) cell <;> rfl

end Workforce.Element
