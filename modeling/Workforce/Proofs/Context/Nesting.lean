import Workforce.Proofs.Context.Elements

/-
  Contexts nested on one thread. Whatever the number of its elements, entering a context is an
  exchange of cells, which leaving it undoes (`exchange_enter`); the token carries what was current
  before, so leaving makes that current again whatever happened meanwhile. A computation on a
  thread writes cells, looks around, and enters and leaves contexts inside one another, each left
  on every way out (`Computation`).

  `enter_leave_exact`: leaving a context of bindings takes back exactly its own cells.
-/

namespace Workforce

/-- The prior states of a list of elements, as a token holds them. -/
def Saved.ofPriors : List Datum → Saved
  | [] => .nothing
  | [prior] => .one prior
  | priors => .many priors

/-- The cells of a thread hold values of their types. -/
def Ambient.Typed (a : Ambient) : Prop := ∀ cell, (a.cells cell).type = cell.type

namespace Context

/-! ## Tokens -/

section tokens

variable {c : Context} {s t : Surface} {priors : List Datum}

theorem installInto_ok (h : Element.installAll c.elements s = (.ok priors, t))
    (hl : priors.length = c.elements.length) :
    c.installInto s = (.ok (.ofPriors priors), t) := by
  unfold installInto
  split
  case h_1 he =>
    rw [he] at h
    cases h
    rfl
  case h_2 e he =>
    rw [he, Element.installAll] at h
    cases hi : e.install s with
    | mk o u =>
      rw [hi] at h
      cases o with
      | error p => cases h
      | ok prior => cases h; rfl
  case h_3 hn h1 =>
    rw [h]
    cases priors with
    | nil => exact absurd (List.eq_nil_of_length_eq_zero hl.symm) hn
    | cons p ps =>
      cases ps with
      | nil =>
        obtain ⟨e, he⟩ := List.length_eq_one_iff.mp hl.symm
        exact absurd he (h1 e)
      | cons q qs => rfl

theorem installInto_error {p : Payload} (h : Element.installAll c.elements s = (.error p, t)) :
    c.installInto s = (.error p, t) := by
  unfold installInto
  split
  case h_1 he => rw [he] at h; cases h
  case h_2 e he =>
    rw [he, Element.installAll] at h
    cases hi : e.install s with
    | mk o u =>
      rw [hi] at h
      cases o with
      | error p => cases h; rfl
      | ok prior => cases h
  case h_3 => rw [h]

theorem restoreInto_ofPriors (hl : priors.length = c.elements.length) (s : Surface) :
    c.restoreInto (.ofPriors priors) s =
      Element.restoreAll (c.elements.zip priors).reverse s := by
  obtain ⟨serial, es⟩ := c
  cases priors with
  | nil =>
    obtain rfl : es = [] := List.eq_nil_of_length_eq_zero hl.symm
    rfl
  | cons p ps =>
    cases ps with
    | nil =>
      obtain ⟨e, rfl⟩ : ∃ e, es = [e] := List.length_eq_one_iff.mp hl.symm
      exact (@Element.restoreAll_concat [] s rfl e p).symm
    | cons q qs =>
      show (if es.length = (p :: q :: qs).length then _ else _) = _
      rw [if_pos hl.symm]

end tokens

/-! ## Entering and leaving -/

/-- Entering a context none of whose elements panics succeeds and is an exchange of cells. -/
theorem exchange_enter {c : Context}
    (h : ∀ e ∈ c.elements, e.Restorable ∧ e.balks = false) (a : Ambient) :
    ∃ saved s, c.enter a = (.ok ⟨a.current, saved⟩, { surface := s, current := some c }) ∧
      Element.Exchange (Element.held? c.elements) a.surface s (c.restoreInto saved) := by
  obtain ⟨priors, s, hi, hl, hx⟩ := Element.exchange_installAll h a.surface
  refine ⟨.ofPriors priors, s, ?_, ?_⟩
  · rw [enter, installInto_ok hi hl]
  · rw [show c.restoreInto (.ofPriors priors) = _ from funext (restoreInto_ofPriors hl)]
    exact hx

/-- A computation inside such a context is run, and its outcome is kept. -/
theorem within_exact {c : Context} (h : ∀ e ∈ c.elements, e.Restorable ∧ e.balks = false)
    {a : Ambient} (ha : a.Typed) {α : Type} (body : Ambient → Except Payload α × Ambient) :
    ∃ token entered, c.enter a = (.ok token, entered) ∧
      entered.current = some c ∧
      (∀ cell, entered.cells cell = (Element.held? c.elements cell).getD (a.cells cell)) ∧
      ∃ left, c.leave token (body entered).2 = (none, left) ∧
        left.current = a.current ∧
        (∀ cell, left.cells cell =
          if (Element.held? c.elements cell).isSome then a.cells cell
          else (body entered).2.cells cell) ∧
        c.within body a = ((body entered).1, left) := by
  obtain ⟨saved, s, he, hx⟩ := c.exchange_enter h a
  have hleave : c.leave ⟨a.current, saved⟩ (body ⟨s, some c⟩).2 =
      (none, ⟨(c.restoreInto saved (body ⟨s, some c⟩).2.surface).2, a.current⟩) := by
    unfold leave
    exact Prod.ext (hx.calm _) rfl
  refine ⟨⟨a.current, saved⟩, ⟨s, some c⟩, he, rfl, hx.installed, _, hleave, rfl,
    fun cell => hx.restored _ cell (ha cell), ?_⟩
  rw [within, he]
  dsimp only
  rw [hleave]

/-- What is current on a thread after a computation inside a context is what was before it. -/
theorem current_within {α : Type} (c : Context) (body : Ambient → Except Payload α × Ambient)
    (a : Ambient) : (c.within body a).2.current = a.current := by
  have henter : (c.enter a).2.current = a.current ∧ (∃ p, (c.enter a).1 = .error p) ∨
      ∃ token, (c.enter a).1 = .ok token ∧ token.previous = a.current := by
    unfold enter
    cases c.installInto a.surface with
    | mk o s =>
      cases o with
      | error p => exact Or.inl ⟨rfl, p, rfl⟩
      | ok saved => exact Or.inr ⟨_, rfl, rfl⟩
  unfold within
  cases he : c.enter a with
  | mk o b =>
    rw [he] at henter
    cases o with
    | error p =>
      rcases henter with ⟨h, -⟩ | ⟨token, h, -⟩
      · exact h
      · cases h
    | ok token =>
      rcases henter with ⟨-, p, h⟩ | ⟨_, h, hp⟩
      · cases h
      · cases h
        have hleave (x : Ambient) : (c.leave token x).2.current = a.current := hp
        dsimp only
        cases hl : c.leave token (body b).2 with
        | mk panicked x =>
          have hx := hleave (body b).2
          rw [hl] at hx
          cases panicked <;> exact hx

end Context

/-! ## Computations -/

/-- What a thread does until it returns or panics. -/
inductive Computation where
  | returns
  | panics (p : Payload)
  | writes (cell : Cell) (value : Datum) (next : Computation)
  /-- Goes on as the state of the thread tells. -/
  | looks (next : Ambient → Computation)
  /-- Enters a context and leaves it when the inner computation returns or panics; then goes on,
  or panics further, as its outcome tells. -/
  | nests (c : Context) (inner : Computation) (next : Except Payload Unit → Computation)

namespace Computation

def run : Computation → Ambient → Except Payload Unit × Ambient
  | returns, a => (.ok (), a)
  | panics p, a => (.error p, a)
  | writes cell value next, a => next.run (a.setCell cell value)
  | looks next, a => (next a).run a
  | nests c inner next, a =>
    match c.within inner.run a with
    | (outcome, a) => (next outcome).run a

/-- No computation changes what is current. -/
theorem current_run (b : Computation) (a : Ambient) : (b.run a).2.current = a.current := by
  -- induction on the nesting; a context inside is left again whatever its inner computation does
  induction b generalizing a with
  | returns => rfl
  | panics p => rfl
  | writes cell value next ih => exact ih _
  | looks next ih => exact ih a a
  | nests c inner next _ ih => exact (ih _ _).trans (c.current_within inner.run a)

end Computation

/-! ## Exactness -/

/-- Entering a context of bindings makes it current and gives each cell the value of the last
element that binds it. After any computation, returning or panicking, it is still current; leaving
it gives the cells that it binds the values from before and keeps what the computation left in
all others, and what was current before is current again. -/
theorem enter_leave_exact (c : Context) (hc : ∀ e ∈ c.elements, e.IsBinding) (a : Ambient)
    (ha : a.Typed) (b : Computation) :
    ∃ token entered, c.enter a = (.ok token, entered) ∧
      entered.current = some c ∧
      (∀ cell, entered.cells cell = (Element.held? c.elements cell).getD (a.cells cell)) ∧
      (b.run entered).2.current = some c ∧
      ∃ left, c.leave token (b.run entered).2 = (none, left) ∧
        left.current = a.current ∧
        (∀ cell, left.cells cell =
          if (Element.held? c.elements cell).isSome then a.cells cell
          else (b.run entered).2.cells cell) ∧
        c.within b.run a = ((b.run entered).1, left) := by
  obtain ⟨token, entered, he, hcurrent, hin, hout⟩ :=
    c.within_exact (fun e h => ⟨(hc e h).restorable, (hc e h).balks_eq⟩) ha b.run
  exact ⟨token, entered, he, hcurrent, hin, (b.current_run entered).trans hcurrent, hout⟩

/-- Cells that hold a value of their type and nothing in particular. -/
def Cells.blank : Cells := fun cell =>
  match cell.type with
  | .nat32 => .nat32 0
  | .nat64 => .nat64 0
  | .int64 => .int64 0
  | .text => .text ""
  | .optionalText => .optionalText none
  | .unit => .unit

theorem typed_blank : (Ambient.ofCells .blank).Typed := by
  intro cell
  show (Cells.blank cell).type = cell.type
  unfold Cells.blank
  cases cell.type <;> rfl

def levelCell : Cell := ⟨"level", .nat32⟩

def tagCell : Cell := ⟨"tag", .optionalText⟩

/-- Two keys bind one cell. -/
def twofold : Context :=
  ⟨1, [⟨"first", .bind levelCell (.nat32 5)⟩, ⟨"second", .bind levelCell (.nat32 6)⟩]⟩

/-- Writes the bound cell inside another context, and another cell once that context is left by a
panic. -/
def brokenOff : Computation :=
  .nests ⟨2, [⟨"first", .bind levelCell (.nat32 7)⟩, ⟨"probe", .probe .never⟩]⟩
    (.writes levelCell (.nat32 8) (.panics (.text "failed")))
    fun _ => .writes tagCell (.optionalText (some "seen")) (.panics (.text "failed"))

theorem enter_leave_exact_twofold :
    (∀ e ∈ twofold.elements, e.IsBinding) ∧ (Ambient.ofCells .blank).Typed ∧
      (twofold.within brokenOff.run (.ofCells .blank)).2.cells levelCell = .nat32 0 ∧
      (twofold.within brokenOff.run (.ofCells .blank)).2.cells tagCell = .optionalText (some "seen") ∧
      (twofold.within brokenOff.run (.ofCells .blank)).2.current = none := by
  have hb : ∀ e ∈ twofold.elements, e.IsBinding := by
    rintro e (_ | ⟨_, _ | ⟨_, he⟩⟩)
    · exact ⟨levelCell, .nat32 5, rfl⟩
    · exact ⟨levelCell, .nat32 6, rfl⟩
    · cases he
  obtain ⟨token, entered, he, -, -, -, left, -, hcurrent, hcells, hw⟩ :=
    enter_leave_exact twofold hb (.ofCells .blank) typed_blank brokenOff
  have hentered : entered = (twofold.enter (.ofCells .blank)).2 := by rw [he]
  refine ⟨hb, typed_blank, ?_, ?_, ?_⟩
  · rw [hw, hcells]
    rfl
  · rw [hw, hcells, hentered]
    rfl
  · rw [hw, hcurrent]
    rfl

end Workforce
