import Workforce.Context.Basic

/-
  Contexts on threads. Entering a context installs its elements in order and makes it current;
  the token remembers what was displaced. Leaving makes the remembered context current again and
  then restores the elements in reverse order. A token is not bound to the thread it came from.
-/

namespace Workforce

/-- The ambient state of one thread. -/
structure Ambient where
  surface : Surface
  /-- The context of the innermost task on the thread. -/
  current : Option Context := none

/-- The prior states of a context, as its size allows. -/
inductive Saved where
  | nothing
  | one (prior : Datum)
  | many (priors : List Datum)
  deriving Repr, DecidableEq

/-- What leaving a context needs. -/
structure Token where
  previous : Option Context
  saved : Saved
  deriving Repr, DecidableEq

namespace Ambient

/-- A thread with the given cells and no context. -/
def ofCells (cells : Cells) : Ambient := { surface := { cells } }

def cells (a : Ambient) : Cells := a.surface.cells

def setCell (a : Ambient) (cell : Cell) (value : Datum) : Ambient :=
  { a with surface := a.surface.setCell cell value }

/-- The thread without its notes. -/
def forgetNotes (a : Ambient) : Ambient := { a with surface := { a.surface with notes := [] } }

/-- The current context, or the empty one outside of any. -/
def capture (a : Ambient) : Context := a.current.getD .empty

/-- The panic for a token that belongs to a context of another size. -/
def mismatch : Payload := .text "mismatched context token"

end Ambient

namespace Context

/-- Installs the elements of a context. -/
def installInto (c : Context) (s : Surface) : Except Payload Saved × Surface :=
  match c.elements with
  | [] => (.ok .nothing, s)
  | [e] =>
    match e.install s with
    | (.error p, s) => (.error p, s)
    | (.ok prior, s) => (.ok (.one prior), s)
  | es =>
    match Element.installAll es s with
    | (.error p, s) => (.error p, s)
    | (.ok priors, s) => (.ok (.many priors), s)

/-- Enters a context. If an element panics, the elements before it stay installed and the current
context stays what it was. -/
def enter (c : Context) (a : Ambient) : Except Payload Token × Ambient :=
  match c.installInto a.surface with
  | (.error p, s) => (.error p, { a with surface := s })
  | (.ok saved, s) => (.ok ⟨a.current, saved⟩, { surface := s, current := some c })

/-- Restores the elements of a context from saved prior states. -/
def restoreInto (c : Context) (saved : Saved) (s : Surface) : Option Payload × Surface :=
  match c.elements, saved with
  | _, .nothing => (none, s)
  | [e], .one prior => e.restore prior s
  | es, .many priors =>
    if es.length = priors.length then Element.restoreAll (es.zip priors).reverse s
    else (some Ambient.mismatch, s)
  | _, .one _ => (some Ambient.mismatch, s)

/-- Leaves a context with the token of entering it, and answers the panic raised, if any. -/
def leave (c : Context) (token : Token) (a : Ambient) : Option Payload × Ambient :=
  match c.restoreInto token.saved a.surface with
  | (panicked, s) => (panicked, { surface := s, current := token.previous })

/-- Runs a computation inside a context, which is left on every way out. A panic while leaving
replaces the outcome of the computation. -/
def within {α : Type} (c : Context) (body : Ambient → Except Payload α × Ambient) (a : Ambient) :
    Except Payload α × Ambient :=
  match c.enter a with
  | (.error p, a) => (.error p, a)
  | (.ok token, a) =>
    match body a with
    | (outcome, a) =>
      match c.leave token a with
      | (some p, a) => (.error p, a)
      | (none, a) => (outcome, a)

end Context

end Workforce
