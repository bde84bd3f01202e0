import Workforce.Context.Cell
import Workforce.Payload

/-
  Context elements. An element is installed into a thread, which displaces a prior state, and is
  later handed a prior state to put back. A binding swaps the value of one cell; a forgetful
  binding loses what it displaced and puts back a value of another type; a probe only leaves
  notes, and may fail at either end.
-/

namespace Workforce

/-- Where a probe fails. -/
inductive Fault where
  | never | install | restore
  deriving Repr, DecidableEq

/-- What an element does to a thread. -/
inductive Action where
  /-- Holds a cell at a value. -/
  | bind (cell : Cell) (value : Datum)
  /-- Holds a cell at a value, and puts back a foreign prior state. -/
  | bindForgetful (cell : Cell) (value : Datum)
  /-- Leaves a note at each end. -/
  | probe (fault : Fault)
  deriving Repr, DecidableEq

/-- One piece of ambient state, under the key that identifies its kind. -/
structure Element where
  key : String
  action : Action
  deriving Repr, DecidableEq

/-- The part of a thread that elements act on. -/
structure Surface where
  cells : Cells
  /-- The notes of probes, oldest first. -/
  notes : List String := []

namespace Surface

def setCell (s : Surface) (cell : Cell) (value : Datum) : Surface :=
  { s with cells := s.cells.set cell value }

def note (s : Surface) (text : String) : Surface :=
  { s with notes := s.notes ++ [text] }

end Surface

namespace Element

/-- A binding of one cell, and nothing else. -/
def IsBinding (e : Element) : Prop := ∃ cell value, e.action = .bind cell value

/-- The prior state that a forgetful binding puts back. -/
def foreignPrior : Datum := .nat64 17

/-- Puts a prior state into a cell of the same type; any other prior state is ignored. -/
def putBack (cell : Cell) (prior : Datum) (s : Surface) : Surface :=
  if prior.type = cell.type then s.setCell cell prior else s

/-- Installs an element, and answers the state it displaced or the panic it raised. -/
def install (e : Element) (s : Surface) : Except Payload Datum × Surface :=
  match e.action with
  | .bind cell value => (.ok (s.cells cell), s.setCell cell value)
  | .bindForgetful cell value => (.ok (s.cells cell), s.setCell cell value)
  | .probe fault =>
    let s := s.note ("install " ++ e.key)
    if fault = .install then (.error (.text ("install of " ++ e.key ++ " failed")), s)
    else (.ok .unit, s)

/-- Hands a prior state to an element, and answers the panic it raised, if any. -/
def restore (e : Element) (prior : Datum) (s : Surface) : Option Payload × Surface :=
  match e.action with
  | .bind cell _ => (none, putBack cell prior s)
  | .bindForgetful cell _ => (none, putBack cell foreignPrior s)
  | .probe fault =>
    let origin := if prior = .unit then "own" else "foreign"
    let s := s.note ("restore " ++ e.key ++ " " ++ origin)
    if fault = .restore then (some (.text ("restore of " ++ e.key ++ " failed")), s)
    else (none, s)

/-- Installs elements in order, up to the first panic. What was installed by then stays. -/
def installAll : List Element → Surface → Except Payload (List Datum) × Surface
  | [], s => (.ok [], s)
  | e :: es, s =>
    match e.install s with
    | (.error p, s) => (.error p, s)
    | (.ok prior, s) =>
      match installAll es s with
      | (.error p, s) => (.error p, s)
      | (.ok priors, s) => (.ok (prior :: priors), s)

/-- Hands prior states to elements in the order given, up to the first panic. -/
def restoreAll : List (Element × Datum) → Surface → Option Payload × Surface
  | [], s => (none, s)
  | (e, prior) :: rest, s =>
    match e.restore prior s with
    | (some p, s) => (some p, s)
    | (none, s) => restoreAll rest s

end Element

end Workforce
