/-
  Thread-bound cells and the values they hold. A cell has a name and a type; a thread maps each
  cell to a value. A prior state is a value that left its cell, so it carries its type along.
-/

namespace Workforce

/-- The types of values that cells hold and prior states carry. -/
inductive DatumType where
  | nat32 | nat64 | int64 | text | optionalText | unit
  deriving Repr, DecidableEq

/-- A value together with its type. -/
inductive Datum where
  | nat32 (value : Nat)
  | nat64 (value : Nat)
  | int64 (value : Int)
  | text (value : String)
  | optionalText (value : Option String)
  | unit
  deriving Repr, DecidableEq

def Datum.type : Datum → DatumType
  | nat32 _ => .nat32
  | nat64 _ => .nat64
  | int64 _ => .int64
  | text _ => .text
  | optionalText _ => .optionalText
  | unit => .unit

/-- The value if it has the wanted type. -/
def Datum.as? (type : DatumType) (d : Datum) : Option Datum :=
  if d.type = type then some d else none

/-- A thread-bound variable. -/
structure Cell where
  name : String
  type : DatumType
  deriving Repr, DecidableEq

/-- The cells of one thread. -/
abbrev Cells := Cell → Datum

/-- Writes one cell. -/
def Cells.set (cells : Cells) (cell : Cell) (value : Datum) : Cells :=
  fun c => if c = cell then value else cells c

theorem Cells.set_self (cells : Cells) (cell : Cell) (value : Datum) :
    cells.set cell value cell = value := by simp [Cells.set]

theorem Cells.set_of_ne (cells : Cells) {cell other : Cell} (h : other ≠ cell) (value : Datum) :
    cells.set cell value other = cells other := by simp [Cells.set, h]

end Workforce
