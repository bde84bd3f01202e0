import Workforce.Dispatcher
import Workforce.Scope

/-
  The compensators of pool tasks. A raise first raises the limit of the pool on behalf of the
  worker and then the limit of each view around the task, from the pool outwards; a lower goes the
  other way round.
-/

namespace Workforce

/-- A worker of a pool. -/
structure WorkerId where
  pool : Nat
  worker : Nat
  deriving Repr, DecidableEq

/-- The limits that a blocked task raises. -/
structure Compensator where
  worker : Option WorkerId
  /-- The soft views around the task, the nearest to the pool first. -/
  views : List View := []
  deriving Repr, DecidableEq

abbrev TaskScope := Scope Compensator

namespace WorkerId

/-- The scope of a worker outside of any view. -/
def scope (w : WorkerId) : TaskScope := .available { worker := some w }

end WorkerId

namespace View

/-- Why exclusive views forbid compensation. -/
def exclusiveReason : String := "exclusive view uses its limit for mutual exclusion"

/-- The scope of a task of a view, inside the given scope. -/
def scopeWithin (v : View) (outer : Option TaskScope) : TaskScope :=
  match v.mode with
  | .exclusive => .forbidden exclusiveReason
  | .soft =>
    match Scope.compensator? outer with
    | some c => .available { c with views := c.views ++ [v] }
    | none => .available { worker := none, views := [v] }

/-- The scope inside a chain of views, the nearest to the pool first. -/
def scopeWithinAll (vs : List View) (outer : Option TaskScope) : Option TaskScope :=
  vs.foldl (fun s v => some (v.scopeWithin s)) outer

end View

end Workforce
