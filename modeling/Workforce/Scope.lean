import Workforce.Text.Quoted

/-
  Compensation scopes: what a blocking call on a thread may do about the parallelism it takes
  away. A scope either names a compensator, which raises and lowers limits, or forbids
  compensation and says why. A thread without a scope runs no pool task.
-/

namespace Workforce

/-- What blocking calls may do. The compensators are values of `κ`. -/
inductive Scope (κ : Type) where
  | available (compensator : κ)
  | forbidden (reason : String)
  deriving Repr, DecidableEq

namespace Scope

variable {κ : Type}

/-- The compensator in reach, if any. -/
def compensator? : Option (Scope κ) → Option κ
  | some (available c) => some c
  | _ => none

/-- How a scope is shown. -/
def render : Scope κ → String
  | available _ => "Available"
  | forbidden reason => "Forbidden \x7b reason: " ++ Text.Quoted.encode reason ++ " \x7d"

end Scope

end Workforce
