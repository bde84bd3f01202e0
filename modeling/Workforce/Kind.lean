import Workforce.Context.Basic

/-
  The two kinds of work. Processor-bound tasks are limited by the parallelism of a pool; blocking
  tasks may grow a pool to its ceiling.
-/

namespace Workforce

/-- The scheduling class of a task. -/
inductive Kind where
  | cpu | blocking
  deriving Repr, DecidableEq

namespace Kind

def name : Kind → String
  | cpu => "Cpu"
  | blocking => "Blocking"

/-- How a task of a kind is shown together with its context. -/
def renderTask (k : Kind) (c : Context) : String :=
  "Task \x7b kind: " ++ k.name ++ ", context: " ++ c.render ++ ", .. \x7d"

end Kind

/-- Work that has a kind. -/
class Kinded (τ : Type) where
  kind : τ → Kind

end Workforce
