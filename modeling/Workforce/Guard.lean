import Workforce.Duration
import Workforce.Failure
import Workforce.Scope

/-
  Guarded calls. A call that may block its thread is given a deadline. With a zero deadline the
  limit is raised before the call and lowered after it. With any other deadline a timer raises
  the limit if the call is still running then, and the end of the call lowers it again. Timer and
  end of call race for one ticket: whoever resolves it first decides whether compensation
  happened.
-/

namespace Workforce

/-- How a guarded call is carried out. -/
inductive Plan (κ : Type) where
  /-- The call is not made. -/
  | refuse (reason : String)
  /-- The call is made without compensation. -/
  | plain
  /-- The limit is raised for the whole call. -/
  | upFront (compensator : κ)
  /-- The limit is raised if the call outlasts its deadline. -/
  | timed (compensator : κ)
  deriving Repr, DecidableEq

namespace Plan

variable {κ : Type}

/-- The plan of a call under a switch, a scope and a deadline. -/
def choose (enabled : Bool) (scope : Option (Scope κ)) (deadline : Duration) : Plan κ :=
  if !enabled then plain
  else
    match scope with
    | none => plain
    | some (.forbidden reason) => refuse reason
    | some (.available c) => if deadline.isZero then upFront c else timed c

/-- The failure of a call that is refused. -/
def refusal (reason : String) : Failure :=
  .configuration ("compensation is not allowed here: " ++ reason)

theorem choose_disabled (scope : Option (Scope κ)) (deadline : Duration) :
    choose false scope deadline = plain := rfl

theorem choose_forbidden (reason : String) (deadline : Duration) :
    choose true (some (.forbidden reason : Scope κ)) deadline = refuse reason := rfl

end Plan

/-- The ticket that the timer and the end of a call race for. -/
inductive Ticket where
  | unresolved | resolved
  deriving Repr, DecidableEq

/-- What the end of a call has to do. -/
inductive Settlement where
  /-- The timer has not raised the limit, and must not do so any more. -/
  | cancelTimer
  /-- The timer has raised the limit. -/
  | lowerLimit
  deriving Repr, DecidableEq

namespace Ticket

/-- The deadline passes. Answers whether the limit has to be raised. -/
def expire : Ticket → Bool × Ticket
  | unresolved => (true, resolved)
  | resolved => (false, resolved)

/-- The call ends. -/
def settle : Ticket → Settlement × Ticket
  | unresolved => (.cancelTimer, resolved)
  | resolved => (.lowerLimit, resolved)

theorem expire_after_settle (t : Ticket) : t.settle.2.expire.1 = false := by
  cases t <;> rfl

theorem settle_after_expire (t : Ticket) : t.expire.2.settle.1 = .lowerLimit := by
  cases t <;> rfl

end Ticket

end Workforce
