/-
  The ways in which work on a pool can fail, their texts, and the checks that raise them.
  A failure is a cause; `Failure.message` is the only place that words it. A check raises a
  configuration failure for a broken sizing rule and an argument failure for a bad value.
-/

namespace Workforce

/-- Why an operation failed. -/
inductive Failure where
  | poolClosed
  | configuration (message : String)
  | invalidArgument (name message : String)
  | taskPanicked (message : String)
  | workerFailure (worker : Nat) (message : String)
  | disconnected
  deriving Repr, DecidableEq

namespace Failure

/-- The text shown to the caller. -/
def message : Failure → String
  | poolClosed => "pool is closed"
  | configuration m => "configuration error: " ++ m
  | invalidArgument n m => "invalid argument " ++ n ++ ": " ++ m
  | taskPanicked m => "task panicked: " ++ m
  | workerFailure w m => "worker " ++ toString w ++ " failed: " ++ m
  | disconnected => "task result channel disconnected"

def isPoolClosed : Failure → Bool
  | poolClosed => true
  | _ => false

def isConfiguration : Failure → Bool
  | configuration _ => true
  | _ => false

/-! ## Checks -/

/-- The failure for a setting that does not meet the stated condition. -/
def unmetSetting (condition : String) : Failure := configuration ("expected " ++ condition)

/-- The failure for an argument that does not meet the stated condition. -/
def unmetArgument (name condition : String) : Failure := invalidArgument name condition

/-- Passes when the setting holds. -/
def requireSetting (holds : Bool) (condition : String) : Except Failure Unit :=
  if holds then .ok () else .error (unmetSetting condition)

/-- Passes when the argument is acceptable. -/
def requireArgument (holds : Bool) (name condition : String) : Except Failure Unit :=
  if holds then .ok () else .error (unmetArgument name condition)

theorem requireSetting_ok_iff (holds : Bool) (condition : String) :
    requireSetting holds condition = .ok () ↔ holds = true := by
  cases holds <;> simp [requireSetting]

theorem requireArgument_ok_iff (holds : Bool) (name condition : String) :
    requireArgument holds name condition = .ok () ↔ holds = true := by
  cases holds <;> simp [requireArgument]

end Failure

end Workforce
