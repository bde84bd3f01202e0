/-
  What a panic carries. Only texts can be read back; every other payload is reported by one
  fixed phrase. An explosive payload panics a second time when it is destroyed.
-/

namespace Workforce

/-- The value thrown by a panic. -/
inductive Payload where
  /-- A readable message. -/
  | text (message : String)
  /-- A value without a message. -/
  | unreadable
  /-- A value without a message whose destructor panics. -/
  | explosive
  deriving Repr, DecidableEq

namespace Payload

/-- The readable text of a payload. -/
def message : Payload → String
  | text m => m
  | unreadable => "<non-string panic payload>"
  | explosive => "<non-string panic payload>"

/-- The panic raised while a payload is destroyed, if any. -/
def aftershock : Payload → Option Payload
  | explosive => some (text "payload destructor failed")
  | _ => none

theorem aftershock_eq_none_iff (p : Payload) : p.aftershock = none ↔ p ≠ explosive := by
  cases p <;> simp [aftershock]

end Payload

end Workforce
