import Workforce.Failure

/-
  Result slots. A slot is filled once, by whoever completes it first, and emptied once, by the
  holder of its handle. Filling a slot that is not pending changes nothing.
-/

namespace Workforce

/-- Where the outcome of a task waits for its handle. -/
inductive Slot (α : Type) where
  | pending
  | ready (outcome : Except Failure α)
  | consumed

namespace Slot

variable {α : Type}

/-- Fills a pending slot. -/
def complete (outcome : Except Failure α) : Slot α → Slot α
  | pending => ready outcome
  | s => s

def isReady : Slot α → Bool
  | pending => false
  | _ => true

/-- Takes the outcome. A slot without one answers that its task is gone. -/
def take : Slot α → Except Failure α × Slot α
  | ready outcome => (outcome, consumed)
  | _ => (.error .disconnected, consumed)

/-- Takes the outcome if there is one by now. -/
def takeIfReady (s : Slot α) : Option (Except Failure α × Slot α) :=
  if s.isReady then some s.take else none

/-- Takes the outcomes of several slots in order, and answers with the first failure. -/
def collect (slots : List (Slot α)) : Except Failure (List α) :=
  slots.mapM fun s => s.take.1

theorem complete_of_isReady {s : Slot α} (h : s.isReady = true) (outcome : Except Failure α) :
    s.complete outcome = s := by
  cases s <;> simp_all [isReady, complete]

theorem take_complete_pending (outcome : Except Failure α) :
    ((pending : Slot α).complete outcome).take = (outcome, consumed) := rfl

end Slot

/-- How a handle is shown. -/
def Slot.display : String := "JoinHandle \x7b .. \x7d"

end Workforce
