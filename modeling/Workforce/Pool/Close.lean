import Workforce.Pool.Basic

/-
  Closing a pool. From the first close on no task is accepted; queued and running tasks go on.
  A close that waits too long terminates the pool by force: queued tasks are dropped and workers
  leave at their next section.
-/

namespace Workforce.Pool

variable {τ : Type}

/-- The result of a close. -/
structure Outcome where
  /-- Every task submitted before the close has ended. -/
  completed : Bool
  /-- Queued tasks that were dropped. -/
  dropped : Nat
  /-- Tasks still running when the close gave up waiting. -/
  running : Nat
  deriving Repr, DecidableEq

/-- Stops accepting tasks. Doing so again changes nothing. -/
def beginClose (p : Pool τ) : Pool τ :=
  if p.closed then p else { p with closed := true }.notifyAll

/-- What a close finds when it looks at the pool: its outcome once the pool is at rest. -/
def closeCheck (p : Pool τ) : Option Outcome :=
  if p.atRest then some ⟨!p.abandoned, 0, 0⟩ else none

/-- Gives up waiting. Answers the outcome and the tasks dropped, oldest first per kind. -/
def terminate (p : Pool τ) : Outcome × List τ × Pool τ :=
  let dropped := p.cpuQueue ++ p.blockingQueue
  (⟨false, dropped.length, p.running⟩, dropped,
    { p with abandoned := true, cpuQueue := [], blockingQueue := [] }.notifyAll)

theorem beginClose_idempotent (p : Pool τ) : p.beginClose.beginClose = p.beginClose := by
  unfold beginClose
  split
  · simp
  · simp [notifyAll]

end Workforce.Pool
