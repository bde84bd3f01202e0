import Workforce.Duration

/-
  Timers. A timer holds entries ordered by due time, and by scheduling order among equal due
  times. One thread pops an entry that is due and fires it unless it was cancelled. The state of
  an entry outlives its stay in the queue: from armed it becomes fired or cancelled, once and for
  good.
-/

namespace Workforce

/-- A point in time, in nanoseconds since the start. -/
abbrev Instant := Nat

namespace Instant

/-- The last point in time that clocks can represent. -/
def last : Instant := 9223372036854775807 * 1000000000 + 999999999

/-- The delay that stands for one beyond the last point in time. -/
def farFuture : Nat := 86400 * 365 * 1000000000

/-- When something due after a delay is due. -/
def dueAfter (now : Instant) (delay : Duration) : Instant :=
  if now + delay.toNanos ≤ last then now + delay.toNanos else now + farFuture

end Instant

/-- What became of a scheduled callback. -/
inductive EntryState where
  | armed | fired | cancelled
  deriving Repr, DecidableEq

namespace EntryState

/-- How a handle of an entry is shown. -/
def render (s : EntryState) : String :=
  "TimerHandle(\"" ++
    (match s with
    | armed => "armed"
    | fired => "fired"
    | cancelled => "cancelled") ++ "\")"

end EntryState

/-- A scheduled callback. -/
structure Entry (α : Type) where
  due : Instant
  /-- The scheduling order, which also names the entry. -/
  seq : Nat
  callback : α
  deriving Repr

namespace Entry

variable {α : Type}

/-- One entry goes before another. -/
def before (a b : Entry α) : Bool := a.due < b.due || (a.due == b.due && a.seq < b.seq)

/-- Puts an entry into an ordered queue. -/
def insert (e : Entry α) : List (Entry α) → List (Entry α)
  | [] => [e]
  | x :: xs => if e.before x then e :: x :: xs else x :: insert e xs

end Entry

/-- A timer whose callbacks are values of `α`. -/
structure Timer (α : Type) where
  /-- The entries not yet popped, in firing order. -/
  queue : List (Entry α) := []
  /-- The states of all entries, by scheduling order. -/
  states : List EntryState := []
  /-- The timer was dropped. -/
  stopped : Bool := false

namespace Timer

variable {α : Type}

/-- Schedules a callback and answers the name of its entry. -/
def schedule (t : Timer α) (now : Instant) (delay : Duration) (callback : α) : Nat × Timer α :=
  let seq := t.states.length
  (seq, { t with
    queue := Entry.insert ⟨now.dueAfter delay, seq, callback⟩ t.queue
    states := t.states ++ [.armed] })

def stateOf (t : Timer α) (seq : Nat) : EntryState := (t.states[seq]?).getD .fired

/-- Moves an entry on if it is still armed, and answers whether it was. -/
def moveOn (t : Timer α) (seq : Nat) (next : EntryState) : Bool × Timer α :=
  if t.stateOf seq = .armed then (true, { t with states := t.states.set seq next })
  else (false, t)

/-- Cancels an entry, and answers whether this call did so. -/
def cancel (t : Timer α) (seq : Nat) : Bool × Timer α := t.moveOn seq .cancelled

/-- The number of entries not yet popped, cancelled ones included. -/
def pending (t : Timer α) : Nat := t.queue.length

/-- Pops the first entry if it is due. -/
def pop (t : Timer α) (now : Instant) : Option (Entry α × Timer α) :=
  if t.stopped then none
  else
    match t.queue with
    | e :: rest => if e.due ≤ now then some (e, { t with queue := rest }) else none
    | [] => none

/-- Fires a popped entry, and answers whether its callback starts. -/
def fire (t : Timer α) (e : Entry α) : Bool × Timer α := t.moveOn e.seq .fired

def stop (t : Timer α) : Timer α := { t with stopped := true }

/-- When the first entry is due. -/
def nextDue (t : Timer α) : Option Instant :=
  if t.stopped then none else t.queue.head?.map Entry.due

end Timer

end Workforce
