import Workforce.Plant.Unwind

/-
  Guarded calls that interleave. A call goes through its stages on its own thread: it is refused,
  or it empties the slot of its worker, prepares compensation as its plan says, performs its
  operation and clears up. The timer of a timed call invokes the callback whenever and as often as
  it likes once it has it, while it is being armed and after the call is over too. Whoever takes
  the ticket holds it until the compensator has returned, and the other side waits.

  Compensators return normally. A move that is not possible at the moment changes nothing, so
  every list of moves is a run.
-/

namespace Workforce.Guard

/-- What a guarded call does. -/
inductive Note (κ ν : Type) where
  /-- The slot of the worker was emptied. -/
  | flushed
  /-- The timer was given the callback. -/
  | armed
  | began
  | ended (exit : Exit ν)
  | raised (compensator : κ)
  | lowered (compensator : κ)
  /-- The callback took the ticket. -/
  | expired
  /-- The end of the call took the ticket, or found it taken. -/
  | settled
  /-- The timer was cancelled. -/
  | cancelled

namespace Note

variable {κ ν : Type}

/-- The operation begins or ends. -/
def operates : Note κ ν → Bool
  | .began => true
  | .ended _ => true
  | _ => false

/-- A compensator is called. -/
def compensates : Note κ ν → Bool
  | .raised _ => true
  | .lowered _ => true
  | _ => false

/-- A given compensator raises its limits. -/
def raises [DecidableEq κ] (d : κ) : Note κ ν → Bool
  | .raised e => e = d
  | _ => false

/-- A given compensator lowers its limits. -/
def lowers [DecidableEq κ] (d : κ) : Note κ ν → Bool
  | .lowered e => e = d
  | _ => false

end Note

/-- How far a guarded call is. -/
inductive Stage (ν : Type) where
  | entered
  | flushed
  /-- Compensation is prepared. -/
  | ready
  | operating
  | ended (exit : Exit ν)
  /-- The end of the call holds the ticket and knows what it has to do. -/
  | settling (settlement : Settlement) (exit : Exit ν)
  /-- The call was refused, or its operation ended and control left the call in the same way. -/
  | answered (result : Except Failure (Exit ν))

/-- A guarded call. -/
structure Call (κ ν : Type) where
  enabled : Bool
  scope : Option (Scope κ)
  deadline : Duration
  stage : Stage ν := .entered
  ticket : Ticket := .unresolved
  /-- The callback holds the ticket and has yet to raise the limit. -/
  raising : Bool := false
  /-- What was done for the call, oldest first. -/
  trace : List (Note κ ν) := []

/-- A move of a call. -/
inductive Move (ν : Type) where
  /-- Its thread goes on. -/
  | go
  /-- Its operation ends. -/
  | finish (exit : Exit ν)
  /-- The timer invokes the callback. -/
  | fire
  /-- The callback raises the limit and lets go of the ticket. -/
  | raise

namespace Call

variable {κ ν : Type}

def plan (c : Call κ ν) : Plan κ := Plan.choose c.enabled c.scope c.deadline

/-- Enters a stage, having done something. -/
def pass (c : Call κ ν) (stage : Stage ν) (notes : List (Note κ ν)) : Call κ ν :=
  { c with stage, trace := c.trace ++ notes }

/-- The end of the call takes the ticket. -/
def settle (c : Call κ ν) (exit : Exit ν) : Call κ ν :=
  { c.pass (.settling c.ticket.settle.1 exit) [.settled] with ticket := c.ticket.settle.2 }

/-- The thread of the call goes on, unless it waits for the operation or for the ticket. -/
def go (c : Call κ ν) : Call κ ν :=
  match c.stage, c.plan with
  | .entered, .refuse reason => c.pass (.answered (.error (Plan.refusal reason))) []
  | .entered, _ => c.pass .flushed [.flushed]
  | .flushed, .upFront d => c.pass .ready [.raised d]
  | .flushed, .timed _ => c.pass .ready [.armed]
  | .flushed, _ => c.pass .ready []
  | .ready, _ => c.pass .operating [.began]
  | .ended e, .upFront d => c.pass (.answered (.ok e)) [.lowered d]
  | .ended e, .timed _ => if c.raising then c else c.settle e
  | .ended e, _ => c.pass (.answered (.ok e)) []
  | .settling .lowerLimit e, .timed d => c.pass (.answered (.ok e)) [.lowered d]
  | .settling _ e, _ => c.pass (.answered (.ok e)) [.cancelled]
  | .operating, _ => c
  | .answered _, _ => c

/-- The operation of the call ends, by returning or by a panic. -/
def finish (c : Call κ ν) (exit : Exit ν) : Call κ ν :=
  match c.stage with
  | .operating => c.pass (.ended exit) [.ended exit]
  | _ => c

/-- The timer has the callback of the call, and nobody holds the ticket. -/
def takeable (c : Call κ ν) : Bool :=
  match c.plan, c.stage with
  | .timed _, .entered => false
  | .timed _, .flushed => false
  | .timed _, .settling .. => false
  | .timed _, _ => !c.raising
  | _, _ => false

/-- The callback is invoked, and takes the ticket if it is the first to resolve it. -/
def fire (c : Call κ ν) : Call κ ν :=
  if c.takeable then
    if c.ticket.expire.1 then
      { c with ticket := c.ticket.expire.2, raising := true, trace := c.trace ++ [.expired] }
    else { c with ticket := c.ticket.expire.2 }
  else c

/-- The callback raises the limit. -/
def raise (c : Call κ ν) : Call κ ν :=
  match c.plan with
  | .timed d =>
    if c.raising then { c with raising := false, trace := c.trace ++ [.raised d] } else c
  | _ => c

def step (c : Call κ ν) : Move ν → Call κ ν
  | .go => c.go
  | .finish e => c.finish e
  | .fire => c.fire
  | .raise => c.raise

def run (c : Call κ ν) (ms : List (Move ν)) : Call κ ν := ms.foldl step c

end Call

/-! ## Calls that interleave -/

/-- What happens to guarded calls: a new one is made, or one of them makes a move. -/
inductive Act (κ ν : Type) where
  | call (enabled : Bool) (scope : Option (Scope κ)) (deadline : Duration)
  | move (call : Nat) (m : Move ν)

/-- All guarded calls that were made, by whichever threads. -/
abbrev Calls (κ ν : Type) := List (Call κ ν)

namespace Calls

variable {κ ν : Type}

def step (cs : Calls κ ν) : Act κ ν → Calls κ ν
  | .call enabled scope deadline => cs ++ [{ enabled, scope, deadline }]
  | .move i m => cs.modify i (Call.step · m)

/-- The calls after some acts, none having been made before. -/
def run (as : List (Act κ ν)) : Calls κ ν := as.foldl step []

theorem run_append (as bs : List (Act κ ν)) : run (as ++ bs) = bs.foldl step (run as) :=
  List.foldl_append

end Calls

end Workforce.Guard
