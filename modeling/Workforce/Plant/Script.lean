import Workforce.Compensator
import Workforce.Context.Element
import Workforce.Kind
import Workforce.Payload
import Workforce.Duration
import Workforce.Pool.Close

/-
  What threads of a plant can do, step by step, and what each step answers. A task body is a
  list of steps, or it waits to be given one step at a time. The results of task bodies are
  values of `ν`.
-/

namespace Workforce

/-- The ways to hand a task to a dispatcher. -/
inductive Launch where
  /-- Keeps a handle to the result. -/
  | spawn
  /-- Keeps none. -/
  | detached
  /-- Submits a task that was built before. -/
  | submit
  deriving Repr, DecidableEq

/-- The timers that guarded calls use. -/
inductive GuardTimer where
  /-- Keeps callbacks until they are fired by hand. -/
  | manual
  /-- A timer thread that is waited for. -/
  | real
  /-- The timer thread that all pools share, which nobody waits for. -/
  | shared
  deriving Repr, DecidableEq

/-- A step of a thread. Dispatchers are given by number, tasks by name. -/
inductive Step (ν : Type) where
  /-- Hands over a task with a body, or with one that waits for its steps. Context elements belong
  to the task if it is submitted, and to the caller around the call otherwise. -/
  | launch (how : Launch) (on : Nat) (kind : Kind) (id : String)
      (elements : Option (List Element)) (body : Option (List (Step ν))) (tail : Bool)
  /-- Launches a task several times, with the number of the copy appended to its name. -/
  | many (count : Nat) (task : Step ν)
  | narrow (on n : Nat)
  | soft (on n : Nat)
  | exclusive (on : Nat)
  | info (on : Nat)
  | peek (on : Nat)
  /-- Raises the limits in reach, or those of a saved compensator. -/
  | raise (times : Nat) (saved : Option String)
  | lower (times : Nat) (saved : Option String)
  | save (name : String)
  | scope
  | context
  | set (cell : Cell) (value : Datum)
  | threadName
  | log (message : String)
  | fire (callback : Nat)
  /-- Takes the outcome of a task, and waits for it if need be. -/
  | join (id : String) (patience : Duration)
  | joinAll (ids : List String)
  /-- Ends the body with a value. -/
  | finish (value : ν)
  | panic (p : Payload)
  /-- Makes a guarded call of the steps given, or one that waits for its steps. -/
  | guard (deadline : Duration) (timer : GuardTimer) (enabled : Bool) (body : List (Step ν))
  /-- Ends the innermost guarded call. -/
  | leave
  /-- Does nothing; there is no step of this name. -/
  | unknown (name : String)
  deriving Nonempty

/-- A dispatcher that a step obtained, among those that were known. -/
inductive Identity where
  | fresh
  | pool
  | known (number : Nat)
  deriving Repr, DecidableEq

/-- How a view is shown. -/
structure ViewInfo where
  mode : Mode
  limit : Nat
  running : Nat
  queued : Nat
  parentParallelism : Nat
  deriving Repr, DecidableEq

namespace ViewInfo

def render (v : ViewInfo) : String :=
  "LimitedView \x7b mode: " ++ v.mode.name ++ ", limit: " ++ toString v.limit ++
    ", running: " ++ toString v.running ++ ", queued: " ++ toString v.queued ++ " \x7d"

end ViewInfo

/-- What a dispatcher tells about itself. -/
structure DispatcherInfo where
  parallelism : Nat
  closed : Bool
  exclusive : Bool
  core : Nat
  max : Nat
  view : Option ViewInfo
  deriving Repr, DecidableEq

/-- The answer of a step. -/
inductive Reply (ν : Type) where
  | nothing
  | accepted
  | failed (f : Failure)
  | several (replies : List (Reply ν))
  | dispatcher (number : Nat) (identity : Identity)
  | info (i : DispatcherInfo)
  | limit (n : Nat)
  | gate (limit running queued : Nat)
  | done
  | none
  | saved
  | scope (shown : Option String)
  | context (cells : Cells) (keys : Option (List String))
  | threadName (name : Option String)
  | fired
  | gone
  | joined (outcome : Except Failure (Option ν))
  | joinedAll (outcome : Except Failure (List (Option ν)))
  | pending
  | noHandle
  | entered
  /-- A guarded call of a scripted body has returned. -/
  | returned
  | left
  | noGuard
  | notParked
  | closing
  | outcome (o : Pool.Outcome)
  | flag (value : Bool)
  | panicked (p : Payload)
  /-- A name or number that refers to nothing, or a name that is taken or cannot be used here. -/
  | unknown (what : String)

end Workforce
