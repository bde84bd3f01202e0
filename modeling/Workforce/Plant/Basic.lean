import Workforce.Context.Ambient
import Workforce.Guard
import Workforce.Network
import Workforce.Plant.Script
import Workforce.Slot
import Workforce.Timer

/-
  A plant: pools and views with the threads that work for them. A thread has its ambient state,
  its compensation scope and a stack of frames, each of which has something to do when it is
  left. Tasks are recorded by number, from submission to their end.
-/

namespace Workforce

variable {ν : Type}

/-! ## Tasks -/

/-- A task as pools and views handle it. -/
structure Task (ν : Type) where
  /-- The number of its record. -/
  id : Nat
  kind : Kind
  context : Context
  /-- The outcome goes to a handle. -/
  reports : Bool
  /-- The steps of the body; none if the body waits for its steps. -/
  body : Option (List (Step ν))

instance : Kinded (Task ν) := ⟨Task.kind⟩

/-- The life of a task. -/
inductive Status where
  /-- Submitted and not started. -/
  | queued
  /-- Its body is being run, and waits for a step if it has no script. -/
  | parked
  | done
  | panicked
  /-- Its body was dropped without having run. -/
  | dropped
  /-- It was refused. -/
  | rejected
  deriving Repr, DecidableEq

/-- What is known of a task. -/
structure TaskRecord (ν : Type) where
  name : String
  /-- The pool it was submitted to. -/
  pool : Nat
  status : Status := .queued
  /-- Where its outcome goes. -/
  slot : Slot (Option ν) := .pending
  /-- Its handle is held. -/
  held : Bool := false
  /-- The answers of its steps, if its body is a script. -/
  replies : List (Reply ν) := []

/-! ## Threads -/

/-- What a guarded call owes when it ends. -/
inductive Debt where
  | nothing
  /-- One lowering of the limits. -/
  | lower (c : Compensator)
  /-- The settlement of a ticket, which may have an entry of the timer thread. -/
  | ticket (ticket : Nat) (entry : Option Nat)

/-- A frame of a thread that runs a task. -/
inductive Frame (ν : Type) where
  | context (c : Context) (token : Token)
  /-- An admission to a view. -/
  | view (v : View)
  /-- A scope that was replaced. -/
  | scope (previous : Option TaskScope)
  /-- The place where the outcome of a task is caught and reported. -/
  | report (task : Nat)
  /-- The body of a task. -/
  | body (task : Nat)
  | guard (debt : Debt)
  /-- The steps that remain of a scripted body. -/
  | script (task : Nat) (rest : List (Step ν))

/-- Who acts. -/
inductive Actor where
  | controller
  | worker (w : WorkerId)
  deriving Repr, DecidableEq

namespace Actor

/-- The worker that acts, if it is one. -/
def worker? : Actor → Option WorkerId
  | controller => none
  | worker w => some w

/-- The scope of a thread outside of tasks. -/
def scope : Actor → Option TaskScope
  | controller => none
  | worker w => some w.scope

end Actor

/-- A thread. -/
structure Thread (ν : Type) where
  ambient : Ambient
  scope : Option TaskScope
  /-- The frames of the task being run, the innermost first. -/
  stack : List (Frame ν) := []

/-- A close on a thread of its own. -/
structure Closer where
  name : String
  pool : Nat
  timeout : Duration
  /-- The notifications it has seen. -/
  seen : Nat
  outcome : Option Pool.Outcome := none
  /-- The outcome was handed out. -/
  taken : Bool := false

/-! ## The plant -/

/-- Pools, views, threads and tasks. -/
structure Plant (ν : Type) where
  network : Network (Task ν)
  /-- The cells of a fresh thread. -/
  cells : Cells
  threads : List (Actor × Thread ν) := []
  /-- The dispatchers by number; none for those of a dropped pool. -/
  dispatchers : List (Option Dispatcher) := []
  tasks : List (TaskRecord ν) := []
  tickets : List (Ticket × Compensator) := []
  /-- The tickets whose callbacks wait to be fired by hand; none once fired. -/
  callbacks : List (Option Nat) := []
  timer : Timer Nat := {}
  /-- The saved compensators, the latest first. -/
  saved : List (String × Compensator) := []
  closers : List Closer := []
  /-- The serial number of the next context. -/
  nextSerial : Nat := 1
  /-- Logged messages, oldest first. -/
  events : List String := []
  /-- Notes of probes in running tasks, oldest first. -/
  probes : List String := []

namespace Plant

/-! ## Access -/

def thread (m : Plant ν) (a : Actor) : Thread ν :=
  match m.threads.find? fun t => t.1 = a with
  | some t => t.2
  | none => { ambient := .ofCells m.cells, scope := a.scope }

def setThread (m : Plant ν) (a : Actor) (t : Thread ν) : Plant ν :=
  { m with threads := (a, t) :: m.threads.filter fun x => x.1 ≠ a }

def onThread (m : Plant ν) (a : Actor) (f : Thread ν → Thread ν) : Plant ν :=
  m.setThread a (f (m.thread a))

def setStack (m : Plant ν) (a : Actor) (stack : List (Frame ν)) : Plant ν :=
  m.onThread a fun t => { t with stack }

def dispatcher? (m : Plant ν) (d : Nat) : Option Dispatcher := (m.dispatchers[d]?).join

def pool? (m : Plant ν) (p : Nat) : Option (Pool (Job (Task ν))) := m.network.pool? p

def onTask (m : Plant ν) (t : Nat) (f : TaskRecord ν → TaskRecord ν) : Plant ν :=
  { m with tasks := m.tasks.modify t f }

def setStatus (m : Plant ν) (t : Nat) (status : Status) : Plant ν :=
  m.onTask t fun r => { r with status }

/-- Fills the slot of a task. -/
def complete (m : Plant ν) (t : Nat) (outcome : Except Failure (Option ν)) : Plant ν :=
  m.onTask t fun r => { r with slot := r.slot.complete outcome }

/-- The number of the task with a name. -/
def taskNamed? (m : Plant ν) (name : String) : Option Nat :=
  m.tasks.findIdx? fun r => r.name = name

/-- Drops the body of a task that never ran. -/
def discard (m : Plant ν) (t : Task ν) : Plant ν :=
  let m := m.setStatus t.id .dropped
  if t.reports then m.complete t.id (.error .disconnected) else m

/-- Puts the network in place, and accounts for the tasks dropped in it. -/
def withNetwork (m : Plant ν) (n : Network (Task ν)) : Plant ν :=
  n.dropped.foldl (fun m j => m.discard j.task) { m with network := { n with dropped := [] } }

/-- The worker is in this phase. -/
def phase? (m : Plant ν) (w : WorkerId) : Option (Phase (Job (Task ν))) :=
  ((m.pool? w.pool).bind fun p => p.worker? w.worker).map Worker.phase

/-! ## Construction -/

/-- Adds a pool as the next dispatcher. -/
def addPool (m : Plant ν) (p : Pool (Job (Task ν))) : Plant ν :=
  let id := m.network.pools.length
  { m with
    network := { m.network with pools := m.network.pools ++ [p] }
    dispatchers := m.dispatchers ++ [some (.pool id p.config.core)] }

/-- A plant with the given pools. Answers the failure of the first pool that cannot be made. -/
def build (cells : Cells) (configs : List Config) : Except Failure (Plant ν) :=
  configs.foldlM (fun m c => (Pool.create c).map m.addPool) { network := {}, cells }

end Plant

end Workforce
