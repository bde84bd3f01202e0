import Workforce.Config
import Workforce.Kind

/-
  The state of a worker pool, as one lock guards it: two queues, the parallelism limit, and the
  counters of running tasks and of workers. Beside it stand the workers themselves, each with its
  phase, its local slot and what it contributes to the limit. The counters are kept apart from
  the phases; that they agree is a law and not a definition.
-/

namespace Workforce

/-- What a worker is doing. -/
inductive Phase (τ : Type) where
  /-- The thread was spawned and has not reached the pool yet. -/
  | starting
  /-- The worker waits for work; `woken` if a notification reached it. -/
  | idle (woken : Bool)
  | running (task : τ)
  /-- The thread has left the pool. -/
  | gone

/-- A worker. Its number is its place among all workers that the pool ever started. -/
structure Worker (τ : Type) where
  phase : Phase τ := .starting
  /-- A task placed by its own worker, preferred by that worker. -/
  slot : Option τ := none
  /-- Raises of the limit on behalf of this worker that were applied. -/
  contribution : Nat := 0
  /-- Raises on behalf of this worker beyond the cap. -/
  overflow : Nat := 0

/-- A worker pool whose tasks are values of `τ`. -/
structure Pool (τ : Type) where
  config : Config
  cpuQueue : List τ := []
  blockingQueue : List τ := []
  /-- The limit on processor-bound tasks, compensation included. -/
  limit : Nat
  runningCpu : Nat := 0
  runningBlocking : Nat := 0
  live : Nat := 0
  idle : Nat := 0
  starting : Nat := 0
  closed : Bool := false
  /-- A close gave up waiting: workers leave without draining the queues. -/
  abandoned : Bool := false
  completed : Nat := 0
  /-- How often those who wait for the pool to come to rest were notified. -/
  signals : Nat := 0
  /-- All workers ever started, in order. -/
  workers : List (Worker τ) := []

namespace Pool

variable {τ : Type}

/-! ## Counters -/

def running (p : Pool τ) : Nat := p.runningCpu + p.runningBlocking

def queued (p : Pool τ) : Nat := p.cpuQueue.length + p.blockingQueue.length

/-- No task is queued or running. -/
def atRest (p : Pool τ) : Bool := p.queued == 0 && p.running == 0

/-- The number of workers ever started. -/
def spawned (p : Pool τ) : Nat := p.workers.length

/-- The limit on processor-bound tasks, capped by the size of the pool. -/
def effectiveLimit (p : Pool τ) : Nat := Nat.min p.limit p.config.max

/-- One more processor-bound task may run. -/
def admitsCpu (p : Pool τ) : Bool := p.runningCpu < p.effectiveLimit

/-- The number of queued tasks that free workers could start right now. -/
def runnable (p : Pool τ) : Nat :=
  Nat.min p.cpuQueue.length (p.effectiveLimit - p.runningCpu) + p.blockingQueue.length

theorem admitsCpu_iff (p : Pool τ) :
    p.admitsCpu = true ↔ p.runningCpu < Nat.min p.limit p.config.max :=
  ⟨of_decide_eq_true, decide_eq_true⟩

/-! ## Workers -/

def worker? (p : Pool τ) (w : Nat) : Option (Worker τ) := p.workers[w]?

def modifyWorker (p : Pool τ) (w : Nat) (f : Worker τ → Worker τ) : Pool τ :=
  { p with workers := p.workers.modify w f }

def setPhase (p : Pool τ) (w : Nat) (phase : Phase τ) : Pool τ :=
  p.modifyWorker w fun x => { x with phase }

/-- Starts one more worker. -/
def spawnWorker (p : Pool τ) : Pool τ :=
  { p with
    live := p.live + 1
    starting := p.starting + 1
    workers := p.workers ++ [{}] }

/-- A worker that waits and was not woken yet. -/
def sleeps (x : Worker τ) : Bool :=
  match x.phase with
  | .idle false => true
  | _ => false

def wake (x : Worker τ) : Worker τ := { x with phase := .idle true }

/-- Wakes one sleeping worker, if there is one. -/
def notifyOne (p : Pool τ) : Pool τ :=
  match p.workers.findIdx? sleeps with
  | some w => p.modifyWorker w wake
  | none => p

/-- Wakes all sleeping workers. -/
def notifyAll (p : Pool τ) : Pool τ :=
  { p with workers := p.workers.map fun x => if sleeps x then wake x else x }

/-- Notifies those who wait for the pool to come to rest. -/
def signal (p : Pool τ) : Pool τ := { p with signals := p.signals + 1 }

/-- A pool with its core workers started. -/
def ofConfig (c : Config) : Pool τ :=
  (List.range c.core).foldl (fun p _ => p.spawnWorker) { config := c, limit := c.core }

/-- Creates a pool if its settings are valid. -/
def create (c : Config) : Except Failure (Pool τ) :=
  match c.validate with
  | .ok () => .ok (ofConfig c)
  | .error f => .error f

end Pool

end Workforce
