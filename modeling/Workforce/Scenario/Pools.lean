import Workforce.Plant.Close

/-
  Scenarios about pools. A controller performs one operation at a time on a plant; everything
  then settles, and the observer sees the counters of pools and views and what changed since the
  last observation.
-/

namespace Workforce.Scenario.Pools

variable {ν : Type}

/-- The operations of the controller. -/
inductive Op (ν : Type) where
  | step (s : Step ν)
  /-- Gives a step to a task that waits for it. -/
  | task (id : String) (s : Step ν)
  | close (pool : Nat) (timeout : Duration)
  | closeApart (pool : Nat) (timeout : Duration) (name : String)
  | collectClose (name : String)
  | awaitExit (pool : Nat)
  /-- Drops a pool, and finishes its tasks with the value. -/
  | drop (pool : Nat) (value : ν)

/-- The counters of a pool. Those of workers are not shown once it is closed. -/
structure PoolView where
  workers : Option (Nat × Nat × Nat)
  runningCpu : Nat
  runningBlocking : Nat
  queuedCpu : Nat
  queuedBlocking : Nat
  limit : Nat
  completed : Nat
  deriving Repr, DecidableEq

/-- The counters of a view, under the number of a dispatcher. -/
structure GateView where
  dispatcher : Nat
  limit : Nat
  running : Nat
  queued : Nat
  deriving Repr, DecidableEq

/-- What the observer sees after an operation. -/
structure Observation (ν : Type) where
  reply : Reply ν
  pools : List PoolView
  views : List GateView
  /-- The tasks whose status changed. -/
  tasks : List (String × Status)
  /-- The answers of scripted bodies that went on. -/
  replies : List (String × List (Reply ν))
  /-- The tasks whose handles became ready. -/
  ready : List String
  events : List String
  probes : List String

/-- What is left of a dropped pool. -/
structure Remains (ν : Type) where
  tasks : List (String × Status)
  /-- The outcomes of the handles still held; none for those still pending. -/
  joins : List (String × Option (Except Failure (Option ν)))

/-- The answer of an operation. -/
inductive Answer (ν : Type) where
  | observed (o : Observation ν)
  | remains (r : Remains ν)

/-- A plant and what its observer has seen of it. -/
structure Bench (ν : Type) where
  plant : Plant ν
  statuses : List Status := []
  replyCounts : List Nat := []
  readySeen : List String := []
  gone : List Nat := []

namespace Bench

/-- Performs an operation of the controller, without settling. -/
def act (m : Plant ν) (gone : List Nat) : Op ν → Reply ν × Plant ν
  | .step s => m.perform .controller s
  | .task id s =>
    match m.taskNamed? id with
    | none => (.unknown "id", m)
    | some t =>
      match m.workerOf? t with
      | some w => m.direct w s
      | none => (.notParked, m)
  | .close p timeout =>
    if known m gone p then
      let (outcome, m) := m.close p timeout
      (outcome.elim (.unknown "pool") .outcome, m)
    else (.unknown "pool", m)
  | .closeApart p timeout name =>
    if known m gone p then (.closing, m.closeApart p timeout name) else (.unknown "pool", m)
  | .collectClose name =>
    match m.collectClose name with
    | (some outcome, m) => (.outcome outcome, m)
    | (none, m) => (.pending, m)
  | .awaitExit p => if known m gone p then (.flag (m.deserted p), m) else (.unknown "pool", m)
  | .drop p value => if known m gone p then (.nothing, m.dropPool p value) else (.unknown "pool", m)
where
  known (m : Plant ν) (gone : List Nat) (p : Nat) : Bool :=
    p < m.network.pools.length && !gone.contains p

/-- The counters of a pool. -/
def viewPool {τ : Type} (p : Pool τ) : PoolView :=
  { workers := if p.closed then none else some (p.live, p.idle, p.spawned)
    runningCpu := p.runningCpu
    runningBlocking := p.runningBlocking
    queuedCpu := p.cpuQueue.length
    queuedBlocking := p.blockingQueue.length
    limit := p.limit
    completed := p.completed }

/-- The counters of the dispatchers that are views. -/
def viewGates (m : Plant ν) : List GateView :=
  m.dispatchers.zipIdx.filterMap fun (d, i) =>
    match d with
    | some (.view id _ _ _) => (m.network.gate? id).map fun g =>
      { dispatcher := i, limit := g.limit, running := g.running, queued := g.queue.length }
    | _ => none

/-- The handle of a task is held and its outcome is there. -/
def isReady (r : TaskRecord ν) : Bool := r.held && r.slot.isReady

/-- Looks at the plant after an operation. -/
def observe (b : Bench ν) (reply : Reply ν) : Observation ν × Bench ν :=
  let m := b.plant
  let pools := m.network.pools.zipIdx.filterMap fun (p, i) =>
    if b.gone.contains i then none else some (viewPool p)
  let tasks := m.tasks.zipIdx.filterMap fun (r, i) =>
    if b.statuses[i]? = some r.status then none else some (r.name, r.status)
  let replies := m.tasks.zipIdx.filterMap fun (r, i) =>
    if r.replies.length = (b.replyCounts[i]?).getD 0 then none else some (r.name, r.replies)
  let ready := (m.tasks.filter fun r => isReady r && !b.readySeen.contains r.name).map
    TaskRecord.name
  ({ reply, pools, views := viewGates m, tasks, replies
     ready := ready.mergeSort fun x y => decide (x ≤ y)
     events := m.events, probes := m.probes },
    { b with
      plant := { m with events := [], probes := [] }
      statuses := m.tasks.map TaskRecord.status
      replyCounts := m.tasks.map fun r => r.replies.length
      readySeen := b.readySeen ++ ready })

/-- What is left of a dropped pool; the handles are used up. -/
def remains (b : Bench ν) (p : Nat) : Remains ν × Bench ν :=
  let own := b.plant.tasks.filter fun r => r.pool = p
  let joins := (own.filter TaskRecord.held).map fun r =>
    (r.name, (r.slot.takeIfReady).map Prod.fst)
  let tasks := b.plant.tasks.map fun r => if r.pool = p then { r with held := false } else r
  ({ tasks := own.map fun r => (r.name, r.status), joins },
    { b with plant := { b.plant with tasks }, gone := p :: b.gone })

/-- Performs an operation, lets everything settle and looks. -/
def step (b : Bench ν) (op : Op ν) : Answer ν × Bench ν :=
  let (reply, m) := act b.plant b.gone op
  let b := { b with plant := m.settle }
  match op, reply with
  | .drop p _, .nothing =>
    let (r, b) := b.remains p
    (.remains r, b)
  | .awaitExit p, .flag _ =>
    let (o, b) := b.observe (.flag (m.settle.deserted p))
    (.observed o, b)
  | _, reply =>
    let (o, b) := b.observe reply
    (.observed o, b)

/-- A settled plant with the given pools, and the first look at it. -/
def create (cells : Cells) (configs : List Config) : Except Failure (Observation ν × Bench ν) :=
  (Plant.build cells configs).map fun m => observe { plant := m.settle } .nothing

end Bench

end Workforce.Scenario.Pools
