import Workforce.Plant.Settle

/-
  Closing pools of a plant, and dropping them. A close waits until the pool is at rest, or gives
  up after its timeout. A dropped pool is closed; its tasks are then finished one after the other.
  Views that nothing refers to any more are released together with the tasks that wait in them.
-/

namespace Workforce.Plant

variable {ν : Type}

/-! ## Closing -/

def beginClose (m : Plant ν) (p : Nat) : Plant ν :=
  { m with network := m.network.onPool p Pool.beginClose }

/-- A close gives up waiting. -/
def terminate (m : Plant ν) (p : Nat) : Option Pool.Outcome × Plant ν :=
  match m.pool? p with
  | none => (none, m)
  | some pool =>
    let (outcome, dropped, pool) := pool.terminate
    (some outcome, m.withNetwork ((m.network.setPool p pool).dropAll dropped))

/-- Closes a pool from the controlling thread. -/
def close (m : Plant ν) (p : Nat) (timeout : Duration) : Option Pool.Outcome × Plant ν :=
  let m := m.beginClose p
  match (m.pool? p).bind Pool.closeCheck with
  | some outcome => (some outcome, m)
  | none =>
    let m := if timeout.isZero then m else m.settle
    match (m.pool? p).bind Pool.closeCheck with
    | some outcome => (some outcome, m)
    | none => m.terminate p

/-- Closes a pool from a thread of its own. Short timeouts are waited for. -/
def closeApart (m : Plant ν) (p : Nat) (timeout : Duration) (name : String) : Plant ν :=
  let m := m.beginClose p
  match m.pool? p with
  | none => m
  | some pool =>
    let closer : Closer :=
      { name, pool := p, timeout, seen := pool.signals, outcome := pool.closeCheck }
    if closer.outcome.isNone ∧ timeout.toNanos < shortDeadline.toNanos then
      let (outcome, m) := m.close p timeout
      { m with closers := m.closers ++ [{ closer with outcome }] }
    else { m with closers := m.closers ++ [closer] }

/-- Hands out the outcome of a close, once. -/
def collectClose (m : Plant ν) (name : String) : Option Pool.Outcome × Plant ν :=
  match m.closers.findIdx? fun c => c.name = name && !c.taken && c.outcome.isSome with
  | none => (none, m)
  | some i =>
    ((m.closers[i]?).bind Closer.outcome,
      { m with closers := m.closers.modify i fun c => { c with taken := true } })

/-- All workers of a pool have left it. -/
def deserted (m : Plant ν) (p : Nat) : Bool := ((m.pool? p).map fun p => p.live == 0).getD true

/-! ## Dropping -/

/-- The worker that runs a task waiting for its steps. -/
def workerOf? (m : Plant ν) (t : Nat) : Option WorkerId :=
  m.workerIds.find? fun w =>
    match m.phase? w with
    | some (.running j) => j.task.id = t && !m.active w && (m.heldUp? w).isNone
    | _ => false

/-- The next task of a pool that waits for its steps, by its worker. -/
def parkedIn? (m : Plant ν) (p : Nat) : Option WorkerId :=
  (List.range m.tasks.length).findSome? fun t => (m.workerOf? t).filter fun w => w.pool = p

/-- Finishes at most `fuel` tasks of a pool, one after the other. -/
def finishAll (p : Nat) (value : ν) : (fuel : Nat) → Plant ν → Plant ν
  | 0, m => m
  | fuel + 1, m =>
    match m.parkedIn? p with
    | some w => finishAll p value fuel (m.endBody w (.returned (some value))).settle
    | none => m

/-- The views that the compensator of a ticket still kept somewhere refers to. -/
def heldByTickets (m : Plant ν) : List View :=
  let kept := m.callbacks.filterMap id ++ m.timer.queue.map Entry.callback
  kept.flatMap fun t =>
    match m.tickets[t]? with
    | some (_, c) => c.views.flatMap fun v => v.toDispatcher.views
    | none => []

/-- Whether a view has to stay, given the dispatchers of all views that stay for now. -/
def referredTo (m : Plant ν) (staying : List View) (v : View) : Bool :=
  m.heldByTickets.contains v ||
    staying.any (fun u => u.parent == v.toDispatcher ||
      ((m.network.gate? u.id).any fun g => g.queue.any fun j => j.views.contains v)) ||
    m.network.pools.any fun p =>
      (p.cpuQueue ++ p.blockingQueue).any fun j => j.views.contains v

/-- Keeps removing views that nothing refers to. -/
def staying (m : Plant ν) : (fuel : Nat) → List View → List View
  | 0, vs => vs
  | fuel + 1, vs => staying m fuel (vs.filter fun v => m.referredTo vs v)

/-- Releases the views of a list and drops the tasks that wait in them. -/
def releaseViews (m : Plant ν) (vs : List View) : Plant ν :=
  vs.foldl (fun m v =>
    match m.network.gate? v.id with
    | some g => m.withNetwork ((m.network.setGate v.id { g with queue := [] }).dropAll g.queue)
    | none => m) m

/-- Drops a pool: all dispatchers over it and all saved compensators go, the pool is closed, and
its tasks are finished with a value. -/
def dropPool (m : Plant ν) (p : Nat) (value : ν) : Plant ν :=
  let own (d : Option Dispatcher) : Bool := d.any fun d => d.poolId = p
  let views := (m.dispatchers.filter own).filterMap fun d => d.bind Dispatcher.view?
  let m := { m with
    dispatchers := m.dispatchers.map fun d => if own d then none else d
    saved := [] }
  let m := finishAll p value m.bound (m.beginClose p).settle
  let stay := m.staying views.length views
  m.releaseViews (views.filter fun v => !stay.contains v)

end Workforce.Plant
