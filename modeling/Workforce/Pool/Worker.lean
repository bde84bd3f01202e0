import Workforce.Pool.Submission

/-
  The scheduling loop of a worker, cut into its locked sections. A section begins when a worker
  starts, wakes or ends a task, and it ends with the worker running a task, idle or gone. A worker
  prefers the task in its slot, then processor-bound tasks within the limit, then blocking ones.
-/

namespace Workforce.Pool

variable {τ : Type} [Kinded τ]

/-! ## Picking -/

/-- The next task of a worker whose slot held `slot`. A processor-bound task from the slot that
is not admissible joins its queue. -/
def pick (p : Pool τ) (slot : Option τ) : Option τ × Pool τ :=
  let fromQueues (p : Pool τ) : Option τ × Pool τ :=
    match p.admitsCpu, p.cpuQueue, p.blockingQueue with
    | true, t :: rest, _ => (some t, { p with cpuQueue := rest })
    | _, _, t :: rest => (some t, { p with blockingQueue := rest })
    | _, _, [] => (none, p)
  match slot with
  | none => fromQueues p
  | some t =>
    if Kinded.kind t = .blocking ∨ p.admitsCpu = true then (some t, p)
    else fromQueues (p.enqueue t)

/-- Counts a task as running. -/
def countStart (p : Pool τ) (k : Kind) : Pool τ :=
  match k with
  | .cpu => { p with runningCpu := p.runningCpu + 1 }
  | .blocking => { p with runningBlocking := p.runningBlocking + 1 }

/-- Counts a task as finished. -/
def countEnd (p : Pool τ) (k : Kind) : Pool τ :=
  let p := { p with completed := p.completed + 1 }
  let p := match k with
    | .cpu => { p with runningCpu := p.runningCpu - 1 }
    | .blocking => { p with runningBlocking := p.runningBlocking - 1 }
  if p.closed then p.signal else p

/-! ## The end of a section -/

/-- How a section left its worker. -/
inductive Turn (τ : Type) where
  | runs (task : τ)
  | rests
  /-- The worker left the pool; a task in its slot was dropped. -/
  | leaves (dropped : Option τ)

/-- A worker leaves the pool, and what is in its slot is dropped. -/
def leave (p : Pool τ) (w : Nat) : Turn τ × Pool τ :=
  let dropped := (p.worker? w).bind Worker.slot
  (.leaves dropped,
    ({ p with live := p.live - 1 }.modifyWorker w fun x =>
      { x with phase := .gone, slot := none }).signal)

/-- The common part of all sections: a free worker looks for a task. -/
def schedule (p : Pool τ) (w : Nat) : Turn τ × Pool τ :=
  if p.abandoned then p.leave w
  else
    let slot := (p.worker? w).bind Worker.slot
    match (p.modifyWorker w fun x => { x with slot := none }).pick slot with
    | (some t, p) =>
      (.runs t, (p.countStart (Kinded.kind t)).setPhase w (.running t))
    | (none, p) =>
      if p.closed ∧ p.queued = 0 then p.leave w
      else (.rests, { p with idle := p.idle + 1 }.setPhase w (.idle false))

/-! ## Sections -/

/-- A spawned worker reaches the pool. -/
def begin (p : Pool τ) (w : Nat) : Turn τ × Pool τ :=
  { p with starting := p.starting - 1 }.schedule w

/-- An idle worker wakes, notified or not, or after its keep-alive time has passed. In the latter
case it leaves if nothing is runnable and the pool is above its core size. -/
def resume (p : Pool τ) (w : Nat) (timedOut : Bool) : Turn τ × Pool τ :=
  let p := { p with idle := p.idle - 1 }
  if timedOut ∧ p.runnable = 0 ∧ p.config.core < p.live then p.leave w else p.schedule w

/-- A worker ends a task of the given kind. -/
def finish (p : Pool τ) (w : Nat) (k : Kind) : Turn τ × Pool τ :=
  (p.countEnd k).schedule w

/-- A worker dies while it runs a task of the given kind. A new worker replaces it if the pool is
open and below its core size. -/
def die (p : Pool τ) (w : Nat) (k : Kind) : Turn τ × Pool τ :=
  let (turn, p) := (p.countEnd k).leave w
  (turn, if p.closed = false ∧ p.live < p.config.core then p.spawnWorker else p)

end Workforce.Pool
