import Workforce.Plant.Basic

/-
  Running a task on a worker, from its start to its end. A worker enters the context of the task,
  then one scope for each view that admitted it, and then its body. However the body ends, every
  frame is left in the opposite order: guarded calls settle their debts, the outcome is reported,
  scopes are put back, views are told and the context is left. A panic that carries an explosive
  payload out of the last frame takes the worker with it.
-/

namespace Workforce

variable {ν : Type}

/-- How control leaves a frame. -/
inductive Exit (ν : Type) where
  | returned (value : Option ν)
  | panicked (p : Payload)

namespace Plant

/-! ## Guarded calls -/

/-- Raises the limits of a compensator. -/
def raise (m : Plant ν) (c : Compensator) : Plant ν := m.withNetwork (m.network.raise c)

/-- Lowers the limits of a compensator. -/
def lower (m : Plant ν) (c : Compensator) : Plant ν := m.withNetwork (m.network.lower c)

/-- The deadline of a ticket passes. -/
def expire (m : Plant ν) (ticket : Nat) : Plant ν :=
  match m.tickets[ticket]? with
  | none => m
  | some (t, c) =>
    let m := { m with tickets := m.tickets.set ticket (t.expire.2, c) }
    if t.expire.1 then m.raise c else m

/-- A guarded call ends and pays what it owes. -/
def pay (m : Plant ν) (d : Debt) : Plant ν :=
  match d with
  | .nothing => m
  | .lower c => m.lower c
  | .ticket ticket entry =>
    match m.tickets[ticket]? with
    | none => m
    | some (t, c) =>
      let m := { m with tickets := m.tickets.set ticket (t.settle.2, c) }
      match t.settle.1, entry with
      | .lowerLimit, _ => m.lower c
      | .cancelTimer, some seq => { m with timer := (m.timer.cancel seq).2 }
      | .cancelTimer, none => m

/-- Arms a timer for a ticket, and answers the entry if there is one. -/
def arm (m : Plant ν) (timer : GuardTimer) (deadline : Duration) (ticket : Nat) :
    Option Nat × Plant ν :=
  match timer with
  | .manual => (none, { m with callbacks := m.callbacks ++ [some ticket] })
  | .real =>
    let (seq, t) := m.timer.schedule 0 deadline ticket
    (some seq, { m with timer := t })
  | .shared => (none, m)

/-- The beginning of a guarded call on a thread: what the call owes, or why it is refused. Unless
it is refused, the slot of the worker is emptied first. -/
def beginGuard (m : Plant ν) (a : Actor) (deadline : Duration) (timer : GuardTimer)
    (enabled : Bool) : Except Failure Debt × Plant ν :=
  let flushed : Plant ν :=
    match a.worker? with
    | some w => m.withNetwork (m.network.flush w)
    | none => m
  match Plan.choose enabled (m.thread a).scope deadline with
  | .refuse reason => (.error (Plan.refusal reason), m)
  | .plain => (.ok .nothing, flushed)
  | .upFront c => (.ok (.lower c), flushed.raise c)
  | .timed c =>
    let ticket := flushed.tickets.length
    let m := { flushed with tickets := flushed.tickets ++ [(Ticket.unresolved, c)] }
    let (entry, m) := m.arm timer deadline ticket
    (.ok (.ticket ticket entry), m)

/-! ## Frames -/

/-- Moves the notes of a thread to the plant. -/
def collectNotes (m : Plant ν) (a : Actor) : Plant ν :=
  let t := m.thread a
  { m with probes := m.probes ++ t.ambient.surface.notes }.setThread a
    { t with ambient := t.ambient.forgetNotes }

/-- Leaves a frame of a thread, and answers how control goes on. -/
def leaveFrame (m : Plant ν) (a : Actor) (f : Frame ν) (exit : Exit ν) : Exit ν × Plant ν :=
  match f with
  | .guard debt => (exit, m.pay debt)
  | .script .. => (exit, m)
  | .body t =>
    (exit, m.setStatus t (match exit with
      | .returned _ => .done
      | .panicked _ => .panicked))
  | .report t =>
    match exit with
    | .returned value => (.returned none, m.complete t (.ok value))
    | .panicked p =>
      match p.aftershock with
      | some q => (.panicked q, m.complete t (.error .disconnected))
      | none => (.returned none, m.complete t (.error (.taskPanicked p.message)))
  | .scope previous => (exit, m.onThread a fun t => { t with scope := previous })
  | .view v => (exit, m.withNetwork (m.network.release v))
  | .context c token =>
    let t := m.thread a
    match c.leave token t.ambient with
    | (panicked, ambient) =>
      let m := (m.setThread a { t with ambient }).collectNotes a
      (match panicked with
      | some p => .panicked p
      | none => exit, m)

/-- Leaves frames in order. -/
def leaveAll (m : Plant ν) (a : Actor) : List (Frame ν) → Exit ν → Exit ν × Plant ν
  | [], exit => (exit, m)
  | f :: fs, exit =>
    let (exit, m) := m.leaveFrame a f exit
    leaveAll m a fs exit

/-! ## Tasks on workers -/

/-- Puts the result of a worker section in place. A task left in the slot of a worker that is
gone is dropped. -/
def withTurn (m : Plant ν) (p : Nat)
    (r : Pool.Turn (Job (Task ν)) × Pool (Job (Task ν))) : Plant ν :=
  let m := { m with network := m.network.setPool p r.2 }
  match r.1 with
  | .leaves (some j) => m.discard j.task
  | _ => m

/-- The task of a worker has left its last frame. -/
def endRun (m : Plant ν) (w : WorkerId) (exit : Exit ν) : Plant ν :=
  match m.pool? w.pool, m.phase? w with
  | some p, some (.running j) =>
    let k := Kinded.kind j
    let fatal := match exit with
      | .panicked q => q.aftershock.isSome
      | .returned _ => false
    m.withTurn w.pool (if fatal then p.die w.worker k else p.finish w.worker k)
  | _, _ => m

/-- The frames and the scope of a task inside its views, the nearest to the pool first. -/
def enterViews : List View → Option TaskScope → List (Frame ν) →
    Option TaskScope × List (Frame ν)
  | [], scope, frames => (scope, frames)
  | v :: vs, scope, frames =>
    enterViews vs (some (v.scopeWithin scope)) (.scope scope :: .view v :: frames)

/-- The frames of a body on top of others. -/
def bodyFrames (t : Task ν) (frames : List (Frame ν)) : List (Frame ν) :=
  let frames := if t.reports then .report t.id :: frames else frames
  let frames := .body t.id :: frames
  match t.body with
  | some steps => .script t.id steps :: frames
  | none => frames

/-- A worker starts the task it has picked. If the context cannot be entered, the body is dropped
and the task has ended. -/
def startRun (m : Plant ν) (w : WorkerId) (j : Job (Task ν)) : Plant ν :=
  let a := Actor.worker w
  let t := m.thread a
  match j.task.context.enter t.ambient with
  | (.error p, ambient) =>
    let m := (m.setThread a { t with ambient }).collectNotes a
    (m.discard j.task).endRun w (.panicked p)
  | (.ok token, ambient) =>
    let (scope, frames) := enterViews j.views t.scope [.context j.task.context token]
    let m := m.setThread a { ambient, scope, stack := bodyFrames j.task frames }
    (m.collectNotes a).setStatus j.task.id .parked

/-- The body on a worker ends: all its frames are left. -/
def endBody (m : Plant ν) (w : WorkerId) (exit : Exit ν) : Plant ν :=
  let a := Actor.worker w
  let stack := (m.thread a).stack
  let (exit, m) := (m.setStack a []).leaveAll a stack exit
  m.endRun w exit

end Plant

end Workforce
