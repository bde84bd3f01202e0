import Workforce.Plant.Unwind

/-
  Performing a step on a thread. Steps that end a body or begin and end guarded calls change the
  stack of the thread; all others act on the plant and answer at once.
-/

namespace Workforce.Plant

variable {ν : Type}

/-! ## Handing over tasks -/

/-- Hands a task with the given context to a dispatcher. -/
def submitTask (m : Plant ν) (a : Actor) (how : Launch) (d : Dispatcher) (kind : Kind)
    (id : String) (context : Context) (body : Option (List (Step ν))) (tail : Bool) :
    Reply ν × Plant ν :=
  let number := m.tasks.length
  let reports := how = .spawn
  let task : Task ν := { id := number, kind, context, reports, body }
  let record : TaskRecord ν := { name := id, pool := d.poolId }
  let m := { m with tasks := m.tasks ++ [record] }
  match m.network.submit a.worker? (tail && how == Launch.submit) d { task } with
  | (true, n) => (.accepted, (m.withNetwork n).onTask number fun r => { r with held := reports })
  | (false, n) => (.failed .poolClosed, (m.withNetwork n).setStatus number .rejected)

/-- Hands over a task while the calling thread is in a context, which the task inherits. The notes
that probes leave on the calling thread are not kept. -/
def submitWithin (m : Plant ν) (a : Actor) (c : Context)
    (submit : Plant ν → Reply ν × Plant ν) : Reply ν × Plant ν :=
  let t := m.thread a
  match c.enter t.ambient with
  | (.error p, ambient) =>
    (.panicked p, m.setThread a { t with ambient := ambient.forgetNotes })
  | (.ok token, ambient) =>
    let (reply, m) := submit (m.setThread a { t with ambient })
    let t := m.thread a
    match c.leave token t.ambient with
    | (panicked, ambient) =>
      let m := m.setThread a { t with ambient := ambient.forgetNotes }
      (match panicked with
      | some p => .panicked p
      | none => reply, m)

/-- Launches a task. -/
def launch (m : Plant ν) (a : Actor) (how : Launch) (on : Nat) (kind : Kind) (id : String)
    (elements : Option (List Element)) (body : Option (List (Step ν))) (tail : Bool) :
    Reply ν × Plant ν :=
  match m.dispatcher? on with
  | none => (.unknown "on", m)
  | some d =>
    if (m.taskNamed? id).isSome then (.unknown "duplicate id", m)
    else
      match elements with
      | none => m.submitTask a how d kind id (m.thread a).ambient.capture body tail
      | some es =>
        let c := Context.ofElements m.nextSerial es
        let m := { m with nextSerial := m.nextSerial + 1 }
        if how = .submit then m.submitTask a how d kind id c body tail
        else m.submitWithin a c fun m => m.submitTask a how d kind id c body tail

/-- Launches copies of a task. -/
def launchMany (m : Plant ν) (a : Actor) (how : Launch) (on : Nat) (kind : Kind) (stem : String)
    (elements : Option (List Element)) (body : Option (List (Step ν))) (tail : Bool) :
    List Nat → List (Reply ν) × Plant ν
  | [] => ([], m)
  | i :: is =>
    let (reply, m) := m.launch a how on kind (stem ++ toString i) elements body tail
    let (replies, m) := launchMany m a how on kind stem elements body tail is
    (reply :: replies, m)

/-! ## Dispatchers -/

/-- Adds a dispatcher that a step obtained. -/
def addDispatcher (m : Plant ν) (d : Dispatcher) : Reply ν × Plant ν :=
  let number := m.dispatchers.length
  let fresh := m.network.gates.length
  let m' := { m with dispatchers := m.dispatchers ++ [some d] }
  match d with
  | .pool .. => (.dispatcher number .pool, m')
  | .view id _ base _ =>
    if id = fresh then
      let g : Gate (Job (Task ν)) := { limit := base }
      (.dispatcher number .fresh,
        { m' with network := { m.network with gates := m.network.gates ++ [g] } })
    else
      let known := m.dispatchers.findIdx? fun x => x == some d
      (.dispatcher number ((known.map Identity.known).getD .fresh), m')

/-- Obtains a dispatcher from another one. -/
def addDerived (m : Plant ν) (on : Nat) (make : Nat → Dispatcher → Except Failure Dispatcher) :
    Reply ν × Plant ν :=
  match m.dispatcher? on with
  | none => (.unknown "on", m)
  | some d =>
    match make m.network.gates.length d with
    | .ok d => m.addDispatcher d
    | .error f => (.failed f, m)

/-- What a dispatcher tells about itself. -/
def describe (m : Plant ν) (d : Dispatcher) : DispatcherInfo :=
  let config := (m.pool? d.poolId).map Pool.config
  let view := match d with
    | .pool .. => none
    | .view id mode _ parent => (m.network.gate? id).map fun g =>
      { mode, limit := g.limit, running := g.running, queued := g.queue.length,
        parentParallelism := parent.parallelism m.network.limitOf : ViewInfo }
  { parallelism := d.parallelism m.network.limitOf
    closed := m.network.isClosed d
    exclusive := d.isExclusive
    core := (config.map Config.core).getD 0
    max := (config.map Config.max).getD 0
    view }

/-- The counters of a dispatcher. -/
def look (m : Plant ν) (d : Dispatcher) : Reply ν :=
  match d with
  | .pool p _ => .limit (((m.pool? p).map Pool.limit).getD 0)
  | .view id .. =>
    match m.network.gate? id with
    | some g => .gate g.limit g.running g.queue.length
    | none => .unknown "on"

/-! ## Compensation and handles -/

/-- The compensator a thread can reach, or the one saved under a name. -/
def compensator? (m : Plant ν) (a : Actor) (saved : Option String) : Option Compensator :=
  match saved with
  | some name => (m.saved.find? fun s => s.1 = name).map Prod.snd
  | none => Scope.compensator? (m.thread a).scope

/-- Does something to a compensator several times. -/
def compensate (m : Plant ν) (act : Plant ν → Compensator → Plant ν) (times : Nat)
    (c : Option Compensator) : Reply ν × Plant ν :=
  match c with
  | none => (.none, m)
  | some c => (.done, (List.range times).foldl (fun m _ => act m c) m)

/-- Fires a callback that waits to be fired by hand. -/
def fire (m : Plant ν) (k : Nat) : Reply ν × Plant ν :=
  match (m.callbacks[k]?).join with
  | none => (.gone, m)
  | some ticket => (.fired, { m with callbacks := m.callbacks.set k none }.expire ticket)

/-- Takes the outcome of a task whose handle is held. -/
def joinTask (m : Plant ν) (id : String) : Reply ν × Plant ν :=
  match (m.taskNamed? id).bind fun t => (m.tasks[t]?).map fun r => (t, r) with
  | none => (.noHandle, m)
  | some (t, r) =>
    if r.held then
      match r.slot.takeIfReady with
      | some (outcome, slot) =>
        (.joined outcome, m.onTask t fun r => { r with slot, held := false })
      | none => (.pending, m)
    else (.noHandle, m)

/-- Takes the outcomes of several tasks if all are there. -/
def joinTasks (m : Plant ν) (ids : List String) : Reply ν × Plant ν :=
  let found := ids.mapM fun id =>
    (m.tasks.find? fun r => r.name = id).filter fun r => r.held && r.slot.isReady
  match found with
  | none => (.pending, m)
  | some records =>
    let tasks := m.tasks.map fun r =>
      if ids.contains r.name then { r with slot := .consumed, held := false } else r
    (.joinedAll (Slot.collect (records.map TaskRecord.slot)), { m with tasks })

/-! ## Steps -/

/-- Performs a step that leaves the stack of the thread as it is. -/
def perform (m : Plant ν) (a : Actor) (s : Step ν) : Reply ν × Plant ν :=
  match s with
  | .launch how on kind id elements body tail => m.launch a how on kind id elements body tail
  | .many count (.launch how on kind stem elements body tail) =>
    let (replies, m) := m.launchMany a how on kind stem elements body tail (List.range count)
    (.several replies, m)
  | .many _ _ => (.unknown "many", m)
  | .narrow on n => m.addDerived on fun fresh d => d.narrow fresh n
  | .soft on n => m.addDerived on fun fresh d => Dispatcher.soft fresh d n
  | .exclusive on => m.addDerived on fun fresh d => .ok (.exclusive fresh d)
  | .info on =>
    match m.dispatcher? on with
    | some d => (.info (m.describe d), m)
    | none => (.unknown "on", m)
  | .peek on =>
    match m.dispatcher? on with
    | some d => (m.look d, m)
    | none => (.unknown "on", m)
  | .raise times saved => m.compensate raise times (m.compensator? a saved)
  | .lower times saved => m.compensate lower times (m.compensator? a saved)
  | .save name =>
    match m.compensator? a none with
    | some c => (.saved, { m with saved := (name, c) :: m.saved })
    | none => (.none, m)
  | .scope => (.scope ((m.thread a).scope.map Scope.render), m)
  | .context =>
    let ambient := (m.thread a).ambient
    (.context ambient.cells (ambient.current.map Context.keys), m)
  | .set cell value =>
    (.nothing, m.onThread a fun t => { t with ambient := t.ambient.setCell cell value })
  | .threadName =>
    let name := a.worker?.bind fun w => (m.pool? w.pool).bind fun p => p.config.workerName w.worker
    (.threadName name, m)
  | .log message => (.nothing, { m with events := m.events ++ [message] })
  | .fire k => m.fire k
  | .join id _ => m.joinTask id
  | .joinAll ids => m.joinTasks ids
  | .finish _ => (.unknown "finish", m)
  | .panic _ => (.unknown "panic", m)
  | .guard .. => (.unknown "guard", m)
  | .leave => (.unknown "leave", m)
  | .unknown name => (.unknown name, m)

/-- Puts a frame on the stack of a thread. -/
def push (m : Plant ν) (a : Actor) (f : Frame ν) : Plant ν :=
  m.setStack a (f :: (m.thread a).stack)

/-- A task that waits for its steps is given one. -/
def direct (m : Plant ν) (w : WorkerId) (s : Step ν) : Reply ν × Plant ν :=
  let a := Actor.worker w
  match s with
  | .finish value => (.nothing, m.endBody w (.returned (some value)))
  | .panic p => (.nothing, m.endBody w (.panicked p))
  | .guard deadline timer enabled _ =>
    match m.beginGuard a deadline timer enabled with
    | (.error f, m) => (.failed f, m)
    | (.ok debt, m) => (.entered, m.push a (.guard debt))
  | .leave =>
    match (m.thread a).stack with
    | .guard debt :: rest => (.left, (m.setStack a rest).pay debt)
    | _ => (.noGuard, m)
  | s => m.perform a s

/-- Notes the answer of a step of a scripted body. -/
def answered (m : Plant ν) (t : Nat) (reply : Reply ν) : Plant ν :=
  m.onTask t fun r => { r with replies := r.replies ++ [reply] }

/-- A scripted body goes on by one step. -/
def followScript (m : Plant ν) (w : WorkerId) : Plant ν :=
  let a := Actor.worker w
  match (m.thread a).stack with
  | .script t (s :: rest) :: below =>
    let m := m.setStack a (.script t rest :: below)
    match s with
    | .finish value => m.endBody w (.returned (some value))
    | .panic p => m.endBody w (.panicked p)
    | .guard deadline timer enabled body =>
      match m.beginGuard a deadline timer enabled with
      | (.error f, m) => m.answered t (.failed f)
      | (.ok debt, m) => (m.push a (.guard debt)).push a (.script t body)
    | s =>
      let (reply, m) := m.perform a s
      m.answered t reply
  | .script t [] :: .guard debt :: below =>
    ((m.setStack a below).pay debt).answered t .returned
  | _ => m.endBody w (.returned none)

end Workforce.Plant
