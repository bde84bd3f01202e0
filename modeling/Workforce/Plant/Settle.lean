import Workforce.Plant.Step

/-
  Settling: workers, closers and timers act one after the other until none of them has anything
  to do. A worker acts when it has just been spawned, was woken, has picked a task, or runs a
  scripted body that is not held up by a join. Then come closes that were notified, short
  deadlines, joins that give up, and workers whose short keep-alive time is over.
-/

namespace Workforce.Plant

variable {ν : Type}

/-! ## Workers -/

/-- How long the next step of a script is ready to wait, if it has to: it joins a task whose
outcome is not there yet. -/
def waits? (m : Plant ν) (s : Step ν) : Option Duration :=
  match s with
  | .join id patience =>
    if patience.isZero then none
    else (m.tasks.find? fun r => r.name = id && r.held && !r.slot.isReady).map fun _ => patience
  | _ => none

/-- The step that a worker is held up by, with the longest time that it waits. -/
def heldUp? (m : Plant ν) (w : WorkerId) : Option Duration :=
  match (m.thread (.worker w)).stack with
  | .script _ (s :: _) :: _ => m.waits? s
  | _ => none

/-- A worker has something to do. -/
def active (m : Plant ν) (w : WorkerId) : Bool :=
  match m.phase? w with
  | some .starting => true
  | some (.idle woken) => woken
  | some (.running _) =>
    match (m.thread (.worker w)).stack with
    | [] => true
    | .script .. :: _ => (m.heldUp? w).isNone
    | _ => false
  | _ => false

/-- All workers that were ever started. -/
def workerIds (m : Plant ν) : List WorkerId :=
  m.network.pools.zipIdx.flatMap fun (p, i) => (List.range p.spawned).map fun w => ⟨i, w⟩

/-- A worker does the next thing it has to do. -/
def advance (m : Plant ν) (w : WorkerId) : Plant ν :=
  match m.pool? w.pool, m.phase? w with
  | some p, some .starting => m.withTurn w.pool (p.begin w.worker)
  | some p, some (.idle _) => m.withTurn w.pool (p.resume w.worker false)
  | some _, some (.running j) =>
    if (m.thread (.worker w)).stack.isEmpty then m.startRun w j else m.followScript w
  | _, _ => m

/-! ## Closers -/

/-- A close that waits was notified. -/
def notified (m : Plant ν) (c : Closer) : Bool :=
  c.outcome.isNone && ((m.pool? c.pool).map fun p => p.signals != c.seen).getD false

/-- A close looks at its pool again. -/
def recheck (m : Plant ν) (c : Closer) : Closer :=
  match m.pool? c.pool with
  | some p => { c with seen := p.signals, outcome := c.outcome <|> p.closeCheck }
  | none => c

/-! ## Time -/

/-- Deadlines and keep-alive times below these are waited for. -/
def shortDeadline : Duration := ⟨1, 0⟩

def shortKeepAlive : Duration := .ofMillis 200

/-- The next entry of the timer thread with a short deadline is popped. -/
def popTimer? (m : Plant ν) : Option (Plant ν) :=
  match m.timer.pop (shortDeadline.toNanos - 1) with
  | none => none
  | some (e, t) =>
    let (starts, t) := t.fire e
    let m := { m with timer := t }
    some (if starts then m.expire e.callback else m)

/-- The keep-alive time of an idle worker is over, if that makes a difference. -/
def timeOut? (m : Plant ν) (w : WorkerId) : Option (Plant ν) :=
  match m.pool? w.pool, m.phase? w with
  | some p, some (.idle _) =>
    if p.config.keepAlive.toNanos ≤ shortKeepAlive.toNanos then
      match p.resume w.worker true with
      | (.rests, _) => none
      | r => some (m.withTurn w.pool r)
    else none
  | _, _ => none

/-- A worker that was held up gives up waiting, if it waits for a short time only. -/
def giveUp? (m : Plant ν) (w : WorkerId) : Option (Plant ν) :=
  match m.heldUp? w with
  | some patience =>
    if patience.toNanos < shortDeadline.toNanos then some (m.followScript w) else none
  | none => none

/-! ## The schedule -/

/-- The next thing that happens, if anything does. -/
def next? (m : Plant ν) : Option (Plant ν) :=
  match m.workerIds.find? m.active with
  | some w => some (m.advance w)
  | none =>
    if m.closers.any m.notified then some { m with closers := m.closers.map m.recheck }
    else
      match m.popTimer? with
      | some m => some m
      | none => m.workerIds.findSome? m.giveUp? <|> m.workerIds.findSome? m.timeOut?

/-- Lets at most `fuel` things happen. -/
def run : (fuel : Nat) → Plant ν → Plant ν
  | 0, m => m
  | fuel + 1, m =>
    match m.next? with
    | some m => run fuel m
    | none => m

/-! ## A bound on what can happen -/

mutual

/-- The number of things that a step can set in motion. -/
def Step.weight : Step ν → Nat
  | .launch _ _ _ _ _ (some body) _ => 8 + weights body
  | .many count task => count * Step.weight task + 1
  | .guard _ _ _ body => 8 + weights body
  | _ => 8

def weights : List (Step ν) → Nat
  | [] => 0
  | s :: ss => Step.weight s + weights ss

end

def Task.weight (t : Task ν) : Nat := 8 + weights (t.body.getD [])

def Frame.weight : Frame ν → Nat
  | .script _ rest => 8 + weights rest
  | _ => 8

/-- The total weight of the members of a list. -/
def weigh {α : Type} (weight : α → Nat) (xs : List α) : Nat :=
  xs.foldl (fun n x => n + weight x) 0

def jobsWeight (js : List (Job (Task ν))) : Nat := weigh (fun j => Task.weight j.task) js

def workerWeight (x : Worker (Job (Task ν))) : Nat :=
  8 + jobsWeight x.slot.toList +
    (match x.phase with
    | .running j => Task.weight j.task
    | _ => 0)

/-- Fuel for settling: each waiting task, worker, frame, timer entry and close may set several things
in motion. -/
def bound (m : Plant ν) : Nat :=
  let poolWeight (p : Pool (Job (Task ν))) : Nat :=
    jobsWeight p.cpuQueue + jobsWeight p.blockingQueue + weigh workerWeight p.workers
  8 * (weigh poolWeight m.network.pools +
    weigh (fun g => jobsWeight g.queue) m.network.gates +
    weigh (fun t => weigh Frame.weight t.2.stack) m.threads +
    m.timer.pending + m.closers.length + 8)

/-- Lets everything happen that can. -/
def settle (m : Plant ν) : Plant ν := m.run m.bound

end Workforce.Plant
