import Workforce.Network
import Workforce.Proofs.Pool.Sections

/-
  The traffic of a pool: the pool, the views over it, and the threads that hand tasks from one to
  the other, each in the middle of what it does. What a thread still has to do is a stack of
  chores. A chore is performed in one locked section of a pool or of a gate and leaves other
  chores behind, so the chores of different threads interleave in any order. Everything that
  happens to a task or to an admission is logged.

  Model. A call enters at a dispatcher, passes gates until it waits at one or reaches the pool,
  and gives back the admissions that it got if it is refused. A body runs until it is ended; then
  its views are released, the outermost first, and its worker goes on. Raises and lowerings of
  limits come at any time from anywhere. Acts that cannot take place change nothing, so every list
  of acts is a run.

  Not here: the frames of a thread apart from its admissions, and timers. A guarded call is a
  flush with raises and lowerings. The pool and its views are held by somebody all the time; what
  becomes of tasks when the last holder lets go is in `Estate`.
-/

namespace Workforce

/-- Why an accepted task was dropped without having run. -/
inductive Cause where
  /-- It was in the slot of a worker that died. -/
  | died
  /-- It was displaced from a slot, and the pool closed before it was queued. -/
  | cut
  /-- The pool was terminated by force. -/
  | forced
  /-- The pool or the view where it waited was freed. -/
  | freed
  deriving Repr, DecidableEq

/-- What is logged. -/
inductive Event (τ : Type) where
  /-- A task is submitted, with the views on its way to the pool. -/
  | called (t : τ) (route : List View)
  /-- The submission of a task returns without an error. -/
  | accepted (t : τ)
  /-- A task is dropped, and its submission returns an error. -/
  | refused (j : Job τ)
  /-- The submission of a task returns an error although the task is kept. -/
  | misled (t : τ)
  | started (t : τ)
  /-- A task that was started has ended, with this outcome for its handle. -/
  | ended (t : τ) (outcome : Except Failure Unit)
  /-- A task that was submitted before is dropped without having run. -/
  | dropped (cause : Cause) (j : Job τ)
  | admitted (v : View)
  | released (v : View)
  /-- The holder of an admission is gone and will not give it back. -/
  | stranded (v : View)
  /-- An admission whose task is kept will be given back as if it were refused. -/
  | overdrawn (v : View)

/-- What a thread still has to do. -/
inductive Chore (τ : Type) where
  /-- A job arrives at a dispatcher as part of a submission, which may ask for the slot of the
  worker that submits. -/
  | submit (d : Dispatcher) (j : Job τ) (slot : Option Nat)
  /-- A job displaced from a slot by a submission has to be queued. -/
  | requeue (displaced submitted : Job τ)
  /-- A job that a view accepted earlier arrives at a dispatcher. The nearest `passed` of its
  views admitted it since. -/
  | forward (d : Dispatcher) (j : Job τ) (passed : Nat)
  /-- A view looks for a waiting task that it can admit. -/
  | next (v : View)
  /-- An admission is given back. -/
  | release (v : View)
  | raise (v : View)
  | lower (v : View)
  | raiseWorker (w : Nat)
  | lowerWorker (w : Nat)
  | flush (w : Nat)
  /-- A worker runs the body of a job. -/
  | body (w : Nat) (j : Job τ)
  /-- A worker is done with its task, or dies of it. -/
  | finish (w : Nat) (outcome : Except Failure Unit) (fatal : Bool)

/-- The state after a chore: the pool, the gates, what the thread has to do instead, and what
there is to log. -/
structure Deed (τ : Type) where
  pool : Pool (Job τ)
  gates : List (Gate (Job τ))
  todo : List (Chore τ) := []
  events : List (Event τ) := []

/-- A pool, the views over it by number, and the threads that act on them. -/
structure Traffic (τ : Type) where
  pool : Pool (Job τ)
  views : List View := []
  gates : List (Gate (Job τ)) := []
  threads : List (List (Chore τ)) := []
  /-- What has happened, oldest first. -/
  log : List (Event τ) := []

/-- A job gone without its views being told. -/
def Job.lost {τ : Type} (j : Job τ) (cause : Cause) : List (Event τ) :=
  .dropped cause j :: j.views.map .stranded

namespace Traffic

variable {τ : Type} [Kinded τ]

/-! ## Gates -/

/-- Changes the gate of a view and admits a waiting task if there is place for one then. -/
def settle (s : Traffic τ) (v : View) (change : Gate (Job τ) → Gate (Job τ)) : Deed τ :=
  match s.gates[v.id]? with
  | none => { pool := s.pool, gates := s.gates }
  | some g =>
    match (change g).admitNext with
    | none => { pool := s.pool, gates := s.gates.set v.id (change g) }
    | some (j, g) =>
      { pool := s.pool, gates := s.gates.set v.id g
        todo := [.forward v.parent (j.admittedBy v) 1], events := [.admitted v] }

/-! ## Submissions -/

/-- A submission is refused: its job is dropped and its views get their admissions back. -/
def refuse (s : Traffic τ) (j : Job τ) : Deed τ :=
  { pool := s.pool, gates := s.gates, todo := j.views.map .release, events := [.refused j] }

/-- A submission reaches the queues of the pool. -/
def arrive (s : Traffic τ) (j : Job τ) : Deed τ :=
  match s.pool.accept j with
  | some p => { pool := p, gates := s.gates, events := [.accepted j.task] }
  | none => s.refuse j

/-- A submission asks for the slot of a worker. -/
def arriveAt (s : Traffic τ) (j : Job τ) (w : Nat) : Deed τ :=
  match s.pool.place w j with
  | (.refused, _) => s.refuse j
  | (.placed, p) => { pool := p, gates := s.gates, events := [.accepted j.task] }
  | (.left displaced, p) => { pool := p, gates := s.gates, todo := [.requeue displaced j] }

/-- A chore is left as it is. -/
def idle (s : Traffic τ) (c : Chore τ) : Deed τ := { pool := s.pool, gates := s.gates, todo := [c] }

/-- A submission arrives at a dispatcher. -/
def submit (s : Traffic τ) (j : Job τ) (slot : Option Nat) : Dispatcher → Deed τ
  | .pool id core =>
    match slot with
    | none => s.arrive j
    | some w =>
      if (s.pool.taskOf? w).isSome then s.arriveAt j w else s.idle (.submit (.pool id core) j slot)
  | .view id mode base parent =>
    match s.gates[id]? with
    | none => s.idle (.submit (.view id mode base parent) j slot)
    | some g =>
      match g.offer s.pool.closed j with
      | (.admitted, g) =>
        { pool := s.pool, gates := s.gates.set id g
          todo := [.submit parent (j.admittedBy ⟨id, mode, base, parent⟩) slot]
          events := [.admitted ⟨id, mode, base, parent⟩] }
      | (.queued, g) =>
        { pool := s.pool, gates := s.gates.set id g, events := [.accepted j.task] }
      | (.refused, _) => s.refuse j

/-- A displaced job is queued. If it is not, the submission that displaced it is answered as if it
were refused itself. -/
def requeue (s : Traffic τ) (displaced submitted : Job τ) : Deed τ :=
  match s.pool.accept displaced with
  | some p => { pool := p, gates := s.gates, events := [.accepted submitted.task] }
  | none =>
    { pool := s.pool, gates := s.gates, todo := submitted.views.map .release
      events := .misled submitted.task :: displaced.lost .cut ++
        submitted.views.map .overdrawn }

/-! ## Forwarding -/

/-- A job handed on was taken: the view that admitted it first looks for the next one. -/
def taken (j : Job τ) (passed : Nat) (p : Pool (Job τ))
    (gates : List (Gate (Job τ))) : Deed τ :=
  { pool := p, gates, todo := (j.views[passed - 1]?).toList.map .next }

/-- A job handed on was not taken. The views that admitted it on the way get their admissions
back; those that admitted it before are not told. -/
def discard (s : Traffic τ) (j : Job τ) (passed : Nat) : Deed τ :=
  { pool := s.pool, gates := s.gates, todo := (j.views.take passed).map .release
    events := .dropped .forced j :: (j.views.drop passed).map .stranded }

/-- A job that a view accepted earlier arrives at a dispatcher. -/
def forward (s : Traffic τ) (j : Job τ) (passed : Nat) : Dispatcher → Deed τ
  | .pool .. =>
    match s.pool.submitAccepted j with
    | some p => taken j passed p s.gates
    | none => s.discard j passed
  | .view id mode base parent =>
    match s.gates[id]? with
    | none => s.idle (.forward (.view id mode base parent) j passed)
    | some g =>
      match g.offer false j with
      | (.admitted, g) =>
        { pool := s.pool, gates := s.gates.set id g
          todo := [.forward parent (j.admittedBy ⟨id, mode, base, parent⟩) (passed + 1)]
          events := [.admitted ⟨id, mode, base, parent⟩] }
      | (.queued, g) => taken j passed s.pool (s.gates.set id g)
      | (.refused, _) => s.discard j passed

/-! ## Workers -/

/-- What a worker does next. -/
def turnChores (w : Nat) : Pool.Turn (Job τ) → List (Chore τ)
  | .runs j => [.body w j]
  | _ => []

/-- What a turn of a worker did to tasks. -/
def turnEvents (cause : Cause) : Pool.Turn (Job τ) → List (Event τ)
  | .runs j => [.started j.task]
  | .leaves (some j) => j.lost cause
  | _ => []

/-- A worker ends its task. -/
def finish (s : Traffic τ) (w : Nat) (outcome : Except Failure Unit) (fatal : Bool) : Deed τ :=
  match s.pool.taskOf? w with
  | none => { pool := s.pool, gates := s.gates }
  | some j =>
    if fatal then
      let r := s.pool.die w (Kinded.kind j)
      { pool := r.2, gates := s.gates, todo := turnChores w r.1
        events := .ended j.task outcome :: turnEvents .died r.1 }
    else
      let r := s.pool.finish w (Kinded.kind j)
      { pool := r.2, gates := s.gates, todo := turnChores w r.1
        events := .ended j.task outcome :: turnEvents .forced r.1 }

/-! ## Chores -/

/-- Performs a chore. A body goes on until it is ended, and a chore at a gate or a worker that is
not there stays. -/
def perform (s : Traffic τ) : Chore τ → Deed τ
  | .submit d j slot => s.submit j slot d
  | .requeue displaced submitted => s.requeue displaced submitted
  | .forward d j passed => s.forward j passed d
  | .next v => s.settle v id
  | .release v =>
    let d := s.settle v Gate.release
    { d with events := .released v :: d.events }
  | .raise v => s.settle v Gate.raise
  | .lower v => { pool := s.pool, gates := s.gates.modify v.id Gate.lower }
  | .raiseWorker w => { pool := s.pool.raise w, gates := s.gates }
  | .lowerWorker w => { pool := s.pool.lower w, gates := s.gates }
  | .flush w =>
    { pool := if (s.pool.taskOf? w).isSome then s.pool.flush w else s.pool, gates := s.gates }
  | .body w j => s.idle (.body w j)
  | .finish w outcome fatal => s.finish w outcome fatal

/-! ## Acts -/

/-- What can happen. Threads, views and workers are given by number; a dispatcher is the view with
a number, or the pool. -/
inductive Act (τ : Type) where
  /-- A view over a dispatcher is made. -/
  | build (d : Option Nat) (mode : Mode) (limit : Nat)
  /-- A thread outside of the pool submits a task. -/
  | call (d : Option Nat) (t : τ)
  /-- A body submits a task. -/
  | callFrom (i : Nat) (d : Option Nat) (t : τ) (tail : Bool)
  /-- A body begins a guarded call. -/
  | flush (i : Nat)
  /-- The limits of a worker and of some views are raised. -/
  | raise (w : Option Nat) (vs : List Nat)
  | lower (w : Option Nat) (vs : List Nat)
  /-- A body ends, or is dropped because its context cannot be entered. -/
  | endBody (i : Nat) (entered : Bool) (outcome : Except Failure Unit) (fatal : Bool)
  | begin (w : Nat)
  | resume (w : Nat) (timedOut : Bool)
  /-- A thread performs its next chore. -/
  | go (i : Nat)
  /-- The pool is closed, by a call or because its last handle is dropped. -/
  | close
  /-- A close that has waited long enough gives up. -/
  | terminate

/-- The dispatcher with a number. -/
def dispatcher? (s : Traffic τ) : Option Nat → Option Dispatcher
  | none => some (.pool 0 s.pool.config.core)
  | some v => (s.views[v]?).map View.toDispatcher

/-- The chores of a raise: the pool first, then the views in order. -/
def raises (s : Traffic τ) (w : Option Nat) (vs : List Nat) : List (Chore τ) :=
  w.toList.map .raiseWorker ++ (vs.filterMap fun v => s.views[v]?).map .raise

/-- The chores of a lowering, which goes the other way round. -/
def lowers (s : Traffic τ) (w : Option Nat) (vs : List Nat) : List (Chore τ) :=
  (vs.filterMap fun v => s.views[v]?).reverse.map .lower ++ w.toList.map .lowerWorker

/-- Adds the view that a dispatcher is. -/
def addView (s : Traffic τ) (d : Dispatcher) : Traffic τ :=
  match d.view? with
  | some v => { s with views := s.views ++ [v], gates := s.gates ++ [{ limit := v.base }] }
  | none => s

/-- Lets something happen, if it can. -/
def step (s : Traffic τ) : Act τ → Traffic τ
  | .build d mode limit =>
    match s.dispatcher? d, mode with
    | some parent, .soft =>
      match Dispatcher.soft s.gates.length parent limit with
      | .ok d => s.addView d
      | .error _ => s
    | some parent, .exclusive => s.addView (.exclusive s.gates.length parent)
    | none, _ => s
  | .call d t =>
    match s.dispatcher? d with
    | some d => { s with
        threads := s.threads ++ [[.submit d { task := t } none]]
        log := s.log ++ [.called t d.views] }
    | none => s
  | .callFrom i d t tail =>
    match s.threads[i]?, s.dispatcher? d with
    | some (.body w j :: rest), some d => { s with
        threads := s.threads.set i
          (.submit d { task := t } (if tail then some w else none) :: .body w j :: rest)
        log := s.log ++ [.called t d.views] }
    | _, _ => s
  | .flush i =>
    match s.threads[i]? with
    | some (.body w j :: rest) =>
      { s with threads := s.threads.set i (.flush w :: .body w j :: rest) }
    | _ => s
  | .raise w vs => { s with threads := s.threads ++ [s.raises w vs] }
  | .lower w vs => { s with threads := s.threads ++ [s.lowers w vs] }
  | .endBody i entered outcome fatal =>
    match s.threads[i]? with
    | some (.body w j :: rest) =>
      if entered then { s with
        threads := s.threads.set i
          (j.views.reverse.map .release ++ .finish w outcome fatal :: rest) }
      else { s with
        threads := s.threads.set i (.finish w (.error .disconnected) fatal :: rest)
        log := s.log ++ j.views.map .stranded }
    | _ => s
  | .begin w =>
    match s.pool.phaseOf? w with
    | some .starting =>
      let r := s.pool.begin w
      { s with
        pool := r.2, threads := s.threads ++ [turnChores w r.1]
        log := s.log ++ turnEvents .forced r.1 }
    | _ => s
  | .resume w timedOut =>
    match s.pool.phaseOf? w with
    | some (.idle _) =>
      let r := s.pool.resume w timedOut
      { s with
        pool := r.2, threads := s.threads ++ [turnChores w r.1]
        log := s.log ++ turnEvents .forced r.1 }
    | _ => s
  | .go i =>
    match s.threads[i]? with
    | some (c :: rest) =>
      let d := s.perform c
      { s with
        pool := d.pool, gates := d.gates, threads := s.threads.set i (d.todo ++ rest)
        log := s.log ++ d.events }
    | _ => s
  | .close => { s with pool := s.pool.beginClose }
  | .terminate =>
    if s.pool.closed = true ∧ s.pool.atRest = false then { s with
      pool := s.pool.terminate.2.2
      log := s.log ++ s.pool.terminate.2.1.flatMap fun j => j.lost .forced }
    else s

/-- Lets things happen in order. -/
def run (s : Traffic τ) (as : List (Act τ)) : Traffic τ := as.foldl step s

/-- A new pool without views. -/
def start (c : Config) : Traffic τ := { pool := Pool.ofConfig c }

theorem run_append (s : Traffic τ) (as bs : List (Act τ)) :
    s.run (as ++ bs) = (s.run as).run bs :=
  List.foldl_append

theorem run_concat (s : Traffic τ) (as : List (Act τ)) (a : Act τ) :
    s.run (as ++ [a]) = (s.run as).step a :=
  run_append s as [a]

end Traffic

end Workforce
