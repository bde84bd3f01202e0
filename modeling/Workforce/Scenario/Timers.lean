import Workforce.Payload
import Workforce.Timer

/-
  Scenarios about a timer thread. Callbacks leave notes; some panic, schedule a further entry or
  hold up the thread until they are released. Time passes only while the observer sleeps or
  waits. A callback that panics with an explosive payload takes the timer thread down.
-/

namespace Workforce.Scenario.Timers

/-- What a callback does besides leaving its note. -/
inductive Deed where
  | note
  /-- Notes the name of the thread as well. -/
  | nameThread
  | panic (p : Payload)
  /-- Schedules a further entry first. -/
  | chain (id : String) (delay : Duration) (next : Deed)
  /-- Holds up the thread. -/
  | block
  deriving Repr, Nonempty

/-- A callback with the name of its entry. -/
structure Callback where
  id : String
  deed : Deed
  deriving Repr

/-- The operations. -/
inductive Op where
  | add (id : String) (delay : Duration) (deed : Deed)
  | detached (id : String)
  | cancel (id : String)
  | state (id : String)
  | pending
  | waitPending (n : Nat)
  | release
  | sleep (delay : Duration)
  | wait (ids : List String)
  | log
  | stop

/-- The answers. -/
inductive Answer where
  | nothing
  | stopped
  | flag (value : Bool)
  | count (n : Nat)
  | state (s : EntryState)
  | notes (texts : List String)
  deriving Repr

/-- What the timer thread is doing. -/
inductive Doing where
  | waiting | heldUp | dead
  deriving Repr, DecidableEq

/-- The timer, its thread and the notes. -/
structure Bench where
  threadName : Option String
  timer : Timer Callback := {}
  doing : Doing := .waiting
  now : Instant := 0
  /-- The entries by name; detached handles have no entry. -/
  handles : List (String × Option Nat) := []
  /-- All names noted so far. -/
  noted : List String := []
  /-- The notes not yet read, oldest first. -/
  unread : List String := []

namespace Bench

def defaultThreadName : String := "tidepool-timer"

/-- A timer whose thread has the given name, or no name if that is empty. -/
def ofName (name : String) : Bench :=
  { threadName := if name.isEmpty then none else some name }

def note (b : Bench) (id text : String) : Bench :=
  { b with noted := b.noted ++ [id], unread := b.unread ++ [text] }

def schedule (b : Bench) (id : String) (delay : Duration) (deed : Deed) : Bench :=
  let (seq, t) := b.timer.schedule b.now delay ⟨id, deed⟩
  { b with timer := t, handles := b.handles ++ [(id, some seq)] }

/-- Runs a callback on the timer thread. -/
def runCallback (b : Bench) (c : Callback) : Bench :=
  match c.deed with
  | .note => b.note c.id c.id
  | .nameThread => b.note c.id (c.id ++ " on " ++ b.threadName.getD "-")
  | .panic p =>
    let b := b.note c.id c.id
    if p.aftershock.isSome then { b with doing := .dead } else b
  | .chain id delay next => (b.schedule id delay next).note c.id c.id
  | .block => { b.note c.id c.id with doing := .heldUp }

/-- A bound on the entries that the queue can still bring forth. -/
def Deed.weight : Deed → Nat
  | .chain _ _ next => 1 + weight next
  | _ => 1

/-- A bound on the entries that the thread can still pop. -/
def work (b : Bench) : Nat :=
  b.timer.queue.foldl (fun n e => n + Deed.weight e.callback.deed) 0

/-- Runs what is due by the given time, as long as the thread is free. -/
def runDue : (fuel : Nat) → (horizon : Instant) → Bench → Bench
  | 0, _, b => b
  | fuel + 1, horizon, b =>
    if b.doing ≠ .waiting then { b with now := Nat.max b.now horizon }
    else
      match b.timer.pop horizon with
      | none => { b with now := Nat.max b.now horizon }
      | some (e, t) =>
        let (starts, t) := t.fire e
        let b := { b with timer := t, now := Nat.max b.now e.due }
        runDue fuel horizon (if starts then b.runCallback e.callback else b)

/-- Lets time pass up to the given point. -/
def advance (b : Bench) (horizon : Instant) : Bench := b.runDue (b.work + 1) horizon

/-- The longest that an observer waits. -/
def patience : Duration := ⟨5, 0⟩

/-- Lets time pass from one due entry to the next until a condition holds. -/
def advanceUntil (goal : Bench → Bool) (limit : Instant) : (fuel : Nat) → Bench → Bench
  | 0, b => b
  | fuel + 1, b =>
    if goal b then b
    else
      match b.timer.nextDue with
      | some due =>
        if due ≤ limit ∧ b.doing = .waiting then
          advanceUntil goal limit fuel (b.runDue 1 due)
        else b.advance limit
      | none => b.advance limit

/-- Waits for a condition, and answers whether it came about. -/
def waitFor (b : Bench) (goal : Bench → Bool) : Bool × Bench :=
  let b := advanceUntil goal (b.now + patience.toNanos) (b.work + 1) b
  (goal b, b)

def handle? (b : Bench) (id : String) : Option (Option Nat) :=
  (b.handles.find? fun h => h.1 = id).map Prod.snd

/-- Performs one operation; what is due then runs at once. -/
def perform (b : Bench) : Op → Answer × Bench
  | .add id delay deed =>
    if b.timer.stopped then (.stopped, b)
    else
      let b := (b.schedule id delay deed).advance b.now
      match deed with
      | .block =>
        let (started, b) := b.waitFor fun b => b.noted.contains id
        (.flag started, b)
      | _ => (.nothing, b)
  | .detached id => (.nothing, { b with handles := b.handles ++ [(id, none)] })
  | .cancel id =>
    match b.handle? id with
    | none => (.nothing, b)
    | some none => (.flag false, b)
    | some (some seq) =>
      let (done, t) := b.timer.cancel seq
      (.flag done, { b with timer := t })
  | .state id =>
    match b.handle? id with
    | none => (.nothing, b)
    | some none => (.state .fired, b)
    | some (some seq) => (.state (b.timer.stateOf seq), b)
  | .pending => (if b.timer.stopped then .nothing else .count b.timer.pending, b)
  | .waitPending n =>
    let (met, b) := b.waitFor fun b => b.timer.pending == n
    (.flag met, b)
  | .release =>
    let b := if b.doing = .heldUp then { b with doing := .waiting } else b
    (.nothing, b.advance b.now)
  | .sleep delay => (.nothing, b.advance (b.now + delay.toNanos))
  | .wait ids =>
    let (met, b) := b.waitFor fun b => ids.all b.noted.contains
    (.flag met, b)
  | .log => (.notes b.unread, { b with unread := [] })
  | .stop => (.nothing, { b with timer := b.timer.stop })

end Bench

end Workforce.Scenario.Timers
