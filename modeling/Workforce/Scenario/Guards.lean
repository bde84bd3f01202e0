import Workforce.Guard
import Workforce.Payload
import Workforce.Timer

/-
  Scenarios about guarded calls on one thread. Compensators only count, and may panic after
  counting. Timers differ in what they do with a callback: keep it until it is fired by hand, run
  it at once, lose it, or run it when it is due. Guarded calls nest, and a panic in one operation
  ends that operation alone.
-/

namespace Workforce.Scenario.Guards

/-- How a counting compensator behaves. -/
inductive Temper where
  | steady | failsToRaise | failsToLower
  deriving Repr, DecidableEq

/-- A counting compensator. -/
structure Counter where
  temper : Temper
  level : Int := 0
  raises : Nat := 0
  lowers : Nat := 0
  deriving Repr, DecidableEq

namespace Counter

def raise (c : Counter) : Option Payload × Counter :=
  (if c.temper = .failsToRaise then some (.text "increase failed") else none,
    { c with level := c.level + 1, raises := c.raises + 1 })

def lower (c : Counter) : Option Payload × Counter :=
  (if c.temper = .failsToLower then some (.text "decrease failed") else none,
    { c with level := c.level - 1, lowers := c.lowers + 1 })

end Counter

/-- A compensator: one of the counters, or one that does nothing. -/
inductive Compensator where
  | counter (n : Nat)
  | idle
  deriving Repr, DecidableEq

abbrev ThreadScope := Option (Scope Compensator)

/-- A scope as an operation names it. -/
inductive ScopeChoice where
  | current
  | given (scope : ThreadScope)
  deriving Repr, DecidableEq

/-- The timers. -/
inductive TimerChoice where
  | manual | eager | lossy
  /-- A timer thread of its own. -/
  | real
  /-- The timer thread that all pools share, which nobody waits for. -/
  | shared
  deriving Repr, DecidableEq

/-- The operations. -/
inductive Op where
  | enter (scope : ScopeChoice)
  | leave (guard : Nat)
  | scope
  | raise
  | lower
  | run (scope : ScopeChoice) (enabled : Bool) (timer : TimerChoice) (deadline : Duration)
      (body : List Op) (panicked : Option Payload)
  | fire (callback : Nat)
  | wait
  | pending
  | armed
  | panic (p : Payload)
  /-- Does nothing; there is no operation of this name. -/
  | unknown (name : String)
  deriving Nonempty

/-- The answers. -/
inductive Answer where
  | guard (number : Nat)
  | left
  | gone
  | done
  | none
  | fired
  | scope (shown : Option String) (compensator : Bool)
  | flag (value : Bool)
  | count (n : Nat)
  | armed (manual eager lossy : List Duration)
  | ran (steps : List (Answer × List Counter))
  | failed (f : Failure)
  | panicked (p : Payload)
  | unknown (name : String)

/-- The state of the thread, the compensators and the timers. -/
structure Bench where
  counters : List Counter
  scope : ThreadScope := none
  /-- What each scope guard puts back; none once it has. -/
  guards : List (Option ThreadScope) := []
  /-- The tickets of all timed calls, with their compensators. -/
  tickets : List (Ticket × Compensator) := []
  /-- The tickets of the callbacks that wait to be fired by hand; none once fired. -/
  callbacks : List (Option Nat) := []
  armedManual : List Duration := []
  armedEager : List Duration := []
  armedLossy : List Duration := []
  timer : Timer Nat := {}
  now : Instant := 0

namespace Bench

def updateCounter (b : Bench) (n : Nat) (f : Counter → Option Payload × Counter) :
    Option Payload × Bench :=
  match b.counters[n]? with
  | none => (none, b)
  | some c => ((f c).1, { b with counters := b.counters.set n (f c).2 })

def raise (b : Bench) : Compensator → Option Payload × Bench
  | .counter n => b.updateCounter n Counter.raise
  | .idle => (none, b)

def lower (b : Bench) : Compensator → Option Payload × Bench
  | .counter n => b.updateCounter n Counter.lower
  | .idle => (none, b)

def choose (b : Bench) : ScopeChoice → ThreadScope
  | .current => b.scope
  | .given s => s

/-- The deadline of a ticket passes. -/
def expire (b : Bench) (ticket : Nat) : Option Payload × Bench :=
  match b.tickets[ticket]? with
  | none => (none, b)
  | some (t, c) =>
    let b := { b with tickets := b.tickets.set ticket (t.expire.2, c) }
    if t.expire.1 then b.raise c else (none, b)

/-- The call of a ticket ends. -/
def settle (b : Bench) (ticket : Nat) (entry : Option Nat) : Option Payload × Bench :=
  match b.tickets[ticket]? with
  | none => (none, b)
  | some (t, c) =>
    let b := { b with tickets := b.tickets.set ticket (t.settle.2, c) }
    match t.settle.1 with
    | .lowerLimit => b.lower c
    | .cancelTimer =>
      match entry with
      | some seq => (none, { b with timer := (b.timer.cancel seq).2 })
      | none => (none, b)

/-- Arms a timer for a ticket. Answers a panic of a callback that ran at once, and the timer entry
if there is one. -/
def arm (b : Bench) (timer : TimerChoice) (deadline : Duration) (ticket : Nat) :
    Option Payload × Option Nat × Bench :=
  match timer with
  | .manual => (none, none, { b with
      armedManual := b.armedManual ++ [deadline], callbacks := b.callbacks ++ [some ticket] })
  | .eager =>
    let (p, b) := { b with armedEager := b.armedEager ++ [deadline] }.expire ticket
    (p, none, b)
  | .lossy => (none, none, { b with armedLossy := b.armedLossy ++ [deadline] })
  | .real =>
    let (seq, t) := b.timer.schedule b.now deadline ticket
    (none, some seq, { b with timer := t })
  | .shared => (none, none, b)

/-- Runs what is due on the timer thread by the given time, at most `fuel` entries. -/
def runDue : (fuel : Nat) → (horizon : Instant) → Bench → Bench
  | 0, _, b => b
  | fuel + 1, horizon, b =>
    match b.timer.pop horizon with
    | none => { b with now := Nat.max b.now horizon }
    | some (e, t) =>
      let (starts, t) := t.fire e
      let b := { b with timer := t, now := Nat.max b.now e.due }
      runDue fuel horizon (if starts then (b.expire e.callback).2 else b)

/-- The longest that a wait for the timer lasts. -/
def patience : Duration := ⟨5, 0⟩

/-- Waits for the callbacks of the timer thread, and answers whether all have run. -/
def wait (b : Bench) : Bool × Bench :=
  let b := b.runDue (b.timer.queue.length + 1) (b.now + patience.toNanos)
  (b.timer.states.all (· == .fired), b)

/-- The panic that ends a call: a later one replaces an earlier one. -/
def lastPanic (later earlier : Option Payload) : Option Payload := later <|> earlier

/-- The answer of a call that was made. -/
def callAnswer (panicked : Option Payload) (steps : List (Answer × List Counter)) : Answer :=
  match panicked with
  | some p => .panicked p
  | none => .ran steps

mutual

/-- Performs one operation. -/
def perform : Op → Bench → Answer × Bench
  | .enter choice, b =>
    (.guard b.guards.length,
      { b with guards := b.guards ++ [some b.scope], scope := b.choose choice })
  | .leave g, b =>
    match b.guards[g]?.join with
    | none => (.gone, b)
    | some previous => (.left, { b with guards := b.guards.set g none, scope := previous })
  | .scope, b => (.scope (b.scope.map Scope.render) (Scope.compensator? b.scope).isSome, b)
  | .raise, b =>
    match Scope.compensator? b.scope with
    | none => (.none, b)
    | some c =>
      match b.raise c with
      | (some p, b) => (.panicked p, b)
      | (none, b) => (.done, b)
  | .lower, b =>
    match Scope.compensator? b.scope with
    | none => (.none, b)
    | some c =>
      match b.lower c with
      | (some p, b) => (.panicked p, b)
      | (none, b) => (.done, b)
  | .run choice enabled timer deadline body panicked, b =>
    match Plan.choose enabled (b.choose choice) deadline with
    | .refuse reason => (.failed (Plan.refusal reason), b)
    | .plain =>
      let (steps, b) := performAll body b
      (callAnswer panicked steps, b)
    | .upFront c =>
      match b.raise c with
      | (some p, b) => (.panicked p, b)
      | (none, b) =>
        let (steps, b) := performAll body b
        let (late, b) := b.lower c
        (callAnswer (lastPanic late panicked) steps, b)
    | .timed c =>
      let ticket := b.tickets.length
      let b := { b with tickets := b.tickets ++ [(Ticket.unresolved, c)] }
      match b.arm timer deadline ticket with
      | (some p, _, b) => (.panicked p, b)
      | (none, entry, b) =>
        let (steps, b) := performAll body b
        let (late, b) := b.settle ticket entry
        (callAnswer (lastPanic late panicked) steps, b)
  | .fire n, b =>
    match b.callbacks[n]?.join with
    | none => (.gone, b)
    | some ticket =>
      match { b with callbacks := b.callbacks.set n none }.expire ticket with
      | (some p, b) => (.panicked p, b)
      | (none, b) => (.fired, b)
  | .wait, b =>
    let (all, b) := b.wait
    (.flag all, b)
  | .pending, b => (.count b.timer.pending, b)
  | .armed, b => (.armed b.armedManual b.armedEager b.armedLossy, b)
  | .panic p, b => (.panicked p, b)
  | .unknown name, b => (.unknown name, b)

/-- Performs operations in order, and notes the counters after each. -/
def performAll : List Op → Bench → List (Answer × List Counter) × Bench
  | [], b => ([], b)
  | op :: ops, b =>
    let (answer, b) := perform op b
    let counters := b.counters
    let (rest, b) := performAll ops b
    ((answer, counters) :: rest, b)

end

/-- A fresh thread with counting compensators. -/
def ofTempers (tempers : List Temper) : Bench :=
  { counters := tempers.map fun t => { temper := t } }

end Bench

end Workforce.Scenario.Guards
