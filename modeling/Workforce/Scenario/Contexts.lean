import Workforce.Context.Ambient
import Workforce.Kind

/-
  Scenarios about contexts on several threads. Contexts, guards and tokens are numbered in the
  order in which they are made; guards and tokens are used up. After each operation one thread is
  observed: its cells, its current context and the notes that probes left.
-/

namespace Workforce.Scenario.Contexts

/-- The threads, and what was made so far. -/
structure Bench where
  threads : List Ambient
  contexts : List Context := [.empty]
  guards : List (Option (Context × Token)) := []
  tokens : List (Option Token) := []

/-- A context as an observer can tell it: by number, or by its keys if it has none. -/
inductive Which where
  | absent
  | number (n : Nat)
  | keys (keys : List String)
  deriving Repr, DecidableEq

/-- The operations. Numbers refer to contexts, guards and tokens. -/
inductive Op where
  | add (base : Nat) (element : Element)
  | empty
  | enter (context : Nat)
  | dropGuard (guard : Nat)
  | guardContext (guard : Nat)
  | detach (guard : Nat)
  | update (context : Nat)
  | restore (context token : Nat)
  | previous (token : Nat)
  | capture
  | get (context : Nat) (key : String)
  | same (a b : Nat)
  | read
  | set (cell : Cell) (value : Datum)
  /-- A task under a context, or under the captured one, that writes cells and may panic. -/
  | task (kind : Kind) (context : Option Nat) (writes : List (Cell × Datum))
      (panicked : Option Payload) (run : Bool)
  | prior (stored : Datum) (type : DatumType)

/-- What a task saw of its thread. -/
structure Glimpse where
  cells : Cells
  current : Which

/-- The answers. -/
inductive Reply where
  | nothing
  | gone
  | flag (value : Bool)
  | context (number : Nat) (context : Context) (baseKeys : List String)
  | empty (same first : Bool) (rendered : String)
  | guard (number : Nat)
  | token (number : Nat)
  | dropped
  | restored
  | which (w : Which)
  | previous (w : Which)
  | found (key : Option String)
  | task (kind : Kind) (context : Which) (rendered : String)
      (run : Option (Except Payload Unit)) (seen : Option Glimpse)
  | prior (value : Option Datum)
  | panicked (p : Payload)
  /-- A number that refers to nothing. -/
  | unknown (what : String)

/-- What is seen after an operation. -/
structure Observation where
  reply : Reply
  cells : Cells
  current : Which
  notes : List String

namespace Bench

def which (b : Bench) (c : Option Context) : Which :=
  match c with
  | none => .absent
  | some c =>
    match b.contexts.findIdx? c.same with
    | some n => .number n
    | none => .keys c.keys

def setThread (b : Bench) (t : Nat) (a : Ambient) : Bench :=
  { b with threads := b.threads.set t a }

/-- Writes cells in order. -/
def writeAll (writes : List (Cell × Datum)) (a : Ambient) : Ambient :=
  writes.foldl (fun a w => a.setCell w.1 w.2) a

/-- The body of a task: it writes, looks around and ends. -/
def taskBody (writes : List (Cell × Datum)) (panicked : Option Payload) (a : Ambient) :
    Except Payload Unit × Ambient :=
  let a := writeAll writes a
  match panicked with
  | some p => (.error p, a)
  | none => (.ok (), a)

/-- What the body of a task sees, unless the context cannot be entered. -/
def glimpse (b : Bench) (c : Context) (writes : List (Cell × Datum)) (a : Ambient) :
    Option Glimpse :=
  match c.enter a with
  | (.error _, _) => none
  | (.ok _, a) =>
    let a := writeAll writes a
    some ⟨a.cells, b.which a.current⟩

/-- Performs an operation on the thread `t`, whose ambient state is `a`. -/
def perform (b : Bench) (t : Nat) (a : Ambient) : Op → Reply × Bench
  | .add base e =>
    match b.contexts[base]? with
    | none => (.unknown "ctx", b)
    | some c =>
      let n := b.contexts.length
      let made := c.add n e
      (.context n made c.keys, { b with contexts := b.contexts ++ [made] })
  | .empty => (.empty true true Context.empty.render, b)
  | .enter n =>
    match b.contexts[n]? with
    | none => (.unknown "ctx", b)
    | some c =>
      match c.enter a with
      | (.error p, a) => (.panicked p, b.setThread t a)
      | (.ok token, a) =>
        let b := b.setThread t a
        (.guard b.guards.length, { b with guards := b.guards ++ [some (c, token)] })
  | .dropGuard g =>
    match b.guards[g]?.join with
    | none => (.gone, b)
    | some (c, token) =>
      let b := { b with guards := b.guards.set g none }
      match c.leave token a with
      | (some p, a) => (.panicked p, b.setThread t a)
      | (none, a) => (.dropped, b.setThread t a)
  | .guardContext g =>
    match b.guards[g]?.join with
    | none => (.gone, b)
    | some (c, _) => (.which (b.which (some c)), b)
  | .detach g =>
    match b.guards[g]?.join with
    | none => (.gone, b)
    | some (_, token) =>
      (.token b.tokens.length,
        { b with guards := b.guards.set g none, tokens := b.tokens ++ [some token] })
  | .update n =>
    match b.contexts[n]? with
    | none => (.unknown "ctx", b)
    | some c =>
      match c.enter a with
      | (.error p, a) => (.panicked p, b.setThread t a)
      | (.ok token, a) =>
        let b := b.setThread t a
        (.token b.tokens.length, { b with tokens := b.tokens ++ [some token] })
  | .restore n k =>
    match b.contexts[n]? with
    | none => (.unknown "ctx", b)
    | some c =>
      match b.tokens[k]?.join with
      | none => (.gone, b)
      | some token =>
        let b := { b with tokens := b.tokens.set k none }
        match c.leave token a with
        | (some p, a) => (.panicked p, b.setThread t a)
        | (none, a) => (.restored, b.setThread t a)
  | .previous k =>
    match b.tokens[k]?.join with
    | none => (.gone, b)
    | some token => (.previous (b.which token.previous), b)
  | .capture => (.which (b.which (some a.capture)), b)
  | .get n key =>
    match b.contexts[n]? with
    | none => (.unknown "ctx", b)
    | some c => (.found ((c.get? key).map Element.key), b)
  | .same m n =>
    match b.contexts[m]?, b.contexts[n]? with
    | some c, some d => (.flag (c.same d), b)
    | _, _ => (.unknown "ctx", b)
  | .read => (.nothing, b)
  | .set cell value => (.nothing, b.setThread t (a.setCell cell value))
  | .task kind context writes panicked run =>
    match context.elim (some a.capture) fun n => b.contexts[n]? with
    | none => (.unknown "ctx", b)
    | some c =>
      let w := b.which (some c)
      let shown := kind.renderTask c
      if run then
        match c.within (taskBody writes panicked) a with
        | (outcome, a') =>
          (.task kind w shown (some outcome) (b.glimpse c writes a), b.setThread t a')
      else (.task kind w shown none none, b)
  | .prior stored type => (.prior (stored.as? type), b)

/-- Performs an operation on a thread and observes that thread. -/
def step (b : Bench) (t : Nat) (op : Op) : Option (Observation × Bench) :=
  match b.threads[t]? with
  | none => none
  | some a =>
    let (reply, b) := b.perform t a.forgetNotes op
    let a := (b.threads[t]?).getD a
    some (⟨reply, a.cells, b.which a.current, a.surface.notes⟩, b.setThread t a.forgetNotes)

end Bench

end Workforce.Scenario.Contexts
