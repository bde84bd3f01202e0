import Workforce.Plant.Close
import Workforce.Settings

/-
  Scenarios about the settings of a host: its compensation switch and its shared pool, which is
  created at its first use with the size configured by then.
-/

namespace Workforce.Scenario.Shared

/-- The operations. -/
inductive Op where
  | configureCompensation (enabled : Bool)
  | enabled
  | configureSize (n : Nat)
  | sharedConfig
  /-- Spawns a task on the shared pool that returns a number. -/
  | useShared (value : Nat)
  | closeShared
  /-- Makes a guarded call in a task of a new pool of core size one, which reads the limit of that
  pool; the task may go through an exclusive view. -/
  | guarded (deadline : Duration) (exclusive : Bool)
  /-- Makes a guarded call on a thread that runs no task. -/
  | outside (deadline : Duration)

/-- The answers. -/
inductive Answer where
  | nothing
  | flag (value : Bool)
  | config (c : Config)
  | used (core : Nat) (value : Option Nat) (closed : Bool)
  | sharedClosed (completed closed : Bool)
  | guarded (during : Except Failure Nat) (limitAfter : Nat)
  | ran
  | failed (f : Failure)

/-- The settings of a host, and its shared pool once there is one. -/
structure Host where
  settings : Settings
  shared : Option (Plant Nat) := none

namespace Host

def noCells : Cells := fun _ => .unit

/-- The shared pool, created if there is none. -/
def ensureShared (h : Host) : Plant Nat × Host :=
  let m := h.shared.getD
    (({ network := {}, cells := noCells : Plant Nat }.addPool
      (Pool.ofConfig h.settings.sharedConfig)).settle)
  (m, { h with shared := some m })

/-- How long a close is ready to wait. -/
def patience : Duration := ⟨5, 0⟩

def poolClosed (m : Plant Nat) : Bool := ((m.pool? 0).map Pool.closed).getD true

/-- Spawns a task and waits for its value. -/
def useShared (m : Plant Nat) (value : Nat) : Answer × Plant Nat :=
  let name := toString m.tasks.length
  let spawn : Step Nat := .launch .spawn 0 .cpu name none (some [.finish value]) false
  match m.perform .controller spawn with
  | (.failed f, m) => (.failed f, m)
  | (_, m) =>
    let (reply, m) := m.settle.perform .controller (.join name patience)
    let core := ((m.pool? 0).map fun p => p.config.core).getD 0
    match reply with
    | .joined (.ok v) => (.used core v (poolClosed m), m)
    | .joined (.error f) => (.failed f, m)
    | _ => (.nothing, m)

/-- The result of a guarded call, read off the answers of the body that made it. -/
def duringCall : List (Reply Nat) → Except Failure Nat
  | .failed f :: _ => .error f
  | .limit n :: _ => .ok n
  | _ :: rest => duringCall rest
  | [] => .error .disconnected

/-- A guarded call in a task of a new pool. -/
def guarded (enabled : Bool) (deadline : Duration) (exclusive : Bool) : Answer :=
  let m : Plant Nat :=
    ({ network := {}, cells := noCells : Plant Nat }.addPool (Pool.ofConfig (.ofCore 1))).settle
  let (_, m) := m.perform .controller (.exclusive 0)
  let body : List (Step Nat) := [.guard deadline .shared enabled [.peek 0]]
  let spawn : Step Nat :=
    .launch .spawn (if exclusive then 1 else 0) .cpu "call" none (some body) false
  let (_, m) := m.perform .controller spawn
  let (_, m) := m.settle.close 0 patience
  .guarded (duringCall ((m.tasks[0]?.map TaskRecord.replies).getD []))
    (((m.pool? 0).map Pool.limit).getD 0)

/-- Performs one operation. -/
def perform (h : Host) : Op → Answer × Host
  | .configureCompensation enabled =>
    (.nothing, { h with settings := h.settings.configureCompensation enabled })
  | .enabled =>
    let (on, settings) := h.settings.readSwitch
    (.flag on, { h with settings })
  | .configureSize n => (.nothing, { h with settings := h.settings.configureSize n })
  | .sharedConfig => (.config h.settings.sharedConfig, h)
  | .useShared value =>
    let (m, h) := h.ensureShared
    let (answer, m) := useShared m value
    (answer, { h with shared := some m })
  | .closeShared =>
    let (m, h) := h.ensureShared
    let (outcome, m) := m.close 0 patience
    (.sharedClosed (outcome.any Pool.Outcome.completed) (poolClosed m),
      { h with shared := some m })
  | .guarded deadline exclusive =>
    let (on, settings) := h.settings.readSwitch
    (guarded on deadline exclusive, { h with settings })
  | .outside _ =>
    let (_, settings) := h.settings.readSwitch
    (.ran, { h with settings })

end Host

end Workforce.Scenario.Shared
