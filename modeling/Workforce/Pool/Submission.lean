import Workforce.Pool.Basic

/-
  How tasks get into a pool. A plain submission is one locked section that refuses the task once
  the pool is closed. A tail submission by a worker of the pool first swaps the task into that
  worker's slot; only a task displaced from the slot then goes through the locked section. A task
  that a view accepted earlier is refused only after a forced termination.
-/

namespace Workforce.Pool

variable {τ : Type}

/-! ## Queues -/

/-- Starts a worker if the runnable tasks outnumber the free workers and there is room for one;
otherwise wakes a worker. Does nothing when no task is runnable. -/
def ensureCapacity (p : Pool τ) : Pool τ :=
  if p.runnable = 0 then p
  else if p.idle + p.starting < p.runnable ∧ p.live < p.config.max ∧ p.abandoned = false then
    p.spawnWorker
  else p.notifyOne

/-- Appends a task to the queue of its kind. -/
def enqueue [Kinded τ] (p : Pool τ) (t : τ) : Pool τ :=
  match Kinded.kind t with
  | .cpu => { p with cpuQueue := p.cpuQueue ++ [t] }
  | .blocking => { p with blockingQueue := p.blockingQueue ++ [t] }

/-- Queues a task and provides for a worker. -/
def queueUp [Kinded τ] (p : Pool τ) (t : τ) : Pool τ := (p.enqueue t).ensureCapacity

/-! ## The sections of a submission -/

/-- What became of a tail submission after its first section. -/
inductive Placement (τ : Type) where
  /-- The pool is closed; the task is refused. -/
  | refused
  /-- The task is in the slot of its worker, which was empty. -/
  | placed
  /-- This task still has to be queued: the submitted one, or one displaced from the slot. -/
  | left (task : τ)

/-- First section of a tail submission, by worker `w` of the pool. -/
def place (p : Pool τ) (w : Nat) (t : τ) : Placement τ × Pool τ :=
  if p.closed then (.refused, p)
  else
    match p.worker? w with
    | none => (.left t, p)
    | some x =>
      let p := p.modifyWorker w fun x => { x with slot := some t }
      match x.slot with
      | none => (.placed, p)
      | some displaced => (.left displaced, p)

/-- The locked section of a submission. `none` if the pool is closed. -/
def accept [Kinded τ] (p : Pool τ) (t : τ) : Option (Pool τ) :=
  if p.closed then none else some (p.queueUp t)

/-- The outcome of a submission. -/
inductive Submission (τ : Type) where
  | accepted
  /-- Refused; the given task was dropped. -/
  | refused (dropped : τ)

/-- A submission, its sections following directly on each other. `caller` is the worker of this
pool that submits, if any; `tail` asks for its slot. -/
def submit [Kinded τ] (p : Pool τ) (caller : Option Nat) (t : τ) (tail : Bool) :
    Submission τ × Pool τ :=
  match (if tail then caller else none) with
  | none =>
    match p.accept t with
    | some p => (.accepted, p)
    | none => (.refused t, p)
  | some w =>
    match p.place w t with
    | (.refused, p) => (.refused t, p)
    | (.placed, p) => (.accepted, p)
    | (.left rest, p) =>
      match p.accept rest with
      | some p => (.accepted, p)
      | none => (.refused rest, p)

/-- Takes a task that a view accepted earlier. `none` after a forced termination. -/
def submitAccepted [Kinded τ] (p : Pool τ) (t : τ) : Option (Pool τ) :=
  if p.abandoned then none else some (p.queueUp t)

/-- Moves the task in the slot of a worker to the queues. -/
def flush [Kinded τ] (p : Pool τ) (w : Nat) : Pool τ :=
  match (p.worker? w).bind Worker.slot with
  | none => p
  | some t => (p.modifyWorker w fun x => { x with slot := none }).queueUp t

/-! ## Laws -/

theorem submit_refused_of_closed [Kinded τ] (p : Pool τ) (caller : Option Nat) (t : τ)
    (tail : Bool) (h : p.closed = true) : p.submit caller t tail = (.refused t, p) := by
  unfold submit
  split <;> simp [accept, place, h]

end Workforce.Pool
