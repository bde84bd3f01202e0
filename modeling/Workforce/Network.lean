import Workforce.Compensator
import Workforce.Gate
import Workforce.Pool.Close
import Workforce.Pool.Compensation
import Workforce.Pool.Worker

/-
  Pools and the views over them. A task submitted to a view passes its gate and is forwarded to
  the dispatcher below, down to a pool; on the way it collects the views that admitted it. When an
  admitted task ends, its views admit waiting tasks. Tasks that are dropped without having run are
  collected for whoever has to report them.
-/

namespace Workforce

/-- A task on its way to a pool, with the views that admitted it, the nearest to the pool
first. -/
structure Job (τ : Type) where
  task : τ
  views : List View := []

instance {τ : Type} [Kinded τ] : Kinded (Job τ) := ⟨fun j => Kinded.kind j.task⟩

/-- The job as the parent of a view receives it. -/
def Job.admittedBy {τ : Type} (j : Job τ) (v : View) : Job τ := { j with views := v :: j.views }

/-- Pools and views by number. -/
structure Network (τ : Type) where
  pools : List (Pool (Job τ)) := []
  gates : List (Gate (Job τ)) := []
  /-- Tasks dropped without having run, oldest first. -/
  dropped : List (Job τ) := []

namespace Network

variable {τ : Type} [Kinded τ]

/-! ## Access -/

def pool? (n : Network τ) (p : Nat) : Option (Pool (Job τ)) := n.pools[p]?

def setPool (n : Network τ) (p : Nat) (pool : Pool (Job τ)) : Network τ :=
  { n with pools := n.pools.set p pool }

/-- Changes a pool. -/
def onPool (n : Network τ) (p : Nat) (f : Pool (Job τ) → Pool (Job τ)) : Network τ :=
  { n with pools := n.pools.modify p f }

def gate? (n : Network τ) (v : Nat) : Option (Gate (Job τ)) := n.gates[v]?

def setGate (n : Network τ) (v : Nat) (g : Gate (Job τ)) : Network τ :=
  { n with gates := n.gates.set v g }

/-- Changes a gate. -/
def onGate (n : Network τ) (v : Nat) (f : Gate (Job τ) → Gate (Job τ)) : Network τ :=
  { n with gates := n.gates.modify v f }

/-- The present limit of a view. -/
def limitOf (n : Network τ) (v : Nat) : Nat := ((n.gate? v).map Gate.limit).getD 0

def isClosed (n : Network τ) (d : Dispatcher) : Bool :=
  ((n.pool? d.poolId).map Pool.closed).getD true

def drop (n : Network τ) (j : Job τ) : Network τ := { n with dropped := n.dropped ++ [j] }

def dropAll (n : Network τ) (js : List (Job τ)) : Network τ :=
  { n with dropped := n.dropped ++ js }

/-! ## Forwarding -/

/-- Admits waiting tasks of a view while there is place for them, forwarding each. A task that
cannot be forwarded is dropped and its admission given back. -/
def admitWaiting (forward : Job τ → Network τ → Bool × Network τ) (v : View) :
    (fuel : Nat) → Network τ → Network τ
  | 0, n => n
  | fuel + 1, n =>
    match (n.gate? v.id).bind Gate.admitNext with
    | none => n
    | some (j, g) =>
      match forward (j.admittedBy v) (n.setGate v.id g) with
      | (true, n) => admitWaiting forward v fuel n
      | (false, n) => admitWaiting forward v fuel (n.onGate v.id Gate.release)

/-- Admits waiting tasks of a view. -/
def refill (forward : Job τ → Network τ → Bool × Network τ) (v : View) (n : Network τ) :
    Network τ :=
  admitWaiting forward v (((n.gate? v.id).map fun g => g.queue.length).getD 0) n

/-- Forwards a task that a view accepted earlier, and answers whether it was taken. -/
def forward : Dispatcher → Job τ → Network τ → Bool × Network τ
  | .pool p _, j, n =>
    match (n.pool? p).bind fun pool => pool.submitAccepted j with
    | some pool => (true, n.setPool p pool)
    | none => (false, n.drop j)
  | .view id mode base parent, j, n =>
    match n.gate? id with
    | none => (false, n.drop j)
    | some g =>
      let v : View := ⟨id, mode, base, parent⟩
      match g.offer false j with
      | (.admitted, g) =>
        match forward parent (j.admittedBy v) (n.setGate id g) with
        | (true, n) => (true, n)
        | (false, n) => (false, refill (forward parent) v (n.onGate id Gate.release))
      | (.queued, g) => (true, n.setGate id g)
      | (.refused, _) => (false, n.drop j)

/-- An admitted task of a view has ended. -/
def release (n : Network τ) (v : View) : Network τ :=
  refill (forward v.parent) v (n.onGate v.id Gate.release)

/-! ## Submitting -/

/-- Submits a task, and answers whether it was accepted. `caller` is the worker that submits, if
any; `tail` asks for its slot. -/
def submit (caller : Option WorkerId) (tail : Bool) :
    Dispatcher → Job τ → Network τ → Bool × Network τ
  | .pool p _, j, n =>
    match n.pool? p with
    | none => (false, n.drop j)
    | some pool =>
      let own := (caller.filter fun w => w.pool = p).map WorkerId.worker
      match pool.submit own j tail with
      | (.accepted, pool) => (true, n.setPool p pool)
      | (.refused dropped, pool) => (false, (n.setPool p pool).drop dropped)
  | .view id mode base parent, j, n =>
    match n.gate? id with
    | none => (false, n.drop j)
    | some g =>
      let v : View := ⟨id, mode, base, parent⟩
      match g.offer (n.isClosed parent) j with
      | (.admitted, g) =>
        match submit caller tail parent (j.admittedBy v) (n.setGate id g) with
        | (true, n) => (true, n)
        | (false, n) => (false, n.release v)
      | (.queued, g) => (true, n.setGate id g)
      | (.refused, _) => (false, n.drop j)

/-- Moves the task in the slot of a worker to the queues of its pool. -/
def flush (n : Network τ) (w : WorkerId) : Network τ :=
  n.onPool w.pool fun p => p.flush w.worker

/-! ## Compensation -/

/-- Raises the limit of a view and admits waiting tasks. -/
def raiseView (n : Network τ) (v : View) : Network τ :=
  refill (forward v.parent) v (n.onGate v.id Gate.raise)

/-- Raises all limits of a compensator, the pool first. -/
def raise (n : Network τ) (c : Compensator) : Network τ :=
  let n := match c.worker with
    | some w => n.onPool w.pool fun p => p.raise w.worker
    | none => n
  c.views.foldl raiseView n

/-- Lowers all limits of a compensator, the pool last. -/
def lower (n : Network τ) (c : Compensator) : Network τ :=
  let n := c.views.foldr (fun v n => n.onGate v.id Gate.lower) n
  match c.worker with
  | some w => n.onPool w.pool fun p => p.lower w.worker
  | none => n

end Network

end Workforce
