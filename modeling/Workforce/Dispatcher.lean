import Workforce.Failure

/-
  Dispatchers: a pool, or a view that admits a bounded number of tasks to another dispatcher. The
  tree below is the unchanging part of a dispatcher; limits and queues are kept elsewhere under
  the numbers in it. A soft view takes part in compensation. An exclusive view has the limit one
  for mutual exclusion, so it is never narrowed and never wrapped by a soft view.
-/

namespace Workforce

/-- How a view treats compensation. -/
inductive Mode where
  | soft | exclusive
  deriving Repr, DecidableEq

def Mode.name : Mode → String
  | soft => "Soft"
  | exclusive => "Exclusive"

/-- Where tasks can be submitted. -/
inductive Dispatcher where
  /-- The pool with this number and core size. -/
  | pool (id core : Nat)
  /-- The view with this number, mode and first limit. -/
  | view (id : Nat) (mode : Mode) (base : Nat) (parent : Dispatcher)
  deriving Repr, DecidableEq

/-- A view, as the tasks that it admitted know it. -/
structure View where
  id : Nat
  mode : Mode
  base : Nat
  parent : Dispatcher
  deriving Repr, DecidableEq

namespace Dispatcher

/-- The view of a dispatcher that is one. -/
def view? : Dispatcher → Option View
  | pool .. => none
  | view id mode base parent => some ⟨id, mode, base, parent⟩

/-- The number of the pool that runs the tasks in the end. -/
def poolId : Dispatcher → Nat
  | pool id _ => id
  | view _ _ _ parent => parent.poolId

def isExclusive : Dispatcher → Bool
  | view _ .exclusive _ _ => true
  | _ => false

/-- The views from this dispatcher down to the pool, the nearest to the pool last. -/
def views : Dispatcher → List View
  | pool .. => []
  | view id mode base parent => ⟨id, mode, base, parent⟩ :: parent.views

/-- How many tasks a dispatcher runs at a time, given the present limits of views. -/
def parallelism (limitOf : Nat → Nat) : Dispatcher → Nat
  | pool _ core => core
  | view id _ _ _ => limitOf id

/-! ## Building dispatchers -/

def notPositive : Failure := .configuration "parallelism limit must be positive"

def notWrappable : Failure :=
  .configuration "an exclusive view cannot be wrapped by another view"

def notNarrowable : Failure := .configuration "an exclusive view cannot be narrowed"

/-- A soft view over a dispatcher, under a number not yet in use. -/
def soft (fresh : Nat) (parent : Dispatcher) (limit : Nat) : Except Failure Dispatcher :=
  if limit = 0 then .error notPositive
  else if parent.isExclusive then .error notWrappable
  else .ok (view fresh .soft limit parent)

/-- An exclusive view over a dispatcher, under a number not yet in use. -/
def exclusive (fresh : Nat) (parent : Dispatcher) : Dispatcher := view fresh .exclusive 1 parent

/-- A dispatcher with at most `n` tasks at a time: the given one if it admits no more than that by
its first limit, and a soft view over it otherwise. -/
def narrow (fresh : Nat) (d : Dispatcher) (n : Nat) : Except Failure Dispatcher :=
  match d with
  | pool _ core =>
    if n = 0 then .error notPositive
    else if core ≤ n then .ok d
    else soft fresh d n
  | view _ mode base _ =>
    if mode = .exclusive then .error notNarrowable
    else if n = 0 then .error notPositive
    else if base ≤ n then .ok d
    else soft fresh d n

end Dispatcher

namespace View

def toDispatcher (v : View) : Dispatcher := .view v.id v.mode v.base v.parent

theorem view?_toDispatcher (v : View) : v.toDispatcher.view? = some v := rfl

end View

end Workforce
