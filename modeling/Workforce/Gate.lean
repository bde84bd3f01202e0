/-
  The gate of a view: its limit, the number of tasks admitted and not yet ended, and the queue of
  tasks that wait for admission. Every function is one locked section or the part of one between
  two releases of the lock.
-/

namespace Workforce

/-- The changing part of a view whose tasks are values of `τ`. -/
structure Gate (τ : Type) where
  limit : Nat
  running : Nat := 0
  queue : List τ := []

namespace Gate

variable {τ : Type}

/-- What a gate does with a task offered to it. -/
inductive Offer where
  | admitted | queued | refused
  deriving Repr, DecidableEq

/-- Offers a task. A full gate queues it, unless the pool below is closed to newcomers. -/
def offer (g : Gate τ) (closed : Bool) (t : τ) : Offer × Gate τ :=
  if g.running < g.limit then (.admitted, { g with running := g.running + 1 })
  else if closed then (.refused, g)
  else (.queued, { g with queue := g.queue ++ [t] })

/-- Gives an admission back: a task ended, or could not be forwarded. The count stays at zero once
there. -/
def release (g : Gate τ) : Gate τ := { g with running := g.running - 1 }

/-- Admits the first waiting task, if there is one and a place for it. -/
def admitNext (g : Gate τ) : Option (τ × Gate τ) :=
  if g.running < g.limit then
    match g.queue with
    | t :: rest => some (t, { g with running := g.running + 1, queue := rest })
    | [] => none
  else none

def raise (g : Gate τ) : Gate τ := { g with limit := g.limit + 1 }

/-- Lowers the limit, which stays at zero once there. -/
def lower (g : Gate τ) : Gate τ := { g with limit := g.limit - 1 }

theorem queue_length_of_admitNext {g g' : Gate τ} {t : τ} (h : g.admitNext = some (t, g')) :
    g'.queue.length + 1 = g.queue.length := by
  unfold admitNext at h
  split at h
  · split at h
    · rename_i u rest hq
      simp only [Option.some.injEq, Prod.mk.injEq] at h
      obtain ⟨-, rfl⟩ := h
      simp [hq]
    · cases h
  · cases h

end Gate

end Workforce
