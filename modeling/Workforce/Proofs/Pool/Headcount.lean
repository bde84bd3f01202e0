import Workforce.Proofs.Pool.Holdings
import Workforce.Proofs.Pool.Order
import Workforce.Proofs.Pool.Roles

/-
  The counters of running tasks. They are kept apart from the phases of the workers, and they
  agree with them in every run (`counted_run`), so a pool that counts no running task runs none
  (`Counted.taskOf?_eq_none`). They are two of the counters of roles.
-/

namespace Workforce.Pool

variable {τ : Type} [Kinded τ]

/-- The counter of running tasks of a kind. -/
def runningOf (p : Pool τ) : Kind → Nat
  | .cpu => p.runningCpu
  | .blocking => p.runningBlocking

/-- The weight that counts tasks of a kind. -/
def ofKind (k : Kind) (t : τ) : Nat := if Kinded.kind t = k then 1 else 0

/-- The counters agree with the phases of the workers. -/
def Counted (p : Pool τ) : Prop := ∀ k, p.runningOf k = p.holding (fun _ => 0) (ofKind k)

omit [Kinded τ] in
theorem runningOf_eq (p : Pool τ) (k : Kind) : p.runningOf k = p.counter (.running k) := by
  cases k <;> rfl

/-- A worker holds a running task of a kind if that is its role. -/
theorem worth_ofKind (k : Kind) (phase : Phase τ) :
    Worth (ofKind k) phase.task? = if phase.role? = some (.running k) then 1 else 0 := by
  cases phase with
  | running t => simp [Phase.task?, Phase.role?, ofKind]
  | _ => rfl

theorem holding_ofKind (p : Pool τ) (k : Kind) :
    p.holding (fun _ => 0) (ofKind k) = p.roles.count (some (.running k)) := by
  have hz : ∀ ts : List τ, (ts.map fun _ => 0).sum = 0 := fun ts =>
    List.sum_eq_zero (List.forall_mem_map.mpr fun _ _ => rfl)
  have hq : p.queueHolding (fun _ => 0) = 0 := by rw [queueHolding, hz, hz]
  rw [holding, hq, Nat.zero_add]
  unfold crewHolding roles
  induction p.workers with
  | nil => rfl
  | cons x xs ih =>
    rw [List.map_cons, List.sum_cons, ih, List.map_cons, List.count_cons, Worker.holding,
      worth_zero, Nat.zero_add, worth_ofKind, Nat.add_comm]
    simp only [beq_iff_eq]

theorem counted_iff (p : Pool τ) : Counted p ↔ ∀ k, p.CountsRole (.running k) := by
  unfold Counted CountsRole
  simp only [runningOf_eq, holding_ofKind]

/-- Every section keeps the counters right. -/
theorem counted_step {p : Pool τ} (h : Counted p) (s : Section τ) : Counted (p.step s) :=
  (counted_iff _).mpr fun k => ((counted_iff p).mp h k).step s

theorem counted_ofConfig (c : Config) : Counted (ofConfig c : Pool τ) :=
  (counted_iff _).mpr fun k => countsRole_ofConfig c (.running k)

/-- In every run from a new pool the counters agree with the phases. -/
theorem counted_run (c : Config) (ss : List (Section τ)) : Counted ((ofConfig c).run ss) :=
  (counted_iff _).mpr fun k => (countsRole_ofConfig c (.running k)).run ss

/-- A pool that counts no running task runs none. -/
theorem Counted.taskOf?_eq_none {p : Pool τ} (h : Counted p) (hr : p.running = 0) (w : Nat) :
    p.taskOf? w = none := by
  cases ht : p.taskOf? w with
  | none => rfl
  | some t =>
    obtain ⟨x, hw, hx⟩ := exists_of_taskOf? ht
    have hpos : 0 < p.roles.count (some (.running (Kinded.kind t))) :=
      List.count_pos_iff.mpr (List.mem_of_getElem? (roles_running hw hx))
    have hk := h (Kinded.kind t)
    rw [holding_ofKind] at hk
    have hz : p.runningOf (Kinded.kind t) = 0 := by
      unfold running at hr
      cases Kinded.kind t
      · exact Nat.eq_zero_of_add_eq_zero_right hr
      · exact Nat.eq_zero_of_add_eq_zero_left hr
    omega

end Workforce.Pool
