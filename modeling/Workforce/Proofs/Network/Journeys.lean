import Workforce.Proofs.Network.Chart

/-
  Journeys. The route of a job is made of the views that it passed and of those that are still
  before it, so going on does not change it: a task runs having passed all views of the dispatcher
  that it was submitted to, and no other.

  Dispatchers are made from pools by narrowing and by wrapping. An exclusive view is neither narrowed
  nor wrapped by a soft one, so a route through an exclusive view begins with one (`Built.sealed`).
  The scope that the first view of a route makes is the innermost one, and it forbids compensation
  (`View.scopeWithinAll_exclusive`).
-/

namespace Workforce

variable {τ : Type}

/-! ## Dispatchers that can be made -/

namespace Dispatcher

/-- A dispatcher that some sequence of constructors makes, under whatever numbers and limits. -/
inductive Built : Dispatcher → Prop
  | pool (id core : Nat) : Built (.pool id core)
  | soft {d e : Dispatcher} {fresh limit : Nat} (h : Built d)
      (he : Dispatcher.soft fresh d limit = .ok e) : Built e
  | exclusive {d : Dispatcher} (fresh : Nat) (h : Built d) : Built (.exclusive fresh d)
  | narrow {d e : Dispatcher} {fresh limit : Nat} (h : Built d)
      (he : d.narrow fresh limit = .ok e) : Built e

/-- No soft view stands over an exclusive one. -/
def Sealed (d : Dispatcher) : Prop :=
  ∀ v ∈ d.views, v.mode = .soft → ∀ u ∈ v.parent.views, u.mode = .soft

variable {d e : Dispatcher} {fresh limit : Nat}

/-- A dispatcher that is no exclusive view has none below it. -/
theorem Sealed.plain (h : d.Sealed) (hd : d.isExclusive = false) : ∀ u ∈ d.views, u.mode = .soft := by
  intro u hu
  cases d with
  | pool => cases hu
  | view id mode base parent =>
    cases mode with
    | exclusive => cases hd
    | soft =>
      rcases List.mem_cons.mp hu with rfl | hu
      · rfl
      · exact h ⟨id, .soft, base, parent⟩ List.mem_cons_self rfl u hu

theorem Sealed.exclusive (h : d.Sealed) (fresh : Nat) : (Dispatcher.exclusive fresh d).Sealed := by
  intro v hv hs
  rcases List.mem_cons.mp hv with rfl | hv
  · cases hs
  · exact h v hv hs

theorem Sealed.soft (h : d.Sealed) (he : Dispatcher.soft fresh d limit = .ok e) : e.Sealed := by
  unfold Dispatcher.soft at he
  split at he
  · cases he
  · split at he
    · cases he
    case isFalse hx =>
      cases he
      intro v hv hs
      rcases List.mem_cons.mp hv with rfl | hv
      · exact h.plain (Bool.eq_false_iff.mpr hx)
      · exact h v hv hs

/-- Narrowing gives the same dispatcher or a soft view over it. -/
theorem narrow_cases (he : d.narrow fresh limit = .ok e) :
    e = d ∨ Dispatcher.soft fresh d limit = .ok e := by
  unfold narrow at he
  split at he <;> split at he
  · cases he
  · split at he
    · cases he
      exact Or.inl rfl
    · exact Or.inr he
  · cases he
  · split at he
    · cases he
    · split at he
      · cases he
        exact Or.inl rfl
      · exact Or.inr he

/-- Whatever dispatchers are made of, soft views stand over soft ones. -/
theorem Built.sealed (h : d.Built) : d.Sealed := by
  induction h with
  | pool => exact nofun
  | soft _ he ih => exact ih.soft he
  | exclusive fresh _ ih => exact ih.exclusive fresh
  | narrow _ he ih =>
    rcases narrow_cases he with rfl | he
    · exact ih
    · exact ih.soft he

/-- A way down that leads through an exclusive view begins with one. -/
theorem Built.first (h : d.Built) {v : View} (hv : v ∈ d.views) (hx : v.mode = .exclusive) :
    ∃ u, d.views.head? = some u ∧ u.mode = .exclusive := by
  cases hd : d.isExclusive with
  | false =>
    cases hx.symm.trans (h.sealed.plain hd v hv)
  | true =>
    cases d with
    | pool => cases hd
    | view id mode base parent =>
      cases mode with
      | soft => cases hd
      | exclusive => exact ⟨⟨id, .exclusive, base, parent⟩, rfl, rfl⟩

end Dispatcher

/-- The innermost scope is that of the view that was passed first. -/
theorem View.scopeWithinAll_exclusive {v : View} (hx : v.mode = .exclusive) (us : List View)
    (outer : Option TaskScope) :
    View.scopeWithinAll (us ++ [v]) outer = some (.forbidden View.exclusiveReason) := by
  rw [View.scopeWithinAll, List.foldl_append, List.foldl_cons, List.foldl_nil, View.scopeWithin, hx]

/-- Inside the views of a dispatcher with an exclusive one among them, compensation is forbidden. -/
theorem Dispatcher.Built.forbids {d : Dispatcher} (h : d.Built) {v : View} (hv : v ∈ d.views)
    (hx : v.mode = .exclusive) (outer : Option TaskScope) :
    View.scopeWithinAll d.views.reverse outer = some (.forbidden View.exclusiveReason) := by
  obtain ⟨u, hu, hux⟩ := h.first hv hx
  obtain ⟨us, hus⟩ := List.head?_eq_some_iff.mp hu
  rw [hus, List.reverse_cons]
  exact View.scopeWithinAll_exclusive hux _ outer

/-! ## Routes -/

/-- The views on the way of a job that stands before a dispatcher: those that it passed, and those
that it has still to pass. -/
def Job.route (j : Job τ) (d : Dispatcher) : List View := j.views.reverse ++ d.views

/-- Passing a view leaves a job on its route. -/
theorem Job.route_admittedBy (j : Job τ) (v : View) :
    (j.admittedBy v).route v.parent = j.route v.toDispatcher := by
  simp [route, admittedBy, Dispatcher.views_toDispatcher]

/-- Before a pool all views of the route have been passed. -/
theorem Job.route_pool (j : Job τ) (i core : Nat) : j.route (.pool i core) = j.views.reverse := by
  simp [route, Dispatcher.views]

end Workforce
