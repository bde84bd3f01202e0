import Mathlib.Algebra.GroupWithZero.Nat
import Workforce.Network

/-
  Charts of views, and gates. A chart lists views by number; each stands on earlier ones, so every
  way down to a pool goes down in numbers. A job carries the views that it passed, and fits before
  a dispatcher if they lead there. Offering a task to a gate and admitting a waiting one take
  few courses, which the `_cases` lemmas list.
-/

namespace Workforce

variable {τ : Type}

/-! ## Charts -/

/-- A view is in a chart. -/
def View.On (v : View) (vs : List View) : Prop := vs[v.id]? = some v

/-- A dispatcher leads to a pool, through views of a chart with falling numbers. -/
structure Dispatcher.Leads (d : Dispatcher) (vs : List View) (pools : Nat) : Prop where
  pool : d.poolId < pools
  charted : ∀ v ∈ d.views, v.On vs
  falling : d.views.Pairwise fun a b => b.id < a.id

/-- A job can stand before a dispatcher: it passed views of a chart that lead there. -/
structure Job.Fits (j : Job τ) (vs : List View) (d : Dispatcher) : Prop where
  charted : ∀ u ∈ j.views, u.On vs
  pool : ∀ u ∈ j.views, u.parent.poolId = d.poolId
  above : ∀ u ∈ j.views, ∀ v ∈ d.views, v.id < u.id

/-- How often a job passed the view with a number. -/
def Job.passes (i : Nat) (j : Job τ) : Nat := j.views.countP fun v => v.id = i

theorem getElem?_concat_cases {α : Type} {xs : List α} {y z : α} {i : Nat}
    (h : (xs ++ [y])[i]? = some z) : xs[i]? = some z ∨ (i = xs.length ∧ z = y) := by
  rcases Nat.lt_trichotomy i xs.length with hlt | he | hgt
  · rw [List.getElem?_append_left hlt] at h
    exact Or.inl h
  · subst he
    rw [List.getElem?_concat_length] at h
    exact Or.inr ⟨rfl, (Option.some.inj h).symm⟩
  · rw [List.getElem?_eq_none (by rw [List.length_append]; exact hgt)] at h
    cases h

theorem View.On.append {v : View} {vs : List View} (h : v.On vs) (us : List View) :
    v.On (vs ++ us) := by
  unfold On at h ⊢
  obtain ⟨hi, -⟩ := List.getElem?_eq_some_iff.mp h
  rw [List.getElem?_append_left hi]
  exact h

theorem View.On.id_lt {v : View} {vs : List View} (h : v.On vs) : v.id < vs.length :=
  (List.getElem?_eq_some_iff.mp h).1

theorem Dispatcher.views_toDispatcher (v : View) :
    v.toDispatcher.views = v :: v.parent.views := rfl

theorem Job.passes_admittedBy (i : Nat) (j : Job τ) (v : View) :
    (j.admittedBy v).passes i = j.passes i + if v.id = i then 1 else 0 := by
  unfold passes admittedBy
  rw [List.countP_cons]
  simp

theorem Job.passes_eq_zero {i : Nat} {j : Job τ} (h : ∀ v ∈ j.views, v.id ≠ i) :
    j.passes i = 0 := by
  unfold passes
  rw [List.countP_eq_zero]
  intro v hv
  simpa using h v hv

theorem Dispatcher.Leads.parent {v : View} {vs : List View} {pools : Nat}
    (h : v.toDispatcher.Leads vs pools) :
    v.On vs ∧ v.parent.Leads vs pools ∧ ∀ u ∈ v.parent.views, u.id < v.id := by
  obtain ⟨habove, hfalling⟩ := List.pairwise_cons.mp h.falling
  refine ⟨h.charted v List.mem_cons_self, ⟨h.pool, fun u hu => ?_, hfalling⟩, habove⟩
  exact h.charted u (List.mem_cons_of_mem v hu)

/-- A job that is admitted by a view can go on to the parent of the view. -/
theorem Job.Fits.admittedBy {j : Job τ} {vs : List View} {v : View} {pools : Nat}
    (h : j.Fits vs v.toDispatcher) (hv : v.toDispatcher.Leads vs pools) :
    (j.admittedBy v).Fits vs v.parent := by
  obtain ⟨hon, -, hbelow⟩ := hv.parent
  refine ⟨fun u hu => ?_, fun u hu => ?_, fun u hu x hx => ?_⟩
  · rcases List.mem_cons.mp hu with rfl | hu
    · exact hon
    · exact h.charted u hu
  · rcases List.mem_cons.mp hu with rfl | hu
    · rfl
    · exact h.pool u hu
  · rcases List.mem_cons.mp hu with rfl | hu
    · exact hbelow x hx
    · exact h.above u hu x (List.mem_cons_of_mem v hx)

/-- Pools are the same wherever they are reached from. -/
theorem Job.Fits.atPool {j : Job τ} {vs : List View} {p core : Nat}
    (h : j.Fits vs (.pool p core)) (core' : Nat) : j.Fits vs (.pool p core') :=
  ⟨h.charted, h.pool, fun _ _ _ hv => by cases hv⟩

/-- A fresh job fits everywhere. -/
theorem Job.fits_fresh (t : τ) (vs : List View) (d : Dispatcher) :
    ({ task := t } : Job τ).Fits vs d :=
  ⟨nofun, nofun, nofun⟩

/-- How often the jobs in the queue of a gate passed a view. -/
def Gate.passes (i : Nat) (x : Gate (Job τ)) : Nat := (x.queue.map (Job.passes i)).sum

/-! ## Gates -/

/-- A task waits only while the gate is full. -/
def Gate.Settled (x : Gate τ) : Prop := x.queue ≠ [] → x.limit ≤ x.running

namespace Gate

/-- A gate that a task is offered to has a place, refuses it, or lets it wait. -/
theorem offer_cases (x : Gate τ) (closed : Bool) (t : τ) :
    (x.running < x.limit ∧ x.offer closed t = (.admitted, { x with running := x.running + 1 })) ∨
    (x.limit ≤ x.running ∧ closed = true ∧ x.offer closed t = (.refused, x)) ∨
    (x.limit ≤ x.running ∧ closed = false ∧
      x.offer closed t = (.queued, { x with queue := x.queue ++ [t] })) := by
  unfold offer
  by_cases h : x.running < x.limit
  · exact Or.inl ⟨h, by rw [if_pos h]⟩
  · rw [if_neg h]
    cases closed with
    | true => exact Or.inr (Or.inl ⟨Nat.le_of_not_lt h, rfl, rfl⟩)
    | false => exact Or.inr (Or.inr ⟨Nat.le_of_not_lt h, rfl, rfl⟩)

/-- A waiting task is admitted from the front of the queue, if there is one and place for it. -/
theorem admitNext_cases (x : Gate τ) :
    (x.admitNext = none ∧ (x.queue ≠ [] → x.limit ≤ x.running)) ∨
    (∃ t rest, x.queue = t :: rest ∧ x.running < x.limit ∧
      x.admitNext = some (t, { x with running := x.running + 1, queue := rest })) := by
  unfold admitNext
  by_cases h : x.running < x.limit
  · rw [if_pos h]
    cases hq : x.queue with
    | nil => exact Or.inl ⟨rfl, fun hn => absurd rfl hn⟩
    | cons t rest => exact Or.inr ⟨t, rest, rfl, h, rfl⟩
  · rw [if_neg h]
    exact Or.inl ⟨rfl, fun _ => Nat.le_of_not_lt h⟩

end Gate

end Workforce
