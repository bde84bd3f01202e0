import Workforce.Plant.Unwind
import Workforce.Proofs.Traffic.Starts

/-
  Which limits compensation reaches. The scope of a task is made on the way into its body, from the
  scope of its worker inwards through its views (`enterViews_scope`). An exclusive view forbids
  compensation there, and a soft view inside it starts afresh, so no compensator names an exclusive
  view (`soft_of_compensator`). Where limits are raised and lowered through compensators only, the
  limits of exclusive views are left alone (`calm_run`).
-/

namespace Workforce

/-! ## Scopes -/

/-- The compensator inside a view is that of a soft view, and names the views named outside. -/
theorem View.compensator_scopeWithin {v : View} {outer : Option TaskScope} {c : Compensator}
    (h : Scope.compensator? (some (v.scopeWithin outer)) = some c) {u : View} (hu : u ∈ c.views) :
    (u = v ∧ v.mode = .soft) ∨ ∃ d, Scope.compensator? outer = some d ∧ u ∈ d.views := by
  unfold scopeWithin at h
  cases hm : v.mode with
  | exclusive =>
    rw [hm] at h
    cases h
  | soft =>
    rw [hm] at h
    cases ho : Scope.compensator? outer with
    | none =>
      rw [ho] at h
      cases h
      exact .inl ⟨List.mem_singleton.mp hu, rfl⟩
    | some d =>
      rw [ho] at h
      cases h
      rcases List.mem_append.mp hu with hu | hu
      · exact .inr ⟨d, rfl, hu⟩
      · exact .inl ⟨List.mem_singleton.mp hu, rfl⟩

/-- A compensator names soft views around the task only, and those named outside. -/
theorem View.soft_of_scopeWithinAll {vs : List View} {outer : Option TaskScope} {c : Compensator}
    (h : Scope.compensator? (View.scopeWithinAll vs outer) = some c) {u : View}
    (hu : u ∈ c.views) :
    (u ∈ vs ∧ u.mode = .soft) ∨ ∃ d, Scope.compensator? outer = some d ∧ u ∈ d.views := by
  induction vs generalizing outer with
  | nil => exact .inr ⟨c, h, hu⟩
  | cons v vs ih =>
    rcases ih h with ⟨hm, hs⟩ | ⟨d, hd, hm⟩
    · exact .inl ⟨List.mem_cons_of_mem v hm, hs⟩
    · rcases View.compensator_scopeWithin hd hm with ⟨rfl, hs⟩ | ho
      · exact .inl ⟨List.mem_cons_self, hs⟩
      · exact .inr ho

/-- On a worker, compensators name soft views around the task only. -/
theorem View.soft_of_compensator {vs : List View} {w : WorkerId} {c : Compensator}
    (h : Scope.compensator? (View.scopeWithinAll vs (some w.scope)) = some c) {u : View}
    (hu : u ∈ c.views) : u ∈ vs ∧ u.mode = .soft := by
  rcases View.soft_of_scopeWithinAll h hu with hs | ⟨d, hd, hm⟩
  · exact hs
  · cases hd
    cases hm

/-- The compensator inside a view raises limits for the worker outside, if for any. -/
theorem View.worker_of_scopeWithin {v : View} {outer : Option TaskScope} {c : Compensator}
    (h : Scope.compensator? (some (v.scopeWithin outer)) = some c) {w : WorkerId}
    (hw : c.worker = some w) : ∃ d, Scope.compensator? outer = some d ∧ d.worker = some w := by
  unfold scopeWithin at h
  cases hm : v.mode with
  | exclusive =>
    rw [hm] at h
    cases h
  | soft =>
    rw [hm] at h
    cases ho : Scope.compensator? outer with
    | none =>
      rw [ho] at h
      cases h
      cases hw
    | some d =>
      rw [ho] at h
      cases h
      exact ⟨d, rfl, hw⟩

/-- On a worker, compensators raise limits for this worker only. -/
theorem View.worker_of_compensator {vs : List View} {w u : WorkerId} {c : Compensator}
    (h : Scope.compensator? (View.scopeWithinAll vs (some w.scope)) = some c)
    (hu : c.worker = some u) : u = w := by
  have hall : ∀ {outer : Option TaskScope},
      Scope.compensator? (View.scopeWithinAll vs outer) = some c →
      ∃ d, Scope.compensator? outer = some d ∧ d.worker = some u := by
    clear h
    induction vs with
    | nil => exact fun h => ⟨c, h, hu⟩
    | cons v vs ih =>
      intro outer h
      obtain ⟨d, hd, hdu⟩ := ih h
      exact View.worker_of_scopeWithin hd hdu
  obtain ⟨d, hd, hdu⟩ := hall h
  cases hd
  cases hdu
  rfl

/-- Soft views make a compensator of their own over the one outside of each. -/
theorem View.scopeWithinAll_soft {vs : List View} (hs : ∀ v ∈ vs, v.mode = .soft)
    (c : Compensator) : View.scopeWithinAll vs (some (.available c)) =
      some (.available { c with views := c.views ++ vs }) := by
  induction vs generalizing c with
  | nil =>
    rw [List.append_nil]
    rfl
  | cons v vs ih =>
    have hv : v.scopeWithin (some (.available c)) =
        .available { c with views := c.views ++ [v] } := by
      rw [scopeWithin, hs v List.mem_cons_self]
      rfl
    have htail := ih (fun u hu => hs u (List.mem_cons_of_mem v hu))
      { c with views := c.views ++ [v] }
    show View.scopeWithinAll vs (some (v.scopeWithin (some (.available c)))) = _
    rw [hv, htail, List.append_assoc]
    rfl

/-- The scope that a body finds is that of its views inside the scope of its worker. -/
theorem Plant.enterViews_scope {ν : Type} (vs : List View) (scope : Option TaskScope)
    (frames : List (Frame ν)) :
    (Plant.enterViews vs scope frames).1 = View.scopeWithinAll vs scope := by
  induction vs generalizing scope frames with
  | nil => rfl
  | cons v vs ih => exact ih _ _

/-! ## Raises and lowerings -/

variable {τ : Type}

/-- The view whose limit a chore raises or lowers. -/
def Chore.adjusts : Chore τ → Option View
  | .raise v => some v
  | .lower v => some v
  | _ => none

namespace Traffic

/-- A worker and views are those of a compensator that a task called so far can have in reach. -/
def Compensates (s : Traffic τ) (w : Option Nat) (vs : List Nat) : Prop :=
  ∃ (t : τ) (route : List View) (u : WorkerId) (c : Compensator), s.Called t route ∧
    Scope.compensator? (View.scopeWithinAll route.reverse (some u.scope)) = some c ∧
    w = c.worker.map WorkerId.worker ∧ vs = c.views.map View.id

/-- An act raises and lowers limits through compensators only. -/
def ByCompensator (s : Traffic τ) : Act τ → Prop
  | .raise w vs => s.Compensates w vs
  | .lower w vs => s.Compensates w vs
  | _ => True

/-- The limits of exclusive views are left alone. -/
def Calm (s : Traffic τ) : Prop :=
  ∀ c ∈ s.threads.flatten, ∀ v, c.adjusts = some v → v.mode = .soft

/-- The views of a compensator, by number, are soft. -/
theorem Compensates.soft {s : Traffic τ} (h : s.Charted) {w : Option Nat} {vs : List Nat}
    (hc : s.Compensates w vs) {v : View} (hv : v ∈ vs.filterMap fun i => s.views[i]?) :
    v.mode = .soft := by
  obtain ⟨t, route, u, c, hcalled, hscope, -, rfl⟩ := hc
  obtain ⟨i, hi, hv⟩ := List.mem_filterMap.mp hv
  obtain ⟨x, hx, rfl⟩ := List.mem_map.mp hi
  obtain ⟨hroute, hsoft⟩ := View.soft_of_compensator hscope hx
  have hk : s.Known x := (h.routes t route hcalled).known x (List.mem_reverse.mp hroute)
  cases hk.symm.trans hv
  exact hsoft

variable [Kinded τ]

/-- All acts of a run raise and lower limits through compensators only. -/
def Compensated : Traffic τ → List (Act τ) → Prop
  | _, [] => True
  | s, a :: as => s.ByCompensator a ∧ Compensated (s.step a) as

theorem compensated_append {s : Traffic τ} {as bs : List (Act τ)} :
    Compensated s (as ++ bs) ↔ Compensated s as ∧ Compensated (s.run as) bs := by
  induction as generalizing s with
  | nil => exact ⟨fun h => ⟨trivial, h⟩, And.right⟩
  | cons a as ih => exact (and_congr_right fun _ => ih).trans and_assoc.symm

/-- Without raises and lowerings there is nothing to compensate. -/
theorem compensated_of_ne {as : List (Act τ)}
    (h : ∀ a ∈ as, ∀ w vs, a ≠ .raise w vs ∧ a ≠ .lower w vs) (s : Traffic τ) :
    Compensated s as := by
  induction as generalizing s with
  | nil => trivial
  | cons a as ih =>
    refine ⟨?_, ih (fun b hb => h b (List.mem_cons_of_mem a hb)) _⟩
    have ha := h a List.mem_cons_self
    cases a with
    | raise w vs => exact absurd rfl (ha w vs).1
    | lower w vs => exact absurd rfl (ha w vs).2
    | _ => trivial

/-- No chore leaves a raise or a lowering behind. -/
theorem Performs.adjusts {s : Traffic τ} {c : Chore τ} {d : Deed τ} (h : Performs s c d) :
    ∀ e ∈ d.todo, e.adjusts = none := by
  cases h with
  | @idle c hc =>
    intro e he
    rw [List.mem_singleton.mp he]
    cases c <;> first | rfl | cases hc
  | finished =>
    intro e he
    obtain ⟨j, -, rfl⟩ := mem_turnChores.mp he
    rfl
  | died =>
    intro e he
    rw [Pool.die_fst] at he
    cases he
  | discarded =>
    intro e he
    obtain ⟨v, -, rfl⟩ := List.mem_map.mp he
    rfl
  | _ => simp [refuse, taken, Chore.adjusts]

theorem calm_step {s : Traffic τ} (h : s.Calm) (hc : s.Charted) {a : Act τ}
    (ha : s.ByCompensator a) : (s.step a).Calm := by
  intro c hm v hv
  rcases (steps s a).chore hm with hm | hb
  · exact h c hm v hv
  · cases hb with
    | raises hu =>
      cases hv
      exact Compensates.soft hc ha hu
    | lowers hu =>
      cases hv
      exact Compensates.soft hc ha hu
    | left _ hp he => cases (hp.adjusts c he).symm.trans hv
    | _ => cases hv

/-- Where limits are raised and lowered through compensators only, those of exclusive views are
left alone. -/
theorem calm_run (c : Config) {as : List (Act τ)} (h : Compensated (start c) as) :
    ((start c).run as).Calm := by
  -- induction on the number of acts
  induction as using List.reverseRecOn with
  | nil => exact nofun
  | append_singleton as a ih =>
    obtain ⟨has, ha, -⟩ := compensated_append.mp h
    rw [run_concat]
    exact calm_step (ih has) (charted_run c as) ha

end Traffic

end Workforce
