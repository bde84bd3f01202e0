import Workforce.Network

/-
  Frames of the functions on networks. Handing a job on, submitting one and refilling a view touch
  no gates but those on the way down from the dispatcher, and add none. Nothing is assumed of the
  network here.
-/

namespace Workforce.Network

variable {τ : Type} [Kinded τ]

/-- No gate was added, and some gates were left alone. -/
structure Spares (P : Nat → Prop) (n n' : Network τ) : Prop where
  length : n'.gates.length = n.gates.length
  gate : ∀ k, P k → n'.gate? k = n.gate? k

omit [Kinded τ] in
theorem Spares.refl (P : Nat → Prop) (n : Network τ) : Spares P n n := ⟨rfl, fun _ _ => rfl⟩

omit [Kinded τ] in
theorem Spares.trans {P : Nat → Prop} {n n' n'' : Network τ} (h : Spares P n n')
    (h' : Spares P n' n'') : Spares P n n'' :=
  ⟨h'.length.trans h.length, fun k hk => (h'.gate k hk).trans (h.gate k hk)⟩

omit [Kinded τ] in
theorem onGate_id (n : Network τ) (i : Nat) : n.onGate i id = n := by
  unfold onGate
  rw [List.modify_id]

omit [Kinded τ] in
theorem spares_onGate {P : Nat → Prop} (n : Network τ) {i : Nat} (hi : ¬ P i)
    (f : Gate (Job τ) → Gate (Job τ)) : Spares P n (n.onGate i f) := by
  refine ⟨List.length_modify .., fun k hk => ?_⟩
  have hne : i ≠ k := fun he => hi (he ▸ hk)
  unfold gate? onGate
  dsimp only
  rw [List.getElem?_modify]
  simp only [if_neg hne]
  exact Option.map_id'

omit [Kinded τ] in
theorem spares_setGate {P : Nat → Prop} (n : Network τ) {i : Nat} (hi : ¬ P i) (x : Gate (Job τ)) :
    Spares P n (n.setGate i x) := by
  refine ⟨List.length_set, fun k hk => ?_⟩
  have hne : i ≠ k := fun he => hi (he ▸ hk)
  unfold gate? setGate
  dsimp only
  rw [List.getElem?_set, if_neg hne]

omit [Kinded τ] in
theorem spares_admitWaiting {P : Nat → Prop} {f : Job τ → Network τ → Bool × Network τ}
    (hf : ∀ j n, Spares P n (f j n).2) {v : View} (hv : ¬ P v.id) (fuel : Nat) :
    ∀ n : Network τ, Spares P n (admitWaiting f v fuel n) := by
  induction fuel with
  | zero => exact fun n => Spares.refl P n
  | succ fuel ih =>
    intro n
    rw [admitWaiting]
    split
    case h_1 => exact Spares.refl P n
    case h_2 j x _ =>
      have hfwd := (spares_setGate n hv x).trans (hf (j.admittedBy v) (n.setGate v.id x))
      split
      case h_1 n' hn =>
        rw [hn] at hfwd
        exact hfwd.trans (ih n')
      case h_2 n' hn =>
        rw [hn] at hfwd
        exact hfwd.trans ((spares_onGate n' hv Gate.release).trans (ih _))

theorem spares_forward {P : Nat → Prop} (d : Dispatcher) :
    (∀ v ∈ d.views, ¬ P v.id) → ∀ (j : Job τ) (n : Network τ), Spares P n (forward d j n).2 := by
  induction d with
  | pool id core =>
    intro _ j n
    rw [forward]
    split
    · exact ⟨rfl, fun _ _ => rfl⟩
    · exact ⟨rfl, fun _ _ => rfl⟩
  | view id mode base parent ih =>
    intro hd j n
    have hid : ¬ P id := hd ⟨id, mode, base, parent⟩ List.mem_cons_self
    have hparent := ih fun v hv => hd v (List.mem_cons_of_mem _ hv)
    rw [forward]
    split
    case h_1 => exact ⟨rfl, fun _ _ => rfl⟩
    case h_2 x _ =>
      dsimp only
      split
      case h_1 y _ =>
        have hfwd := (spares_setGate n hid y).trans
          (hparent (j.admittedBy ⟨id, mode, base, parent⟩) (n.setGate id y))
        split
        case h_1 n' hn =>
          rw [hn] at hfwd
          exact hfwd
        case h_2 n' hn =>
          rw [hn] at hfwd
          refine hfwd.trans ((spares_onGate n' hid Gate.release).trans ?_)
          exact spares_admitWaiting hparent hid _ _
      case h_2 y _ => exact spares_setGate n hid y
      case h_3 => exact ⟨rfl, fun _ _ => rfl⟩

theorem spares_refill {P : Nat → Prop} (n : Network τ) (v : View)
    (hv : ∀ u ∈ v.toDispatcher.views, ¬ P u.id) (change : Gate (Job τ) → Gate (Job τ)) :
    Spares P n (refill (forward v.parent) v (n.onGate v.id change)) := by
  have hid : ¬ P v.id := hv v List.mem_cons_self
  refine (spares_onGate n hid change).trans ?_
  exact spares_admitWaiting (spares_forward v.parent fun u hu => hv u (List.mem_cons_of_mem v hu))
    hid _ _

theorem spares_submit {P : Nat → Prop} (caller : Option WorkerId) (tail : Bool) (d : Dispatcher) :
    (∀ v ∈ d.views, ¬ P v.id) → ∀ (j : Job τ) (n : Network τ),
      Spares P n (n.submit caller tail d j).2 := by
  induction d with
  | pool id core =>
    intro _ j n
    rw [submit]
    split
    · exact ⟨rfl, fun _ _ => rfl⟩
    · dsimp only
      split
      · exact ⟨rfl, fun _ _ => rfl⟩
      · exact ⟨rfl, fun _ _ => rfl⟩
  | view id mode base parent ih =>
    intro hd j n
    have hid : ¬ P id := hd ⟨id, mode, base, parent⟩ List.mem_cons_self
    rw [submit]
    split
    case h_1 => exact ⟨rfl, fun _ _ => rfl⟩
    case h_2 x _ =>
      dsimp only
      split
      case h_1 y _ =>
        have hsub := (spares_setGate n hid y).trans
          (ih (fun v hv => hd v (List.mem_cons_of_mem _ hv))
            (j.admittedBy ⟨id, mode, base, parent⟩) (n.setGate id y))
        split
        case h_1 n' hn =>
          rw [hn] at hsub
          exact hsub
        case h_2 n' hn =>
          rw [hn] at hsub
          exact hsub.trans (spares_refill n' ⟨id, mode, base, parent⟩ hd Gate.release)
      case h_2 y _ => exact spares_setGate n hid y
      case h_3 => exact ⟨rfl, fun _ _ => rfl⟩

end Workforce.Network
