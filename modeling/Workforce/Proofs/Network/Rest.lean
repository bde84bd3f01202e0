import Workforce.Proofs.Network.Sound

/-
  Pools at rest. If the queues and counters of a pool are empty, then so are the gates of all
  views over it, however deep they are nested (`rest_empty`): a gate counts as running what passed
  it, what passed it waits further down, and below the lowest gate there is only the pool.
-/

namespace Workforce.Network

variable {τ : Type} [Kinded τ]

omit [Kinded τ] in
/-- A job that fits before a dispatcher over another pool did not pass the view. -/
theorem passes_eq_zero_of_pool {vs : List View} {v : View} {d : Dispatcher} {j : Job τ}
    (hv : vs[v.id]? = some v) (hj : j.Fits vs d) (hd : d.poolId ≠ v.parent.poolId) :
    j.passes v.id = 0 := by
  refine Job.passes_eq_zero fun u hu he => hd ?_
  have hon : vs[u.id]? = some u := hj.charted u hu
  rw [he] at hon
  have huv : u = v := Option.some.inj (hon.symm.trans hv)
  rw [← hj.pool u hu, huv]

/-- If a pool is at rest, the gates of the views over it are empty. -/
theorem rest_empty {vs : List View} {out : Nat → Nat} {n : Network τ} (h : Sound vs out n)
    (hout : ∀ i, out i = n.running i) (hset : ∀ i, n.SettledAt i)
    (hlimit : ∀ (i : Nat) (x : Gate (Job τ)), n.gate? i = some x → 1 ≤ x.limit) {k : Nat}
    {p : Pool (Job τ)} (hp : n.pool? k = some p) (hq : p.queued = 0) (hr : p.running = 0) :
    ∀ (i : Nat) (v : View) (x : Gate (Job τ)), vs[i]? = some v → v.parent.poolId = k →
      n.gate? i = some x → x.running = 0 ∧ x.queue = [] := by
  intro i
  -- induction on the number of the view: the gates below it are empty
  induction i using Nat.strongRecOn with
  | ind i ih =>
    intro v x hv hk hx
    obtain ⟨hid, -⟩ := h.chart i v hv
    subst hid
    have hpools : ∀ f b : Job τ → Nat, (∀ j : Job τ, j.passes v.id = 0 → f j = 0 ∧ b j = 0) →
        (n.pools.map fun q => q.holding f b).sum = 0 := by
      intro f b hfb
      rw [List.sum_eq_zero_iff, List.forall_mem_map]
      intro q hm
      obtain ⟨m, hm⟩ := List.getElem?_of_mem hm
      by_cases hmk : m = k
      · subst hmk
        cases hp.symm.trans hm
        exact (h.healthy m p hp).holding_eq_zero hq hr f b
      · have hz : ∀ j : Job τ, j.Fits vs (.pool m 0) → j.passes v.id = 0 := fun j hj =>
          passes_eq_zero_of_pool hv hj (hk ▸ hmk)
        exact (h.pooled m q hm).holding_eq_zero (fun j hj => (hfb j (hz j hj)).1)
          fun j hj => (hfb j (hz j hj)).2
    have hgates : (n.gates.map (Gate.passes v.id)).sum = 0 := by
      refine gates_passes_eq_zero fun m y hm j hj => ?_
      obtain ⟨w, hw⟩ := h.exists_view hm
      have hfit := h.gated m w y hw hm j hj
      obtain ⟨hwid, -⟩ := h.chart m w hw
      by_cases hwk : w.parent.poolId = k
      · refine Job.passes_eq_zero fun u hu he => ?_
        have habove := hfit.above u hu w List.mem_cons_self
        have hempty := (ih m (by omega) w y hw hwk hm).2
        rw [hempty] at hj
        cases hj
      · exact passes_eq_zero_of_pool hv hfit (hk ▸ hwk)
    have hrun : x.running = 0 := by
      rw [h.tally v.id x hx, hout]
      unfold waiting running
      rw [hpools _ _ fun j hj => ⟨hj, rfl⟩, hpools _ _ fun j hj => ⟨rfl, hj⟩, hgates]
    refine ⟨hrun, ?_⟩
    by_cases hqueue : x.queue = []
    · exact hqueue
    · have hfull := hset v.id x hx hqueue
      have hone := hlimit v.id x hx
      omega

end Workforce.Network
