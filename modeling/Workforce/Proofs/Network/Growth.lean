import Workforce.Proofs.Network.Sound

/-
  Networks that grow. A sound network stays sound when a pool that holds nothing is added
  (`Sound.addPool`), or the gate of a new view over a dispatcher of the network
  (`Sound.addGate`). The chart grows with the gates, and what fitted a chart fits a longer one.
-/

namespace Workforce

variable {τ : Type}

/-! ## Longer charts -/

theorem Dispatcher.Leads.grow {d : Dispatcher} {vs : List View} {pools pools' : Nat}
    (h : d.Leads vs pools) (us : List View) (hp : pools ≤ pools') : d.Leads (vs ++ us) pools' :=
  ⟨Nat.lt_of_lt_of_le h.pool hp, fun v hv => (h.charted v hv).append us, h.falling⟩

theorem Job.Fits.append {j : Job τ} {vs : List View} {d : Dispatcher} (h : j.Fits vs d)
    (us : List View) : j.Fits (vs ++ us) d :=
  ⟨fun u hu => (h.charted u hu).append us, h.pool, h.above⟩

/-- A job did not pass a view that is not in the chart yet. -/
theorem Job.Fits.passes_eq_zero {j : Job τ} {vs : List View} {d : Dispatcher} (h : j.Fits vs d)
    {i : Nat} (hi : vs.length ≤ i) : j.passes i = 0 :=
  Job.passes_eq_zero fun v hv he => by
    have hlt := (h.charted v hv).id_lt
    omega

/-- A new view over a dispatcher leads where that leads. -/
theorem View.leads_new {d : Dispatcher} {vs : List View} {pools : Nat} (h : d.Leads vs pools)
    {v : View} (hi : v.id = vs.length) (hd : v.parent = d) :
    v.toDispatcher.Leads (vs ++ [v]) pools := by
  subst hd
  refine ⟨h.pool, fun u hu => ?_, ?_⟩
  · rcases List.mem_cons.mp hu with hu | hu
    · have huv : u = v := hu
      rw [huv]
      unfold View.On
      rw [hi]
      exact List.getElem?_concat_length
    · exact (h.charted u hu).append [v]
  · refine List.pairwise_cons.mpr ⟨fun u hu => ?_, h.falling⟩
    rw [hi]
    exact (h.charted u hu).id_lt

namespace Network

variable [Kinded τ]

/-! ## A pool added -/

omit [Kinded τ] in
theorem taskAt_append {n : Network τ} {w : WorkerId} {j : Job τ} (h : n.taskAt w = some j)
    (q : Pool (Job τ)) : ({ n with pools := n.pools ++ [q] } : Network τ).taskAt w = some j := by
  unfold taskAt pool? at h ⊢
  obtain ⟨p, hp, ht⟩ := Option.bind_eq_some_iff.mp h
  obtain ⟨hlt, -⟩ := List.getElem?_eq_some_iff.mp hp
  dsimp only
  rw [List.getElem?_append_left hlt, hp]
  exact ht

/-- A pool that holds nothing is added. -/
theorem Sound.addPool {vs : List View} {out : Nat → Nat} {n : Network τ} (h : Sound vs out n)
    {q : Pool (Job τ)} (hq : q.Healthy) (hz : ∀ f b : Job τ → Nat, q.holding f b = 0) :
    Sound vs out { n with pools := n.pools ++ [q] } ∧
    ∀ i, ({ n with pools := n.pools ++ [q] } : Network τ).running i = n.running i := by
  have hlen : n.pools.length ≤ (n.pools ++ [q]).length := by
    rw [List.length_append]
    exact Nat.le_add_right ..
  have hsum : ∀ f b : Job τ → Nat, ((n.pools ++ [q]).map fun p => p.holding f b).sum =
      (n.pools.map fun p => p.holding f b).sum := by
    intro f b
    rw [List.map_append, List.sum_append]
    simp [hz]
  refine ⟨⟨h.size, fun i v hv => ?_, fun k p hp => ?_, fun k p hp => ?_, h.gated,
    fun i x hx => ?_⟩, fun i => hsum _ _⟩
  · obtain ⟨hi, hl⟩ := h.chart i v hv
    refine ⟨hi, ?_⟩
    have hg := hl.grow [] hlen
    rw [List.append_nil] at hg
    exact hg
  · rcases getElem?_concat_cases hp with hp | ⟨-, rfl⟩
    · exact h.healthy k p hp
    · exact hq
  · rcases getElem?_concat_cases hp with hp | ⟨-, rfl⟩
    · exact h.pooled k p hp
    · exact hz _ _
  · rw [h.tally i x hx]
    unfold waiting
    dsimp only
    rw [hsum]

/-! ## A gate added -/

/-- Nothing in a sound network passed a view that is not in its chart. -/
theorem Sound.idle {vs : List View} {out : Nat → Nat} {n : Network τ} (h : Sound vs out n) {i : Nat}
    (hi : vs.length ≤ i) : n.waiting i = 0 ∧ n.running i = 0 := by
  have hpools : ∀ f b : Job τ → Nat, (∀ j : Job τ, j.passes i = 0 → f j = 0 ∧ b j = 0) →
      (n.pools.map fun p => p.holding f b).sum = 0 := by
    intro f b hfb
    rw [List.sum_eq_zero_iff, List.forall_mem_map]
    intro p hp
    obtain ⟨k, hp⟩ := List.getElem?_of_mem hp
    exact (h.pooled k p hp).holding_eq_zero (fun j hj => (hfb j (hj.passes_eq_zero hi)).1)
      fun j hj => (hfb j (hj.passes_eq_zero hi)).2
  have hgates : (n.gates.map (Gate.passes i)).sum = 0 := by
    refine gates_passes_eq_zero fun k x hx j hj => ?_
    obtain ⟨v, hv⟩ := h.exists_view hx
    exact (h.gated k v x hv hx j hj).passes_eq_zero hi
  refine ⟨?_, hpools _ _ fun j hj => ⟨rfl, hj⟩⟩
  unfold waiting
  rw [hpools _ _ fun j hj => ⟨hj, rfl⟩, hgates]

omit [Kinded τ] in
theorem limitOf_append (n : Network τ) (limit : Nat) {i : Nat} (hi : i ≤ n.gates.length) :
    ({ n with gates := n.gates ++ [{ limit }] } : Network τ).limitOf i =
      if i = n.gates.length then limit else n.limitOf i := by
  unfold limitOf gate?
  dsimp only
  split
  case isTrue he =>
    rw [he, List.getElem?_concat_length]
    rfl
  case isFalse hne =>
    rw [List.getElem?_append_left (by omega)]

/-- The gate of a new view over a dispatcher is added. -/
theorem Sound.addGate {vs : List View} {out : Nat → Nat} {n : Network τ} (h : Sound vs out n)
    {v : View} (hi : v.id = vs.length) (hd : v.parent.Leads vs n.pools.length)
    (hout : out vs.length = 0) (limit : Nat) :
    Sound (vs ++ [v]) out { n with gates := n.gates ++ [{ limit }] } := by
  have hwaiting : ∀ i, ({ n with gates := n.gates ++ [{ limit }] } : Network τ).waiting i =
      n.waiting i := by
    intro i
    unfold waiting
    dsimp only
    rw [List.map_append, List.sum_append]
    rfl
  refine ⟨?_, fun i u hu => ?_, h.healthy, fun k p hp => ?_, fun i u x hu hx j hj => ?_,
    fun i x hx => ?_⟩
  · dsimp only
    rw [List.length_append, List.length_append, h.size]
    rfl
  · rcases getElem?_concat_cases hu with hu | ⟨rfl, rfl⟩
    · obtain ⟨hid, hl⟩ := h.chart i u hu
      exact ⟨hid, hl.grow [v] (Nat.le_refl _)⟩
    · exact ⟨hi, View.leads_new hd hi rfl⟩
  · exact (h.pooled k p hp).imp fun j hj => hj.append [v]
  · rcases getElem?_concat_cases hx with hx | ⟨-, rfl⟩
    · rcases getElem?_concat_cases hu with hu | ⟨rfl, -⟩
      · exact (h.gated i u x hu hx j hj).append [v]
      · rw [h.size, List.getElem?_eq_none (Nat.le_refl _)] at hx
        cases hx
    · cases hj
  · rw [hwaiting]
    rcases getElem?_concat_cases hx with hx | ⟨rfl, rfl⟩
    · exact h.tally i x hx
    · rw [(h.idle (Nat.le_of_eq h.size)).1, ← h.size, hout]

end Network

end Workforce
