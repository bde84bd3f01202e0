import Workforce.Proofs.Network.Chart
import Workforce.Proofs.Pool.Health

/-
  Sound networks. In a sound network pools are healthy, every job is where the views that it
  passed lead to, and the gate of a view counts as running the jobs that passed it and wait
  further down, besides the admissions `out` that threads hold.

  Updates of one pool (`Sound.setPool`, `Sound.turn`) or one gate (`Sound.setGate`) keep a network
  sound. What they leave alone is summed up in `Calm`.
-/

namespace Workforce

variable {τ : Type}

namespace Network

variable [Kinded τ]

/-! ## Sound networks -/

/-- How often the waiting jobs of a network passed a view. -/
def waiting (n : Network τ) (i : Nat) : Nat :=
  (n.pools.map fun p => p.holding (Job.passes i) fun _ => 0).sum + (n.gates.map (Gate.passes i)).sum

/-- How often the jobs that workers run passed a view. -/
def running (n : Network τ) (i : Nat) : Nat :=
  (n.pools.map fun p => p.holding (fun _ => 0) (Job.passes i)).sum

/-- What a worker runs. -/
def taskAt (n : Network τ) (w : WorkerId) : Option (Job τ) :=
  (n.pool? w.pool).bind fun p => p.taskOf? w.worker

/-- Pools are healthy, jobs are on their way, and gates count what passed them. -/
structure Sound (vs : List View) (out : Nat → Nat) (n : Network τ) : Prop where
  size : vs.length = n.gates.length
  chart : ∀ (i : Nat) (v : View), vs[i]? = some v →
    v.id = i ∧ v.toDispatcher.Leads vs n.pools.length
  healthy : ∀ (k : Nat) (p : Pool (Job τ)), n.pool? k = some p → p.Healthy
  pooled : ∀ (k : Nat) (p : Pool (Job τ)), n.pool? k = some p →
    p.AllTasks fun j => j.Fits vs (.pool k 0)
  gated : ∀ (i : Nat) (v : View) (x : Gate (Job τ)), vs[i]? = some v → n.gate? i = some x →
    ∀ j ∈ x.queue, j.Fits vs v.toDispatcher
  tally : ∀ (i : Nat) (x : Gate (Job τ)), n.gate? i = some x → x.running = n.waiting i + out i

/-- The gate with a number is full if tasks wait there. -/
def SettledAt (n : Network τ) (i : Nat) : Prop := ∀ x, n.gate? i = some x → x.Settled

/-- What workers run is left alone. -/
structure Calm (n n' : Network τ) : Prop where
  pools : n'.pools.length = n.pools.length
  gates : n'.gates.length = n.gates.length
  task : ∀ w, n'.taskAt w = n.taskAt w
  running : ∀ i, n'.running i = n.running i

omit [Kinded τ] in
theorem Calm.refl (n : Network τ) : Calm n n := ⟨rfl, rfl, fun _ => rfl, fun _ => rfl⟩

omit [Kinded τ] in
theorem Calm.trans {n n' n'' : Network τ} (h : Calm n n') (h' : Calm n' n'') : Calm n n'' :=
  ⟨h'.pools.trans h.pools, h'.gates.trans h.gates, fun w => (h'.task w).trans (h.task w),
    fun i => (h'.running i).trans (h.running i)⟩

/-- Limits of views are left alone as well. -/
structure Keeps (n n' : Network τ) : Prop extends Calm n n' where
  limit : ∀ i, n'.limitOf i = n.limitOf i

omit [Kinded τ] in
theorem Keeps.trans {n n' n'' : Network τ} (h : Keeps n n') (h' : Keeps n' n'') : Keeps n n'' :=
  ⟨h.toCalm.trans h'.toCalm, fun i => (h'.limit i).trans (h.limit i)⟩

theorem Sound.on {vs : List View} {out : Nat → Nat} {n : Network τ} (h : Sound vs out n) {v : View}
    (hv : v.On vs) : v.toDispatcher.Leads vs n.pools.length := (h.chart v.id v hv).2

/-- The gate of a view of the chart is there. -/
theorem Sound.exists_gate {vs : List View} {out : Nat → Nat} {n : Network τ} (h : Sound vs out n)
    {v : View} (hv : v.On vs) : ∃ x, n.gate? v.id = some x := by
  obtain ⟨hi, -⟩ := List.getElem?_eq_some_iff.mp hv
  rw [h.size] at hi
  exact ⟨_, List.getElem?_eq_getElem hi⟩

/-- A gate is that of a view of the chart. -/
theorem Sound.exists_view {vs : List View} {out : Nat → Nat} {n : Network τ} (h : Sound vs out n)
    {i : Nat} {x : Gate (Job τ)} (hx : n.gate? i = some x) : ∃ v, vs[i]? = some v := by
  obtain ⟨hi, -⟩ := List.getElem?_eq_some_iff.mp hx
  rw [← h.size] at hi
  exact ⟨_, List.getElem?_eq_getElem hi⟩

omit [Kinded τ] in
theorem exists_pool {n : Network τ} {k : Nat} (hk : k < n.pools.length) : ∃ p, n.pool? k = some p :=
  ⟨_, List.getElem?_eq_getElem hk⟩

omit [Kinded τ] in
/-- No job that waits at a gate passed a view. -/
theorem gates_passes_eq_zero {n : Network τ} {i : Nat}
    (h : ∀ (k : Nat) (x : Gate (Job τ)), n.gate? k = some x → ∀ j ∈ x.queue, j.passes i = 0) :
    (n.gates.map (Gate.passes i)).sum = 0 := by
  rw [List.sum_eq_zero_iff, List.forall_mem_map]
  intro x hx
  unfold Gate.passes
  rw [List.sum_eq_zero_iff, List.forall_mem_map]
  intro j hj
  obtain ⟨k, hk⟩ := List.getElem?_of_mem hx
  exact h k x hk j hj

theorem Sound.congr {vs : List View} {out out' : Nat → Nat} {n : Network τ} (h : Sound vs out n)
    (he : ∀ i, out i = out' i) : Sound vs out' n := by
  refine ⟨h.size, h.chart, h.healthy, h.pooled, h.gated, fun i x hx => ?_⟩
  rw [← he]
  exact h.tally i x hx

/-! ## Changing a pool -/

omit [Kinded τ] in
theorem pool?_setPool (n : Network τ) {k : Nat} {p : Pool (Job τ)} (q : Pool (Job τ))
    (hp : n.pool? k = some p) (i : Nat) :
    (n.setPool k q).pool? i = if i = k then some q else n.pool? i := by
  unfold pool? setPool at *
  obtain ⟨hk, -⟩ := List.getElem?_eq_some_iff.mp hp
  rw [List.getElem?_set]
  by_cases h : k = i
  · subst h
    rw [if_pos rfl, if_pos rfl, if_pos hk]
  · rw [if_neg h, if_neg (Ne.symm h)]

omit [Kinded τ] in
theorem waiting_setPool (n : Network τ) {k : Nat} {p : Pool (Job τ)} (q : Pool (Job τ))
    (hp : n.pool? k = some p) (i : Nat) :
    (n.setPool k q).waiting i + p.holding (Job.passes i) (fun _ => 0) =
      n.waiting i + q.holding (Job.passes i) fun _ => 0 := by
  have hs := sum_map_set (fun p : Pool (Job τ) => p.holding (Job.passes i) fun _ => 0) q hp
  unfold waiting
  change ((n.pools.set k q).map _).sum + (n.gates.map _).sum + _ = _
  omega

omit [Kinded τ] in
theorem running_setPool (n : Network τ) {k : Nat} {p : Pool (Job τ)} (q : Pool (Job τ))
    (hp : n.pool? k = some p) (i : Nat) :
    (n.setPool k q).running i + p.holding (fun _ => 0) (Job.passes i) =
      n.running i + q.holding (fun _ => 0) (Job.passes i) :=
  sum_map_set (fun p : Pool (Job τ) => p.holding (fun _ => 0) (Job.passes i)) q hp

omit [Kinded τ] in
theorem taskAt_setPool (n : Network τ) {k : Nat} {p : Pool (Job τ)} (q : Pool (Job τ))
    (hp : n.pool? k = some p) (w : WorkerId) :
    (n.setPool k q).taskAt w = if w.pool = k then q.taskOf? w.worker else n.taskAt w := by
  unfold taskAt
  rw [pool?_setPool n q hp]
  split <;> rfl

/-- A pool was replaced by a healthy one whose jobs fit. -/
theorem Sound.setPool {vs : List View} {out out' : Nat → Nat} {n : Network τ} (h : Sound vs out n)
    {k : Nat} {p q : Pool (Job τ)} (hp : n.pool? k = some p) (hq : q.Healthy)
    (hall : q.AllTasks fun j => j.Fits vs (.pool k 0))
    (hsum : ∀ i, q.holding (Job.passes i) (fun _ => 0) + out' i =
      p.holding (Job.passes i) (fun _ => 0) + out i) : Sound vs out' (n.setPool k q) := by
  have hlen : (n.setPool k q).pools.length = n.pools.length := List.length_set
  refine ⟨h.size, ?_, ?_, ?_, h.gated, ?_⟩
  · rw [hlen]
    exact h.chart
  · intro i r hr
    rw [pool?_setPool n q hp] at hr
    split at hr
    · cases hr
      exact hq
    · exact h.healthy i r hr
  · intro i r hr
    rw [pool?_setPool n q hp] at hr
    split at hr
    case isTrue hi =>
      cases hr
      rw [hi]
      exact hall
    case isFalse => exact h.pooled i r hr
  · intro i x hx
    have hw := waiting_setPool n q hp i
    have ht := h.tally i x hx
    have hs := hsum i
    omega

/-- Tasks came to wait in a pool. -/
theorem Sound.gains {vs : List View} {out : Nat → Nat} {n : Network τ} (h : Sound vs out n)
    (out' : Nat → Nat) {k : Nat} {p q : Pool (Job τ)} {js : List (Job τ)} (hp : n.pool? k = some p)
    (hg : p.Gains q js) (hj : ∀ j ∈ js, j.Fits vs (.pool k 0))
    (hout : ∀ i, out i = out' i + (js.map (Job.passes i)).sum) :
    Sound vs out' (n.setPool k q) ∧ Calm n (n.setPool k q) := by
  refine ⟨h.setPool hp (hg.healthy (h.healthy k p hp)) (hg.allTasks (h.pooled k p hp) hj) ?_, ?_⟩
  · intro i
    rw [hg.holding, hout]
    omega
  · refine ⟨List.length_set, rfl, fun w => ?_, fun i => ?_⟩
    · rw [taskAt_setPool n q hp]
      split
      case isTrue hw =>
        rw [hg.task, taskAt, hw, hp]
        rfl
      case isFalse => rfl
    · have hr := running_setPool n q hp i
      have hz : (js.map fun _ => 0).sum = 0 :=
        List.sum_eq_zero (List.forall_mem_map.mpr fun _ _ => rfl)
      rw [hg.holding, hz] at hr
      omega

/-- A worker took a turn. What it starts is not waiting any more. -/
theorem Sound.turn {vs : List View} {out : Nat → Nat} {n : Network τ} (h : Sound vs out n)
    {k w : Nat} {p : Pool (Job τ)} {x : Worker (Job τ)} {r : Pool.Turn (Job τ) × Pool (Job τ)}
    (hp : n.pool? k = some p) (ht : p.Turns w x r) :
    Sound vs (fun i => out i + Worth (Job.passes i) r.1.started) (n.setPool k r.2) ∧
    (∀ i, (n.setPool k r.2).running i + Worth (Job.passes i) x.phase.task? =
      n.running i + Worth (Job.passes i) r.1.started) ∧
    ∀ u, (n.setPool k r.2).taskAt u = if u = ⟨k, w⟩ then r.1.started else n.taskAt u := by
  have hhealthy := h.healthy k p hp
  refine ⟨h.setPool hp (ht.healthy hhealthy) (ht.allTasks hhealthy (h.pooled k p hp)) ?_, ?_, ?_⟩
  · intro i
    have hl := ht.law (Job.passes i) fun _ => 0
    unfold Pool.TurnLaw at hl
    rw [worth_zero, worth_zero, ht.lifted hhealthy] at hl
    omega
  · intro i
    have hl := ht.law (fun _ => 0) (Job.passes i)
    unfold Pool.TurnLaw at hl
    rw [worth_zero] at hl
    have hr := running_setPool n r.2 hp i
    omega
  · intro u
    rw [taskAt_setPool n r.2 hp, ht.task]
    obtain ⟨up, uw⟩ := u
    by_cases hu : up = k
    · subst hu
      by_cases hw : uw = w
      · subst hw
        simp
      · have hn : (⟨up, uw⟩ : WorkerId) ≠ ⟨up, w⟩ := fun he => hw (congrArg WorkerId.worker he)
        rw [if_pos rfl, if_neg hw, if_neg hn, taskAt, hp]
        rfl
    · have hn : (⟨up, uw⟩ : WorkerId) ≠ ⟨k, w⟩ := fun he => hu (congrArg WorkerId.pool he)
      rw [if_neg hu, if_neg hn]

/-! ## Changing a gate -/

omit [Kinded τ] in
theorem gate?_setGate (n : Network τ) {i : Nat} {x : Gate (Job τ)} (y : Gate (Job τ))
    (hx : n.gate? i = some x) (k : Nat) :
    (n.setGate i y).gate? k = if k = i then some y else n.gate? k := by
  unfold gate? setGate at *
  obtain ⟨hi, -⟩ := List.getElem?_eq_some_iff.mp hx
  rw [List.getElem?_set]
  by_cases h : i = k
  · subst h
    rw [if_pos rfl, if_pos rfl, if_pos hi]
  · rw [if_neg h, if_neg (Ne.symm h)]

omit [Kinded τ] in
theorem calm_setGate (n : Network τ) (i : Nat) (y : Gate (Job τ)) : Calm n (n.setGate i y) :=
  ⟨rfl, List.length_set, fun _ => rfl, fun _ => rfl⟩

omit [Kinded τ] in
theorem limitOf_setGate (n : Network τ) {i : Nat} {x : Gate (Job τ)} (y : Gate (Job τ))
    (hx : n.gate? i = some x) (k : Nat) :
    (n.setGate i y).limitOf k = if k = i then y.limit else n.limitOf k := by
  unfold limitOf
  rw [gate?_setGate n y hx]
  split <;> rfl

omit [Kinded τ] in
/-- A gate that keeps its limit. -/
theorem keeps_setGate {n : Network τ} {i : Nat} {x y : Gate (Job τ)} (hx : n.gate? i = some x)
    (hy : y.limit = x.limit) : Keeps n (n.setGate i y) := by
  refine ⟨calm_setGate n i y, fun k => ?_⟩
  rw [limitOf_setGate n y hx]
  split
  case isTrue hk =>
    subst hk
    rw [hy, limitOf, hx]
    rfl
  case isFalse => rfl

omit [Kinded τ] in
theorem keeps_setPool {n : Network τ} {k : Nat} {q : Pool (Job τ)} (h : Calm n (n.setPool k q)) :
    Keeps n (n.setPool k q) := ⟨h, fun _ => rfl⟩

omit [Kinded τ] in
theorem settledAt_setGate {n : Network τ} {i : Nat} {x y : Gate (Job τ)} (hx : n.gate? i = some x)
    (hy : x.Settled → y.Settled) (k : Nat) (h : n.SettledAt k) : (n.setGate i y).SettledAt k := by
  intro z hz
  rw [gate?_setGate n y hx] at hz
  split at hz
  case isTrue hk =>
    cases hz
    subst hk
    exact hy (h x hx)
  case isFalse => exact h z hz

/-- A gate was changed, and what it counts balances with what it holds. -/
theorem Sound.setGate {vs : List View} {out out' : Nat → Nat} {n : Network τ} (h : Sound vs out n)
    {i : Nat} {x y : Gate (Job τ)} (hx : n.gate? i = some x)
    (hq : ∀ j ∈ y.queue, j ∈ x.queue ∨ ∀ v, vs[i]? = some v → j.Fits vs v.toDispatcher)
    (hsum : ∀ k, y.passes k + out' k + (if k = i then x.running else 0) =
      x.passes k + out k + if k = i then y.running else 0) : Sound vs out' (n.setGate i y) := by
  refine ⟨?_, h.chart, h.healthy, h.pooled, ?_, ?_⟩
  · rw [h.size]
    exact List.length_set.symm
  · intro k v z hv hz j hj
    rw [gate?_setGate n y hx] at hz
    split at hz
    case isTrue hk =>
      cases hz
      subst hk
      rcases hq j hj with hm | hf
      · exact h.gated k v x hv hx j hm
      · exact hf v hv
    case isFalse => exact h.gated k v z hv hz j hj
  · intro k z hz
    have hw : (n.setGate i y).waiting k + x.passes k = n.waiting k + y.passes k := by
      have hs := sum_map_set (Gate.passes k) y hx
      unfold waiting
      change (n.pools.map _).sum + ((n.gates.set i y).map _).sum + _ = _
      omega
    have hs := hsum k
    rw [gate?_setGate n y hx] at hz
    split at hz
    case isTrue hk =>
      cases hz
      subst hk
      have ht := h.tally k x hx
      rw [if_pos rfl, if_pos rfl] at hs
      omega
    case isFalse hk =>
      have ht := h.tally k z hz
      rw [if_neg hk, if_neg hk] at hs
      omega

end Network

end Workforce
