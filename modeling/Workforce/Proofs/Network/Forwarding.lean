import Workforce.Proofs.Network.Sound

/-
  Forwarding in a sound network. A job that a view accepted is always taken further down
  (`forward_sound`), since no pool was terminated and every view of a chart has its gate. Nothing
  but the gates on the way down is touched, so a view that refills is done after as many rounds
  as tasks wait at it (`refill_sound`), and then tasks wait at full gates only.
-/

namespace Workforce.Network

variable {τ : Type} [Kinded τ]

/-! ## Forwarding -/

/-- A job that passes a gate is counted there. -/
theorem Sound.enter {vs : List View} {out : Nat → Nat} {n : Network τ} {j : Job τ}
    (h : Sound vs (fun i => out i + j.passes i) n) {v : View} {x : Gate (Job τ)}
    (hx : n.gate? v.id = some x) :
    Sound vs (fun i => out i + (j.admittedBy v).passes i)
      (n.setGate v.id { x with running := x.running + 1 }) := by
  refine h.setGate hx (fun _ hj => Or.inl hj) fun k => ?_
  rw [Job.passes_admittedBy]
  show x.passes k + _ + _ = _
  by_cases hk : k = v.id
  · subst hk
    simp only [if_true]
    omega
  · rw [if_neg hk, if_neg hk, if_neg (Ne.symm hk)]
    omega

/-- A job that waits at a gate. -/
theorem Sound.wait {vs : List View} {out : Nat → Nat} {n : Network τ} {j : Job τ}
    (h : Sound vs (fun i => out i + j.passes i) n) {v : View} (hv : v.On vs)
    (hj : j.Fits vs v.toDispatcher) {x : Gate (Job τ)} (hx : n.gate? v.id = some x) :
    Sound vs out (n.setGate v.id { x with queue := x.queue ++ [j] }) := by
  refine h.setGate hx (fun k hk => ?_) fun k => ?_
  · rcases List.mem_append.mp hk with hk | hk
    · exact Or.inl hk
    · rw [List.mem_singleton.mp hk]
      refine Or.inr fun u hu => ?_
      have huv : u = v := Option.some.inj (hu.symm.trans hv)
      exact huv ▸ hj
  · have hp : Gate.passes k { x with queue := x.queue ++ [j] } = x.passes k + j.passes k := by
      simp [Gate.passes]
    rw [hp]
    dsimp only
    omega

/-- A job that a view accepted is taken further down. -/
theorem forward_sound {vs : List View} {d : Dispatcher} :
    ∀ {out : Nat → Nat} {n : Network τ} {j : Job τ},
      Sound vs (fun i => out i + j.passes i) n → d.Leads vs n.pools.length → j.Fits vs d →
      ∃ n', forward d j n = (true, n') ∧ Sound vs out n' ∧ Keeps n n' ∧
        (∀ i, (∀ v ∈ d.views, v.id ≠ i) → n'.gate? i = n.gate? i) ∧
        ∀ i, n.SettledAt i → n'.SettledAt i := by
  -- induction on the way down to the pool
  induction d with
  | pool k core =>
    intro out n j h hd hj
    obtain ⟨p, hp⟩ : ∃ p, n.pool? k = some p := exists_pool hd.pool
    have hkept : p.abandoned = false := (h.healthy k p hp).kept
    have ha : p.submitAccepted j = some (p.queueUp j) := by
      unfold Pool.submitAccepted
      rw [hkept]
      rfl
    obtain ⟨hs, hc⟩ := h.gains out hp (Pool.gains_submitAccepted ha)
      (fun u hu => List.mem_singleton.mp hu ▸ hj.atPool 0) fun i => by simp
    refine ⟨n.setPool k (p.queueUp j), ?_, hs, keeps_setPool hc, fun _ _ => rfl, fun _ hi => hi⟩
    have hb : (n.pool? k).bind (fun pool => pool.submitAccepted j) = some (p.queueUp j) := by
      rw [hp]
      exact ha
    rw [forward, hb]
  | view id mode base parent ih =>
    intro out n j h hd hj
    let v : View := ⟨id, mode, base, parent⟩
    have hv : v.toDispatcher.Leads vs n.pools.length := hd
    obtain ⟨hon, hparent, hbelow⟩ := hv.parent
    obtain ⟨x, hx⟩ := h.exists_gate hon
    have hx' : n.gate? id = some x := hx
    rcases Gate.offer_cases x false j with ⟨hlt, he⟩ | ⟨-, hf, -⟩ | ⟨hle, -, he⟩
    · have henter := h.enter (v := v) hx
      have hkeep : Keeps n (n.setGate v.id { x with running := x.running + 1 }) :=
        keeps_setGate hx rfl
      obtain ⟨n', hn, hs, hk, hg, hset⟩ := ih henter hparent (hj.admittedBy (v := v) hv)
      refine ⟨n', ?_, hs, hkeep.trans hk, fun i hi => ?_, fun i hi => hset i ?_⟩
      · rw [forward, hx']
        dsimp only
        rw [he]
        dsimp only
        rw [hn]
      · rw [hg i fun u hu => hi u (List.mem_cons_of_mem v hu), gate?_setGate n _ hx,
          if_neg fun hiv => hi v List.mem_cons_self hiv.symm]
      · refine settledAt_setGate hx (fun hs hq => ?_) i hi
        exact Nat.le_succ_of_le (hs hq)
    · cases hf
    · have hs := h.wait hon hj hx
      have hkeep : Keeps n (n.setGate v.id { x with queue := x.queue ++ [j] }) :=
        keeps_setGate hx rfl
      refine ⟨_, ?_, hs, hkeep, fun i hi => ?_, fun i hi => ?_⟩
      · rw [forward, hx']
        dsimp only
        rw [he]
      · rw [gate?_setGate n _ hx, if_neg fun hiv => hi v List.mem_cons_self hiv.symm]
      · refine settledAt_setGate hx (fun _ _ => ?_) i hi
        exact hle

/-! ## Refilling -/

omit [Kinded τ] in
/-- A view that admits no one is done. -/
theorem admitWaiting_none (f : Job τ → Network τ → Bool × Network τ) {v : View} {n : Network τ}
    {x : Gate (Job τ)} (hx : n.gate? v.id = some x) (hn : x.admitNext = none) (fuel : Nat) :
    admitWaiting f v (fuel + 1) n = n := by
  simp only [admitWaiting, hx, Option.bind_some, hn]

omit [Kinded τ] in
/-- A view that admits a job goes on once the job was taken. -/
theorem admitWaiting_some {f : Job τ → Network τ → Bool × Network τ} {v : View}
    {n n' : Network τ} {x y : Gate (Job τ)} {j : Job τ} (hx : n.gate? v.id = some x)
    (hn : x.admitNext = some (j, y)) (hf : f (j.admittedBy v) (n.setGate v.id y) = (true, n'))
    (fuel : Nat) : admitWaiting f v (fuel + 1) n = admitWaiting f v fuel n' := by
  simp only [admitWaiting, hx, Option.bind_some, hn, hf]

/-- A job that waited at a gate passes it. -/
theorem Sound.admitFirst {vs : List View} {out : Nat → Nat} {n : Network τ} (h : Sound vs out n)
    {v : View} {x : Gate (Job τ)} {j : Job τ} {rest : List (Job τ)}
    (hx : n.gate? v.id = some x) (hq : x.queue = j :: rest) :
    Sound vs (fun i => out i + (j.admittedBy v).passes i)
      (n.setGate v.id { x with running := x.running + 1, queue := rest }) := by
  refine h.setGate hx (fun k hk => Or.inl (hq ▸ List.mem_cons_of_mem j hk)) fun k => ?_
  have hp : x.passes k = j.passes k + Gate.passes k { x with queue := rest } := by
    simp [Gate.passes, hq]
  rw [Job.passes_admittedBy, hp]
  show Gate.passes k { x with queue := rest } + _ + _ = _
  by_cases hk : k = v.id
  · subst hk
    simp only [if_true]
    omega
  · rw [if_neg hk, if_neg hk, if_neg (Ne.symm hk)]
    omega

/-- A view admits waiting tasks until none waits or it is full. -/
theorem admitWaiting_sound {vs : List View} {out : Nat → Nat} {v : View} (hv : v.On vs) :
    ∀ (fuel : Nat) {n : Network τ}, Sound vs out n →
      (∀ x, n.gate? v.id = some x → x.queue.length ≤ fuel) → (∀ i, i ≠ v.id → n.SettledAt i) →
      Sound vs out (admitWaiting (forward v.parent) v fuel n) ∧
        Keeps n (admitWaiting (forward v.parent) v fuel n) ∧
        ∀ i, (admitWaiting (forward v.parent) v fuel n).SettledAt i := by
  intro fuel
  -- induction on the fuel, which covers the tasks that wait
  induction fuel with
  | zero =>
    intro n h hlen hset
    refine ⟨h, ⟨Calm.refl n, fun _ => rfl⟩, fun i => ?_⟩
    by_cases hi : i = v.id
    · subst hi
      intro x hx hq
      have hz := hlen x hx
      exact absurd (List.eq_nil_of_length_eq_zero (Nat.le_zero.mp hz)) hq
    · exact hset i hi
  | succ fuel ih =>
    intro n h hlen hset
    obtain ⟨x, hx⟩ := h.exists_gate hv
    rcases Gate.admitNext_cases x with ⟨hn, hfull⟩ | ⟨j, rest, hq, hlt, hn⟩
    · rw [admitWaiting_none _ hx hn]
      refine ⟨h, ⟨Calm.refl n, fun _ => rfl⟩, fun i => ?_⟩
      by_cases hi : i = v.id
      · subst hi
        intro y hy
        cases hx.symm.trans hy
        exact hfull
      · exact hset i hi
    · have hlead := h.on hv
      obtain ⟨-, hparent, hbelow⟩ := hlead.parent
      have hj : j.Fits vs v.toDispatcher :=
        h.gated v.id v x hv hx j (by rw [hq]; exact List.mem_cons_self)
      let y : Gate (Job τ) := { x with running := x.running + 1, queue := rest }
      have hkeep : Keeps n (n.setGate v.id y) := keeps_setGate hx rfl
      obtain ⟨n', hf, hs, hk, hg, hsame⟩ :=
        forward_sound (h.admitFirst hx hq) hparent (hj.admittedBy hlead)
      rw [admitWaiting_some hx hn hf]
      -- the job went down, so the queue of this view lost it and nothing else
      have hgate : n'.gate? v.id = some y := by
        rw [hg v.id fun u hu => Nat.ne_of_lt (hbelow u hu), gate?_setGate n y hx, if_pos rfl]
      have hlen' : ∀ z, n'.gate? v.id = some z → z.queue.length ≤ fuel := by
        intro z hz
        cases hgate.symm.trans hz
        have hlx := hlen x hx
        rw [hq] at hlx
        exact Nat.le_of_succ_le_succ hlx
      have hset' : ∀ i, i ≠ v.id → n'.SettledAt i := by
        intro i hi
        refine hsame i fun z hz => ?_
        rw [gate?_setGate n y hx, if_neg hi] at hz
        exact hset i hi z hz
      obtain ⟨hs', hk', hdone⟩ := ih hs hlen' hset'
      exact ⟨hs', (hkeep.trans hk).trans hk', hdone⟩

/-- A view that refills in a sound network leaves no place free while tasks wait. -/
theorem refill_sound {vs : List View} {out : Nat → Nat} {v : View} (hv : v.On vs)
    {n : Network τ} (h : Sound vs out n) (hset : ∀ i, i ≠ v.id → n.SettledAt i) :
    Sound vs out (refill (forward v.parent) v n) ∧ Keeps n (refill (forward v.parent) v n) ∧
      ∀ i, (refill (forward v.parent) v n).SettledAt i := by
  refine admitWaiting_sound hv _ h (fun x hx => ?_) hset
  rw [hx]
  exact Nat.le_refl _

/-! ## Changing limits and giving admissions back -/

omit [Kinded τ] in
theorem onGate_eq_setGate {n : Network τ} {i : Nat} {x : Gate (Job τ)} (hx : n.gate? i = some x)
    (f : Gate (Job τ) → Gate (Job τ)) : n.onGate i f = n.setGate i (f x) := by
  unfold onGate setGate
  rw [modify_eq_set f hx]

omit [Kinded τ] in
theorem settledAt_onGate {n : Network τ} {i k : Nat} (hk : k ≠ i) (h : n.SettledAt k)
    {x : Gate (Job τ)} (hx : n.gate? i = some x) (y : Gate (Job τ)) :
    (n.setGate i y).SettledAt k := by
  intro z hz
  rw [gate?_setGate n y hx, if_neg hk] at hz
  exact h z hz

/-- An admission is given back. -/
theorem release_sound {vs : List View} {out : Nat → Nat} {v : View} (hv : v.On vs)
    {n : Network τ} (h : Sound vs (fun i => out i + if v.id = i then 1 else 0) n)
    (hset : ∀ i, n.SettledAt i) :
    Sound vs out (n.release v) ∧ Keeps n (n.release v) ∧ ∀ i, (n.release v).SettledAt i := by
  obtain ⟨x, hx⟩ := h.exists_gate hv
  have hpos := h.tally v.id x hx
  rw [if_pos rfl] at hpos
  have hs : Sound vs out (n.setGate v.id x.release) := by
    refine h.setGate hx (fun _ hj => Or.inl hj) fun k => ?_
    show x.passes k + _ + _ = x.passes k + _ + if k = v.id then x.running - 1 else 0
    by_cases hk : k = v.id
    · subst hk
      simp only [if_true]
      omega
    · rw [if_neg hk, if_neg hk, if_neg (Ne.symm hk)]
      omega
  have hkeep : Keeps n (n.setGate v.id x.release) := keeps_setGate hx rfl
  obtain ⟨hs', hk', hset'⟩ := refill_sound hv hs fun i hi =>
    settledAt_onGate hi (hset i) hx x.release
  rw [release, onGate_eq_setGate hx]
  exact ⟨hs', hkeep.trans hk', hset'⟩

/-- The limit of a view is raised. -/
theorem raiseView_sound {vs : List View} {out : Nat → Nat} {v : View} (hv : v.On vs)
    {n : Network τ} (h : Sound vs out n) (hset : ∀ i, n.SettledAt i) :
    Sound vs out (n.raiseView v) ∧ Calm n (n.raiseView v) ∧
      (∀ i, (n.raiseView v).limitOf i = n.limitOf i + if v.id = i then 1 else 0) ∧
      ∀ i, (n.raiseView v).SettledAt i := by
  obtain ⟨x, hx⟩ := h.exists_gate hv
  have hs : Sound vs out (n.setGate v.id x.raise) :=
    h.setGate hx (fun _ hj => Or.inl hj) fun k => rfl
  obtain ⟨hs', hk', hset'⟩ := refill_sound hv hs fun i hi =>
    settledAt_onGate hi (hset i) hx x.raise
  rw [raiseView, onGate_eq_setGate hx]
  refine ⟨hs', (calm_setGate n v.id x.raise).trans hk'.toCalm, fun i => ?_, hset'⟩
  rw [hk'.limit, limitOf_setGate n x.raise hx]
  by_cases hi : i = v.id
  · subst hi
    rw [if_pos rfl, if_pos rfl, limitOf, hx]
    rfl
  · rw [if_neg hi, if_neg (Ne.symm hi)]
    rfl

/-- The limit of a view is lowered. -/
theorem lowerView_sound {vs : List View} {out : Nat → Nat} {v : View} (hv : v.On vs)
    {n : Network τ} (h : Sound vs out n) (hset : ∀ i, n.SettledAt i) :
    Sound vs out (n.onGate v.id Gate.lower) ∧ Calm n (n.onGate v.id Gate.lower) ∧
      (∀ i, (n.onGate v.id Gate.lower).limitOf i = n.limitOf i - if v.id = i then 1 else 0) ∧
      ∀ i, (n.onGate v.id Gate.lower).SettledAt i := by
  obtain ⟨x, hx⟩ := h.exists_gate hv
  rw [onGate_eq_setGate hx]
  refine ⟨h.setGate hx (fun _ hj => Or.inl hj) fun k => rfl, calm_setGate n v.id x.lower,
    fun i => ?_, fun i => ?_⟩
  · rw [limitOf_setGate n x.lower hx]
    by_cases hi : i = v.id
    · subst hi
      rw [if_pos rfl, if_pos rfl, limitOf, hx]
      rfl
    · rw [if_neg hi, if_neg (Ne.symm hi)]
      rfl
  · refine settledAt_setGate hx (fun hx hq => ?_) i (hset i)
    exact Nat.le_trans (Nat.sub_le ..) (hx hq)

/-- A pool was changed so that no task came to wait. -/
theorem onPool_sound {vs : List View} {out : Nat → Nat} {n : Network τ} (h : Sound vs out n)
    {k : Nat} {f : Pool (Job τ) → Pool (Job τ)}
    (hf : ∀ p, n.pool? k = some p → p.Gains (f p) []) :
    Sound vs out (n.onPool k f) ∧ Keeps n (n.onPool k f) ∧
      ∀ i, n.SettledAt i → (n.onPool k f).SettledAt i := by
  cases hp : n.pool? k with
  | none =>
    have he : n.onPool k f = n := by
      unfold onPool
      rw [List.modify_eq_self (List.getElem?_eq_none_iff.mp hp)]
    rw [he]
    exact ⟨h, ⟨Calm.refl n, fun _ => rfl⟩, fun _ hi => hi⟩
  | some p =>
    have he : n.onPool k f = n.setPool k (f p) := by
      unfold onPool setPool
      rw [modify_eq_set f hp]
    obtain ⟨hs, hc⟩ := h.gains out hp (hf p hp) (by simp) fun i => by simp
    rw [he]
    exact ⟨hs, keeps_setPool hc, fun _ hi => hi⟩

omit [Kinded τ] in
/-- How often a compensator raises the limit of the view with a number. -/
theorem raises_cons (i : Nat) (v : View) (us : List View) :
    (v :: us).countP (fun v => v.id = i) =
      us.countP (fun v => v.id = i) + if v.id = i then 1 else 0 := by
  rw [List.countP_cons]
  simp

theorem raiseViews_sound {vs : List View} {out : Nat → Nat} (us : List View) :
    ∀ {n : Network τ}, (∀ v ∈ us, v.On vs) → Sound vs out n → (∀ i, n.SettledAt i) →
      Sound vs out (us.foldl raiseView n) ∧ Calm n (us.foldl raiseView n) ∧
        (∀ i, (us.foldl raiseView n).limitOf i =
          n.limitOf i + us.countP fun v => v.id = i) ∧
        ∀ i, (us.foldl raiseView n).SettledAt i := by
  induction us with
  | nil => exact fun _ h hset => ⟨h, Calm.refl _, fun _ => rfl, hset⟩
  | cons v us ih =>
    intro n hus h hset
    obtain ⟨hs, hc, hl, hset'⟩ := raiseView_sound (hus v List.mem_cons_self) h hset
    obtain ⟨hs', hc', hl', hset''⟩ :=
      ih (fun u hu => hus u (List.mem_cons_of_mem v hu)) hs hset'
    refine ⟨hs', hc.trans hc', fun i => ?_, hset''⟩
    rw [List.foldl_cons, hl', hl, raises_cons]
    omega

theorem lowerViews_sound {vs : List View} {out : Nat → Nat} (us : List View) {n : Network τ}
    (hus : ∀ v ∈ us, v.On vs) (h : Sound vs out n) (hset : ∀ i, n.SettledAt i) :
    Sound vs out (us.foldr (fun v n => n.onGate v.id Gate.lower) n) ∧
      Calm n (us.foldr (fun v n => n.onGate v.id Gate.lower) n) ∧
      (∀ i, (us.foldr (fun v n => n.onGate v.id Gate.lower) n).limitOf i =
        n.limitOf i - us.countP fun v => v.id = i) ∧
      ∀ i, (us.foldr (fun v n => n.onGate v.id Gate.lower) n).SettledAt i := by
  induction us with
  | nil => exact ⟨h, Calm.refl _, fun _ => rfl, hset⟩
  | cons v us ih =>
    obtain ⟨hs, hc, hl, hset'⟩ := ih fun u hu => hus u (List.mem_cons_of_mem v hu)
    obtain ⟨hs', hc', hl', hset''⟩ := lowerView_sound (hus v List.mem_cons_self) hs hset'
    refine ⟨hs', hc.trans hc', fun i => ?_, hset''⟩
    rw [List.foldr_cons, hl', hl, raises_cons]
    omega

/-- The limits of a compensator are raised. -/
theorem raise_sound {vs : List View} {out : Nat → Nat} {n : Network τ} {c : Compensator}
    (hc : ∀ v ∈ c.views, v.On vs) (h : Sound vs out n) (hset : ∀ i, n.SettledAt i) :
    Sound vs out (n.raise c) ∧ Calm n (n.raise c) ∧
      (∀ i, (n.raise c).limitOf i = n.limitOf i + c.views.countP fun v => v.id = i) ∧
      ∀ i, (n.raise c).SettledAt i := by
  unfold raise
  cases c.worker with
  | none => exact raiseViews_sound c.views hc h hset
  | some w =>
    obtain ⟨hs, hk, hset'⟩ := onPool_sound h (k := w.pool) (f := fun p => p.raise w.worker)
      fun p _ => p.gains_raise w.worker
    obtain ⟨hs', hc', hl', hset''⟩ :=
      raiseViews_sound c.views hc hs fun i => hset' i (hset i)
    exact ⟨hs', hk.toCalm.trans hc', hl', hset''⟩

/-- The limits of a compensator are lowered. -/
theorem lower_sound {vs : List View} {out : Nat → Nat} {n : Network τ} {c : Compensator}
    (hc : ∀ v ∈ c.views, v.On vs) (h : Sound vs out n) (hset : ∀ i, n.SettledAt i) :
    Sound vs out (n.lower c) ∧ Calm n (n.lower c) ∧
      (∀ i, (n.lower c).limitOf i = n.limitOf i - c.views.countP fun v => v.id = i) ∧
      ∀ i, (n.lower c).SettledAt i := by
  obtain ⟨hs, hcalm, hl, hset'⟩ := lowerViews_sound c.views hc h hset
  unfold lower
  cases c.worker with
  | none => exact ⟨hs, hcalm, hl, hset'⟩
  | some w =>
    obtain ⟨hs', hk', hset''⟩ := onPool_sound hs (k := w.pool) (f := fun p => p.lower w.worker)
      fun p _ => p.gains_lower w.worker
    refine ⟨hs', hcalm.trans hk'.toCalm, fun i => ?_, fun i => hset'' i (hset' i)⟩
    rw [← hl]
    exact hk'.limit i

/-! ## Submissions -/

/-- What was dropped is not part of what is sound. -/
theorem dropped_sound {vs : List View} {out : Nat → Nat} {n : Network τ} (h : Sound vs out n)
    (j : Job τ) : Sound vs out (n.drop j) ∧ Keeps n (n.drop j) :=
  ⟨⟨h.size, h.chart, h.healthy, h.pooled, h.gated, h.tally⟩,
    ⟨⟨rfl, rfl, fun _ => rfl, fun _ => rfl⟩, fun _ => rfl⟩⟩

omit [Kinded τ] in
theorem setPool_self {n : Network τ} {k : Nat} {p : Pool (Job τ)} (hp : n.pool? k = some p) :
    n.setPool k p = n := by
  unfold setPool
  obtain ⟨hk, he⟩ := List.getElem?_eq_some_iff.mp hp
  rw [← he, List.set_getElem_self]

/-- A submission to a pool is accepted, or refused and its job dropped. -/
theorem submit_pool_sound {vs : List View} {caller : Option WorkerId} {out : Nat → Nat}
    {n : Network τ} {j : Job τ} {k core : Nat} (h : Sound vs (fun i => out i + j.passes i) n)
    (hk : k < n.pools.length) (hj : j.Fits vs (.pool k core))
    (hc : ∀ w, caller = some w → (n.taskAt w).isSome = true) (tail : Bool) :
    ∃ n' taken, submit caller tail (.pool k core) j n = (taken, n') ∧
      Sound vs (fun i => out i + if taken then 0 else j.passes i) n' ∧ Keeps n n' ∧
      n'.gates = n.gates := by
  obtain ⟨p, hp⟩ : ∃ p, n.pool? k = some p := exists_pool hk
  have hown : ∀ w, (caller.filter fun w => w.pool = k).map WorkerId.worker = some w →
      (p.taskOf? w).isSome = true := by
    intro w hw
    obtain ⟨u, hu, rfl⟩ := Option.map_eq_some_iff.mp hw
    obtain ⟨hu, hk⟩ := Option.filter_eq_some_iff.mp hu
    have hrun := hc u hu
    have hk' : u.pool = k := by simpa using hk
    rw [taskAt, hk', hp] at hrun
    exact hrun
  rcases Pool.gains_submit p j tail hown with ⟨q, hq, hg⟩ | hq
  · obtain ⟨hs, hcalm⟩ := h.gains (fun i => out i + 0) hp hg
      (fun u hu => List.mem_singleton.mp hu ▸ hj.atPool 0) fun i => by simp
    refine ⟨n.setPool k q, true, ?_, hs, keeps_setPool hcalm, rfl⟩
    rw [submit, hp]
    dsimp only
    rw [hq]
  · have hd := dropped_sound h j
    refine ⟨n.drop j, false, ?_, hd.1, hd.2, rfl⟩
    rw [submit, hp]
    dsimp only
    rw [hq]
    dsimp only
    rw [setPool_self hp]

/-- A submission is accepted and its job is on its way, or it is refused and every view that
admitted it got its admission back. -/
theorem submit_sound {vs : List View} {caller : Option WorkerId} {tail : Bool} {d : Dispatcher} :
    ∀ {out : Nat → Nat} {n : Network τ} {j : Job τ},
      Sound vs (fun i => out i + j.passes i) n → (∀ i, n.SettledAt i) →
      d.Leads vs n.pools.length → j.Fits vs d →
      (∀ w, caller = some w → (n.taskAt w).isSome = true) →
      ∃ n' taken, submit caller tail d j n = (taken, n') ∧
        Sound vs (fun i => out i + if taken then 0 else j.passes i) n' ∧ Keeps n n' ∧
        ∀ i, n'.SettledAt i := by
  -- induction on the way down to the pool
  induction d with
  | pool k core =>
    intro out n j h hset hd hj hc
    obtain ⟨n', taken, hn, hs, hk, hg⟩ := submit_pool_sound h hd.pool hj hc tail
    refine ⟨n', taken, hn, hs, hk, fun i x hx => hset i x ?_⟩
    rw [gate?, ← hg]
    exact hx
  | view id mode base parent ih =>
    intro out n j h hset hd hj hc
    let v : View := ⟨id, mode, base, parent⟩
    have hv : v.toDispatcher.Leads vs n.pools.length := hd
    obtain ⟨hon, hparent, -⟩ := hv.parent
    obtain ⟨x, hx⟩ := h.exists_gate hon
    have hx' : n.gate? id = some x := hx
    rcases Gate.offer_cases x (n.isClosed parent) j with
      ⟨-, he⟩ | ⟨-, -, he⟩ | ⟨hle, -, he⟩
    · have hkeep : Keeps n (n.setGate v.id { x with running := x.running + 1 }) :=
        keeps_setGate hx rfl
      have hset' : ∀ i, (n.setGate v.id { x with running := x.running + 1 }).SettledAt i := by
        intro i
        refine settledAt_setGate hx (fun hs hq => ?_) i (hset i)
        exact Nat.le_succ_of_le (hs hq)
      obtain ⟨n', taken, hn, hs, hk, hafter⟩ :=
        ih (h.enter (v := v) hx) hset' hparent (hj.admittedBy (v := v) hv) hc
      cases taken with
      | true =>
        refine ⟨n', true, ?_, hs, hkeep.trans hk, hafter⟩
        rw [submit, hx']
        dsimp only
        rw [he]
        dsimp only
        rw [hn]
      | false =>
        have hs' : Sound vs (fun i => out i + j.passes i + if v.id = i then 1 else 0) n' := by
          refine hs.congr fun i => ?_
          rw [if_neg Bool.false_ne_true, Job.passes_admittedBy]
          omega
        obtain ⟨hr, hk', hdone⟩ := release_sound hon hs' hafter
        refine ⟨n'.release v, false, ?_, hr, (hkeep.trans hk).trans hk', hdone⟩
        rw [submit, hx']
        dsimp only
        rw [he]
        dsimp only
        rw [hn]
    · have hd := dropped_sound h j
      refine ⟨n.drop j, false, ?_, hd.1, hd.2, hset⟩
      rw [submit, hx']
      dsimp only
      rw [he]
    · have hkeep : Keeps n (n.setGate v.id { x with queue := x.queue ++ [j] }) :=
        keeps_setGate hx rfl
      refine ⟨_, true, ?_, h.wait hon hj hx, hkeep, fun i => ?_⟩
      · rw [submit, hx']
        dsimp only
        rw [he]
      · refine settledAt_setGate hx (fun _ _ => ?_) i (hset i)
        exact hle

end Workforce.Network
