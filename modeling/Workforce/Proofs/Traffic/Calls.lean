import Workforce.Proofs.Traffic.Alone
import Workforce.Proofs.Traffic.Routes

/-
  Submissions, the ends of admissions, and raises and lowerings of limits, each by a thread that
  is left alone: it does what `Network.submit`, `Network.release`, `Network.raise` and
  `Network.lower` do.

  `call_alone`: in every run, a call that is not disturbed comes to the network that
  `Network.submit` computes, and gets the same answer.
-/

namespace Workforce

variable {τ : Type} [Kinded τ]

namespace Traffic

variable {i : Nat} {n : Network τ}

/-! ## Submissions -/

/-- What a thread has to do once its submission was accepted, or was refused. -/
def afterSubmit (j : Job τ) : Bool → List (Chore τ)
  | true => []
  | false => j.views.map .release

/-- A worker that submits for its own slot runs a task. -/
def Occupied (n : Network τ) (slot : Option Nat) : Prop :=
  ∀ w, slot = some w → ((n.pool? 0).bind fun p => p.taskOf? w).isSome = true

/-- A thread that is left alone submits jobs to a dispatcher as a network does. -/
def SubmitsAlone (i : Nat) (caller : Option Nat) (tail : Bool) (vs : List View)
    (d : Dispatcher) : Prop :=
  ∀ (n : Network τ) (j : Job τ) (rest : List (Chore τ)), vs.length = n.gates.length →
    Occupied n (if tail then caller else none) →
    Comes i (.submit d j (if tail then caller else none) :: rest) n
      [(n.submit (caller.map (WorkerId.mk 0)) tail d j).1]
      (afterSubmit j (n.submit (caller.map (WorkerId.mk 0)) tail d j).1 ++ rest)
      (n.submit (caller.map (WorkerId.mk 0)) tail d j).2

/-- What a network makes of the answer of its pool. -/
def answered (n : Network τ) (r : Pool.Submission (Job τ) × Pool (Job τ)) : Bool × Network τ :=
  match r.1 with
  | .accepted => (true, n.setPool 0 r.2)
  | .refused dropped => (false, (n.setPool 0 r.2).drop dropped)

theorem network_submit_pool (s : Traffic τ) (caller : Option Nat) (tail : Bool) (core : Nat)
    (j : Job τ) : s.network.submit (caller.map (WorkerId.mk 0)) tail (.pool 0 core) j =
      answered s.network (s.pool.submit caller j tail) := by
  have hown : ((caller.map (WorkerId.mk 0)).filter fun w => w.pool = 0).map WorkerId.worker =
      caller := by
    cases caller <;> rfl
  rw [Network.submit, show s.network.pool? 0 = some s.pool from rfl]
  dsimp only
  rw [hown]
  unfold answered
  generalize s.pool.submit caller j tail = r
  obtain ⟨r, p⟩ := r
  cases r <;> rfl

omit [Kinded τ] in
theorem pool_eq {s s' : Traffic τ} (h : s'.network = s.network) : s'.pool = s.pool :=
  List.head_eq_of_cons_eq (congrArg Network.pools h)

/-- A submission to the queues of the pool. -/
theorem does_submit_queues (s : Traffic τ) (core : Nat) (j : Job τ) {caller : Option Nat}
    {tail : Bool} (hslot : (if tail then caller else none) = none) :
    Does (.submit (.pool 0 core) j none) s.network
      [(answered s.network (s.pool.submit caller j tail)).1]
      (afterSubmit j (answered s.network (s.pool.submit caller j tail)).1)
      (answered s.network (s.pool.submit caller j tail)).2 := by
  intro s' hs'
  rw [← hs', ← pool_eq hs', perform, submit, arrive]
  cases ha : s'.pool.accept j with
  | some p =>
    rw [Pool.submit_accepted hslot ha]
    exact ⟨rfl, rfl, by simp [answered, network, Network.setPool, Event.drop?]⟩
  | none =>
    rw [Pool.submit_refused_of_closed _ _ _ _ (Pool.accept_eq_none_iff.mp ha)]
    exact ⟨rfl, rfl, by
      simp [answered, refuse, network, Network.setPool, Network.drop, Event.drop?]⟩

/-- A submission for the slot of a worker. What it displaces from the slot is queued at once. -/
theorem comes_submit_slot (s : Traffic τ) (core w : Nat) (j : Job τ)
    (hw : (s.pool.taskOf? w).isSome = true) (i : Nat) (rest : List (Chore τ)) :
    Comes i (.submit (.pool 0 core) j (some w) :: rest) s.network
      [(answered s.network (s.pool.submit (some w) j true)).1]
      (afterSubmit j (answered s.network (s.pool.submit (some w) j true)).1 ++ rest)
      (answered s.network (s.pool.submit (some w) j true)).2 := by
  have hperform : ∀ s' : Traffic τ, s'.network = s.network →
      s'.perform (.submit (.pool 0 core) j (some w)) = s'.arriveAt j w := by
    intro s' hs'
    rw [perform, submit, pool_eq hs', if_pos hw]
  obtain ⟨t, ht⟩ := Option.isSome_iff_exists.mp hw
  obtain ⟨x, hx, -⟩ := Pool.exists_of_taskOf? ht
  cases hc : s.pool.closed with
  | true =>
    rw [Pool.submit_refused_of_closed _ _ _ _ hc]
    refine Does.comes (fun s' hs' => ?_) i rest
    rw [hperform s' hs', arriveAt, pool_eq hs', Pool.place_of_closed hc, ← hs', ← pool_eq hs']
    exact ⟨rfl, rfl, by
      simp [answered, refuse, network, Network.setPool, Network.drop, Event.drop?]⟩
  | false =>
    cases hslot : x.slot with
    | none =>
      have hp := Pool.place_of_empty hc hx hslot j
      rw [Pool.submit_placed rfl hp]
      refine Does.comes (fun s' hs' => ?_) i rest
      rw [hperform s' hs', arriveAt, pool_eq hs', hp, ← hs']
      exact ⟨rfl, rfl, by simp [answered, network, Network.setPool, Event.drop?]⟩
    | some k =>
      have hp := Pool.place_of_full hc hx hslot j
      have ha : (s.pool.place w j).2.accept k = some ((s.pool.place w j).2.queueUp k) :=
        Pool.accept_eq_some_iff.mpr ⟨(Pool.closed_place s.pool w j).trans hc, rfl⟩
      rw [Pool.submit_left rfl hp ha]
      have hfirst : Does (.submit (.pool 0 core) j (some w)) s.network [] [.requeue k j]
          (s.network.setPool 0 (s.pool.place w j).2) := by
        intro s' hs'
        rw [hperform s' hs', arriveAt, pool_eq hs', hp, ← hs']
        exact ⟨rfl, rfl, by simp [network, Network.setPool]⟩
      refine hfirst.next (Does.comes (fun s' hs' => ?_) i rest)
      have hq : s'.pool = (s.pool.place w j).2 :=
        List.head_eq_of_cons_eq (congrArg Network.pools hs')
      have hgates : s'.gates = s.gates := congrArg Network.gates hs'
      rw [perform, requeue, hq, ha]
      exact ⟨rfl, rfl, by simp [answered, network, Network.setPool, Event.drop?, hgates]⟩

theorem does_submit_admitted {v : View} {x : Gate (Job τ)} {j : Job τ} (slot : Option Nat)
    (hx : n.gate? v.id = some x) (hlt : x.running < x.limit) :
    Does (.submit v.toDispatcher j slot) n [] [.submit v.parent (j.admittedBy v) slot]
      (n.setGate v.id { x with running := x.running + 1 }) := by
  intro s hs
  subst hs
  have he : x.offer s.pool.closed j = (.admitted, { x with running := x.running + 1 }) := by
    rw [Gate.offer, if_pos hlt]
  rw [perform, View.toDispatcher, submit, show s.gates[v.id]? = some x from hx]
  dsimp only
  rw [he]
  exact ⟨rfl, rfl, by simp [network, Network.setGate, Event.drop?]⟩

/-- A full gate lets a submission wait, unless the pool below is closed. -/
theorem does_submit_full {v : View} {x : Gate (Job τ)} {j : Job τ} (slot : Option Nat)
    (hx : n.gate? v.id = some x) (hle : x.limit ≤ x.running) (hid : v.parent.poolId = 0) :
    Does (.submit v.toDispatcher j slot) n [!n.isClosed v.parent]
      (afterSubmit j (!n.isClosed v.parent))
      (bif n.isClosed v.parent then n.drop j
        else n.setGate v.id { x with queue := x.queue ++ [j] }) := by
  intro s hs
  subst hs
  have hclosed : s.network.isClosed v.parent = s.pool.closed := by
    rw [Network.isClosed, hid]
    rfl
  rw [perform, View.toDispatcher, submit, show s.gates[v.id]? = some x from hx, hclosed]
  dsimp only
  rw [Gate.offer, if_neg (Nat.not_lt.mpr hle)]
  cases s.pool.closed with
  | true => exact ⟨rfl, rfl, rfl⟩
  | false => exact ⟨rfl, rfl, by simp [network, Network.setGate, Event.drop?]⟩

/-- A thread that is left alone submits a job as a network does. -/
theorem submits_alone {vs : List View} {d : Dispatcher} (caller : Option Nat) (tail : Bool) :
    d.Leads vs 1 → SubmitsAlone (τ := τ) i caller tail vs d := by
  -- induction on the way down to the pool
  induction d with
  | pool id core =>
    intro hd n j rest _ hw s hs hn
    have hid : id = 0 := Nat.lt_one_iff.mp hd.pool
    subst hid
    subst hn
    rw [network_submit_pool]
    cases tail with
    | false => exact (does_submit_queues s core j (if_neg (by simp))).comes i rest s hs rfl
    | true =>
      cases caller with
      | none => exact (does_submit_queues s core j rfl).comes i rest s hs rfl
      | some w => exact comes_submit_slot s core w j (hw w rfl) i rest s hs rfl
  | view id mode base parent ih =>
    intro hd n j rest hsize hw
    let v : View := ⟨id, mode, base, parent⟩
    have hv : v.toDispatcher.Leads vs 1 := hd
    obtain ⟨x, hx⟩ := exists_gate hv hsize
    have hx' : n.gate? id = some x := hx
    have hid : v.parent.poolId = 0 := Nat.lt_one_iff.mp hd.pool
    generalize hslot : (if tail then caller else none) = slot at hw ⊢
    rw [Network.submit, hx']
    dsimp only
    rcases Gate.offer_cases x (n.isClosed parent) j with ⟨hlt, he⟩ | ⟨hle, hc, he⟩ | ⟨hle, hc, he⟩
    · rw [he]
      dsimp only
      generalize hm : n.setGate id { x with running := x.running + 1 } = m
      have hsize' : vs.length = m.gates.length := by
        rw [hsize, ← hm]
        exact List.length_set.symm
      have hw' : Occupied m (if tail then caller else none) := by
        rw [hslot, ← hm]
        exact hw
      have hfirst : Comes i (.submit v.toDispatcher j slot :: rest) n []
          (.submit parent (j.admittedBy v) slot :: rest) m :=
        hm ▸ (does_submit_admitted slot hx hlt).comes i rest
      have hsub := ih hv.parent.2.1 m (j.admittedBy v) rest hsize' hw'
      have hlength := (Network.spares_submit (P := fun _ => False) (caller.map (WorkerId.mk 0))
        tail parent (fun _ _ hF => hF) (j.admittedBy v) m).length
      rw [hslot] at hsub
      refine hfirst.goOn ?_
      generalize m.submit (caller.map (WorkerId.mk 0)) tail parent (j.admittedBy v) = r
        at hsub hlength
      obtain ⟨taken, m'⟩ := r
      cases taken with
      | true => exact hsub
      | false =>
        have hback := refills_alone (i := i) hv (forwards_alone hv.parent.2.1) (.release v)
          (hsize'.trans hlength.symm) (j.views.map .release ++ rest)
        exact hsub.trans hback
    · rw [he]
      have hfull := (does_submit_full (j := j) slot hx hle hid).comes i rest
      rw [show n.isClosed v.parent = true from hc] at hfull
      exact hfull
    · rw [he]
      have hfull := (does_submit_full (j := j) slot hx hle hid).comes i rest
      rw [show n.isClosed v.parent = false from hc] at hfull
      exact hfull

/-! ## Other chores -/

/-- A thread that has to tell several views of changes at their gates refills them in order. -/
theorem refillAll_alone {vs : List View} {mk : View → Chore τ}
    {change : Gate (Job τ) → Gate (Job τ)} {es : View → List (Event τ)}
    (hc : ∀ v, Settling (mk v) v change (es v)) (i : Nat) (rest : List (Chore τ))
    {us : List View} (hu : ∀ v ∈ us, v.toDispatcher.Leads vs 1) (n : Network τ)
    (hsize : vs.length = n.gates.length) :
    Comes i (us.map mk ++ rest) n [] rest (us.foldl (fun n v =>
      Network.refill (Network.forward v.parent) v (n.onGate v.id change)) n) := by
  induction us generalizing n with
  | nil => exact comes_refl i rest n
  | cons v us ih =>
    have hv := hu v List.mem_cons_self
    have hspared := Network.spares_refill (P := fun _ => False) n v (fun _ _ hF => hF) change
    have hfirst := refills_alone (i := i) hv (forwards_alone hv.parent.2.1) (hc v) hsize
      (us.map mk ++ rest)
    exact hfirst.trans (ih (fun u hm => hu u (List.mem_cons_of_mem v hm)) _
      (hsize.trans hspared.length.symm))

/-- A thread that is left alone gives admissions back as a network does. -/
theorem releases_alone {vs us : List View} (hu : ∀ v ∈ us, v.toDispatcher.Leads vs 1)
    (hsize : vs.length = n.gates.length) (i : Nat) (rest : List (Chore τ)) :
    Comes i (us.map .release ++ rest) n [] rest (us.foldl Network.release n) :=
  refillAll_alone Settling.release i rest hu n hsize

theorem does_raiseWorker (n : Network τ) (w : Nat) :
    Does (.raiseWorker w) n [] [] (n.onPool 0 fun p => p.raise w) := by
  intro s hs
  subst hs
  exact ⟨rfl, rfl, by simp [perform, network, Network.onPool]⟩

theorem does_lowerWorker (n : Network τ) (w : Nat) :
    Does (.lowerWorker w) n [] [] (n.onPool 0 fun p => p.lower w) := by
  intro s hs
  subst hs
  exact ⟨rfl, rfl, by simp [perform, network, Network.onPool]⟩

theorem does_lower (n : Network τ) (v : View) :
    Does (.lower v) n [] [] (n.onGate v.id Gate.lower) := by
  intro s hs
  subst hs
  exact ⟨rfl, rfl, by simp [perform, network, Network.onGate]⟩

theorem does_flush {w : Nat} (hw : Occupied n (some w)) :
    Does (.flush w) n [] [] (n.flush ⟨0, w⟩) := by
  intro s hs
  subst hs
  have ht : (s.pool.taskOf? w).isSome = true := hw w rfl
  refine ⟨rfl, rfl, ?_⟩
  simp [perform, network, Network.flush, Network.onPool, ht]

/-- A thread that is left alone raises limits as a network does. -/
theorem raises_alone {vs us : List View} (hu : ∀ v ∈ us, v.toDispatcher.Leads vs 1)
    (hsize : vs.length = n.gates.length) (w : Option Nat) (i : Nat) (rest : List (Chore τ)) :
    Comes i (w.toList.map .raiseWorker ++ us.map .raise ++ rest) n [] rest
      (n.raise { worker := w.map (WorkerId.mk 0), views := us }) := by
  rw [List.append_assoc]
  cases w with
  | none => exact refillAll_alone Settling.raise i rest hu n hsize
  | some w =>
    refine (does_raiseWorker n w).next ?_
    exact refillAll_alone Settling.raise i rest hu _ hsize

theorem lowerAll_alone (us : List View) (i : Nat) (rest : List (Chore τ)) (n : Network τ) :
    Comes i (us.map .lower ++ rest) n [] rest
      (us.foldl (fun n v => n.onGate v.id Gate.lower) n) := by
  induction us generalizing n with
  | nil => exact comes_refl i rest n
  | cons v us ih => exact (does_lower n v).next (ih _)

/-- A thread that is left alone lowers limits as a network does. -/
theorem lowers_alone (n : Network τ) (us : List View) (w : Option Nat) (i : Nat)
    (rest : List (Chore τ)) :
    Comes i (us.reverse.map .lower ++ w.toList.map .lowerWorker ++ rest) n [] rest
      (n.lower { worker := w.map (WorkerId.mk 0), views := us }) := by
  rw [List.append_assoc]
  have hviews := lowerAll_alone us.reverse i (w.toList.map .lowerWorker ++ rest) n
  rw [List.foldl_reverse] at hviews
  refine hviews.goOn ?_
  cases w with
  | none => exact comes_refl i rest _
  | some w => exact (does_lowerWorker _ w).comes i rest

/-! ## Calls -/

/-- Every view stands on the pool. -/
def Based (s : Traffic τ) : Prop := ∀ v ∈ s.views, v.parent.poolId = 0

omit [Kinded τ] in
theorem Based.dispatcher {s : Traffic τ} (h : s.Based) {m : Option Nat} {d : Dispatcher}
    (hd : s.dispatcher? m = some d) : d.poolId = 0 := by
  cases m with
  | none =>
    cases hd
    rfl
  | some k =>
    obtain ⟨v, hv, rfl⟩ := Option.map_eq_some_iff.mp hd
    exact h v (List.mem_of_getElem? hv)

theorem based_step {s : Traffic τ} (h : s.Based) (a : Act τ) : (s.step a).Based := by
  have hs := steps s a
  generalize s.step a = s' at hs
  cases hs with
  | built hd _ =>
    intro v hv
    rcases List.mem_append.mp hv with hv | hv
    · exact h v hv
    · rw [List.mem_singleton.mp hv]
      exact h.dispatcher hd
  | _ => exact h

theorem based_run (c : Config) (as : List (Act τ)) : ((start c).run as).Based := by
  have hs : (start c : Traffic τ).Based := by simp [Based, start]
  exact List.foldlRecOn (motive := Based) as step hs fun _ hs a _ => based_step hs a

omit [Kinded τ] in
/-- The dispatchers of a traffic lead to its pool. -/
theorem leads_dispatcher {s : Traffic τ} (hc : s.Charted) (hb : s.Based) {m : Option Nat}
    {d : Dispatcher} (hd : s.dispatcher? m = some d) : d.Leads s.views 1 := by
  have hchain := chain_dispatcher hc hd
  exact ⟨Nat.lt_one_iff.mpr (hb.dispatcher hd), hchain.known, hchain.sorted⟩

/-- In every run, a call that is not disturbed does what the submission to the network does, and
gets the same answer. -/
theorem call_alone (c : Config) (as : List (Act τ)) {m : Option Nat} {d : Dispatcher}
    (hd : ((start c).run as).dispatcher? m = some d) (t : τ) :
    ∃ k s', s' = (((start c).run as).step (.call m t)).run
        (List.replicate k (.go ((start c).run as).threads.length)) ∧
      s'.network = (((start c).run as).network.submit none false d { task := t }).2 ∧
      s'.answers = ((start c).run as).answers ++
        [(((start c).run as).network.submit none false d { task := t }).1] ∧
      s'.views = ((start c).run as).views ∧
      s'.threads = ((start c).run as).threads ++ [[]] := by
  have hc := charted_run c as
  have hleads := leads_dispatcher hc (based_run c as) hd
  generalize (start c : Traffic τ).run as = s at hd hc hleads ⊢
  have hstep : s.step (.call m t) = { s with
      threads := s.threads ++ [[.submit d { task := t } none]]
      log := s.log ++ [.called t d.views] } := by
    rw [step, hd]
  have hnet : (s.step (.call m t)).network = s.network := by
    rw [hstep]
    unfold network
    rw [List.filterMap_append]
    exact congrArg (Network.mk [s.pool] s.gates) (List.append_nil _)
  have hanswers : (s.step (.call m t)).answers = s.answers := by
    rw [hstep]
    unfold answers
    rw [List.filterMap_append]
    exact List.append_nil _
  have hthread : (s.step (.call m t)).threads[s.threads.length]? =
      some [.submit d { task := t } none] := by
    rw [hstep]
    exact List.getElem?_concat_length
  have halone := submits_alone (i := s.threads.length) none false hleads s.network { task := t } []
    hc.size (fun w hw => by cases hw)
  obtain ⟨k, he⟩ := halone _ hthread hnet
  refine ⟨k, _, rfl, he.network, ?_, ?_, ?_⟩
  · rw [he.answers, hanswers]
    rfl
  · rw [he.views, hstep]
  · have hdone : ∀ b, afterSubmit ({ task := t } : Job τ) b ++ [] = [] := by
      intro b
      cases b <;> rfl
    rw [he.threads, hstep, hdone]
    exact List.set_append_right _ _ (Nat.le_refl _) |>.trans (by rw [Nat.sub_self]; rfl)

end Traffic

end Workforce
