import Workforce.Proofs.Network.Forwarding
import Workforce.Proofs.Network.Growth
import Workforce.Proofs.Network.Spares
import Workforce.Proofs.Traffic.Performs

/-
  Threads left alone. A thread that performs its chores without being disturbed comes to what the
  functions on networks compute in one go. Chores are the continuation of a thread, so `Comes`
  relates chores in one network to chores in another, whatever the chores below are and whatever
  other threads have to do. Here jobs are handed on (`forwards_alone`) and views refilled
  (`refills_alone`).
-/

namespace Workforce

variable {τ : Type} [Kinded τ]

/-! ## Undisturbed threads -/

/-- The job that is dropped in an event. -/
def Event.drop? : Event τ → Option (Job τ)
  | .refused j => some j
  | .dropped _ j => some j
  | _ => none

/-- What an event answers to a submission. -/
def Event.answer? : Event τ → Option Bool
  | .accepted _ => some true
  | .refused _ => some false
  | .misled _ => some false
  | _ => none

namespace Traffic

/-- The network of a traffic, with all jobs that were dropped in it. -/
def network (s : Traffic τ) : Network τ :=
  { pools := [s.pool], gates := s.gates, dropped := s.log.filterMap Event.drop? }

/-- What submissions were answered, oldest first. -/
def answers (s : Traffic τ) : List Bool := s.log.filterMap Event.answer?

/-- A thread has gone from some chores to others. -/
structure Ends (i : Nat) (s : Traffic τ) (as : List Bool) (todo : List (Chore τ)) (n : Network τ)
    (s' : Traffic τ) : Prop where
  threads : s'.threads = s.threads.set i todo
  views : s'.views = s.views
  network : s'.network = n
  answers : s'.answers = s.answers ++ as

/-- A thread that is left alone comes from some chores in a network to others in another, and
submissions are answered meanwhile. -/
def Comes (i : Nat) (cs : List (Chore τ)) (n : Network τ) (as : List Bool)
    (cs' : List (Chore τ)) (n' : Network τ) : Prop :=
  ∀ s : Traffic τ, s.threads[i]? = some cs → s.network = n →
    ∃ k, Ends i s as cs' n' (s.run (List.replicate k (.go i)))

/-- In a network, a chore leaves others behind and answers submissions. -/
def Does (c : Chore τ) (n : Network τ) (as : List Bool) (todo : List (Chore τ))
    (n' : Network τ) : Prop :=
  ∀ s : Traffic τ, s.network = n → (s.perform c).todo = todo ∧
    (s.perform c).events.filterMap Event.answer? = as ∧
    n' = { pools := [(s.perform c).pool], gates := (s.perform c).gates
           dropped := n.dropped ++ (s.perform c).events.filterMap Event.drop? }

variable {i : Nat} {c : Chore τ} {rest todo cs cs' cs'' : List (Chore τ)} {n n' n'' : Network τ}
  {as bs : List Bool}

theorem comes_refl (i : Nat) (cs : List (Chore τ)) (n : Network τ) : Comes i cs n [] cs n := by
  intro s h hn
  obtain ⟨hi, he⟩ := List.getElem?_eq_some_iff.mp h
  refine ⟨0, ?_, rfl, hn, (List.append_nil _).symm⟩
  show s.threads = _
  rw [← he, List.set_getElem_self]

theorem Comes.trans (h : Comes i cs n as cs' n') (h' : Comes i cs' n' bs cs'' n'') :
    Comes i cs n (as ++ bs) cs'' n'' := by
  intro s hs hn
  obtain ⟨hi, -⟩ := List.getElem?_eq_some_iff.mp hs
  obtain ⟨k, he⟩ := h s hs hn
  have hthread : (s.run (List.replicate k (.go i))).threads[i]? = some cs' := by
    rw [he.threads, List.getElem?_set_self hi]
  obtain ⟨l, he'⟩ := h' _ hthread he.network
  refine ⟨k + l, ?_⟩
  rw [← List.replicate_append_replicate, run_append]
  refine ⟨?_, he'.views.trans he.views, he'.network, ?_⟩
  · rw [he'.threads, he.threads, List.set_set]
  · rw [he'.answers, he.answers, List.append_assoc]

/-- A thread performs its first chore. -/
theorem Does.comes (h : Does c n as todo n') (i : Nat) (rest : List (Chore τ)) :
    Comes i (c :: rest) n as (todo ++ rest) n' := by
  intro s hs hn
  obtain ⟨htodo, has, hn'⟩ := h s hn
  have hstep : s.run (List.replicate 1 (.go i)) = { s with
      pool := (s.perform c).pool, gates := (s.perform c).gates
      threads := s.threads.set i ((s.perform c).todo ++ rest)
      log := s.log ++ (s.perform c).events } := by
    show s.step (.go i) = _
    rw [step, hs]
  refine ⟨1, ?_⟩
  rw [hstep]
  refine ⟨by rw [htodo], rfl, ?_, ?_⟩
  · rw [hn', ← hn]
    unfold network
    rw [List.filterMap_append]
  · unfold answers
    rw [List.filterMap_append, has]

/-- A thread goes on after submissions that were not answered. -/
theorem Comes.goOn (h : Comes i cs n [] cs' n') (h' : Comes i cs' n' as cs'' n'') :
    Comes i cs n as cs'' n'' :=
  h.trans h'

/-- A thread performs its first chore and goes on. -/
theorem Does.next (h : Does c n [] todo n') (h' : Comes i (todo ++ rest) n' as cs n'') :
    Comes i (c :: rest) n as cs n'' :=
  (h.comes i rest).goOn h'

/-! ## Gates -/

theorem perform_settling (s : Traffic τ) {v : View} {change : Gate (Job τ) → Gate (Job τ)}
    {es : List (Event τ)} (hc : Settling c v change es) :
    s.perform c = { s.settle v change with events := es ++ (s.settle v change).events } := by
  cases hc <;> rfl

omit [Kinded τ] in
theorem Settling.silent {v : View} {change : Gate (Job τ) → Gate (Job τ)} {es : List (Event τ)}
    (hc : Settling c v change es) :
    es.filterMap Event.drop? = [] ∧ es.filterMap Event.answer? = [] := by
  cases hc <;> exact ⟨rfl, rfl⟩

/-- A view that admits no one leaves it at the change of its gate. -/
theorem Settling.does_none {v : View} {change : Gate (Job τ) → Gate (Job τ)} {es : List (Event τ)}
    {x : Gate (Job τ)} (hc : Settling c v change es) (hx : n.gate? v.id = some x)
    (hn : (change x).admitNext = none) : Does c n [] [] (n.onGate v.id change) := by
  intro s hs
  subst hs
  obtain ⟨hdrops, hanswers⟩ := hc.silent
  have hd : s.perform c =
      { pool := s.pool, gates := s.gates.set v.id (change x), events := es ++ [] } := by
    rw [perform_settling s hc, settle, show s.gates[v.id]? = some x from hx]
    dsimp only
    rw [hn]
  rw [hd, List.append_nil]
  refine ⟨rfl, hanswers, ?_⟩
  rw [hdrops, List.append_nil, Network.onGate_eq_setGate hx]
  rfl

/-- A view that admits a waiting task hands it on. -/
theorem Settling.does_some {v : View} {change : Gate (Job τ) → Gate (Job τ)} {es : List (Event τ)}
    {x y : Gate (Job τ)} {j : Job τ} (hc : Settling c v change es)
    (hx : n.gate? v.id = some x) (hn : (change x).admitNext = some (j, y)) :
    Does c n [] [.forward v.parent (j.admittedBy v) 1] (n.setGate v.id y) := by
  intro s hs
  subst hs
  obtain ⟨hdrops, hanswers⟩ := hc.silent
  have hd : s.perform c = { pool := s.pool, gates := s.gates.set v.id y
                            todo := [.forward v.parent (j.admittedBy v) 1]
                            events := es ++ [.admitted v] } := by
    rw [perform_settling s hc, settle, show s.gates[v.id]? = some x from hx]
    dsimp only
    rw [hn]
  rw [hd]
  refine ⟨rfl, ?_, ?_⟩
  · rw [List.filterMap_append, hanswers]
    rfl
  · rw [List.filterMap_append, hdrops]
    show s.network.setGate v.id y = ⟨[s.pool], s.gates.set v.id y, _ ++ []⟩
    rw [List.append_nil]
    rfl

/-! ## Forwarding -/

/-- What a thread has to do once a job handed on was taken, or was not. -/
def afterForward (j : Job τ) (passed : Nat) : Bool → List (Chore τ)
  | true => (j.views[passed - 1]?).toList.map .next
  | false => (j.views.take passed).map .release

/-- A thread that is left alone hands jobs on to a dispatcher as a network does. -/
def ForwardsAlone (i : Nat) (vs : List View) (d : Dispatcher) : Prop :=
  ∀ (n : Network τ) (j : Job τ) (passed : Nat) (rest : List (Chore τ)),
    vs.length = n.gates.length → 1 ≤ passed →
    Comes i (.forward d j passed :: rest) n []
      (afterForward j passed (Network.forward d j n).1 ++ rest) (Network.forward d j n).2

/-- A view that is told to look for waiting tasks admits them one after the other. -/
theorem settles_alone {vs : List View} {v : View} (hv : v.toDispatcher.Leads vs 1)
    (hf : ForwardsAlone (τ := τ) i vs v.parent) (fuel : Nat) :
    ∀ {n : Network τ} {c : Chore τ} {change : Gate (Job τ) → Gate (Job τ)} {es : List (Event τ)}
      {x : Gate (Job τ)} (rest : List (Chore τ)), Settling c v change es →
      vs.length = n.gates.length → n.gate? v.id = some x → (change x).queue.length ≤ fuel →
      Comes i (c :: rest) n [] rest
        (Network.admitWaiting (Network.forward v.parent) v fuel (n.onGate v.id change)) := by
  -- induction on a bound for the number of tasks that wait at the view
  induction fuel with
  | zero =>
    intro n c change es x rest hc hsize hx hle
    have hnil : (change x).queue = [] := List.eq_nil_of_length_eq_zero (Nat.le_zero.mp hle)
    rcases Gate.admitNext_cases (change x) with ⟨hn, -⟩ | ⟨j, waiting, hq, -, -⟩
    · exact (hc.does_none hx hn).comes i rest
    · rw [hnil] at hq
      cases hq
  | succ fuel ih =>
    intro n c change es x rest hc hsize hx hle
    have hgate : (n.onGate v.id change).gate? v.id = some (change x) := by
      rw [Network.onGate_eq_setGate hx, Network.gate?_setGate _ _ hx, if_pos rfl]
    rcases Gate.admitNext_cases (change x) with ⟨hn, -⟩ | ⟨j, waiting, hq, -, hn⟩
    · rw [Network.admitWaiting_none _ hgate hn]
      exact (hc.does_none hx hn).comes i rest
    · generalize hy : ({ change x with running := (change x).running + 1, queue := waiting } :
        Gate (Job τ)) = y at hn
      have hleft : y.queue.length ≤ fuel := by
        rw [← hy]
        rw [hq] at hle
        exact Nat.le_of_succ_le_succ hle
      have hput : (n.onGate v.id change).setGate v.id y = n.setGate v.id y := by
        rw [Network.onGate_eq_setGate hx]
        unfold Network.setGate
        rw [List.set_set]
      have hsize' : vs.length = (n.setGate v.id y).gates.length := by
        rw [hsize]
        exact List.length_set.symm
      refine (hc.does_some hx hn).next ?_
      have hfwd := hf _ (j.admittedBy v) 1 rest hsize' (Nat.le_refl 1)
      -- the gate of the view is left alone by what is handed on to its parent
      have hspared := Network.spares_forward (P := fun k => k = v.id) v.parent
        (fun u hu he => Nat.ne_of_lt (hv.parent.2.2 u hu) he) (j.admittedBy v) (n.setGate v.id y)
      rw [Network.admitWaiting, hgate, Option.bind_some, hn]
      dsimp only
      rw [hput]
      generalize Network.forward v.parent (j.admittedBy v) (n.setGate v.id y) = r at hfwd hspared
      obtain ⟨taken, n'⟩ := r
      have hx' : n'.gate? v.id = some y := by
        rw [hspared.gate v.id rfl, Network.gate?_setGate _ _ hx, if_pos rfl]
      have hsize'' : vs.length = n'.gates.length := hsize'.trans hspared.length.symm
      refine hfwd.goOn ?_
      cases taken with
      | true =>
        have hnext := ih rest (.next v) hsize'' hx' hleft
        rw [Network.onGate_id] at hnext
        exact hnext
      | false => exact ih rest (.release v) hsize'' hx' hleft

omit [Kinded τ] in
theorem exists_gate {vs : List View} {v : View} {pools : Nat}
    (hv : v.toDispatcher.Leads vs pools) (hsize : vs.length = n.gates.length) :
    ∃ x, n.gate? v.id = some x := by
  have hlt : v.id < n.gates.length := by
    rw [← hsize]
    exact hv.parent.1.id_lt
  exact ⟨_, List.getElem?_eq_getElem hlt⟩

/-- A view that is told of a change of its gate refills it. -/
theorem refills_alone {vs : List View} {v : View} (hv : v.toDispatcher.Leads vs 1)
    (hf : ForwardsAlone (τ := τ) i vs v.parent) {change : Gate (Job τ) → Gate (Job τ)}
    {es : List (Event τ)} (hc : Settling c v change es) (hsize : vs.length = n.gates.length)
    (rest : List (Chore τ)) :
    Comes i (c :: rest) n [] rest
      (Network.refill (Network.forward v.parent) v (n.onGate v.id change)) := by
  obtain ⟨x, hx⟩ := exists_gate hv hsize
  refine settles_alone hv hf _ rest hc hsize hx ?_
  rw [Network.onGate_eq_setGate hx, Network.gate?_setGate _ _ hx, if_pos rfl]
  exact Nat.le_refl _

/-- A pool that was terminated takes nothing more; what is handed on to it is dropped. -/
theorem does_forward_pool (n : Network τ) (core : Nat) (j : Job τ) (passed : Nat) :
    Does (.forward (.pool 0 core) j passed) n []
      (afterForward j passed (Network.forward (.pool 0 core) j n).1)
      (Network.forward (.pool 0 core) j n).2 := by
  intro s hs
  subst hs
  have hpool : (s.network.pool? 0).bind (fun p => p.submitAccepted j) = s.pool.submitAccepted j :=
    rfl
  have hstrand : ∀ vs : List View, (vs.map Event.stranded).filterMap (Event.answer? (τ := τ)) = [] ∧
      (vs.map Event.stranded).filterMap (Event.drop? (τ := τ)) = [] := by
    intro vs
    constructor <;> exact List.filterMap_eq_nil_iff.mpr fun e he => by
      obtain ⟨v, -, rfl⟩ := List.mem_map.mp he
      rfl
  rw [Network.forward, hpool, perform, forward]
  cases ha : s.pool.submitAccepted j with
  | some p => exact ⟨rfl, rfl, by simp [taken, network, Network.setPool]⟩
  | none =>
    refine ⟨rfl, (hstrand _).1, ?_⟩
    show s.network.drop j = ⟨[s.pool], s.gates, _ ++ j :: List.filterMap Event.drop? _⟩
    rw [(hstrand _).2]
    rfl

theorem does_forward_admitted {v : View} {x : Gate (Job τ)} {j : Job τ} (passed : Nat)
    (hx : n.gate? v.id = some x) (hlt : x.running < x.limit) :
    Does (.forward v.toDispatcher j passed) n []
      [.forward v.parent (j.admittedBy v) (passed + 1)]
      (n.setGate v.id { x with running := x.running + 1 }) := by
  intro s hs
  subst hs
  have he : x.offer false j = (.admitted, { x with running := x.running + 1 }) := by
    rw [Gate.offer, if_pos hlt]
  rw [perform, View.toDispatcher, forward, show s.gates[v.id]? = some x from hx]
  dsimp only
  rw [he]
  exact ⟨rfl, rfl, by simp [network, Network.setGate, Event.drop?]⟩

theorem does_forward_queued {v : View} {x : Gate (Job τ)} {j : Job τ} (passed : Nat)
    (hx : n.gate? v.id = some x) (hle : x.limit ≤ x.running) :
    Does (.forward v.toDispatcher j passed) n [] (afterForward j passed true)
      (n.setGate v.id { x with queue := x.queue ++ [j] }) := by
  intro s hs
  subst hs
  have he : x.offer false j = (.queued, { x with queue := x.queue ++ [j] }) := by
    rw [Gate.offer, if_neg (Nat.not_lt.mpr hle)]
    rfl
  rw [perform, View.toDispatcher, forward, show s.gates[v.id]? = some x from hx]
  dsimp only
  rw [he]
  exact ⟨rfl, rfl, by simp [taken, network, Network.setGate]⟩

/-- A thread that is left alone hands a job on as a network does. -/
theorem forwards_alone {vs : List View} {d : Dispatcher} :
    d.Leads vs 1 → ForwardsAlone (τ := τ) i vs d := by
  -- induction on the way down to the pool
  induction d with
  | pool id core =>
    intro hd n j passed rest _ _
    have hid : id = 0 := Nat.lt_one_iff.mp hd.pool
    subst hid
    exact (does_forward_pool n core j passed).comes i rest
  | view id mode base parent ih =>
    intro hd n j passed rest hsize hpassed
    let v : View := ⟨id, mode, base, parent⟩
    have hv : v.toDispatcher.Leads vs 1 := hd
    obtain ⟨x, hx⟩ := exists_gate hv hsize
    have hx' : n.gate? id = some x := hx
    rw [Network.forward, hx']
    dsimp only
    rcases Gate.offer_cases x false j with ⟨hlt, he⟩ | ⟨-, hf, -⟩ | ⟨hle, -, he⟩
    · rw [he]
      dsimp only
      generalize hm : n.setGate id { x with running := x.running + 1 } = m
      have hsize' : vs.length = m.gates.length := by
        rw [hsize, ← hm]
        exact List.length_set.symm
      have hparent : ForwardsAlone i vs v.parent := ih hv.parent.2.1
      have hfwd := hparent m (j.admittedBy v) (passed + 1) rest hsize' (Nat.le_succ_of_le hpassed)
      have hspared := Network.spares_forward (P := fun _ => False) parent
        (fun _ _ hF => hF) (j.admittedBy v) m
      have hfirst : Comes i (.forward v.toDispatcher j passed :: rest) n []
          (.forward parent (j.admittedBy v) (passed + 1) :: rest) m :=
        hm ▸ (does_forward_admitted passed hx hlt).comes i rest
      refine hfirst.goOn ?_
      generalize Network.forward parent (j.admittedBy v) m = r at hfwd hspared
      obtain ⟨taken, m'⟩ := r
      cases taken with
      | true =>
        have hnext : (j.admittedBy v).views[passed + 1 - 1]? = j.views[passed - 1]? := by
          obtain ⟨k, rfl⟩ := Nat.exists_eq_add_of_le' hpassed
          rfl
        rw [afterForward, hnext] at hfwd
        exact hfwd
      | false =>
        have hsize'' : vs.length = m'.gates.length := hsize'.trans hspared.length.symm
        exact hfwd.trans (refills_alone hv hparent (.release v) hsize'' _)
    · cases hf
    · rw [he]
      exact (does_forward_queued passed hx hle).comes i rest

end Traffic

end Workforce
