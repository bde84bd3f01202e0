import Workforce.Proofs.Network.Forwarding
import Workforce.Proofs.Network.Growth
import Workforce.Proofs.Network.Journeys
import Workforce.Proofs.Network.Spares

/-
  Registers. A register says which pools are shut for good, which tasks may be in a pool or on
  their way there (all of them, unless the pool is shut), and which routes a task may take. A
  network keeps a register if its jobs are where the views that they passed lead to, only listed
  tasks are in a pool or wait before it, and every job is on a route that its task may take.

  Jobs that are forwarded come from gates, so they are listed already (`Follows.forward`); a task
  that is submitted has to be (`Tidy.submit`). A submission to a closed pool leaves the network as it
  was (`submit_of_closed`). Pools may have been terminated and gates may have lost count here, so
  that forwarding can fail: nothing is assumed of a network but its chart, its register and that
  tasks wait at full gates only.
-/

namespace Workforce

variable {τ : Type}

/-! ## Registers -/

/-- Which pools are shut for good, which tasks may be in each pool or on their way there, and which
routes a task may take. -/
structure Register (τ : Type) where
  shut : Nat → Prop
  lists : Nat → τ → Prop
  /-- A pool that is not shut takes every task. -/
  complete : ∀ {i}, ¬ shut i → ∀ t, lists i t
  routes : τ → List View → Prop := fun _ _ => True

/-- The register of a network that takes every task everywhere, on every route. -/
def Register.all : Register τ where
  shut _ := False
  lists _ _ := True
  complete _ _ := trivial

/-- A register with other routes. -/
def Register.along (r : Register τ) (routes : τ → List View → Prop) : Register τ := { r with routes }

/-- A job can stand before a dispatcher, and its task may be there and on this route. -/
structure Job.Listed (j : Job τ) (vs : List View) (r : Register τ) (d : Dispatcher) : Prop where
  fits : j.Fits vs d
  task : r.lists d.poolId j.task
  route : r.routes j.task (j.route d)

/-- Views stand under their numbers, and each leads to one of the pools. -/
def Chart (vs : List View) (pools : Nat) : Prop :=
  ∀ (i : Nat) (v : View), vs[i]? = some v → v.id = i ∧ v.toDispatcher.Leads vs pools

theorem Job.Listed.admittedBy {j : Job τ} {vs : List View} {r : Register τ} {v : View}
    {pools : Nat} (h : j.Listed vs r v.toDispatcher) (hv : v.toDispatcher.Leads vs pools) :
    (j.admittedBy v).Listed vs r v.parent := by
  refine ⟨h.fits.admittedBy hv, h.task, ?_⟩
  rw [Job.route_admittedBy]
  exact h.route

/-- Pools are the same wherever they are reached from. -/
theorem Job.Listed.atPool {j : Job τ} {vs : List View} {r : Register τ} {i core : Nat}
    (h : j.Listed vs r (.pool i core)) (core' : Nat) : j.Listed vs r (.pool i core') :=
  ⟨h.fits.atPool core', h.task, h.route⟩

theorem Job.Listed.append {j : Job τ} {vs : List View} {r : Register τ} {d : Dispatcher}
    (h : j.Listed vs r d) (us : List View) : j.Listed (vs ++ us) r d :=
  ⟨h.fits.append us, h.task, h.route⟩

/-! ## Pools -/

namespace Pool

variable [Kinded τ] {p q : Pool τ} {ts : List τ}

/-- A task is in a queue, in a slot or on a worker of a pool. -/
def Has (p : Pool τ) (t : τ) : Prop :=
  t ∈ p.cpuQueue ++ p.blockingQueue ∨ ∃ x ∈ p.workers, x.slot = some t ∨ x.phase.task? = some t

omit [Kinded τ] in
theorem allTasks_iff {P : τ → Prop} : AllTasks P p ↔ ∀ t, p.Has t → P t := by
  unfold AllTasks
  rw [holding_eq_zero_iff]
  simp only [lacking_eq_zero_iff, worth_lacking_eq_zero_iff]
  constructor
  · rintro ⟨hq, hc⟩ t (ht | ⟨x, hx, hs | hr⟩)
    · exact hq t ht
    · exact (hc x hx).1 t hs
    · exact (hc x hx).2 t hr
  · intro h
    refine ⟨fun t ht => h t (Or.inl ht), fun x hx => ⟨fun t ht => ?_, fun t ht => ?_⟩⟩
    · exact h t (Or.inr ⟨x, hx, Or.inl ht⟩)
    · exact h t (Or.inr ⟨x, hx, Or.inr ht⟩)

/-- An update of a pool that takes in no tasks but the given ones, and opens no closed pool. -/
structure Receives (p q : Pool τ) (ts : List τ) : Prop where
  tasks : ∀ {P : τ → Prop}, AllTasks P p → (∀ t ∈ ts, P t) → AllTasks P q
  closed : p.closed = true → q.closed = true

omit [Kinded τ] in
theorem closed_of_marks (h : q.marks = p.marks) : q.closed = p.closed := congrArg Prod.fst h

omit [Kinded τ] in
/-- An update that adds the weights of the given tasks. -/
theorem receives_of_holding (h : ∀ f b, q.holding f b = p.holding f b + (ts.map f).sum)
    (hc : p.closed = true → q.closed = true) : Receives p q ts := by
  refine ⟨fun {P} hp ht => ?_, hc⟩
  unfold AllTasks at hp ⊢
  rw [h, hp, Nat.zero_add]
  exact List.sum_eq_zero (List.forall_mem_map.mpr fun t hm => lacking_eq_zero_iff.mpr (ht t hm))

theorem receives_queueUp (p : Pool τ) (t : τ) : Receives p (p.queueUp t) [t] :=
  receives_of_holding (fun f b => by simpa using holding_queueUp f b p t) fun h =>
    (closed_of_marks (marks_queueUp p t)).trans h

theorem receives_submitAccepted {t : τ} (h : p.submitAccepted t = some q) : Receives p q [t] := by
  obtain ⟨-, rfl⟩ := submitAccepted_eq_some_iff.mp h
  exact receives_queueUp p t

/-- A submission takes its task into an open pool, whoever submits it. -/
theorem submit_of_open (p : Pool τ) (caller : Option Nat) (t : τ) (tail : Bool)
    (ho : p.closed = false) :
    ∃ q, p.submit caller t tail = (.accepted, q) ∧
      ∀ f b, q.holding f b = p.holding f b + ([t].map f).sum := by
  have hsingle : ∀ f : τ → Nat, ([t].map f).sum = f t := fun f => by simp
  cases hw : (if tail then caller else none) with
  | none =>
    have ha : p.accept t = some (p.queueUp t) := accept_eq_some_iff.mpr ⟨ho, rfl⟩
    refine ⟨_, submit_accepted hw ha, fun f b => ?_⟩
    rw [hsingle, holding_accept f b ha]
  | some w =>
    cases hx : p.worker? w with
    | none =>
      have hp : p.place w t = (.left t, p) := by
        simp [place, ho, hx]
      have ha : p.accept t = some (p.queueUp t) := accept_eq_some_iff.mpr ⟨ho, rfl⟩
      refine ⟨_, submit_left hw hp ha, fun f b => ?_⟩
      rw [hsingle, holding_accept f b ha]
    | some x =>
      have hplace := fun f b => (holding_place f b t hx ho).2
      cases hs : x.slot with
      | none =>
        refine ⟨_, submit_placed hw (place_of_empty ho hx hs t), fun f b => ?_⟩
        have hf := hplace f b
        rw [hs] at hf
        rw [hsingle]
        exact hf
      | some u =>
        have ha : (p.place w t).2.accept u = some ((p.place w t).2.queueUp u) :=
          accept_eq_some_iff.mpr ⟨(closed_place p w t).trans ho, rfl⟩
        refine ⟨_, submit_left hw (place_of_full ho hx hs t) ha, fun f b => ?_⟩
        have hf := hplace f b
        rw [hs, worth_some] at hf
        rw [hsingle, holding_accept f b ha]
        exact hf

/-- A submission takes its task into a pool, or is refused and leaves the pool alone. -/
theorem receives_submit (p : Pool τ) (caller : Option Nat) (t : τ) (tail : Bool) :
    (∃ q, p.submit caller t tail = (.accepted, q) ∧ Receives p q [t]) ∨
      p.submit caller t tail = (.refused t, p) := by
  cases ho : p.closed with
  | true => exact Or.inr (submit_refused_of_closed p caller t tail ho)
  | false =>
    obtain ⟨q, hq, hh⟩ := submit_of_open p caller t tail ho
    exact Or.inl ⟨q, hq, receives_of_holding hh fun h => by rw [ho] at h; cases h⟩

theorem receives_flush (p : Pool τ) (w : Nat) : Receives p (p.flush w) [] :=
  receives_of_holding (fun f b => holding_flush f b p w) fun h =>
    (closed_of_marks (marks_flush p w)).trans h

omit [Kinded τ] in
theorem receives_raise (p : Pool τ) (w : Nat) : Receives p (p.raise w) [] :=
  receives_of_holding (fun f b => holding_raise f b p w) fun h =>
    (closed_of_marks (marks_raise p w)).trans h

omit [Kinded τ] in
theorem receives_lower (p : Pool τ) (w : Nat) : Receives p (p.lower w) [] :=
  receives_of_holding (fun f b => holding_lower f b p w) fun h =>
    (closed_of_marks (marks_lower p w)).trans h

omit [Kinded τ] in
theorem closed_beginClose (p : Pool τ) : p.beginClose.closed = true :=
  congrArg Prod.fst (marks_beginClose p)

omit [Kinded τ] in
theorem receives_beginClose (p : Pool τ) : Receives p p.beginClose [] :=
  receives_of_holding (fun f b => holding_beginClose f b p) fun _ => closed_beginClose p

omit [Kinded τ] in
/-- A forced termination only gives tasks up. -/
theorem receives_terminate (p : Pool τ) : Receives p p.terminate.2.2 [] := by
  refine ⟨fun {P} hp _ => ?_, fun h => h⟩
  have hh := holding_terminate (lacking P) (lacking P) p
  unfold AllTasks at hp ⊢
  omega

omit [Kinded τ] in
/-- A worker that takes a turn starts a task that was in the pool before. -/
theorem receives_turn {x : Worker τ} {r : Turn τ × Pool τ} (hl : ∀ f b, TurnLaw f b p x r)
    (hm : r.2.marks = p.marks) : Receives p r.2 [] := by
  refine ⟨fun {P} hp _ => ?_, fun h => (closed_of_marks hm).trans h⟩
  have hlaw := hl (lacking P) (lacking P)
  have hstarted : Worth (lacking P) r.1.started ≤ Worth (lacking P) r.1.lifted := by
    cases r.1 with
    | runs t => exact Nat.le_refl _
    | rests => exact Nat.zero_le _
    | leaves o => exact Nat.zero_le _
  unfold AllTasks at hp ⊢
  unfold TurnLaw at hlaw
  omega

theorem receives_begin {w : Nat} {x : Worker τ} (hw : p.worker? w = some x) :
    Receives p (p.begin w).2 [] :=
  receives_turn (fun f b => turnLaw_begin f b hw) (marks_schedule { p with starting := p.starting - 1 } w)

theorem receives_resume {w : Nat} {x : Worker τ} (hw : p.worker? w = some x) (timedOut : Bool) :
    Receives p (p.resume w timedOut).2 [] :=
  receives_turn (fun f b => turnLaw_resume f b hw timedOut) (marks_resume p w timedOut)

theorem receives_finish {w : Nat} {x : Worker τ} (hw : p.worker? w = some x) (k : Kind) :
    Receives p (p.finish w k).2 [] :=
  receives_turn (fun f b => turnLaw_finish f b hw k)
    ((marks_schedule (p.countEnd k) w).trans (marks_countEnd p k))

omit [Kinded τ] in
theorem receives_die {w : Nat} {x : Worker τ} (hw : p.worker? w = some x) (k : Kind) :
    Receives p (p.die w k).2 [] :=
  receives_turn (fun f b => turnLaw_die f b hw k) (marks_die p w k)

end Pool

namespace Network

variable [Kinded τ] {vs : List View} {k : Nat} {r : Register τ} {n n' : Network τ}

/-! ## Networks that keep a register -/

/-- The chart describes the views of a network, and only listed tasks are in a pool or wait before
it. -/
structure Follows (vs : List View) (k : Nat) (r : Register τ) (n : Network τ) : Prop where
  pools : n.pools.length = k
  gates : n.gates.length = vs.length
  chart : Chart vs k
  pooled : ∀ (i : Nat) (p : Pool (Job τ)), n.pool? i = some p →
    p.AllTasks fun j => j.Listed vs r (.pool i 0)
  gated : ∀ (i : Nat) (v : View) (x : Gate (Job τ)), vs[i]? = some v → n.gate? i = some x →
    ∀ j ∈ x.queue, j.Listed vs r v.toDispatcher
  shut : ∀ (i : Nat) (p : Pool (Job τ)), n.pool? i = some p → r.shut i → p.closed = true

/-- Besides, tasks wait at full gates only. -/
structure Tidy (vs : List View) (k : Nat) (r : Register τ) (n : Network τ) : Prop
    extends Follows vs k r n where
  settled : ∀ i, n.SettledAt i

omit [Kinded τ] in
/-- Tasks that were dropped are no concern of a register. -/
theorem Follows.congr (h : n.Follows vs k r) (hp : n'.pools = n.pools) (hg : n'.gates = n.gates) :
    n'.Follows vs k r := by
  refine ⟨by rw [hp]; exact h.pools, by rw [hg]; exact h.gates, h.chart, fun i p hi => ?_,
    fun i v x hv hx => ?_, fun i p hi => ?_⟩
  · rw [pool?, hp] at hi
    exact h.pooled i p hi
  · rw [gate?, hg] at hx
    exact h.gated i v x hv hx
  · rw [pool?, hp] at hi
    exact h.shut i p hi

omit [Kinded τ] in
theorem Tidy.congr (h : n.Tidy vs k r) (hp : n'.pools = n.pools) (hg : n'.gates = n.gates) :
    n'.Tidy vs k r := by
  refine ⟨h.toFollows.congr hp hg, fun i x hx => ?_⟩
  rw [gate?, hg] at hx
  exact h.settled i x hx

omit [Kinded τ] in
/-- Tasks may take more routes. -/
theorem Tidy.along (h : n.Tidy vs k r) {R : τ → List View → Prop}
    (hR : ∀ t us, r.routes t us → R t us) : n.Tidy vs k (r.along R) := by
  have hlisted : ∀ {j : Job τ} {d : Dispatcher}, j.Listed vs r d → j.Listed vs (r.along R) d :=
    fun hj => ⟨hj.fits, hj.task, hR _ _ hj.route⟩
  exact ⟨⟨h.pools, h.gates, h.chart, fun i p hp => (h.pooled i p hp).imp fun _ => hlisted,
    fun i v x hv hx j hj => hlisted (h.gated i v x hv hx j hj), h.shut⟩, h.settled⟩

omit [Kinded τ] in
theorem Follows.leads (h : n.Follows vs k r) {v : View} (hv : v.On vs) :
    v.toDispatcher.Leads vs k := (h.chart v.id v hv).2

/-! ## Changing a pool -/

omit [Kinded τ] in
theorem Follows.setPool (h : n.Follows vs k r) {i : Nat} {p q : Pool (Job τ)}
    (hp : n.pool? i = some p) {js : List (Job τ)} (hq : p.Receives q js)
    (hj : ∀ j ∈ js, j.Listed vs r (.pool i 0)) : (n.setPool i q).Follows vs k r := by
  refine ⟨List.length_set.trans h.pools, h.gates, h.chart, fun l s hs => ?_, h.gated,
    fun l s hs => ?_⟩
  · rw [pool?_setPool n q hp] at hs
    split at hs
    case isTrue hl =>
      cases hs
      rw [hl]
      exact hq.tasks (h.pooled i p hp) hj
    case isFalse => exact h.pooled l s hs
  · rw [pool?_setPool n q hp] at hs
    split at hs
    case isTrue hl =>
      cases hs
      rw [hl]
      exact fun hr => hq.closed (h.shut i p hp hr)
    case isFalse => exact h.shut l s hs

omit [Kinded τ] in
theorem Tidy.setPool (h : n.Tidy vs k r) {i : Nat} {p q : Pool (Job τ)} (hp : n.pool? i = some p)
    {js : List (Job τ)} (hq : p.Receives q js) (hj : ∀ j ∈ js, j.Listed vs r (.pool i 0)) :
    (n.setPool i q).Tidy vs k r :=
  ⟨h.toFollows.setPool hp hq hj, h.settled⟩

omit [Kinded τ] in
theorem Tidy.onPool (h : n.Tidy vs k r) (i : Nat) {f : Pool (Job τ) → Pool (Job τ)}
    (hf : ∀ p : Pool (Job τ), p.Receives (f p) []) : (n.onPool i f).Tidy vs k r := by
  cases hp : n.pool? i with
  | none =>
    have he : n.onPool i f = n := by
      unfold Network.onPool
      rw [List.modify_eq_self (List.getElem?_eq_none_iff.mp hp)]
    rw [he]
    exact h
  | some p =>
    have he : n.onPool i f = n.setPool i (f p) := by
      unfold Network.onPool Network.setPool
      rw [modify_eq_set f hp]
    rw [he]
    exact h.setPool hp (hf p) (List.forall_mem_nil _)

/-! ## Changing a gate -/

omit [Kinded τ] in
theorem Follows.setGate (h : n.Follows vs k r) {i : Nat} {x y : Gate (Job τ)}
    (hx : n.gate? i = some x)
    (hy : ∀ j ∈ y.queue, j ∈ x.queue ∨ ∀ v, vs[i]? = some v → j.Listed vs r v.toDispatcher) :
    (n.setGate i y).Follows vs k r := by
  refine ⟨h.pools, List.length_set.trans h.gates, h.chart, h.pooled, fun l v z hv hz j hj => ?_,
    h.shut⟩
  rw [gate?_setGate n y hx] at hz
  split at hz
  case isTrue hl =>
    cases hz
    subst hl
    rcases hy j hj with hm | hf
    · exact h.gated l v x hv hx j hm
    · exact hf v hv
  case isFalse => exact h.gated l v z hv hz j hj

omit [Kinded τ] in
theorem onGate_of_none {i : Nat} (hx : n.gate? i = none) (f : Gate (Job τ) → Gate (Job τ)) :
    n.onGate i f = n := by
  unfold onGate
  rw [List.modify_eq_self (List.getElem?_eq_none_iff.mp hx)]

omit [Kinded τ] in
/-- The limit or the count of a gate was changed. -/
theorem Follows.onGate (h : n.Follows vs k r) (i : Nat) {f : Gate (Job τ) → Gate (Job τ)}
    (hf : ∀ x, (f x).queue = x.queue) : (n.onGate i f).Follows vs k r := by
  cases hx : n.gate? i with
  | none =>
    rw [onGate_of_none hx]
    exact h
  | some x =>
    rw [onGate_eq_setGate hx]
    refine h.setGate hx fun j hj => Or.inl ?_
    rw [← hf x]
    exact hj

omit [Kinded τ] in
theorem settledAt_onGate_of_ne {i l : Nat} (hl : l ≠ i) (h : n.SettledAt l)
    (f : Gate (Job τ) → Gate (Job τ)) : (n.onGate i f).SettledAt l := by
  cases hx : n.gate? i with
  | none =>
    rw [onGate_of_none hx]
    exact h
  | some x =>
    rw [onGate_eq_setGate hx]
    exact settledAt_onGate hl h hx (f x)

omit [Kinded τ] in
/-- A job that passes a gate leaves the gate full, if it was. -/
theorem settledAt_enter {i : Nat} {x : Gate (Job τ)} (hx : n.gate? i = some x) (l : Nat)
    (h : n.SettledAt l) : (n.setGate i { x with running := x.running + 1 }).SettledAt l := by
  refine settledAt_setGate hx (fun hs hq => ?_) l h
  exact Nat.le_succ_of_le (hs hq)

omit [Kinded τ] in
theorem Follows.enter (h : n.Follows vs k r) {i : Nat} {x : Gate (Job τ)}
    (hx : n.gate? i = some x) :
    (n.setGate i { x with running := x.running + 1 }).Follows vs k r :=
  h.setGate hx fun _ hj => Or.inl hj

omit [Kinded τ] in
/-- A job comes to wait at a gate that is full. -/
theorem settledAt_wait {i : Nat} {x : Gate (Job τ)} (hx : n.gate? i = some x)
    (hle : x.limit ≤ x.running) (j : Job τ) (l : Nat) (h : n.SettledAt l) :
    (n.setGate i { x with queue := x.queue ++ [j] }).SettledAt l := by
  refine settledAt_setGate hx (fun _ _ => ?_) l h
  exact hle

omit [Kinded τ] in
theorem Follows.wait (h : n.Follows vs k r) {v : View} (hv : v.On vs) {x : Gate (Job τ)}
    (hx : n.gate? v.id = some x) {j : Job τ} (hj : j.Listed vs r v.toDispatcher) :
    (n.setGate v.id { x with queue := x.queue ++ [j] }).Follows vs k r := by
  refine h.setGate hx fun u hu => ?_
  rcases List.mem_append.mp hu with hu | hu
  · exact Or.inl hu
  · rw [List.mem_singleton.mp hu]
    refine Or.inr fun w hw => ?_
    have hwv : w = v := Option.some.inj (hw.symm.trans hv)
    exact hwv ▸ hj

omit [Kinded τ] in
/-- The tasks that wait at a gate are given up. -/
theorem Tidy.clearGate (h : n.Tidy vs k r) {i : Nat} {x : Gate (Job τ)} (hx : n.gate? i = some x) :
    (n.setGate i { x with queue := [] }).Tidy vs k r := by
  refine ⟨h.toFollows.setGate hx (List.forall_mem_nil _), fun l => ?_⟩
  exact settledAt_setGate hx (fun _ hq => absurd rfl hq) l (h.settled l)

/-! ## Admitting waiting tasks -/

/-- A way to hand jobs on to the parent of a view: it keeps the register and what is settled, and
leaves the gate of the view alone. -/
structure Hands (vs : List View) (k : Nat) (r : Register τ) (v : View)
    (f : Job τ → Network τ → Bool × Network τ) : Prop where
  follows : ∀ {n j}, n.Follows vs k r → j.Listed vs r v.parent → (f j n).2.Follows vs k r
  settled : ∀ {n j i}, n.Follows vs k r → j.Listed vs r v.parent → n.SettledAt i →
    (f j n).2.SettledAt i
  spares : ∀ n j, (f j n).2.gate? v.id = n.gate? v.id

omit [Kinded τ] in
/-- The first task that waits at a view is admitted and handed on. -/
theorem Hands.admitFirst {v : View} {f : Job τ → Network τ → Bool × Network τ}
    (hf : Hands vs k r v f) (hv : v.On vs) (h : n.Follows vs k r) {x : Gate (Job τ)} {j : Job τ}
    {rest : List (Job τ)} (hx : n.gate? v.id = some x) (hq : x.queue = j :: rest) {taken : Bool}
    (hn : f (j.admittedBy v) (n.setGate v.id
      { x with running := x.running + 1, queue := rest }) = (taken, n')) :
    n'.Follows vs k r ∧
      n'.gate? v.id = some { x with running := x.running + 1, queue := rest } ∧
      ∀ i, i ≠ v.id → n.SettledAt i → n'.SettledAt i := by
  have hj : j.Listed vs r v.toDispatcher :=
    h.gated v.id v x hv hx j (by rw [hq]; exact List.mem_cons_self)
  have hj' := hj.admittedBy (h.leads hv)
  have hset : (n.setGate v.id { x with running := x.running + 1, queue := rest }).Follows vs k r :=
    h.setGate hx fun i hi => Or.inl (by rw [hq]; exact List.mem_cons_of_mem j hi)
  have hfollows := hf.follows hset hj'
  have hgate := hf.spares (n.setGate v.id { x with running := x.running + 1, queue := rest })
    (j.admittedBy v)
  have hsettled := fun i => hf.settled (i := i) hset hj'
  rw [hn] at hfollows hgate hsettled
  refine ⟨hfollows, hgate.trans ?_, fun i hi hs => hsettled i (settledAt_onGate hi hs hx _)⟩
  rw [gate?_setGate n _ hx, if_pos rfl]

omit [Kinded τ] in
/-- A view admits waiting tasks until none waits or it is full, whether they are taken or not. -/
theorem Hands.admitWaiting {v : View} {f : Job τ → Network τ → Bool × Network τ}
    (hf : Hands vs k r v f) (hv : v.On vs) :
    ∀ (fuel : Nat) {n : Network τ}, n.Follows vs k r →
      (∀ x, n.gate? v.id = some x → x.queue.length ≤ fuel) →
      (admitWaiting f v fuel n).Follows vs k r ∧ (admitWaiting f v fuel n).SettledAt v.id ∧
        ∀ i, i ≠ v.id → n.SettledAt i → (admitWaiting f v fuel n).SettledAt i := by
  intro fuel
  -- induction on the fuel, which covers the tasks that wait
  induction fuel with
  | zero =>
    intro n h hlen
    refine ⟨h, fun x hx hq => ?_, fun _ _ hi => hi⟩
    exact absurd (List.eq_nil_of_length_eq_zero (Nat.le_zero.mp (hlen x hx))) hq
  | succ fuel ih =>
    intro n h hlen
    rw [Network.admitWaiting]
    cases hx : n.gate? v.id with
    | none =>
      refine ⟨h, fun x hx' => ?_, fun _ _ hi => hi⟩
      cases hx.symm.trans hx'
    | some x =>
      rw [Option.bind_some]
      rcases Gate.admitNext_cases x with ⟨hn, hfull⟩ | ⟨j, rest, hq, -, hn⟩
      · rw [hn]
        refine ⟨h, fun y hy => ?_, fun _ _ hi => hi⟩
        cases hx.symm.trans hy
        exact hfull
      · rw [hn]
        dsimp only
        have hrest : rest.length ≤ fuel := by
          have hl := hlen x hx
          rw [hq] at hl
          exact Nat.le_of_succ_le_succ hl
        -- the job is taken, or its admission is given back; either way one task less waits
        split
        case h_1 n' hn' =>
          obtain ⟨hfirst, hgate, hkept⟩ := hf.admitFirst hv h hx hq hn'
          obtain ⟨hfollows, hself, hothers⟩ := ih hfirst fun z hz => by
            cases hgate.symm.trans hz
            exact hrest
          exact ⟨hfollows, hself, fun i hi hs => hothers i hi (hkept i hi hs)⟩
        case h_2 n' hn' =>
          obtain ⟨hfirst, hgate, hkept⟩ := hf.admitFirst hv h hx hq hn'
          obtain ⟨hfollows, hself, hothers⟩ := ih (hfirst.onGate v.id (f := Gate.release) fun _ => rfl)
            fun z hz => by
              rw [onGate_eq_setGate hgate, gate?_setGate n' _ hgate, if_pos rfl] at hz
              cases hz
              exact hrest
          exact ⟨hfollows, hself, fun i hi hs =>
            hothers i hi (settledAt_onGate_of_ne hi (hkept i hi hs) _)⟩

omit [Kinded τ] in
/-- A view whose limit or count was changed refills. -/
theorem Hands.refill {v : View} {f : Job τ → Network τ → Bool × Network τ}
    (hf : Hands vs k r v f) (hv : v.On vs) (h : n.Follows vs k r)
    {g : Gate (Job τ) → Gate (Job τ)} (hc : ∀ x, (g x).queue = x.queue) :
    (refill f v (n.onGate v.id g)).Follows vs k r ∧
      ∀ i, n.SettledAt i → (refill f v (n.onGate v.id g)).SettledAt i := by
  have hfuel : ∀ x, (n.onGate v.id g).gate? v.id = some x →
      x.queue.length ≤ (((n.onGate v.id g).gate? v.id).map fun g => g.queue.length).getD 0 := by
    intro x hx
    rw [hx]
    exact Nat.le_refl _
  obtain ⟨hfollows, hself, hothers⟩ := hf.admitWaiting hv _ (h.onGate v.id hc) hfuel
  refine ⟨hfollows, fun i hi => ?_⟩
  by_cases he : i = v.id
  · rw [he]
    exact hself
  · exact hothers i he (settledAt_onGate_of_ne he hi g)

/-! ## Forwarding -/

/-- Forwarding to the parent of a view leaves the gate of the view alone, since numbers fall. -/
theorem hands_of_forward {v : View} (hbelow : ∀ u ∈ v.parent.views, u.id < v.id)
    (hf : ∀ {n : Network τ} {j : Job τ}, n.Follows vs k r → j.Listed vs r v.parent →
      (forward v.parent j n).2.Follows vs k r ∧
        ∀ i, n.SettledAt i → (forward v.parent j n).2.SettledAt i) :
    Hands vs k r v (forward v.parent) := by
  refine ⟨fun hn hj => (hf hn hj).1, fun hn hj hi => (hf hn hj).2 _ hi, fun n j => ?_⟩
  refine (spares_forward (P := fun i => i = v.id) v.parent (fun u hu he => ?_) j n).gate v.id rfl
  exact absurd he (Nat.ne_of_lt (hbelow u hu))

/-- A job that a view accepted is handed further down, or dropped. -/
theorem Follows.forward {d : Dispatcher} (hd : d.Leads vs k) :
    ∀ {n : Network τ} {j : Job τ}, n.Follows vs k r → j.Listed vs r d →
      (forward d j n).2.Follows vs k r ∧
        ∀ i, n.SettledAt i → (forward d j n).2.SettledAt i := by
  -- induction on the way down to the pool
  induction d with
  | pool i core =>
    intro n j h hj
    rw [Network.forward]
    split
    case h_1 q hq =>
      obtain ⟨p, hp, ha⟩ := Option.bind_eq_some_iff.mp hq
      refine ⟨h.setPool hp (Pool.receives_submitAccepted ha) fun u hu => ?_, fun _ hi => hi⟩
      rw [List.mem_singleton.mp hu]
      exact hj.atPool 0
    case h_2 => exact ⟨h.congr rfl rfl, fun _ hi => hi⟩
  | view id mode base parent ih =>
    intro n j h hj
    let v : View := ⟨id, mode, base, parent⟩
    have hv : v.toDispatcher.Leads vs k := hd
    obtain ⟨hon, hparent, hbelow⟩ := hv.parent
    have hhands : Hands vs k r v (Network.forward parent) := hands_of_forward hbelow (ih hparent)
    rw [Network.forward]
    cases hx : n.gate? id with
    | none => exact ⟨h.congr rfl rfl, fun _ hi => hi⟩
    | some x =>
      dsimp only
      rcases Gate.offer_cases x false j with ⟨-, he⟩ | ⟨-, hf, -⟩ | ⟨hle, -, he⟩
      · rw [he]
        dsimp only
        have hkept := settledAt_enter hx
        obtain ⟨hfollows, hsettled⟩ := ih hparent (h.enter hx) (hj.admittedBy (v := v) hv)
        generalize Network.forward parent (j.admittedBy v)
          (n.setGate id { x with running := x.running + 1 }) = s at hfollows hsettled
        obtain ⟨taken, n'⟩ := s
        cases taken with
        | true => exact ⟨hfollows, fun i hi => hsettled i (hkept i hi)⟩
        | false =>
          obtain ⟨hfollows', hsettled'⟩ :=
            hhands.refill hon hfollows (g := Gate.release) fun _ => rfl
          exact ⟨hfollows', fun i hi => hsettled' i (hsettled i (hkept i hi))⟩
      · cases hf
      · rw [he]
        exact ⟨h.wait hon hx hj, fun i hi => settledAt_wait hx hle j i hi⟩

theorem hands_forward (hc : Chart vs k) {v : View} (hv : v.On vs) :
    Hands vs k r v (Network.forward v.parent) := by
  obtain ⟨-, hparent, hbelow⟩ := (hc v.id v hv).2.parent
  exact hands_of_forward hbelow fun hn hj => hn.forward hparent hj

/-! ## Changing limits and giving admissions back -/

theorem Tidy.refill (h : n.Tidy vs k r) {v : View} (hv : v.On vs)
    {change : Gate (Job τ) → Gate (Job τ)} (hc : ∀ x, (change x).queue = x.queue) :
    (refill (Network.forward v.parent) v (n.onGate v.id change)).Tidy vs k r := by
  obtain ⟨hfollows, hsettled⟩ := (hands_forward h.chart hv).refill hv h.toFollows hc
  exact ⟨hfollows, fun i => hsettled i (h.settled i)⟩

theorem Tidy.release (h : n.Tidy vs k r) {v : View} (hv : v.On vs) :
    (n.release v).Tidy vs k r := h.refill hv fun _ => rfl

theorem Tidy.raise (h : n.Tidy vs k r) {c : Compensator} (hc : ∀ v ∈ c.views, v.On vs) :
    (n.raise c).Tidy vs k r := by
  have hviews : ∀ (us : List View) (n : Network τ), (∀ v ∈ us, v.On vs) → n.Tidy vs k r →
      (us.foldl raiseView n).Tidy vs k r := by
    intro us
    induction us with
    | nil => exact fun _ _ h => h
    | cons v us ih =>
      intro n hus h
      refine ih (n.raiseView v) (fun u hu => hus u (List.mem_cons_of_mem v hu)) ?_
      exact h.refill (hus v List.mem_cons_self) fun _ => rfl
  unfold Network.raise
  cases c.worker with
  | none => exact hviews c.views n hc h
  | some w => exact hviews c.views _ hc (h.onPool w.pool fun p => p.receives_raise w.worker)

omit [Kinded τ] in
theorem Tidy.lowerView (h : n.Tidy vs k r) (i : Nat) : (n.onGate i Gate.lower).Tidy vs k r := by
  refine ⟨h.toFollows.onGate i fun _ => rfl, fun l => ?_⟩
  cases hx : n.gate? i with
  | none =>
    rw [onGate_of_none hx]
    exact h.settled l
  | some x =>
    rw [onGate_eq_setGate hx]
    refine settledAt_setGate hx (fun hs hq => ?_) l (h.settled l)
    exact Nat.le_trans (Nat.sub_le ..) (hs hq)

omit [Kinded τ] in
theorem Tidy.lower (h : n.Tidy vs k r) (c : Compensator) : (n.lower c).Tidy vs k r := by
  have hviews : (c.views.foldr (fun v n => n.onGate v.id Gate.lower) n).Tidy vs k r :=
    List.foldrRecOn (motive := fun m => Tidy vs k r m) c.views _ h fun _ hm v _ => hm.lowerView v.id
  unfold Network.lower
  cases c.worker with
  | none => exact hviews
  | some w => exact hviews.onPool w.pool fun p => p.receives_lower w.worker

/-! ## Submissions -/

/-- A task that is listed is taken, or it is refused and every view that admitted it takes its
admission back. -/
theorem Tidy.submit {caller : Option WorkerId} {tail : Bool} {d : Dispatcher}
    (hd : d.Leads vs k) : ∀ {n : Network τ} {j : Job τ}, n.Tidy vs k r → j.Listed vs r d →
      (n.submit caller tail d j).2.Tidy vs k r := by
  -- induction on the way down to the pool
  induction d with
  | pool i core =>
    intro n j h hj
    rw [Network.submit]
    split
    case h_1 => exact h.congr rfl rfl
    case h_2 p hp =>
      dsimp only
      rcases p.receives_submit ((caller.filter fun w => w.pool = i).map WorkerId.worker) j tail with
        ⟨q, hq, ht⟩ | hq
      · rw [hq]
        refine h.setPool hp ht fun u hu => ?_
        rw [List.mem_singleton.mp hu]
        exact hj.atPool 0
      · rw [hq]
        dsimp only
        rw [setPool_self hp]
        exact h.congr rfl rfl
  | view id mode base parent ih =>
    intro n j h hj
    let v : View := ⟨id, mode, base, parent⟩
    have hv : v.toDispatcher.Leads vs k := hd
    obtain ⟨hon, hparent, -⟩ := hv.parent
    rw [Network.submit]
    cases hx : n.gate? id with
    | none => exact h.congr rfl rfl
    | some x =>
      dsimp only
      rcases Gate.offer_cases x (n.isClosed parent) j with ⟨-, he⟩ | ⟨-, -, he⟩ | ⟨hle, -, he⟩
      · rw [he]
        dsimp only
        have hset : (n.setGate id { x with running := x.running + 1 }).Tidy vs k r :=
          ⟨h.toFollows.enter hx, fun i => settledAt_enter hx i (h.settled i)⟩
        have hsub := ih hparent hset (hj.admittedBy (v := v) hv)
        generalize Network.submit caller tail parent (j.admittedBy v)
          (n.setGate id { x with running := x.running + 1 }) = s at hsub
        obtain ⟨taken, n'⟩ := s
        cases taken with
        | true => exact hsub
        | false => exact hsub.release hon
      · rw [he]
        exact h.congr rfl rfl
      · rw [he]
        exact ⟨h.toFollows.wait hon hx hj, fun i => settledAt_wait hx hle j i (h.settled i)⟩

/-- An admission that is taken back at once leaves no trace: the view had a place for it, so no task
waits there. -/
theorem release_of_free {v : View} {x : Gate (Job τ)} (hx : n.gate? v.id = some x)
    (hs : n.SettledAt v.id) (hlt : x.running < x.limit) (u : Job τ) :
    ((n.setGate v.id { x with running := x.running + 1 }).drop u).release v = n.drop u := by
  have hnil : x.queue = [] := by
    by_cases hq : x.queue = []
    · exact hq
    · exact absurd (hs x hx hq) (Nat.not_le_of_lt hlt)
  let y : Gate (Job τ) := { x with running := x.running + 1 }
  have hback : ((n.setGate v.id y).drop u).onGate v.id Gate.release = n.drop u := by
    have hy : ((n.setGate v.id y).drop u).gate? v.id = some y :=
      (gate?_setGate n y hx v.id).trans (if_pos rfl)
    obtain ⟨hlen, he⟩ := List.getElem?_eq_some_iff.mp hx
    rw [onGate_eq_setGate hy]
    unfold setGate drop
    dsimp only
    rw [List.set_set, show y.release = x from rfl, ← he, List.set_getElem_self]
  have hgate : (n.drop u).gate? v.id = some x := hx
  unfold Network.release
  rw [show ({ x with running := x.running + 1 } : Gate (Job τ)) = y from rfl, hback]
  unfold Network.refill
  rw [hgate, Option.map_some, hnil]
  rfl

/-- A submission to a pool that is closed is refused at some level, and all levels above take
their admissions back: nothing of the network has changed, but for the task dropped. -/
theorem submit_of_closed (caller : Option WorkerId) (tail : Bool) {d : Dispatcher} :
    ∀ {n : Network τ} (j : Job τ), (∀ i, n.SettledAt i) → n.isClosed d = true →
      ∃ u : Job τ, u.task = j.task ∧ n.submit caller tail d j = (false, n.drop u) := by
  -- induction on the way down to the pool
  induction d with
  | pool i core =>
    intro n j _ hclosed
    rw [Network.submit]
    cases hp : n.pool? i with
    | none => exact ⟨j, rfl, rfl⟩
    | some p =>
      have hc : p.closed = true := by
        unfold isClosed at hclosed
        rw [Dispatcher.poolId, hp] at hclosed
        exact hclosed
      dsimp only
      rw [Pool.submit_refused_of_closed p _ j tail hc]
      refine ⟨j, rfl, ?_⟩
      dsimp only
      rw [setPool_self hp]
  | view id mode base parent ih =>
    intro n j hset hclosed
    have hparent : n.isClosed parent = true := hclosed
    rw [Network.submit]
    cases hx : n.gate? id with
    | none => exact ⟨j, rfl, rfl⟩
    | some x =>
      dsimp only
      rcases Gate.offer_cases x (n.isClosed parent) j with ⟨hlt, he⟩ | ⟨-, -, he⟩ | ⟨-, ho, -⟩
      · rw [he]
        dsimp only
        let v : View := ⟨id, mode, base, parent⟩
        let y : Gate (Job τ) := { x with running := x.running + 1 }
        obtain ⟨u, hu, hsub⟩ := ih (n := n.setGate id y) (j.admittedBy v)
          (fun i => settledAt_enter hx i (hset i)) hparent
        have hsub' : Network.submit caller tail parent (j.admittedBy ⟨id, mode, base, parent⟩)
            (n.setGate id { x with running := x.running + 1 }) = (false, (n.setGate id y).drop u) :=
          hsub
        refine ⟨u, hu, ?_⟩
        rw [hsub']
        exact congrArg (Prod.mk false) (release_of_free (v := v) hx (hset id) hlt u)
      · rw [he]
        exact ⟨j, rfl, rfl⟩
      · cases ho.symm.trans hparent

/-! ## Pools and views added -/

omit [Kinded τ] in
/-- A pool that holds nothing is added. -/
theorem Tidy.addPool (h : n.Tidy vs k r) {q : Pool (Job τ)} (hk : ¬ r.shut k)
    (hq : ∀ f b : Job τ → Nat, q.holding f b = 0) :
    ({ n with pools := n.pools ++ [q] } : Network τ).Tidy vs (k + 1) r := by
  refine ⟨⟨?_, h.gates, fun i v hv => ?_, fun i p hp => ?_, h.gated, fun i p hp => ?_⟩, h.settled⟩
  · dsimp only
    rw [List.length_append, h.pools]
    rfl
  · obtain ⟨hi, hl⟩ := h.chart i v hv
    have hg := hl.grow [] (Nat.le_succ k)
    rw [List.append_nil] at hg
    exact ⟨hi, hg⟩
  · rcases getElem?_concat_cases hp with hp | ⟨-, rfl⟩
    · exact h.pooled i p hp
    · exact hq _ _
  · rcases getElem?_concat_cases hp with hp | ⟨hi, rfl⟩
    · exact h.shut i p hp
    · rw [hi, h.pools]
      exact fun hr => absurd hr hk

omit [Kinded τ] in
/-- The gate of a new view over a dispatcher is added. -/
theorem Tidy.addGate (h : n.Tidy vs k r) {v : View} (hi : v.id = vs.length)
    (hd : v.parent.Leads vs k) (limit : Nat) :
    ({ n with gates := n.gates ++ [{ limit }] } : Network τ).Tidy (vs ++ [v]) k r := by
  refine ⟨⟨h.pools, ?_, fun i u hu => ?_, fun i p hp => ?_, fun i u x hu hx j hj => ?_, h.shut⟩,
    fun i x hx => ?_⟩
  · dsimp only
    rw [List.length_append, List.length_append, h.gates]
    rfl
  · rcases getElem?_concat_cases hu with hu | ⟨rfl, rfl⟩
    · obtain ⟨hid, hl⟩ := h.chart i u hu
      exact ⟨hid, hl.grow [v] (Nat.le_refl _)⟩
    · exact ⟨hi, View.leads_new hd hi rfl⟩
  · exact (h.pooled i p hp).imp fun j hj => hj.append [v]
  · rcases getElem?_concat_cases hx with hx | ⟨-, rfl⟩
    · rcases getElem?_concat_cases hu with hu | ⟨rfl, -⟩
      · exact (h.gated i u x hu hx j hj).append [v]
      · rw [List.getElem?_eq_none (Nat.le_of_eq h.gates)] at hx
        cases hx
    · cases hj
  · rcases getElem?_concat_cases hx with hx | ⟨-, rfl⟩
    · exact h.settled i x hx
    · exact fun hne => absurd rfl hne

end Network

end Workforce
