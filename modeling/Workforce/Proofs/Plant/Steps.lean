import Workforce.Plant.Step
import Workforce.Proofs.Network.Growth
import Workforce.Proofs.Plant.Runs

/-
  Steps keep the books of a plant. Pools and views may be added (`Steady.addPool`,
  `Steady.addDerived`); a task handed to a dispatcher is taken or refused, and either way no
  admission is lost (`Steady.launch`). A plain step is one that leaves limits to guarded calls and
  panics with no explosive payload.
-/

namespace Workforce

variable {ν : Type} {vs : List View} {out : Nat → Nat}

/-! ## Longer charts -/

theorem ScopeOn.append {s : Option TaskScope} (h : ScopeOn vs s) (us : List View) :
    ScopeOn (vs ++ us) s := fun c hc v hv => (h c hc v hv).append us

theorem Frame.On.append {f : Frame ν} (h : f.On vs) (us : List View) : f.On (vs ++ us) := by
  cases f with
  | view v => exact View.On.append h us
  | scope previous => exact ScopeOn.append h us
  | guard debt =>
    cases debt with
    | lower c => exact fun v hv => View.On.append (h v hv) us
    | _ => exact trivial
  | _ => exact trivial

/-- A compensator of a chart raises no view that is not there yet. -/
theorem Compensator.raises_eq_zero {c : Compensator} (hc : ∀ v ∈ c.views, v.On vs) {i : Nat}
    (hi : vs.length ≤ i) : c.raises i = 0 := by
  unfold raises
  rw [List.countP_eq_zero]
  intro v hv
  have hlt := (hc v hv).id_lt
  simp only [decide_eq_true_eq]
  omega

/-- A step that does not use a compensator itself, and panics with no explosive payload. -/
def Step.plain : Step ν → Bool
  | .raise .. | .lower .. => false
  | .panic p => p.aftershock.isNone
  | _ => true

namespace Plant

variable {m : Plant ν}

/-- Nothing is owed for a view that is not there yet. -/
theorem Sound.total_owes (h : m.Sound vs [] out) {i : Nat} (hi : vs.length ≤ i) :
    m.total (Frame.owes m.tickets i) = 0 := by
  unfold total
  rw [List.sum_eq_zero_iff, List.forall_mem_map]
  intro x hx
  rw [List.sum_eq_zero_iff, List.forall_mem_map]
  intro f hf
  have hon := h.frames x hx f hf
  cases f with
  | guard debt =>
    cases debt with
    | nothing => rfl
    | lower c => exact Compensator.raises_eq_zero hon hi
    | ticket t entry =>
      show Ticket.due i m.tickets[t]? = 0
      unfold Ticket.due
      split
      case h_1 c ht =>
        exact Compensator.raises_eq_zero (h.compensators _ (List.mem_of_getElem? ht)) hi
      case h_2 => rfl
  | _ => rfl

/-! ## Pools and views added -/

/-- A pool is added. -/
theorem Steady.addPool (h : m.Steady vs) (c : Config) :
    (m.addPool (Pool.ofConfig c)).Steady vs := by
  obtain ⟨hn, hrun⟩ := (h.sound.network).addPool (Pool.healthy_ofConfig c) fun f b =>
    Pool.holding_ofConfig f b c
  refine Sound.steady ⟨hn, h.sound.settled, h.sound.limits, h.sound.tickets, h.sound.compensators,
    h.sound.frames, nofun, h.sound.scopes, fun d hd => ?_, fun w => ?_⟩ fun i => (hrun i).symm
  · have hlen : m.network.pools.length < (m.network.pools ++ [Pool.ofConfig c]).length := by
      rw [List.length_append]
      exact Nat.lt_succ_self _
    rcases List.mem_append.mp hd with hd | hd
    · have hg := (h.sound.dispatchers d hd).grow [] (Nat.le_of_lt hlen)
      rw [List.append_nil] at hg
      exact hg
    · cases List.mem_singleton.mp hd
      exact ⟨hlen, nofun, List.Pairwise.nil⟩
  · exact (h.sound.linked w).imp_right fun ⟨j, hj, hi⟩ => ⟨j, Network.taskAt_append hj _, hi⟩

/-- A view over a dispatcher is added. -/
theorem Steady.addView (h : m.Steady vs) {d : Dispatcher} (hd : some d ∈ m.dispatchers) {mode : Mode}
    {base : Nat} (hb : 1 ≤ base) :
    (m.addDispatcher (.view m.network.gates.length mode base d)).2.Steady
      (vs ++ [⟨m.network.gates.length, mode, base, d⟩]) := by
  have hlead := h.sound.dispatchers d hd
  have hsize : vs.length = m.network.gates.length := (h.sound.network).size
  have hidle := (h.sound.network).idle (Nat.le_refl vs.length)
  have hn := (h.sound.network).addGate (v := ⟨m.network.gates.length, mode, base, d⟩) hsize.symm
    hlead hidle.2 base
  unfold addDispatcher
  dsimp only
  rw [if_pos rfl]
  refine Sound.steady ⟨hn, fun i x hx => ?_, fun i hi => ?_, h.sound.tickets, fun x hx v hv => ?_,
    fun x hx f hf => ?_, nofun, fun x hx => ?_, fun e he => ?_, h.sound.linked⟩ fun _ => rfl
  · rcases getElem?_concat_cases hx with hx | ⟨-, rfl⟩
    · exact h.sound.settled i x hx
    · exact fun hne => absurd rfl hne
  · have hle : i ≤ m.network.gates.length := by
      dsimp only at hi
      rw [List.length_append] at hi
      exact Nat.le_of_lt_succ hi
    dsimp only
    rw [Network.limitOf_append m.network base hle]
    split
    case isTrue he =>
      have hz := h.sound.total_owes (i := i) (by omega)
      show 1 + m.total (Frame.owes m.tickets i) + 0 ≤ base
      omega
    case isFalse hne => exact h.sound.limits i (by omega)
  · exact (h.sound.compensators x hx v hv).append _
  · exact (h.sound.frames x hx f hf).append _
  · exact (h.sound.scopes x hx).append _
  · rcases List.mem_append.mp he with he | he
    · exact (h.sound.dispatchers e he).grow _ (Nat.le_refl _)
    · cases List.mem_singleton.mp he
      exact View.leads_new (v := ⟨m.network.gates.length, mode, base, d⟩) hlead hsize.symm rfl

/-- A dispatcher that was known before is obtained again. -/
theorem Steady.addKnown (h : m.Steady vs) {d : Dispatcher} (hd : some d ∈ m.dispatchers) :
    (m.addDispatcher d).2.Steady vs := by
  have hs : m.Sound vs [] m.network.running := h
  have hagain : ({ m with dispatchers := m.dispatchers ++ [some d] } : Plant ν).Steady vs := by
    refine Sound.steady ⟨hs.network, hs.settled, hs.limits, hs.tickets, hs.compensators, hs.frames,
      hs.inHand, hs.scopes, fun e he => ?_, hs.linked⟩ fun _ => rfl
    rcases List.mem_append.mp he with he | he
    · exact hs.dispatchers e he
    · cases List.mem_singleton.mp he
      exact hs.dispatchers d hd
  cases d with
  | pool id core => exact hagain
  | view id mode base parent =>
    have hlt : id < vs.length :=
      ((hs.dispatchers _ hd).charted ⟨id, mode, base, parent⟩ List.mem_cons_self).id_lt
    have hne : id ≠ m.network.gates.length := by
      rw [← hs.network.size]
      exact Nat.ne_of_lt hlt
    unfold addDispatcher
    dsimp only
    rw [if_neg hne]
    exact hagain

/-- What a dispatcher is made into: itself, or a new view over it that has a place. -/
def Derives (make : Nat → Dispatcher → Except Failure Dispatcher) : Prop :=
  ∀ fresh d e, make fresh d = .ok e →
    e = d ∨ ∃ mode base, 1 ≤ base ∧ e = .view fresh mode base d

theorem derives_soft (n : Nat) : Derives fun fresh d => Dispatcher.soft fresh d n := by
  intro fresh d e he
  dsimp only at he
  unfold Dispatcher.soft at he
  split at he
  · cases he
  · split at he
    · cases he
    · cases he
      exact Or.inr ⟨.soft, n, by omega, rfl⟩

theorem derives_narrow (n : Nat) : Derives fun fresh d => d.narrow fresh n := by
  intro fresh d e he
  have hsoft := derives_soft n fresh d e
  dsimp only at he hsoft
  unfold Dispatcher.narrow at he
  split at he
  · split at he
    · cases he
    · split at he
      · cases he
        exact Or.inl rfl
      · exact hsoft he
  · split at he
    · cases he
    · split at he
      · cases he
      · split at he
        · cases he
          exact Or.inl rfl
        · exact hsoft he

theorem derives_exclusive : Derives fun fresh d => .ok (.exclusive fresh d) := by
  intro fresh d e he
  cases he
  exact Or.inr ⟨.exclusive, 1, Nat.le_refl 1, rfl⟩

theorem mem_dispatchers {k : Nat} {d : Dispatcher} (h : m.dispatcher? k = some d) :
    some d ∈ m.dispatchers := List.mem_of_getElem? (Option.join_eq_some_iff.mp h)

theorem Steady.addDerived (h : m.Steady vs) (on : Nat)
    {make : Nat → Dispatcher → Except Failure Dispatcher} (hmake : Derives make) :
    ∃ us, (m.addDerived on make).2.Steady us := by
  unfold Plant.addDerived
  split
  case h_1 => exact ⟨vs, h⟩
  case h_2 d hd =>
    split
    case h_1 e he =>
      rcases hmake _ _ _ he with rfl | ⟨mode, base, hb, rfl⟩
      · exact ⟨vs, h.addKnown (mem_dispatchers hd)⟩
      · exact ⟨_, h.addView (mem_dispatchers hd) hb⟩
    case h_2 => exact ⟨vs, h⟩

/-! ## Tasks handed over -/

/-- A worker that acts runs a task. -/
def Acts (m : Plant ν) (a : Actor) : Prop :=
  ∀ w, a.worker? = some w → (m.network.taskAt w).isSome = true

theorem Aside.acts {m m' : Plant ν} (h : Aside m m') {a : Actor} (ha : m.Acts a) : m'.Acts a :=
  fun w hw => by
    rw [h.calm.task]
    exact ha w hw

theorem Steady.aside {m' : Plant ν} (hs : m'.Sound vs [] m.network.running) (ha : Aside m m') :
    m'.Steady vs := hs.steady fun i => (ha.calm.running i).symm

/-- A task is handed to a dispatcher, which takes or refuses it. -/
theorem Steady.submitTask (h : m.Steady vs) {a : Actor} (ha : m.Acts a) (how : Launch)
    {d : Dispatcher} (hd : some d ∈ m.dispatchers) (kind : Kind) (id : String) (context : Context)
    (body : Option (List (Step ν))) (tail : Bool) :
    (m.submitTask a how d kind id context body tail).2.Steady vs ∧
    Aside m (m.submitTask a how d kind id context body tail).2 := by
  unfold Plant.submitTask
  dsimp only
  generalize hm' : ({ m with tasks := m.tasks ++ [{ name := id, pool := d.poolId }] } : Plant ν) = m'
  have hstill : Still m m' := hm' ▸ ⟨rfl, rfl, rfl, rfl⟩
  have hs : m'.Sound vs [] m.network.running := h.sound.still hstill
  generalize ({ id := m.tasks.length, kind, context, reports := decide (how = .spawn), body } :
    Task ν) = task
  generalize (tail && how == Launch.submit) = tail'
  have hin : m'.network.Sound vs fun i => m.network.running i + Job.passes i { task } :=
    hs.network.congr fun _ => rfl
  obtain ⟨n, taken, hsub, hn, hk, hset⟩ :
      ∃ n taken, m'.network.submit a.worker? tail' d { task } = (taken, n) ∧ _ :=
    Network.submit_sound hin hs.settled (hs.dispatchers d (hstill.dispatchers ▸ hd))
      (Job.fits_fresh task vs d) (hstill.aside.acts ha)
  have hout : m'.Sound vs [] m.network.running ∧ n.Sound vs m.network.running := by
    refine ⟨hs, hn.congr fun i => ?_⟩
    cases taken <;> rfl
  have hput := hs.keeps hout.2 hset hk
  have haside : Aside m (m'.withNetwork n) := hstill.aside.trans (aside_withNetwork hk.toCalm)
  rw [hstill.network] at hsub
  rw [hsub]
  cases taken with
  | true =>
    have ht := still_onTask (m'.withNetwork n) m.tasks.length fun r =>
      { r with held := decide (how = .spawn) }
    have ha' := haside.trans ht.aside
    exact ⟨Steady.aside (hput.still ht) ha', ha'⟩
  | false =>
    have ht := still_onTask (m'.withNetwork n) m.tasks.length fun r => { r with status := .rejected }
    have ha' := haside.trans ht.aside
    exact ⟨Steady.aside (hput.still ht) ha', ha'⟩

theorem Steady.ambient (h : m.Steady vs) (a : Actor) (x : Ambient) :
    (m.setThread a { m.thread a with ambient := x }).Steady vs ∧
    Aside m (m.setThread a { m.thread a with ambient := x }) :=
  ⟨h.sound.ambient a x, aside_setThread rfl⟩

/-- A task is handed over while the calling thread is in a context. -/
theorem Steady.submitWithin (h : m.Steady vs) {a : Actor} (c : Context)
    {submit : Plant ν → Reply ν × Plant ν}
    (hsubmit : ∀ m' : Plant ν, m'.Steady vs → Aside m m' → m'.dispatchers = m.dispatchers →
      (submit m').2.Steady vs ∧ Aside m' (submit m').2) :
    (m.submitWithin a c submit).2.Steady vs ∧ Aside m (m.submitWithin a c submit).2 := by
  unfold Plant.submitWithin
  dsimp only
  split
  case h_1 => exact h.ambient a _
  case h_2 token ambient _ =>
    obtain ⟨hin, hasideIn⟩ := h.ambient a ambient
    obtain ⟨hs, haside⟩ := hsubmit _ hin hasideIn rfl
    obtain ⟨hout, hasideOut⟩ := hs.ambient a (c.leave token _).2.forgetNotes
    exact ⟨hout, hasideIn.trans (haside.trans hasideOut)⟩

theorem Steady.launch (h : m.Steady vs) {a : Actor} (ha : m.Acts a) (how : Launch) (on : Nat)
    (kind : Kind) (id : String) (elements : Option (List Element)) (body : Option (List (Step ν)))
    (tail : Bool) :
    (m.launch a how on kind id elements body tail).2.Steady vs ∧
    Aside m (m.launch a how on kind id elements body tail).2 := by
  unfold Plant.launch
  split
  case h_1 => exact ⟨h, Aside.refl m⟩
  case h_2 d hd =>
    have hmem := mem_dispatchers hd
    split
    case isTrue => exact ⟨h, Aside.refl m⟩
    case isFalse =>
      cases elements with
      | none => exact h.submitTask ha how hmem kind id _ body tail
      | some es =>
        have hstill : Still m { m with nextSerial := m.nextSerial + 1 } := ⟨rfl, rfl, rfl, rfl⟩
        have hs := h.still hstill
        have ha' := hstill.aside.acts ha
        dsimp only
        split
        case isTrue =>
          obtain ⟨hs', haside⟩ := hs.submitTask ha' how hmem kind id
            (Context.ofElements m.nextSerial es) body tail
          exact ⟨hs', hstill.aside.trans haside⟩
        case isFalse =>
          obtain ⟨hs', haside⟩ := hs.submitWithin (Context.ofElements m.nextSerial es)
            fun m' hm' hin hdisp => hm'.submitTask (hin.acts ha') how (hdisp ▸ hmem) kind id
              (Context.ofElements m.nextSerial es) body tail
          exact ⟨hs', hstill.aside.trans haside⟩

theorem Steady.launchMany {a : Actor} (how : Launch) (on : Nat) (kind : Kind) (stem : String)
    (elements : Option (List Element)) (body : Option (List (Step ν))) (tail : Bool)
    (is : List Nat) : ∀ {m : Plant ν}, m.Steady vs → m.Acts a →
      (m.launchMany a how on kind stem elements body tail is).2.Steady vs := by
  induction is with
  | nil => exact fun h _ => h
  | cons i is ih =>
    intro m h ha
    obtain ⟨hs, haside⟩ := h.launch ha how on kind (stem ++ toString i) elements body tail
    exact ih hs (haside.acts ha)

/-! ## Steps -/

theorem still_joinTask (m : Plant ν) (id : String) : Still m (m.joinTask id).2 := by
  unfold joinTask
  split
  · exact ⟨rfl, rfl, rfl, rfl⟩
  · split
    · split <;> exact ⟨rfl, rfl, rfl, rfl⟩
    · exact ⟨rfl, rfl, rfl, rfl⟩

theorem still_joinTasks (m : Plant ν) (ids : List String) : Still m (m.joinTasks ids).2 := by
  unfold joinTasks
  dsimp only
  split <;> exact ⟨rfl, rfl, rfl, rfl⟩

/-- The deadline of a ticket passes. -/
theorem Steady.expire (h : m.Steady vs) (t : Nat) : (m.expire t).Steady vs := by
  obtain ⟨hs, ha⟩ := h.sound.expire t
  exact Steady.aside hs ha

theorem Steady.fire (h : m.Steady vs) (k : Nat) : (m.fire k).2.Steady vs := by
  unfold Plant.fire
  split
  case h_1 => exact h
  case h_2 t ht =>
    have hstill : Still m { m with callbacks := m.callbacks.set k none } := ⟨rfl, rfl, rfl, rfl⟩
    exact (h.still hstill).expire t

/-- A plain step that leaves the stack of its thread as it is. -/
theorem Steady.perform (h : m.Steady vs) {a : Actor} (ha : m.Acts a) {s : Step ν} (hs : s.plain = true) :
    ∃ us, (m.perform a s).2.Steady us := by
  cases s with
  | launch how on kind id elements body tail =>
    exact ⟨vs, (h.launch ha how on kind id elements body tail).1⟩
  | many count task =>
    cases task with
    | launch how on kind stem elements body tail =>
      exact ⟨vs, h.launchMany how on kind stem elements body tail (List.range count) ha⟩
    | _ => exact ⟨vs, h⟩
  | narrow on n => exact h.addDerived on (derives_narrow n)
  | soft on n => exact h.addDerived on (derives_soft n)
  | exclusive on => exact h.addDerived on derives_exclusive
  | info on =>
    refine ⟨vs, ?_⟩
    unfold Plant.perform
    dsimp only
    split <;> exact h
  | peek on =>
    refine ⟨vs, ?_⟩
    unfold Plant.perform
    dsimp only
    split <;> exact h
  | raise times saved => cases hs
  | lower times saved => cases hs
  | save name =>
    refine ⟨vs, ?_⟩
    unfold Plant.perform
    dsimp only
    split
    · exact h.still ⟨rfl, rfl, rfl, rfl⟩
    · exact h
  | set cell value => exact ⟨vs, (h.ambient a _).1⟩
  | log message => exact ⟨vs, h.still ⟨rfl, rfl, rfl, rfl⟩⟩
  | fire k => exact ⟨vs, h.fire k⟩
  | join id patience => exact ⟨vs, h.still (still_joinTask m id)⟩
  | joinAll ids => exact ⟨vs, h.still (still_joinTasks m ids)⟩
  | _ => exact ⟨vs, h⟩

/-! ## Steps of tasks -/

theorem Steady.acts (h : m.Steady vs) {w : WorkerId} (hw : (m.thread (.worker w)).stack ≠ []) :
    m.Acts (.worker w) := by
  intro u hu
  cases hu
  obtain ⟨j, hj, -⟩ := (h.sound.linked w).resolve_left hw
  rw [hj]
  rfl

/-- A frame in hand comes onto the stack of a worker, where an operation is done. -/
theorem Sound.pushed {m' : Plant ν} {f : Frame ν} (h : m'.Sound vs [f] m.network.running)
    (ha : Aside m m') (hf : f.view? = none) {w : WorkerId}
    (hw : (m.thread (.worker w)).stack ≠ []) : (m'.push (.worker w) f).Steady vs := by
  have hw' : (m'.thread (.worker w)).stack ≠ [] := by
    rw [ha.stack]
    exact hw
  exact (h.push hf hw').steady fun i => (ha.calm.running i).symm

/-- The innermost guarded call of a worker ends. -/
theorem Steady.endGuard (h : m.Steady vs) {w : WorkerId} {debt : Debt} {rest : List (Frame ν)}
    (hs : (m.thread (.worker w)).stack = .guard debt :: rest) :
    ((m.setStack (.worker w) rest).pay debt).Steady vs := by
  have hpop := h.sound.pop [.guard debt] hs fun f hf => by
    rw [List.mem_singleton.mp hf]
    rfl
  obtain ⟨hp, ha⟩ := hpop.pay
  exact hp.steady fun i => (ha.calm.running i).symm

/-- A task that waits for its steps is given a plain one. -/
theorem Steady.direct (h : m.Steady vs) {w : WorkerId} (hw : (m.thread (.worker w)).stack ≠ [])
    {s : Step ν} (hs : s.plain = true) : ∃ us, (m.direct w s).2.Steady us := by
  have hperform := h.perform (h.acts hw) hs
  cases s with
  | finish value => exact ⟨vs, h.endBody hw trivial⟩
  | panic p => exact ⟨vs, h.endBody hw (Option.isNone_iff_eq_none.mp hs)⟩
  | guard deadline timer enabled body =>
    refine ⟨vs, ?_⟩
    unfold Plant.direct
    dsimp only
    rcases h.sound.beginGuard hw deadline timer enabled with ⟨e, he⟩ | ⟨debt, m', he, hm', ha⟩
    · rw [he]
      exact h
    · rw [he]
      exact hm'.pushed ha rfl hw
  | leave =>
    refine ⟨vs, ?_⟩
    unfold Plant.direct
    dsimp only
    split
    case h_1 debt rest hstack => exact h.endGuard hstack
    case h_2 => exact h
  | _ => exact hperform

/-! ## Steps of scripts -/

theorem stack_setStack (m : Plant ν) (a : Actor) (fs : List (Frame ν)) :
    ((m.setStack a fs).thread a).stack = fs := by
  unfold setStack onThread
  rw [thread_setThread, if_pos rfl]

/-- The script on top of a stack was replaced by another one. -/
theorem Steady.rescript (h : m.Steady vs) {w : WorkerId} {t : Nat} {steps : List (Step ν)}
    {below : List (Frame ν)} (hs : (m.thread (.worker w)).stack = .script t steps :: below)
    (steps' : List (Step ν)) :
    (m.setStack (.worker w) (.script t steps' :: below)).Steady vs := by
  have hon := h.sound.stack (.worker w)
  rw [hs] at hon
  refine h.sound.setThread (h.sound.scope _) (fun f hf => ?_) nofun (fun u hu => ?_) fun u hu => ?_
  · rcases List.mem_cons.mp hf with rfl | hf
    · exact trivial
    · exact hon f (List.mem_cons_of_mem _ hf)
  · rw [hs, List.map_cons, List.map_cons, List.sum_cons, List.sum_cons, hu (.script t steps') nofun,
      hu (.script t steps) nofun]
  · cases hu
    have hne : (m.thread (.worker w)).stack ≠ [] := by
      rw [hs]
      exact List.cons_ne_nil _ _
    obtain ⟨j, hj, hi⟩ := (h.sound.linked w).resolve_left hne
    rw [hs] at hi
    exact Or.inr ⟨j, hj, fun i => (holds_cons_of_none i rfl below).trans
      ((holds_cons_of_none i rfl below).symm.trans (hi i))⟩

/-- A script comes onto the stack of a worker. -/
theorem Steady.pushScript (h : m.Steady vs) {w : WorkerId}
    (hw : (m.thread (.worker w)).stack ≠ []) (t : Nat) (steps : List (Step ν)) :
    (m.push (.worker w) (.script t steps)).Steady vs := by
  have hhand : m.Sound vs [.script t steps] m.network.running := by
    refine h.sound.exchange (fun f hf => ?_) (fun _ => Nat.le_refl _) fun _ => Nat.le_refl _
    rw [List.mem_singleton.mp hf]
    exact trivial
  exact hhand.pushed (Aside.refl m) rfl hw

/-- A scripted body goes on by one plain step, or ends. -/
theorem Steady.followScript (h : m.Steady vs) {w : WorkerId}
    (hw : (m.thread (.worker w)).stack ≠ [])
    (hs : ∀ t s rest below, (m.thread (.worker w)).stack = .script t (s :: rest) :: below →
      s.plain = true) :
    ∃ us, (m.followScript w).Steady us := by
  unfold Plant.followScript
  dsimp only
  split
  case h_1 t s rest below hstack =>
    have hm := h.rescript hstack rest
    have hplain := hs t s rest below hstack
    have hne : ((m.setStack (.worker w) (.script t rest :: below)).thread (.worker w)).stack ≠ [] :=
      stack_setStack m (.worker w) _ ▸ List.cons_ne_nil _ _
    generalize m.setStack (.worker w) (.script t rest :: below) = m' at hm hne
    cases s with
    | finish value => exact ⟨vs, hm.endBody hne trivial⟩
    | panic p => exact ⟨vs, hm.endBody hne (Option.isNone_iff_eq_none.mp hplain)⟩
    | guard deadline timer enabled body =>
      refine ⟨vs, ?_⟩
      dsimp only
      rcases hm.sound.beginGuard hne deadline timer enabled with
        ⟨e, he⟩ | ⟨debt, m'', he, hm'', ha⟩
      · rw [he]
        exact hm.still (still_onTask _ _ _)
      · rw [he]
        refine (hm''.pushed ha rfl hne).pushScript ?_ t body
        exact stack_setStack m'' (.worker w) _ ▸ List.cons_ne_nil _ _
    | _ =>
      obtain ⟨us, hus⟩ := hm.perform (hm.acts hne) hplain
      exact ⟨us, hus.still (still_onTask _ _ _)⟩
  case h_2 t debt below hstack =>
    refine ⟨vs, ?_⟩
    have hpop := h.sound.pop [.script t [], .guard debt] hstack fun f hf => by
      rcases List.mem_cons.mp hf with rfl | hf
      · rfl
      · rw [List.mem_singleton.mp hf]
        rfl
    obtain ⟨hp, ha⟩ := hpop.putAway.pay
    have hend := hp.steady fun i => (ha.calm.running i).symm
    exact hend.still (still_onTask _ _ _)
  case h_3 => exact ⟨vs, h.endBody hw trivial⟩

end Plant

end Workforce
