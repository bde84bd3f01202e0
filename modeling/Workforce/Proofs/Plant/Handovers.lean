import Workforce.Proofs.Plant.Registers

/-
  Handovers. What happens to a plant lengthens the list of the dispatchers that its tasks were handed
  to (`Later`), and a step of a thread adds the dispatcher that it names, if it launches tasks
  (`target?`). A task that is handed over goes to a pool that is open, or it is refused; new views are
  made over dispatchers that are known.

  `later_of_arises`: whatever comes about from a plant that keeps a register keeps it too, and its
  tasks keep to the routes of the dispatchers that they were handed to.
-/

namespace Workforce.Plant

variable {ν : Type} {vs : List View} {k : Nat} {r : Register (Task ν)} {ds : List Dispatcher}
  {m m' : Plant ν} {P : Dispatcher → Prop} {d : Dispatcher} {c : Compensator}

/-! ## Records of handovers -/

/-- More tasks were handed over, to dispatchers with a property. -/
def Later (k : Nat) (r : Register (Task ν)) (ds : List Dispatcher) (P : Dispatcher → Prop)
    (m : Plant ν) : Prop :=
  ∃ vs new, (∀ d ∈ new, P d) ∧ m.Follows vs k r (ds ++ new)

theorem Follows.later (h : m.Follows vs k r ds) : m.Later k r ds P := by
  refine ⟨vs, [], nofun, ?_⟩
  rw [List.append_nil]
  exact h

theorem Later.go (h : m.Later k r ds P)
    (hm : ∀ {vs es}, m.Follows vs k r es → m'.Later k r es P) : m'.Later k r ds P := by
  obtain ⟨vs, new, hnew, h⟩ := h
  obtain ⟨us, more, hmore, h'⟩ := hm h
  refine ⟨us, new ++ more, fun d hd => ?_, ?_⟩
  · exact (List.mem_append.mp hd).elim (hnew d) (hmore d)
  · rw [← List.append_assoc]
    exact h'

theorem Later.mono (h : m.Later k r ds P) {Q : Dispatcher → Prop} (hpq : ∀ d, P d → Q d) :
    m.Later k r ds Q := by
  obtain ⟨vs, new, hnew, h⟩ := h
  exact ⟨vs, new, fun d hd => hpq d (hnew d hd), h⟩

/-- Tasks were handed over, to whatever dispatchers. -/
abbrev Since (k : Nat) (r : Register (Task ν)) (ds : List Dispatcher) (m : Plant ν) : Prop :=
  m.Later k r ds fun _ => True

theorem Later.since (h : m.Later k r ds P) : m.Since k r ds := h.mono fun _ _ => trivial

/-! ## Tasks handed over -/

/-- A task goes on the route of its dispatcher to a pool that is open, or it is refused. -/
theorem Follows.submitTask (h : m.Follows vs k r ds) (a : Actor) (how : Launch)
    (hd : d.Leads vs k ∧ d.Built) (kind : Kind) (id : String) (context : Context)
    (body : Option (List (Step ν))) (tail : Bool) :
    (m.submitTask a how d kind id context body tail).2.Follows vs k r (ds ++ [d]) := by
  unfold Plant.submitTask
  dsimp only
  have hadd : ({ m with tasks := m.tasks ++ [{ name := id, pool := d.poolId }] } : Plant ν).Follows
      vs k r (ds ++ [d]) := by
    refine { h with network := h.network.along fun _ _ hr => hr.append [d], count := ?_,
                    targets := fun e he => ?_ }
    · rw [List.length_append, List.length_append, h.count]
      rfl
    · rcases List.mem_append.mp he with he | he
      · exact h.targets e he
      · exact List.mem_singleton.mp he ▸ hd.2
  generalize ht : ({ id := m.tasks.length, kind, context, reports := decide (how = .spawn), body } :
    Task ν) = task
  have hsub : (m.network.submit a.worker? (tail && how == Launch.submit) d { task }).2.Tidy vs k
      (r.along (Assigned (ds ++ [d]))) := by
    cases hc : m.network.isClosed d with
    | true =>
      obtain ⟨u, -, hu⟩ := Network.submit_of_closed a.worker? (tail && how == Launch.submit) { task }
        h.network.settled hc
      rw [hu]
      exact hadd.network.congr rfl rfl
    | false =>
      refine hadd.network.submit hd.1 ⟨Job.fits_fresh task vs d, r.complete (fun hr => ?_) task, ?_⟩
      · obtain ⟨p, hp⟩ := Network.exists_pool (h.network.pools ▸ hd.1.pool)
        have hshut := h.network.shut _ p hp hr
        unfold Network.isClosed at hc
        rw [hp] at hc
        cases hshut.symm.trans hc
      · refine ⟨d, ?_, rfl⟩
        rw [← ht, h.count]
        exact List.getElem?_concat_length
  generalize m.network.submit a.worker? (tail && how == Launch.submit) d { task } = s at hsub
  obtain ⟨taken, n⟩ := s
  have hput := hadd.withNetwork hsub
  cases taken with
  | true => exact hput.onTask _ _
  | false => exact hput.onTask _ _

theorem Follows.submitWithin (h : m.Follows vs k r ds) (a : Actor) (c : Context)
    {submit : Plant ν → Reply ν × Plant ν}
    (hs : ∀ {m' : Plant ν}, m'.Follows vs k r ds → (submit m').2.Follows vs k r (ds ++ [d])) :
    (m.submitWithin a c submit).2.Later k r ds (· = d) := by
  unfold Plant.submitWithin
  dsimp only
  split
  case h_1 => exact (h.ambient a _).later
  case h_2 token ambient _ =>
    exact ⟨vs, [d], fun _ => List.mem_singleton.mp, (hs (h.ambient a ambient)).ambient a _⟩

/-- Dispatchers that are known lead to pools. -/
theorem Follows.leads (h : m.Follows vs k r ds) {on : Nat} (hd : m.dispatcher? on = some d) :
    d.Leads vs k ∧ d.Built := h.dispatchers d (mem_dispatchers hd)

theorem Follows.launch (h : m.Follows vs k r ds) (a : Actor) (how : Launch) (on : Nat) (kind : Kind)
    (id : String) (elements : Option (List Element)) (body : Option (List (Step ν)))
    (tail : Bool) :
    (m.launch a how on kind id elements body tail).2.Later k r ds (m.dispatcher? on = some ·) := by
  unfold Plant.launch
  split
  case h_1 => exact h.later
  case h_2 d hd =>
    have hlead := h.leads hd
    have hone : ∀ e ∈ [d], m.dispatcher? on = some e := fun e he => List.mem_singleton.mp he ▸ hd
    split
    case isTrue => exact h.later
    case isFalse =>
      cases elements with
      | none => exact ⟨vs, [d], hone, h.submitTask a how hlead kind id _ body tail⟩
      | some es =>
        have hserial : ({ m with nextSerial := m.nextSerial + 1 } : Plant ν).Follows vs k r ds :=
          h.quiet ⟨⟨rfl, rfl, rfl, rfl⟩, rfl, rfl⟩
        dsimp only
        split
        case isTrue => exact ⟨vs, [d], hone, hserial.submitTask a how hlead kind id _ body tail⟩
        case isFalse =>
          refine Later.mono (P := (· = d)) ?_ fun e he => he ▸ hd
          exact hserial.submitWithin a _ fun hm => hm.submitTask a how hlead kind id _ body tail

/-- Launching tasks makes no dispatchers. -/
theorem dispatchers_submitTask (m : Plant ν) (a : Actor) (how : Launch) (d : Dispatcher)
    (kind : Kind) (id : String) (context : Context) (body : Option (List (Step ν)))
    (tail : Bool) :
    (m.submitTask a how d kind id context body tail).2.dispatchers = m.dispatchers := by
  unfold submitTask
  dsimp only
  split <;> exact (still_withNetwork _ _).dispatchers

theorem dispatchers_submitWithin (m : Plant ν) (a : Actor) (c : Context)
    {submit : Plant ν → Reply ν × Plant ν}
    (hs : ∀ m', (submit m').2.dispatchers = m'.dispatchers) :
    (m.submitWithin a c submit).2.dispatchers = m.dispatchers := by
  unfold submitWithin
  dsimp only
  split
  · rfl
  · exact hs _

theorem dispatchers_launch (m : Plant ν) (a : Actor) (how : Launch) (on : Nat) (kind : Kind)
    (id : String) (elements : Option (List Element)) (body : Option (List (Step ν)))
    (tail : Bool) :
    (m.launch a how on kind id elements body tail).2.dispatchers = m.dispatchers := by
  unfold launch
  split
  · rfl
  · split
    · rfl
    · split
      · exact dispatchers_submitTask ..
      · dsimp only
        split
        · exact dispatchers_submitTask ..
        · exact dispatchers_submitWithin _ a _ fun m' => dispatchers_submitTask m' ..

theorem dispatcher?_congr (h : m'.dispatchers = m.dispatchers) (on : Nat) :
    m'.dispatcher? on = m.dispatcher? on := by
  unfold dispatcher?
  rw [h]

theorem Follows.launchMany (a : Actor) (how : Launch) (on : Nat) (kind : Kind) (stem : String)
    (elements : Option (List Element)) (body : Option (List (Step ν))) (tail : Bool)
    (is : List Nat) : ∀ {m : Plant ν} {vs : List View} {ds : List Dispatcher}, m.Follows vs k r ds →
      (m.launchMany a how on kind stem elements body tail is).2.Later k r ds
        (m.dispatcher? on = some ·) := by
  induction is with
  | nil => exact fun h => h.later
  | cons i is ih =>
    intro m vs ds h
    have hfirst := h.launch a how on kind (stem ++ toString i) elements body tail
    have hsame := dispatcher?_congr
      (m.dispatchers_launch a how on kind (stem ++ toString i) elements body tail) on
    rw [← hsame] at hfirst ⊢
    exact hfirst.go ih

/-! ## Dispatchers -/

/-- A dispatcher that exists already is known under one more number. -/
theorem Follows.addKnown (h : m.Follows vs k r ds) (hd : d.Leads vs k ∧ d.Built) :
    (m.addDispatcher d).2.Follows vs k r ds := by
  have hagain : ({ m with dispatchers := m.dispatchers ++ [some d] } : Plant ν).Follows vs k r ds := by
    refine { h with dispatchers := fun e he => ?_ }
    rcases List.mem_append.mp he with he | he
    · exact h.dispatchers e he
    · cases List.mem_singleton.mp he
      exact hd
  cases d with
  | pool id core => exact hagain
  | view id mode base parent =>
    have hlt : id < vs.length := (hd.1.charted ⟨id, mode, base, parent⟩ List.mem_cons_self).id_lt
    unfold addDispatcher
    dsimp only
    rw [if_neg (Nat.ne_of_lt (h.network.gates ▸ hlt))]
    exact hagain

theorem Follows.addView (h : m.Follows vs k r ds) (hd : d.Leads vs k) {mode : Mode} {base : Nat}
    (hb : (Dispatcher.view m.network.gates.length mode base d).Built) :
    (m.addDispatcher (.view m.network.gates.length mode base d)).2.Follows
      (vs ++ [⟨m.network.gates.length, mode, base, d⟩]) k r ds := by
  let v : View := ⟨m.network.gates.length, mode, base, d⟩
  unfold addDispatcher
  dsimp only
  rw [if_pos rfl]
  refine ⟨h.network.addGate (v := v) h.network.gates hd base, h.emptied, fun x hx u hu => ?_,
    fun x hx u hu => ?_, fun x hx f hf => ?_, fun x hx => ?_, fun e he => ?_, h.count, h.targets⟩
  · exact (h.compensators x hx u hu).append _
  · exact (h.saved x hx u hu).append _
  · exact (h.frames x hx f hf).append _
  · exact (h.scopes x hx).append _
  · rcases List.mem_append.mp he with he | he
    · exact (h.dispatchers e he).imp_left fun hl => hl.grow _ (Nat.le_refl _)
    · cases List.mem_singleton.mp he
      exact ⟨View.leads_new (v := v) hd h.network.gates rfl, hb⟩

/-- A dispatcher is made by a constructor. -/
theorem Follows.addDerived (h : m.Follows vs k r ds) (on : Nat)
    {make : Nat → Dispatcher → Except Failure Dispatcher} (hmake : Derives make)
    (hbuilt : ∀ {fresh d e}, make fresh d = .ok e → d.Built → e.Built) :
    (m.addDerived on make).2.Later k r ds P := by
  unfold Plant.addDerived
  split
  case h_1 => exact h.later
  case h_2 d hd =>
    obtain ⟨hlead, hb⟩ := h.leads hd
    split
    case h_2 => exact h.later
    case h_1 e he =>
      rcases hmake _ _ _ he with rfl | ⟨mode, base, -, rfl⟩
      · exact (h.addKnown ⟨hlead, hb⟩).later
      · exact (h.addView hlead (hbuilt he hb)).later

/-! ## Steps -/

/-- The dispatcher that a step launches tasks on, if it launches any. -/
def target? (m : Plant ν) : Step ν → Option Dispatcher
  | .launch _ on .. => m.dispatcher? on
  | .many _ (.launch _ on ..) => m.dispatcher? on
  | _ => none

theorem target?_congr (h : m'.dispatchers = m.dispatchers) (s : Step ν) :
    m'.target? s = m.target? s := by
  simp only [target?, dispatcher?_congr h]

/-- The step that a scripted body takes next. -/
def scripted? (m : Plant ν) (w : WorkerId) : Option (Step ν) :=
  match (m.thread (.worker w)).stack with
  | .script _ (s :: _) :: _ => some s
  | _ => none

theorem Follows.compensator? (h : m.Follows vs k r ds) {a : Actor} {saved : Option String}
    (hc : m.compensator? a saved = some c) : ∀ v ∈ c.views, v.On vs := by
  cases saved with
  | none => exact h.scope a c hc
  | some name =>
    obtain ⟨x, hx, rfl⟩ := Option.map_eq_some_iff.mp hc
    exact h.saved x (List.mem_of_find?_eq_some hx)

/-- Limits are raised or lowered several times. -/
theorem Follows.compensate (h : m.Follows vs k r ds) {act : Plant ν → Compensator → Plant ν}
    {o : Option Compensator}
    (hact : ∀ c, o = some c → ∀ {m' : Plant ν}, m'.Follows vs k r ds → (act m' c).Follows vs k r ds)
    (times : Nat) : (m.compensate act times o).2.Follows vs k r ds := by
  cases o with
  | none => exact h
  | some c =>
    exact List.foldlRecOn (motive := fun m' => Follows vs k r ds m') (List.range times) _ h
      fun _ hm _ _ => hact c rfl hm

theorem Follows.fire (h : m.Follows vs k r ds) (i : Nat) : (m.fire i).2.Follows vs k r ds := by
  unfold Plant.fire
  split
  case h_1 => exact h
  case h_2 t _ =>
    have hcall : ({ m with callbacks := m.callbacks.set i none } : Plant ν).Follows vs k r ds :=
      h.quiet ⟨⟨rfl, rfl, rfl, rfl⟩, rfl, rfl⟩
    exact hcall.expire t

/-- A step that leaves the stack of its thread as it is hands tasks to the dispatcher it names. -/
theorem Follows.perform (h : m.Follows vs k r ds) (a : Actor) (s : Step ν) :
    (m.perform a s).2.Later k r ds (m.target? s = some ·) := by
  cases s with
  | launch how on kind id elements body tail =>
    exact h.launch a how on kind id elements body tail
  | many count task =>
    cases task with
    | launch how on kind stem elements body tail =>
      exact Follows.launchMany a how on kind stem elements body tail (List.range count) h
    | _ => exact h.later
  | narrow on n => exact h.addDerived on (derives_narrow n) fun he hb => hb.narrow he
  | soft on n => exact h.addDerived on (derives_soft n) fun he hb => hb.soft he
  | exclusive on =>
    refine h.addDerived on derives_exclusive fun he hb => ?_
    cases he
    exact hb.exclusive _
  | info on =>
    unfold Plant.perform
    dsimp only
    split <;> exact h.later
  | peek on =>
    unfold Plant.perform
    dsimp only
    split <;> exact h.later
  | raise times saved =>
    exact (h.compensate (fun _ hc _ hm => hm.raise (h.compensator? hc)) times).later
  | lower times saved => exact (h.compensate (fun c _ _ hm => hm.lower c) times).later
  | save name =>
    unfold Plant.perform
    dsimp only
    split
    case h_1 c hc =>
      have hsaved : ∀ x ∈ (name, c) :: m.saved, ∀ v ∈ x.2.views, v.On vs := by
        intro x hx
        rcases List.mem_cons.mp hx with rfl | hx
        · exact h.compensator? hc
        · exact h.saved x hx
      have hput : ({ m with saved := (name, c) :: m.saved } : Plant ν).Follows vs k r ds :=
        { h with saved := hsaved }
      exact hput.later
    case h_2 => exact h.later
  | set cell value => exact (h.ambient a _).later
  | log message =>
    have hlog : ({ m with events := m.events ++ [message] } : Plant ν).Follows vs k r ds :=
      h.quiet ⟨⟨rfl, rfl, rfl, rfl⟩, rfl, rfl⟩
    exact hlog.later
  | fire i => exact (h.fire i).later
  | join id patience => exact (h.quiet (quiet_joinTask m id)).later
  | joinAll ids => exact (h.quiet (quiet_joinTasks m ids)).later
  | _ => exact h.later

/-- A task that waits for its steps is given one. -/
theorem Follows.direct (h : m.Follows vs k r ds) (w : WorkerId) (s : Step ν) :
    (m.direct w s).2.Later k r ds (m.target? s = some ·) := by
  have hperform := h.perform (.worker w) s
  cases s with
  | finish value => exact (h.endBody w _).later
  | panic p => exact (h.endBody w _).later
  | guard deadline timer enabled body =>
    obtain ⟨hbegin, hdebt⟩ := h.beginGuard w deadline timer enabled
    unfold Plant.direct
    dsimp only
    generalize m.beginGuard (.worker w) deadline timer enabled = s at hbegin hdebt
    obtain ⟨begun, m'⟩ := s
    cases begun with
    | error f => exact hbegin.later
    | ok debt => exact (hbegin.push _ (hdebt debt rfl)).later
  | leave =>
    unfold Plant.direct
    dsimp only
    split
    case h_1 debt rest hs =>
      have hon := h.stack (.worker w)
      rw [hs] at hon
      have hset := h.setStack (.worker w) fun f hf => hon f (List.mem_cons_of_mem _ hf)
      exact (hset.pay debt).later
    case h_2 => exact h.later
  | _ => exact hperform

/-- A scripted body goes on by one step, or ends. -/
theorem Follows.followScript (h : m.Follows vs k r ds) (w : WorkerId) :
    (m.followScript w).Later k r ds ((m.scripted? w).bind m.target? = some ·) := by
  have hon := h.stack (.worker w)
  unfold Plant.followScript
  dsimp only
  split
  case h_1 t s rest below hs =>
    have hnext : (m.scripted? w).bind m.target? = m.target? s := by
      unfold scripted?
      rw [hs]
      rfl
    rw [hs] at hon
    rw [hnext]
    have hset : (m.setStack (.worker w) (.script t rest :: below)).Follows vs k r ds := by
      refine h.setStack (.worker w) fun f hf => ?_
      rcases List.mem_cons.mp hf with rfl | hf
      · exact trivial
      · exact hon f (List.mem_cons_of_mem _ hf)
    have hsame : (m.setStack (.worker w) (.script t rest :: below)).target? s = m.target? s :=
      target?_congr rfl s
    generalize m.setStack (.worker w) (.script t rest :: below) = m₁ at hset hsame
    have hperform := hset.perform (.worker w) s
    rw [hsame] at hperform
    have hanswered : ((m₁.perform (.worker w) s).2.answered t (m₁.perform (.worker w) s).1).Later
        k r ds (m.target? s = some ·) := hperform.go fun hm => (hm.onTask t _).later
    cases s with
    | finish value => exact (hset.endBody w _).later
    | panic p => exact (hset.endBody w _).later
    | guard deadline timer enabled body =>
      obtain ⟨hbegin, hdebt⟩ := hset.beginGuard w deadline timer enabled
      dsimp only
      generalize m₁.beginGuard (.worker w) deadline timer enabled = s at hbegin hdebt
      obtain ⟨begun, m'⟩ := s
      cases begun with
      | error f => exact (hbegin.onTask t _).later
      | ok debt =>
        exact ((hbegin.push _ (hdebt debt rfl)).push _ (f := .script t body) trivial).later
    | _ => exact hanswered
  case h_2 t debt below hs =>
    rw [hs] at hon
    have hset := h.setStack (.worker w) fun f hf =>
      hon f (List.mem_cons_of_mem _ (List.mem_cons_of_mem _ hf))
    exact ((hset.pay debt).onTask t _).later
  case h_3 => exact (h.endBody w _).later

/-! ## Operations -/

theorem Follows.advance (h : m.Follows vs k r ds) (w : WorkerId) :
    (m.advance w).Later k r ds ((m.scripted? w).bind m.target? = some ·) := by
  unfold Plant.advance
  split
  case h_1 p hp hph =>
    obtain ⟨q, x, hq, hx, -⟩ := exists_of_phase? hph
    cases hp.symm.trans hq
    exact (h.withTurn hp (Pool.receives_begin hx)).later
  case h_2 p woken hp hph =>
    obtain ⟨q, x, hq, hx, -⟩ := exists_of_phase? hph
    cases hp.symm.trans hq
    exact (h.withTurn hp (Pool.receives_resume hx false)).later
  case h_3 p j hp hph =>
    split
    · exact (h.startRun (taskAt_of_phase? hph)).later
    · exact h.followScript w
  case h_4 => exact h.later

theorem Follows.timeOut (h : m.Follows vs k r ds) (w : WorkerId) :
    (m.after (.timeOut w)).Follows vs k r ds := by
  unfold Plant.after
  dsimp only
  split
  case h_1 p woken hp hph =>
    obtain ⟨q, x, hq, hx, -⟩ := exists_of_phase? hph
    cases hp.symm.trans hq
    exact h.withTurn hp (Pool.receives_resume hx true)
  case h_2 => exact h

theorem Follows.popTimer (h : m.Follows vs k r ds) : (m.after .popTimer).Follows vs k r ds := by
  unfold Plant.after popTimer?
  dsimp only
  split
  case h_1 => exact h
  case h_2 e t _ =>
    have hfire : ({ m with timer := (t.fire e).2 } : Plant ν).Follows vs k r ds :=
      h.quiet ⟨⟨rfl, rfl, rfl, rfl⟩, rfl, rfl⟩
    dsimp only [Option.getD_some]
    split
    · exact hfire.expire _
    · exact hfire

theorem Follows.beginClose (h : m.Follows vs k r ds) (p : Nat) :
    (m.beginClose p).Follows vs k r ds :=
  { h with network := h.network.onPool p Pool.receives_beginClose }

theorem Follows.terminate (h : m.Follows vs k r ds) (p : Nat) :
    (m.terminate p).2.Follows vs k r ds := by
  unfold Plant.terminate
  split
  case h_1 => exact h
  case h_2 q hq =>
    refine h.withNetwork ?_
    exact (h.network.setPool hq q.receives_terminate (List.forall_mem_nil _)).congr rfl rfl

theorem Follows.releaseViews (h : m.Follows vs k r ds) (us : List View) :
    (m.releaseViews us).Follows vs k r ds := by
  refine List.foldlRecOn (motive := fun m' => Follows vs k r ds m') us _ h fun m' hm v _ => ?_
  split
  case h_1 x hx => exact hm.withNetwork ((hm.network.clearGate hx).congr rfl rfl)
  case h_2 => exact hm

/-- Dispatchers and saved compensators may go. -/
theorem Follows.forget (h : m.Follows vs k r ds) {f : Option Dispatcher → Option Dispatcher}
    (hf : ∀ d e, f d = some e → d = some e) :
    ({ m with dispatchers := m.dispatchers.map f, saved := [] } : Plant ν).Follows vs k r ds := by
  refine { h with saved := List.forall_mem_nil _, dispatchers := fun d hd => ?_ }
  obtain ⟨o, ho, he⟩ := List.mem_map.mp hd
  exact h.dispatchers d (hf o d he ▸ ho)

/-! ## Whatever comes about -/

/-- A register is kept as tasks are handed over. -/
theorem lasting_since (k : Nat) (r : Register (Task ν)) (ds : List Dispatcher) :
    Lasting (Since k r ds) where
  perform s h := h.go fun hm => (hm.perform .controller s).since
  direct s h _ := h.go fun hm => (hm.direct _ s).since
  advance w h := h.go fun hm => (hm.advance w).since
  followScript w h := h.go fun hm => (hm.followScript w).since
  timeOut w h := h.go fun hm => (hm.timeOut w).later
  expire t h := h.go fun hm => (hm.expire t).later
  popTimer h := h.go fun hm => hm.popTimer.later
  beginClose p h := h.go fun hm => (hm.beginClose p).later
  terminate p h := h.go fun hm => (hm.terminate p).later
  closers _ h := h.go fun hm => Follows.later (hm.quiet ⟨⟨rfl, rfl, rfl, rfl⟩, rfl, rfl⟩)
  endBody w exit h := h.go fun hm => (hm.endBody w exit).later
  forget _ hf h := h.go fun hm => (hm.forget hf).later
  releaseViews us h := h.go fun hm => (hm.releaseViews us).later

theorem later_of_arises {m₀ : Plant ν} (h₀ : m₀.Follows vs k r ds) (h : Arises m₀ m) :
    m.Since k r ds := (lasting_since k r ds).arises h₀.later h

/-- The step that a thread takes in an operation, if one takes a step. -/
def stepOf? (m : Plant ν) : Operation ν → Option (Step ν)
  | .perform s => some s
  | .direct _ s => some s
  | .advance w => m.scripted? w
  | .giveUp w => m.scripted? w
  | _ => none

/-- The dispatcher that tasks are handed to in an operation in which a thread launches tasks. -/
def targetOf? (m : Plant ν) (o : Operation ν) : Option Dispatcher := (m.stepOf? o).bind m.target?

/-- An operation in which a thread takes a step hands tasks to the dispatcher that the step names. -/
theorem Follows.launches (h : m.Follows vs k r ds) {o : Operation ν} (ho : m.targetOf? o = some d) :
    (m.after o).Later k r ds (· = d) := by
  have hstep : (m.after o).Later k r ds (m.targetOf? o = some ·) := by
    cases o with
    | perform s => exact h.perform .controller s
    | direct w s => exact h.direct w s
    | advance w => exact h.advance w
    | giveUp w => exact h.followScript w
    | _ => cases ho
  exact hstep.mono fun e he => Option.some.inj (he.symm.trans ho)

/-! ## Plants that were built -/

/-- A plant without pools, threads and tasks. -/
theorem follows_empty (cells : Cells) :
    ({ network := {}, cells } : Plant ν).Follows [] 0 .all [] := by
  have hnone : ∀ {α : Type} {i : Nat} {x : α}, ([] : List α)[i]? = some x → False := by
    intro α i x hx
    rw [List.getElem?_nil] at hx
    cases hx
  refine ⟨⟨⟨rfl, rfl, fun i v hv => (hnone hv).elim, fun i p hp => (hnone hp).elim,
    fun i v x hv => (hnone hv).elim, fun i p hp => (hnone hp).elim⟩, fun i x hx => (hnone hx).elim⟩,
    rfl, List.forall_mem_nil _, List.forall_mem_nil _, List.forall_mem_nil _, List.forall_mem_nil _,
    fun d hd => absurd hd List.not_mem_nil, rfl, List.forall_mem_nil _⟩

theorem Follows.addPool (h : m.Follows vs k .all ds) (c : Config) :
    (m.addPool (Pool.ofConfig c)).Follows vs (k + 1) .all ds := by
  refine { h with network := h.network.addPool id fun f b => Pool.holding_ofConfig f b c,
                  dispatchers := fun d hd => ?_ }
  rcases List.mem_append.mp hd with hd | hd
  · obtain ⟨hl, hb⟩ := h.dispatchers d hd
    have hg := hl.grow [] (Nat.le_succ k)
    rw [List.append_nil] at hg
    exact ⟨hg, hb⟩
  · cases List.mem_singleton.mp hd
    refine ⟨⟨?_, List.forall_mem_nil _, List.Pairwise.nil⟩, .pool _ _⟩
    show m.network.pools.length < k + 1
    rw [h.network.pools]
    exact Nat.lt_succ_self k

/-- A plant that was built has its pools for dispatchers, takes every task everywhere, and has had
none. -/
theorem follows_build {cells : Cells} {configs : List Config} (h : build cells configs = .ok m) :
    ∃ vs k, m.Follows vs k .all [] := by
  refine build_induct (P := fun m => ∃ vs k, m.Follows vs k .all []) ⟨[], 0, follows_empty cells⟩
    (fun c p m hc hm => ?_) h
  obtain ⟨vs, k, hm⟩ := hm
  obtain ⟨-, rfl⟩ := Pool.create_eq_ok_iff.mp hc
  exact ⟨vs, k + 1, hm.addPool c⟩

end Workforce.Plant
