import Workforce.Proofs.Network.Growth
import Workforce.Proofs.Network.Tasks
import Workforce.Proofs.Plant.Operations
import Workforce.Proofs.Pool.Parallelism
import Workforce.Proofs.Traffic.Compensation

/-
  Scopes of workers. The scope of a task is not kept anywhere: each view wraps a new scope around
  the one that it finds on the thread, and its frame puts that one back. The frames of a body are
  nested accordingly (`Nested`), whatever the body does in between, so leaving all of them leads
  back to the scope of the worker (`leaveAll_nested`).

  `scoped_of_arises`: in every plant that comes about by any operations, careful or not, a worker is
  in its own scope between tasks, and in that of all views of its job while a body runs.
-/

namespace Workforce

variable {ν : Type}

/-! ## Nested frames -/

/-- A frame that is not about views. -/
def Frame.plain : Frame ν → Bool
  | .scope _ => false
  | .view _ => false
  | _ => true

/-- The frames of a body inside some views, the nearest to the pool first: each view is followed
by the scope around it. -/
inductive Nested (outer : Option TaskScope) : List (Frame ν) → List View → Prop
  | bottom : Nested outer [] []
  | plain {f : Frame ν} {fs : List (Frame ν)} {vs : List View} (hf : f.plain = true)
      (h : Nested outer fs vs) : Nested outer (f :: fs) vs
  | view {v : View} {fs : List (Frame ν)} {vs : List View} (h : Nested outer fs vs) :
      Nested outer (.scope (View.scopeWithinAll vs outer) :: .view v :: fs) (vs ++ [v])

namespace Nested

variable {outer : Option TaskScope} {fs : List (Frame ν)} {vs : List View}

theorem eq_nil (h : Nested outer ([] : List (Frame ν)) vs) : vs = [] := by
  cases h
  rfl

theorem tail {f : Frame ν} (h : Nested outer (f :: fs) vs) (hf : f.plain = true) :
    Nested outer fs vs := by
  cases h with
  | plain _ h => exact h
  | view => cases hf

theorem enterViews (h : Nested outer fs vs) (us : List View) :
    Nested outer (Plant.enterViews us (View.scopeWithinAll vs outer) fs).2 (vs ++ us) := by
  induction us generalizing fs vs with
  | nil =>
    rw [List.append_nil]
    exact h
  | cons v us ih =>
    have hscope : some (v.scopeWithin (View.scopeWithinAll vs outer)) =
        View.scopeWithinAll (vs ++ [v]) outer := by
      rw [View.scopeWithinAll, View.scopeWithinAll, List.foldl_append]
      rfl
    have hnext := ih (Nested.view (v := v) h)
    rw [← hscope, List.append_assoc] at hnext
    exact hnext

theorem bodyFrames (h : Nested outer fs vs) (t : Task ν) :
    Nested outer (Plant.bodyFrames t fs) vs := by
  have hreport : Nested outer (if t.reports then .report t.id :: fs else fs) vs := by
    split
    · exact h.plain rfl
    · exact h
  unfold Plant.bodyFrames
  cases t.body with
  | none => exact hreport.plain rfl
  | some steps => exact (hreport.plain rfl).plain rfl

end Nested

namespace Plant

variable {m m' m'' : Plant ν}

/-! ## Changes beside stacks and scopes -/

/-- Workers with frames run on, all stacks are as they were, and so are the scopes of all threads
but one. -/
structure Apart (a : Actor) (m m' : Plant ν) : Prop where
  task : ∀ w j, (m.thread (.worker w)).stack ≠ [] → m.network.taskAt w = some j →
    m'.network.taskAt w = some j
  stack : ∀ b, (m'.thread b).stack = (m.thread b).stack
  scope : ∀ b, b ≠ a → (m'.thread b).scope = (m.thread b).scope

/-- Workers with frames run on, and all stacks and scopes are as they were. -/
def Beside (m m' : Plant ν) : Prop := ∀ a, Apart a m m'

theorem Apart.trans {a : Actor} (h : Apart a m m') (h' : Apart a m' m'') : Apart a m m'' := by
  refine ⟨fun w j hw hj => ?_, fun b => (h'.stack b).trans (h.stack b),
    fun b hb => (h'.scope b hb).trans (h.scope b hb)⟩
  refine h'.task w j ?_ (h.task w j hw hj)
  rw [h.stack]
  exact hw

theorem Beside.refl (m : Plant ν) : Beside m m := fun _ =>
  ⟨fun _ _ _ h => h, fun _ => rfl, fun _ _ => rfl⟩

theorem Beside.trans (h : Beside m m') (h' : Beside m' m'') : Beside m m'' := fun a =>
  (h a).trans (h' a)

theorem Beside.stack (h : Beside m m') (b : Actor) : (m'.thread b).stack = (m.thread b).stack :=
  (h b).stack b

theorem Beside.scope (h : Beside m m') (b : Actor) : (m'.thread b).scope = (m.thread b).scope := by
  cases b with
  | controller => exact (h (.worker ⟨0, 0⟩)).scope .controller nofun
  | worker w => exact (h .controller).scope (.worker w) nofun

theorem Beside.task (h : Beside m m') {w : WorkerId} {j : Job (Task ν)}
    (hw : (m.thread (.worker w)).stack ≠ []) (hj : m.network.taskAt w = some j) :
    m'.network.taskAt w = some j := (h .controller).task w j hw hj

theorem beside_of_threads (ht : m'.threads = m.threads)
    (hn : ∀ w j, m.network.taskAt w = some j → m'.network.taskAt w = some j) : Beside m m' :=
  fun _ => ⟨fun w j _ hj => hn w j hj, fun b => (thread_congr ht b).1,
    fun b _ => (thread_congr ht b).2⟩

theorem Still.beside (h : Still m m') : Beside m m' :=
  beside_of_threads h.threads fun _ _ hj => h.network ▸ hj

theorem beside_withNetwork {n : Network (Task ν)} (h : m.network.SameTasks n) :
    Beside m (m.withNetwork n) := by
  have hput : Beside m { m with network := { n with dropped := [] } } :=
    beside_of_threads rfl fun w j hj => (h w).trans hj
  exact hput.trans (still_withNetwork m n).beside

theorem beside_setThread {a : Actor} {t : Thread ν} (hs : t.stack = (m.thread a).stack)
    (hc : t.scope = (m.thread a).scope) : Beside m (m.setThread a t) := by
  refine fun _ => ⟨fun _ _ _ hj => hj, fun b => ?_, fun b _ => ?_⟩
  · rw [thread_setThread]
    split
    case isTrue hb => exact hb ▸ hs
    case isFalse => rfl
  · rw [thread_setThread]
    split
    case isTrue hb => exact hb ▸ hc
    case isFalse => rfl

theorem beside_collectNotes (m : Plant ν) (a : Actor) : Beside m (m.collectNotes a) := by
  have hs : Still m { m with probes := m.probes ++ (m.thread a).ambient.surface.notes } :=
    ⟨rfl, rfl, rfl, rfl⟩
  exact hs.beside.trans (beside_setThread rfl rfl)

/-! ## Guarded calls -/

theorem beside_raise (m : Plant ν) (c : Compensator) : Beside m (m.raise c) :=
  beside_withNetwork (Network.sameTasks_raise m.network c)

theorem beside_lower (m : Plant ν) (c : Compensator) : Beside m (m.lower c) :=
  beside_withNetwork (Network.sameTasks_lower m.network c)

theorem beside_tickets (m : Plant ν) (tickets : List (Ticket × Compensator)) :
    Beside m { m with tickets } := beside_of_threads rfl fun _ _ hj => hj

theorem beside_expire (m : Plant ν) (t : Nat) : Beside m (m.expire t) := by
  unfold expire
  split
  · exact Beside.refl m
  · dsimp only
    split
    · exact (beside_tickets m _).trans (beside_raise _ _)
    · exact beside_tickets m _

theorem beside_pay (m : Plant ν) (d : Debt) : Beside m (m.pay d) := by
  unfold pay
  split
  · exact Beside.refl m
  · exact beside_lower m _
  · split
    · exact Beside.refl m
    · dsimp only
      split
      · exact (beside_tickets m _).trans (beside_lower _ _)
      · exact beside_of_threads rfl fun _ _ hj => hj
      · exact beside_tickets m _

theorem beside_beginGuard (m : Plant ν) (w : WorkerId) (deadline : Duration) (timer : GuardTimer)
    (enabled : Bool) : Beside m (m.beginGuard (.worker w) deadline timer enabled).2 := by
  have hflush : Beside m (m.withNetwork (m.network.flush w)) :=
    beside_withNetwork (Network.sameTasks_flush m.network w)
  unfold beginGuard
  dsimp only [Actor.worker?]
  split
  · exact Beside.refl m
  · exact hflush
  · exact hflush.trans (beside_raise _ _)
  · exact hflush.trans ((beside_tickets _ _).trans (still_arm _ timer deadline _).beside)

/-! ## Leaving frames -/

/-- A frame that is not that of a scope changes no scope when it is left. -/
theorem beside_leaveFrame (m : Plant ν) (a : Actor) {f : Frame ν} (hf : ∀ s, f ≠ .scope s)
    (exit : Exit ν) : Beside m (m.leaveFrame a f exit).2 := by
  cases f with
  | scope s => exact absurd rfl (hf s)
  | guard debt => exact beside_pay m debt
  | script t rest => exact Beside.refl m
  | body t => exact (still_onTask m t _).beside
  | view v => exact beside_withNetwork (Network.sameTasks_release m.network v)
  | report t =>
    unfold leaveFrame
    cases exit with
    | returned value => exact (still_onTask m t _).beside
    | panicked p =>
      dsimp only
      split
      · exact (still_onTask m t _).beside
      · exact (still_onTask m t _).beside
  | context c token =>
    unfold leaveFrame
    dsimp only
    generalize c.leave token (m.thread a).ambient = r
    obtain ⟨panicked, ambient⟩ := r
    have hset : Beside m (m.setThread a { m.thread a with ambient }) := beside_setThread rfl rfl
    exact hset.trans (beside_collectNotes _ a)

/-- Leaving all frames of a body leads back to the scope around its views. -/
theorem leaveAll_nested (a : Actor) {outer : Option TaskScope} {fs : List (Frame ν)}
    {vs : List View} (h : Nested outer fs vs) : ∀ {m : Plant ν} (exit : Exit ν),
      (m.thread a).scope = View.scopeWithinAll vs outer →
      Apart a m (m.leaveAll a fs exit).2 ∧ ((m.leaveAll a fs exit).2.thread a).scope = outer := by
  induction h with
  | bottom => exact fun _ hs => ⟨Beside.refl _ a, hs⟩
  | @plain f fs vs hf h ih =>
    intro m exit hs
    have hbeside : Beside m (m.leaveFrame a f exit).2 := by
      refine beside_leaveFrame m a ?_ exit
      rintro s rfl
      cases hf
    obtain ⟨hapart, hscope⟩ := ih (m.leaveFrame a f exit).1 ((hbeside.scope a).trans hs)
    exact ⟨(hbeside a).trans hapart, hscope⟩
  | @view v fs vs h ih =>
    intro m exit _
    -- the frame of the scope puts back what was around the view
    have hback : Apart a m (m.onThread a fun t => { t with scope := View.scopeWithinAll vs outer }) ∧
        ((m.onThread a fun t => { t with scope := View.scopeWithinAll vs outer }).thread a).scope =
          View.scopeWithinAll vs outer := by
      unfold onThread
      refine ⟨⟨fun _ _ _ hj => hj, fun b => ?_, fun b hb => ?_⟩, ?_⟩
      · rw [thread_setThread]
        split
        case isTrue hb => rw [hb]
        case isFalse => rfl
      · rw [thread_setThread, if_neg hb]
      · rw [thread_setThread, if_pos rfl]
    generalize hm : m.onThread a (fun t => { t with scope := View.scopeWithinAll vs outer }) = m₁
      at hback
    have hview : Beside m₁ (m₁.leaveFrame a (.view v) exit).2 :=
      beside_leaveFrame m₁ a (fun s hs => by cases hs) exit
    have hall : m.leaveAll a (.scope (View.scopeWithinAll vs outer) :: .view v :: fs) exit =
        (m₁.leaveFrame a (.view v) exit).2.leaveAll a fs exit := by
      rw [← hm]
      rfl
    obtain ⟨hapart, hscope⟩ := ih (m := (m₁.leaveFrame a (.view v) exit).2) exit
      ((hview.scope a).trans hback.2)
    rw [hall]
    exact ⟨hback.1.trans ((hview a).trans hapart), hscope⟩

/-! ## Scopes and frames belong together -/

/-- The frames of a worker are nested in the views of the job that it runs, and its scope is made of
these views. -/
structure Fitted (m : Plant ν) (w : WorkerId) (vs : List View) : Prop where
  frames : Nested (some w.scope) (m.thread (.worker w)).stack vs
  scope : (m.thread (.worker w)).scope = View.scopeWithinAll vs (some w.scope)
  job : (m.thread (.worker w)).stack ≠ [] → ∃ j, m.network.taskAt w = some j ∧ j.views = vs

/-- The scopes of all workers fit their frames. -/
def Scoped (m : Plant ν) : Prop := ∀ w, ∃ vs, m.Fitted w vs

theorem Fitted.congr {w : WorkerId} {vs : List View} (h : m.Fitted w vs)
    (ht : m'.thread (.worker w) = m.thread (.worker w)) (hn : m'.network = m.network) :
    m'.Fitted w vs := by
  refine ⟨?_, ?_, ?_⟩
  · rw [ht]
    exact h.frames
  · rw [ht]
    exact h.scope
  · rw [ht, hn]
    exact h.job

theorem Fitted.beside {w : WorkerId} {vs : List View} (h : m.Fitted w vs) {a : Actor}
    (hb : Apart a m m') (ha : a ≠ .worker w) : m'.Fitted w vs := by
  refine ⟨?_, ?_, fun hne => ?_⟩
  · rw [hb.stack]
    exact h.frames
  · rw [hb.scope _ (Ne.symm ha)]
    exact h.scope
  · rw [hb.stack] at hne
    obtain ⟨j, hj, hv⟩ := h.job hne
    exact ⟨j, hb.task w j hne hj, hv⟩

theorem Scoped.beside (h : m.Scoped) (hb : Beside m m') : m'.Scoped := by
  intro w
  obtain ⟨vs, hw⟩ := h w
  exact ⟨vs, hw.beside (hb .controller) nofun⟩

/-- A worker without frames is in its own scope. -/
theorem Scoped.scope_of_nil (h : m.Scoped) {w : WorkerId}
    (hw : (m.thread (.worker w)).stack = []) : (m.thread (.worker w)).scope = some w.scope := by
  obtain ⟨vs, hf⟩ := h w
  have hframes := hf.frames
  rw [hw] at hframes
  have hscope := hf.scope
  rw [hframes.eq_nil] at hscope
  exact hscope

theorem thread_setThread_of_ne {w u : WorkerId} (hu : u ≠ w) (t : Thread ν) :
    (m.setThread (.worker w) t).thread (.worker u) = m.thread (.worker u) := by
  rw [thread_setThread, if_neg fun he => hu (Actor.worker.inj he)]

/-- The thread of a worker is replaced by one that fits. -/
theorem Scoped.setThread (h : m.Scoped) {w : WorkerId} {t : Thread ν} {vs : List View}
    (hf : Nested (some w.scope) t.stack vs)
    (hs : t.scope = View.scopeWithinAll vs (some w.scope))
    (hj : t.stack ≠ [] → ∃ j, m.network.taskAt w = some j ∧ j.views = vs) :
    (m.setThread (.worker w) t).Scoped := by
  intro u
  by_cases hu : u = w
  · subst hu
    have hself : (m.setThread (.worker u) t).thread (.worker u) = t := by
      rw [thread_setThread, if_pos rfl]
    refine ⟨vs, ?_, ?_, ?_⟩ <;> rw [hself]
    · exact hf
    · exact hs
    · exact hj
  · obtain ⟨us, hfit⟩ := h u
    exact ⟨us, hfit.congr (thread_setThread_of_ne hu t) rfl⟩

/-- The frames of a worker are exchanged for others inside the same views. -/
theorem Scoped.setStack (h : m.Scoped) {w : WorkerId} {fs : List (Frame ν)}
    (hw : (m.thread (.worker w)).stack ≠ [])
    (hf : ∀ vs, Nested (some w.scope) (m.thread (.worker w)).stack vs →
      Nested (some w.scope) fs vs) : (m.setStack (.worker w) fs).Scoped := by
  obtain ⟨vs, hfit⟩ := h w
  exact h.setThread (hf vs hfit.frames) hfit.scope fun _ => hfit.job hw

theorem Scoped.push (h : m.Scoped) {w : WorkerId} (hw : (m.thread (.worker w)).stack ≠ [])
    {f : Frame ν} (hf : f.plain = true) : (m.push (.worker w) f).Scoped :=
  h.setStack hw fun _ hn => hn.plain hf

/-! ## Tasks on workers -/

/-- A worker without frames takes a turn. -/
theorem beside_withTurn {w : WorkerId} {p : Pool (Job (Task ν))}
    {r : Pool.Turn (Job (Task ν)) × Pool (Job (Task ν))} (hp : m.pool? w.pool = some p)
    (hr : ∀ u j, u ≠ w.worker → p.taskOf? u = some j → r.2.taskOf? u = some j)
    (hw : (m.thread (.worker w)).stack = [] ∨ p.taskOf? w.worker = none) :
    Beside m (m.withTurn w.pool r) := by
  have hstill : Still { m with network := m.network.setPool w.pool r.2 } (m.withTurn w.pool r) := by
    unfold withTurn
    split
    · exact still_discard _ _
    · exact ⟨rfl, rfl, rfl, rfl⟩
  have hturn : Beside m { m with network := m.network.setPool w.pool r.2 } := by
    refine fun _ => ⟨fun u j hu hj => ?_, fun _ => rfl, fun _ _ => rfl⟩
    show (m.network.setPool w.pool r.2).taskAt u = some j
    rw [Network.taskAt_setPool m.network r.2 hp]
    split
    case isFalse => exact hj
    case isTrue hpool =>
      have hold : p.taskOf? u.worker = some j := by
        rw [Network.taskAt, hpool, show m.network.pool? w.pool = some p from hp] at hj
        exact hj
      refine hr u.worker j (fun he => ?_) hold
      -- the worker itself has no frames, or runs nothing
      have hself : u = w := by
        cases u
        cases w
        cases he
        cases hpool
        rfl
      subst hself
      rcases hw with hnil | hnone
      · exact hu hnil
      · cases hnone.symm.trans hold
  exact hturn.trans hstill.beside

theorem beside_endRun {w : WorkerId} (hw : (m.thread (.worker w)).stack = []) (exit : Exit ν) :
    Beside m (m.endRun w exit) := by
  unfold endRun
  split
  case h_2 => exact Beside.refl m
  case h_1 p j hp hph =>
    obtain ⟨q, x, hq, hx, hrun⟩ := exists_of_phase? hph
    cases hp.symm.trans hq
    have htask : x.phase.task? = some j := by
      rw [hrun]
      rfl
    dsimp only
    refine beside_withTurn hp (fun u k hu hk => ?_) (.inl hw)
    have hends : ∀ fatal : Bool, (if fatal = true then p.die w.worker (Kinded.kind j)
        else p.finish w.worker (Kinded.kind j)).2.taskOf? u = some k := by
      intro fatal
      cases fatal with
      | true => exact (Pool.taskOf?_die hx _ hu).trans hk
      | false =>
        show (p.finish w.worker (Kinded.kind j)).2.taskOf? u = some k
        rw [(Pool.turns_finish hx htask).task, if_neg hu]
        exact hk
    exact hends _

/-- The body of a worker ends, however it does: the worker is in its own scope again. -/
theorem Scoped.endBody (h : m.Scoped) (w : WorkerId) (exit : Exit ν) :
    (m.endBody w exit).Scoped ∧ ((m.endBody w exit).thread (.worker w)).stack = [] := by
  obtain ⟨vs, hfit⟩ := h w
  have hbare : (m.setStack (.worker w) []).thread (.worker w) =
      { m.thread (.worker w) with stack := [] } := by
    unfold Plant.setStack onThread
    rw [thread_setThread, if_pos rfl]
  obtain ⟨hapart, hscope⟩ := leaveAll_nested (.worker w) hfit.frames (m := m.setStack (.worker w) [])
    exit (by rw [hbare]; exact hfit.scope)
  unfold Plant.endBody
  dsimp only
  generalize hr : (m.setStack (.worker w) []).leaveAll (.worker w)
    (m.thread (.worker w)).stack exit = r at hapart hscope
  have hnil : (r.2.thread (.worker w)).stack = [] := by
    rw [hapart.stack, hbare]
  have hout : r.2.Scoped := by
    intro u
    by_cases hu : u = w
    · subst hu
      refine ⟨[], ?_, hscope, fun hne => absurd hnil hne⟩
      rw [hnil]
      exact .bottom
    · obtain ⟨us, hf⟩ := h u
      have hset : (m.setStack (.worker w) []).Fitted u us :=
        hf.congr (thread_setThread_of_ne hu _) rfl
      exact ⟨us, hset.beside hapart fun he => hu (Actor.worker.inj he).symm⟩
  have hend := beside_endRun hnil r.1
  exact ⟨hout.beside hend, (hend.stack _).trans hnil⟩

/-- A worker starts its task, and is in the scope of all views of the job then. -/
theorem Scoped.startRun (h : m.Scoped) {w : WorkerId} {j : Job (Task ν)}
    (hj : m.network.taskAt w = some j) (hw : (m.thread (.worker w)).stack = []) :
    (m.startRun w j).Scoped := by
  have hscope := h.scope_of_nil hw
  unfold Plant.startRun
  dsimp only
  generalize j.task.context.enter (m.thread (.worker w)).ambient = r
  obtain ⟨entered, ambient⟩ := r
  cases entered with
  | error p =>
    dsimp only
    have hset : Beside m (m.setThread (.worker w) { m.thread (.worker w) with ambient }) :=
      beside_setThread rfl rfl
    have hput := hset.trans ((beside_collectNotes _ (.worker w)).trans
      (still_discard _ j.task).beside)
    exact (h.beside hput).beside (beside_endRun ((hput.stack _).trans hw) _)
  | ok token =>
    have hroot : Nested (some w.scope) [(.context j.task.context token : Frame ν)] [] :=
      Nested.bottom.plain rfl
    have hframes : Nested (some w.scope)
        (enterViews j.views (some w.scope) [(.context j.task.context token : Frame ν)]).2 j.views :=
      hroot.enterViews j.views
    have hinner := Plant.enterViews_scope j.views (some w.scope)
      [(.context j.task.context token : Frame ν)]
    rw [hscope]
    dsimp only
    generalize enterViews j.views (some w.scope) [(.context j.task.context token : Frame ν)] = e
      at hframes hinner
    have hset : (m.setThread (.worker w)
        { ambient, scope := e.1, stack := bodyFrames j.task e.2 }).Scoped :=
      h.setThread (hframes.bodyFrames j.task) hinner fun _ => ⟨j, hj, rfl⟩
    exact (hset.beside (beside_collectNotes _ _)).beside (still_onTask _ _ _).beside

/-! ## Steps -/

theorem beside_submitTask (m : Plant ν) (a : Actor) (how : Launch) (d : Dispatcher) (kind : Kind)
    (id : String) (context : Context) (body : Option (List (Step ν))) (tail : Bool) :
    Beside m (m.submitTask a how d kind id context body tail).2 := by
  unfold submitTask
  dsimp only
  generalize hm : ({ m with tasks := m.tasks ++ [{ name := id, pool := d.poolId }] } : Plant ν) = m₁
  have hadd : Still m m₁ := hm ▸ ⟨rfl, rfl, rfl, rfl⟩
  generalize ({ id := m.tasks.length, kind, context, reports := decide (how = .spawn), body } :
    Task ν) = task
  have hsub := Network.sameTasks_submit a.worker? (tail && how == Launch.submit) d { task } m.network
  generalize m.network.submit a.worker? (tail && how == Launch.submit) d { task } = r at hsub
  obtain ⟨taken, n⟩ := r
  have hput : Beside m (m₁.withNetwork n) := by
    refine hadd.beside.trans (beside_withNetwork ?_)
    rw [hadd.network]
    exact hsub
  cases taken with
  | true => exact hput.trans (still_onTask _ _ _).beside
  | false => exact hput.trans (still_onTask _ _ _).beside

theorem beside_submitWithin (m : Plant ν) (a : Actor) (c : Context)
    {submit : Plant ν → Reply ν × Plant ν} (hs : ∀ m', Beside m' (submit m').2) :
    Beside m (m.submitWithin a c submit).2 := by
  unfold submitWithin
  dsimp only
  split
  case h_1 => exact beside_setThread rfl rfl
  case h_2 token ambient _ =>
    have hin : Beside m (m.setThread a { m.thread a with ambient }) := beside_setThread rfl rfl
    exact hin.trans ((hs _).trans (beside_setThread rfl rfl))

theorem beside_launch (m : Plant ν) (a : Actor) (how : Launch) (on : Nat) (kind : Kind)
    (id : String) (elements : Option (List Element)) (body : Option (List (Step ν)))
    (tail : Bool) : Beside m (m.launch a how on kind id elements body tail).2 := by
  unfold launch
  split
  case h_1 => exact Beside.refl m
  case h_2 d _ =>
    split
    case isTrue => exact Beside.refl m
    case isFalse =>
      cases elements with
      | none => exact beside_submitTask m a how d kind id _ body tail
      | some es =>
        have hserial : Beside m { m with nextSerial := m.nextSerial + 1 } :=
          Still.beside ⟨rfl, rfl, rfl, rfl⟩
        dsimp only
        split
        case isTrue => exact hserial.trans (beside_submitTask _ a how d kind id _ body tail)
        case isFalse =>
          exact hserial.trans (beside_submitWithin _ a _ fun m' =>
            beside_submitTask m' a how d kind id _ body tail)

theorem beside_launchMany (a : Actor) (how : Launch) (on : Nat) (kind : Kind) (stem : String)
    (elements : Option (List Element)) (body : Option (List (Step ν))) (tail : Bool)
    (is : List Nat) : ∀ m : Plant ν,
      Beside m (m.launchMany a how on kind stem elements body tail is).2 := by
  induction is with
  | nil => exact Beside.refl
  | cons i is ih =>
    exact fun m => (beside_launch m a how on kind (stem ++ toString i) elements body tail).trans
      (ih _)

theorem beside_addDispatcher (m : Plant ν) (d : Dispatcher) :
    Beside m (m.addDispatcher d).2 := by
  unfold addDispatcher
  dsimp only
  split
  · exact beside_of_threads rfl fun _ _ hj => hj
  · split
    · exact beside_of_threads rfl fun _ _ hj => hj
    · exact beside_of_threads rfl fun _ _ hj => hj

theorem beside_addDerived (m : Plant ν) (on : Nat)
    (make : Nat → Dispatcher → Except Failure Dispatcher) :
    Beside m (m.addDerived on make).2 := by
  unfold addDerived
  split
  · exact Beside.refl m
  · split
    · exact beside_addDispatcher m _
    · exact Beside.refl m

theorem beside_compensate {act : Plant ν → Compensator → Plant ν}
    (hact : ∀ m c, Beside m (act m c)) (m : Plant ν) (times : Nat) (c : Option Compensator) :
    Beside m (m.compensate act times c).2 := by
  cases c with
  | none => exact Beside.refl m
  | some c =>
    exact List.foldlRecOn (motive := fun m' => Beside m m') (List.range times) _ (Beside.refl m)
      fun m' h _ _ => h.trans (hact m' c)

theorem beside_fire (m : Plant ν) (k : Nat) : Beside m (m.fire k).2 := by
  unfold fire
  split
  · exact Beside.refl m
  · have hcall : Beside m { m with callbacks := m.callbacks.set k none } :=
      Still.beside ⟨rfl, rfl, rfl, rfl⟩
    exact hcall.trans (beside_expire _ _)

/-- A step that leaves the stack of its thread as it is changes no scope. -/
theorem beside_perform (m : Plant ν) (a : Actor) (s : Step ν) : Beside m (m.perform a s).2 := by
  cases s with
  | launch how on kind id elements body tail =>
    exact beside_launch m a how on kind id elements body tail
  | many count task =>
    cases task with
    | launch how on kind stem elements body tail =>
      exact beside_launchMany a how on kind stem elements body tail (List.range count) m
    | _ => exact Beside.refl m
  | narrow on n => exact beside_addDerived m on _
  | soft on n => exact beside_addDerived m on _
  | exclusive on => exact beside_addDerived m on _
  | info on =>
    unfold perform
    dsimp only
    split <;> exact Beside.refl m
  | peek on =>
    unfold perform
    dsimp only
    split <;> exact Beside.refl m
  | raise times saved => exact beside_compensate beside_raise m times _
  | lower times saved => exact beside_compensate beside_lower m times _
  | save name =>
    unfold perform
    dsimp only
    split
    · exact Still.beside ⟨rfl, rfl, rfl, rfl⟩
    · exact Beside.refl m
  | set cell value => exact beside_setThread rfl rfl
  | log message => exact Still.beside ⟨rfl, rfl, rfl, rfl⟩
  | fire k => exact beside_fire m k
  | join id patience => exact (still_joinTask m id).beside
  | joinAll ids => exact (still_joinTasks m ids).beside
  | _ => exact Beside.refl m

/-- A task that waits for its steps is given one. -/
theorem Scoped.direct (h : m.Scoped) {w : WorkerId} (hw : (m.thread (.worker w)).stack ≠ [])
    (s : Step ν) : (m.direct w s).2.Scoped := by
  have hperform := h.beside (beside_perform m (.worker w) s)
  cases s with
  | finish value => exact (h.endBody w _).1
  | panic p => exact (h.endBody w _).1
  | guard deadline timer enabled body =>
    have hbegin := beside_beginGuard m w deadline timer enabled
    unfold Plant.direct
    dsimp only
    split
    case h_1 f m' he =>
      rw [he] at hbegin
      exact h.beside hbegin
    case h_2 debt m' he =>
      rw [he] at hbegin
      refine (h.beside hbegin).push ?_ rfl
      rw [hbegin.stack]
      exact hw
  | leave =>
    unfold Plant.direct
    dsimp only
    split
    case h_1 debt rest hs =>
      refine (h.setStack hw fun vs hn => ?_).beside (beside_pay _ debt)
      rw [hs] at hn
      exact hn.tail rfl
    case h_2 => exact h
  | _ => exact hperform

/-- A scripted body goes on by one step, or ends. -/
theorem Scoped.followScript (h : m.Scoped) (w : WorkerId) : (m.followScript w).Scoped := by
  unfold Plant.followScript
  dsimp only
  split
  case h_1 t s rest below hs =>
    have hne : (m.thread (.worker w)).stack ≠ [] := by
      rw [hs]
      exact List.cons_ne_nil _ _
    have hset : (m.setStack (.worker w) (.script t rest :: below)).Scoped := by
      refine h.setStack hne fun vs hn => ?_
      rw [hs] at hn
      exact (hn.tail rfl).plain rfl
    have hne' : ((m.setStack (.worker w) (.script t rest :: below)).thread
        (.worker w)).stack ≠ [] := by
      rw [stack_setStack]
      exact List.cons_ne_nil _ _
    generalize m.setStack (.worker w) (.script t rest :: below) = m₁ at hset hne'
    have hperform := (hset.beside (beside_perform m₁ (.worker w) s)).beside
      (still_onTask (m₁.perform (.worker w) s).2 t fun r =>
        { r with replies := r.replies ++ [(m₁.perform (.worker w) s).1] }).beside
    cases s with
    | finish value => exact (hset.endBody w _).1
    | panic p => exact (hset.endBody w _).1
    | guard deadline timer enabled body =>
      have hbegin := beside_beginGuard m₁ w deadline timer enabled
      dsimp only
      split
      case h_1 f m' he =>
        rw [he] at hbegin
        exact (hset.beside hbegin).beside (still_onTask _ _ _).beside
      case h_2 debt m' he =>
        rw [he] at hbegin
        have hstack : (m'.thread (.worker w)).stack ≠ [] := by
          rw [hbegin.stack]
          exact hne'
        refine ((hset.beside hbegin).push hstack rfl).push ?_ rfl
        rw [Plant.push, stack_setStack]
        exact List.cons_ne_nil _ _
    | _ => exact hperform
  case h_2 t debt below hs =>
    have hne : (m.thread (.worker w)).stack ≠ [] := by
      rw [hs]
      exact List.cons_ne_nil _ _
    refine ((h.setStack hne fun vs hn => ?_).beside (beside_pay _ debt)).beside
      (still_onTask _ _ _).beside
    rw [hs] at hn
    exact (hn.tail rfl).tail rfl
  case h_3 => exact (h.endBody w _).1

/-! ## Operations -/

theorem Scoped.advance (h : m.Scoped) (w : WorkerId) : (m.advance w).Scoped := by
  unfold Plant.advance
  split
  case h_1 p hp hph =>
    obtain ⟨q, x, hq, hx, hstarting⟩ := exists_of_phase? hph
    cases hp.symm.trans hq
    refine h.beside (beside_withTurn hp (fun u j hu hj => ?_) (.inr ?_))
    · rw [(Pool.turns_begin hx hstarting).task, if_neg hu]
      exact hj
    · rw [Pool.taskOf?_eq hx, hstarting]
      rfl
  case h_2 p woken hp hph =>
    obtain ⟨q, x, hq, hx, hidle⟩ := exists_of_phase? hph
    cases hp.symm.trans hq
    refine h.beside (beside_withTurn hp (fun u j hu hj => ?_) (.inr ?_))
    · rw [(Pool.turns_resume hx hidle false).task, if_neg hu]
      exact hj
    · rw [Pool.taskOf?_eq hx, hidle]
      rfl
  case h_3 p j hp hph =>
    split
    case isTrue hs => exact h.startRun (taskAt_of_phase? hph) (List.isEmpty_iff.mp hs)
    case isFalse => exact h.followScript w
  case h_4 => exact h

theorem Scoped.timeOut (h : m.Scoped) (w : WorkerId) : (m.after (.timeOut w)).Scoped := by
  unfold after
  dsimp only
  split
  case h_1 p woken hp hph =>
    obtain ⟨q, x, hq, hx, hidle⟩ := exists_of_phase? hph
    cases hp.symm.trans hq
    refine h.beside (beside_withTurn hp (fun u j hu hj => ?_) (.inr ?_))
    · rw [(Pool.turns_resume hx hidle true).task, if_neg hu]
      exact hj
    · rw [Pool.taskOf?_eq hx, hidle]
      rfl
  case h_2 => exact h

theorem Scoped.popTimer (h : m.Scoped) : (m.after .popTimer).Scoped := by
  unfold after popTimer?
  dsimp only
  split
  case h_1 => exact h
  case h_2 e t _ =>
    have hfire : Beside m { m with timer := (t.fire e).2 } := Still.beside ⟨rfl, rfl, rfl, rfl⟩
    dsimp only [Option.getD_some]
    split
    · exact h.beside (hfire.trans (beside_expire _ _))
    · exact h.beside hfire

theorem beside_beginClose (m : Plant ν) (p : Nat) : Beside m (m.beginClose p) :=
  beside_of_threads rfl fun w _ hj =>
    (Network.sameTasks_onPool m.network p (fun q u => (Pool.gains_beginClose q).task u) w).trans hj

theorem beside_terminate (m : Plant ν) (p : Nat) : Beside m (m.terminate p).2 := by
  unfold terminate
  split
  case h_1 => exact Beside.refl m
  case h_2 q hq =>
    refine beside_withNetwork ?_
    exact (Network.sameTasks_setPool hq (Pool.taskOf?_terminate q)).trans
      (Network.sameTasks_of_pools rfl)

theorem beside_releaseViews (m : Plant ν) (vs : List View) : Beside m (m.releaseViews vs) := by
  refine List.foldlRecOn (motive := fun m' => Beside m m') vs _ (Beside.refl m) fun m' h v _ => ?_
  split
  · exact h.trans (beside_withNetwork (Network.sameTasks_of_pools rfl))
  · exact h

/-- Whatever happens, scopes fit frames. -/
theorem lasting_scoped : Lasting (Scoped (ν := ν)) where
  perform s h := h.beside (beside_perform _ .controller s)
  direct s h hw := h.direct hw s
  advance w h := h.advance w
  followScript w h := h.followScript w
  timeOut w h := h.timeOut w
  expire t h := h.beside (beside_expire _ t)
  popTimer h := h.popTimer
  beginClose p h := h.beside (beside_beginClose _ p)
  terminate p h := h.beside (beside_terminate _ p)
  closers _ h := h.beside (Still.beside ⟨rfl, rfl, rfl, rfl⟩)
  endBody w exit h := (h.endBody w exit).1
  forget _ _ h := h.beside (beside_of_threads rfl fun _ _ hj => hj)
  releaseViews vs h := h.beside (beside_releaseViews _ vs)

theorem scoped_build {cells : Cells} {configs : List Config} (h : build cells configs = .ok m) :
    m.Scoped := by
  have hempty : ({ network := {}, cells } : Plant ν).Scoped := fun w =>
    ⟨[], .bottom, rfl, fun hne => absurd rfl hne⟩
  refine build_induct hempty (fun c p m _ hm => hm.beside ?_) h
  exact beside_of_threads rfl fun _ _ hj => Network.taskAt_append hj p

theorem scoped_of_arises {m₀ : Plant ν} (h₀ : m₀.Scoped) (h : Arises m₀ m) : m.Scoped :=
  lasting_scoped.arises h₀ h

/-- While a body runs, the scope of its worker is that of the views of the job. -/
theorem Scoped.running (h : m.Scoped) {w : WorkerId} (hw : (m.thread (.worker w)).stack ≠ []) :
    ∃ j, m.phase? w = some (.running j) ∧
      (m.thread (.worker w)).scope = View.scopeWithinAll j.views (some w.scope) := by
  obtain ⟨vs, hfit⟩ := h w
  obtain ⟨j, hj, rfl⟩ := hfit.job hw
  obtain ⟨p, x, hp, hx, hph⟩ := exists_of_taskAt hj
  refine ⟨j, ?_, hfit.scope⟩
  rw [phase?_eq hp hx, hph]

end Plant

end Workforce
