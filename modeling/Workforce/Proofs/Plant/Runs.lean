import Mathlib.Algebra.Order.BigOperators.Group.List
import Mathlib.Algebra.Order.Group.Nat
import Workforce.Plant.Unwind
import Workforce.Proofs.Plant.Guards

/-
  Tasks on workers keep the books of a plant. The frames of a task that starts hold an admission
  of each view that its job passed. They are all left again, and on the way every debt is paid and
  every admission given back (`Sound.leaveAll`). An exit is calm if it carries no explosive payload;
  a worker whose task ends calmly goes on to its next turn.
-/

namespace Workforce

variable {ν : Type} {vs : List View} {out : Nat → Nat}

/-- No payload that explodes is on its way out. -/
def Exit.Calm : Exit ν → Prop
  | .returned _ => True
  | .panicked p => p.aftershock = none

/-! ## Leaving contexts -/

theorem Element.restore_eq_text {e : Element} {prior : Datum} {s s' : Surface} {p : Payload}
    (h : e.restore prior s = (some p, s')) : p.aftershock = none := by
  unfold restore at h
  split at h
  · cases h
  · cases h
  · dsimp only at h
    split at h
    · cases h
      rfl
    · cases h

theorem Element.restoreAll_aftershock {es : List (Element × Datum)} :
    ∀ {s s' : Surface} {p : Payload}, restoreAll es s = (some p, s') → p.aftershock = none := by
  induction es with
  | nil =>
    intro s s' p h
    cases h
  | cons e es ih =>
    intro s s' p h
    obtain ⟨e, prior⟩ := e
    rw [restoreAll] at h
    split at h
    case h_1 q t hq =>
      cases h
      exact restore_eq_text hq
    case h_2 => exact ih h

/-- A panic raised while a context is left is a text. -/
theorem Context.leave_aftershock {c : Context} {token : Token} {a a' : Ambient} {p : Payload}
    (h : c.leave token a = (some p, a')) : p.aftershock = none := by
  have hr : (c.restoreInto token.saved a.surface).1 = some p := congrArg Prod.fst h
  generalize hs : c.restoreInto token.saved a.surface = r at hr
  obtain ⟨o, s⟩ := r
  subst hr
  unfold restoreInto at hs
  split at hs
  · cases hs
  · exact Element.restore_eq_text hs
  · split at hs
    · exact Element.restoreAll_aftershock hs
    · cases hs
      rfl
  · cases hs
    rfl

namespace Plant

variable {m : Plant ν} {hand : List (Frame ν)}

/-! ## Leaving frames -/

/-- The ambient state of a thread was changed. -/
theorem Sound.ambient (h : m.Sound vs hand out) (a : Actor) (x : Ambient) :
    (m.setThread a { m.thread a with ambient := x }).Sound vs hand out := by
  refine h.setThread (h.scope a) (h.stack a) h.inHand (fun _ _ => Nat.le_refl _) fun w hw => ?_
  subst hw
  exact h.linked w

theorem aside_setThread {a : Actor} {t : Thread ν} (ht : t.stack = (m.thread a).stack) :
    Aside m (m.setThread a t) := by
  refine ⟨Network.Calm.refl _, fun b => ?_⟩
  rw [thread_setThread]
  split
  case isTrue hb => exact hb ▸ ht
  case isFalse => rfl

theorem Sound.collectNotes (h : m.Sound vs hand out) (a : Actor) :
    (m.collectNotes a).Sound vs hand out ∧ Aside m (m.collectNotes a) := by
  have hs : Still m { m with probes := m.probes ++ (m.thread a).ambient.surface.notes } :=
    ⟨rfl, rfl, rfl, rfl⟩
  exact ⟨(h.still hs).ambient a _, hs.aside.trans (aside_setThread rfl)⟩

theorem holds_of_none {f : Frame ν} (hf : f.view? = none) (rest : Nat → Nat) :
    (fun i => rest i + holds i (f :: hand)) = fun i => rest i + holds i hand :=
  funext fun i => congrArg (rest i + ·) (holds_cons_of_none i hf hand)

/-- The frame of a view is left, and the view is told. -/
theorem Sound.leaveView {v : View} {rest : Nat → Nat}
    (h : m.Sound vs (.view v :: hand) fun i => rest i + holds i (.view v :: hand)) :
    (m.withNetwork (m.network.release v)).Sound vs hand (fun i => rest i + holds i hand) ∧
    Aside m (m.withNetwork (m.network.release v)) := by
  have hv : v.On vs := h.inHand _ List.mem_cons_self
  have hout : ∀ i, rest i + holds i (.view v :: hand) =
      rest i + holds i hand + if v.id = i then 1 else 0 := by
    intro i
    rw [holds_cons]
    exact (Nat.add_assoc ..).symm
  obtain ⟨hn, hk, hset⟩ :=
    Network.release_sound hv (h.network.congr hout) h.settled
  exact ⟨h.putAway.keeps hn hset hk, aside_withNetwork hk.toCalm⟩

/-- The frame of a context is left, and the ambient state of the thread is put back. -/
theorem Sound.leaveContext (h : m.Sound vs hand out) (a : Actor) (c : Context) (token : Token)
    {exit : Exit ν} (he : exit.Calm) :
    (m.leaveFrame a (.context c token) exit).2.Sound vs hand out ∧
    Aside m (m.leaveFrame a (.context c token) exit).2 ∧
    (m.leaveFrame a (.context c token) exit).1.Calm := by
  unfold Plant.leaveFrame
  dsimp only
  generalize hl : c.leave token (m.thread a).ambient = r
  obtain ⟨panicked, ambient⟩ := r
  have hput : Aside m (m.setThread a { m.thread a with ambient }) := aside_setThread rfl
  obtain ⟨hs, ha⟩ := (h.ambient a ambient).collectNotes a
  refine ⟨hs, hput.trans ha, ?_⟩
  cases panicked with
  | none => exact he
  | some p => exact Context.leave_aftershock hl

/-- A frame in hand is left. -/
theorem Sound.leaveFrame {f : Frame ν} {rest : Nat → Nat} (a : Actor) {exit : Exit ν}
    (he : exit.Calm) (h : m.Sound vs (f :: hand) fun i => rest i + holds i (f :: hand)) :
    (m.leaveFrame a f exit).2.Sound vs hand (fun i => rest i + holds i hand) ∧
    Aside m (m.leaveFrame a f exit).2 ∧ (m.leaveFrame a f exit).1.Calm := by
  cases f with
  | view v =>
    obtain ⟨hs, ha⟩ := h.leaveView
    exact ⟨hs, ha, he⟩
  | guard debt =>
    rw [holds_of_none rfl] at h
    obtain ⟨hs, ha⟩ := h.pay
    exact ⟨hs, ha, he⟩
  | context c token =>
    rw [holds_of_none rfl] at h
    exact h.putAway.leaveContext a c token he
  | scope previous =>
    rw [holds_of_none rfl] at h
    have hscope : ScopeOn vs previous := h.inHand _ List.mem_cons_self
    refine ⟨?_, aside_setThread rfl, he⟩
    refine h.putAway.setThread hscope (h.stack a) h.putAway.inHand (fun _ _ => Nat.le_refl _)
      fun w hw => ?_
    subst hw
    exact h.linked w
  | body t =>
    rw [holds_of_none rfl] at h
    exact ⟨h.putAway.still (still_onTask m t _), (still_onTask m t _).aside, he⟩
  | script t steps =>
    rw [holds_of_none rfl] at h
    exact ⟨h.putAway, Aside.refl m, he⟩
  | report t =>
    rw [holds_of_none rfl] at h
    cases exit with
    | returned value =>
      exact ⟨h.putAway.still (still_onTask m t _), (still_onTask m t _).aside, trivial⟩
    | panicked p =>
      have hp : p.aftershock = none := he
      unfold Plant.leaveFrame
      simp only [hp]
      exact ⟨h.putAway.still (still_onTask m t _), (still_onTask m t _).aside, trivial⟩

/-- All frames in hand are left. -/
theorem Sound.leaveAll {rest : Nat → Nat} (a : Actor) :
    ∀ {hand : List (Frame ν)} {m : Plant ν} {exit : Exit ν}, exit.Calm →
      m.Sound vs hand (fun i => rest i + holds i hand) →
      (m.leaveAll a hand exit).2.Sound vs [] rest ∧ Aside m (m.leaveAll a hand exit).2 ∧
      (m.leaveAll a hand exit).1.Calm := by
  intro hand
  induction hand with
  | nil =>
    intro m exit he h
    exact ⟨h, Aside.refl m, he⟩
  | cons f fs ih =>
    intro m exit he h
    obtain ⟨hs, ha, he'⟩ := h.leaveFrame a he
    obtain ⟨hs', ha', he''⟩ := ih he' hs
    exact ⟨hs', ha.trans ha', he''⟩

/-! ## Turns -/

/-- Between two operations threads hold the admissions of the jobs that workers run. -/
def Steady (vs : List View) (m : Plant ν) : Prop := m.Sound vs [] m.network.running

theorem Steady.sound (h : m.Steady vs) : m.Sound vs [] m.network.running := h

theorem Sound.steady (h : m.Sound vs [] out) (ho : ∀ i, out i = m.network.running i) :
    m.Steady vs := by
  have he : out = m.network.running := funext ho
  rw [he] at h
  exact h

theorem Steady.still {m' : Plant ν} (h : m.Steady vs) (hs : Still m m') : m'.Steady vs :=
  (h.sound.still hs).steady fun _ => by rw [hs.network]

/-- A worker that has left all frames takes a turn. Its thread holds what it starts. -/
theorem Sound.withTurn (h : m.Sound vs [] out) {w : WorkerId} {p : Pool (Job (Task ν))}
    {x : Worker (Job (Task ν))} {r : Pool.Turn (Job (Task ν)) × Pool (Job (Task ν))}
    (hp : m.pool? w.pool = some p) (ht : p.Turns w.worker x r)
    (hw : (m.thread (.worker w)).stack = [])
    (hout : ∀ i, out i + Worth (Job.passes i) x.phase.task? = m.network.running i) :
    (m.withTurn w.pool r).Steady vs := by
  have hstill : Still { m with network := m.network.setPool w.pool r.2 } (m.withTurn w.pool r) := by
    unfold Plant.withTurn
    split
    · exact still_discard _ _
    · exact ⟨rfl, rfl, rfl, rfl⟩
  obtain ⟨hn, hrun, htask⟩ := h.network.turn hp ht
  have hlen : (m.network.setPool w.pool r.2).pools.length = m.network.pools.length :=
    List.length_set
  have hs : ({ m with network := m.network.setPool w.pool r.2 } : Plant ν).Sound vs []
      fun i => out i + Worth (Job.passes i) r.1.started := by
    refine ⟨hn, h.settled, h.limits, h.tickets, h.compensators, h.frames, h.inHand, h.scopes,
      fun d hd => ?_, fun u => ?_⟩
    · show d.Leads vs (m.network.setPool w.pool r.2).pools.length
      rw [hlen]
      exact h.dispatchers d hd
    · by_cases hu : u = w
      · subst hu
        exact Or.inl hw
      · have hsame : (m.network.setPool w.pool r.2).taskAt u = m.network.taskAt u :=
          (htask u).trans (if_neg hu)
        exact (h.linked u).imp_right fun ⟨j, hj, hi⟩ => ⟨j, hsame.trans hj, hi⟩
  refine Steady.still (hs.steady fun i => ?_) hstill
  have hi := hrun i
  have ho := hout i
  dsimp only
  omega

/-! ## The end of a task -/

theorem exists_of_taskAt {n : Network (Task ν)} {w : WorkerId} {j : Job (Task ν)}
    (h : n.taskAt w = some j) : ∃ p x, n.pool? w.pool = some p ∧ p.worker? w.worker = some x ∧
      x.phase = .running j := by
  unfold Network.taskAt at h
  obtain ⟨p, hp, ht⟩ := Option.bind_eq_some_iff.mp h
  obtain ⟨x, hx, hj⟩ := Pool.exists_of_taskOf? ht
  refine ⟨p, x, hp, hx, ?_⟩
  cases hph : x.phase with
  | running k =>
    rw [hph] at hj
    exact congrArg Phase.running (Option.some.inj hj)
  | _ =>
    rw [hph] at hj
    cases hj

theorem phase?_eq {w : WorkerId} {p : Pool (Job (Task ν))} {x : Worker (Job (Task ν))}
    (hp : m.pool? w.pool = some p) (hx : p.worker? w.worker = some x) :
    m.phase? w = some x.phase := by
  unfold phase?
  rw [hp]
  show (p.worker? w.worker).map Worker.phase = _
  rw [hx]
  rfl

theorem taskAt_of_phase? {w : WorkerId} {j : Job (Task ν)} (h : m.phase? w = some (.running j)) :
    m.network.taskAt w = some j := by
  unfold phase? at h
  obtain ⟨x, hx, hph⟩ := Option.map_eq_some_iff.mp h
  obtain ⟨p, hp, hw⟩ := Option.bind_eq_some_iff.mp hx
  unfold Network.taskAt
  show (m.pool? w.pool).bind _ = _
  rw [hp]
  show p.taskOf? w.worker = _
  rw [Pool.taskOf?_eq hw, hph]
  rfl

/-- The task of a worker has ended calmly, and its admissions were given back. -/
theorem Sound.endRun (h : m.Sound vs [] out) {w : WorkerId} {j : Job (Task ν)}
    (hj : m.network.taskAt w = some j) (hw : (m.thread (.worker w)).stack = [])
    (hout : ∀ i, out i + j.passes i = m.network.running i) {exit : Exit ν} (he : exit.Calm) :
    (m.endRun w exit).Steady vs := by
  obtain ⟨p, x, hp, hx, hph⟩ := exists_of_taskAt hj
  have hend : m.endRun w exit = m.withTurn w.pool (p.finish w.worker (Kinded.kind j)) := by
    have hpool : m.pool? w.pool = some p := hp
    unfold Plant.endRun
    rw [hpool, phase?_eq hp hx, hph]
    cases exit with
    | returned value => rfl
    | panicked q =>
      have hq : q.aftershock = none := he
      simp only [hq]
      rfl
  have htask : x.phase.task? = some j := by
    rw [hph]
    rfl
  rw [hend]
  refine h.withTurn hp (Pool.turns_finish hx htask) hw fun i => ?_
  rw [htask]
  exact hout i

/-- What a worker runs is counted among what workers run. -/
theorem passes_le_running {n : Network (Task ν)} {w : WorkerId} {j : Job (Task ν)}
    (h : n.taskAt w = some j) (i : Nat) : j.passes i ≤ n.running i := by
  obtain ⟨p, x, hp, hx, hph⟩ := exists_of_taskAt h
  have hworker : j.passes i ≤ x.holding (fun _ => 0) (Job.passes i) := by
    unfold Worker.holding
    rw [hph]
    exact Nat.le_add_left ..
  have hcrew : x.holding (fun _ => 0) (Job.passes i) ≤ p.crewHolding (fun _ => 0) (Job.passes i) :=
    List.le_sum_of_mem (List.mem_map_of_mem (List.mem_of_getElem? hx))
  have hpool : p.holding (fun _ => 0) (Job.passes i) ≤ n.running i :=
    List.le_sum_of_mem (List.mem_map_of_mem (List.mem_of_getElem? hp))
  have hheld : p.crewHolding (fun _ => 0) (Job.passes i) ≤
      p.holding (fun _ => 0) (Job.passes i) := Nat.le_add_left ..
  omega

/-- The frames of a thread are taken into hand. -/
theorem Sound.unstack (h : m.Sound vs [] out) (a : Actor) :
    (m.setStack a []).Sound vs (m.thread a).stack out := by
  refine h.setThread (h.scope a) nofun (h.stack a) (fun w _ => ?_) fun _ _ => Or.inl rfl
  simp

/-- The body of a task ends calmly. -/
theorem Steady.endBody (h : m.Steady vs) {w : WorkerId}
    (hw : (m.thread (.worker w)).stack ≠ []) {exit : Exit ν} (he : exit.Calm) :
    (m.endBody w exit).Steady vs := by
  obtain ⟨j, hj, hheld⟩ := (h.sound.linked w).resolve_left hw
  have hunstacked := h.sound.unstack (.worker w)
  have hout : m.network.running = fun i =>
      m.network.running i - j.passes i + holds i (m.thread (.worker w)).stack := by
    funext i
    have hle := passes_le_running hj i
    rw [hheld]
    omega
  rw [hout] at hunstacked
  obtain ⟨hs, ha, he'⟩ := hunstacked.leaveAll (.worker w) he
  unfold Plant.endBody
  dsimp only
  refine hs.endRun ((ha.calm.task w).trans hj) ((ha.stack _).trans ?_) (fun i => ?_) he'
  · exact (congrArg Thread.stack (thread_setThread m _ _ _)).trans (by rw [if_pos rfl])
  · have hle := passes_le_running hj i
    have hrun : _ = m.network.running i := ha.calm.running i
    omega

/-! ## The start of a task -/

/-- The context of a task can be entered on a worker. -/
def CanEnter (m : Plant ν) (w : WorkerId) (j : Job (Task ν)) : Prop :=
  ∃ token, (j.task.context.enter (m.thread (.worker w)).ambient).1 = .ok token

theorem scopeOn_scopeWithin {v : View} (hv : v.On vs) {s : Option TaskScope} (hs : ScopeOn vs s) :
    ScopeOn vs (some (v.scopeWithin s)) := by
  intro c hc u hu
  unfold View.scopeWithin at hc
  cases hm : v.mode with
  | exclusive =>
    rw [hm] at hc
    cases hc
  | soft =>
    rw [hm] at hc
    cases ho : Scope.compensator? s with
    | none =>
      rw [ho] at hc
      cases hc
      rw [List.mem_singleton.mp hu]
      exact hv
    | some d =>
      rw [ho] at hc
      cases hc
      rcases List.mem_append.mp hu with hu | hu
      · exact hs d ho u hu
      · rw [List.mem_singleton.mp hu]
        exact hv

/-- Inside its views a task has a frame for each, and no guarded call yet. -/
theorem enterViews_on (us : List View) :
    ∀ {scope : Option TaskScope} (frames : List (Frame ν)), (∀ u ∈ us, u.On vs) →
      ScopeOn vs scope → (∀ f ∈ frames, f.On vs) →
      ScopeOn vs (enterViews us scope frames).1 ∧
      (∀ f ∈ (enterViews us scope frames).2, f.On vs) ∧
      (∀ w : Frame ν → Nat, GuardWeight w →
        ((enterViews us scope frames).2.map w).sum = (frames.map w).sum) ∧
      ∀ i, holds i (enterViews us scope frames).2 =
        holds i frames + us.countP fun v => v.id = i := by
  induction us with
  | nil => exact fun _ _ hs hf => ⟨hs, hf, fun _ _ => rfl, fun _ => rfl⟩
  | cons v us ih =>
    intro scope frames hus hs hf
    have hv : v.On vs := hus v List.mem_cons_self
    have hf' : ∀ f ∈ .scope scope :: .view v :: frames, f.On vs := by
      intro f hm
      rcases List.mem_cons.mp hm with rfl | hm
      · exact hs
      · rcases List.mem_cons.mp hm with rfl | hm
        · exact hv
        · exact hf f hm
    obtain ⟨hscope, hon, hweight, hholds⟩ :=
      ih _ (fun u hu => hus u (List.mem_cons_of_mem v hu)) (scopeOn_scopeWithin hv hs) hf'
    refine ⟨hscope, hon, fun w hw => ?_, fun i => ?_⟩
    · rw [enterViews, hweight w hw, List.map_cons, List.map_cons, List.sum_cons, List.sum_cons,
        hw (.scope scope) nofun, hw (.view v) nofun]
      omega
    · rw [enterViews, hholds i, holds_cons_of_none i rfl, holds_cons, List.countP_cons]
      show holds i frames + (if v.id = i then 1 else 0) + us.countP (fun v => v.id = i) = _
      simp only [decide_eq_true_eq]
      omega

/-- Frames are about views of a chart, and hold and owe what others do. -/
structure Covers (vs : List View) (fs gs : List (Frame ν)) : Prop where
  on : ∀ f ∈ fs, f.On vs
  weight : ∀ w : Frame ν → Nat, GuardWeight w → (fs.map w).sum = (gs.map w).sum
  holds : ∀ i, holds i fs = holds i gs

/-- A frame that is neither that of a view nor a guarded call comes on top. -/
theorem Covers.cons {fs gs : List (Frame ν)} (h : Covers vs fs gs) {f : Frame ν}
    (hv : f.view? = none) (hg : ∀ debt, f ≠ .guard debt) (hon : f.On vs) :
    Covers vs (f :: fs) gs := by
  refine ⟨fun g hm => ?_, fun w hw => ?_, fun i => ?_⟩
  · rcases List.mem_cons.mp hm with rfl | hm
    · exact hon
    · exact h.on g hm
  · rw [List.map_cons, List.sum_cons, hw f hg, h.weight w hw, Nat.zero_add]
  · rw [holds_cons_of_none i hv, h.holds]

theorem covers_bodyFrames (t : Task ν) {fs gs : List (Frame ν)} (h : Covers vs fs gs) :
    Covers vs (bodyFrames t fs) gs := by
  have hreport : Covers vs (if t.reports then .report t.id :: fs else fs) gs := by
    split
    · exact h.cons rfl nofun trivial
    · exact h
  have hbody : Covers vs (.body t.id :: if t.reports then .report t.id :: fs else fs) gs :=
    hreport.cons rfl nofun trivial
  unfold bodyFrames
  cases t.body with
  | none => exact hbody
  | some steps => exact hbody.cons rfl nofun trivial

/-- The views that a job of a worker passed are in the chart. -/
theorem Sound.passed (h : m.Sound vs hand out) {w : WorkerId} {j : Job (Task ν)}
    (hj : m.network.taskAt w = some j) : ∀ u ∈ j.views, u.On vs := by
  obtain ⟨p, x, hp, hx, hph⟩ := exists_of_taskAt hj
  have ht : p.taskOf? w.worker = some j := by
    rw [Pool.taskOf?_eq hx, hph]
    rfl
  exact ((h.network.pooled w.pool p hp).running ht).charted

/-- A worker starts a task whose context it can enter. -/
theorem Steady.startRun (h : m.Steady vs) {w : WorkerId} {j : Job (Task ν)}
    (hj : m.network.taskAt w = some j) (hw : (m.thread (.worker w)).stack = [])
    (he : m.CanEnter w j) : (m.startRun w j).Steady vs := by
  obtain ⟨token, he⟩ := he
  unfold Plant.startRun
  dsimp only
  generalize hr : j.task.context.enter (m.thread (.worker w)).ambient = r at he
  obtain ⟨entered, ambient⟩ := r
  subst he
  dsimp only
  obtain ⟨hscope, hon, hweight, hholds⟩ := enterViews_on j.views
    [.context j.task.context token] (h.sound.passed hj) (h.sound.scope (.worker w)) fun f hf => by
      rw [List.mem_singleton.mp hf]
      exact trivial
  generalize enterViews j.views (m.thread (.worker w)).scope [.context j.task.context token] = r
    at hscope hon hweight hholds
  obtain ⟨scope, frames⟩ := r
  have hframes : Covers vs frames frames := ⟨hon, fun _ _ => rfl, fun _ => rfl⟩
  have hbody := covers_bodyFrames j.task hframes
  have hset : (m.setThread (.worker w)
      { ambient, scope, stack := bodyFrames j.task frames }).Sound vs [] m.network.running := by
    refine h.sound.setThread hscope hbody.on nofun (fun u hu => ?_) fun u hu => ?_
    · have hz : u (.context j.task.context token) = 0 := hu _ nofun
      rw [hbody.weight u hu, hweight u hu, hw]
      simp [hz]
    · cases hu
      refine Or.inr ⟨j, hj, fun i => ?_⟩
      rw [hbody.holds, hholds]
      exact Nat.zero_add _
  obtain ⟨hs, ha⟩ := hset.collectNotes (.worker w)
  refine Steady.still (hs.steady fun i => ?_) (still_onTask _ _ _)
  exact (ha.calm.running i).symm

/-! ## Free workers -/

/-- A free worker takes a turn. -/
theorem Steady.freeTurn (h : m.Steady vs) {w : WorkerId} {p : Pool (Job (Task ν))}
    {x : Worker (Job (Task ν))} {r : Pool.Turn (Job (Task ν)) × Pool (Job (Task ν))}
    (hp : m.pool? w.pool = some p) (hx : p.worker? w.worker = some x)
    (hfree : x.phase.task? = none) (ht : p.Turns w.worker x r) :
    (m.withTurn w.pool r).Steady vs := by
  have hw : (m.thread (.worker w)).stack = [] := by
    refine (h.sound.linked w).resolve_right ?_
    rintro ⟨j, hj, -⟩
    have hnone : m.network.taskAt w = none := by
      unfold Network.taskAt
      rw [show m.network.pool? w.pool = some p from hp]
      exact (Pool.taskOf?_eq hx).trans hfree
    cases hnone.symm.trans hj
  refine h.sound.withTurn hp ht hw fun i => ?_
  rw [hfree]
  rfl

end Plant

end Workforce
