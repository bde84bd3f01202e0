import Workforce.Proofs.Network.Registers
import Workforce.Proofs.Plant.Scopes
import Workforce.Proofs.Pool.Staff

/-
  Plants that keep a register. All that threads, tickets and saved compensators hold are views of
  one chart, so whatever is released or raised in a plant refills from gates whose tasks are listed.
  Tasks are numbered as they are handed over, so a list of dispatchers tells where each of them
  went; every job is on the route of the dispatcher that its task was handed to, whether it waits
  before a view, is in a pool or runs, and every dispatcher of a plant was made by the constructors
  (`Follows`).

  This module follows what happens on one thread between two tasks handed over: guarded calls, frames
  that are left, and the turns of workers. Bodies may panic explosively, limits may be lowered to zero
  and pools may have been terminated.
-/

namespace Workforce.Plant

variable {ν : Type} {vs : List View} {k : Nat} {r : Register (Task ν)} {ds : List Dispatcher}
  {m m' : Plant ν} {c : Compensator}

/-! ## Plants and registers -/

/-- A route that a task may take, when tasks were handed to some dispatchers in order. -/
def Assigned (ds : List Dispatcher) (t : Task ν) (us : List View) : Prop :=
  ∃ d, ds[t.id]? = some d ∧ us = d.views

theorem Assigned.append {t : Task ν} {us : List View} (h : Assigned ds t us)
    (es : List Dispatcher) : Assigned (ds ++ es) t us := by
  obtain ⟨d, hd, hus⟩ := h
  obtain ⟨hlt, -⟩ := List.getElem?_eq_some_iff.mp hd
  exact ⟨d, (List.getElem?_append_left hlt).trans hd, hus⟩

/-- The network of a plant keeps a register, where its tasks were handed to some dispatchers in
order, and all views in the plant are those of the chart. -/
structure Follows (vs : List View) (k : Nat) (r : Register (Task ν)) (ds : List Dispatcher)
    (m : Plant ν) : Prop where
  network : m.network.Tidy vs k (r.along (Assigned ds))
  emptied : m.network.dropped = []
  compensators : ∀ x ∈ m.tickets, ∀ v ∈ x.2.views, v.On vs
  saved : ∀ x ∈ m.saved, ∀ v ∈ x.2.views, v.On vs
  frames : ∀ x ∈ m.threads, ∀ f ∈ x.2.stack, f.On vs
  scopes : ∀ x ∈ m.threads, ScopeOn vs x.2.scope
  dispatchers : ∀ d, some d ∈ m.dispatchers → d.Leads vs k ∧ d.Built
  count : m.tasks.length = ds.length
  targets : ∀ d ∈ ds, d.Built

/-! ## Changes of records -/

/-- Nothing but records of tasks, timers, closes and logs has changed. -/
structure Quiet (m m' : Plant ν) : Prop extends Still m m' where
  saved : m'.saved = m.saved
  count : m'.tasks.length = m.tasks.length

theorem Quiet.trans {m'' : Plant ν} (h : Quiet m m') (h' : Quiet m' m'') : Quiet m m'' :=
  ⟨h.toStill.trans h'.toStill, h'.saved.trans h.saved, h'.count.trans h.count⟩

theorem quiet_onTask (m : Plant ν) (t : Nat) (f : TaskRecord ν → TaskRecord ν) :
    Quiet m (m.onTask t f) := ⟨still_onTask m t f, rfl, List.length_modify ..⟩

theorem quiet_discard (m : Plant ν) (t : Task ν) : Quiet m (m.discard t) := by
  unfold discard
  dsimp only
  split
  · exact (quiet_onTask m t.id _).trans (quiet_onTask _ t.id _)
  · exact quiet_onTask m t.id _

/-- Dropped tasks are accounted for in their records. -/
theorem quiet_withNetwork (m : Plant ν) (n : Network (Task ν)) :
    Quiet { m with network := { n with dropped := [] } } (m.withNetwork n) :=
  List.foldlRecOn (motive := Quiet _) n.dropped _ ⟨⟨rfl, rfl, rfl, rfl⟩, rfl, rfl⟩
    fun _ h j _ => h.trans (quiet_discard _ j.task)

theorem quiet_arm (m : Plant ν) (timer : GuardTimer) (deadline : Duration) (t : Nat) :
    Quiet m (m.arm timer deadline t).2 := by
  cases timer <;> exact ⟨⟨rfl, rfl, rfl, rfl⟩, rfl, rfl⟩

theorem quiet_joinTask (m : Plant ν) (id : String) : Quiet m (m.joinTask id).2 := by
  unfold joinTask
  split
  · exact ⟨⟨rfl, rfl, rfl, rfl⟩, rfl, rfl⟩
  · split
    · split
      · exact quiet_onTask m _ _
      · exact ⟨⟨rfl, rfl, rfl, rfl⟩, rfl, rfl⟩
    · exact ⟨⟨rfl, rfl, rfl, rfl⟩, rfl, rfl⟩

theorem quiet_joinTasks (m : Plant ν) (ids : List String) : Quiet m (m.joinTasks ids).2 := by
  refine ⟨still_joinTasks m ids, ?_, ?_⟩ <;> unfold joinTasks <;> dsimp only <;> split
  · rfl
  · rfl
  · rfl
  · exact List.length_map _

theorem Follows.quiet (h : m.Follows vs k r ds) (hq : Quiet m m') : m'.Follows vs k r ds := by
  refine ⟨?_, ?_, ?_, ?_, ?_, ?_, ?_, hq.count.trans h.count, h.targets⟩
  · rw [hq.network]
    exact h.network
  · rw [hq.network]
    exact h.emptied
  · rw [hq.tickets]
    exact h.compensators
  · rw [hq.saved]
    exact h.saved
  · rw [hq.threads]
    exact h.frames
  · rw [hq.threads]
    exact h.scopes
  · rw [hq.dispatchers]
    exact h.dispatchers

theorem Follows.onTask (h : m.Follows vs k r ds) (t : Nat) (f : TaskRecord ν → TaskRecord ν) :
    (m.onTask t f).Follows vs k r ds := h.quiet (quiet_onTask m t f)

/-! ## Threads and the network -/

theorem Follows.scope (h : m.Follows vs k r ds) (a : Actor) : ScopeOn vs (m.thread a).scope := by
  rcases m.thread_cases a with ⟨x, hx, he⟩ | ⟨-, hs⟩
  · rw [he]
    exact h.scopes x hx
  · rw [hs]
    intro c hc v hv
    cases a with
    | controller => cases hc
    | worker w =>
      cases hc
      cases hv

theorem Follows.stack (h : m.Follows vs k r ds) (a : Actor) :
    ∀ f ∈ (m.thread a).stack, f.On vs := by
  rcases m.thread_cases a with ⟨x, hx, he⟩ | ⟨hs, -⟩
  · rw [he]
    exact h.frames x hx
  · rw [hs]
    exact List.forall_mem_nil _

theorem Follows.withNetwork (h : m.Follows vs k r ds) {n : Network (Task ν)}
    (hn : n.Tidy vs k (r.along (Assigned ds))) : (m.withNetwork n).Follows vs k r ds := by
  have hput : ({ m with network := { n with dropped := [] } } : Plant ν).Follows vs k r ds :=
    { h with network := hn.congr rfl rfl, emptied := rfl }
  exact hput.quiet (quiet_withNetwork m n)

theorem Follows.setThread (h : m.Follows vs k r ds) (a : Actor) {t : Thread ν}
    (hs : ScopeOn vs t.scope) (hf : ∀ f ∈ t.stack, f.On vs) : (m.setThread a t).Follows vs k r ds := by
  refine { h with frames := fun x hx => ?_, scopes := fun x hx => ?_ }
  · rcases mem_setThread hx with rfl | hx
    · exact hf
    · exact h.frames x hx
  · rcases mem_setThread hx with rfl | hx
    · exact hs
    · exact h.scopes x hx

theorem Follows.setStack (h : m.Follows vs k r ds) (a : Actor) {fs : List (Frame ν)}
    (hf : ∀ f ∈ fs, f.On vs) : (m.setStack a fs).Follows vs k r ds :=
  h.setThread a (h.scope a) hf

theorem Follows.push (h : m.Follows vs k r ds) (a : Actor) {f : Frame ν} (hf : f.On vs) :
    (m.push a f).Follows vs k r ds := by
  refine h.setStack a fun g hg => ?_
  rcases List.mem_cons.mp hg with rfl | hg
  · exact hf
  · exact h.stack a g hg

theorem Follows.ambient (h : m.Follows vs k r ds) (a : Actor) (x : Ambient) :
    (m.setThread a { m.thread a with ambient := x }).Follows vs k r ds :=
  h.setThread a (h.scope a) (h.stack a)

theorem Follows.collectNotes (h : m.Follows vs k r ds) (a : Actor) :
    (m.collectNotes a).Follows vs k r ds := by
  have hq : Quiet m { m with probes := m.probes ++ (m.thread a).ambient.surface.notes } :=
    ⟨⟨rfl, rfl, rfl, rfl⟩, rfl, rfl⟩
  exact (h.quiet hq).ambient a _

/-! ## Guarded calls -/

theorem Follows.raise (h : m.Follows vs k r ds) (hc : ∀ v ∈ c.views, v.On vs) :
    (m.raise c).Follows vs k r ds := h.withNetwork (h.network.raise hc)

theorem Follows.lower (h : m.Follows vs k r ds) (c : Compensator) : (m.lower c).Follows vs k r ds :=
  h.withNetwork (h.network.lower c)

/-- A ticket is issued or changes its state. -/
theorem Follows.setTickets (h : m.Follows vs k r ds) {tickets : List (Ticket × Compensator)}
    (ht : ∀ x ∈ tickets, ∀ v ∈ x.2.views, v.On vs) :
    ({ m with tickets } : Plant ν).Follows vs k r ds := { h with compensators := ht }

theorem Follows.setTicket (h : m.Follows vs k r ds) (t : Nat) (s : Ticket)
    (hc : ∀ v ∈ c.views, v.On vs) :
    ({ m with tickets := m.tickets.set t (s, c) } : Plant ν).Follows vs k r ds := by
  refine h.setTickets fun x hx => ?_
  rcases List.mem_or_eq_of_mem_set hx with hx | rfl
  · exact h.compensators x hx
  · exact hc

theorem Follows.expire (h : m.Follows vs k r ds) (t : Nat) : (m.expire t).Follows vs k r ds := by
  unfold Plant.expire
  split
  case h_1 => exact h
  case h_2 s c ht =>
    have hc := h.compensators _ (List.mem_of_getElem? ht)
    have hset := h.setTicket t s.expire.2 hc
    dsimp only
    split
    · exact hset.raise hc
    · exact hset

theorem Follows.pay (h : m.Follows vs k r ds) (d : Debt) : (m.pay d).Follows vs k r ds := by
  cases d with
  | nothing => exact h
  | lower c => exact h.lower c
  | ticket t entry =>
    unfold Plant.pay
    dsimp only
    split
    case h_1 => exact h
    case h_2 s c ht =>
      have hset := h.setTicket t s.settle.2 (h.compensators _ (List.mem_of_getElem? ht))
      split
      · exact hset.lower c
      · exact hset.quiet ⟨⟨rfl, rfl, rfl, rfl⟩, rfl, rfl⟩
      · exact hset

theorem Follows.flush (h : m.Follows vs k r ds) (w : WorkerId) :
    (m.withNetwork (m.network.flush w)).Follows vs k r ds :=
  h.withNetwork (h.network.onPool w.pool fun p => p.receives_flush w.worker)

/-- A guarded call is refused, or begins and owes something that its frame may owe. -/
theorem Follows.beginGuard (h : m.Follows vs k r ds) (w : WorkerId) (deadline : Duration)
    (timer : GuardTimer) (enabled : Bool) :
    (m.beginGuard (.worker w) deadline timer enabled).2.Follows vs k r ds ∧
    ∀ debt, (m.beginGuard (.worker w) deadline timer enabled).1 = .ok debt →
      (Frame.guard debt : Frame ν).On vs := by
  have hviews : ∀ c, Plan.choose enabled (m.thread (.worker w)).scope deadline = .upFront c ∨
      Plan.choose enabled (m.thread (.worker w)).scope deadline = .timed c →
      ∀ v ∈ c.views, v.On vs := fun c hc => h.scope (.worker w) c (compensator?_of_choose hc)
  have hflush := h.flush w
  unfold Plant.beginGuard
  dsimp only [Actor.worker?]
  split
  case h_1 => exact ⟨h, nofun⟩
  case h_2 =>
    refine ⟨hflush, fun debt hd => ?_⟩
    cases hd
    exact trivial
  case h_3 c hc =>
    refine ⟨hflush.raise (hviews c (Or.inl hc)), fun debt hd => ?_⟩
    cases hd
    exact hviews c (Or.inl hc)
  case h_4 c hc =>
    have htickets : ∀ x ∈ (m.withNetwork (m.network.flush w)).tickets ++ [(Ticket.unresolved, c)],
        ∀ v ∈ x.2.views, v.On vs := by
      intro x hx
      rcases List.mem_append.mp hx with hx | hx
      · exact hflush.compensators x hx
      · rw [List.mem_singleton.mp hx]
        exact hviews c (Or.inr hc)
    have hissued := hflush.setTickets htickets
    refine ⟨hissued.quiet (quiet_arm _ timer deadline _), fun debt hd => ?_⟩
    cases hd
    exact trivial

/-! ## Frames -/

theorem Follows.leaveFrame (h : m.Follows vs k r ds) (a : Actor) {f : Frame ν} (hf : f.On vs)
    (exit : Exit ν) : (m.leaveFrame a f exit).2.Follows vs k r ds := by
  cases f with
  | guard debt => exact h.pay debt
  | script t rest => exact h
  | body t => exact h.onTask t _
  | scope previous => exact h.setThread a hf (h.stack a)
  | view v => exact h.withNetwork (h.network.release hf)
  | report t =>
    unfold Plant.leaveFrame
    cases exit with
    | returned value => exact h.onTask t _
    | panicked p =>
      dsimp only
      split
      · exact h.onTask t _
      · exact h.onTask t _
  | context c token =>
    unfold Plant.leaveFrame
    dsimp only
    exact (h.ambient a _).collectNotes a

theorem Follows.leaveAll (a : Actor) {fs : List (Frame ν)} :
    ∀ {m : Plant ν} (exit : Exit ν), m.Follows vs k r ds → (∀ f ∈ fs, f.On vs) →
      (m.leaveAll a fs exit).2.Follows vs k r ds := by
  induction fs with
  | nil => exact fun _ h _ => h
  | cons f fs ih =>
    intro m exit h hf
    exact ih _ (h.leaveFrame a (hf f List.mem_cons_self) exit) fun g hg =>
      hf g (List.mem_cons_of_mem f hg)

/-! ## Tasks on workers -/

/-- A worker has taken a turn. -/
theorem Follows.withTurn (h : m.Follows vs k r ds) {p : Nat} {q : Pool (Job (Task ν))}
    (hq : m.pool? p = some q) {s : Pool.Turn (Job (Task ν)) × Pool (Job (Task ν))}
    (hs : q.Receives s.2 []) : (m.withTurn p s).Follows vs k r ds := by
  have hput : ({ m with network := m.network.setPool p s.2 } : Plant ν).Follows vs k r ds :=
    { h with network := h.network.setPool hq hs (List.forall_mem_nil _) }
  unfold Plant.withTurn
  dsimp only
  split
  · exact hput.quiet (quiet_discard _ _)
  · exact hput

theorem Follows.endRun (h : m.Follows vs k r ds) (w : WorkerId) (exit : Exit ν) :
    (m.endRun w exit).Follows vs k r ds := by
  unfold Plant.endRun
  split
  case h_2 => exact h
  case h_1 p j hp hph =>
    obtain ⟨q, x, hq, hx, -⟩ := exists_of_phase? hph
    cases hp.symm.trans hq
    dsimp only
    refine h.withTurn hp ?_
    have hends : ∀ fatal : Bool, p.Receives (if fatal = true then p.die w.worker (Kinded.kind j)
        else p.finish w.worker (Kinded.kind j)).2 [] := by
      intro fatal
      cases fatal with
      | true => exact Pool.receives_die hx _
      | false => exact Pool.receives_finish hx _
    exact hends _

theorem Follows.endBody (h : m.Follows vs k r ds) (w : WorkerId) (exit : Exit ν) :
    (m.endBody w exit).Follows vs k r ds := by
  have hbare := h.setStack (.worker w) (List.forall_mem_nil _)
  exact (hbare.leaveAll (.worker w) exit (h.stack _)).endRun w _

/-- The views that a job of a worker passed are those of the chart. -/
theorem Follows.passed (h : m.Follows vs k r ds) {w : WorkerId} {j : Job (Task ν)}
    (hj : m.network.taskAt w = some j) : ∀ u ∈ j.views, u.On vs := by
  obtain ⟨p, hp, ht⟩ := Option.bind_eq_some_iff.mp hj
  exact ((h.network.pooled w.pool p hp).running ht).fits.charted

theorem Follows.startRun (h : m.Follows vs k r ds) {w : WorkerId} {j : Job (Task ν)}
    (hj : m.network.taskAt w = some j) : (m.startRun w j).Follows vs k r ds := by
  unfold Plant.startRun
  dsimp only
  split
  case h_1 p ambient _ =>
    have hput := ((h.ambient (.worker w) ambient).collectNotes (.worker w)).quiet
      (quiet_discard _ j.task)
    exact hput.endRun w _
  case h_2 token ambient _ =>
    obtain ⟨hscope, hon, -, -⟩ := enterViews_on j.views [.context j.task.context token]
      (h.passed hj) (h.scope (.worker w)) fun f hf => by
        rw [List.mem_singleton.mp hf]
        exact trivial
    have hbody := covers_bodyFrames j.task ⟨hon, fun _ _ => rfl, fun _ => rfl⟩
    exact ((h.setThread (.worker w) hscope hbody.on).collectNotes _).onTask _ _

end Workforce.Plant
