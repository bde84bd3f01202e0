import Workforce.Proofs.Pool.Holdings
import Workforce.Proofs.Traffic.Performs

/-
  Routes. A job on its way carries the views that it has passed, and the dispatcher where it is
  leads through the views that it has still to pass; together they are the route on which its task
  was called. Views are numbered as they are made and stand on earlier ones, so every route goes
  down in numbers: a job that waits at a gate has passed only views with greater numbers.

  `charted_run`: this holds of every job in every run.
-/

namespace Workforce

namespace Traffic

variable {τ : Type}

/-- A view of the traffic. -/
def Known (s : Traffic τ) (v : View) : Prop := s.views[v.id]? = some v

/-- A way down to the pool. -/
structure Chain (s : Traffic τ) (vs : List View) : Prop where
  known : ∀ v ∈ vs, s.Known v
  sorted : vs.Pairwise fun a b => b.id < a.id

/-- A task was called on a route. -/
def Called (s : Traffic τ) (t : τ) (route : List View) : Prop := .called t route ∈ s.log

/-- A chore is about views of the traffic, and about jobs on their routes. -/
def Fits (s : Traffic τ) : Chore τ → Prop
  | .submit d j _ => s.Called j.task (j.views.reverse ++ d.views)
  | .forward d j _ => s.Called j.task (j.views.reverse ++ d.views)
  | .requeue k j => s.Called k.task k.views.reverse ∧ s.Called j.task j.views.reverse
  | .body _ j => s.Called j.task j.views.reverse
  | .next v => s.Known v
  | .release v => s.Known v
  | .raise v => s.Known v
  | .lower v => s.Known v
  | _ => True

/-- Every job that waits at a gate is on its route. -/
def GatesFit (s : Traffic τ) (gs : List (Gate (Job τ))) : Prop :=
  ∀ (i : Nat) (x : Gate (Job τ)), gs[i]? = some x → ∀ j ∈ x.queue,
    ∃ v : View, s.views[i]? = some v ∧ s.Called j.task (j.views.reverse ++ v.toDispatcher.views)

/-- All jobs are on their routes. -/
structure Charted (s : Traffic τ) : Prop where
  size : s.views.length = s.gates.length
  numbered : ∀ (i : Nat) (v : View), s.views[i]? = some v → v.id = i
  chains : ∀ v, s.Known v → s.Chain v.toDispatcher.views
  routes : ∀ t route, s.Called t route → s.Chain route
  queued : s.pool.AllWaiting fun j => s.Called j.task j.views.reverse
  gated : s.GatesFit s.gates
  chores : ∀ cs ∈ s.threads, ∀ c ∈ cs, s.Fits c

/-! ## Growth -/

/-- Views and calls are not forgotten. -/
structure Grows (s s' : Traffic τ) : Prop where
  known : ∀ v, s.Known v → s'.Known v
  called : ∀ t route, s.Called t route → s'.Called t route

theorem Chain.grow {s s' : Traffic τ} {vs : List View} (h : s.Chain vs) (hg : Grows s s') :
    s'.Chain vs :=
  ⟨fun v hv => hg.known v (h.known v hv), h.sorted⟩

theorem Fits.grow {s s' : Traffic τ} {c : Chore τ} (h : s.Fits c) (hg : Grows s s') :
    s'.Fits c := by
  cases c with
  | submit d j slot => exact hg.called _ _ h
  | forward d j n => exact hg.called _ _ h
  | requeue k j => exact ⟨hg.called _ _ h.1, hg.called _ _ h.2⟩
  | body w j => exact hg.called _ _ h
  | next v => exact hg.known v h
  | release v => exact hg.known v h
  | raise v => exact hg.known v h
  | lower v => exact hg.known v h
  | raiseWorker w => trivial
  | lowerWorker w => trivial
  | flush w => trivial
  | finish w outcome fatal => trivial

theorem grows_log {s s' : Traffic τ} (hv : s'.views = s.views) {es : List (Event τ)}
    (hl : s'.log = s.log ++ es) : Grows s s' := by
  constructor
  · intro v h
    unfold Known
    rw [hv]
    exact h
  · intro t route h
    unfold Called
    rw [hl]
    exact List.mem_append_left es h

/-! ## Chores -/

theorem known_of_called {s : Traffic τ} (h : s.Charted) {j : Job τ} {vs : List View}
    (hj : s.Called j.task (j.views.reverse ++ vs)) {v : View} (hv : v ∈ j.views) : s.Known v :=
  (h.routes _ _ hj).known v (List.mem_append_left vs (List.mem_reverse.mpr hv))

/-- Passing a view goes one step further on the route. -/
theorem called_admittedBy {s : Traffic τ} {j : Job τ} {v : View}
    (h : s.Called j.task (j.views.reverse ++ v.toDispatcher.views)) :
    s.Called (j.admittedBy v).task ((j.admittedBy v).views.reverse ++ v.parent.views) := by
  have he : (j.admittedBy v).views.reverse ++ v.parent.views =
      j.views.reverse ++ v.toDispatcher.views := by
    rw [Dispatcher.views_toDispatcher, Job.admittedBy, List.reverse_cons, List.append_assoc]
    rfl
  rw [he]
  exact h

/-- Before the pool, a job has passed all views of its route. -/
theorem called_pool {s : Traffic τ} {j : Job τ} {i core : Nat}
    (h : s.Called j.task (j.views.reverse ++ (Dispatcher.pool i core).views)) :
    s.Called j.task j.views.reverse := by
  rw [Dispatcher.views, List.append_nil] at h
  exact h

theorem gatesFit_set {s : Traffic τ} {gs : List (Gate (Job τ))} (h : s.GatesFit gs) {i : Nat}
    {x y : Gate (Job τ)} (hx : gs[i]? = some x) (hy : ∀ j ∈ y.queue, j ∈ x.queue ∨
      ∃ v, s.views[i]? = some v ∧ s.Called j.task (j.views.reverse ++ v.toDispatcher.views)) :
    s.GatesFit (gs.set i y) := by
  intro k z hz j hj
  rw [List.getElem?_set] at hz
  split at hz
  case isTrue hi =>
    subst hi
    split at hz
    · cases hz
      rcases hy j hj with hm | hr
      · exact h i x hx j hm
      · exact hr
    · cases hz
  case isFalse => exact h k z hz j hj

theorem gatesFit_same {s : Traffic τ} {gs : List (Gate (Job τ))} (h : s.GatesFit gs) {i : Nat}
    {x y : Gate (Job τ)} (hx : gs[i]? = some x) (hy : y.queue = x.queue) :
    s.GatesFit (gs.set i y) :=
  gatesFit_set h hx fun _ hj => Or.inl (hy ▸ hj)

/-- A job waits at the next view of its route. -/
theorem gatesFit_wait {s : Traffic τ} (h : s.Charted) {v : View} {x : Gate (Job τ)}
    (hx : s.gates[v.id]? = some x) {j : Job τ}
    (hj : s.Called j.task (j.views.reverse ++ v.toDispatcher.views)) :
    s.GatesFit (s.gates.set v.id { x with queue := x.queue ++ [j] }) := by
  have hv : s.Known v := (h.routes _ _ hj).known v (by simp [Dispatcher.views_toDispatcher])
  refine gatesFit_set h.gated hx fun k hk => ?_
  rcases List.mem_append.mp hk with hk | hk
  · exact Or.inl hk
  · rw [List.mem_singleton.mp hk]
    exact Or.inr ⟨v, hv, hj⟩

theorem fits_releases {s : Traffic τ} {vs : List View} (h : ∀ v ∈ vs, s.Known v) :
    ∀ c ∈ vs.map Chore.release, s.Fits c := by
  intro c hc
  obtain ⟨v, hv, rfl⟩ := List.mem_map.mp hc
  exact h v hv

theorem fits_next {s : Traffic τ} {vs : List View} (h : ∀ v ∈ vs, s.Known v) (n : Nat) :
    ∀ c ∈ (vs[n]?).toList.map Chore.next, s.Fits c := by
  intro c hc
  obtain ⟨v, hv, rfl⟩ := List.mem_map.mp hc
  exact h v (List.mem_of_getElem? (Option.mem_toList.mp hv))

variable [Kinded τ]

/-- What a chore leaves behind is on its route. -/
structure DeedFits (s : Traffic τ) (d : Deed τ) : Prop where
  size : d.gates.length = s.gates.length
  queued : d.pool.AllWaiting fun j => s.Called j.task j.views.reverse
  gated : s.GatesFit d.gates
  todo : ∀ c ∈ d.todo, s.Fits c

omit [Kinded τ] in
theorem fits_turn {s : Traffic τ} {w : Nat} {r : Pool.Turn (Job τ)}
    (h : ∀ j, r.lifted = some j → s.Called j.task j.views.reverse) :
    ∀ c ∈ turnChores w r, s.Fits c := by
  intro c hc
  cases r with
  | runs j =>
    rw [turnChores] at hc
    rw [List.mem_singleton.mp hc]
    exact h j rfl
  | rests => cases hc
  | leaves o => cases hc

theorem deedFits {s : Traffic τ} (h : s.Charted) {c : Chore τ} {d : Deed τ} (hp : Performs s c d)
    (hc : s.Fits c) : s.DeedFits d := by
  cases hp with
  | idle => exact ⟨rfl, h.queued, h.gated, by simpa [idle] using hc⟩
  | @accepted _ _ j p ha =>
    exact ⟨rfl, h.queued.add (called_pool hc) (Pool.holding_accept _ _ ha), h.gated, by simp⟩
  | placed ho hw _ _ => exact ⟨rfl, (h.queued.place hw ho (called_pool hc)).1, h.gated, by simp⟩
  | @displaced _ _ w j k x ho hw _ hs =>
    obtain ⟨hq, hk⟩ := h.queued.place hw ho (called_pool hc)
    refine ⟨rfl, hq, h.gated, ?_⟩
    intro c hm
    rw [List.mem_singleton.mp hm]
    exact ⟨hk k hs, called_pool hc⟩
  | refused =>
    exact ⟨rfl, h.queued, h.gated, fits_releases fun v hv => known_of_called h hc hv⟩
  | @entered v j slot x hg _ =>
    refine ⟨List.length_set, h.queued, gatesFit_same h.gated hg rfl, ?_⟩
    intro c hm
    rw [List.mem_singleton.mp hm]
    exact called_admittedBy hc
  | waits hg _ => exact ⟨List.length_set, h.queued, gatesFit_wait h hg hc, by simp⟩
  | @requeued k j p ha =>
    exact ⟨rfl, h.queued.add hc.1 (Pool.holding_accept _ _ ha), h.gated, by simp⟩
  | @cut k j _ =>
    have hj : s.Called j.task (j.views.reverse ++ []) := by simpa using hc.2
    exact ⟨rfl, h.queued, h.gated, fits_releases fun v hv => known_of_called h hj hv⟩
  | @handed _ _ n j p ha =>
    exact ⟨rfl, h.queued.add (called_pool hc) (Pool.holding_submitAccepted _ _ ha), h.gated,
      fits_next (fun v hv => known_of_called h hc hv) _⟩
  | @passed v j n x hg _ =>
    refine ⟨List.length_set, h.queued, gatesFit_same h.gated hg rfl, ?_⟩
    intro c hm
    rw [List.mem_singleton.mp hm]
    exact called_admittedBy hc
  | waitsAgain hg _ =>
    exact ⟨List.length_set, h.queued, gatesFit_wait h hg hc,
      fits_next (fun v hv => known_of_called h hc hv) _⟩
  | @discarded _ _ n j _ =>
    exact ⟨rfl, h.queued, h.gated, fits_releases fun v hv =>
      known_of_called h hc (List.mem_of_mem_take hv)⟩
  | @settled c v change es x hs hg _ =>
    exact ⟨List.length_set, h.queued, gatesFit_same h.gated hg (hs.queue x), by simp⟩
  | @admits c v change es x j rest hs hg hq _ =>
    have hv : s.Known v := by cases hs <;> exact hc
    have hxq : x.queue = j :: rest := (hs.queue x).symm.trans hq
    refine ⟨List.length_set, h.queued, gatesFit_set h.gated hg fun k hk => ?_, ?_⟩
    · exact Or.inl (by rw [hxq]; exact List.mem_cons_of_mem j hk)
    · obtain ⟨u, hu, hr⟩ := h.gated v.id x hg j (by rw [hxq]; exact List.mem_cons_self)
      have huv : u = v := Option.some.inj (hu.symm.trans hv)
      intro c hm
      rw [List.mem_singleton.mp hm]
      exact called_admittedBy (huv ▸ hr)
  | missing => exact ⟨rfl, h.queued, h.gated, by simp⟩
  | lowered hg => exact ⟨List.length_set, h.queued, gatesFit_same h.gated hg rfl, by simp⟩
  | unlowered => exact ⟨rfl, h.queued, h.gated, by simp⟩
  | raisedWorker => exact ⟨rfl, h.queued.same (Pool.holding_raise ..), h.gated, by simp⟩
  | loweredWorker => exact ⟨rfl, h.queued.same (Pool.holding_lower ..), h.gated, by simp⟩
  | flushed => exact ⟨rfl, h.queued.same (Pool.holding_flush ..), h.gated, by simp⟩
  | unflushed => exact ⟨rfl, h.queued, h.gated, by simp⟩
  | unfinished => exact ⟨rfl, h.queued, h.gated, by simp⟩
  | finished hw _ =>
    obtain ⟨hq, hl⟩ := h.queued.turn (Pool.turnLaw_finish _ _ hw _)
    exact ⟨rfl, hq, h.gated, fits_turn hl⟩
  | @died w outcome x j hw _ =>
    obtain ⟨hq, hl⟩ := h.queued.turn (Pool.turnLaw_die _ _ hw (Kinded.kind j))
    exact ⟨rfl, hq, h.gated, fits_turn (w := w) hl⟩

/-! ## Acts -/

omit [Kinded τ] in
/-- The way down from a dispatcher of the traffic. -/
theorem chain_dispatcher {s : Traffic τ} (h : s.Charted) {n : Option Nat} {d : Dispatcher}
    (hd : s.dispatcher? n = some d) : s.Chain d.views := by
  cases n with
  | none =>
    cases hd
    exact ⟨by simp [Dispatcher.views], List.Pairwise.nil⟩
  | some i =>
    cases hv : s.views[i]? with
    | none =>
      rw [dispatcher?, hv] at hd
      cases hd
    | some v =>
      rw [dispatcher?, hv] at hd
      cases hd
      refine h.chains v ?_
      unfold Known
      rw [h.numbered i v hv]
      exact hv

omit [Kinded τ] in
theorem known_numbered {s : Traffic τ} (h : s.Charted) {vs : List Nat} {v : View}
    (hv : v ∈ vs.filterMap fun i => s.views[i]?) : s.Known v := by
  obtain ⟨i, -, hi⟩ := List.mem_filterMap.mp hv
  unfold Known
  rw [h.numbered i v hi]
  exact hi

omit [Kinded τ] in
theorem Known.id_lt {s : Traffic τ} (h : s.Charted) {v : View} (hv : s.Known v) :
    v.id < s.gates.length := by
  obtain ⟨hi, -⟩ := List.getElem?_eq_some_iff.mp hv
  rw [← h.size]
  exact hi

/-- A call that is new is one on a dispatcher. -/
theorem Steps.called_cases {s s' : Traffic τ} {a : Act τ} (h : Steps s a s') {t : τ}
    {route : List View} (hc : s'.Called t route) :
    s.Called t route ∨ ∃ n d, s.dispatcher? n = some d ∧ route = d.views := by
  rcases h.logs hc with hm | hl
  · exact .inl hm
  · cases hl with
    | called hd => exact .inr ⟨_, _, hd, rfl⟩
    | calledFrom hd => exact .inr ⟨_, _, hd, rfl⟩
    | began _ _ he => cases not_rare_turn _ _ _ he
    | resumed _ _ he => cases not_rare_turn _ _ _ he
    | performed _ hp he => exact absurd rfl ((hp.rare he rfl).2.2 t route)
    | terminated he => cases not_rare_lost _ _ _ he

theorem Steps.grows {s s' : Traffic τ} {a : Act τ} (h : Steps s a s') : Grows s s' := by
  cases h with
  | built => exact ⟨fun v hv => View.On.append hv _, fun _ _ hc => hc⟩
  | called => exact grows_log rfl rfl
  | calledFrom => exact grows_log rfl rfl
  | barred => exact grows_log rfl rfl
  | began => exact grows_log rfl rfl
  | resumed => exact grows_log rfl rfl
  | goes => exact grows_log rfl rfl
  | terminated => exact grows_log rfl rfl
  | _ => exact ⟨fun _ hv => hv, fun _ _ hc => hc⟩

/-- Every chore is about views of the traffic and about jobs on their routes. -/
theorem Steps.fits {s s' : Traffic τ} {a : Act τ} (hs : Steps s a s') (h : s.Charted)
    {c : Chore τ} (hc : c ∈ s'.threads.flatten) : s'.Fits c := by
  have hold : ∀ e ∈ s.threads.flatten, s.Fits e := by
    intro e he
    obtain ⟨cs, hcs, he⟩ := List.mem_flatten.mp he
    exact h.chores cs hcs e he
  rcases hs.chore hc with hm | hb
  · exact (hold c hm).grow hs.grows
  · cases hb with
    | called _ hl => exact hl
    | calledFrom _ hl => exact hl
    | flushes => trivial
    | raisesWorker => trivial
    | raises hv => exact hs.grows.known _ (known_numbered h hv)
    | lowersWorker => trivial
    | lowers hv => exact hs.grows.known _ (known_numbered h hv)
    | @releases i w j rest _ _ _ v hi hv =>
      have hj : s.Called j.task j.views.reverse :=
        hold (.body w j) (mem_thread hi List.mem_cons_self)
      rw [← List.append_nil j.views.reverse] at hj
      exact hs.grows.known v (known_of_called h hj hv)
    | finishes => trivial
    | began hw _ hj =>
      have hq := (h.queued.turn (Pool.turnLaw_begin _ _ hw)).2
      exact hs.grows.called _ _ (hq _ (Pool.Turn.lifted_of_started hj))
    | @resumed _ timedOut _ _ _ hw _ hj =>
      have hq := (h.queued.turn (Pool.turnLaw_resume _ _ hw timedOut)).2
      exact hs.grows.called _ _ (hq _ (Pool.Turn.lifted_of_started hj))
    | left hi hp he =>
      have hd := deedFits h hp (hold _ (mem_thread hi List.mem_cons_self))
      exact (hd.todo c he).grow hs.grows

/-- An act that makes no view keeps jobs on their routes, if it does so for those that wait. -/
theorem Charted.advance {s s' : Traffic τ} {a : Act τ} (h : s.Charted) (hs : Steps s a s')
    (hv : s'.views = s.views) (hsize : s'.gates.length = s.gates.length)
    (hq : s'.pool.AllWaiting fun j => s.Called j.task j.views.reverse)
    (hg : s.GatesFit s'.gates) : s'.Charted := by
  refine ⟨?_, ?_, fun v hk => ?_, fun t route hm => ?_, ?_, fun i x hx j hj => ?_,
    fun cs hcs c hc => hs.fits h (List.mem_flatten.mpr ⟨cs, hcs, hc⟩)⟩
  · rw [hv, hsize]
    exact h.size
  · rw [hv]
    exact h.numbered
  · unfold Known at hk
    rw [hv] at hk
    exact (h.chains v hk).grow hs.grows
  · rcases hs.called_cases hm with hm | ⟨n, d, hd, rfl⟩
    · exact (h.routes t route hm).grow hs.grows
    · exact (chain_dispatcher h hd).grow hs.grows
  · exact hq.imp fun j hj => hs.grows.called _ _ hj
  · obtain ⟨v, hi, hr⟩ := hg i x hx j hj
    refine ⟨v, ?_, hs.grows.called _ _ hr⟩
    rw [hv]
    exact hi

omit [Kinded τ] in
/-- A new view stands on a dispatcher of the traffic. -/
theorem charted_built {s : Traffic τ} (h : s.Charted) {n : Option Nat} {parent : Dispatcher}
    {mode : Mode} {base : Nat} (hd : s.dispatcher? n = some parent) : Charted { s with
      views := s.views ++ [⟨s.gates.length, mode, base, parent⟩]
      gates := s.gates ++ [{ limit := base }] } := by
  have hgrow : Grows s { s with
      views := s.views ++ [⟨s.gates.length, mode, base, parent⟩]
      gates := s.gates ++ [{ limit := base }] } := by
    refine ⟨fun v hv => ?_, fun _ _ hc => hc⟩
    exact View.On.append hv _
  have hchain := chain_dispatcher h hd
  refine ⟨?_, ?_, ?_, fun t route hc => (h.routes t route hc).grow hgrow, h.queued, ?_,
    fun cs hcs c hc => (h.chores cs hcs c hc).grow hgrow⟩
  · simp [h.size]
  · intro i v hi
    rcases getElem?_concat_cases hi with hold | ⟨rfl, rfl⟩
    · exact h.numbered i v hold
    · exact h.size.symm
  · intro v hv
    rcases getElem?_concat_cases hv with hi | ⟨-, rfl⟩
    · exact (h.chains v hi).grow hgrow
    · rw [Dispatcher.views_toDispatcher]
      refine ⟨fun u hu => ?_, List.pairwise_cons.mpr ⟨fun u hu => ?_, hchain.sorted⟩⟩
      · rcases List.mem_cons.mp hu with rfl | hu
        · exact hv
        · exact hgrow.known u (hchain.known u hu)
      · exact (hchain.known u hu).id_lt h
  · intro i x hx j hj
    rcases getElem?_concat_cases hx with hx | ⟨-, rfl⟩
    · obtain ⟨v, hi, hr⟩ := h.gated i x hx j hj
      have hk : s.Known v := by
        unfold Known
        rw [h.numbered i v hi]
        exact hi
      have hk' := hgrow.known v hk
      unfold Known at hk'
      rw [h.numbered i v hi] at hk'
      exact ⟨v, hk', hr⟩
    · cases hj

theorem charted_step {s : Traffic τ} (h : s.Charted) (a : Act τ) : (s.step a).Charted := by
  have hs := steps s a
  generalize s.step a = s' at hs
  have hadvance := h.advance hs
  cases hs with
  | built hd _ => exact charted_built h hd
  | began hw _ => exact hadvance rfl rfl (h.queued.turn (Pool.turnLaw_begin _ _ hw)).1 h.gated
  | resumed hw _ => exact hadvance rfl rfl (h.queued.turn (Pool.turnLaw_resume _ _ hw _)).1 h.gated
  | @goes i c rest d hi hp =>
    have hf : s.Fits c := h.chores _ (List.mem_of_getElem? hi) c List.mem_cons_self
    have hd := deedFits h hp hf
    exact hadvance rfl hd.size hd.queued hd.gated
  | closed => exact hadvance rfl rfl (h.queued.same (Pool.holding_beginClose ..)) h.gated
  | terminated => exact hadvance rfl rfl h.queued.terminate h.gated
  | _ => exact hadvance rfl rfl h.queued h.gated

/-- All jobs are on their routes in every run. -/
theorem charted_run (c : Config) (as : List (Act τ)) : ((start c).run as).Charted := by
  have hpool : (start c : Traffic τ).pool.AllWaiting
      fun j => (start c : Traffic τ).Called j.task j.views.reverse := by
    refine Pool.allWaiting_iff.mpr ?_
    exact Pool.holding_ofConfig _ _ c
  have hs : (start c : Traffic τ).Charted := by
    refine ⟨rfl, ?_, ?_, ?_, hpool, ?_, ?_⟩
    · intro i v hv
      simp [start] at hv
    · intro v hv
      simp [Known, start] at hv
    · intro t route hc
      simp [Called, start] at hc
    · intro i x hx
      simp [start] at hx
    · intro cs hcs
      simp [start] at hcs
  exact List.foldlRecOn (motive := Charted) as step hs fun _ hs a _ => charted_step hs a

end Traffic

end Workforce
