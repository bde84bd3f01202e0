import Mathlib.Data.List.Count
import Workforce.Proofs.Plant.Scopes
import Workforce.Proofs.Traffic.Guarded

/-
  Nests of soft views. The compensator of a guarded call is that of its worker with all views of its
  job around it, so a level is raised once for each call of a task that was submitted through it
  or through a view below it. Between compensator calls nothing is under way, and what calls are
  owed shows in the limits (`Even.limits`), but for what a worker is not granted
  (`Compensated.limit_add`).

  `compensation_nested` puts this together with the scopes that bodies find on their threads.
-/

namespace Workforce

variable {τ : Type}

/-! ## Levels of a nest -/

/-- No limit is being raised or lowered. -/
def Guarded.Between (s : Guarded τ) : Prop := ∀ c ∈ s.traffic.threads.flatten, c.Still

instance (c : Chore τ) : Decidable c.Still := inferInstanceAs (Decidable (_ ∧ _))

instance (s : Guarded τ) : Decidable s.Between := inferInstanceAs (Decidable (∀ _ ∈ _, _))

namespace Guarded

/-- How many calls have their compensation outstanding. -/
def outstanding (s : Guarded τ) : Nat := s.calls.countP fun b => b.call.outstanding

/-- How many of these block a worker. -/
def outstandingOn (s : Guarded τ) (w : Nat) : Nat :=
  s.calls.countP fun b => b.worker = w && b.call.outstanding

/-- How many of these are calls of tasks that were submitted through a view or a view below it. -/
def outstandingIn (s : Guarded τ) (v : View) : Nat :=
  s.calls.countP fun b => b.job.views.contains v && b.call.outstanding

/-- How many raises the pool does not grant, as no worker is granted more than the pool may have
workers. -/
def heldBack (s : Guarded τ) (c : Config) : Nat :=
  ((List.range s.traffic.pool.spawned).map fun w => s.outstandingOn w - c.max).sum

end Guarded

namespace BodyCall

variable {s : Traffic τ} {b : BodyCall τ}

/-- Inside soft views a call raises its worker and each of the views. -/
theorem Made.levels_eq (h : b.Made s) (hs : ∀ v ∈ b.job.views, v.mode = .soft) :
    b.call.scope = some (.available { worker := some ⟨0, b.worker⟩, views := b.job.views }) ∧
      b.levels = .worker b.worker :: b.job.views.map fun v => .view v.id := by
  have hscope : b.call.scope =
      some (.available { worker := some ⟨0, b.worker⟩, views := b.job.views }) := by
    rw [h.scope]
    exact View.scopeWithinAll_soft hs _
  refine ⟨hscope, ?_⟩
  rw [levels, hscope]
  rfl

theorem Made.chain (h : b.Made s) (hc : s.Charted) :
    (∀ v ∈ b.job.views, s.Known v) ∧ (b.job.views.map View.id).Nodup := by
  have hchain := hc.routes _ _ h.called
  refine ⟨fun v hv => hchain.known v (List.mem_reverse.mpr hv), ?_⟩
  have hsorted : b.job.views.Pairwise fun a b => a.id < b.id :=
    List.pairwise_reverse.mp hchain.sorted
  exact List.pairwise_map.mpr (hsorted.imp fun hlt => Nat.ne_of_lt hlt)

/-- A view of the traffic is raised once for a call inside it. -/
theorem Made.count_view (h : b.Made s) (hc : s.Charted) (hs : ∀ v ∈ b.job.views, v.mode = .soft)
    {v : View} (hv : s.Known v) :
    b.levels.count (.view v.id) = if b.job.views.contains v = true then 1 else 0 := by
  obtain ⟨hknown, hnodup⟩ := h.chain hc
  have hmem : (b.job.views.map View.id).contains v.id = b.job.views.contains v := by
    rw [Bool.eq_iff_iff, List.contains_iff_mem, List.contains_iff_mem]
    constructor
    · intro hm
      obtain ⟨u, hu, he⟩ := List.mem_map.mp hm
      have hku : s.views[u.id]? = some u := hknown u hu
      rw [he] at hku
      cases hku.symm.trans hv
      exact hu
    · exact List.mem_map_of_mem
  rw [(h.levels_eq hs).2, List.count_cons_of_ne (fun he => by cases he)]
  have hcount : (b.job.views.map fun u => Level.view u.id).count (.view v.id) =
      (b.job.views.map View.id).count v.id := by
    have hinj : Function.Injective Level.view := fun i j he => by
      cases he
      rfl
    rw [← List.count_map_of_injective _ Level.view hinj, List.map_map]
    rfl
  rw [hcount, hnodup.count, ← hmem]
  simp only [List.contains_iff_mem]

/-- The pool is raised once for a call, on behalf of its worker. -/
theorem Made.count_worker (h : b.Made s) (hs : ∀ v ∈ b.job.views, v.mode = .soft) (w : Nat) :
    b.levels.count (.worker w) = if b.worker = w then 1 else 0 := by
  have hnone : (b.job.views.map fun v => Level.view v.id).count (.worker w) = 0 := by
    refine List.count_eq_zero.mpr fun hm => ?_
    obtain ⟨v, -, hv⟩ := List.mem_map.mp hm
    cases hv
  rw [(h.levels_eq hs).2, List.count_cons, hnone, Nat.zero_add]
  simp only [beq_iff_eq, Level.worker.injEq]

end BodyCall

/-! ## Pools -/

namespace Pool

/-- A pool grants each worker no more raises than it may have workers. -/
theorem Compensated.limit_add {c : Config} {p : Pool τ} {out : Nat → Nat}
    (h : Compensated c p out) :
    p.limit + ((List.range p.spawned).map fun w => out w - c.max).sum =
      c.core + ((List.range p.spawned).map out).sum := by
  have hgranted : p.accounts.map Prod.fst = (List.range p.spawned).map fun w => min (out w) c.max := by
    refine List.ext_getElem (by simp [accounts, spawned]) fun w hw hw' => ?_
    rw [List.length_map] at hw
    obtain ⟨hsum, hcap, hover⟩ := h.account w _ (List.getElem?_eq_getElem hw)
    rw [List.getElem_map, List.getElem_map, List.getElem_range]
    omega
  rw [h.limit, hgranted, Nat.add_assoc, ← List.sum_map_add]
  refine congrArg (c.core + ·) (congrArg List.sum (List.map_congr_left fun w _ => ?_))
  omega

end Pool

/-! ## Limits between compensator calls -/

namespace Guarded

variable {k : Config} {s : Guarded τ}

theorem load_of_between (h : s.Between) {w : Chore τ → Nat} (hw : LevelWeight w) :
    s.traffic.load w = 0 := Traffic.load_eq_zero fun c hc => hw c (h c hc)

/-- Between compensator calls levels stand as high as calls raise them. -/
theorem Even.stands_owed (h : s.Even k) (hb : s.Between) : s.traffic.Stands k s.owed := by
  obtain ⟨g, hs, hg⟩ := h.stands
  have he : g = s.owed := by
    funext l
    have hl := hg l
    rw [load_of_between hb (levelWeight_up l), load_of_between hb (levelWeight_down l)] at hl
    exact hl
  rw [← he]
  exact hs

theorem Even.soft (h : s.Even k) (hs : ∀ v ∈ s.traffic.views, v.mode = .soft) {b : BodyCall τ}
    (hb : b ∈ s.calls) : ∀ v ∈ b.job.views, v.mode = .soft := fun v hv =>
  hs v (List.mem_of_getElem? (((h.made b hb).chain h.charted).1 v hv))

theorem Even.owed_view (h : s.Even k) (hs : ∀ v ∈ s.traffic.views, v.mode = .soft) {v : View}
    (hv : s.traffic.Known v) : s.owed (.view v.id) = s.outstandingIn v := by
  unfold owed outstandingIn
  have hmap : s.calls.map (BodyCall.owes (.view v.id)) = s.calls.map fun b =>
      if (b.job.views.contains v && b.call.outstanding) = true then 1 else 0 := by
    refine List.map_congr_left fun b hb => ?_
    rw [BodyCall.owes, (h.made b hb).count_view h.charted (h.soft hs hb) hv]
    cases b.call.outstanding <;> cases b.job.views.contains v <;> rfl
  rw [hmap, sum_map_ite]
  simp only [Bool.decide_eq_true]

theorem Even.owed_worker (h : s.Even k) (hs : ∀ v ∈ s.traffic.views, v.mode = .soft) (w : Nat) :
    s.owed (.worker w) = s.outstandingOn w := by
  unfold owed outstandingOn
  have hmap : s.calls.map (BodyCall.owes (.worker w)) = s.calls.map fun b =>
      if (decide (b.worker = w) && b.call.outstanding) = true then 1 else 0 := by
    refine List.map_congr_left fun b hb => ?_
    rw [BodyCall.owes, (h.made b hb).count_worker (h.soft hs hb)]
    by_cases hw : b.worker = w <;> cases b.call.outstanding <;> simp [hw]
  rw [hmap, sum_map_ite]
  simp only [Bool.decide_eq_true]

/-- Every call blocks one worker of the pool. -/
theorem Even.sum_outstandingOn (h : s.Even k) :
    ((List.range s.traffic.pool.spawned).map s.outstandingOn).sum = s.outstanding := by
  have hon : ∀ w, s.outstandingOn w = (s.calls.map fun b =>
      if b.worker = w then (if b.call.outstanding = true then 1 else 0) else 0).sum := by
    intro w
    have hcount := sum_map_ite (fun b : BodyCall τ =>
      (decide (b.worker = w) && b.call.outstanding) = true) s.calls
    simp only [Bool.decide_eq_true] at hcount
    rw [outstandingOn, ← hcount]
    refine congrArg List.sum (List.map_congr_left fun b _ => ?_)
    by_cases hw : b.worker = w <;> simp [hw]
  have hall := sum_keys (fun b : BodyCall τ => b.worker)
    (fun b => if b.call.outstanding = true then 1 else 0) s.calls s.traffic.pool.spawned
  have hborn : (s.calls.map fun b => if b.worker < s.traffic.pool.spawned then
      (if b.call.outstanding = true then 1 else 0) else 0) =
      s.calls.map fun b => if b.call.outstanding = true then 1 else 0 :=
    List.map_congr_left fun b hb => if_pos (h.made b hb).born
  rw [hborn, sum_map_ite] at hall
  simp only [Bool.decide_eq_true] at hall
  rw [outstanding, ← hall]
  exact congrArg List.sum (List.map_congr_left fun w _ => hon w)

/-- Between compensator calls every limit shows what calls are owed. -/
theorem Even.limits (h : s.Even k) (hb : s.Between) (hs : ∀ v ∈ s.traffic.views, v.mode = .soft) :
    (∀ v ∈ s.traffic.views, ∃ x, s.traffic.gates[v.id]? = some x ∧
        x.limit = v.base + s.outstandingIn v) ∧
      s.traffic.pool.limit + s.heldBack k = k.core + s.outstanding := by
  have hstands := h.stands_owed hb
  refine ⟨fun v hv => ?_, ?_⟩
  · obtain ⟨i, hi⟩ := List.getElem?_of_mem hv
    have hk : s.traffic.Known v := by
      rw [Traffic.Known, h.charted.numbered i v hi]
      exact hi
    obtain ⟨x, hx, hl⟩ := hstands.gates v.id v hk
    exact ⟨x, hx, hl.trans (congrArg (v.base + ·) (h.owed_view hs hk))⟩
  · have hpool := hstands.pool.limit_add
    simp only [h.owed_worker hs] at hpool
    rw [h.sum_outstandingOn] at hpool
    exact hpool

end Guarded

/-! ## Compensation -/

/-- Guarded calls of tasks of a nest of soft views over a pool, among any threads, are compensated
on all levels around the task and taken back. A body runs inside the views of the route on which
its task was submitted; each of its calls reaches all of them, and is owed nothing once it is
answered. Between compensator calls a view stands above its first limit by the calls inside it
that are outstanding, and the pool by all of them that no worker has in excess.

The scope that such a call finds is that of its views over its worker, whatever else happens to the
threads of a plant: while a body runs, the scope of its worker is made of the views of the job, and
when the body has ended, by returning or by a panic, it is that of the worker alone. -/
theorem compensation_nested :
    (∀ {τ : Type} [Kinded τ] (c : Config) (as : List (Guarded.Act τ)),
      let s := (Guarded.start c).run as
      (∀ w j, .body w j ∈ s.traffic.threads.flatten →
        s.traffic.Called j.task j.views.reverse) ∧
      ((∀ v ∈ s.traffic.views, v.mode = .soft) →
        (∀ b ∈ s.calls, s.traffic.Called b.job.task b.job.views.reverse ∧
          b.call.scope =
            some (.available { worker := some ⟨0, b.worker⟩, views := b.job.views }) ∧
          ∀ r, b.call.stage = .answered r → b.call.outstanding = false) ∧
        (s.Between →
          (∀ v ∈ s.traffic.views, ∃ x, s.traffic.gates[v.id]? = some x ∧
            x.limit = v.base + s.outstandingIn v) ∧
          s.traffic.pool.limit + s.heldBack c = c.core + s.outstanding))) ∧
    ∀ {ν : Type} {cells : Cells} {configs : List Config} {m₀ m : Plant ν},
      Plant.build cells configs = .ok m₀ → Plant.Arises m₀ m → ∀ w : WorkerId,
        ((m.thread (.worker w)).stack = [] → (m.thread (.worker w)).scope = some w.scope) ∧
        ((m.thread (.worker w)).stack ≠ [] → ∃ j, m.phase? w = some (.running j) ∧
          (m.thread (.worker w)).scope = View.scopeWithinAll j.views (some w.scope) ∧
          ((∀ v ∈ j.views, v.mode = .soft) → (m.thread (.worker w)).scope =
            some (.available { worker := some w, views := j.views }))) ∧
        ∀ exit, ((m.endBody w exit).thread (.worker w)).stack = [] ∧
          ((m.endBody w exit).thread (.worker w)).scope = some w.scope := by
  constructor
  · intro τ _ c as s
    have heven : s.Even c := Guarded.even_run c as
    refine ⟨fun w j hm => ?_, fun hs => ⟨fun b hm => ?_, fun hbetween =>
      heven.limits hbetween hs⟩⟩
    · obtain ⟨cs, hcs, hc⟩ := List.mem_flatten.mp hm
      exact heven.charted.chores cs hcs (.body w j) hc
    · have hmade := heven.made b hm
      exact ⟨hmade.called, (hmade.levels_eq (heven.soft hs hm)).1,
        fun r hr => hmade.course.not_outstanding hr⟩
  · intro ν cells configs m₀ m hb h w
    have hscoped := Plant.scoped_of_arises (Plant.scoped_build hb) h
    refine ⟨hscoped.scope_of_nil, fun hw => ?_, fun exit => ?_⟩
    · obtain ⟨j, hj, hscope⟩ := hscoped.running hw
      refine ⟨j, hj, hscope, fun hs => ?_⟩
      rw [hscope]
      exact View.scopeWithinAll_soft hs _
    · obtain ⟨hended, hnil⟩ := hscoped.endBody w exit
      exact ⟨hnil, hended.scope_of_nil hnil⟩

/-- A task of a view inside another one makes two guarded calls, whose raises interleave. -/
def twoCalls : List (Guarded.Act Nat) :=
  [.other (.build none .soft 1), .other (.build (some 0) .soft 1), .other (.call (some 1) 0),
    .other (.go 0), .other (.go 0), .other (.go 0), .other (.begin 0), .guard 1 true ⟨0, 0⟩,
    .guard 1 true ⟨0, 0⟩, .move 0 .go, .move 0 .go, .move 1 .go, .move 1 .go, .other (.go 2),
    .other (.go 3), .other (.go 2), .other (.go 3), .other (.go 3), .other (.go 2)]

/-- A task that waits for its steps goes to a view inside another one, and is started. -/
def innerErrand : List (Operation Nat) :=
  [.perform (.soft 0 1), .perform (.soft 1 1),
    .perform (.launch .submit 2 .cpu "a" none none false), .advance ⟨0, 0⟩, .advance ⟨0, 0⟩]

/-- Of two raises one is held back by the pool, and none by the views; a panic ends the body of the
task and leaves its worker in its own scope. -/
theorem compensation_nested_twoCalls :
    let s := (Guarded.start Traffic.lone).run twoCalls
    let m := Plant.onePool.afterAll innerErrand
    let outer : View := ⟨0, .soft, 1, .pool 0 1⟩
    let inner : View := ⟨1, .soft, 1, outer.toDispatcher⟩
    (∀ v ∈ s.traffic.views, v.mode = .soft) ∧ s.Between ∧
      s.outstanding = 2 ∧ s.heldBack Traffic.lone = 1 ∧ s.traffic.pool.limit = 2 ∧
      (∀ v ∈ [outer, inner], ∃ x, s.traffic.gates[v.id]? = some x ∧ x.limit = 1 + 2) ∧
      Plant.build (fun _ => .unit) [.ofCore 1] = .ok Plant.onePool ∧
      Plant.Arises Plant.onePool m ∧
      (m.thread (.worker ⟨0, 0⟩)).scope =
        some (.available { worker := some ⟨0, 0⟩, views := [outer, inner] }) ∧
      ((m.endBody ⟨0, 0⟩ (.panicked .unreadable)).thread (.worker ⟨0, 0⟩)).scope =
        some (.available { worker := some ⟨0, 0⟩ }) := by
  intro s m outer inner
  have hsoft : ∀ v ∈ s.traffic.views, v.mode = .soft := by decide
  have hbetween : s.Between := by decide
  have hviews : s.traffic.views = [outer, inner] := by decide
  have hinside : ∀ v ∈ [outer, inner], v.base + s.outstandingIn v = 1 + 2 := by decide
  obtain ⟨-, hlimits⟩ := (compensation_nested.1 Traffic.lone twoCalls).2 hsoft
  obtain ⟨hgates, hpool⟩ := hlimits hbetween
  have hcounts : s.outstanding = 2 ∧ s.heldBack Traffic.lone = 1 := by decide
  have hlimit : s.traffic.pool.limit + s.heldBack Traffic.lone = 1 + s.outstanding := hpool
  have hbuild : Plant.build (fun _ => .unit) [.ofCore 1] = .ok Plant.onePool := rfl
  have harises : Plant.Arises Plant.onePool m :=
    ((((Plant.Arises.start.operate (.perform (.soft 0 1)) rfl).operate
      (.perform (.soft 1 1)) rfl).operate
      (.perform (.launch .submit 2 .cpu "a" none none false)) rfl).operate
      (.advance ⟨0, 0⟩) rfl).operate (.advance ⟨0, 0⟩) rfl
  obtain ⟨-, -, hended⟩ := compensation_nested.2 hbuild harises ⟨0, 0⟩
  refine ⟨hsoft, hbetween, hcounts.1, hcounts.2, by omega, fun v hv => ?_, hbuild, harises,
    by decide, (hended _).2⟩
  obtain ⟨x, hx, hl⟩ := hgates v (hviews ▸ hv)
  exact ⟨x, hx, hl.trans (hinside v hv)⟩

end Workforce
