import Workforce.Proofs.Plant.Handovers

/-
  Submissions after a close. From the close of a pool on, only the tasks that were in the pool or
  waited before it are listed for it. The register of the close is kept by whatever happens then,
  so the pool receives no other task (`rejected_without_trace`). A submission through any chain of
  views is refused, at whichever level finds the pool closed, and the levels above it take back
  what they counted; only the record of the refused task is new.
-/

namespace Workforce

variable {ν : Type}

namespace Plant

variable {m m' : Plant ν} {vs : List View} {k p : Nat} {ds : List Dispatcher}

/-! ## The register of a close -/

/-- A task waits or runs in a pool. -/
def InPool (m : Plant ν) (p : Nat) (t : Task ν) : Prop :=
  ∃ q j, m.pool? p = some q ∧ q.Has j ∧ j.task = t

/-- A task waits at the gate of a view, through which dispatchers lead to a pool. -/
def WaitsFor (m : Plant ν) (p : Nat) (t : Task ν) : Prop :=
  ∃ i x j, m.network.gate? i = some x ∧ j ∈ x.queue ∧ j.task = t ∧
    ∀ d, some d ∈ m.dispatchers → ∀ v ∈ d.views, v.id = i → d.poolId = p

/-- The tasks that a pool was left with when it was closed, or will be handed. -/
def atClose (m : Plant ν) (p : Nat) : Register (Task ν) where
  shut i := i = p
  lists i t := i = p → m.InPool p t ∨ m.WaitsFor p t
  complete := fun hi _ he => absurd he hi

/-- A plant whose pool is closed keeps the register of this moment. -/
theorem Follows.atClose (h : m.Follows vs k .all ds)
    (hp : ∀ q, m.pool? p = some q → q.closed = true) : m.Follows vs k (m.atClose p) ds := by
  have hn := h.network
  refine { h with network := ⟨⟨hn.pools, hn.gates, hn.chart, fun i q hq => ?_,
    fun i v x hv hx j hj => ?_, ?_⟩, hn.settled⟩ }
  · rw [Pool.allTasks_iff]
    intro j hj
    have hlisted := Pool.allTasks_iff.mp (hn.pooled i q hq) j hj
    refine ⟨hlisted.fits, fun hi => Or.inl ?_, hlisted.route⟩
    cases hi
    exact ⟨q, j, hq, hj, rfl⟩
  · have hlisted := hn.gated i v x hv hx j hj
    refine ⟨hlisted.fits, fun hpool => Or.inr ?_, hlisted.route⟩
    refine ⟨i, x, j, hx, hj, rfl, fun d hd u hu hi => ?_⟩
    -- the chart has one view with this number, so its pool is that of the dispatcher
    have hon : vs[u.id]? = some u := (h.dispatchers d hd).1.charted u hu
    rw [hi, hv] at hon
    cases hon
    exact (poolId_of_mem_views hu).symm.trans hpool
  · intro i q hq hi
    cases hi
    exact hp q hq

/-! ## Closed pools -/

theorem pool?_beginClose (m : Plant ν) (p : Nat) :
    (m.beginClose p).pool? p = (m.pool? p).map Pool.beginClose := by
  show (m.network.pools.modify p Pool.beginClose)[p]? = _
  rw [List.getElem?_modify]
  simp only [if_true]
  rfl

theorem closed_of_beginClose {q : Pool (Job (Task ν))} (h : (m.beginClose p).pool? p = some q) :
    q.closed = true := by
  rw [pool?_beginClose] at h
  obtain ⟨q', -, rfl⟩ := Option.map_eq_some_iff.mp h
  exact q'.closed_beginClose

theorem beginClose_beginClose (m : Plant ν) (p : Nat) :
    (m.beginClose p).beginClose p = m.beginClose p := by
  have htwice : (Pool.beginClose ∘ Pool.beginClose : Pool (Job (Task ν)) → _) = Pool.beginClose :=
    funext Pool.beginClose_idempotent
  unfold beginClose Network.onPool
  dsimp only
  rw [List.modify_modify_eq, htwice]

/-- A close goes on from where the pool stops taking tasks, whichever thread waits for it. -/
theorem arises_close (m : Plant ν) (p : Nat) (timeout : Duration) (name : String) :
    Arises (m.beginClose p) (m.close p timeout).2 ∧
    Arises (m.beginClose p) (m.closeApart p timeout name) := by
  constructor
  · have hclose : (m.beginClose p).close p timeout = m.close p timeout := by
      unfold close
      rw [beginClose_beginClose]
    exact hclose ▸ Arises.start.close p timeout
  · have hclose : (m.beginClose p).closeApart p timeout name = m.closeApart p timeout name := by
      unfold closeApart
      rw [beginClose_beginClose]
    exact hclose ▸ Arises.start.operate (.closeApart p timeout name) rfl

/-- A close leaves tasks where they are. -/
theorem inPool_of_beginClose {t : Task ν} (h : (m.beginClose p).InPool p t) : m.InPool p t := by
  obtain ⟨q, j, hq, hj, ht⟩ := h
  rw [pool?_beginClose] at hq
  obtain ⟨q', hq', rfl⟩ := Option.map_eq_some_iff.mp hq
  have hall := q'.receives_beginClose.tasks (Pool.allTasks_iff.mpr fun _ hu => hu) nofun
  exact ⟨q', j, hq', Pool.allTasks_iff.mp hall j hj, ht⟩

/-! ## Rejections -/

theorem modify_concat {α : Type} (xs : List α) (y : α) (f : α → α) :
    (xs ++ [y]).modify xs.length f = xs ++ [f y] := by
  induction xs with
  | nil => rfl
  | cons x xs ih => exact congrArg (x :: ·) ih

/-- The record of the latest task is changed. -/
theorem onTask_last (m : Plant ν) (x : TaskRecord ν) (f : TaskRecord ν → TaskRecord ν) :
    ({ m with tasks := m.tasks ++ [x] } : Plant ν).onTask m.tasks.length f =
      { m with tasks := m.tasks ++ [f x] } := by
  unfold onTask
  dsimp only
  rw [modify_concat]

theorem discard_last (m : Plant ν) (x : TaskRecord ν) {t : Task ν} (ht : t.id = m.tasks.length) :
    ∃ y, ({ m with tasks := m.tasks ++ [x] } : Plant ν).discard t =
      { m with tasks := m.tasks ++ [y] } := by
  unfold discard
  dsimp only
  rw [ht]
  split
  · exact ⟨_, (congrArg (fun m' => complete m' _ _) (onTask_last m x _)).trans (onTask_last m _ _)⟩
  · exact ⟨_, onTask_last m x _⟩

/-- The network dropped a task that was to be submitted, and is the same otherwise. -/
theorem withNetwork_drop (he : m.network.dropped = []) (x : TaskRecord ν) {u : Job (Task ν)}
    (hu : u.task.id = m.tasks.length) :
    ∃ y, ({ m with tasks := m.tasks ++ [x] } : Plant ν).withNetwork (m.network.drop u) =
      { m with tasks := m.tasks ++ [y] } := by
  have hsame : ({ m.network.drop u with dropped := [] } : Network (Task ν)) = m.network := by
    show (⟨m.network.pools, m.network.gates, []⟩ : Network (Task ν)) = m.network
    rw [← he]
  have hdropped : (m.network.drop u).dropped = [u] := by
    show m.network.dropped ++ [u] = [u]
    rw [he]
    rfl
  obtain ⟨y, hy⟩ := discard_last m x hu
  refine ⟨y, ?_⟩
  unfold withNetwork
  rw [hdropped, hsame]
  exact hy

/-- A submission to a closed pool leaves nothing but a record behind. -/
theorem Follows.rejects {r : Register (Task ν)} (h : m.Follows vs k r ds) {d : Dispatcher}
    (hd : m.network.isClosed d = true) (a : Actor) (how : Launch) (kind : Kind) (id : String)
    (context : Context) (body : Option (List (Step ν))) (tail : Bool) :
    ∃ x : TaskRecord ν, x.status = .rejected ∧
      m.submitTask a how d kind id context body tail =
        (.failed .poolClosed, { m with tasks := m.tasks ++ [x] }) := by
  obtain ⟨u, hu, hsub⟩ := Network.submit_of_closed a.worker? (tail && how == Launch.submit)
    { task := { id := m.tasks.length, kind, context, reports := decide (how = .spawn), body } }
    h.network.settled hd
  obtain ⟨y, hy⟩ := withNetwork_drop h.emptied { name := id, pool := d.poolId } (u := u)
    (by rw [hu])
  unfold Plant.submitTask
  dsimp only
  rw [hsub]
  dsimp only
  rw [hy]
  exact ⟨_, rfl, congrArg (Prod.mk _) (onTask_last m y _)⟩

/-- From the close of a pool on, however it goes on, the pool stays closed, every submission to it
is rejected without a trace, and the pool gets no task but those that it had or that waited for it
at the close. -/
theorem rejected_without_trace {cells : Cells} {configs : List Config} {m₀ m₁ m : Plant ν}
    (hb : build cells configs = .ok m₀) (h₁ : Arises m₀ m₁) (hp : p < m₁.network.pools.length)
    (h : Arises (m₁.beginClose p) m) :
    (∃ q, m.pool? p = some q ∧ q.closed = true) ∧
    (∀ (a : Actor) (how : Launch) (d : Dispatcher) (kind : Kind) (id : String) (context : Context)
      (body : Option (List (Step ν))) (tail : Bool), d.poolId = p →
      ∃ x : TaskRecord ν, x.status = .rejected ∧
        m.submitTask a how d kind id context body tail =
          (.failed .poolClosed, { m with tasks := m.tasks ++ [x] })) ∧
    ∀ t, m.InPool p t → m₁.InPool p t ∨ m₁.WaitsFor p t := by
  obtain ⟨us, k, h₀⟩ := follows_build hb
  obtain ⟨us₁, ds, -, hds⟩ := later_of_arises h₀ h₁
  have hclosed := hds.beginClose p
  have hlen : p < k := by
    have hpools : m₁.network.pools.length = (m₁.beginClose p).network.pools.length :=
      (List.length_modify ..).symm
    rw [hpools, hclosed.network.pools] at hp
    exact hp
  obtain ⟨vs, es, -, hm⟩ := later_of_arises (hclosed.atClose fun _ => closed_of_beginClose) h
  obtain ⟨q, hq⟩ := Network.exists_pool (hm.network.pools ▸ hlen)
  have hc : q.closed = true := hm.network.shut p q hq rfl
  refine ⟨⟨q, hq, hc⟩, fun a how d kind id context body tail hd => ?_, fun t ht => ?_⟩
  · refine hm.rejects ?_ a how kind id context body tail
    unfold Network.isClosed
    rw [hd, hq]
    exact hc
  · obtain ⟨q', j, hq', hj, rfl⟩ := ht
    have hlisted := Pool.allTasks_iff.mp (hm.network.pooled p q' hq') j hj
    exact (hlisted.task rfl).imp_left inPool_of_beginClose

theorem Arises.afterAll {m₀ : Plant ν} (os : List (Operation ν)) :
    ∀ {m : Plant ν}, Arises m₀ m → (∀ o ∈ os, ∀ m : Plant ν, m.ready o = true) →
      Arises m₀ (m.afterAll os) := by
  induction os with
  | nil => exact fun h _ => h
  | cons o os ih =>
    exact fun h ho => ih (h.operate o (ho o List.mem_cons_self _)) fun o' ho' =>
      ho o' (List.mem_cons_of_mem o ho')

theorem inPool_of_taskAt {w : WorkerId} {j : Job (Task ν)} (h : m.network.taskAt w = some j) :
    m.InPool w.pool j.task := by
  obtain ⟨q, x, hq, hx, hph⟩ := exists_of_taskAt h
  refine ⟨q, j, hq, Or.inr ⟨x, List.mem_of_getElem? hx, Or.inr ?_⟩, rfl⟩
  rw [hph]
  rfl

/-- One task is in the pool, and the other waits at the view before it. -/
def twoInLine : Plant Nat := onePool.afterAll (twoErrands.take 3)

/-- The pool was closed, and the task that waited was forwarded as the first one ended. -/
def draining : Plant Nat :=
  (twoInLine.beginClose 0).afterAll (List.replicate 3 (.advance ⟨0, 0⟩))

theorem rejected_without_trace_twoInLine :
    build (fun _ => .unit) [.ofCore 1] = .ok onePool ∧ Arises onePool twoInLine ∧
    0 < twoInLine.network.pools.length ∧ Arises (twoInLine.beginClose 0) draining ∧
    (∃ x : TaskRecord Nat, x.status = .rejected ∧
      draining.submitTask (.worker ⟨0, 0⟩) .submit (.view 0 .soft 1 (.pool 0 1)) .cpu "c"
        (.ofElements 0 []) none true =
        (.failed .poolClosed, { draining with tasks := draining.tasks ++ [x] })) ∧
    (∃ t, t.id = 1 ∧ draining.InPool 0 t ∧ (twoInLine.InPool 0 t ∨ twoInLine.WaitsFor 0 t)) ∧
    ∃ x : TaskRecord Nat, x.status = .rejected ∧
      (twoInLine.close 0 ⟨0, 0⟩).2.submitTask .controller .spawn (.pool 0 1) .blocking "d"
        (.ofElements 0 []) none false =
        (.failed .poolClosed, { (twoInLine.close 0 ⟨0, 0⟩).2 with
          tasks := (twoInLine.close 0 ⟨0, 0⟩).2.tasks ++ [x] }) := by
  have hbuild : build (fun _ => .unit) [.ofCore 1] = .ok onePool := rfl
  have hline : Arises onePool twoInLine := by
    refine Arises.start.afterAll _ fun o ho m => ?_
    rcases List.mem_cons.mp ho with rfl | ho
    · rfl
    · rcases List.mem_cons.mp ho with rfl | ho
      · rfl
      · cases List.mem_singleton.mp ho
        rfl
  have hpool : 0 < twoInLine.network.pools.length := by decide
  have hdraining : Arises (twoInLine.beginClose 0) draining := by
    refine Arises.start.afterAll _ fun o ho m => ?_
    rw [List.eq_of_mem_replicate ho]
    rfl
  have hrun : (draining.network.taskAt ⟨0, 0⟩).map (fun j => j.task.id) = some 1 := by decide
  obtain ⟨j, hj, hid⟩ := Option.map_eq_some_iff.mp hrun
  have hin : draining.InPool 0 j.task := inPool_of_taskAt hj
  obtain ⟨-, hrejects, honly⟩ := rejected_without_trace hbuild hline hpool hdraining
  obtain ⟨-, hrejects', -⟩ :=
    rejected_without_trace hbuild hline hpool (twoInLine.arises_close 0 ⟨0, 0⟩ "").1
  exact ⟨hbuild, hline, hpool, hdraining, hrejects _ _ _ _ _ _ _ _ rfl,
    ⟨j.task, hid, hin, honly j.task hin⟩, hrejects' _ _ _ _ _ _ _ _ rfl⟩

end Plant

end Workforce
