import Workforce.Proofs.Plant.Handovers

/-
  Bodies inside exclusive views. A body runs inside all views of the dispatcher that its task was
  handed to (`Follows.running`). If one of them is exclusive then the one that was passed first is, so
  the scope of the body is the one of this view, whatever happens meanwhile, and all guarded calls
  of the body are refused (`Scoped.barred`).
-/

namespace Workforce.Plant

variable {ν : Type} {vs : List View} {k : Nat} {r : Register (Task ν)} {ds : List Dispatcher}
  {m m₀ m₁ : Plant ν} {w : WorkerId} {j : Job (Task ν)} {d : Dispatcher}

/-- The body on a worker may not compensate. A guarded call that it makes is refused: its operation
is not begun, and no limit changes. -/
structure Barred (m : Plant ν) (w : WorkerId) : Prop where
  scope : (m.thread (.worker w)).scope = some (.forbidden View.exclusiveReason)
  begins : ∀ deadline timer, m.beginGuard (.worker w) deadline timer true =
    (.error (Plan.refusal View.exclusiveReason), m)
  /-- The body is given its steps. -/
  direct : ∀ deadline timer body, m.direct w (.guard deadline timer true body) =
    (.failed (Plan.refusal View.exclusiveReason), m)
  /-- The body has a script, which goes on after the call. -/
  script : ∀ {t deadline timer body rest below},
    (m.thread (.worker w)).stack = .script t (.guard deadline timer true body :: rest) :: below →
      m.followScript w = (m.setStack (.worker w) (.script t rest :: below)).answered t
        (.failed (Plan.refusal View.exclusiveReason)) ∧
      (m.followScript w).network = m.network

theorem beginGuard_of_forbidden {a : Actor} {reason : String}
    (h : (m.thread a).scope = some (.forbidden reason)) (deadline : Duration) (timer : GuardTimer) :
    m.beginGuard a deadline timer true = (.error (Plan.refusal reason), m) := by
  unfold beginGuard
  rw [h]
  rfl

theorem barred_of_scope
    (h : (m.thread (.worker w)).scope = some (.forbidden View.exclusiveReason)) : m.Barred w := by
  refine ⟨h, beginGuard_of_forbidden h, fun deadline timer body => ?_, fun {t} deadline timer body
    rest below hs => ?_⟩
  · unfold Plant.direct
    dsimp only
    rw [beginGuard_of_forbidden h]
  · have hset : ((m.setStack (.worker w) (.script t rest :: below)).thread (.worker w)).scope =
        some (.forbidden View.exclusiveReason) := by
      unfold setStack onThread
      rw [thread_setThread, if_pos rfl]
      exact h
    have hfollow : m.followScript w = (m.setStack (.worker w) (.script t rest :: below)).answered t
        (.failed (Plan.refusal View.exclusiveReason)) := by
      unfold followScript
      dsimp only
      rw [hs]
      dsimp only
      rw [beginGuard_of_forbidden hset]
    exact ⟨hfollow, hfollow ▸ rfl⟩

/-- A task runs inside the views of the dispatcher that it was handed to. -/
theorem Follows.running (h : m.Follows vs k r ds) (hj : m.phase? w = some (.running j)) :
    ∃ d, ds[j.task.id]? = some d ∧ d.Built ∧ j.views.reverse = d.views := by
  obtain ⟨p, hp, ht⟩ := Option.bind_eq_some_iff.mp (taskAt_of_phase? hj)
  have hroute : Assigned ds j.task (j.route (.pool w.pool 0)) :=
    ((h.network.pooled _ p hp).running ht).route
  obtain ⟨d, hd, hviews⟩ := hroute
  exact ⟨d, hd, h.targets d (List.mem_of_getElem? hd), (j.route_pool w.pool 0).symm.trans hviews⟩

/-- If one of these views is exclusive, the task may not compensate. -/
theorem Scoped.barred (h : m.Scoped) (hw : (m.thread (.worker w)).stack ≠ [])
    (hj : m.phase? w = some (.running j)) (hb : d.Built) (hd : j.views.reverse = d.views) {v : View}
    (hv : v ∈ d.views) (hx : v.mode = .exclusive) : m.Barred w := by
  obtain ⟨i, hi, hscope⟩ := h.running hw
  obtain rfl : j = i := Phase.running.inj (Option.some.inj (hj.symm.trans hi))
  have hviews : j.views = d.views.reverse := by rw [← hd, List.reverse_reverse]
  rw [hviews, hb.forbids hv hx] at hscope
  exact barred_of_scope hscope

/-- The tasks that a thread launches in an operation run inside the views of the dispatcher that its
step names. -/
theorem views_of_launches {cells : Cells} {configs : List Config} {o : Operation ν}
    (hb : build cells configs = .ok m₀) (h₁ : Arises m₀ m₁) (ho : m₁.targetOf? o = some d)
    (h : Arises (m₁.after o) m) (hj : m.phase? w = some (.running j))
    (hold : m₁.tasks.length ≤ j.task.id) (hnew : j.task.id < (m₁.after o).tasks.length) :
    j.views.reverse = d.views := by
  obtain ⟨us, k, h₀⟩ := follows_build hb
  obtain ⟨us₁, ds, -, hds⟩ := later_of_arises h₀ h₁
  obtain ⟨us₂, es, hes, hd⟩ := hds.launches ho
  obtain ⟨us₃, fs, -, hm⟩ := later_of_arises hd h
  obtain ⟨e, he, -, hviews⟩ := hm.running hj
  rw [hds.count] at hold
  rw [hd.count, List.length_append] at hnew
  rw [List.append_assoc, List.getElem?_append_right hold,
    List.getElem?_append_left (by omega)] at he
  rw [hviews, hes e (List.mem_of_getElem? he)]

end Workforce.Plant
