import Workforce.Proofs.Plant.Barred
import Workforce.Proofs.Traffic.Guarded

/-
  Exclusive views and compensation. All views of a traffic were made by the constructors, and every
  task is called on a route down from such a view (`Crafted`). A body runs inside all views of this
  route, so inside an exclusive one it finds a scope that forbids compensation: its guarded calls are
  refused, and no move of theirs reaches a limit (`Even.refuses`).

  `exclusive_not_bypassed` says this of all interleavings of a traffic, and of the threads of a plant,
  where the scope is what frames have left on the thread of the worker.
-/

namespace Workforce

variable {τ : Type}

/-! ## Where views and routes come from -/

namespace Traffic

variable {s s' : Traffic τ}

/-- Views are made by the constructors, and tasks are called on routes down from them. -/
structure Crafted (s : Traffic τ) : Prop where
  views : ∀ v ∈ s.views, v.toDispatcher.Built
  routes : ∀ t route, s.Called t route → ∃ d : Dispatcher, d.Built ∧ route = d.views

theorem Crafted.dispatcher (h : s.Crafted) {n : Option Nat} {d : Dispatcher}
    (hd : s.dispatcher? n = some d) : d.Built := by
  cases n with
  | none =>
    cases hd
    exact .pool _ _
  | some i =>
    obtain ⟨v, hv, rfl⟩ := Option.map_eq_some_iff.mp hd
    exact h.views v (List.mem_of_getElem? hv)

theorem mem_addView {d : Dispatcher} {v : View} (hv : v ∈ (s.addView d).views) :
    v ∈ s.views ∨ v.toDispatcher = d := by
  cases d with
  | pool id core => exact .inl hv
  | view id mode base parent =>
    rcases List.mem_append.mp hv with hv | hv
    · exact .inl hv
    · rw [List.mem_singleton.mp hv]
      exact .inr rfl

variable [Kinded τ]

/-- A view that is new was made from a dispatcher that was there. -/
theorem mem_views_step {a : Act τ} {v : View} (hv : v ∈ (s.step a).views) :
    v ∈ s.views ∨ ∃ n d, s.dispatcher? n = some d ∧ (d.Built → v.toDispatcher.Built) := by
  by_cases ha : ∃ n mode limit, a = .build n mode limit
  · obtain ⟨n, mode, limit, rfl⟩ := ha
    cases hd : s.dispatcher? n with
    | none =>
      simp only [step, hd] at hv
      exact .inl hv
    | some d =>
      cases mode with
      | exclusive =>
        simp only [step, hd] at hv
        rcases mem_addView hv with hv | he
        · exact .inl hv
        · exact .inr ⟨n, d, hd, fun hb => he ▸ hb.exclusive _⟩
      | soft =>
        simp only [step, hd] at hv
        split at hv
        case h_1 e hsoft =>
          rcases mem_addView hv with hv | he
          · exact .inl hv
          · exact .inr ⟨n, d, hd, fun hb => he ▸ hb.soft hsoft⟩
        case h_2 => exact .inl hv
  · have hs := steps s a
    generalize s.step a = s' at hs hv
    cases hs with
    | built => exact absurd ⟨_, _, _, rfl⟩ ha
    | _ => exact .inl hv

theorem crafted_step (h : s.Crafted) (a : Act τ) : (s.step a).Crafted := by
  refine ⟨fun v hv => ?_, fun t route hc => ?_⟩
  · rcases mem_views_step hv with hv | ⟨n, d, hd, hmade⟩
    · exact h.views v hv
    · exact hmade (h.dispatcher hd)
  · rcases (steps s a).called_cases hc with hc | ⟨n, d, hd, rfl⟩
    · exact h.routes t route hc
    · exact ⟨d, h.dispatcher hd, rfl⟩

end Traffic

/-! ## Guarded calls inside exclusive views -/

namespace Guarded

variable {s : Guarded τ} {k : Config}

/-- A guarded call is refused and never raises a limit: it is answered by the first move of its
thread, nothing was done for it, and no move of it changes the traffic. -/
structure Refuses [Kinded τ] (s : Guarded τ) (i : Nat) (b : BodyCall τ) : Prop where
  answers : (b.call.step .go).stage = .answered (.error (Plan.refusal View.exclusiveReason))
  nothing : b.call.trace = []
  levels : b.levels = []
  quiet : ∀ m, (s.step (.move i m)).traffic = s.traffic

/-- A body that has an exclusive view around it finds a scope that forbids compensation. -/
theorem forbids_of_called (hcrafted : s.traffic.Crafted) {j : Job τ}
    (hj : s.traffic.Called j.task j.views.reverse) {v : View} (hv : v ∈ j.views)
    (hx : v.mode = .exclusive) (outer : Option TaskScope) :
    View.scopeWithinAll j.views outer = some (.forbidden View.exclusiveReason) := by
  obtain ⟨d, hb, hd⟩ := hcrafted.routes _ _ hj
  have hviews : j.views = d.views.reverse := by rw [← hd, List.reverse_reverse]
  rw [hviews]
  exact hb.forbids (List.mem_reverse.mp (hviews ▸ hv)) hx outer

variable [Kinded τ]

theorem crafted_run (c : Config) (as : List (Act τ)) : ((start c).run as).traffic.Crafted := by
  have hstart : (start c : Guarded τ).traffic.Crafted := by
    refine ⟨fun v hv => ?_, fun t route hc => ?_⟩
    · cases hv
    · cases hc
  refine List.foldlRecOn (motive := fun s => s.traffic.Crafted) as step hstart fun s hs a _ => ?_
  rcases s.traffic_step a with he | ⟨b, he⟩
  · rw [he]
    exact hs
  · rw [he]
    exact Traffic.crafted_step hs b

/-- A call that is to be refused does nothing, whatever move it makes. -/
theorem Even.refuses (h : s.Even k) {i : Nat} {b : BodyCall τ} (hb : s.calls[i]? = some b)
    (he : b.call.enabled = true)
    (hs : b.call.scope = some (.forbidden View.exclusiveReason)) : s.Refuses i b := by
  have hcourse := (h.made b (List.mem_of_getElem? hb)).course
  have hplan := Guard.Call.plan_forbidden he hs
  have hnothing : ∀ {c : Guard.Call Compensator Unit}, c.OnCourse → c.plan = b.call.plan →
      c.trace = [] := by
    intro c hc hp
    rw [Guard.Call.OnCourse, hp, hplan] at hc
    exact hc.1
  have htrace := hnothing hcourse rfl
  refine ⟨?_, htrace, ?_, fun m => ?_⟩
  · rw [Guard.Call.OnCourse, hplan] at hcourse
    rw [Guard.Call.step, Guard.Call.go, hplan]
    rcases hcourse.2 with hst | hst <;> rw [hst]
    · rfl
    · exact hst
  · rw [BodyCall.levels, hs]
    rfl
  · have hnote : b.call.note? m = none := by
      have hafter := hnothing (hcourse.step m) (b.call.step_plan m)
      rw [Guard.Call.note?, hafter]
      rfl
    rw [step, hb]
    dsimp only
    rw [advance, hnote]

end Guarded

/-! ## Composition -/

/-- Exclusivity is not bypassed by composing dispatchers. However constructors are combined, no soft
view has an exclusive one below it.

Threads may submit tasks to dispatchers of any kind, views may come to be meanwhile, and everything
may interleave: a task runs inside all views of the route on which it was called, and if one of
these is exclusive then each guarded call of its body that is enabled is answered with a
configuration failure. Nothing is done for such a call, and no limit changes.

The scope that the call finds is the one on its thread. Whatever comes about in a plant, a body runs
inside all views of a dispatcher that was made by the constructors, which is the one that its
task was launched on. If one of its views is exclusive then the scope of the worker forbids
compensation as long as the body runs, whether it takes its steps from a script or is given them. -/
theorem exclusive_not_bypassed :
    (∀ d : Dispatcher, d.Built → d.Sealed) ∧
    (∀ {τ : Type} [Kinded τ] (c : Config) (as : List (Guarded.Act τ)),
      let s := (Guarded.start c).run as
      (∀ v ∈ s.traffic.views, v.toDispatcher.Built) ∧
      (∀ w j, .body w j ∈ s.traffic.threads.flatten →
        s.traffic.Called j.task j.views.reverse) ∧
      ∀ i b, s.calls[i]? = some b →
        s.traffic.Called b.job.task b.job.views.reverse ∧
        ∀ v ∈ b.job.views, v.mode = .exclusive →
          b.call.scope = some (.forbidden View.exclusiveReason) ∧
          (b.call.enabled = true → s.Refuses i b)) ∧
    ∀ {ν : Type} {cells : Cells} {configs : List Config} {m₀ m : Plant ν},
      Plant.build cells configs = .ok m₀ → Plant.Arises m₀ m →
      (∀ d : Dispatcher, some d ∈ m.dispatchers → d.Built) ∧
      ∀ w : WorkerId, (m.thread (.worker w)).stack ≠ [] →
        ∃ (j : Job (Task ν)) (d : Dispatcher),
          m.phase? w = some (.running j) ∧ d.Built ∧ j.views.reverse = d.views ∧
          (∀ (m₁ : Plant ν) (o : Operation ν) (e : Dispatcher), Plant.Arises m₀ m₁ →
            m₁.targetOf? o = some e → Plant.Arises (m₁.after o) m →
            m₁.tasks.length ≤ j.task.id → j.task.id < (m₁.after o).tasks.length →
            d.views = e.views) ∧
          ∀ v ∈ d.views, v.mode = .exclusive → m.Barred w := by
  refine ⟨fun d hd => hd.sealed, fun {τ} _ c as => ?_, fun {ν cells configs m₀ m} hb h => ?_⟩
  · intro s
    have heven : s.Even c := Guarded.even_run c as
    have hcrafted : s.traffic.Crafted := Guarded.crafted_run c as
    refine ⟨hcrafted.views, fun w j hm => ?_, fun i b hm => ?_⟩
    · obtain ⟨cs, hcs, hc⟩ := List.mem_flatten.mp hm
      exact heven.charted.chores cs hcs (.body w j) hc
    · have hmade := heven.made b (List.mem_of_getElem? hm)
      refine ⟨hmade.called, fun v hv hx => ?_⟩
      have hscope := hmade.scope.trans (Guarded.forbids_of_called hcrafted hmade.called hv hx _)
      exact ⟨hscope, fun he => heven.refuses hm he hscope⟩
  · obtain ⟨us, k, h₀⟩ := Plant.follows_build hb
    have hscoped := Plant.scoped_of_arises (Plant.scoped_build hb) h
    obtain ⟨vs, ds, -, hds⟩ := Plant.later_of_arises h₀ h
    refine ⟨fun d hd => (hds.dispatchers d hd).2, fun w hw => ?_⟩
    obtain ⟨j, hj, -⟩ := hscoped.running hw
    obtain ⟨d, -, hbuilt, hviews⟩ := hds.running hj
    refine ⟨j, d, hj, hbuilt, hviews, fun m₁ o e h₁ ho hm hold hnew => ?_, fun v hv hx => ?_⟩
    · exact hviews.symm.trans (Plant.views_of_launches hb h₁ ho hm hj hold hnew)
    · exact hscoped.barred hw hj hbuilt hviews hv hx

/-- A task of an exclusive view over a soft one makes a guarded call. -/
def callInside : List (Guarded.Act Nat) :=
  [.other (.build none .soft 1), .other (.build (some 0) .exclusive 1),
    .other (.build (some 1) .soft 1), .other (.call (some 1) 0), .other (.go 0), .other (.go 0),
    .other (.go 0), .other (.begin 0), .guard 1 true ⟨0, 0⟩]

/-- An exclusive view is made over a soft one, and a soft one over it is refused. -/
def wrapped : Plant Nat :=
  Plant.onePool.afterAll [.perform (.soft 0 1), .perform (.exclusive 1), .perform (.soft 2 1)]

/-- A task that waits for its steps is launched on the exclusive view. -/
def errand : Operation Nat := .perform (.launch .submit 2 .cpu "a" none none false)

/-- The call is refused, between threads as well as on the thread of a worker. -/
theorem exclusive_not_bypassed_callInside :
    let s := (Guarded.start Traffic.lone).run callInside
    let m := (wrapped.after errand).afterAll [.advance ⟨0, 0⟩, .advance ⟨0, 0⟩]
    (∃ b, s.calls[0]? = some b ∧ s.Refuses 0 b) ∧
      Plant.build (fun _ => .unit) [.ofCore 1] = .ok Plant.onePool ∧
      Plant.Arises Plant.onePool wrapped ∧ Plant.Arises (wrapped.after errand) m ∧
      wrapped.dispatchers.length = 3 ∧
      wrapped.targetOf? errand = some (.view 1 .exclusive 1 (.view 0 .soft 1 (.pool 0 1))) ∧
      m.Barred ⟨0, 0⟩ := by
  intro s m
  have hcall : ∃ b, s.calls[0]? = some b := ⟨_, rfl⟩
  obtain ⟨b, hb⟩ := hcall
  have hmade : (s.calls[0]?.map fun b => (b.call.enabled, b.job.views)) = some (true,
      [⟨0, .soft, 1, .pool 0 1⟩, ⟨1, .exclusive, 1, .view 0 .soft 1 (.pool 0 1)⟩]) := by decide
  rw [hb, Option.map_some, Option.some.injEq, Prod.mk.injEq] at hmade
  obtain ⟨henabled, hviews⟩ := hmade
  have hlast : (⟨1, .exclusive, 1, .view 0 .soft 1 (.pool 0 1)⟩ : View) ∈ b.job.views := by
    rw [hviews]
    decide
  have hrefuses := (((exclusive_not_bypassed.2.1 Traffic.lone callInside).2.2 0 b hb).2 _ hlast
    rfl).2 henabled
  have hbuild : Plant.build (fun _ => .unit) [.ofCore 1] = .ok Plant.onePool := rfl
  have hwrapped : Plant.Arises Plant.onePool wrapped :=
    ((Plant.Arises.start.operate (.perform (.soft 0 1)) rfl).operate
      (.perform (.exclusive 1)) rfl).operate (.perform (.soft 2 1)) rfl
  have hafter : Plant.Arises (wrapped.after errand) m :=
    (Plant.Arises.start.operate (.advance ⟨0, 0⟩) rfl).operate (.advance ⟨0, 0⟩) rfl
  have harises : Plant.Arises Plant.onePool m :=
    ((hwrapped.operate errand rfl).operate (.advance ⟨0, 0⟩) rfl).operate (.advance ⟨0, 0⟩) rfl
  have htarget : wrapped.targetOf? errand =
      some (.view 1 .exclusive 1 (.view 0 .soft 1 (.pool 0 1))) := by decide
  obtain ⟨j, d, hj, -, -, hlaunched, hbarred⟩ :=
    (exclusive_not_bypassed.2.2 hbuild harises).2 ⟨0, 0⟩ (Plant.stack_ne_nil (by decide))
  have hid : (m.network.taskAt ⟨0, 0⟩).map (fun j => j.task.id) = some 0 := by decide
  rw [Plant.taskAt_of_phase? hj, Option.map_some, Option.some.injEq] at hid
  have hroute := hlaunched wrapped errand _ hwrapped htarget hafter (by rw [hid]; decide)
    (by rw [hid]; decide)
  refine ⟨⟨b, hb, hrefuses⟩, hbuild, hwrapped, hafter, by decide, htarget, ?_⟩
  refine hbarred ⟨1, .exclusive, 1, .view 0 .soft 1 (.pool 0 1)⟩ ?_ rfl
  rw [hroute]
  exact List.mem_cons_self

end Workforce
