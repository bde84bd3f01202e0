import Workforce.Proofs.Pool.Termination
import Workforce.Proofs.Traffic.Occupancy

/-
  Jobs before and after their start. A job that has not been started is in a queue of the pool, in
  a slot, at a gate, or in the hands of a thread, and there it is the job that was called, with the
  views that admitted it since (`unstarted_step`). Only such a job is started
  (`AllUnstarted.started`), and only jobs that are started have bodies (`body_step`). So whatever is
  known of all jobs that wait, and is kept when a view admits them, is known of the jobs whose
  bodies run.
-/

namespace Workforce

namespace Pool

variable {τ : Type} [Kinded τ]

/-- The turn of a section obeys the law of turns. -/
theorem turnLaw_step (f b : τ → Nat) {p : Pool τ} {s : Section τ} {r : Turn τ}
    (h : p.turn? s = some r) : ∃ x, TurnLaw f b p x (r, p.step s) := by
  cases s with
  | begin w =>
    simp only [turn?] at h
    split at h
    case h_1 hp =>
      obtain ⟨x, hw, -⟩ := exists_of_phaseOf? hp
      cases h
      simp only [step, hp]
      exact ⟨x, turnLaw_begin f b hw⟩
    case h_2 => cases h
  | resume w timedOut =>
    simp only [turn?] at h
    split at h
    case h_1 hp =>
      obtain ⟨x, hw, -⟩ := exists_of_phaseOf? hp
      cases h
      simp only [step, hp]
      exact ⟨x, turnLaw_resume f b hw timedOut⟩
    case h_2 => cases h
  | finish w =>
    obtain ⟨t, ht, rfl⟩ := Option.map_eq_some_iff.mp h
    obtain ⟨x, hw, -⟩ := exists_of_taskOf? ht
    simp only [step, ht]
    exact ⟨x, turnLaw_finish f b hw _⟩
  | die w =>
    obtain ⟨t, ht, rfl⟩ := Option.map_eq_some_iff.mp h
    obtain ⟨x, hw, -⟩ := exists_of_taskOf? ht
    simp only [step, ht]
    exact ⟨x, turnLaw_die f b hw _⟩
  | _ => cases h

/-- A task that is started has waited. -/
theorem AllWaiting.started {P : τ → Prop} {p : Pool τ} (h : AllWaiting P p) {s : Section τ} {t : τ}
    (hs : p.started? s = some t) : P t := by
  obtain ⟨r, hr, ht⟩ := Option.bind_eq_some_iff.mp hs
  obtain ⟨x, hl⟩ := turnLaw_step (lacking P) (fun _ => 0) hr
  exact (h.turn hl).2 t (Turn.lifted_of_started ht)

end Pool

namespace Traffic

variable {τ : Type} [Kinded τ]

/-! ## Starts -/

/-- The job that an act starts. -/
def started? (s : Traffic τ) : Act τ → Option (Job τ)
  | .begin w => s.pool.started? (.begin w)
  | .resume w timedOut => s.pool.started? (.resume w timedOut)
  | .go k =>
    match s.threads[k]? with
    | some (.finish w _ fatal :: _) =>
      if fatal then s.pool.started? (.die w) else s.pool.started? (.finish w)
    | _ => none
  | _ => none

/-- The jobs that a run starts, in order. -/
def startsOf : Traffic τ → List (Act τ) → List (Job τ)
  | _, [] => []
  | s, a :: as => (s.started? a).toList ++ startsOf (s.step a) as

theorem startsOf_append (s : Traffic τ) (as bs : List (Act τ)) :
    startsOf s (as ++ bs) = startsOf s as ++ startsOf (s.run as) bs := by
  induction as generalizing s with
  | nil => rfl
  | cons a as ih =>
    show (s.started? a).toList ++ startsOf (s.step a) (as ++ bs) =
      (s.started? a).toList ++ startsOf (s.step a) as ++ startsOf ((s.step a).run as) bs
    rw [ih, List.append_assoc]

/-- The jobs among them that a view admitted. -/
def startsAt (i : Nat) (s : Traffic τ) (as : List (Act τ)) : List (Job τ) :=
  (startsOf s as).filter fun j => 0 < j.passes i

theorem startsAt_concat (i : Nat) (s : Traffic τ) (as : List (Act τ)) (a : Act τ) :
    startsAt i s (as ++ [a]) = startsAt i s as ++
      ((s.run as).started? a).toList.filter fun j => 0 < j.passes i := by
  unfold startsAt
  rw [startsOf_append, List.filter_append]
  exact congrArg (_ ++ List.filter _ ·) (List.append_nil _)

theorem started?_begin {s : Traffic τ} {w : Nat} {x : Worker (Job τ)}
    (hw : s.pool.worker? w = some x) (hx : x.phase = .starting) :
    s.started? (.begin w) = (s.pool.begin w).1.started := by
  have hp : s.pool.phaseOf? w = some .starting := by rw [Pool.phaseOf?, hw, ← hx]; rfl
  simp only [started?, Pool.started?, Pool.turn?, hp]
  rfl

theorem started?_resume {s : Traffic τ} {w : Nat} {x : Worker (Job τ)} {woken : Bool}
    (hw : s.pool.worker? w = some x) (hx : x.phase = .idle woken) (timedOut : Bool) :
    s.started? (.resume w timedOut) = (s.pool.resume w timedOut).1.started := by
  have hp : s.pool.phaseOf? w = some (.idle woken) := by rw [Pool.phaseOf?, hw, ← hx]; rfl
  simp only [started?, Pool.started?, Pool.turn?, hp]
  rfl

theorem started?_finish {s : Traffic τ} {k w : Nat} {outcome : Except Failure Unit}
    {rest : List (Chore τ)} (hk : s.threads[k]? = some (.finish w outcome false :: rest))
    {j : Job τ} (ht : s.pool.taskOf? w = some j) :
    s.started? (.go k) = (s.pool.finish w (Kinded.kind j)).1.started := by
  simp only [started?, hk, Bool.false_eq_true, if_false, Pool.started?, Pool.turn?, ht]
  rfl

/-! ## Bodies -/

/-- A chore leaves a body behind if it is this body, or starts it. -/
theorem Performs.body {s : Traffic τ} {c : Chore τ} {d : Deed τ} (h : Performs s c d) {w : Nat}
    {j : Job τ} (hm : .body w j ∈ d.todo) :
    c = .body w j ∨ ∀ k rest, s.threads[k]? = some (c :: rest) → s.started? (.go k) = some j := by
  cases h with
  | idle => exact .inl (List.mem_singleton.mp hm).symm
  | @finished w' outcome x k hw hr =>
    refine .inr fun i rest hi => ?_
    rw [started?_finish hi ((Pool.taskOf?_eq hw).trans hr)]
    obtain ⟨_, hj, ⟨⟩⟩ := mem_turnChores.mp hm
    exact hj
  | died =>
    rw [Pool.die_fst] at hm
    cases hm
  | discarded =>
    obtain ⟨v, -, hv⟩ := List.mem_map.mp hm
    cases hv
  | _ => simp [refuse, taken] at hm

/-- A body runs only if it was running before or is started. -/
theorem body_step {s : Traffic τ} {a : Act τ} {w : Nat} {j : Job τ}
    (h : .body w j ∈ (s.step a).threads.flatten) :
    .body w j ∈ s.threads.flatten ∨ s.started? a = some j := by
  rcases (steps s a).chore h with hm | hb
  · exact .inl hm
  · cases hb with
    | began hw hx hj => exact .inr ((started?_begin hw hx).trans hj)
    | resumed hw hx hj => exact .inr ((started?_resume hw hx _).trans hj)
    | left hi hp he =>
      rcases hp.body he with rfl | hstart
      · exact .inl (mem_thread hi List.mem_cons_self)
      · exact .inr (hstart _ _ hi)

/-- What is started runs. -/
theorem body_of_started {s : Traffic τ} {a : Act τ} {j : Job τ} (h : s.started? a = some j) :
    ∃ w, .body w j ∈ (s.step a).threads.flatten := by
  have hturn : ∀ (w : Nat) (r : Pool.Turn (Job τ)), r.started = some j →
      .body w j ∈ (s.threads ++ [turnChores w r]).flatten := by
    intro w r hr
    rw [List.flatten_append, List.flatten_singleton]
    exact List.mem_append_right _ (mem_turnChores.mpr ⟨j, hr, rfl⟩)
  cases a with
  | begin w =>
    obtain ⟨r, hr, ht⟩ := Option.bind_eq_some_iff.mp h
    simp only [Pool.turn?] at hr
    split at hr
    case h_1 hp =>
      cases hr
      simp only [step, hp]
      exact ⟨w, hturn w _ ht⟩
    case h_2 => cases hr
  | resume w timedOut =>
    obtain ⟨r, hr, ht⟩ := Option.bind_eq_some_iff.mp h
    simp only [Pool.turn?] at hr
    split at hr
    case h_1 hp =>
      cases hr
      simp only [step, hp]
      exact ⟨w, hturn w _ ht⟩
    case h_2 => cases hr
  | go k =>
    simp only [started?] at h
    split at h
    case h_2 => cases h
    case h_1 w outcome fatal rest hk =>
      obtain ⟨hlt, -⟩ := List.getElem?_eq_some_iff.mp hk
      cases fatal with
      | true =>
        obtain ⟨r, hr, ht⟩ := Option.bind_eq_some_iff.mp h
        obtain ⟨t, -, rfl⟩ := Option.map_eq_some_iff.mp hr
        rw [Pool.die_fst] at ht
        cases ht
      | false =>
        obtain ⟨r, hr, ht⟩ := Option.bind_eq_some_iff.mp h
        obtain ⟨t, htask, rfl⟩ := Option.map_eq_some_iff.mp hr
        have hset : turnChores w (s.pool.finish w (Kinded.kind t)).1 ++ rest ∈
            (s.step (.go k)).threads := by
          simp only [step, hk, perform, finish, htask, Bool.false_eq_true, if_false]
          exact List.mem_of_getElem? (List.getElem?_set_self hlt)
        exact ⟨w, List.mem_flatten.mpr
          ⟨_, hset, List.mem_append_left rest (mem_turnChores.mpr ⟨j, ht, rfl⟩)⟩⟩
  | _ => cases h

/-- Every body that runs was started in the run. -/
theorem mem_startsOf (c : Config) (as : List (Act τ)) {w : Nat} {j : Job τ}
    (h : .body w j ∈ ((start c).run as).threads.flatten) : j ∈ startsOf (start c) as := by
  -- induction on the number of acts
  induction as using List.reverseRecOn with
  | nil => cases h
  | append_singleton as a ih =>
    rw [run_concat] at h
    rw [startsOf_append]
    rcases body_step h with h | h
    · exact List.mem_append_left _ (ih h)
    · refine List.mem_append_right _ ?_
      show j ∈ (((start c).run as).started? a).toList ++ []
      rw [h]
      exact List.mem_singleton_self j

/-! ## Jobs that have not been started -/

/-- A chore admits a job to a view. -/
inductive Admits (s : Traffic τ) : Chore τ → View → Job τ → Prop where
  | submitted {v : View} {j : Job τ} {slot : Option Nat} {x : Gate (Job τ)}
      (hg : s.gates[v.id]? = some x) (h : x.running < x.limit) :
      Admits s (.submit v.toDispatcher j slot) v j
  | forwarded {v : View} {j : Job τ} {n : Nat} {x : Gate (Job τ)}
      (hg : s.gates[v.id]? = some x) (h : x.running < x.limit) :
      Admits s (.forward v.toDispatcher j n) v j
  | settled {c : Chore τ} {v : View} {change : Gate (Job τ) → Gate (Job τ)} {es : List (Event τ)}
      {x : Gate (Job τ)} {j : Job τ} {rest : List (Job τ)} (hc : Settling c v change es)
      (hg : s.gates[v.id]? = some x) (hq : (change x).queue = j :: rest)
      (h : (change x).running < (change x).limit) : Admits s c v j

/-- All jobs that have not been started have a property. -/
structure AllUnstarted (P : Job τ → Prop) (s : Traffic τ) : Prop where
  pool : s.pool.AllWaiting P
  gates : ∀ x ∈ s.gates, ∀ j ∈ x.queue, P j
  hands : ∀ c ∈ s.threads.flatten, ∀ j, c.job? = some j → P j

/-- All jobs that have not been started have a property after a chore. -/
structure DeedUnstarted (P : Job τ → Prop) (d : Deed τ) : Prop where
  pool : d.pool.AllWaiting P
  gates : ∀ x ∈ d.gates, ∀ j ∈ x.queue, P j
  hands : ∀ c ∈ d.todo, ∀ j, c.job? = some j → P j

section

variable {P : Job τ → Prop} {s : Traffic τ}

omit [Kinded τ] in
theorem AllUnstarted.imp (h : s.AllUnstarted P) {Q : Job τ → Prop} (hi : ∀ j, P j → Q j) :
    s.AllUnstarted Q :=
  ⟨h.pool.imp hi, fun x hx j hj => hi j (h.gates x hx j hj),
    fun c hc j hj => hi j (h.hands c hc j hj)⟩

omit [Kinded τ] in
theorem AllUnstarted.and (h : s.AllUnstarted P) {Q : Job τ → Prop} (hq : s.AllUnstarted Q) :
    s.AllUnstarted fun j => P j ∧ Q j :=
  ⟨⟨fun j hj => ⟨h.pool.queued j hj, hq.pool.queued j hj⟩,
      fun w j hj => ⟨h.pool.slotted w j hj, hq.pool.slotted w j hj⟩⟩,
    fun x hx j hj => ⟨h.gates x hx j hj, hq.gates x hx j hj⟩,
    fun c hc j hj => ⟨h.hands c hc j hj, hq.hands c hc j hj⟩⟩

omit [Kinded τ] in
/-- The tasks of a view that have not ended are all in the hands of threads, and none of these is
still to be started. -/
theorem unstarted_of_unended_le {i : Nat}
    (h : s.unended i ≤ (s.threads.flatten.map (Chore.admissions i)).sum)
    (hc : ∀ c ∈ s.threads.flatten, ∀ j, c.job? = some j → j.passes i = 0) :
    s.AllUnstarted fun j => j.passes i = 0 := by
  unfold unended at h
  have hzero : ∀ js : List (Job τ), (js.map (Job.passes i)).sum = 0 → ∀ j ∈ js, j.passes i = 0 :=
    fun js hjs => List.forall_mem_map.mp (List.sum_eq_zero_iff.mp hjs)
  refine ⟨⟨hzero _ (by omega), fun w j hj => ?_⟩, fun x hx j hj => ?_, hc⟩
  · obtain ⟨x, hw, hs⟩ := Option.bind_eq_some_iff.mp hj
    refine hzero (s.pool.workers.filterMap Worker.slot) (by omega) j ?_
    exact List.mem_filterMap.mpr ⟨x, List.mem_of_getElem? hw, hs⟩
  · exact hzero (s.gates.flatMap Gate.queue) (by omega) j (List.mem_flatMap.mpr ⟨x, hx, hj⟩)

omit [Kinded τ] in
theorem AllUnstarted.set (h : s.AllUnstarted P) (i : Nat) {y : Gate (Job τ)}
    (hy : ∀ j ∈ y.queue, P j) : ∀ x ∈ s.gates.set i y, ∀ j ∈ x.queue, P j := by
  intro x hx
  rcases List.mem_or_eq_of_mem_set hx with hx | rfl
  · exact h.gates x hx
  · exact hy

/-- Jobs that wait have a property if it is kept when views admit them. -/
theorem Performs.unstarted {c : Chore τ} {d : Deed τ} (hp : Performs s c d) (h : s.AllUnstarted P)
    (hc : ∀ j, c.job? = some j → P j)
    (ha : ∀ v j, Admits s c v j → P j → P (j.admittedBy v)) : DeedUnstarted P d := by
  have hwait : ∀ {i : Nat} {x : Gate (Job τ)} {j : Job τ}, s.gates[i]? = some x → P j →
      ∀ k ∈ x.queue ++ [j], P k := by
    intro i x j hg hj k hk
    rcases List.mem_append.mp hk with hk | hk
    · exact h.gates x (List.mem_of_getElem? hg) k hk
    · rw [List.mem_singleton.mp hk]
      exact hj
  cases hp with
  | idle => exact ⟨h.pool, h.gates, by simpa [Traffic.idle] using hc⟩
  | @accepted _ _ j p hj =>
    exact ⟨h.pool.add (hc j rfl) (Pool.holding_accept _ _ hj), h.gates, by simp⟩
  | placed ho hw _ _ => exact ⟨(h.pool.place hw ho (hc _ rfl)).1, h.gates, by simp⟩
  | @displaced _ _ w j k x ho hw _ hs =>
    obtain ⟨hq, hk⟩ := h.pool.place hw ho (hc j rfl)
    refine ⟨hq, h.gates, fun c hm l hl => ?_⟩
    rw [List.mem_singleton.mp hm] at hl
    cases hl
    exact hk k hs
  | refused => exact ⟨h.pool, h.gates, by simp [refuse, Chore.job?]⟩
  | @entered v j slot x hg hlt =>
    refine ⟨h.pool, h.set v.id (h.gates x (List.mem_of_getElem? hg)), ?_⟩
    simpa [Chore.job?] using ha v j (.submitted hg hlt) (hc j rfl)
  | @waits v j slot x hg _ => exact ⟨h.pool, h.set v.id (hwait hg (hc j rfl)), by simp⟩
  | @requeued k j p hk =>
    exact ⟨h.pool.add (hc k rfl) (Pool.holding_accept _ _ hk), h.gates, by simp⟩
  | cut => exact ⟨h.pool, h.gates, by simp [Chore.job?]⟩
  | @handed _ _ n j p hj =>
    exact ⟨h.pool.add (hc j rfl) (Pool.holding_submitAccepted _ _ hj), h.gates,
      by simp [taken, Chore.job?]⟩
  | @passed v j n x hg hlt =>
    refine ⟨h.pool, h.set v.id (h.gates x (List.mem_of_getElem? hg)), ?_⟩
    simpa [Chore.job?] using ha v j (.forwarded hg hlt) (hc j rfl)
  | @waitsAgain v j n x hg _ =>
    exact ⟨h.pool, h.set v.id (hwait hg (hc j rfl)), by simp [taken, Chore.job?]⟩
  | discarded =>
    refine ⟨h.pool, h.gates, fun c hm l hl => ?_⟩
    obtain ⟨v, -, rfl⟩ := List.mem_map.mp hm
    cases hl
  | @settled c v change es x hs hg _ =>
    refine ⟨h.pool, h.set v.id ?_, by simp⟩
    rw [hs.queue]
    exact h.gates x (List.mem_of_getElem? hg)
  | @admits c v change es x j rest hs hg hq hlt =>
    have hx : ∀ k ∈ j :: rest, P k := by
      rw [← hq, hs.queue]
      exact h.gates x (List.mem_of_getElem? hg)
    refine ⟨h.pool, h.set v.id fun k hk => hx k (List.mem_cons_of_mem j hk), ?_⟩
    simpa [Chore.job?] using ha v j (.settled hs hg hq hlt) (hx j List.mem_cons_self)
  | missing => exact ⟨h.pool, h.gates, by simp⟩
  | @lowered v x hg =>
    exact ⟨h.pool, h.set v.id (h.gates x (List.mem_of_getElem? hg)), by simp⟩
  | unlowered => exact ⟨h.pool, h.gates, by simp⟩
  | raisedWorker => exact ⟨h.pool.same (Pool.holding_raise ..), h.gates, by simp⟩
  | loweredWorker => exact ⟨h.pool.same (Pool.holding_lower ..), h.gates, by simp⟩
  | flushed => exact ⟨h.pool.same (Pool.holding_flush ..), h.gates, by simp⟩
  | unflushed => exact ⟨h.pool, h.gates, by simp⟩
  | unfinished => exact ⟨h.pool, h.gates, by simp⟩
  | finished hw _ =>
    refine ⟨(h.pool.turn (Pool.turnLaw_finish _ _ hw _)).1, h.gates, fun c hm l hl => ?_⟩
    obtain ⟨_, -, rfl⟩ := mem_turnChores.mp hm
    cases hl
  | @died w outcome x j hw _ =>
    refine ⟨(h.pool.turn (Pool.turnLaw_die _ _ hw (Kinded.kind j))).1, h.gates, fun c hm l hl => ?_⟩
    rw [Pool.die_fst] at hm
    cases hm

/-- A job that is started has waited. -/
theorem AllUnstarted.started (h : s.AllUnstarted P) {a : Act τ} {j : Job τ}
    (hs : s.started? a = some j) : P j := by
  cases a with
  | begin w => exact h.pool.started hs
  | resume w timedOut => exact h.pool.started hs
  | go k =>
    simp only [started?] at hs
    split at hs
    case h_1 =>
      split at hs
      · exact h.pool.started hs
      · exact h.pool.started hs
    case h_2 => cases hs
  | _ => cases hs

/-- A property of all jobs that have not been started is kept if fresh jobs have it and jobs keep
it when views admit them. -/
theorem unstarted_step (h : s.AllUnstarted P) (a : Act τ) (hf : ∀ t, P { task := t })
    (ha : ∀ k c rest, a = .go k → s.threads[k]? = some (c :: rest) →
      ∀ v j, Admits s c v j → P j → P (j.admittedBy v)) : (s.step a).AllUnstarted P := by
  have hs := steps s a
  generalize s.step a = s' at hs
  have hdeed : ∀ {i : Nat} {c : Chore τ} {rest : List (Chore τ)} {d : Deed τ}, a = .go i →
      s.threads[i]? = some (c :: rest) → Performs s c d → DeedUnstarted P d := fun he hi hp =>
    hp.unstarted h (h.hands _ (mem_thread hi List.mem_cons_self)) (ha _ _ _ he hi)
  have hhands : ∀ c ∈ s'.threads.flatten, ∀ j, c.job? = some j → P j := by
    intro c hc j hj
    rcases hs.chore hc with hm | hb
    · exact h.hands c hm j hj
    · cases hb with
      | called =>
        cases hj
        exact hf _
      | calledFrom =>
        cases hj
        exact hf _
      | left hi hp he => exact (hdeed rfl hi hp).hands c he j hj
      | _ => cases hj
  cases hs with
  | built =>
    refine ⟨h.pool, fun x hx => ?_, hhands⟩
    rcases List.mem_append.mp hx with hx | hx
    · exact h.gates x hx
    · rw [List.mem_singleton.mp hx]
      exact nofun
  | began hw _ => exact ⟨(h.pool.turn (Pool.turnLaw_begin _ _ hw)).1, h.gates, hhands⟩
  | resumed hw _ => exact ⟨(h.pool.turn (Pool.turnLaw_resume _ _ hw _)).1, h.gates, hhands⟩
  | goes hi hp => exact ⟨(hdeed rfl hi hp).pool, (hdeed rfl hi hp).gates, hhands⟩
  | closed => exact ⟨h.pool.same (Pool.holding_beginClose ..), h.gates, hhands⟩
  | terminated => exact ⟨h.pool.terminate, h.gates, hhands⟩
  | _ => exact ⟨h.pool, h.gates, hhands⟩

end

end Traffic

end Workforce
