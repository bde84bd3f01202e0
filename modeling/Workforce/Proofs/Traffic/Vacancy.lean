import Workforce.Proofs.Traffic.Estate
import Workforce.Proofs.Traffic.Starts

/-
  What is freed stays empty. When a view is freed no task and no thread is at it, and the views over
  it are gone. So a task that is still on its way never comes there: it would have to come from a
  view over it, or be called on it by name. Of the pool nothing is left but its record: no worker,
  no thread, and no view from which to call.

  `vacant_run`: this holds in every run, whatever is freed and when, with forced terminations or
  without.
-/

namespace Workforce

variable {τ : Type}

/-- A chore that has nothing to do with a view is no section of its gate. -/
theorem Chore.sections_eq_nil {i : Nat} {c : Chore τ} (h : ∀ v ∈ c.views, v.id ≠ i)
    (closed : Bool) : c.sections closed i = [] := by
  cases c with
  | submit d j slot =>
    cases d with
    | pool => rfl
    | view id mode base parent => exact if_neg (h ⟨id, mode, base, parent⟩ List.mem_cons_self)
  | forward d j n =>
    cases d with
    | pool => rfl
    | view id mode base parent => exact if_neg (h ⟨id, mode, base, parent⟩ List.mem_cons_self)
  | next v => exact if_neg (h v List.mem_cons_self)
  | release v => exact if_neg (h v List.mem_cons_self)
  | raise v => exact if_neg (h v List.mem_cons_self)
  | lower v => exact if_neg (h v List.mem_cons_self)
  | _ => rfl

namespace Traffic

theorem mem_views_of_number {d : Dispatcher} {v : View} (h : v ∈ d.view?.toList) :
    d.number = some v.id := by
  rw [Dispatcher.number, Option.mem_toList.mp h]
  rfl

/-- A dispatcher of the traffic has the number under which it is found. -/
theorem number_dispatcher? {s : Traffic τ} (h : s.Charted) {n : Option Nat} {d : Dispatcher}
    (hd : s.dispatcher? n = some d) : d.number = n := by
  cases n with
  | none =>
    cases hd
    rfl
  | some i =>
    obtain ⟨v, hv, rfl⟩ := Option.map_eq_some_iff.mp hd
    exact congrArg some (h.numbered i v hv)

/-- If all tasks of a view have ended, none is still to be started. -/
theorem unstarted_of_unended {s : Traffic τ} {i : Nat} (h : s.unended i = 0) :
    s.AllUnstarted fun j => j.passes i = 0 := by
  refine unstarted_of_unended_le (h ▸ Nat.zero_le _) fun c hc j hj => ?_
  have hsum : (s.threads.flatten.map (Chore.admissions i)).sum = 0 := by
    unfold unended at h
    omega
  rw [← Chore.admissions_of_job? hj i]
  exact List.forall_mem_map.mp (List.sum_eq_zero_iff.mp hsum) c hc

/-! ## Vacant dispatchers -/

/-- What is freed is empty, nobody is there or on the way there, and what stands on it is freed
too. -/
structure Vacant (freed : List (Option Nat)) (s : Traffic τ) : Prop where
  charted : s.Charted
  made : ∀ i, some i ∈ freed → i < s.views.length
  upward : ∀ v ∈ s.views, v.parent.number ∈ freed → some v.id ∈ freed
  empty : ∀ d ∈ freed, s.waitingAt d = []
  jobs : s.AllUnstarted fun j => ∀ v ∈ j.views, some v.id ∉ freed
  chores : ∀ c ∈ s.threads.flatten, ∀ v ∈ c.views, some v.id ∉ freed
  left : none ∈ freed → (∀ x ∈ s.pool.workers, x.phase.hasLeft = true) ∧ s.threads.flatten = []

section

variable {freed : List (Option Nat)} {s : Traffic τ}

theorem Vacant.gate (h : Vacant freed s) {i : Nat} (hi : some i ∈ freed) :
    ∃ x, s.gates[i]? = some x ∧ x.queue = [] := by
  have hlt : i < s.gates.length := h.charted.size ▸ h.made i hi
  have hx := List.getElem?_eq_getElem hlt
  have he : s.waitingAt (some i) = [] := h.empty _ hi
  rw [waitingAt, hx] at he
  exact ⟨_, hx, he⟩

/-- A view on the way of a job that is still to come there is not freed, so neither is the next. -/
theorem Vacant.parent (h : Vacant freed s) {v : View} (hv : s.Known v) (hn : some v.id ∉ freed) :
    ∀ u ∈ v.parent.view?.toList, some u.id ∉ freed := by
  intro u hu hf
  refine hn (h.upward v (List.mem_of_getElem? hv) ?_)
  rw [mem_views_of_number hu]
  exact hf

/-- If the pool is freed, so is every view. -/
theorem Vacant.all (h : Vacant freed s) (hp : none ∈ freed) {d : Dispatcher}
    (hd : ∀ v ∈ d.views, s.Known v) : d.number ∈ freed := by
  induction d with
  | pool => exact hp
  | view id mode base parent ih =>
    have hknown := List.forall_mem_cons.mp hd
    exact h.upward _ (List.mem_of_getElem? hknown.1) (ih hknown.2)

end

variable [Kinded τ] {freed : List (Option Nat)} {s : Traffic τ}

/-- What a chore leaves behind is at views that are not freed. -/
theorem Performs.vacant {c : Chore τ} {d : Deed τ} (hp : Performs s c d) (h : Vacant freed s)
    (hm : c ∈ s.threads.flatten) : ∀ e ∈ d.todo, ∀ v ∈ e.views, some v.id ∉ freed := by
  have hc := h.chores c hm
  have hfits : s.Fits c := by
    obtain ⟨cs, hcs, hm⟩ := List.mem_flatten.mp hm
    exact h.charted.chores cs hcs c hm
  have hreleases : ∀ {vs : List View}, (∀ v ∈ vs, some v.id ∉ freed) →
      ∀ e ∈ vs.map (Chore.release (τ := τ)), ∀ v ∈ e.views, some v.id ∉ freed := by
    intro vs hvs e he v hv
    obtain ⟨u, hu, rfl⟩ := List.mem_map.mp he
    rw [List.mem_singleton.mp hv]
    exact hvs u hu
  have hnext : ∀ {vs : List View} (n : Nat), (∀ v ∈ vs, some v.id ∉ freed) →
      ∀ e ∈ (vs[n]?).toList.map (Chore.next (τ := τ)), ∀ v ∈ e.views, some v.id ∉ freed := by
    intro vs n hvs e he v hv
    obtain ⟨u, hu, rfl⟩ := List.mem_map.mp he
    rw [List.mem_singleton.mp hv]
    exact hvs u (List.mem_of_getElem? (Option.mem_toList.mp hu))
  -- a job that a view has just admitted goes on to the next
  have hgo : ∀ {v : View} {j : Job τ}, s.Known v → some v.id ∉ freed →
      (∀ u ∈ j.views, some u.id ∉ freed) →
      ∀ u ∈ v.parent.view?.toList ++ (j.admittedBy v).views, some u.id ∉ freed := by
    intro v j hv hn hj u hu
    rcases List.mem_append.mp hu with hu | hu
    · exact h.parent hv hn u hu
    · rcases List.mem_cons.mp hu with rfl | hu
      · exact hn
      · exact hj u hu
  have hroute : ∀ {j : Job τ} {v : View},
      s.Called j.task (j.views.reverse ++ v.toDispatcher.views) → s.Known v := fun hr =>
    (h.charted.routes _ _ hr).known _ (List.mem_append_right _ List.mem_cons_self)
  have hbody : ∀ {w : Nat} {r : Pool.Turn (Job τ)},
      (∀ j, r.lifted = some j → ∀ v ∈ j.views, some v.id ∉ freed) →
      ∀ e ∈ turnChores w r, ∀ v ∈ e.views, some v.id ∉ freed := by
    intro w r hr e he
    obtain ⟨j, hj, rfl⟩ := mem_turnChores.mp he
    exact hr j (Pool.Turn.lifted_of_started hj)
  cases hp with
  | idle => exact List.forall_mem_singleton.mpr hc
  | @displaced _ _ w j k x ho hw _ hs =>
    refine List.forall_mem_singleton.mpr fun v hv => ?_
    rcases List.mem_append.mp hv with hv | hv
    · exact h.jobs.pool.slotted w k ((Pool.slotOf?_eq hw).trans hs) v hv
    · exact hc v hv
  | refused => exact hreleases fun v hv => hc v (List.mem_append_right _ hv)
  | entered =>
    refine List.forall_mem_singleton.mpr (hgo (hroute hfits) (hc _ List.mem_cons_self) ?_)
    exact fun u hu => hc u (List.mem_cons_of_mem _ hu)
  | cut => exact hreleases fun v hv => hc v (List.mem_append_right _ hv)
  | handed => exact hnext _ fun v hv => hc v hv
  | passed =>
    refine List.forall_mem_singleton.mpr (hgo (hroute hfits) (hc _ List.mem_cons_self) ?_)
    exact fun u hu => hc u (List.mem_cons_of_mem _ hu)
  | waitsAgain => exact hnext _ fun v hv => hc v (List.mem_cons_of_mem _ hv)
  | discarded => exact hreleases fun v hv => hc v (List.mem_of_mem_take hv)
  | @admits c v change es x j rest hs hg hq _ =>
    have hknown : s.Known v := by cases hs <;> exact hfits
    have hv : some v.id ∉ freed := by cases hs <;> exact hc v List.mem_cons_self
    have hj : j ∈ x.queue := by
      rw [← hs.queue, hq]
      exact List.mem_cons_self
    refine List.forall_mem_singleton.mpr (hgo hknown hv ?_)
    exact h.jobs.gates x (List.mem_of_getElem? hg) j hj
  | finished hw _ => exact hbody (h.jobs.pool.turn (Pool.turnLaw_finish _ _ hw _)).2
  | died hw _ =>
    rw [Pool.die_fst]
    exact nofun
  | _ => exact nofun

/-- Threads come to no view that is freed. -/
theorem Vacant.chores_step (h : Vacant freed s) {a : Act τ} (ha : ∀ d ∈ a.names, d ∉ freed) :
    ∀ c ∈ (s.step a).threads.flatten, ∀ v ∈ c.views, some v.id ∉ freed := by
  have hcalled : ∀ {n : Option Nat} {d : Dispatcher}, s.dispatcher? n = some d → n ∈ a.names →
      ∀ v ∈ d.view?.toList ++ [], some v.id ∉ freed := by
    intro n d hd hn v hv
    rw [List.append_nil] at hv
    rw [← mem_views_of_number hv, number_dispatcher? h.charted hd]
    exact ha n hn
  have hnamed : ∀ {vs : List Nat} {v : View}, v ∈ vs.filterMap (fun i => s.views[i]?) →
      (∀ i ∈ vs, some i ∈ a.names) → ∀ u ∈ [v], some u.id ∉ freed := by
    intro vs v hv hn
    obtain ⟨i, hi, hv⟩ := List.mem_filterMap.mp hv
    refine List.forall_mem_singleton.mpr ?_
    rw [h.charted.numbered i v hv]
    exact ha _ (hn i hi)
  intro c hc
  rcases (steps s a).chore hc with hm | hb
  · exact h.chores c hm
  · cases hb with
    | called hd => exact hcalled hd List.mem_cons_self
    | calledFrom hd => exact hcalled hd List.mem_cons_self
    | raises hv =>
      exact hnamed hv fun i hi => List.mem_append_right _ (List.mem_map_of_mem hi)
    | lowers hv =>
      exact hnamed hv fun i hi => List.mem_append_right _ (List.mem_map_of_mem hi)
    | releases hi hv =>
      refine List.forall_mem_singleton.mpr ?_
      exact h.chores _ (mem_thread hi List.mem_cons_self) _ hv
    | began hw hx hj => exact h.jobs.started ((started?_begin hw hx).trans hj)
    | resumed hw hx hj => exact h.jobs.started ((started?_resume hw hx _).trans hj)
    | left hi hp he => exact hp.vacant h (mem_thread hi List.mem_cons_self) c he
    | _ => exact nofun

/-- In a pool that is freed nothing happens any more. -/
theorem Vacant.left_step (h : Vacant freed s) (hp : none ∈ freed) {a : Act τ}
    (ha : ∀ d ∈ a.names, d ∉ freed) :
    (s.step a).pool = s.pool ∧ (s.step a).threads.flatten = [] := by
  obtain ⟨hgone, hthreads⟩ := h.left hp
  have hnone : ∀ {n : Option Nat} {d : Dispatcher}, s.dispatcher? n = some d → n ∉ a.names := by
    intro n d hd hn
    refine ha n hn ?_
    rw [← number_dispatcher? h.charted hd]
    exact h.all hp (chain_dispatcher h.charted hd).known
  have hempty : ∀ {vs : List Nat}, (∀ i ∈ vs, some i ∈ a.names) →
      vs.filterMap (fun i => s.views[i]?) = [] := by
    intro vs hn
    refine List.filterMap_eq_nil_iff.mpr fun i hi => ?_
    cases hv : s.views[i]? with
    | none => rfl
    | some v =>
      have hd : s.dispatcher? (some i) = some v.toDispatcher := by rw [dispatcher?, hv]; rfl
      exact absurd (hn i hi) (hnone hd)
  have hidle : ∀ {k : Nat} {c : Chore τ} {rest : List (Chore τ)},
      s.threads[k]? ≠ some (c :: rest) := by
    intro k c rest hk
    have hm := mem_thread hk List.mem_cons_self
    rw [hthreads] at hm
    cases hm
  have hworker : ∀ {w : Nat} {x : Worker (Job τ)}, s.pool.worker? w = some x →
      x.phase.hasLeft = true := fun hw => hgone _ (List.mem_of_getElem? hw)
  have hs := steps s a
  generalize s.step a = s' at hs
  cases hs with
  | stays => exact ⟨rfl, hthreads⟩
  | built => exact ⟨rfl, hthreads⟩
  | called hd => exact absurd List.mem_cons_self (hnone hd)
  | calledFrom _ hi => exact absurd hi hidle
  | flushes hi => exact absurd hi hidle
  | raised w vs =>
    have hviews : vs.filterMap (fun i => s.views[i]?) = [] :=
      hempty fun i hi => List.mem_append_right _ (List.mem_map_of_mem hi)
    cases w with
    | some w => exact absurd hp (ha none List.mem_cons_self)
    | none =>
      refine ⟨rfl, ?_⟩
      show (s.threads ++ [s.raises none vs]).flatten = []
      rw [List.flatten_append, hthreads, raises, hviews]
      rfl
  | lowered w vs =>
    have hviews : vs.filterMap (fun i => s.views[i]?) = [] :=
      hempty fun i hi => List.mem_append_right _ (List.mem_map_of_mem hi)
    cases w with
    | some w => exact absurd hp (ha none List.mem_cons_self)
    | none =>
      refine ⟨rfl, ?_⟩
      show (s.threads ++ [s.lowers none vs]).flatten = []
      rw [List.flatten_append, hthreads, lowers, hviews]
      rfl
  | ended hi => exact absurd hi hidle
  | barred hi => exact absurd hi hidle
  | began hw hx =>
    have hl := hworker hw
    rw [hx] at hl
    cases hl
  | resumed hw hx =>
    have hl := hworker hw
    rw [hx] at hl
    cases hl
  | goes hi => exact absurd hi hidle
  | closed => exact absurd hp (ha none List.mem_cons_self)
  | terminated => exact absurd hp (ha none List.mem_cons_self)

theorem vacant_step (h : Vacant freed s) {a : Act τ} (ha : ∀ d ∈ a.names, d ∉ freed) :
    Vacant freed (s.step a) := by
  have hviews : (∀ i, some i ∈ freed → i < (s.step a).views.length) ∧
      ∀ v ∈ (s.step a).views, v.parent.number ∈ freed → some v.id ∈ freed := by
    have hs := steps s a
    generalize s.step a = s' at hs
    cases hs with
    | built hd =>
      refine ⟨fun i hi => ?_, fun v hv hf => ?_⟩
      · rw [List.length_append]
        exact Nat.lt_add_right _ (h.made i hi)
      · rcases List.mem_append.mp hv with hv | hv
        · exact h.upward v hv hf
        · -- a view is made only over what is not freed
          rw [List.mem_singleton.mp hv, number_dispatcher? h.charted hd] at hf
          exact absurd hf (ha _ List.mem_cons_self)
    | _ => exact ⟨h.made, h.upward⟩
  refine ⟨charted_step h.charted a, hviews.1, hviews.2, fun d hd => ?_, ?_, h.chores_step ha,
    fun hp => ?_⟩
  · cases d with
    | none =>
      rw [waitingAt, (h.left_step hd ha).1]
      exact h.empty none hd
    | some i =>
      obtain ⟨x, hx, hq⟩ := h.gate hd
      have hsections : s.sections i a = [] := by
        cases a with
        | go k =>
          simp only [sections]
          split
          case h_1 c rest hk =>
            refine Chore.sections_eq_nil (fun v hv hi => ?_) _
            exact h.chores c (mem_thread hk List.mem_cons_self) v hv (hi ▸ hd)
          case h_2 => rfl
        | _ => rfl
      have hfollows := follows_step (d := { gate := x }) hx a
      rw [hsections] at hfollows
      have hsame : (s.step a).gates[i]? = some x := hfollows
      rw [waitingAt, hsame]
      exact hq
  · refine unstarted_step h.jobs a (fun t => List.forall_mem_nil _) ?_
    intro k c rest _ hk v j hadm hj
    refine List.forall_mem_cons.mpr ⟨?_, hj⟩
    refine h.chores c (mem_thread hk List.mem_cons_self) v ?_
    cases hadm with
    | submitted => exact List.mem_cons_self
    | forwarded => exact List.mem_cons_self
    | settled hc => cases hc <;> exact List.mem_cons_self
  · obtain ⟨hpool, hthreads⟩ := h.left_step hp ha
    exact ⟨hpool ▸ (h.left hp).1, hthreads⟩

/-! ## Freeing -/

omit [Kinded τ] in
theorem waitingAt_emptied (s : Traffic τ) (d : Option Nat) : (s.emptied d).waitingAt d = [] := by
  cases d with
  | none => rfl
  | some i =>
    show ((((s.gates.modify i fun g => { g with queue := [] })[i]?).map Gate.queue).getD []) = []
    cases hx : s.gates[i]? <;> simp [hx]

omit [Kinded τ] in
/-- Where nobody waits, nobody waits afterwards. -/
theorem waitingAt_emptied_eq_nil {s : Traffic τ} {e : Option Nat} (h : s.waitingAt e = [])
    (d : Option Nat) : (s.emptied d).waitingAt e = [] := by
  by_cases he : d = e
  · subst he
    exact waitingAt_emptied s d
  · cases d with
    | none =>
      cases e with
      | none => exact absurd rfl he
      | some i => exact h
    | some k =>
      cases e with
      | none => exact h
      | some i =>
        have hk : k ≠ i := fun hk => he (congrArg some hk)
        show ((((s.gates.modify k _)[i]?).map Gate.queue).getD []) = []
        rw [List.getElem?_modify_ne _ _ hk]
        exact h

omit [Kinded τ] in
/-- A gate keeps its jobs or loses them all. -/
theorem exists_of_emptied {s : Traffic τ} {d : Option Nat} {i : Nat} {x : Gate (Job τ)}
    (hx : (s.emptied d).gates[i]? = some x) {j : Job τ} (hj : j ∈ x.queue) :
    ∃ y, s.gates[i]? = some y ∧ j ∈ y.queue := by
  cases d with
  | none => exact ⟨x, hx, hj⟩
  | some k =>
    have hm : (s.gates.modify k fun g => { g with queue := [] })[i]? = some x := hx
    rw [List.getElem?_modify] at hm
    obtain ⟨y, hy, rfl⟩ := Option.map_eq_some_iff.mp hm
    by_cases hk : k = i
    · rw [if_pos hk] at hj
      cases hj
    · rw [if_neg hk] at hj
      exact ⟨y, hy, hj⟩

omit [Kinded τ] in
theorem allWaiting_free {P : Job τ → Prop} {s : Traffic τ} (h : s.pool.AllWaiting P)
    (d : Option Nat) : (s.free d).pool.AllWaiting P := by
  cases d with
  | some i => exact h
  | none => exact ⟨nofun, h.slotted⟩

omit [Kinded τ] in
theorem unstarted_free {P : Job τ → Prop} {s : Traffic τ} (h : s.AllUnstarted P) (d : Option Nat) :
    (s.free d).AllUnstarted P := by
  refine ⟨allWaiting_free h.pool d, fun x hx j hj => ?_, ?_⟩
  · obtain ⟨i, hi⟩ := List.getElem?_of_mem hx
    obtain ⟨y, hy, hj⟩ := exists_of_emptied (d := d) hi hj
    exact h.gates y (List.mem_of_getElem? hy) j hj
  · cases d <;> exact h.hands

omit [Kinded τ] in
theorem charted_free {s : Traffic τ} (h : s.Charted) (d : Option Nat) : (s.free d).Charted := by
  have hviews : (s.free d).views = s.views := by cases d <;> rfl
  have hthreads : (s.free d).threads = s.threads := by cases d <;> rfl
  have hgrow : Grows s (s.free d) := grows_log hviews rfl
  have hcalled : ∀ {t : τ} {route : List View}, (s.free d).Called t route → s.Called t route := by
    intro t route hm
    rcases List.mem_append.mp hm with hm | hm
    · exact hm
    · obtain ⟨j, -, hm⟩ := List.mem_flatMap.mp hm
      simp [Job.lost] at hm
  have hsize : (s.free d).gates.length = s.gates.length := by
    cases d with
    | none => rfl
    | some i => exact List.length_modify ..
  have hknown : ∀ {v : View}, (s.free d).Known v ↔ s.Known v := by
    intro v
    unfold Known
    rw [hviews]
  refine ⟨?_, ?_, fun v hv => (h.chains v (hknown.mp hv)).grow hgrow,
    fun t route hm => (h.routes t route (hcalled hm)).grow hgrow, ?_, fun i x hx j hj => ?_,
    fun cs hcs c hc => ?_⟩
  · rw [hviews, hsize]
    exact h.size
  · rw [hviews]
    exact h.numbered
  · exact (allWaiting_free h.queued d).imp fun j hj => hgrow.called _ _ hj
  · obtain ⟨y, hy, hj⟩ := exists_of_emptied (d := d) hx hj
    obtain ⟨v, hv, hr⟩ := h.gated i y hy j hj
    exact ⟨v, hviews ▸ hv, hgrow.called _ _ hr⟩
  · rw [hthreads] at hcs
    exact (h.chores cs hcs c hc).grow hgrow

omit [Kinded τ] in
/-- What nothing holds and nothing stands on is vacant once it is freed. -/
theorem vacant_free (h : Vacant freed s) {d : Option Nat} (hd : s.Unheld d)
    (hup : ∀ v ∈ s.views, v.parent.number = d → some v.id ∈ freed) :
    Vacant (d :: freed) (s.free d) := by
  have hviews : (s.free d).views = s.views := by cases d <;> rfl
  have hthreads : (s.free d).threads = s.threads := by cases d <;> rfl
  have hworkers : (s.free d).pool.workers = s.pool.workers := by cases d <;> rfl
  have hjobs : s.AllUnstarted fun j => ∀ v ∈ j.views, some v.id ≠ d := by
    cases d with
    | none => exact h.jobs.imp fun j _ v _ => nofun
    | some i =>
      refine (unstarted_of_unended hd.2.1).imp fun j hj v hv hi => ?_
      exact List.countP_eq_zero.mp hj v hv (decide_eq_true (Option.some.inj hi))
  have hchores : ∀ c ∈ s.threads.flatten, ∀ v ∈ c.views, some v.id ≠ d := by
    cases d with
    | none => exact fun _ _ v _ => nofun
    | some i => exact fun c hc v hv hi => hd.2.2 c hc v hv (Option.some.inj hi)
  refine ⟨charted_free h.charted d, fun i hi => ?_, fun v hv hf => ?_, fun e he => ?_, ?_, ?_,
    fun hp => ?_⟩
  · rw [hviews]
    rcases List.mem_cons.mp hi with rfl | hi
    · exact hd.1
    · exact h.made i hi
  · rw [hviews] at hv
    refine List.mem_cons_of_mem d ?_
    rcases List.mem_cons.mp hf with hf | hf
    · exact hup v hv hf
    · exact h.upward v hv hf
  · have hempty : (s.emptied d).waitingAt e = [] := by
      rcases List.mem_cons.mp he with rfl | he
      · exact waitingAt_emptied s e
      · exact waitingAt_emptied_eq_nil (h.empty e he) d
    cases d <;> exact hempty
  · refine unstarted_free ((hjobs.and h.jobs).imp fun j hj v hv => ?_) d
    exact List.not_mem_cons_of_ne_of_not_mem (hj.1 v hv) (hj.2 v hv)
  · rw [hthreads]
    intro c hc v hv
    exact List.not_mem_cons_of_ne_of_not_mem (hchores c hc v hv) (h.chores c hc v hv)
  · rw [hworkers, hthreads]
    rcases List.mem_cons.mp hp with rfl | hp
    · exact ⟨hd.2.1, List.isEmpty_iff.mp hd.2.2⟩
    · exact h.left hp

end Traffic

/-- In every run what was freed is empty, and nobody is there or on the way there. -/
theorem Estate.vacant_run [Kinded τ] (c : Config) (xs : List (Estate.Act τ)) :
    ((Estate.start c).run xs).traffic.Vacant ((Estate.start c).run xs).freed := by
  have hstart : (Estate.start c : Estate τ).traffic.Vacant [] := by
    refine ⟨Traffic.charted_run c [], nofun, nofun, nofun, ⟨?_, nofun, nofun⟩, nofun, nofun⟩
    exact Pool.allWaiting_iff.mpr (Pool.holding_ofConfig _ _ c)
  refine List.foldlRecOn (motive := fun e : Estate τ => e.traffic.Vacant e.freed) xs step hstart
    fun e he x _ => ?_
  unfold step
  split
  case isFalse => exact he
  case isTrue hc =>
    cases x with
    | act a => exact Traffic.vacant_step he hc
    | free d => exact Traffic.vacant_free he hc.2.1 hc.2.2

end Workforce
