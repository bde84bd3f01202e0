import Workforce.Proofs.Traffic.Compensation

/-
  Exclusive views. The limit of an exclusive view is one and no compensator names the view, so its
  gate counts one task at most. What the gate counts is not what runs: a task is counted from its
  admission on, waits in other queues, and is given back by the thread that ended it. But all these
  are counted, so while a body runs no other task of the view is past the gate, started or not.

  `exclusive_prefixes_iff`: as long as no act overdraws an exclusive view, its bodies run one at a
  time and start in the order in which it accepted their tasks. Places are given in that order
  (`Diary.inOrder_run`), and a place is given to the next task only after the last one was started
  and ended, so tasks start in the order of their places (`inTurn_step`). The view is held only by
  tasks that are still to end exactly if no act parts a task from its admission.

  Such acts exist (`exclusion_fails`). A close may cut the submission of a tail task in two; the
  admission of that task is given back then although the task is kept, and the next body runs beside
  its own. A worker that dies with a task of the view in its slot takes the only place along.
-/

namespace Workforce

open Gate (Section Diary)

variable {τ : Type}

/-! ## Chores of one view -/

/-- A chore is a body of a task that a view admitted. -/
def Chore.runsIn (i : Nat) : Chore τ → Bool
  | .body _ j => 0 < j.passes i
  | _ => false

theorem Chore.runsIn_le (i : Nat) (c : Chore τ) :
    (if c.runsIn i = true then 1 else 0) ≤ c.admissions i := by
  cases c with
  | body w j =>
    by_cases hj : 0 < j.passes i
    · have hr : Chore.runsIn i (.body w j) = true := decide_eq_true hj
      rw [if_pos hr]
      exact hj
    · have hr : Chore.runsIn i (.body w j) = false := decide_eq_false hj
      rw [hr]
      exact Nat.zero_le _
  | _ => exact Nat.zero_le _

/-- A section that changes a limit is the chore of a raise or a lowering. -/
theorem Chore.adjusts_of_moves {closed : Bool} {i : Nat} {c : Chore τ} {t : Section (Job τ)}
    (h : t ∈ c.sections closed i) (hm : t.moves = true) : ∃ v, c.adjusts = some v ∧ v.id = i := by
  have hif : ∀ {p : Prop} [Decidable p] {u : Section (Job τ)}, t ∈ (if p then [u] else []) →
      p ∧ t = u := by
    intro p _ u hu
    by_cases hp : p
    · rw [if_pos hp] at hu
      exact ⟨hp, List.mem_singleton.mp hu⟩
    · rw [if_neg hp] at hu
      cases hu
  cases c with
  | submit d j slot =>
    cases d with
    | pool => cases h
    | view => rw [(hif h).2] at hm; cases hm
  | forward d j n =>
    cases d with
    | pool => cases h
    | view => rw [(hif h).2] at hm; cases hm
  | next v => rw [(hif h).2] at hm; cases hm
  | release v => rw [(hif h).2] at hm; cases hm
  | raise v => exact ⟨v, rfl, (hif h).1⟩
  | lower v => exact ⟨v, rfl, (hif h).1⟩
  | _ => cases h

theorem add_le_sum_map {α : Type} (f : α → Nat) {xs : List α} {a b : α} (ha : a ∈ xs) (hb : b ∈ xs)
    (hn : a ≠ b) : f a + f b ≤ (xs.map f).sum := by
  induction xs with
  | nil => cases ha
  | cons x xs ih =>
    simp only [List.map_cons, List.sum_cons]
    have hle : ∀ {y : α}, y ∈ xs → f y ≤ (xs.map f).sum := fun hy =>
      List.le_sum_of_mem (List.mem_map_of_mem hy)
    rcases List.mem_cons.mp ha with rfl | ha'
    · rcases List.mem_cons.mp hb with rfl | hb'
      · exact absurd rfl hn
      · exact Nat.add_le_add_left (hle hb') _
    · rcases List.mem_cons.mp hb with rfl | hb'
      · rw [Nat.add_comm]
        exact Nat.add_le_add_left (hle ha') _
      · exact Nat.le_add_left_of_le (ih ha' hb')

namespace Traffic

theorem bodies_le_unended (s : Traffic τ) (i : Nat) :
    s.threads.flatten.countP (Chore.runsIn i) ≤ s.unended i := by
  have hsum := List.sum_le_sum fun c (_ : c ∈ s.threads.flatten) => Chore.runsIn_le i c
  rw [sum_map_ite fun c => Chore.runsIn i c = true] at hsum
  have hcount : s.threads.flatten.countP (fun c => Chore.runsIn i c = true) =
      s.threads.flatten.countP (Chore.runsIn i) := by simp only [Bool.decide_eq_true]
  unfold unended
  omega

/-- While a body of a view runs that has one task past its gate, no other task is there. -/
theorem unstarted_of_body {s : Traffic τ} {i : Nat} (h : s.unended i ≤ 1) {w : Nat} {j : Job τ}
    (hb : .body w j ∈ s.threads.flatten) (hj : 0 < j.passes i) :
    s.AllUnstarted fun k => k.passes i = 0 := by
  have hbody : j.passes i ≤ (s.threads.flatten.map (Chore.admissions i)).sum :=
    List.le_sum_of_mem (List.mem_map_of_mem (f := Chore.admissions i) hb)
  refine unstarted_of_unended_le (by omega) fun c hc k hk => ?_
  have hne : c ≠ .body w j := by
    rintro rfl
    cases hk
  have hadd := add_le_sum_map (Chore.admissions i) hc hb hne
  rw [Chore.admissions_of_job? hk] at hadd
  have hw : Chore.admissions i (.body w j) = j.passes i := rfl
  unfold unended at h
  omega

variable [Kinded τ]

/-! ## Views and their diaries -/

theorem views_step (s : Traffic τ) (a : Act τ) : s.views <+: (s.step a).views := by
  have hs := steps s a
  generalize s.step a = s' at hs
  cases hs with
  | built => exact List.prefix_append ..
  | _ => exact List.prefix_refl _

/-- Views stay. -/
theorem view_step {s : Traffic τ} {i : Nat} {v : View} (h : s.views[i]? = some v) (a : Act τ) :
    (s.step a).views[i]? = some v := by
  obtain ⟨vs, hvs⟩ := views_step s a
  obtain ⟨hlt, -⟩ := List.getElem?_eq_some_iff.mp h
  rw [← hvs, List.getElem?_append_left hlt]
  exact h

theorem view_run {s : Traffic τ} {i : Nat} {v : View} (h : s.views[i]? = some v)
    (as : List (Act τ)) : (s.run as).views[i]? = some v := by
  induction as generalizing s with
  | nil => exact h
  | cons a as ih => exact ih (view_step h a)

/-- A view is made with a gate for its first limit. -/
theorem gate_of_new {s : Traffic τ} (hc : s.Charted) {a : Act τ} {i : Nat} {v : View}
    (h : s.views[i]? = none) (hv : (s.step a).views[i]? = some v) :
    (s.step a).gates[i]? = some { limit := v.base } := by
  have hs := steps s a
  generalize s.step a = s' at hv hs
  cases hs with
  | built =>
    rcases getElem?_concat_cases hv with hv | ⟨rfl, rfl⟩
    · exact absurd (h.symm.trans hv) nofun
    · show (s.gates ++ [_])[s.views.length]? = _
      rw [hc.size, List.getElem?_concat_length]
  | _ => exact absurd (h.symm.trans hv) nofun

theorem views_of_ne_build {s s' : Traffic τ} {a : Act τ} (h : Steps s a s')
    (ha : ∀ n mode limit, a ≠ .build n mode limit) : s'.views = s.views := by
  cases h with
  | built => exact absurd rfl (ha _ _ _)
  | _ => rfl

/-- Exclusive views are made with the limit one. -/
theorem base_step {s : Traffic τ} (h : ∀ v ∈ s.views, v.mode = .exclusive → v.base = 1)
    (a : Act τ) : ∀ v ∈ (s.step a).views, v.mode = .exclusive → v.base = 1 := by
  have hadd : ∀ {d : Dispatcher}, (∀ v, d.view? = some v → v.mode = .exclusive → v.base = 1) →
      ∀ v ∈ (s.addView d).views, v.mode = .exclusive → v.base = 1 := by
    intro d hd v hv
    unfold addView at hv
    split at hv
    case h_1 u hu =>
      rcases List.mem_append.mp hv with hv | hv
      · exact h v hv
      · rw [List.mem_singleton.mp hv]
        exact hd u hu
    case h_2 => exact h v hv
  cases a with
  | build n mode limit =>
    simp only [step]
    split
    case h_1 parent hd =>
      unfold Dispatcher.soft
      split_ifs
      · exact h
      · exact h
      · exact hadd fun v hv hm => by cases hv; cases hm
    case h_2 parent hd => exact hadd fun v hv _ => by cases hv; rfl
    case h_3 => exact h
  | _ =>
    rw [views_of_ne_build (steps s _) fun n mode limit he => by cases he]
    exact h

theorem base_run (c : Config) (as : List (Act τ)) :
    ∀ v ∈ ((start c).run as).views, v.mode = .exclusive → v.base = 1 := by
  have hs : ∀ v ∈ (start c : Traffic τ).views, v.mode = .exclusive → v.base = 1 := nofun
  exact List.foldlRecOn (motive := fun s => ∀ v ∈ s.views, v.mode = .exclusive → v.base = 1) as
    step hs fun _ hs a _ => base_step hs a

omit [Kinded τ] in
/-- Only gates that are there have sections. -/
theorem lt_of_sections {s : Traffic τ} (h : s.Charted) {i : Nat} {a : Act τ}
    {t : Section (Job τ)} (ht : t ∈ s.sections i a) : i < s.gates.length := by
  have hif : ∀ {v : View} {u : Section (Job τ)}, s.Known v →
      t ∈ (if v.id = i then [u] else []) → i < s.gates.length := by
    intro v u hk hu
    by_cases hv : v.id = i
    · rw [← hv]
      exact hk.id_lt h
    · rw [if_neg hv] at hu
      cases hu
  have hroute : ∀ {j : Job τ} {v : View},
      s.Called j.task (j.views.reverse ++ v.toDispatcher.views) → s.Known v := fun hc =>
    (h.routes _ _ hc).known _ (List.mem_append_right _ List.mem_cons_self)
  cases a with
  | go k =>
    simp only [sections] at ht
    split at ht
    case h_2 => cases ht
    case h_1 c rest hk =>
      have hf : s.Fits c := h.chores _ (List.mem_of_getElem? hk) c List.mem_cons_self
      cases c with
      | submit d j slot =>
        cases d with
        | pool => cases ht
        | view id mode base parent => exact hif (v := ⟨id, mode, base, parent⟩) (hroute hf) ht
      | forward d j n =>
        cases d with
        | pool => cases ht
        | view id mode base parent => exact hif (v := ⟨id, mode, base, parent⟩) (hroute hf) ht
      | next v => exact hif hf ht
      | release v => exact hif hf ht
      | raise v => exact hif hf ht
      | lower v => exact hif hf ht
      | _ => cases ht
  | _ => cases ht

omit [Kinded τ] in
theorem sections_eq_nil {s : Traffic τ} (h : s.Charted) {i : Nat} (hi : s.views[i]? = none)
    (a : Act τ) : s.sections i a = [] := by
  have hlen : s.gates.length ≤ i := by
    rw [← h.size]
    exact List.getElem?_eq_none_iff.mp hi
  exact List.eq_nil_iff_forall_not_mem.mpr fun t ht =>
    Nat.not_lt.mpr hlen (lt_of_sections h ht)

/-- A gate that is not there yet has had no sections. -/
theorem sectionsAt_eq_nil (c : Config) (as : List (Act τ)) {i : Nat}
    (hi : ((start c).run as).views[i]? = none) : sectionsAt i (start c) as = [] := by
  -- induction on the number of acts
  induction as using List.reverseRecOn with
  | nil => rfl
  | append_singleton as a ih =>
    rw [run_concat] at hi
    have hold : ((start c).run as).views[i]? = none := by
      cases hv : ((start c).run as).views[i]? with
      | none => rfl
      | some v => exact absurd ((view_step hv a).symm.trans hi) nofun
    rw [sectionsAt_concat, ih hold, sections_eq_nil (charted_run c as) hold]
    rfl

/-- A gate is where its diary leads. -/
theorem tracked_run (c : Config) {as : List (Act τ)} {i : Nat} {v : View}
    (hv : ((start c).run as).views[i]? = some v) :
    ((start c).run as).gates[i]? =
      some ((Diary.start v.base).run (sectionsAt i (start c) as)).gate := by
  -- induction on the number of acts
  induction as using List.reverseRecOn with
  | nil => cases hv
  | append_singleton as a ih =>
    rw [run_concat] at hv ⊢
    have hc := charted_run c as
    cases hold : ((start c).run as).views[i]? with
    | none =>
      rw [sectionsAt_concat, sectionsAt_eq_nil c as hold, sections_eq_nil hc hold]
      exact gate_of_new hc hold hv
    | some u =>
      cases (view_step hold a).symm.trans hv
      rw [sectionsAt_concat, Diary.run_append]
      exact follows_step (ih hold) a

/-! ## One task at a time -/

omit [Kinded τ] in
theorem Fits.known {s : Traffic τ} {c : Chore τ} (h : s.Fits c) {v : View}
    (hv : c.adjusts = some v) : s.Known v := by
  cases c <;> cases hv <;> exact h

omit [Kinded τ] in
/-- No section changes the limit of an exclusive view. -/
theorem steady_step {s : Traffic τ} (hc : s.Charted) (hs : s.Calm) {i : Nat}
    (he : ∀ v, s.views[i]? = some v → v.mode = .exclusive) (a : Act τ) :
    ∀ t ∈ s.sections i a, t.moves = false := by
  intro t ht
  cases a with
  | go k =>
    simp only [sections] at ht
    split at ht
    case h_2 => cases ht
    case h_1 c rest hk =>
      refine Bool.eq_false_iff.mpr fun hm => ?_
      obtain ⟨v, hv, rfl⟩ := Chore.adjusts_of_moves ht hm
      have hsoft : v.mode = .soft := hs c (mem_thread hk List.mem_cons_self) v hv
      have hfits : s.Fits c := hc.chores _ (List.mem_of_getElem? hk) c List.mem_cons_self
      cases (he v (hfits.known hv)).symm.trans hsoft
  | _ => cases ht

theorem exclusive_of_step {s : Traffic τ} {a : Act τ} {i : Nat}
    (h : ∀ v, (s.step a).views[i]? = some v → v.mode = .exclusive) :
    ∀ v, s.views[i]? = some v → v.mode = .exclusive := fun v hv => h v (view_step hv a)

theorem steady_run (c : Config) {as : List (Act τ)} (hr : Compensated (start c) as) {i : Nat}
    (he : ∀ v, ((start c).run as).views[i]? = some v → v.mode = .exclusive) :
    ∀ t ∈ sectionsAt i (start c) as, t.moves = false := by
  -- induction on the number of acts
  induction as using List.reverseRecOn with
  | nil => exact nofun
  | append_singleton as a ih =>
    obtain ⟨has, -⟩ := compensated_append.mp hr
    rw [run_concat] at he
    have he' := exclusive_of_step he
    intro t ht
    rw [sectionsAt_concat] at ht
    rcases List.mem_append.mp ht with ht | ht
    · exact ih has he' t ht
    · exact steady_step (charted_run c as) (calm_run c has) he' a t ht

/-- The gate of an exclusive view, with its diary: at most one task that has not ended is past
it. -/
structure Serial (i : Nat) (s : Traffic τ) (d : Diary (Job τ)) : Prop where
  gate : ∀ x, s.gates[i]? = some x → x = d.gate
  single : s.unended i ≤ 1

theorem serial_run (c : Config) {as : List (Act τ)} (hr : Compensated (start c) as) {i : Nat}
    (hn : ∀ us a, us ++ [a] <+: as → ¬ ((start c).run us).Overdraws a i)
    (he : ∀ v, ((start c).run as).views[i]? = some v → v.mode = .exclusive) :
    Serial i ((start c).run as) ((Diary.start 1).run (sectionsAt i (start c) as)) := by
  cases hv : ((start c).run as).views[i]? with
  | none =>
    have hlen : ((start c).run as).gates.length ≤ i := by
      rw [← (charted_run c as).size]
      exact List.getElem?_eq_none_iff.mp hv
    have hz := (tallied_of_not_overdraws c hn).admissions_eq_zero hlen
    have hbal := balanced_ofGate (balanced_run (Weights.ofGate (τ := τ) i) c as)
    have hcov := (covered_run c hn).1
    rw [sectionsAt_eq_nil c as hv]
    refine ⟨fun x hx => ?_, ?_⟩
    · rw [List.getElem?_eq_none_iff.mpr hlen] at hx
      cases hx
    · rw [← weight_ofGate]
      unfold Covered at hcov
      omega
  | some v =>
    have hbase : v.base = 1 := base_run c as v (List.mem_of_getElem? hv) (he v hv)
    have hg := tracked_run c hv
    rw [hbase] at hg
    refine ⟨fun x hx => Option.some.inj (hx.symm.trans hg), ?_⟩
    exact Nat.le_trans (running_run c hn hg).1 (Diary.running_le_limit 1 (steady_run c hr he))

/-! ## First come, first started -/

omit [Kinded τ] in
/-- A job that is admitted gets the next place in the diary of the gate. -/
theorem Admits.admitted {s : Traffic τ} {c : Chore τ} {v : View} {j : Job τ} (h : Admits s c v j)
    {d : Diary (Job τ)} (hg : ∀ x, s.gates[v.id]? = some x → x = d.gate) :
    (d.run (c.sections s.pool.closed v.id)).admitted = d.admitted ++ [j] := by
  have hone : ∀ t : Section (Job τ), d.run (if v.id = v.id then [t] else []) = d.step t := by
    intro t
    rw [if_pos rfl]
    rfl
  cases h with
  | @submitted _ _ slot x hx hlt =>
    rw [hg x hx] at hlt
    show (d.run (if v.id = v.id then [.submit s.pool.closed j] else [])).admitted = _
    rw [hone]
    exact Diary.arrive_admitted hlt _ j
  | @forwarded _ _ n x hx hlt =>
    rw [hg x hx] at hlt
    show (d.run (if v.id = v.id then [.forward j] else [])).admitted = _
    rw [hone]
    exact Diary.arrive_admitted hlt _ j
  | @settled _ _ change es x _ rest hc hx hq hlt =>
    rw [hg x hx] at hq hlt
    cases hc with
    | next =>
      show (d.run (if v.id = v.id then [.next] else [])).admitted = _
      rw [hone]
      exact Diary.settle_admitted d hq hlt
    | release =>
      show (d.run (if v.id = v.id then [.release] else [])).admitted = _
      rw [hone]
      exact Diary.settle_admitted _ hq hlt
    | raise =>
      show (d.run (if v.id = v.id then [.raise] else [])).admitted = _
      rw [hone]
      exact Diary.settle_admitted d hq hlt

/-- The tasks of a view that were started had their places in that order, and so has every task
that has not been started, after them. -/
structure InTurn (i : Nat) (s : Traffic τ) (placed started : List τ) : Prop where
  begun : started.Sublist placed
  next : s.AllUnstarted fun j => 0 < j.passes i → (started ++ [j.task]).Sublist placed

theorem inTurn_step {i : Nat} {s : Traffic τ} {d : Diary (Job τ)} {started : List τ}
    (h : s.InTurn i (d.admitted.map Job.task) started)
    (hg : ∀ x, s.gates[i]? = some x → x = d.gate) {a : Act τ} (h1 : (s.step a).unended i ≤ 1) :
    (s.step a).InTurn i ((d.run (s.sections i a)).admitted.map Job.task)
      (started ++ (((s.started? a).toList.filter fun j => 0 < j.passes i).map Job.task)) := by
  have hgrow : (d.admitted.map Job.task).Sublist
      ((d.run (s.sections i a)).admitted.map Job.task) :=
    ((Diary.admitted_prefix_run d _).map Job.task).sublist
  have hbegun := h.begun.trans hgrow
  have hnext : s.AllUnstarted fun j => 0 < j.passes i →
      (started ++ [j.task]).Sublist ((d.run (s.sections i a)).admitted.map Job.task) :=
    h.next.imp fun j hj hp => (hj hp).trans hgrow
  have hstep : (s.step a).AllUnstarted fun j => 0 < j.passes i →
      (started ++ [j.task]).Sublist ((d.run (s.sections i a)).admitted.map Job.task) := by
    refine unstarted_step hnext a (fun t hp => absurd hp (Nat.lt_irrefl 0)) ?_
    rintro k c rest rfl hk v j hadm hj hp
    by_cases hv : v.id = i
    · -- the job got the last place
      subst hv
      have hsec : s.sections v.id (.go k) = c.sections s.pool.closed v.id := by
        simp only [sections, hk]
      rw [hsec, hadm.admitted hg, List.map_append]
      exact h.begun.append (List.Sublist.refl _)
    · rw [Job.passes_admittedBy, if_neg hv] at hp
      exact hj hp
  cases hs : s.started? a with
  | none =>
    show (s.step a).InTurn i _ (started ++ [])
    rw [List.append_nil]
    exact ⟨hbegun, hstep⟩
  | some j =>
    by_cases hp : 0 < j.passes i
    · have hfilter : (((some j).toList.filter fun j => 0 < j.passes i).map Job.task) =
          [j.task] := by simp [hp]
      rw [hfilter]
      refine ⟨hnext.started hs hp, ?_⟩
      -- while the body runs no other job is past the gate
      obtain ⟨w, hb⟩ := body_of_started hs
      exact (unstarted_of_body h1 hb hp).imp fun k hk hpos => absurd hpos (by omega)
    · have hfilter : (((some j).toList.filter fun j => 0 < j.passes i).map Job.task) = [] := by
        simp [hp]
      rw [hfilter, List.append_nil]
      exact ⟨hbegun, hstep⟩

theorem inTurn_run (c : Config) {as : List (Act τ)} (hr : Compensated (start c) as) {i : Nat}
    (hn : ∀ us a, us ++ [a] <+: as → ¬ ((start c).run us).Overdraws a i)
    (he : ∀ v, ((start c).run as).views[i]? = some v → v.mode = .exclusive) :
    ((start c).run as).InTurn i
      (((Diary.start 1).run (sectionsAt i (start c) as)).admitted.map Job.task)
      ((startsAt i (start c) as).map Job.task) := by
  -- induction on the number of acts
  induction as using List.reverseRecOn with
  | nil =>
    refine ⟨List.Sublist.refl _, ⟨?_, nofun, nofun⟩⟩
    exact Pool.allWaiting_iff.mpr (Pool.holding_ofConfig _ _ c)
  | append_singleton as a ih =>
    obtain ⟨has, -⟩ := compensated_append.mp hr
    have hn' := fun us b (hu : us ++ [b] <+: as) => hn us b (hu.trans (List.prefix_append as [a]))
    have hserial := serial_run c hr hn he
    rw [run_concat] at he hserial ⊢
    have hold := serial_run c has hn' (exclusive_of_step he)
    rw [sectionsAt_concat, Diary.run_append, startsAt_concat, List.map_append]
    exact inTurn_step (ih has hn' (exclusive_of_step he)) hold.gate hserial.single

/-! ## Overdrafts -/

/-- Without a close no view is overdrawn. -/
theorem not_overdraws_of_open (c : Config) {as : List (Act τ)} (h : .close ∉ as) (i : Nat) :
    ∀ us a, us ++ [a] <+: as → ¬ ((start c).run us).Overdraws a i := by
  intro us a hu ho
  have hopen := open_run c fun hm => h (hu.subset (List.mem_append_left [a] hm))
  exact Bool.false_ne_true (hopen.symm.trans ho.closed)

/-! ## Exclusion -/

/-- After acts at most one body of a view runs, and its bodies were started in the order in which it
accepted their tasks. -/
structure Excludes (c : Config) (as : List (Act τ)) (i : Nat) : Prop where
  single : ((start c).run as).threads.flatten.countP (Chore.runsIn i) ≤ 1
  order : ((startsAt i (start c) as).map Job.task).Sublist
    (((Diary.start 1).run (sectionsAt i (start c) as)).accepted.map Job.task)

theorem excludes_run (c : Config) {as : List (Act τ)} (hr : Compensated (start c) as) {i : Nat}
    (hn : ∀ us a, us ++ [a] <+: as → ¬ ((start c).run us).Overdraws a i)
    (he : ∀ v, ((start c).run as).views[i]? = some v → v.mode = .exclusive) : Excludes c as i := by
  refine ⟨?_, (inTurn_run c hr hn he).begun.trans ?_⟩
  · exact Nat.le_trans (bodies_le_unended _ i) (serial_run c hr hn he).single
  · obtain ⟨ho, -⟩ := Diary.inOrder_run 1 (sectionsAt i (start c) as)
    rw [ho.order]
    exact ((List.prefix_append _ _).map Job.task).sublist

theorem limit_of_exclusive (c : Config) {as : List (Act τ)} (hr : Compensated (start c) as)
    {i : Nat} {v : View} (hv : ((start c).run as).views[i]? = some v) (he : v.mode = .exclusive) :
    ∃ x, ((start c).run as).gates[i]? = some x ∧ x.limit = 1 := by
  have hg := tracked_run c hv
  rw [base_run c as v (List.mem_of_getElem? hv) he] at hg
  refine ⟨_, hg, Diary.limit_run _ (steady_run c hr fun u hu => ?_)⟩
  cases hu.symm.trans hv
  exact he

/-- An exclusive view, over a pool or other views, among any threads, while the limits of other
views are raised and lowered through compensators. Its limit is one, and every body of it that runs
is among those that were started. As long as no act overdraws it, at most one of its bodies runs,
and its bodies are started in the order in which it accepted their tasks. Besides, all that keeps
its tasks waiting are tasks still to end, at every moment, exactly if no act parts a task from its
admission to the view. -/
theorem exclusive_prefixes_iff (c : Config) {as : List (Act τ)} (hr : Compensated (start c) as)
    {i : Nat} {v : View} (hv : ((start c).run as).views[i]? = some v) (he : v.mode = .exclusive) :
    (∀ us, us <+: as →
      (∀ u, ((start c).run us).views[i]? = some u →
        ∃ x, ((start c).run us).gates[i]? = some x ∧ x.limit = 1) ∧
      ∀ w j, .body w j ∈ ((start c).run us).threads.flatten → 0 < j.passes i →
        j ∈ startsAt i (start c) us) ∧
    ((∀ us a, us ++ [a] <+: as → ¬ ((start c).run us).Overdraws a i) →
      ∀ us, us <+: as → Excludes c us i) ∧
    ((∀ us, us <+: as → Excludes c us i ∧ ∀ x, ((start c).run us).gates[i]? = some x →
        x.running = ((start c).run us).unended i) ↔
      ∀ us a, us ++ [a] <+: as → ¬ ((start c).run us).Strays a i) := by
  have hcompensated : ∀ us, us <+: as → Compensated (start c) us := by
    rintro us ⟨vs, rfl⟩
    exact (compensated_append.mp hr).1
  have hexclusive : ∀ us, us <+: as → ∀ u, ((start c).run us).views[i]? = some u →
      u.mode = .exclusive := by
    rintro us ⟨vs, rfl⟩ u hu
    rw [run_append] at hv
    cases (view_run hu vs).symm.trans hv
    exact he
  have hexcludes : (∀ us a, us ++ [a] <+: as → ¬ ((start c).run us).Overdraws a i) →
      ∀ us, us <+: as → Excludes c us i := fun hn us hu =>
    excludes_run c (hcompensated us hu) (fun ws a hw => hn ws a (hw.trans hu)) (hexclusive us hu)
  refine ⟨fun us hu => ⟨fun u hv => ?_, fun w j hb hj => ?_⟩, hexcludes, fun h => ?_,
    fun h us hu => ?_⟩
  · exact limit_of_exclusive c (hcompensated us hu) hv (hexclusive us hu u hv)
  · exact List.mem_filter.mpr ⟨mem_startsOf c us hb, decide_eq_true hj⟩
  · exact (counted_prefixes_iff c as i).mp fun us hu => (h us hu).2
  · exact ⟨hexcludes (not_overdraws_of_not_strays h) us hu,
      (counted_prefixes_iff c as i).mpr h us hu⟩

/-- Tasks 1 and 2 come to an exclusive view inside a soft one, while task 0 of the soft view makes a
guarded call. They run one after the other. -/
def nestedRun : List (Act Nat) :=
  [.build none .soft 2, .build (some 0) .exclusive 0, .begin 0, .call (some 0) 0, .go 1, .go 1,
    .call (some 1) 1, .go 2, .go 2, .go 2, .call (some 1) 2, .go 3, .resume 0 false, .flush 4,
    .go 4, .raise (some 0) [0], .go 5, .go 5, .endBody 4 true (.ok ()) false, .go 4, .go 4,
    .endBody 4 true (.ok ()) false, .go 4, .go 4, .go 4, .go 4, .go 4, .go 4]

theorem exclusive_prefixes_iff_nestedRun :
    Compensated (start lone) nestedRun ∧ .close ∉ nestedRun ∧
      ((start lone).run nestedRun).threads.flatten.countP (Chore.runsIn 1) = 1 ∧
      [1, 2].Sublist
        (((Diary.start 1).run (sectionsAt 1 (start lone) nestedRun)).accepted.map Job.task) := by
  have hcall : ((start lone).run (nestedRun.take 15)).log[0]? =
      some (.called 0 [⟨0, .soft, 2, .pool 0 1⟩]) := rfl
  have hraise : ((start lone).run (nestedRun.take 15)).ByCompensator (.raise (some 0) [0]) :=
    ⟨0, _, ⟨0, 0⟩, _, List.mem_of_getElem? hcall, rfl, rfl, rfl⟩
  have hr : Compensated (start lone) nestedRun := by
    show Compensated _ (nestedRun.take 15 ++ .raise (some 0) [0] :: nestedRun.drop 16)
    exact compensated_append.mpr ⟨compensated_of_ne (by simp [nestedRun]) _, hraise,
      compensated_of_ne (by simp [nestedRun]) _⟩
  have hc : .close ∉ nestedRun := by simp [nestedRun]
  have hv : ((start lone).run nestedRun).views[1]? =
      some ⟨1, .exclusive, 1, .view 0 .soft 2 (.pool 0 1)⟩ := rfl
  have hs : (startsAt 1 (start lone) nestedRun).map Job.task = [1, 2] := by decide
  have hex := (exclusive_prefixes_iff lone hr hv rfl).2.1 (not_overdraws_of_open lone hc 1)
    nestedRun (List.prefix_refl _)
  have ho := hex.order
  rw [hs] at ho
  exact ⟨hr, hc, by decide, ho⟩

/-- Task 0 puts task 1 into the slot of its worker, and displaces it by task 2 of an exclusive view,
where task 3 waits. The pool is closed in the middle of that. -/
def cutRun : List (Act Nat) :=
  [.build none .exclusive 0, .begin 0, .begin 1, .call none 0, .go 2, .resume 0 false,
    .callFrom 3 none 1 true, .go 3, .callFrom 3 (some 0) 2 true, .go 3, .go 3, .call (some 0) 3,
    .go 4, .close, .go 3, .go 3, .go 3, .resume 1 false, .go 3, .endBody 3 true (.ok ()) false,
    .go 3]

/-- Task 0 puts task 1 of an exclusive view into the slot of its worker, and task 2 comes to the
view. Then task 0 takes its worker with it. -/
def heldRun : List (Act Nat) :=
  [.build none .exclusive 0, .begin 0, .call none 0, .go 1, .resume 0 false,
    .callFrom 2 (some 0) 1 true, .go 2, .go 2, .call (some 0) 2, .go 3,
    .endBody 2 true (.error .disconnected) true, .go 2, .begin 1]

/-- In the first of them the submission of task 2 is answered as if it were refused, so tasks 2 and
3 run at the same time. After the second nothing runs, the view accepted tasks 1 and 2 and started
neither, and task 2 waits for a task to end although there is none. -/
theorem exclusion_fails :
    (((start { lone with core := 2, max := 2 }).run cutRun).views.map View.mode = [.exclusive] ∧
      ((start { lone with core := 2, max := 2 }).run cutRun).threads.flatten.countP
        (Chore.runsIn 0) = 2) ∧
    (((start lone).run heldRun).views.map View.mode = [.exclusive] ∧
      ((start lone).run heldRun).Quiet ∧ ((start lone).run heldRun).unended 0 = 0 ∧
      ((Diary.start 1).run (sectionsAt 0 (start lone) heldRun)).accepted.map Job.task = [1, 2] ∧
      (startsAt 0 (start lone) heldRun).map Job.task = [] ∧
      (((start lone).run heldRun).gates.map fun x => (x.running, x.queue.map Job.task)) =
        [(1, [2])]) := by
  decide

end Traffic

end Workforce
