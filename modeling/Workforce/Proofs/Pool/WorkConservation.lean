import Mathlib.Data.List.Induction
import Workforce.Proofs.Pool.Order
import Workforce.Proofs.Pool.Roles

/-
  Work conservation. A pool is served if its free workers are as many as its runnable tasks, or if
  it has as many workers as it may have (`Served`). Submissions, flushes and raises of the limit
  provide for a worker and keep a pool served; so do begins, wakings and retirements, because such
  a worker leaves nothing runnable behind that it was counted for.

  Two sections do not provide for a worker where one is missing (`Starves`): a worker that ends a
  processor-bound task and goes on with a blocking one from its slot, and a worker that dies and
  is not replaced. `served_step_iff`: these are the only ones that can end the service of a pool,
  and they always do. Hence a run without a forced termination keeps its pool served throughout
  exactly if none of its sections starves it (`served_prefixes_iff`).
-/

namespace Workforce.Pool

variable {τ : Type}

/-! ## Served pools -/

theorem runnable_eq (p : Pool τ) :
    p.runnable = min p.cpuQueue.length (min p.limit p.config.max - p.runningCpu) +
      p.blockingQueue.length := rfl

/-- Every runnable task has a free worker, unless the pool is full. -/
def Served (p : Pool τ) : Prop := p.runnable ≤ p.idle + p.starting ∨ p.live = p.config.max

/-- At most one runnable task lacks a free worker, unless the pool is full. -/
def NearlyServed (p : Pool τ) : Prop :=
  p.runnable ≤ p.idle + p.starting + 1 ∨ p.live = p.config.max

theorem served_of_runnable_eq_zero {p : Pool τ} (h : p.runnable = 0) : Served p :=
  Or.inl (by omega)

/-! ## Providing for workers -/

theorem served_ensureCapacity {p : Pool τ} (ha : p.abandoned = false)
    (hl : p.live ≤ p.config.max) (h : NearlyServed p) : Served p.ensureCapacity := by
  show Served p.ensureCapacity.bare
  rcases bare_ensureCapacity p with ⟨hn, he⟩ | ⟨hy, he⟩
  · rw [he]
    show p.runnable ≤ p.idle + p.starting ∨ p.live = p.config.max
    by_cases hr : p.runnable ≤ p.idle + p.starting
    · exact Or.inl hr
    · by_cases hm : p.live < p.config.max
      · exact absurd ⟨by omega, hm, ha⟩ hn
      · exact Or.inr (by omega)
  · rw [he]
    show p.runnable ≤ p.idle + (p.starting + 1) ∨ p.live + 1 = p.config.max
    rcases h with h | h
    · exact Or.inl (by omega)
    · omega

variable [Kinded τ]

/-- What holds of a pool with settings `c` in all runs without a forced termination. -/
structure Regular (c : Config) (p : Pool τ) : Prop where
  orderly : Orderly p
  config : p.config = c
  kept : p.abandoned = false
  bounded : p.live ≤ p.config.max

/-- A change of counters that matter to neither the settings nor the number of workers. -/
theorem Regular.recount {c : Config} {p q : Pool τ} (h : Regular c p) (ho : Orderly q)
    (hc : q.config = p.config) (ha : q.abandoned = p.abandoned) (hl : q.live ≤ p.live) :
    Regular c q := by
  refine ⟨ho, hc.trans h.config, ha.trans h.kept, ?_⟩
  rw [hc]
  exact Nat.le_trans hl h.bounded

theorem runnable_enqueue_le (p : Pool τ) (t : τ) : (p.enqueue t).runnable ≤ p.runnable + 1 := by
  unfold enqueue
  cases Kinded.kind t with
  | cpu =>
    simp only [runnable_eq, List.length_append, List.length_singleton]
    omega
  | blocking =>
    simp only [runnable_eq, List.length_append, List.length_singleton]
    omega

theorem nearlyServed_enqueue {p : Pool τ} (h : Served p) (t : τ) :
    NearlyServed (p.enqueue t) := by
  have hr := runnable_enqueue_le p t
  have hf : (p.enqueue t).idle = p.idle ∧ (p.enqueue t).starting = p.starting ∧
      (p.enqueue t).live = p.live ∧ (p.enqueue t).config = p.config := by
    unfold enqueue
    cases Kinded.kind t <;> exact ⟨rfl, rfl, rfl, rfl⟩
  obtain ⟨hi, hs, hl, hc⟩ := hf
  unfold NearlyServed
  rw [hi, hs, hl, hc]
  rcases h with h | h
  · exact Or.inl (by omega)
  · exact Or.inr h

theorem regular_enqueue {c : Config} {p : Pool τ} (h : Regular c p) (t : τ) :
    Regular c (p.enqueue t) := by
  refine h.recount (orderly_enqueue h.orderly t) ?_ ?_ ?_ <;> unfold enqueue <;>
    cases Kinded.kind t <;> simp

theorem served_queueUp {c : Config} {p : Pool τ} (hg : Regular c p) (h : Served p) (t : τ) :
    Served (p.queueUp t) :=
  served_ensureCapacity (regular_enqueue hg t).kept (regular_enqueue hg t).bounded
    (nearlyServed_enqueue h t)

/-! ## Free workers -/

/-- A task taken from a queue is one runnable task less. -/
theorem Picks.runnable_countStart {p q : Pool τ} {t : τ} (hp : Picks p none (some t, q))
    (ho : Orderly p) : (q.countStart (Kinded.kind t)).runnable + 1 = p.runnable := by
  cases hp with
  | @cpu _ _ rest ha hq =>
    have hk : Kinded.kind t = .cpu := ho.cpu t (by rw [hq]; exact List.mem_cons_self)
    have hadm := (admitsCpu_iff p).mp ha
    have hlen : p.cpuQueue.length = rest.length + 1 := by rw [hq]; rfl
    rw [hk]
    simp only [countStart, runnable_eq, hlen]
    change p.runningCpu < min p.limit p.config.max at hadm
    omega
  | @blocking _ _ rest _ hq =>
    have hk : Kinded.kind t = .blocking := ho.blocking t (by rw [hq]; exact List.mem_cons_self)
    have hlen : p.blockingQueue.length = rest.length + 1 := by rw [hq]; rfl
    rw [hk]
    simp only [countStart, runnable_eq, hlen]
    omega

/-- A worker that finds nothing leaves nothing runnable. -/
theorem Picks.runnable_eq_zero {p q : Pool τ} (hp : Picks p none (none, q)) : q.runnable = 0 := by
  cases hp with
  | nothing ha hq =>
    have hb : p.blockingQueue.length = 0 := by rw [hq]; rfl
    by_cases h : p.admitsCpu = true
    · have hc : p.cpuQueue.length = 0 := by rw [ha h]; rfl
      simp only [runnable_eq, hb, hc]
      omega
    · have hadm := mt (admitsCpu_iff p).mpr h
      change ¬ p.runningCpu < min p.limit p.config.max at hadm
      simp only [runnable_eq, hb]
      omega

theorem Picks.served_countStart {p q : Pool τ} {t : τ} (hp : Picks p none (some t, q))
    (ho : Orderly p) (h : NearlyServed p) : Served (q.countStart (Kinded.kind t)) := by
  have hrun := hp.runnable_countStart ho
  have hc : (q.countStart (Kinded.kind t)).idle = p.idle ∧
      (q.countStart (Kinded.kind t)).starting = p.starting ∧
      (q.countStart (Kinded.kind t)).live = p.live ∧
      (q.countStart (Kinded.kind t)).config = p.config := by
    rw [hp.frame]
    unfold countStart
    cases Kinded.kind t <;> exact ⟨rfl, rfl, rfl, rfl⟩
  obtain ⟨hi, hs, hl, hc⟩ := hc
  unfold Served
  rw [hi, hs, hl, hc]
  rcases h with h | h
  · exact Or.inl (by omega)
  · exact Or.inr h

/-- A worker with an empty slot takes a task from a queue, or nothing is left to take. -/
theorem served_schedule_of_no_slot {p : Pool τ} (ho : Orderly p) (w : Nat)
    (ha : p.abandoned = false) (hs : p.slotOf? w = none) (h : NearlyServed p) :
    Served (p.schedule w).2 := by
  have hoe : Orderly (p.emptySlot w) := orderly_emptySlot ho w
  have hne : NearlyServed (p.emptySlot w) := h
  generalize hr : p.schedule w = r
  have hsch : Schedules p w r := hr ▸ schedules p w
  cases hsch with
  | abandoned hab => rw [ha] at hab; cases hab
  | runs _ hp =>
    rw [hs] at hp
    exact hp.served_countStart hoe hne
  | drained _ hp =>
    rw [hs] at hp
    exact served_of_runnable_eq_zero hp.runnable_eq_zero
  | rests _ hp =>
    rw [hs] at hp
    exact served_of_runnable_eq_zero hp.runnable_eq_zero

/-- What is runnable once one more processor-bound task runs. -/
def runnableBeside (p : Pool τ) : Nat :=
  min p.cpuQueue.length (min p.limit p.config.max - (p.runningCpu + 1)) + p.blockingQueue.length

/-- A processor-bound task in the slot either runs at once or joins a queue that is not
admissible. -/
theorem served_schedule_of_cpu_slot {p : Pool τ} (ho : Orderly p) (w : Nat) {t : τ}
    (ha : p.abandoned = false) (hs : p.slotOf? w = some t) (hk : Kinded.kind t = .cpu)
    (h : p.runnableBeside ≤ p.idle + p.starting ∨ p.live = p.config.max) :
    Served (p.schedule w).2 := by
  have haside : ∀ {r : Option τ × Pool τ}, (p.emptySlot w).admitsCpu = false →
      Picks { p.emptySlot w with cpuQueue := (p.emptySlot w).cpuQueue ++ [t] } none r →
      Orderly { p.emptySlot w with cpuQueue := (p.emptySlot w).cpuQueue ++ [t] } ∧
        NearlyServed { p.emptySlot w with cpuQueue := (p.emptySlot w).cpuQueue ++ [t] } := by
    intro r hadm _
    have hq : Orderly ((p.emptySlot w).enqueue t) := orderly_enqueue (orderly_emptySlot ho w) t
    simp only [enqueue, hk] at hq
    refine ⟨hq, ?_⟩
    have hfull : ¬ p.runningCpu < min p.limit p.config.max := of_decide_eq_false hadm
    show min (p.cpuQueue ++ [t]).length (min p.limit p.config.max - p.runningCpu) +
      p.blockingQueue.length ≤ p.idle + p.starting + 1 ∨ p.live = p.config.max
    unfold runnableBeside at h
    rcases h with h | h
    · exact Or.inl (by omega)
    · exact Or.inr h
  generalize hr : p.schedule w = r
  have hsch : Schedules p w r := hr ▸ schedules p w
  cases hsch with
  | abandoned hab => rw [ha] at hab; cases hab
  | @runs u q _ hp =>
    rw [hs] at hp
    cases hp with
    | fromSlot =>
      rw [hk]
      exact h
    | aside _ hadm hn =>
      obtain ⟨hoq, hnq⟩ := haside hadm hn
      exact hn.served_countStart hoq hnq
  | drained _ hp =>
    rw [hs] at hp
    cases hp with
    | aside _ _ hn => exact served_of_runnable_eq_zero hn.runnable_eq_zero
  | rests _ hp =>
    rw [hs] at hp
    cases hp with
    | aside _ _ hn => exact served_of_runnable_eq_zero hn.runnable_eq_zero

/-- A worker goes on with a blocking task in its slot, whatever else is runnable. -/
theorem served_schedule_of_blocking_slot {p : Pool τ} (w : Nat) {t : τ}
    (ha : p.abandoned = false) (hs : p.slotOf? w = some t) (hk : Kinded.kind t = .blocking) :
    Served (p.schedule w).2 ↔ Served p := by
  generalize hr : p.schedule w = r
  have hsch : Schedules p w r := hr ▸ schedules p w
  cases hsch with
  | abandoned hab => rw [ha] at hab; cases hab
  | runs _ hp =>
    rw [hs] at hp
    cases hp with
    | fromSlot =>
      rw [hk]
      exact Iff.rfl
    | aside hc => rw [hk] at hc; cases hc
  | drained _ hp =>
    rw [hs] at hp
    cases hp with
    | aside hc => rw [hk] at hc; cases hc
  | rests _ hp =>
    rw [hs] at hp
    cases hp with
    | aside hc => rw [hk] at hc; cases hc

/-! ## Ended tasks -/

omit [Kinded τ] in
theorem countEnd_frame (p : Pool τ) (k : Kind) :
    p.countEnd k = { p with
      runningCpu := match k with
        | .cpu => p.runningCpu - 1
        | .blocking => p.runningCpu
      runningBlocking := match k with
        | .cpu => p.runningBlocking
        | .blocking => p.runningBlocking - 1
      completed := p.completed + 1
      signals := if p.closed then p.signals + 1 else p.signals } := by
  cases k <;> unfold countEnd signal <;> dsimp only <;> split <;> rfl

theorem regular_countEnd {c : Config} {p : Pool τ} (h : Regular c p) (k : Kind) :
    Regular c (p.countEnd k) := by
  refine h.recount (orderly_countEnd h.orderly k) ?_ ?_ (Nat.le_of_eq ?_) <;> rw [countEnd_frame]

omit [Kinded τ] in
theorem runnable_countEnd_cpu_le (p : Pool τ) :
    (p.countEnd .cpu).runnable ≤ p.runnable + 1 := by
  rw [countEnd_frame]
  simp only [runnable_eq]
  omega

omit [Kinded τ] in
theorem runnable_countEnd_blocking (p : Pool τ) : (p.countEnd .blocking).runnable = p.runnable := by
  rw [countEnd_frame]
  rfl

omit [Kinded τ] in
theorem served_countEnd_blocking {p : Pool τ} (h : Served p) : Served (p.countEnd .blocking) := by
  unfold Served
  rw [runnable_countEnd_blocking, countEnd_frame]
  exact h

omit [Kinded τ] in
/-- The end of a processor-bound task may leave more tasks runnable than there are free workers. -/
theorem served_countEnd_cpu_iff {p : Pool τ} (hm : p.live ≤ p.config.max) :
    Served (p.countEnd .cpu) ↔
      ¬ (p.idle + p.starting < (p.countEnd .cpu).runnable ∧ p.live < p.config.max) := by
  have hi : (p.countEnd .cpu).idle + (p.countEnd .cpu).starting = p.idle + p.starting := by
    rw [countEnd_frame]
  have hl : (p.countEnd .cpu).live = p.live := by rw [countEnd_frame]
  have hc : (p.countEnd .cpu).config = p.config := by rw [countEnd_frame]
  unfold Served
  rw [hi, hl, hc]
  omega

omit [Kinded τ] in
theorem nearlyServed_countEnd {p : Pool τ} (h : Served p) (k : Kind) :
    NearlyServed (p.countEnd k) := by
  have hr : (p.countEnd k).runnable ≤ p.runnable + 1 := by
    cases k with
    | cpu => exact runnable_countEnd_cpu_le p
    | blocking => rw [runnable_countEnd_blocking]; omega
  unfold NearlyServed
  rcases h with h | h
  · refine Or.inl (Nat.le_trans hr ?_)
    rw [countEnd_frame]
    exact Nat.succ_le_succ h
  · rw [countEnd_frame]
    exact Or.inr h

omit [Kinded τ] in
/-- The end of a task makes room for one processor-bound task at most. -/
theorem runnableBeside_countEnd_le (p : Pool τ) (k : Kind) :
    (p.countEnd k).runnableBeside ≤ p.runnable := by
  rw [countEnd_frame]
  cases k <;> simp only [runnable_eq, runnableBeside] <;> omega

omit [Kinded τ] in
theorem served_beside_countEnd {p : Pool τ} (h : Served p) (k : Kind) :
    (p.countEnd k).runnableBeside ≤ (p.countEnd k).idle + (p.countEnd k).starting ∨
      (p.countEnd k).live = (p.countEnd k).config.max := by
  have hle := runnableBeside_countEnd_le p k
  rcases h with h | h
  · refine Or.inl (Nat.le_trans hle ?_)
    rw [countEnd_frame]
    exact h
  · rw [countEnd_frame]
    exact Or.inr h

/-! ## Starving sections -/

/-- The sections that leave a runnable task without a worker although the pool may start one: a
worker turns from a processor-bound task to a blocking one in its slot, or it dies and is not
replaced, while the free workers are fewer than the tasks that are runnable then. -/
def Starves (p : Pool τ) : Section τ → Prop
  | .finish w => ∃ t next, p.taskOf? w = some t ∧ p.slotOf? w = some next ∧
      Kinded.kind t = .cpu ∧ Kinded.kind next = .blocking ∧
      p.idle + p.starting < (p.countEnd .cpu).runnable ∧ p.live < p.config.max
  | .die w => ∃ t, p.taskOf? w = some t ∧ (p.closed = true ∨ p.config.core < p.live) ∧
      p.idle + p.starting < (p.countEnd (Kinded.kind t)).runnable
  | _ => False

theorem starves_finish_iff {p : Pool τ} {w : Nat} {t : τ} (ht : p.taskOf? w = some t) :
    p.Starves (.finish w) ↔ ∃ next, p.slotOf? w = some next ∧
      Kinded.kind t = .cpu ∧ Kinded.kind next = .blocking ∧
      p.idle + p.starting < (p.countEnd .cpu).runnable ∧ p.live < p.config.max := by
  constructor
  · rintro ⟨u, next, hu, h⟩
    cases ht.symm.trans hu
    exact ⟨next, h⟩
  · rintro ⟨next, h⟩
    exact ⟨t, next, ht, h⟩

theorem starves_die_iff {p : Pool τ} {w : Nat} {t : τ} (ht : p.taskOf? w = some t) :
    p.Starves (.die w) ↔ (p.closed = true ∨ p.config.core < p.live) ∧
      p.idle + p.starting < (p.countEnd (Kinded.kind t)).runnable := by
  constructor
  · rintro ⟨u, hu, h⟩
    cases ht.symm.trans hu
    exact h
  · exact fun h => ⟨t, ht, h⟩

theorem served_finish_iff {c : Config} {p : Pool τ} (hg : Regular c p) (h : Served p) {w : Nat}
    {t : τ} (ht : p.taskOf? w = some t) :
    Served (p.finish w (Kinded.kind t)).2 ↔ ¬ p.Starves (.finish w) := by
  have hge := regular_countEnd hg (Kinded.kind t)
  have hse : (p.countEnd (Kinded.kind t)).slotOf? w = p.slotOf? w := by
    rw [countEnd_frame]; rfl
  rw [starves_finish_iff ht]
  unfold finish
  cases hs : p.slotOf? w with
  | none =>
    rw [hs] at hse
    refine iff_of_true (served_schedule_of_no_slot hge.orderly w hge.kept hse
      (nearlyServed_countEnd h _)) ?_
    rintro ⟨next, hn, -⟩
    cases hn
  | some next =>
    rw [hs] at hse
    cases hk : Kinded.kind next with
    | cpu =>
      refine iff_of_true (served_schedule_of_cpu_slot hge.orderly w hge.kept hse hk
        (served_beside_countEnd h _)) ?_
      rintro ⟨other, hn, -, hb, -⟩
      cases hn
      cases hk.symm.trans hb
    | blocking =>
      rw [served_schedule_of_blocking_slot w hge.kept hse hk]
      cases hkt : Kinded.kind t with
      | blocking =>
        refine iff_of_true (served_countEnd_blocking h) ?_
        rintro ⟨-, -, hc, -⟩
        cases hc
      | cpu =>
        rw [served_countEnd_cpu_iff hg.bounded]
        refine not_congr ⟨fun hf => ⟨next, rfl, rfl, hk, hf⟩, ?_⟩
        rintro ⟨-, -, -, -, hf⟩
        exact hf

theorem served_die_iff {c : Config} (hv : c.Valid) {p : Pool τ} (hg : Regular c p) (h : Served p)
    {w : Nat} {t : τ} (ht : p.taskOf? w = some t) :
    Served (p.die w (Kinded.kind t)).2 ↔ ¬ p.Starves (.die w) := by
  have hpos : 0 < p.config.core := by rw [hg.config]; exact hv.core_pos
  have hle : p.config.core ≤ p.config.max := by rw [hg.config]; exact hv.core_le_max
  have hm := hg.bounded
  have hnear := nearlyServed_countEnd h (Kinded.kind t)
  rw [starves_die_iff ht]
  generalize hq : p.countEnd (Kinded.kind t) = q at hnear
  have hi : q.idle = p.idle := by rw [← hq, countEnd_frame]
  have hs : q.starting = p.starting := by rw [← hq, countEnd_frame]
  have hl : q.live = p.live := by rw [← hq, countEnd_frame]
  have hc : q.config = p.config := by rw [← hq, countEnd_frame]
  have hcl : q.closed = p.closed := by rw [← hq, countEnd_frame]
  unfold NearlyServed at hnear
  unfold die
  dsimp only
  rw [hq]
  split
  case isTrue hrep =>
    have hlive : q.live - 1 < q.config.core := hrep.2
    have hopen : q.closed = false := hrep.1
    refine ⟨?_, fun _ => ?_⟩
    · rintro - ⟨hd, -⟩
      rw [hcl] at hopen
      rw [hl, hc] at hlive
      rcases hd with hd | hd
      · rw [hopen] at hd; cases hd
      · omega
    · show q.runnable ≤ q.idle + (q.starting + 1) ∨ q.live - 1 + 1 = q.config.max
      rw [hl, hc] at hlive hnear ⊢
      omega
  case isFalse hrep =>
    have hnot : ¬(q.closed = false ∧ q.live - 1 < q.config.core) := hrep
    rw [hcl, hl, hc] at hnot
    have hgone : p.closed = true ∨ p.config.core < p.live := by
      cases hcc : p.closed with
      | true => exact Or.inl rfl
      | false => exact Or.inr (by have := mt (fun x => ⟨hcc, x⟩) hnot; omega)
    show (q.runnable ≤ q.idle + q.starting ∨ q.live - 1 = q.config.max) ↔ _
    rw [hi, hs, hl, hc]
    constructor
    · rintro hy ⟨-, hf⟩
      omega
    · intro hn
      exact Or.inl (Nat.le_of_not_lt fun hlt => hn ⟨hgone, hlt⟩)

/-! ## The other sections -/

theorem served_begin {c : Config} {p : Pool τ} (hg : Regular c p) (h : Served p) {w : Nat}
    (hw : p.taskOf? w = none) : Served (p.begin w).2 := by
  have ho : Orderly { p with starting := p.starting - 1 } := hg.orderly.recount rfl rfl rfl
  refine served_schedule_of_no_slot ho w hg.kept (hg.orderly.slotOf?_eq_none hw) ?_
  show p.runnable ≤ p.idle + (p.starting - 1) + 1 ∨ p.live = p.config.max
  rcases h with h | h
  · exact Or.inl (by omega)
  · exact Or.inr h

theorem served_resume {c : Config} {p : Pool τ} (hg : Regular c p) (h : Served p) {w : Nat}
    (hw : p.taskOf? w = none) (timedOut : Bool) : Served (p.resume w timedOut).2 := by
  unfold resume
  dsimp only
  split
  case isTrue hr => exact served_of_runnable_eq_zero hr.2.1
  case isFalse =>
    have ho : Orderly { p with idle := p.idle - 1 } := hg.orderly.recount rfl rfl rfl
    refine served_schedule_of_no_slot ho w hg.kept (hg.orderly.slotOf?_eq_none hw) ?_
    show p.runnable ≤ p.idle - 1 + p.starting + 1 ∨ p.live = p.config.max
    rcases h with h | h
    · exact Or.inl (by omega)
    · exact Or.inr h

omit [Kinded τ] in
theorem bare_place (p : Pool τ) (w : Nat) (t : τ) : (p.place w t).2.bare = p.bare := by
  unfold place
  split
  · rfl
  · split
    · rfl
    · dsimp only
      split <;> rfl

theorem served_flush {c : Config} {p : Pool τ} (hg : Regular c p) (h : Served p) (w : Nat) :
    Served (p.flush w) := by
  unfold flush
  split
  · exact h
  · have ho : Orderly (p.emptySlot w) := orderly_emptySlot hg.orderly w
    have hge : Regular c (p.emptySlot w) := hg.recount ho rfl rfl (Nat.le_refl _)
    exact served_queueUp hge h _

theorem served_raise {c : Config} {p : Pool τ} (hg : Regular c p) (h : Served p) (w : Nat) :
    Served (p.raise w) := by
  unfold raise
  split
  · exact h
  · split
    · exact h
    · refine served_ensureCapacity hg.kept hg.bounded ?_
      have hr : p.runnable ≤ p.idle + p.starting ∨ p.live = p.config.max := h
      show min p.cpuQueue.length (min (p.limit + 1) p.config.max - p.runningCpu) +
        p.blockingQueue.length ≤ p.idle + p.starting + 1 ∨ p.live = p.config.max
      rw [runnable_eq] at hr
      omega

omit [Kinded τ] in
theorem served_lower {p : Pool τ} (h : Served p) (w : Nat) : Served (p.lower w) := by
  unfold lower
  split
  · exact h
  · split
    · exact h
    · have hr : p.runnable ≤ p.idle + p.starting ∨ p.live = p.config.max := h
      show min p.cpuQueue.length (min (p.limit - 1) p.config.max - p.runningCpu) +
        p.blockingQueue.length ≤ p.idle + p.starting ∨ p.live = p.config.max
      rw [runnable_eq] at hr
      omega

omit [Kinded τ] in
theorem served_beginClose {p : Pool τ} (h : Served p) : Served p.beginClose := by
  unfold beginClose
  split <;> exact h

/-! ## Regular pools -/

theorem regular_step {c : Config} (hv : c.Valid) {p : Pool τ} (h : Regular c p) {s : Section τ}
    (hs : s ≠ .terminate) : Regular c (p.step s) := by
  have hsh := shifts p s
  refine ⟨orderly_step h.orderly s, hsh.config.trans h.config, (abandoned_step hs).trans h.kept,
    hsh.live_le ?_ h.bounded⟩
  rw [h.config]
  exact hv.core_le_max

omit [Kinded τ] in
/-- A new pool has its core workers, and nothing to do for them. -/
theorem ofConfig_start (c : Config) :
    (ofConfig c : Pool τ).bare = { ({ config := c, limit := c.core } : Pool τ) with
      live := c.core, starting := c.core } := by
  have hfold : ∀ (is : List Nat) (p : Pool τ),
      (is.foldl (fun p _ => p.spawnWorker) p).bare =
        { p.bare with live := p.live + is.length, starting := p.starting + is.length } := by
    intro is
    induction is with
    | nil => intro p; rfl
    | cons i is ih =>
      intro p
      rw [List.foldl_cons, ih]
      simp only [bare, spawnWorker, List.length_cons, Nat.add_assoc, Nat.add_comm 1]
  unfold ofConfig
  rw [hfold]
  simp [bare]

theorem regular_ofConfig {c : Config} (hv : c.Valid) : Regular c (ofConfig c : Pool τ) := by
  have hb := ofConfig_start (τ := τ) c
  refine ⟨orderly_ofConfig c, ?_, ?_, ?_⟩
  · show (ofConfig c : Pool τ).bare.config = c
    rw [hb]
  · show (ofConfig c : Pool τ).bare.abandoned = false
    rw [hb]
  · show (ofConfig c : Pool τ).bare.live ≤ (ofConfig c : Pool τ).bare.config.max
    rw [hb]
    exact hv.core_le_max

omit [Kinded τ] in
theorem served_ofConfig (c : Config) : Served (ofConfig c : Pool τ) := by
  show Served (ofConfig c : Pool τ).bare
  rw [ofConfig_start]
  exact served_of_runnable_eq_zero (by simp [runnable_eq])

/-! ## Steps and runs -/

theorem not_starves_of_stays {p : Pool τ} {s : Section τ}
    (h : ∀ w, s = .finish w ∨ s = .die w → p.taskOf? w = none) : ¬ p.Starves s := by
  intro hs
  cases s with
  | finish w =>
    obtain ⟨t, -, ht, -⟩ := hs
    rw [h w (Or.inl rfl)] at ht
    cases ht
  | die w =>
    obtain ⟨t, ht, -⟩ := hs
    rw [h w (Or.inr rfl)] at ht
    cases ht
  | _ => exact hs

/-- A section other than a forced termination ends the service of a pool exactly if it starves
the pool. -/
theorem served_step_iff {c : Config} (hv : c.Valid) {p : Pool τ} (hg : Regular c p) (h : Served p)
    {s : Section τ} (hs : s ≠ .terminate) : Served (p.step s) ↔ ¬ p.Starves s := by
  have hm := moves p s
  generalize p.step s = q at hm
  have hkeeps : Served q → ¬ p.Starves s → (Served q ↔ ¬ p.Starves s) :=
    fun hy hn => ⟨fun _ => hn, fun _ => hy⟩
  cases hm with
  | stays hn => exact hkeeps h (not_starves_of_stays hn)
  | accepted => exact hkeeps (served_queueUp hg h _) id
  | taken => exact hkeeps (served_queueUp hg h _) id
  | @placed w t _ =>
    refine hkeeps ?_ id
    show Served (p.place w t).2.bare
    rw [bare_place]
    exact h
  | flushed => exact hkeeps (served_flush hg h _) id
  | began hw hx =>
    exact hkeeps (served_begin hg h (by rw [taskOf?_eq hw, hx]; rfl)) id
  | resumed hw hx =>
    exact hkeeps (served_resume hg h (by rw [taskOf?_eq hw, hx]; rfl) _) id
  | finished hw ht => exact served_finish_iff hg h ((taskOf?_eq hw).trans ht)
  | died hw ht => exact served_die_iff hv hg h ((taskOf?_eq hw).trans ht)
  | raised w => exact hkeeps (served_raise hg h w) id
  | lowered w => exact hkeeps (served_lower h w) id
  | closed => exact hkeeps (served_beginClose h) id
  | terminated => exact absurd rfl hs

theorem regular_run {c : Config} (hv : c.Valid) {p : Pool τ} (h : Regular c p)
    {ss : List (Section τ)} (hn : .terminate ∉ ss) : Regular c (p.run ss) :=
  List.foldlRecOn (motive := Regular c) ss step h fun _ hq _ hs =>
    regular_step hv hq fun he => hn (he ▸ hs)

/-- A pool is served at every point of a run without a forced termination exactly if no section
of the run starves it. -/
theorem served_prefixes_iff {c : Config} (hv : c.Valid) {ss : List (Section τ)}
    (hn : .terminate ∉ ss) :
    (∀ us, us <+: ss → Served ((ofConfig c).run us)) ↔
      ∀ us s, us ++ [s] <+: ss → ¬ ((ofConfig c).run us).Starves s := by
  have hreg : ∀ us, us <+: ss → Regular c ((ofConfig c).run us) := fun us hu =>
    regular_run hv (regular_ofConfig hv) fun he => hn (hu.subset he)
  have hbefore : ∀ {us : List (Section τ)} {s : Section τ}, us ++ [s] <+: ss →
      us <+: ss ∧ s ≠ .terminate := by
    intro us s hu
    refine ⟨(List.prefix_append us [s]).trans hu, ?_⟩
    intro he
    exact hn (hu.subset (by simp [he]))
  constructor
  · intro h us s hu
    obtain ⟨hp, hs⟩ := hbefore hu
    refine (served_step_iff hv (hreg us hp) (h us hp) hs).mp ?_
    rw [← run_append_singleton]
    exact h (us ++ [s]) hu
  · intro h us
    -- induction on the number of sections performed
    induction us using List.reverseRecOn with
    | nil => intro _; exact served_ofConfig c
    | append_singleton us s ih =>
      intro hu
      obtain ⟨hp, hs⟩ := hbefore hu
      rw [run_append_singleton]
      exact (served_step_iff hv (hreg us hp) (ih hp) hs).mpr (h us s hu)

/-! ## Starved pools -/

instance (p : Pool τ) : Decidable (Served p) :=
  inferInstanceAs (Decidable (p.runnable ≤ p.idle + p.starting ∨ p.live = p.config.max))

/-- A task of which only the kind matters. -/
instance : Kinded Kind := ⟨id⟩

/-- Settings for one core worker. -/
def single (max : Nat) : Config := { core := 1, max, keepAlive := ⟨60, 0⟩, threadName := "" }

theorem single_valid {max : Nat} (h : 1 ≤ max) : (single max).Valid :=
  ⟨Nat.one_pos, h, by simp [single]⟩

/-- The only worker runs a processor-bound task while another one waits, and gets a blocking task
into its slot. -/
def turningRun : List (Section Kind) :=
  [.begin 0, .accept .cpu, .resume 0 false, .accept .cpu, .place 0 .blocking, .finish 0]

/-- The only worker dies in a closed pool while a task waits. -/
def dyingRun : List (Section Kind) :=
  [.begin 0, .accept .cpu, .resume 0 false, .accept .cpu, .beginClose, .die 0]

/-- In both runs a task that could start has no worker, with room for one more. -/
theorem starved_runs :
    ¬ Served ((ofConfig (single 2)).run turningRun) ∧ ¬ Served ((ofConfig (single 1)).run dyingRun) := by
  decide

theorem served_prefixes_iff_turningRun :
    .terminate ∉ turningRun ∧
      ((∀ us, us <+: turningRun → Served ((ofConfig (single 2)).run us)) ↔
        ∀ us s, us ++ [s] <+: turningRun → ¬ ((ofConfig (single 2)).run us).Starves s) := by
  have hn : .terminate ∉ turningRun := by simp [turningRun]
  exact ⟨hn, served_prefixes_iff (single_valid (by decide)) hn⟩

end Workforce.Pool
