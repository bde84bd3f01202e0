import Workforce.Proofs.Pool.Roles
import Workforce.Proofs.Pool.WorkConservation

/-
  The size of a pool. In every run from a new pool the counters of roles are exact, their sum is
  the number of live workers, and that number stays within the settings: never above the size of
  the pool, and not below the core while the pool is open (`staffed_run`). A worker that retires
  or dies leaves no less than the core behind, or is replaced; others leave closed pools only.

  A section takes one from the counter of the role that its worker gives up, and one from the
  number of live workers if the worker leaves (`decrements`). What it takes one from is never zero.
-/

namespace Workforce.Pool

variable {τ : Type} [Kinded τ]

/-! ## The size of a pool -/

/-- The number of live workers is right and within its bounds. -/
structure Manned (c : Config) (p : Pool τ) : Prop where
  config : p.config = c
  counts : CountsLive p
  closedFirst : ClosedFirst p
  atMost : p.live ≤ c.max
  atLeast : p.closed = false → c.core ≤ p.live

/-- No other workers leave an open pool than those above its core. -/
theorem Manned.core_le {c : Config} {p : Pool τ} (h : Manned c p) (ho : p.closed = false)
    (hl : p.closed = true ∨ p.abandoned = true ∨ p.config.core ≤ p.live - 1) :
    c.core ≤ p.live - 1 := by
  rcases hl with hc | ha | hl
  · rw [ho] at hc
    cases hc
  · rw [h.closedFirst ha] at ho
    cases ho
  · rw [h.config] at hl
    exact hl

/-- An open pool never has less workers than its core. -/
theorem Manned.atLeast_step {c : Config} {p : Pool τ} (h : Manned c p) (s : Section τ)
    (ho : (p.step s).closed = false) : c.core ≤ (p.step s).live := by
  have hopen : p.closed = false := by
    cases hc : p.closed with
    | false => rfl
    | true =>
      rw [closed_step hc] at ho
      cases ho
  cases shifts p s with
  | hires hm =>
    rcases hm with hs | ⟨-, hh⟩
    · rw [hs.live]
      exact h.atLeast hopen
    · rw [hh.live]
      exact Nat.le_succ_of_le (h.atLeast hopen)
  | switches hs hl =>
    rw [hs.live]
    split
    case isTrue hn => exact h.core_le hopen (hl hn)
    case isFalse => exact h.atLeast hopen
  | replaced hs _ hh =>
    have hpos := hs.live_pos h.counts
    have hcore := h.atLeast hopen
    rw [hh.live, hs.live, if_pos rfl]
    omega

/-- Every section keeps the size of a pool within its bounds. -/
theorem manned_step {c : Config} (hv : c.Valid) {p : Pool τ} (h : Manned c p) (s : Section τ) :
    Manned c (p.step s) := by
  have hconfig := (shifts p s).config.trans h.config
  have hmost := (shifts p s).live_le (by rw [h.config]; exact hv.core_le_max)
    (by rw [h.config]; exact h.atMost)
  rw [hconfig] at hmost
  exact ⟨hconfig, h.counts.step s, closedFirst_step h.closedFirst s, hmost, h.atLeast_step s⟩

theorem manned_ofConfig {c : Config} (hv : c.Valid) : Manned c (ofConfig c : Pool τ) := by
  have hb := ofConfig_start (τ := τ) c
  have hlive : (ofConfig c : Pool τ).live = c.core := by
    show (ofConfig c : Pool τ).bare.live = c.core
    rw [hb]
  refine ⟨?_, countsLive_ofConfig c, closedFirst_ofConfig c, ?_, fun _ => ?_⟩
  · show (ofConfig c : Pool τ).bare.config = c
    rw [hb]
  · rw [hlive]
    exact hv.core_le_max
  · exact Nat.le_of_eq hlive.symm

theorem manned_run {c : Config} (hv : c.Valid) {p : Pool τ} (h : Manned c p)
    (ss : List (Section τ)) : Manned c (p.run ss) :=
  List.foldlRecOn (motive := Manned c) ss step h fun _ hq s _ => manned_step hv hq s

/-! ## Decrements -/

/-- The role that a worker gives up in a section, if the section takes place. -/
def freed? (p : Pool τ) : Section τ → Option Role
  | .begin w =>
    match p.phaseOf? w with
    | some .starting => some .starting
    | _ => none
  | .resume w _ =>
    match p.phaseOf? w with
    | some (.idle _) => some .idle
    | _ => none
  | .finish w => (p.taskOf? w).map fun t => .running (Kinded.kind t)
  | .die w => (p.taskOf? w).map fun t => .running (Kinded.kind t)
  | _ => none

/-- The turn is that of a worker that leaves. -/
def Turn.isLeave : Turn τ → Bool
  | .leaves _ => true
  | _ => false

/-- The values of the counters from which a section takes one. -/
def decrements (p : Pool τ) (s : Section τ) : List Nat :=
  ((p.freed? s).map p.counter).toList ++ if (p.turn? s).any Turn.isLeave then [p.live] else []

theorem mem_roles_of_phaseOf? {p : Pool τ} {w : Nat} {phase : Phase τ}
    (h : p.phaseOf? w = some phase) : phase.role? ∈ p.roles := by
  obtain ⟨x, hw, rfl⟩ := exists_of_phaseOf? h
  exact List.mem_of_getElem? (roles_getElem? hw)

/-- A role that is given up is that of a worker. -/
theorem mem_roles_of_freed {p : Pool τ} {s : Section τ} {r : Role} (h : p.freed? s = some r) :
    some r ∈ p.roles := by
  have hrunning : ∀ w, (p.taskOf? w).map (fun t => Role.running (Kinded.kind t)) = some r →
      some r ∈ p.roles := by
    intro w hw
    obtain ⟨t, ht, rfl⟩ := Option.map_eq_some_iff.mp hw
    obtain ⟨x, hx, hp⟩ := exists_of_taskOf? ht
    exact List.mem_of_getElem? (roles_running hx hp)
  cases s with
  | begin w =>
    rw [freed?] at h
    split at h
    case h_1 hp =>
      cases h
      exact mem_roles_of_phaseOf? hp
    case h_2 => cases h
  | resume w timedOut =>
    rw [freed?] at h
    split at h
    case h_1 hp =>
      cases h
      exact mem_roles_of_phaseOf? hp
    case h_2 => cases h
  | finish w => exact hrunning w h
  | die w => exact hrunning w h
  | _ => cases h

/-- A worker that takes a turn gives up a role. -/
theorem freed_of_turn {p : Pool τ} {s : Section τ} {turn : Turn τ} (h : p.turn? s = some turn) :
    ∃ r, p.freed? s = some r := by
  cases s with
  | begin w =>
    rw [turn?] at h
    split at h
    case h_1 hp => exact ⟨.starting, by rw [freed?, hp]⟩
    case h_2 => cases h
  | resume w timedOut =>
    rw [turn?] at h
    split at h
    case h_1 hp => exact ⟨.idle, by rw [freed?, hp]⟩
    case h_2 => cases h
  | finish w =>
    obtain ⟨t, ht, -⟩ := Option.map_eq_some_iff.mp h
    exact ⟨_, by rw [freed?, ht]; rfl⟩
  | die w =>
    obtain ⟨t, ht, -⟩ := Option.map_eq_some_iff.mp h
    exact ⟨_, by rw [freed?, ht]; rfl⟩
  | _ => cases h

theorem counter_pos {p : Pool τ} {r : Role} (h : CountsRole p r) (hr : some r ∈ p.roles) :
    0 < p.counter r := by
  rw [h]
  exact List.count_pos_iff.mpr hr

/-- Some worker is live if one has a role. -/
theorem live_pos {p : Pool τ} (h : CountsLive p) {r : Role} (hr : some r ∈ p.roles) :
    0 < p.live := by
  have hlt : p.roles.count none < p.roles.length := by
    refine Nat.lt_of_le_of_ne List.count_le_length fun he => ?_
    cases List.count_eq_length.mp he _ hr
  unfold CountsLive at h
  omega

/-- No counter is zero when one is taken from it. -/
theorem decrements_pos {p : Pool τ} (hr : ∀ r, CountsRole p r) (hl : CountsLive p)
    (s : Section τ) : ∀ n ∈ p.decrements s, 0 < n := by
  intro n hn
  rcases List.mem_append.mp hn with h | h
  · obtain ⟨r, hf, rfl⟩ := Option.map_eq_some_iff.mp (Option.mem_toList.mp h)
    exact counter_pos (hr r) (mem_roles_of_freed hf)
  · split at h
    case isTrue hleave =>
      rw [List.mem_singleton.mp h]
      obtain ⟨turn, hturn, -⟩ := (Option.any_eq_true _ _).mp hleave
      obtain ⟨r, hf⟩ := freed_of_turn hturn
      exact live_pos hl (mem_roles_of_freed hf)
    case isFalse => cases h

/-! ## Runs -/

/-- What the counters of a pool with settings `c` say, and its bounds. -/
structure Staffed (c : Config) (p : Pool τ) : Prop where
  /-- Each counter is the number of workers in its role. -/
  roles : ∀ r, p.counter r = p.roles.count (some r)
  live : p.live = p.starting + p.idle + p.runningCpu + p.runningBlocking
  atMost : p.live ≤ c.max
  atLeast : p.closed = false → c.core ≤ p.live

omit [Kinded τ] in
theorem create_eq_ok_iff {c : Config} {p : Pool τ} :
    create c = .ok p ↔ c.Valid ∧ p = ofConfig c := by
  rw [← c.validate_ok_iff]
  unfold create
  cases c.validate with
  | error f => simp
  | ok u => simp [eq_comm]

/-- In every run from a new pool the counters are exact and the size of the pool stays within its
bounds, and no section takes one from a counter that is zero. -/
theorem staffed_run {c : Config} {p : Pool τ} (hp : create c = .ok p) (ss : List (Section τ)) :
    Staffed c (p.run ss) ∧ ∀ s, ∀ n ∈ (p.run ss).decrements s, 0 < n := by
  obtain ⟨hv, rfl⟩ := create_eq_ok_iff.mp hp
  have hm := manned_run hv (manned_ofConfig hv) ss
  have hr : ∀ r, CountsRole ((ofConfig c).run ss) r := fun r => (countsRole_ofConfig c r).run ss
  refine ⟨⟨hr, ?_, hm.atMost, hm.atLeast⟩, decrements_pos hr hm.counts⟩
  have hlen := length_eq_counts ((ofConfig c).run ss).roles
  have hlive := hm.counts
  have hstarting := hr .starting
  have hidle := hr .idle
  have hcpu := hr (.running .cpu)
  have hblocking := hr (.running .blocking)
  unfold CountsRole counter at hstarting hidle hcpu hblocking
  unfold CountsLive at hlive
  dsimp only at hstarting hidle hcpu hblocking
  omega

/-- The worker above the core retires, and the last one dies and is replaced. -/
def dwindlingRun : List (Section Kind) :=
  [.begin 0, .accept .blocking, .resume 0 false, .accept .blocking, .begin 1, .finish 0,
    .resume 0 true, .die 1]

theorem staffed_run_dwindlingRun :
    create (single 2) = .ok (ofConfig (single 2) : Pool Kind) ∧
      Staffed (single 2) ((ofConfig (single 2)).run dwindlingRun) ∧
      ((ofConfig (single 2)).run dwindlingRun).roles = [none, none, some .starting] ∧
      ∀ s, ∀ n ∈ ((ofConfig (single 2)).run dwindlingRun).decrements s, 0 < n :=
  have hp : create (single 2) = .ok (ofConfig (single 2) : Pool Kind) :=
    create_eq_ok_iff.mpr ⟨single_valid (by decide), rfl⟩
  have h := staffed_run hp dwindlingRun
  ⟨hp, h.1, by decide, h.2⟩

end Workforce.Pool
