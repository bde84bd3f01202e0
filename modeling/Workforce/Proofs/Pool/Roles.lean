import Workforce.Proofs.Pool.Marks

/-
  What the workers of a pool are doing, and the counters kept of it. A section of a worker takes
  one from the counter of its role and adds one to that of the role it goes on in; the number of
  live workers changes as workers are started and leave. `shifts`: a section does nothing to the
  staff, starts a worker, or lets one worker change its role, and only a death does two of these.

  From this every counter is the number of workers in its role, whatever the other counters are
  (`CountsRole.step`), and so is the number of live workers (`CountsLive.step`).
-/

namespace Workforce

/-- What a worker that has not left is doing, apart from the task. -/
inductive Role where
  | starting
  | idle
  | running (k : Kind)
  deriving DecidableEq

/-- The role of a worker in a phase; none once it has left. -/
def Phase.role? {τ : Type} [Kinded τ] : Phase τ → Option Role
  | .starting => some .starting
  | .idle _ => some .idle
  | .running t => some (.running (Kinded.kind t))
  | .gone => none

/-- Replacing a member of a list moves one occurrence. -/
theorem count_set_add {α : Type} [BEq α] [LawfulBEq α] [DecidableEq α] {xs : List α} {i : Nat} {x : α}
    (h : xs[i]? = some x) (y a : α) :
    (xs.set i y).count a + (if x = a then 1 else 0) = xs.count a + if y = a then 1 else 0 := by
  induction xs generalizing i with
  | nil => cases h
  | cons b xs ih =>
    cases i with
    | zero =>
      cases h
      simp only [List.set_cons_zero, List.count_cons, beq_iff_eq]
      omega
    | succ i =>
      have hi := ih (i := i) h
      simp only [List.set_cons_succ, List.count_cons]
      omega

namespace Pool

variable {τ : Type} [Kinded τ]

/-- The roles of all workers ever started. -/
def roles (p : Pool τ) : List (Option Role) := p.workers.map fun x => x.phase.role?

/-- The counter kept of a role. -/
def counter (p : Pool τ) : Role → Nat
  | .starting => p.starting
  | .idle => p.idle
  | .running .cpu => p.runningCpu
  | .running .blocking => p.runningBlocking

/-! ## Changes of the staff -/

/-- Nothing about the staff differs. -/
structure SameStaff (p q : Pool τ) : Prop where
  config : q.config = p.config
  roles : q.roles = p.roles
  counter : ∀ r, q.counter r = p.counter r
  live : q.live = p.live

/-- One worker is started. -/
structure Hires (p q : Pool τ) : Prop where
  config : q.config = p.config
  roles : q.roles = p.roles ++ [some .starting]
  counter : ∀ r, q.counter r = p.counter r + if r = .starting then 1 else 0
  live : q.live = p.live + 1

/-- A worker takes on a role, or leaves; its former role is not counted any more. -/
structure Takes (p : Pool τ) (w : Nat) (role : Option Role) (q : Pool τ) : Prop where
  config : q.config = p.config
  roles : q.roles = p.roles.set w role
  counter : ∀ r, q.counter r = p.counter r + if role = some r then 1 else 0
  live : q.live = p.live - if role = none then 1 else 0

/-- A worker changes its role, or leaves. -/
structure Switches (p : Pool τ) (w : Nat) (r : Role) (role : Option Role) (q : Pool τ) : Prop where
  old : p.roles[w]? = some (some r)
  config : q.config = p.config
  roles : q.roles = p.roles.set w role
  counter : ∀ a, q.counter a =
    p.counter a - (if r = a then 1 else 0) + if role = some a then 1 else 0
  live : q.live = p.live - if role = none then 1 else 0

theorem SameStaff.refl (p : Pool τ) : SameStaff p p := ⟨rfl, rfl, fun _ => rfl, rfl⟩

theorem SameStaff.trans {p q r : Pool τ} (h : SameStaff p q) (h' : SameStaff q r) :
    SameStaff p r :=
  ⟨h'.config.trans h.config, h'.roles.trans h.roles, fun a => (h'.counter a).trans (h.counter a),
    h'.live.trans h.live⟩

theorem SameStaff.hires {p q r : Pool τ} (h : SameStaff p q) (h' : Hires q r) : Hires p r := by
  refine ⟨h'.config.trans h.config, ?_, fun a => ?_, ?_⟩
  · rw [h'.roles, h.roles]
  · rw [h'.counter, h.counter]
  · rw [h'.live, h.live]

theorem SameStaff.takes {p q r : Pool τ} (h : SameStaff p q) {w : Nat} {role : Option Role}
    (h' : Takes q w role r) : Takes p w role r := by
  refine ⟨h'.config.trans h.config, ?_, fun a => ?_, ?_⟩
  · rw [h'.roles, h.roles]
  · rw [h'.counter, h.counter]
  · rw [h'.live, h.live]

/-- A worker whose former role is not counted any more takes on another. -/
theorem Takes.switches {p q r : Pool τ} {w : Nat} {a : Role} {role : Option Role}
    (h : Takes q w role r) (hw : p.roles[w]? = some (some a)) (hc : q.config = p.config)
    (hr : q.roles = p.roles) (hn : ∀ b, q.counter b = p.counter b - if a = b then 1 else 0)
    (hl : q.live = p.live) : Switches p w a role r := by
  refine ⟨hw, h.config.trans hc, ?_, fun b => ?_, ?_⟩
  · rw [h.roles, hr]
  · rw [h.counter, hn]
  · rw [h.live, hl]

theorem roles_getElem? {p : Pool τ} {w : Nat} {x : Worker τ} (h : p.worker? w = some x) :
    p.roles[w]? = some x.phase.role? := by
  rw [roles, List.getElem?_map]
  exact congrArg (Option.map _) h

theorem roles_modifyWorker (p : Pool τ) (w : Nat) (f : Worker τ → Worker τ)
    (hf : ∀ x, p.worker? w = some x → (f x).phase.role? = x.phase.role?) :
    (p.modifyWorker w f).roles = p.roles := by
  refine List.ext_getElem? fun u => ?_
  unfold roles modifyWorker
  rw [List.getElem?_map, List.getElem?_map, List.getElem?_modify]
  cases hu : p.workers[u]? with
  | none => rfl
  | some x =>
    show some (if w = u then f x else x).phase.role? = some x.phase.role?
    split
    case isTrue he =>
      subst he
      rw [hf x hu]
    case isFalse => rfl

theorem sameStaff_modifyWorker (p : Pool τ) (w : Nat) (f : Worker τ → Worker τ)
    (hf : ∀ x, p.worker? w = some x → (f x).phase.role? = x.phase.role?) :
    SameStaff p (p.modifyWorker w f) :=
  ⟨rfl, roles_modifyWorker p w f hf, fun _ => rfl, rfl⟩

theorem roles_setPhase (p : Pool τ) (w : Nat) (phase : Phase τ) :
    (p.setPhase w phase).roles = p.roles.set w phase.role? := by
  refine List.ext_getElem? fun u => ?_
  unfold roles setPhase modifyWorker
  rw [List.getElem?_map, List.getElem?_modify, List.getElem?_set, List.getElem?_map]
  by_cases h : w = u
  · subst h
    by_cases hl : w < p.workers.length
    · simp [hl]
    · simp [hl]
  · simp [h]

/-! ## Waking and starting workers -/

theorem sameStaff_notifyOne (p : Pool τ) : SameStaff p p.notifyOne := by
  unfold notifyOne
  split
  case h_1 w hw =>
    refine sameStaff_modifyWorker p w wake fun x hx => ?_
    obtain ⟨h, hs, -⟩ := List.findIdx?_eq_some_iff_getElem.mp hw
    rw [worker?, List.getElem?_eq_getElem h] at hx
    rw [Option.some.inj hx] at hs
    rw [(sleeps_iff x).mp hs]
    rfl
  case h_2 => exact .refl p

theorem sameStaff_notifyAll (p : Pool τ) : SameStaff p p.notifyAll := by
  refine ⟨rfl, ?_, fun _ => rfl, rfl⟩
  unfold roles notifyAll
  rw [List.map_map]
  refine List.map_congr_left fun x _ => ?_
  show (if sleeps x = true then wake x else x).phase.role? = x.phase.role?
  split
  case isTrue h =>
    rw [(sleeps_iff x).mp h]
    rfl
  case isFalse => rfl

theorem hires_spawnWorker (p : Pool τ) : Hires p p.spawnWorker := by
  refine ⟨rfl, ?_, fun r => ?_, rfl⟩
  · unfold roles spawnWorker
    rw [List.map_append]
    rfl
  · cases r with
    | starting => rfl
    | idle => rfl
    | running k => cases k <;> rfl

/-- At most one worker is started, and only if the pool has room for it. -/
def MayHire (p q : Pool τ) : Prop := SameStaff p q ∨ (p.live < p.config.max ∧ Hires p q)

theorem SameStaff.mayHire {p q r : Pool τ} (h : SameStaff p q) (h' : MayHire q r) : MayHire p r := by
  rcases h' with hs | ⟨hm, hh⟩
  · exact Or.inl (h.trans hs)
  · rw [h.live, h.config] at hm
    exact Or.inr ⟨hm, h.hires hh⟩

theorem mayHire_ensureCapacity (p : Pool τ) : MayHire p p.ensureCapacity := by
  unfold ensureCapacity
  split
  · exact Or.inl (.refl p)
  · split
    case isTrue h => exact Or.inr ⟨h.2.1, hires_spawnWorker p⟩
    case isFalse => exact Or.inl (sameStaff_notifyOne p)

theorem sameStaff_enqueue (p : Pool τ) (t : τ) : SameStaff p (p.enqueue t) := by
  unfold enqueue
  cases Kinded.kind t <;> exact ⟨rfl, rfl, fun _ => rfl, rfl⟩

theorem mayHire_queueUp (p : Pool τ) (t : τ) : MayHire p (p.queueUp t) :=
  (sameStaff_enqueue p t).mayHire (mayHire_ensureCapacity _)

theorem sameStaff_place (p : Pool τ) (w : Nat) (t : τ) : SameStaff p (p.place w t).2 := by
  have hm := sameStaff_modifyWorker p w (fun x => { x with slot := some t }) fun _ _ => rfl
  unfold place
  split
  · exact .refl p
  · split
    · exact .refl p
    · split <;> exact hm

theorem sameStaff_emptySlot (p : Pool τ) (w : Nat) : SameStaff p (p.emptySlot w) :=
  sameStaff_modifyWorker p w _ fun _ _ => rfl

theorem mayHire_flush (p : Pool τ) (w : Nat) : MayHire p (p.flush w) := by
  unfold flush
  split
  · exact Or.inl (.refl p)
  · exact (sameStaff_emptySlot p w).mayHire (mayHire_queueUp _ _)

theorem mayHire_raise (p : Pool τ) (w : Nat) : MayHire p (p.raise w) := by
  unfold raise
  split
  · exact Or.inl (.refl p)
  · split
    · exact Or.inl (sameStaff_modifyWorker p w _ fun _ _ => rfl)
    · have hm := sameStaff_modifyWorker { p with limit := p.limit + 1 } w
        (fun x => { x with contribution := x.contribution + 1 }) fun _ _ => rfl
      have hs : SameStaff p _ := ⟨hm.config, hm.roles, hm.counter, hm.live⟩
      exact hs.mayHire (mayHire_ensureCapacity _)

theorem sameStaff_lower (p : Pool τ) (w : Nat) : SameStaff p (p.lower w) := by
  unfold lower
  split
  · exact .refl p
  · split
    · exact sameStaff_modifyWorker p w _ fun _ _ => rfl
    · have hm := sameStaff_modifyWorker { p with limit := p.limit - 1 } w
        (fun x => { x with contribution := x.contribution - 1 }) fun _ _ => rfl
      exact ⟨hm.config, hm.roles, hm.counter, hm.live⟩

theorem sameStaff_beginClose (p : Pool τ) : SameStaff p p.beginClose := by
  unfold beginClose
  split
  · exact .refl p
  · have hn := sameStaff_notifyAll { p with closed := true }
    exact ⟨hn.config, hn.roles, hn.counter, hn.live⟩

theorem sameStaff_terminate (p : Pool τ) : SameStaff p p.terminate.2.2 := by
  have hn := sameStaff_notifyAll { p with abandoned := true, cpuQueue := [], blockingQueue := [] }
  exact ⟨hn.config, hn.roles, hn.counter, hn.live⟩

/-! ## Switches -/

theorem takes_leave (p : Pool τ) (w : Nat) : Takes p w none (p.leave w).2 := by
  have hs := sameStaff_emptySlot p w
  have hg := roles_setPhase (p.emptySlot w) w .gone
  refine ⟨rfl, ?_, fun r => rfl, rfl⟩
  rw [← hs.roles]
  refine Eq.trans ?_ hg
  unfold roles leave emptySlot setPhase modifyWorker
  rw [List.modify_modify_eq]
  rfl

theorem Picks.sameStaff {p q : Pool τ} {slot o : Option τ} (h : Picks p slot (o, q)) :
    SameStaff p q := by
  rw [h.frame]
  exact ⟨rfl, rfl, fun _ => rfl, rfl⟩

omit [Kinded τ] in
theorem counter_countStart (p : Pool τ) (k : Kind) (r : Role) :
    (p.countStart k).counter r = p.counter r + if some (.running k) = some r then 1 else 0 := by
  cases k with
  | cpu =>
    cases r with
    | running k => cases k <;> rfl
    | _ => rfl
  | blocking =>
    cases r with
    | running k => cases k <;> rfl
    | _ => rfl

theorem takes_running (p : Pool τ) (w : Nat) (t : τ) :
    Takes p w (some (.running (Kinded.kind t)))
      ((p.countStart (Kinded.kind t)).setPhase w (.running t)) := by
  have hr := roles_setPhase (p.countStart (Kinded.kind t)) w (.running t)
  have hc := counter_countStart p (Kinded.kind t)
  have hrole : (Phase.running t).role? = some (.running (Kinded.kind t)) := rfl
  rw [hrole] at hr
  generalize Kinded.kind t = k at hr hc
  refine ⟨?_, hr.trans ?_, hc, ?_⟩ <;> cases k <;> rfl

theorem takes_idle (p : Pool τ) (w : Nat) :
    Takes p w (some .idle) ({ p with idle := p.idle + 1 }.setPhase w (.idle false)) := by
  refine ⟨rfl, roles_setPhase { p with idle := p.idle + 1 } w (.idle false), fun r => ?_, rfl⟩
  cases r with
  | starting => rfl
  | idle => rfl
  | running k => cases k <;> rfl

/-- A worker that looks for a task takes on a role, and leaves only a pool that is closed or
abandoned. -/
theorem takes_schedule (p : Pool τ) (w : Nat) :
    ∃ role, Takes p w role (p.schedule w).2 ∧
      (role = none → p.closed = true ∨ p.abandoned = true) := by
  have hempty := sameStaff_emptySlot p w
  generalize hr : p.schedule w = r
  have hsch : Schedules p w r := hr ▸ schedules p w
  cases hsch with
  | abandoned ha => exact ⟨none, takes_leave p w, fun _ => Or.inr ha⟩
  | @runs t q _ hp =>
    exact ⟨_, (hempty.trans hp.sameStaff).takes (takes_running q w t), by simp⟩
  | @drained q _ hp hc =>
    refine ⟨none, (hempty.trans hp.sameStaff).takes (takes_leave q w), fun _ => Or.inl ?_⟩
    rw [hp.frame] at hc
    exact hc
  | @rests q _ hp =>
    exact ⟨_, (hempty.trans hp.sameStaff).takes (takes_idle q w), by simp⟩

omit [Kinded τ] in
theorem counter_countEnd (p : Pool τ) (k : Kind) (r : Role) :
    (p.countEnd k).counter r = p.counter r - if .running k = r then 1 else 0 := by
  unfold countEnd signal
  cases k with
  | cpu =>
    cases r with
    | running k => cases k <;> dsimp only <;> split <;> rfl
    | _ => dsimp only; split <;> rfl
  | blocking =>
    cases r with
    | running k => cases k <;> dsimp only <;> split <;> rfl
    | _ => dsimp only; split <;> rfl

theorem countEnd_others (p : Pool τ) (k : Kind) :
    (p.countEnd k).config = p.config ∧ (p.countEnd k).roles = p.roles ∧
      (p.countEnd k).live = p.live ∧ (p.countEnd k).marks = p.marks := by
  unfold countEnd signal
  cases k <;> dsimp only <;> split <;> exact ⟨rfl, rfl, rfl, rfl⟩

theorem switches_begin {p : Pool τ} {w : Nat} {x : Worker τ} (hw : p.worker? w = some x)
    (hx : x.phase = .starting) : ∃ role, Switches p w .starting role (p.begin w).2 ∧
      (role = none → p.closed = true ∨ p.abandoned = true) := by
  obtain ⟨role, ht, hl⟩ := takes_schedule { p with starting := p.starting - 1 } w
  have hr := roles_getElem? hw
  rw [hx] at hr
  refine ⟨role, ht.switches hr rfl rfl (fun b => ?_) rfl, hl⟩
  cases b with
  | running k => cases k <;> rfl
  | _ => rfl

/-- A worker that wakes leaves a pool that is neither closed nor abandoned only if more workers
than the core remain. -/
theorem switches_resume {p : Pool τ} {w : Nat} {x : Worker τ} {woken : Bool}
    (hw : p.worker? w = some x) (hx : x.phase = .idle woken) (timedOut : Bool) :
    ∃ role, Switches p w .idle role (p.resume w timedOut).2 ∧
      (role = none → p.closed = true ∨ p.abandoned = true ∨ p.config.core ≤ p.live - 1) := by
  have hr := roles_getElem? hw
  rw [hx] at hr
  have hcount : ∀ b, ({ p with idle := p.idle - 1 } : Pool τ).counter b =
      p.counter b - if Role.idle = b then 1 else 0 := by
    intro b
    cases b with
    | running k => cases k <;> rfl
    | _ => rfl
  unfold resume
  dsimp only
  split
  case isTrue h =>
    refine ⟨none, (takes_leave { p with idle := p.idle - 1 } w).switches hr rfl rfl hcount rfl, ?_⟩
    intro _
    have hlt : p.config.core < p.live := h.2.2
    exact Or.inr (Or.inr (by omega))
  case isFalse =>
    obtain ⟨role, ht, hl⟩ := takes_schedule { p with idle := p.idle - 1 } w
    refine ⟨role, ht.switches hr rfl rfl hcount rfl, fun hn => ?_⟩
    rcases hl hn with hc | ha
    · exact Or.inl hc
    · exact Or.inr (Or.inl ha)

theorem roles_running {p : Pool τ} {w : Nat} {x : Worker τ} {t : τ} (hw : p.worker? w = some x)
    (hx : x.phase.task? = some t) : p.roles[w]? = some (some (.running (Kinded.kind t))) := by
  rw [roles_getElem? hw]
  cases hp : x.phase with
  | running u =>
    rw [hp] at hx
    cases hx
    rfl
  | _ => rw [hp] at hx; cases hx

theorem switches_finish {p : Pool τ} {w : Nat} {x : Worker τ} {t : τ} (hw : p.worker? w = some x)
    (hx : x.phase.task? = some t) :
    ∃ role, Switches p w (.running (Kinded.kind t)) role (p.finish w (Kinded.kind t)).2 ∧
      (role = none → p.closed = true ∨ p.abandoned = true) := by
  obtain ⟨role, ht, hl⟩ := takes_schedule (p.countEnd (Kinded.kind t)) w
  obtain ⟨hc, hr, hlive, hm⟩ := countEnd_others p (Kinded.kind t)
  refine ⟨role, ht.switches (roles_running hw hx) hc hr (counter_countEnd p _) hlive, fun hn => ?_⟩
  have hclosed : (p.countEnd (Kinded.kind t)).closed = p.closed := congrArg Prod.fst hm
  have habandoned : (p.countEnd (Kinded.kind t)).abandoned = p.abandoned := congrArg Prod.snd hm
  rw [← hclosed, ← habandoned]
  exact hl hn

/-- The worker that dies leaves, before another may replace it. -/
theorem switches_leave {p : Pool τ} {w : Nat} {x : Worker τ} {t : τ}
    (hw : p.worker? w = some x) (hx : x.phase.task? = some t) :
    Switches p w (.running (Kinded.kind t)) none ((p.countEnd (Kinded.kind t)).leave w).2 := by
  obtain ⟨hc, hr, hlive, -⟩ := countEnd_others p (Kinded.kind t)
  exact (takes_leave _ w).switches (roles_running hw hx) hc hr (counter_countEnd p _) hlive

/-! ## Sections -/

/-- What a section can do to the staff. -/
inductive Shifts (p q : Pool τ) : Prop where
  | hires (h : MayHire p q)
  /-- A worker leaves only in certain cases. -/
  | switches {w : Nat} {r : Role} {role : Option Role} (h : Switches p w r role q)
      (hl : role = none →
        p.closed = true ∨ p.abandoned = true ∨ p.config.core ≤ p.live - 1)
  /-- A worker is started in place of one that died. -/
  | replaced {w : Nat} {r : Role} {m : Pool τ} (h : Switches p w r none m)
      (hl : m.live < m.config.core) (hh : Hires m q)

theorem SameStaff.shifts {p q : Pool τ} (h : SameStaff p q) : Shifts p q := .hires (Or.inl h)

theorem shifts_die {p : Pool τ} {w : Nat} {x : Worker τ} {t : τ} (hw : p.worker? w = some x)
    (hx : x.phase.task? = some t) : Shifts p (p.die w (Kinded.kind t)).2 := by
  have ht := switches_leave hw hx
  have hm : ((p.countEnd (Kinded.kind t)).leave w).2.closed = p.closed :=
    congrArg Prod.fst (marks_countEnd p _)
  unfold die
  dsimp only
  split
  case isTrue h =>
    refine .replaced ht ?_ (hires_spawnWorker _)
    exact h.2
  case isFalse h =>
    refine .switches ht fun _ => ?_
    rw [hm, ht.config, ht.live, if_pos rfl] at h
    cases hc : p.closed with
    | true => exact Or.inl rfl
    | false => exact Or.inr (Or.inr (Nat.le_of_not_lt fun hlt => h ⟨hc, hlt⟩))

/-- No section does anything else to the staff. -/
theorem shifts (p : Pool τ) (s : Section τ) : Shifts p (p.step s) := by
  have hm := moves p s
  generalize p.step s = q at hm
  cases hm with
  | stays => exact (SameStaff.refl p).shifts
  | accepted => exact .hires (mayHire_queueUp p _)
  | taken => exact .hires (mayHire_queueUp p _)
  | placed => exact (sameStaff_place p _ _).shifts
  | flushed => exact .hires (mayHire_flush p _)
  | began hw hx =>
    obtain ⟨role, ht, hl⟩ := switches_begin hw hx
    exact .switches ht fun hn => (hl hn).imp_right Or.inl
  | resumed hw hx =>
    obtain ⟨role, ht, hl⟩ := switches_resume hw hx _
    exact .switches ht hl
  | finished hw ht =>
    obtain ⟨role, ht, hl⟩ := switches_finish hw ht
    exact .switches ht fun hn => (hl hn).imp_right Or.inl
  | died hw ht => exact shifts_die hw ht
  | raised w => exact .hires (mayHire_raise p w)
  | lowered w => exact (sameStaff_lower p w).shifts
  | closed => exact (sameStaff_beginClose p).shifts
  | terminated => exact (sameStaff_terminate p).shifts

theorem Shifts.config {p q : Pool τ} (h : Shifts p q) : q.config = p.config := by
  cases h with
  | hires hm =>
    rcases hm with hs | ⟨-, hh⟩
    · exact hs.config
    · exact hh.config
  | switches hs => exact hs.config
  | replaced hs _ hh => exact hh.config.trans hs.config

/-- No section gives a pool more workers than it may have. -/
theorem Shifts.live_le {p q : Pool τ} (h : Shifts p q) (hc : p.config.core ≤ p.config.max)
    (hl : p.live ≤ p.config.max) : q.live ≤ q.config.max := by
  rw [h.config]
  cases h with
  | hires hm =>
    rcases hm with hs | ⟨hroom, hh⟩
    · rw [hs.live]
      exact hl
    · rw [hh.live]
      exact hroom
  | switches hs =>
    rw [hs.live]
    omega
  | replaced hs hlt hh =>
    rw [hs.config] at hlt
    rw [hh.live]
    omega

/-! ## Counters -/

/-- The counter of a role is the number of workers in it. -/
def CountsRole (p : Pool τ) (r : Role) : Prop := p.counter r = p.roles.count (some r)

/-- The number of live workers is the number of those that have not left. -/
def CountsLive (p : Pool τ) : Prop := p.live + p.roles.count none = p.roles.length

theorem CountsRole.hires {p q : Pool τ} {r : Role} (h : CountsRole p r) (hh : Hires p q) :
    CountsRole q r := by
  have hnew : [some Role.starting].count (some r) = if r = .starting then 1 else 0 := by
    rcases r with _ | _ | k <;> rfl
  unfold CountsRole at h ⊢
  rw [hh.counter, hh.roles, h, List.count_append, hnew]

/-- A worker that gives up a role is one of those counted in it. -/
theorem Switches.counter_pos {p q : Pool τ} {w : Nat} {r : Role} {role : Option Role}
    (h : Switches p w r role q) (ht : CountsRole p r) : 0 < p.counter r := by
  rw [ht]
  exact List.count_pos_iff.mpr (List.mem_of_getElem? h.old)

theorem CountsRole.switches {p q : Pool τ} {r : Role} (h : CountsRole p r) {w : Nat} {a : Role}
    {role : Option Role} (hs : Switches p w a role q) : CountsRole q r := by
  have hcount := count_set_add hs.old role (some r)
  unfold CountsRole
  rw [hs.counter, hs.roles]
  by_cases ha : a = r
  · subst ha
    have hpos := hs.counter_pos h
    unfold CountsRole at h
    simp only [if_true] at hcount ⊢
    omega
  · unfold CountsRole at h
    simp only [Option.some.injEq, ha, if_false] at hcount ⊢
    omega

theorem CountsRole.mayHire {p q : Pool τ} {r : Role} (h : CountsRole p r) (hq : MayHire p q) :
    CountsRole q r := by
  rcases hq with hs | ⟨-, hh⟩
  · unfold CountsRole
    rw [hs.counter, hs.roles]
    exact h
  · exact h.hires hh

/-- Every section keeps the counter of a role right, whatever the other counters are. -/
theorem CountsRole.step {p : Pool τ} {r : Role} (h : CountsRole p r) (s : Section τ) :
    CountsRole (p.step s) r := by
  cases shifts p s with
  | hires hm => exact h.mayHire hm
  | switches hs => exact h.switches hs
  | replaced hs _ hh => exact (h.switches hs).hires hh

/-- Every worker has one of the four roles, or has left. -/
theorem length_eq_counts (rs : List (Option Role)) :
    rs.length = rs.count (some .starting) + rs.count (some .idle) +
      rs.count (some (.running .cpu)) + rs.count (some (.running .blocking)) + rs.count none := by
  induction rs with
  | nil => rfl
  | cons r rs ih =>
    rw [List.length_cons, ih]
    simp only [List.count_cons]
    rcases r with _ | _ | _ | k
    · simp; omega
    · simp; omega
    · simp; omega
    · cases k <;> simp <;> omega

theorem CountsLive.hires {p q : Pool τ} (h : CountsLive p) (hh : Hires p q) : CountsLive q := by
  unfold CountsLive at h ⊢
  have hnew : [some Role.starting].count none = 0 := rfl
  rw [hh.live, hh.roles, List.count_append, List.length_append, hnew, List.length_singleton]
  omega

/-- A worker that has not left is one of the live ones. -/
theorem Switches.live_pos {p q : Pool τ} {w : Nat} {r : Role} {role : Option Role}
    (h : Switches p w r role q) (hl : CountsLive p) : 0 < p.live := by
  have hr : 0 < p.roles.count (some r) := List.count_pos_iff.mpr (List.mem_of_getElem? h.old)
  have hlen := length_eq_counts p.roles
  unfold CountsLive at hl
  rcases r with _ | _ | k
  · omega
  · omega
  · cases k <;> omega

theorem CountsLive.switches {p q : Pool τ} (h : CountsLive p) {w : Nat} {r : Role}
    {role : Option Role} (hs : Switches p w r role q) : CountsLive q := by
  have hcount := count_set_add hs.old role none
  have hpos := hs.live_pos h
  unfold CountsLive at h ⊢
  rw [hs.live, hs.roles, List.length_set]
  cases role with
  | none =>
    simp only [reduceCtorEq, if_true, if_false] at hcount ⊢
    omega
  | some a =>
    simp only [reduceCtorEq, if_false] at hcount ⊢
    omega

theorem CountsLive.step {p : Pool τ} (h : CountsLive p) (s : Section τ) :
    CountsLive (p.step s) := by
  cases shifts p s with
  | hires hm =>
    rcases hm with hs | ⟨-, hh⟩
    · unfold CountsLive
      rw [hs.live, hs.roles]
      exact h
    · exact h.hires hh
  | switches hs => exact h.switches hs
  | replaced hs _ hh => exact (h.switches hs).hires hh

theorem countsRole_ofConfig (c : Config) (r : Role) : CountsRole (ofConfig c : Pool τ) r := by
  refine ofConfig_induct c ?_ fun p h => CountsRole.hires h (hires_spawnWorker p)
  cases r with
  | running k => cases k <;> rfl
  | _ => rfl

theorem countsLive_ofConfig (c : Config) : CountsLive (ofConfig c : Pool τ) :=
  ofConfig_induct c rfl fun p h => CountsLive.hires h (hires_spawnWorker p)

theorem CountsRole.run {p : Pool τ} {r : Role} (h : CountsRole p r) (ss : List (Section τ)) :
    CountsRole (p.run ss) r :=
  List.foldlRecOn (motive := fun q => CountsRole q r) ss Pool.step h fun _ hq s _ => hq.step s

end Pool

end Workforce
