import Workforce.Proofs.Pool.Contributions
import Workforce.Proofs.Pool.Health
import Workforce.Proofs.Pool.Staff
import Workforce.Proofs.Pool.Termination

/-
  How many processor-bound tasks run at once. A worker that looks for a task is not counted in its
  former role any more (`searched`), and it starts a processor-bound task only if the pool admits
  one at that moment (`admitted_of_started`). The limit may fall below what runs: then nothing is
  stopped (`taskOf?_run`), and what runs has to end first, which is a matter of counting starts and
  ends (`runningOf_run`).

  `parallelism_bounded`: no more processor-bound tasks run than the largest limit so far and the
  size of the pool allow.
-/

namespace Workforce.Pool

variable {τ : Type} [Kinded τ]

/-! ## Looking for a task -/

/-- The pool with one worker less counted in a role. -/
def uncount (p : Pool τ) : Role → Pool τ
  | .starting => { p with starting := p.starting - 1 }
  | .idle => { p with idle := p.idle - 1 }
  | .running k => p.countEnd k

/-- The pool in which the worker of a section looks for a task: the role that it gives up is not
counted any more. -/
def searched (p : Pool τ) (s : Section τ) : Pool τ := ((p.freed? s).map p.uncount).getD p

omit [Kinded τ] in
theorem counter_uncount (p : Pool τ) (r a : Role) :
    (p.uncount r).counter a = p.counter a - if r = a then 1 else 0 := by
  cases r with
  | running k => exact counter_countEnd p k a
  | _ =>
    cases a with
    | running k => cases k <;> rfl
    | _ => rfl

theorem counter_searched (p : Pool τ) (s : Section τ) (a : Role) :
    (p.searched s).counter a = p.counter a - if p.freed? s = some a then 1 else 0 := by
  unfold searched
  cases p.freed? s with
  | none => rfl
  | some r => simpa using counter_uncount p r a

theorem orderly_uncount {p : Pool τ} (h : Orderly p) (r : Role) : Orderly (p.uncount r) := by
  cases r with
  | running k => exact orderly_countEnd h k
  | _ => exact h.recount rfl rfl rfl

theorem orderly_searched {p : Pool τ} (h : Orderly p) (s : Section τ) : Orderly (p.searched s) := by
  unfold searched
  cases p.freed? s with
  | none => exact h
  | some r => exact orderly_uncount h r

theorem keeps_searched (p : Pool τ) (s : Section τ) : Keeps p (p.searched s) := by
  unfold searched
  cases p.freed? s with
  | none => exact .refl p
  | some r =>
    cases r with
    | running k => exact keeps_countEnd p k
    | _ => exact .same rfl rfl rfl

omit [Kinded τ] in
theorem runs_of_started {r : Turn τ} {t : τ} (h : r.started = some t) : r = .runs t := by
  cases r with
  | runs u => cases h; rfl
  | _ => cases h

/-- A section that starts a task is a worker that looks for one and finds it. -/
theorem schedule_of_started {p : Pool τ} {s : Section τ} {t : τ} (h : p.started? s = some t) :
    ∃ w, (p.searched s).schedule w = (.runs t, p.step s) := by
  unfold started? at h
  cases s with
  | begin w =>
    rw [turn?] at h
    split at h
    case h_1 hp =>
      refine ⟨w, ?_⟩
      rw [searched, freed?, step, hp]
      exact Prod.ext (runs_of_started h) rfl
    case h_2 => cases h
  | resume w timedOut =>
    rw [turn?] at h
    split at h
    case h_1 hp =>
      refine ⟨w, ?_⟩
      have hr := runs_of_started h
      rw [searched, freed?, step, hp]
      show ({ p with idle := p.idle - 1 } : Pool τ).schedule w = (.runs t, (p.resume w timedOut).2)
      unfold resume at hr ⊢
      dsimp only at hr ⊢
      split at hr
      case isTrue => cases hr
      case isFalse hn =>
        rw [if_neg hn]
        exact Prod.ext hr rfl
    case h_2 => cases h
  | finish w =>
    rw [turn?] at h
    cases ht : p.taskOf? w with
    | none => rw [ht] at h; cases h
    | some u =>
      rw [ht] at h
      refine ⟨w, ?_⟩
      rw [searched, freed?, step, ht]
      exact Prod.ext (runs_of_started h) rfl
  | die w =>
    rw [turn?] at h
    cases ht : p.taskOf? w with
    | none => rw [ht] at h; cases h
    | some u => rw [ht] at h; cases h
  | _ => cases h

/-! ## Admission -/

/-- A processor-bound task is picked only if the pool admits one. -/
theorem Picks.admits {p q : Pool τ} {slot : Option τ} {t : τ} (h : Picks p slot (some t, q))
    (hk : Kinded.kind t = .cpu) (hb : ∀ u ∈ p.blockingQueue, Kinded.kind u = .blocking) :
    p.admitsCpu = true := by
  generalize hr : (some t, q) = r at h
  induction h with
  | fromSlot h =>
    cases hr
    rcases h with hn | ha
    · rw [hk] at hn; cases hn
    · exact ha
  | cpu ha => exact ha
  | blocking _ hq =>
    cases hr
    have hn := hb t (by rw [hq]; exact List.mem_cons_self)
    rw [hk] at hn
    cases hn
  | nothing => cases hr
  | aside _ _ _ ih => exact ih hb hr

/-- A section that starts a processor-bound task finds the pool below its limit, with the task that
its worker ended not counted any more. -/
theorem admitted_of_started {p : Pool τ} (ho : Orderly p) {s : Section τ} {t : τ}
    (h : p.started? s = some t) (hk : Kinded.kind t = .cpu) :
    (p.searched s).runningCpu < Nat.min (p.searched s).limit (p.searched s).config.max := by
  obtain ⟨w, hw⟩ := schedule_of_started h
  have hsch := schedules (p.searched s) w
  have hb := (orderly_searched ho s).blocking
  rw [hw] at hsch
  generalize p.step s = q at hsch
  cases hsch with
  | runs _ hp => exact (admitsCpu_iff _).mp (hp.admits hk hb)

/-! ## Counting -/

/-- The counter of a kind of running task goes up by one if such a task is found. -/
theorem counter_schedule (p : Pool τ) (w : Nat) (k : Kind) :
    (p.schedule w).2.counter (.running k) =
      p.counter (.running k) + if (p.schedule w).1.started.map Kinded.kind = some k then 1 else 0 := by
  have hempty := sameStaff_emptySlot p w
  generalize hr : p.schedule w = r
  have hsch : Schedules p w r := hr ▸ schedules p w
  cases hsch with
  | abandoned => exact (takes_leave p w).counter _
  | @runs t q _ hp =>
    have hc := ((hempty.trans hp.sameStaff).takes (takes_running q w t)).counter (.running k)
    simpa [Turn.started] using hc
  | @drained q _ hp =>
    exact ((hempty.trans hp.sameStaff).takes (takes_leave q w)).counter _
  | @rests q _ hp =>
    simpa [Turn.started] using ((hempty.trans hp.sameStaff).takes (takes_idle q w)).counter (.running k)

theorem MayHire.counter_running {p q : Pool τ} (h : MayHire p q) (k : Kind) :
    q.counter (.running k) = p.counter (.running k) := by
  rcases h with hs | ⟨-, hh⟩
  · exact hs.counter _
  · exact hh.counter _

theorem counter_die (p : Pool τ) (w : Nat) (k j : Kind) :
    (p.die w k).2.counter (.running j) = (p.countEnd k).counter (.running j) := by
  unfold die
  dsimp only
  split
  · exact ((hires_spawnWorker _).counter _).trans ((takes_leave _ w).counter _)
  · exact (takes_leave _ w).counter _

/-- Sections that give up a running role are those that end a task. -/
theorem freed?_running {p : Pool τ} {s : Section τ} {k : Kind}
    (h : p.freed? s = some (.running k)) :
    ∃ w t, (s = .finish w ∨ s = .die w) ∧ p.taskOf? w = some t ∧ Kinded.kind t = k := by
  cases s with
  | begin w =>
    rw [freed?] at h
    split at h <;> cases h
  | resume w timedOut =>
    rw [freed?] at h
    split at h <;> cases h
  | finish w =>
    obtain ⟨t, ht, hk⟩ := Option.map_eq_some_iff.mp h
    exact ⟨w, t, Or.inl rfl, ht, by cases hk; rfl⟩
  | die w =>
    obtain ⟨t, ht, hk⟩ := Option.map_eq_some_iff.mp h
    exact ⟨w, t, Or.inr rfl, ht, by cases hk; rfl⟩
  | _ => cases h

theorem counter_resume (p : Pool τ) (w : Nat) (timedOut : Bool) (k : Kind) :
    (p.resume w timedOut).2.counter (.running k) = p.counter (.running k) +
      if (p.resume w timedOut).1.started.map Kinded.kind = some k then 1 else 0 := by
  have hcount : ({ p with idle := p.idle - 1 } : Pool τ).counter (.running k) =
      p.counter (.running k) := by cases k <;> rfl
  unfold resume
  dsimp only
  split
  · exact ((takes_leave { p with idle := p.idle - 1 } w).counter _).trans hcount
  · rw [counter_schedule, hcount]

/-- A section takes the task that its worker ended out of the count, and counts the one that it
starts. -/
theorem counter_step (p : Pool τ) (s : Section τ) (k : Kind) :
    (p.step s).counter (.running k) =
      p.counter (.running k) - (if p.freed? s = some (.running k) then 1 else 0) +
        if (p.started? s).map Kinded.kind = some k then 1 else 0 := by
  cases hs : p.started? s with
  | some t =>
    obtain ⟨w, hw⟩ := schedule_of_started hs
    have hc := counter_schedule (p.searched s) w k
    rw [hw, counter_searched] at hc
    exact hc
  | none =>
    have hm := moves p s
    generalize p.step s = q at hm
    cases hm with
    | stays h =>
      have hn : p.freed? s ≠ some (.running k) := by
        intro hf
        obtain ⟨w, t, hw, ht, -⟩ := freed?_running hf
        rw [h w hw] at ht
        cases ht
      rw [if_neg hn]
      rfl
    | accepted => exact (mayHire_queueUp p _).counter_running k
    | taken => exact (mayHire_queueUp p _).counter_running k
    | placed => exact (sameStaff_place p _ _).counter _
    | flushed => exact (mayHire_flush p _).counter_running k
    | @began w x hw hx =>
      have ht : p.started? (.begin w) = (p.begin w).1.started := by
        simp [started?, turn?, phaseOf?, hw, hx]
      have hf : p.freed? (.begin w) = some .starting := by simp [freed?, phaseOf?, hw, hx]
      have hc := counter_schedule { p with starting := p.starting - 1 } w k
      rw [ht] at hs
      rw [show ({ p with starting := p.starting - 1 } : Pool τ).schedule w = p.begin w from rfl,
        hs] at hc
      rw [hf, hc]
      cases k <;> rfl
    | @resumed w timedOut _ x hw hx =>
      have ht : p.started? (.resume w timedOut) = (p.resume w timedOut).1.started := by
        simp [started?, turn?, phaseOf?, hw, hx]
      have hf : p.freed? (.resume w timedOut) = some .idle := by simp [freed?, phaseOf?, hw, hx]
      rw [ht] at hs
      rw [hf, counter_resume, hs]
      rfl
    | @finished w x t hw hx =>
      have ht : p.started? (.finish w) = (p.finish w (Kinded.kind t)).1.started := by
        simp [started?, turn?, taskOf?_eq hw, hx]
      have hf : p.freed? (.finish w) = some (.running (Kinded.kind t)) := by
        simp [freed?, taskOf?_eq hw, hx]
      rw [ht] at hs
      rw [hf, finish, counter_schedule, counter_countEnd, ← finish, hs]
      simp
    | died hw ht =>
      rw [counter_die, counter_countEnd]
      simp [freed?, taskOf?_eq hw, ht]
    | raised w => exact (mayHire_raise p w).counter_running k
    | lowered w => exact (sameStaff_lower p w).counter _
    | closed => exact (sameStaff_beginClose p).counter _
    | terminated => exact (sameStaff_terminate p).counter _

theorem runningOf_step {p : Pool τ} {k : Kind} (h : CountsRole p (.running k)) (s : Section τ) :
    (p.step s).runningOf k + (if p.freed? s = some (.running k) then 1 else 0) =
      p.runningOf k + if (p.started? s).map Kinded.kind = some k then 1 else 0 := by
  have hc := counter_step p s k
  rw [runningOf_eq, runningOf_eq, hc]
  by_cases hf : p.freed? s = some (.running k)
  · -- the task that ends is one of those counted
    have hpos := counter_pos h (mem_roles_of_freed hf)
    rw [if_pos hf]
    omega
  · rw [if_neg hf]
    omega

/-- How many tasks of a kind the sections of a run start. -/
def starts (k : Kind) (p : Pool τ) : List (Section τ) → Nat
  | [] => 0
  | s :: ss => (if (p.started? s).map Kinded.kind = some k then 1 else 0) + starts k (p.step s) ss

/-- How many tasks of a kind the sections of a run end. -/
def ends (k : Kind) (p : Pool τ) : List (Section τ) → Nat
  | [] => 0
  | s :: ss => (if p.freed? s = some (.running k) then 1 else 0) + ends k (p.step s) ss

theorem run_append (p : Pool τ) (us vs : List (Section τ)) :
    p.run (us ++ vs) = (p.run us).run vs := List.foldl_append

theorem ends_append (k : Kind) (p : Pool τ) (us vs : List (Section τ)) :
    p.ends k (us ++ vs) = p.ends k us + (p.run us).ends k vs := by
  induction us generalizing p with
  | nil => exact (Nat.zero_add _).symm
  | cons s us ih =>
    rw [List.cons_append, ends, ih, ends, Nat.add_assoc]
    rfl

/-- Tasks that were running or were started have ended or are running. -/
theorem runningOf_run {p : Pool τ} {k : Kind} (h : CountsRole p (.running k))
    (ss : List (Section τ)) :
    (p.run ss).runningOf k + p.ends k ss = p.runningOf k + p.starts k ss := by
  induction ss generalizing p with
  | nil => rfl
  | cons s ss ih =>
    have hs := runningOf_step h s
    have hrest := ih (h.step s)
    rw [show p.run (s :: ss) = (p.step s).run ss from rfl, ends, starts]
    omega

/-! ## Running tasks -/

omit [Kinded τ] in
theorem taskOf?_die {p : Pool τ} {w : Nat} {x : Worker τ} (hw : p.worker? w = some x) (k : Kind)
    {u : Nat} (hu : u ≠ w) : (p.die w k).2.taskOf? u = p.taskOf? u := by
  have hl : ((p.countEnd k).leave w).2.taskOf? u = p.taskOf? u := by
    rw [taskOf?_leave _ ((worker?_countEnd p k w).trans hw), if_neg hu, taskOf?, worker?_countEnd]
    rfl
  unfold die
  dsimp only
  split
  · exact ((sameHands_spawnWorker _).task u).trans hl
  · exact hl

/-- A worker runs its task until it ends it itself. -/
theorem taskOf?_step {p : Pool τ} {u : Nat} {t : τ} (h : p.taskOf? u = some t) {s : Section τ}
    (hf : s ≠ .finish u) (hd : s ≠ .die u) : (p.step s).taskOf? u = some t := by
  -- workers that begin or resume run nothing
  have hne : ∀ {w : Nat} {x : Worker τ}, p.worker? w = some x → x.phase.task? = none → u ≠ w := by
    rintro w x hw hx rfl
    rw [taskOf?_eq hw, hx] at h
    cases h
  have hm := moves p s
  generalize p.step s = q at hm
  cases hm with
  | stays => exact h
  | accepted => exact (taskOf?_queueUp p _ u).trans h
  | taken => exact (taskOf?_queueUp p _ u).trans h
  | placed => exact (taskOf?_place p _ _ u).trans h
  | flushed hr => exact ((gains_flush hr).task u).trans h
  | began hw hx =>
    rw [(turns_begin hw hx).task, if_neg (hne hw (by rw [hx]; rfl))]
    exact h
  | @resumed w timedOut _ x hw hx =>
    rw [(turns_resume hw hx timedOut).task, if_neg (hne hw (by rw [hx]; rfl))]
    exact h
  | finished hw hx =>
    rw [(turns_finish hw hx).task, if_neg (by rintro rfl; exact hf rfl)]
    exact h
  | died hw hx =>
    rw [taskOf?_die hw _ (by rintro rfl; exact hd rfl)]
    exact h
  | raised w => exact ((gains_raise p w).task u).trans h
  | lowered w => exact ((gains_lower p w).task u).trans h
  | closed => exact ((gains_beginClose p).task u).trans h
  | terminated => exact ((sameHands_notifyAll _).task u).trans h

theorem taskOf?_run {p : Pool τ} {u : Nat} {t : τ} (h : p.taskOf? u = some t)
    {ss : List (Section τ)} (hf : .finish u ∉ ss) (hd : .die u ∉ ss) :
    (p.run ss).taskOf? u = some t := by
  induction ss generalizing p with
  | nil => exact h
  | cons s ss ih =>
    obtain ⟨hfs, hf⟩ := not_or.mp (mt List.mem_cons.mpr hf)
    obtain ⟨hds, hd⟩ := not_or.mp (mt List.mem_cons.mpr hd)
    exact ih (taskOf?_step h (Ne.symm hfs) (Ne.symm hds)) hf hd

/-! ## Bounds -/

/-- The largest limit of a pool in the course of a run. -/
def peak (p : Pool τ) : List (Section τ) → Nat
  | [] => p.limit
  | s :: ss => max p.limit (peak (p.step s) ss)

theorem config_run (p : Pool τ) (ss : List (Section τ)) : (p.run ss).config = p.config :=
  List.foldlRecOn (motive := fun q => q.config = p.config) ss step rfl fun _ hq s _ =>
    (shifts _ s).config.trans hq

theorem runningCpu_step_le {p : Pool τ} (ho : Orderly p) (s : Section τ) :
    (p.step s).runningCpu ≤ max p.runningCpu (Nat.min p.limit p.config.max) := by
  have hc := counter_step p s .cpu
  unfold counter at hc
  dsimp only at hc
  by_cases hs : (p.started? s).map Kinded.kind = some .cpu
  · obtain ⟨t, ht, hk⟩ := Option.map_eq_some_iff.mp hs
    have hlt := admitted_of_started ho ht hk
    have hcount := counter_searched p s (.running .cpu)
    have hkeeps := keeps_searched p s
    unfold counter at hcount
    dsimp only at hcount
    rw [hkeeps.limit, hkeeps.config, hcount] at hlt
    rw [if_pos hs] at hc
    omega
  · rw [if_neg hs] at hc
    omega

/-- No more processor-bound tasks run than at first, or than the largest limit and the size of the
pool allow. -/
theorem runningCpu_run_le {p : Pool τ} (ho : Orderly p) (ss : List (Section τ)) :
    (p.run ss).runningCpu ≤ max p.runningCpu (Nat.min (p.peak ss) p.config.max) := by
  induction ss generalizing p with
  | nil => exact Nat.le_max_left _ _
  | cons s ss ih =>
    have hstep := runningCpu_step_le ho s
    have hrest := ih (orderly_step ho s)
    rw [(shifts p s).config] at hrest
    rw [show p.run (s :: ss) = (p.step s).run ss from rfl, peak]
    have hmin : Nat.min (max p.limit ((p.step s).peak ss)) p.config.max =
        max (Nat.min p.limit p.config.max) (Nat.min ((p.step s).peak ss) p.config.max) :=
      Nat.min_max_distrib_right ..
    omega

/-- Only a raise takes the limit up. -/
theorem limit_step_le {p : Pool τ} {s : Section τ} (h : ∀ w, s ≠ .raise w) :
    (p.step s).limit ≤ p.limit := by
  have hkeeps (hr : ∀ w, s.isRaise w = false) (hl : ∀ w, s.isLower w = false) :
      (p.step s).limit ≤ p.limit := Nat.le_of_eq (keeps_step hr hl).limit
  cases s with
  | raise w => exact absurd rfl (h w)
  | lower w =>
    show (p.lower w).limit ≤ p.limit
    unfold lower
    split
    · exact Nat.le_refl _
    · split
      · exact Nat.le_refl _
      · exact Nat.sub_le _ _
  | _ => exact hkeeps (fun _ => rfl) fun _ => rfl

theorem peak_le {p : Pool τ} {ss : List (Section τ)} (h : ∀ w, .raise w ∉ ss) :
    p.peak ss ≤ p.limit := by
  induction ss generalizing p with
  | nil => exact Nat.le_refl _
  | cons s ss ih =>
    have hs := limit_step_le (p := p) fun w he => h w (he ▸ List.mem_cons_self)
    have hrest := ih (p := p.step s) fun w hw => h w (List.mem_cons_of_mem _ hw)
    exact Nat.max_le.mpr ⟨Nat.le_refl _, Nat.le_trans hrest hs⟩

/-- In every run from a new pool:
- a section starts a processor-bound task, whether from a slot or from a queue, only if fewer run
  than the limit and the size of the pool allow at that moment;
- no more of them run than the largest limit so far and the size of the pool allow, and no more
  than the core size if the limit was never raised;
- a running task is stopped by its own worker only, whatever becomes of the limit;
- after a point with too many of them running the next start comes only when so many have ended
  that those still running are below the limit again. -/
theorem parallelism_bounded (c : Config) (ss : List (Section τ)) :
    (∀ us s t, us ++ [s] <+: ss → ((ofConfig c).run us).started? s = some t →
        Kinded.kind t = .cpu →
        (((ofConfig c).run us).searched s).runningCpu <
          Nat.min (((ofConfig c).run us).searched s).limit c.max) ∧
      ((ofConfig c).run ss).runningCpu ≤ Nat.min ((ofConfig c).peak ss) c.max ∧
      ((∀ w, .raise w ∉ ss) → ((ofConfig c).run ss).runningCpu ≤ c.core) ∧
      (∀ us vs w t, us ++ vs <+: ss → ((ofConfig c).run us).taskOf? w = some t →
        .finish w ∉ vs → .die w ∉ vs → ((ofConfig c).run (us ++ vs)).taskOf? w = some t) ∧
      ∀ us vs s t, us ++ (vs ++ [s]) <+: ss →
        ((ofConfig c).run (us ++ vs)).started? s = some t → Kinded.kind t = .cpu →
        ((ofConfig c).run us).runningCpu + ((ofConfig c).run us).starts .cpu vs <
          Nat.min ((ofConfig c).run (us ++ vs)).limit c.max +
            ((ofConfig c).run us).ends .cpu (vs ++ [s]) := by
  have hnew := ofConfig_start (τ := τ) c
  have hconfig (us : List (Section τ)) : ((ofConfig c).run us).config = c :=
    (config_run _ us).trans (congrArg Pool.config hnew)
  have hstart {us : List (Section τ)} {s : Section τ} {t : τ}
      (hs : ((ofConfig c).run us).started? s = some t) (hk : Kinded.kind t = .cpu) :
      (((ofConfig c).run us).searched s).runningCpu <
        Nat.min (((ofConfig c).run us).searched s).limit c.max := by
    have ha := admitted_of_started (orderly_run (orderly_ofConfig c) us) hs hk
    rw [(keeps_searched _ s).config, hconfig] at ha
    exact ha
  have hbound : ((ofConfig c).run ss).runningCpu ≤ Nat.min ((ofConfig c).peak ss) c.max := by
    have hb := runningCpu_run_le (orderly_ofConfig c) ss
    rw [show (ofConfig c : Pool τ).runningCpu = 0 from congrArg Pool.runningCpu hnew,
      show (ofConfig c : Pool τ).config = c from congrArg Pool.config hnew, Nat.zero_max] at hb
    exact hb
  refine ⟨fun us s t _ hs hk => hstart hs hk, hbound, fun hr => ?_, fun us vs w t _ ht hf hd => ?_,
    fun us vs s t _ hs hk => ?_⟩
  · have hp := peak_le (p := ofConfig c) hr
    rw [show (ofConfig c : Pool τ).limit = c.core from congrArg Pool.limit hnew] at hp
    exact Nat.le_trans hbound (Nat.le_trans (Nat.min_le_left _ _) hp)
  · rw [run_append]
    exact taskOf?_run ht hf hd
  · have hlt := hstart hs hk
    have hcounts := runningOf_run ((countsRole_ofConfig c (.running .cpu)).run us) vs
    rw [(keeps_searched _ s).limit, run_append] at hlt
    rw [run_append, ends_append]
    generalize (ofConfig c).run us = p at hlt hcounts ⊢
    have hcount := counter_searched (p.run vs) s (.running .cpu)
    unfold counter at hcount
    dsimp only at hcount
    unfold runningOf at hcounts
    dsimp only at hcounts
    rw [hcount] at hlt
    simp only [ends]
    omega

/-- A second processor-bound task starts under a raised limit, which is taken back while both run.
The third one, placed by the second, waits until both have ended. -/
def narrowedRun : List (Section Kind) :=
  [.begin 0, .accept .cpu, .resume 0 false, .raise 0, .accept .cpu, .begin 1, .lower 0,
    .place 1 .cpu, .finish 1, .finish 0]

theorem parallelism_bounded_narrowedRun :
    (((ofConfig (single 3)).run (narrowedRun.take 9)).searched (.finish 0)).runningCpu < 1 ∧
      ((ofConfig (single 3)).run narrowedRun).runningCpu ≤ 2 ∧
      ((ofConfig (single 3)).run (narrowedRun.take 3)).runningCpu ≤ 1 ∧
      ((ofConfig (single 3)).run (narrowedRun.take 9)).taskOf? 0 = some .cpu ∧
      2 + ((ofConfig (single 3)).run (narrowedRun.take 7)).starts .cpu [.place 1 .cpu, .finish 1] <
        1 + ((ofConfig (single 3)).run (narrowedRun.take 7)).ends .cpu
          [.place 1 .cpu, .finish 1, .finish 0] := by
  obtain ⟨hstart, hpeak, -, hruns, hends⟩ := parallelism_bounded (single 3) narrowedRun
  have hcalm := (parallelism_bounded (single 3) (narrowedRun.take 3)).2.2.1
  have hwait : ((ofConfig (single 3)).run (narrowedRun.take 9)).started? (.finish 0) = some .cpu := by
    decide
  refine ⟨hstart _ _ _ (List.prefix_refl narrowedRun) hwait rfl, hpeak, hcalm ?_, ?_, ?_⟩
  · intro w
    simp [narrowedRun]
  · exact hruns (narrowedRun.take 7) [.place 1 .cpu, .finish 1] 0 .cpu
      (List.take_prefix 9 narrowedRun) (by decide) (by simp) (by simp)
  · have hlt := hends (narrowedRun.take 7) [.place 1 .cpu, .finish 1] (.finish 0) .cpu
      (List.prefix_refl narrowedRun) hwait rfl
    exact hlt

end Workforce.Pool
