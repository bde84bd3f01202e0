import Mathlib.Algebra.BigOperators.Group.List.Basic
import Mathlib.Data.List.Induction
import Workforce.Proofs.Pool.Holdings
import Workforce.Proofs.Pool.WorkConservation

/-
  The limit of a pool and what its workers contribute to it. A raise on behalf of a worker is
  applied or, beyond the cap, put aside as overflow; a lowering takes overflow back first. No other
  section touches a limit, a contribution or an overflow (`keeps_step`); new workers start with
  none.

  `limit_eq_core_add`: in a run in which every lowering answers an earlier raise for the same
  worker, the limit is the core size and all contributions, those of dead and retired workers
  included, and the two counters of a worker tell how many of its raises are unanswered. Which
  raise a lowering answers does not matter.
-/

namespace Workforce

/-- What the raises on behalf of a worker have come to: those applied and those put aside. -/
def Worker.account {τ : Type} (x : Worker τ) : Nat × Nat := (x.contribution, x.overflow)

namespace Pool

variable {τ : Type}

/-! ## Sections that leave limits alone -/

/-- The accounts of all workers ever started. -/
def accounts (p : Pool τ) : List (Nat × Nat) := p.workers.map Worker.account

/-- Limits and accounts are left alone, except for workers that are started meanwhile. -/
structure Keeps (p q : Pool τ) : Prop where
  config : q.config = p.config
  limit : q.limit = p.limit
  accounts : ∃ n, q.accounts = p.accounts ++ List.replicate n (0, 0)

theorem Keeps.refl (p : Pool τ) : Keeps p p := ⟨rfl, rfl, 0, (List.append_nil _).symm⟩

theorem Keeps.trans {p q r : Pool τ} (h : Keeps p q) (h' : Keeps q r) : Keeps p r := by
  obtain ⟨n, hn⟩ := h.accounts
  obtain ⟨k, hk⟩ := h'.accounts
  refine ⟨h'.config.trans h.config, h'.limit.trans h.limit, n + k, ?_⟩
  rw [hk, hn, List.append_assoc, List.replicate_append_replicate]

/-- Accounts are kept with the workers, and limits apart from them. -/
theorem Keeps.same {p q : Pool τ} (hc : q.config = p.config) (hl : q.limit = p.limit)
    (ha : q.accounts = p.accounts) : Keeps p q :=
  ⟨hc, hl, 0, by rw [ha]; simp⟩

theorem accounts_modifyWorker (p : Pool τ) (w : Nat) (f : Worker τ → Worker τ)
    (hf : ∀ x, (f x).account = x.account) : (p.modifyWorker w f).accounts = p.accounts := by
  unfold accounts modifyWorker
  refine List.ext_getElem? fun u => ?_
  rw [List.getElem?_map, List.getElem?_map, List.getElem?_modify]
  cases p.workers[u]? with
  | none => rfl
  | some x =>
    show some (if w = u then f x else x).account = some x.account
    split
    · rw [hf]
    · rfl

theorem keeps_modifyWorker (p : Pool τ) (w : Nat) (f : Worker τ → Worker τ)
    (hf : ∀ x, (f x).account = x.account) : Keeps p (p.modifyWorker w f) :=
  .same rfl rfl (accounts_modifyWorker p w f hf)

theorem keeps_spawnWorker (p : Pool τ) : Keeps p p.spawnWorker :=
  ⟨rfl, rfl, 1, List.map_append⟩

theorem keeps_notifyOne (p : Pool τ) : Keeps p p.notifyOne := by
  unfold notifyOne
  split
  · exact keeps_modifyWorker p _ wake fun _ => rfl
  · exact Keeps.refl p

theorem keeps_notifyAll (p : Pool τ) : Keeps p p.notifyAll := by
  refine .same rfl rfl ?_
  unfold accounts notifyAll
  rw [List.map_map]
  refine List.map_congr_left fun x _ => ?_
  show (if sleeps x = true then wake x else x).account = x.account
  split <;> rfl

theorem keeps_ensureCapacity (p : Pool τ) : Keeps p p.ensureCapacity := by
  unfold ensureCapacity
  split
  · exact Keeps.refl p
  · split
    · exact keeps_spawnWorker p
    · exact keeps_notifyOne p

theorem keeps_leave (p : Pool τ) (w : Nat) : Keeps p (p.leave w).2 := by
  have hm := keeps_modifyWorker { p with live := p.live - 1 } w
    (fun x => { x with phase := .gone, slot := none }) fun _ => rfl
  exact ⟨hm.config, hm.limit, hm.accounts⟩

theorem keeps_countEnd (p : Pool τ) (k : Kind) : Keeps p (p.countEnd k) := by
  unfold countEnd signal
  cases k <;> dsimp only <;> split <;> exact .same rfl rfl rfl

theorem keeps_place (p : Pool τ) (w : Nat) (t : τ) : Keeps p (p.place w t).2 := by
  have hm := keeps_modifyWorker p w (fun x => { x with slot := some t }) fun _ => rfl
  unfold place
  split
  · exact Keeps.refl p
  · split
    · exact Keeps.refl p
    · split <;> exact hm

theorem keeps_die (p : Pool τ) (w : Nat) (k : Kind) : Keeps p (p.die w k).2 := by
  have hl := (keeps_countEnd p k).trans (keeps_leave _ w)
  unfold die
  dsimp only
  split
  · exact hl.trans (keeps_spawnWorker _)
  · exact hl

theorem keeps_beginClose (p : Pool τ) : Keeps p p.beginClose := by
  unfold beginClose
  split
  · exact Keeps.refl p
  · have hn := keeps_notifyAll { p with closed := true }
    exact ⟨hn.config, hn.limit, hn.accounts⟩

theorem keeps_terminate (p : Pool τ) : Keeps p p.terminate.2.2 := by
  have hn := keeps_notifyAll { p with abandoned := true, cpuQueue := [], blockingQueue := [] }
  exact ⟨hn.config, hn.limit, hn.accounts⟩

/-! ## Accounts and the limit -/

/-- What a pool counts of raises, given how many are outstanding per worker. -/
structure Compensated (c : Config) (p : Pool τ) (out : Nat → Nat) : Prop where
  config : p.config = c
  limit : p.limit = c.core + (p.accounts.map Prod.fst).sum
  account : ∀ w a, p.accounts[w]? = some a →
    a.1 + a.2 = out w ∧ a.1 ≤ c.max ∧ (0 < a.2 → a.1 = c.max)
  unborn : ∀ w, p.accounts[w]? = none → out w = 0

/-- Other sections change nothing; workers that they start have no raises outstanding. -/
theorem Compensated.keeps {c : Config} {p q : Pool τ} {out : Nat → Nat}
    (h : Compensated c p out) (hk : Keeps p q) : Compensated c q out := by
  obtain ⟨n, hn⟩ := hk.accounts
  have hnew : ∀ (w : Nat) (a : Nat × Nat),
      p.accounts[w]? = none → q.accounts[w]? = some a → a = (0, 0) := by
    intro w a hp hq
    rw [hn, List.getElem?_append_right (List.getElem?_eq_none_iff.mp hp)] at hq
    exact List.eq_of_mem_replicate (List.mem_of_getElem? hq)
  refine ⟨hk.config.trans h.config, ?_, fun w a hw => ?_, fun w hw => ?_⟩
  · rw [hk.limit, h.limit, hn]
    simp
  · cases hp : p.accounts[w]? with
    | none =>
      rw [hnew w a hp hw, h.unborn w hp]
      exact ⟨rfl, Nat.zero_le _, fun hlt => absurd hlt (Nat.lt_irrefl 0)⟩
    | some b =>
      obtain ⟨hlt, -⟩ := List.getElem?_eq_some_iff.mp hp
      rw [hn, List.getElem?_append_left hlt, hp] at hw
      cases hw
      exact h.account w a hp
  · apply h.unborn w
    rw [hn, List.getElem?_eq_none_iff, List.length_append] at hw
    exact List.getElem?_eq_none_iff.mpr (by omega)

theorem accounts_getElem? (p : Pool τ) (w : Nat) :
    p.accounts[w]? = (p.worker? w).map Worker.account :=
  List.getElem?_map ..

/-- One worker gets another account. -/
theorem accounts_set {p : Pool τ} {w : Nat} {x : Worker τ} (hw : p.worker? w = some x)
    (f : Worker τ → Worker τ) :
    (p.modifyWorker w f).accounts = p.accounts.set w (f x).account := by
  unfold accounts modifyWorker
  rw [modify_eq_set f hw, List.map_set]

/-- The account of one worker and the limit change together. -/
theorem Compensated.credit {c : Config} {p : Pool τ} {out : Nat → Nat} (h : Compensated c p out)
    {w : Nat} {x : Worker τ} (hx : p.worker? w = some x) (f : Worker τ → Worker τ) (l : Nat)
    (hl : l + x.contribution = p.limit + (f x).contribution)
    (hb : (f x).contribution ≤ c.max ∧ (0 < (f x).overflow → (f x).contribution = c.max)) :
    Compensated c ({ p with limit := l }.modifyWorker w f)
      fun u => if u = w then (f x).contribution + (f x).overflow else out u := by
  have ha : p.accounts[w]? = some x.account := by rw [accounts_getElem?, hx]; rfl
  have hq : ({ p with limit := l }.modifyWorker w f).accounts =
      p.accounts.set w (f x).account := accounts_set (p := { p with limit := l }) hx f
  have hshare := sum_map_set Prod.fst (f x).account ha
  have hlimit := h.limit
  obtain ⟨hlt, -⟩ := List.getElem?_eq_some_iff.mp ha
  refine ⟨h.config, ?_, fun u d hu => ?_, fun u hu => ?_⟩
  · rw [hq]
    change _ + x.contribution = _ + (f x).contribution at hshare
    show l = _
    omega
  · rw [hq, List.getElem?_set] at hu
    by_cases he : w = u
    · rw [if_pos he, if_pos hlt] at hu
      cases hu
      rw [if_pos he.symm]
      exact ⟨rfl, hb⟩
    · rw [if_neg he] at hu
      rw [if_neg (Ne.symm he)]
      exact h.account u d hu
  · rw [hq, List.getElem?_eq_none_iff, List.length_set] at hu
    rw [if_neg (by omega)]
    exact h.unborn u (List.getElem?_eq_none_iff.mpr hu)

theorem Compensated.worker {c : Config} {p : Pool τ} {out : Nat → Nat} (h : Compensated c p out)
    {w : Nat} {x : Worker τ} (hx : p.worker? w = some x) :
    x.contribution + x.overflow = out w ∧ x.contribution ≤ c.max ∧
      (0 < x.overflow → x.contribution = c.max) :=
  h.account w x.account (by rw [accounts_getElem?, hx]; rfl)

/-- A raise is applied or put aside. -/
theorem Compensated.raise {c : Config} {p : Pool τ} {out : Nat → Nat} (h : Compensated c p out)
    {w : Nat} (hw : w < p.spawned) :
    Compensated c (p.raise w) fun u => if u = w then out w + 1 else out u := by
  obtain ⟨x, hx⟩ : ∃ x, p.worker? w = some x := ⟨_, List.getElem?_eq_getElem hw⟩
  obtain ⟨hout, hcap, hover⟩ := h.worker hx
  have hmax : p.config.max = c.max := by rw [h.config]
  unfold Pool.raise
  rw [hx]
  dsimp only
  by_cases hle : p.config.max ≤ x.contribution
  · rw [if_pos hle]
    have hfull : x.contribution = c.max := by omega
    have hnew : out w + 1 = x.contribution + (x.overflow + 1) := by omega
    rw [hnew]
    exact h.credit hx (fun x => { x with overflow := x.overflow + 1 }) p.limit rfl
      ⟨hcap, fun _ => hfull⟩
  · rw [if_neg hle]
    have hnew : out w + 1 = x.contribution + 1 + x.overflow := by omega
    rw [hnew]
    have hraised := h.credit hx (fun x => { x with contribution := x.contribution + 1 })
      (p.limit + 1) (by dsimp only; omega)
      ⟨by dsimp only; omega, fun hpos => by have hfull := hover hpos; omega⟩
    exact hraised.keeps (keeps_ensureCapacity _)

/-- A lowering takes back a raise that was put aside, or else one that was applied. -/
theorem Compensated.lower {c : Config} {p : Pool τ} {out : Nat → Nat} (h : Compensated c p out)
    {w : Nat} (hw : 0 < out w) :
    Compensated c (p.lower w) fun u => if u = w then out w - 1 else out u := by
  have hborn : p.accounts[w]? ≠ none := fun hn => by
    have hz := h.unborn w hn
    omega
  rw [accounts_getElem?, Ne, Option.map_eq_none_iff] at hborn
  obtain ⟨x, hx⟩ := Option.ne_none_iff_exists'.mp hborn
  obtain ⟨hout, hcap, hover⟩ := h.worker hx
  unfold Pool.lower
  rw [hx]
  dsimp only
  by_cases hpos : 0 < x.overflow
  · rw [if_pos hpos]
    have hnew : out w - 1 = x.contribution + (x.overflow - 1) := by omega
    rw [hnew]
    exact h.credit hx (fun x => { x with overflow := x.overflow - 1 }) p.limit rfl
      ⟨hcap, fun _ => hover hpos⟩
  · rw [if_neg hpos]
    have hnew : out w - 1 = x.contribution - 1 + x.overflow := by omega
    rw [hnew]
    -- the limit is not at zero: it holds what this worker contributed
    have ha : p.accounts[w]? = some x.account := by rw [accounts_getElem?, hx]; rfl
    have hshare := sum_map_set Prod.fst (0, 0) ha
    have hlimit := h.limit
    change _ + x.contribution = _ at hshare
    exact h.credit hx (fun x => { x with contribution := x.contribution - 1 }) (p.limit - 1)
      (by dsimp only; omega) ⟨by dsimp only; omega, fun hlt => absurd hlt hpos⟩

theorem compensated_ofConfig (c : Config) : Compensated c (ofConfig c : Pool τ) fun _ => 0 := by
  refine ofConfig_induct (I := fun p => Compensated c p fun _ => 0) c
    ⟨rfl, rfl, fun w a h => ?_, fun _ _ => rfl⟩ fun p h => ?_
  · simp [accounts] at h
  · exact h.keeps (keeps_spawnWorker p)

/-! ## Raises and lowerings -/

variable [Kinded τ]

theorem keeps_queueUp (p : Pool τ) (t : τ) : Keeps p (p.queueUp t) := by
  have he : Keeps p (p.enqueue t) := by
    unfold enqueue
    cases Kinded.kind t <;> exact .same rfl rfl rfl
  exact he.trans (keeps_ensureCapacity _)

theorem keeps_flush (p : Pool τ) (w : Nat) : Keeps p (p.flush w) := by
  unfold flush
  split
  · exact Keeps.refl p
  · exact (keeps_modifyWorker p w _ fun _ => by rfl).trans (keeps_queueUp _ _)

theorem keeps_schedule (p : Pool τ) (w : Nat) : Keeps p (p.schedule w).2 := by
  have hempty : Keeps p (p.emptySlot w) := keeps_modifyWorker p w _ fun _ => rfl
  have hpick : ∀ {o : Option τ} {q : Pool τ},
      Picks (p.emptySlot w) (p.slotOf? w) (o, q) → Keeps p q := by
    intro o q hp
    refine hempty.trans ?_
    rw [hp.frame]
    exact .same rfl rfl rfl
  generalize hr : p.schedule w = r
  have hs : Schedules p w r := hr ▸ schedules p w
  cases hs with
  | abandoned => exact keeps_leave p w
  | @runs t q _ hp =>
    have hc : Keeps q (q.countStart (Kinded.kind t)) := by
      unfold countStart
      split <;> exact .same rfl rfl rfl
    exact ((hpick hp).trans hc).trans (keeps_modifyWorker _ w _ fun _ => rfl)
  | @drained q _ hp => exact (hpick hp).trans (keeps_leave q w)
  | @rests q _ hp =>
    have hi : Keeps q { q with idle := q.idle + 1 } := .same rfl rfl rfl
    exact ((hpick hp).trans hi).trans (keeps_modifyWorker _ w _ fun _ => rfl)

theorem keeps_begin (p : Pool τ) (w : Nat) : Keeps p (p.begin w).2 := by
  have hs : Keeps p { p with starting := p.starting - 1 } := .same rfl rfl rfl
  exact hs.trans (keeps_schedule _ w)

theorem keeps_resume (p : Pool τ) (w : Nat) (timedOut : Bool) :
    Keeps p (p.resume w timedOut).2 := by
  have hi : Keeps p { p with idle := p.idle - 1 } := .same rfl rfl rfl
  unfold resume
  dsimp only
  split
  · exact hi.trans (keeps_leave _ w)
  · exact hi.trans (keeps_schedule _ w)

/-- A section raises the limit on behalf of a worker, or lowers it. -/
def Section.isRaise (w : Nat) : Section τ → Bool
  | .raise u => u = w
  | _ => false

def Section.isLower (w : Nat) : Section τ → Bool
  | .lower u => u = w
  | _ => false

/-- Only raises and lowerings touch limits and accounts. -/
theorem keeps_step {p : Pool τ} {s : Section τ} (hr : ∀ w, s.isRaise w = false)
    (hl : ∀ w, s.isLower w = false) : Keeps p (p.step s) := by
  have hm := moves p s
  generalize p.step s = q at hm
  cases hm with
  | stays => exact Keeps.refl p
  | accepted => exact keeps_queueUp p _
  | taken => exact keeps_queueUp p _
  | placed => exact keeps_place p _ _
  | flushed => exact keeps_flush p _
  | began => exact keeps_begin p _
  | resumed => exact keeps_resume p _ _
  | finished => exact (keeps_countEnd p _).trans (keeps_schedule _ _)
  | died => exact keeps_die p _ _
  | raised w => exact absurd (hr w) (by simp [Section.isRaise])
  | lowered w => exact absurd (hl w) (by simp [Section.isLower])
  | closed => exact keeps_beginClose p
  | terminated => exact keeps_terminate p

/-! ## Answered raises -/

/-- How many raises on behalf of a worker no lowering has answered yet. -/
def outstanding (w : Nat) (ss : List (Section τ)) : Nat :=
  ss.countP (Section.isRaise w) - ss.countP (Section.isLower w)

/-- After some sections, a raise is made on behalf of a worker that was started, and a lowering
answers a raise for the same worker. -/
def Answers (c : Config) (us : List (Section τ)) : Section τ → Prop
  | .raise w => w < ((ofConfig c).run us).spawned
  | .lower w => 0 < outstanding w us
  | _ => True

/-- Every lowering of a run answers an earlier raise. -/
def Paired (c : Config) (ss : List (Section τ)) : Prop :=
  ∀ us s, us ++ [s] <+: ss → Answers c us s

theorem paired_concat_iff {c : Config} {us : List (Section τ)} {s : Section τ} :
    Paired c (us ++ [s]) ↔ Paired c us ∧ Answers c us s :=
  forall_prefix_concat_iff

omit [Kinded τ] in
theorem outstanding_other (u : Nat) {us : List (Section τ)} {s : Section τ}
    (hr : s.isRaise u = false) (hl : s.isLower u = false) :
    outstanding u (us ++ [s]) = outstanding u us := by
  simp [outstanding, List.countP_append, hr, hl]

omit [Kinded τ] in
theorem outstanding_raise (w : Nat) {us : List (Section τ)}
    (hle : us.countP (Section.isLower w) ≤ us.countP (Section.isRaise w)) (u : Nat) :
    outstanding u (us ++ [.raise w]) =
      if u = w then outstanding w us + 1 else outstanding u us := by
  by_cases he : u = w
  · subst he
    rw [if_pos rfl]
    simp only [outstanding, List.countP_append, List.countP_singleton, Section.isRaise,
      Section.isLower, decide_true, if_true]
    simp
    omega
  · rw [if_neg he, outstanding_other u (by simpa [Section.isRaise] using Ne.symm he) rfl]

omit [Kinded τ] in
theorem outstanding_lower (w : Nat) {us : List (Section τ)} (u : Nat) :
    outstanding u (us ++ [.lower w]) =
      if u = w then outstanding w us - 1 else outstanding u us := by
  by_cases he : u = w
  · subst he
    rw [if_pos rfl]
    simp only [outstanding, List.countP_append, List.countP_singleton, Section.isRaise,
      Section.isLower, decide_true, if_true]
    simp
    omega
  · rw [if_neg he, outstanding_other u rfl (by simpa [Section.isLower] using Ne.symm he)]

/-- In a paired run no worker has more lowerings than raises. -/
theorem Paired.lowers_le {c : Config} {ss : List (Section τ)} (h : Paired c ss) (w : Nat) :
    ss.countP (Section.isLower w) ≤ ss.countP (Section.isRaise w) := by
  induction ss using List.reverseRecOn with
  | nil => exact Nat.le_refl _
  | append_singleton us s ih =>
    obtain ⟨hp, ha⟩ := paired_concat_iff.mp h
    have hle := ih hp
    rw [List.countP_append, List.countP_append, List.countP_singleton, List.countP_singleton]
    by_cases hs : s.isLower w = true
    · -- this lowering still finds a raise to answer
      have hpos : 0 < outstanding w us := by
        cases s with
        | lower u =>
          obtain rfl : u = w := of_decide_eq_true hs
          exact ha
        | _ => cases hs
      unfold outstanding at hpos
      rw [if_pos hs]
      omega
    · rw [if_neg hs]
      omega

/-- Every run in which lowerings answer raises counts what is outstanding. -/
theorem compensated_run {c : Config} {ss : List (Section τ)} (h : Paired c ss) :
    Compensated c ((ofConfig c).run ss) (outstanding · ss) := by
  -- induction on the number of sections performed
  induction ss using List.reverseRecOn with
  | nil => exact compensated_ofConfig c
  | append_singleton us s ih =>
    obtain ⟨hp, ha⟩ := paired_concat_iff.mp h
    have hc := ih hp
    rw [run_append_singleton]
    have hother (hr : ∀ w, s.isRaise w = false) (hl : ∀ w, s.isLower w = false) :
        Compensated c (((ofConfig c).run us).step s) (outstanding · (us ++ [s])) := by
      simp only [outstanding_other _ (hr _) (hl _)]
      exact hc.keeps (keeps_step hr hl)
    cases s with
    | raise w =>
      simp only [outstanding_raise w (hp.lowers_le w)]
      exact hc.raise ha
    | lower w =>
      simp only [outstanding_lower w]
      exact hc.lower ha
    | _ => exact hother (fun _ => rfl) fun _ => rfl

omit [Kinded τ] in
/-- Without outstanding raises nothing is contributed. -/
theorem Compensated.limit_eq_core {c : Config} {p : Pool τ} {out : Nat → Nat}
    (h : Compensated c p out) (hz : ∀ w, out w = 0) : p.limit = c.core := by
  have hsum : (p.accounts.map Prod.fst).sum = 0 := by
    refine List.sum_eq_zero fun n hn => ?_
    obtain ⟨a, ha, rfl⟩ := List.mem_map.mp hn
    obtain ⟨w, hw⟩ := List.getElem?_of_mem ha
    have hout := (h.account w a hw).1
    have hnone := hz w
    omega
  have hlimit := h.limit
  omega

/-- The limit of a pool is its core size and what its workers contribute, of those that are gone
too. Contribution and overflow of a worker make up its outstanding raises, the overflow only where
the contribution is at the cap; with no raise outstanding the limit is the core size again. -/
theorem limit_eq_core_add (c : Config) {ss : List (Section τ)} (h : Paired c ss) :
    ((ofConfig c).run ss).limit =
        c.core + (((ofConfig c).run ss).workers.map Worker.contribution).sum ∧
      (∀ w x, ((ofConfig c).run ss).worker? w = some x →
        x.contribution + x.overflow = outstanding w ss ∧ x.contribution ≤ c.max ∧
          (0 < x.overflow → x.contribution = c.max)) ∧
      ((∀ w, outstanding w ss = 0) → ((ofConfig c).run ss).limit = c.core) := by
  have hc := compensated_run h
  refine ⟨?_, fun w x hx => hc.worker hx, hc.limit_eq_core⟩
  have hlimit := hc.limit
  unfold accounts at hlimit
  rw [List.map_map] at hlimit
  exact hlimit

/-- Two raises for the one worker of a pool that may have one: one is put aside, and the first
lowering takes that one back. -/
theorem limit_eq_core_add_capped :
    let c : Config := { Config.ofCore 1 with max := 1 }
    let ss : List (Section Kind) := [.raise 0, .raise 0, .lower 0]
    Paired c ss ∧ outstanding 0 ss = 1 ∧ ((ofConfig c).run ss).limit = 2 ∧
      c.core + (((ofConfig c).run ss).workers.map Worker.contribution).sum = 2 := by
  intro c ss
  have hp : Paired c ss := by
    have hnil : Paired c ([] : List (Section Kind)) := fun us s hs => by simp at hs
    have hborn : 0 < ((ofConfig c).run ([] : List (Section Kind))).spawned := by decide
    have hone : Paired c ([] ++ [.raise 0]) := paired_concat_iff.mpr ⟨hnil, hborn⟩
    have halive : 0 < ((ofConfig c).run [Section.raise (τ := Kind) 0]).spawned := by decide
    have htwo : Paired c ([.raise 0] ++ [.raise 0]) := paired_concat_iff.mpr ⟨hone, halive⟩
    have hopen : 0 < outstanding 0 [Section.raise (τ := Kind) 0, .raise 0] := by decide
    show Paired c ([.raise 0, .raise 0] ++ [.lower 0])
    exact paired_concat_iff.mpr ⟨htwo, hopen⟩
  have hall := limit_eq_core_add c hp
  exact ⟨hp, by decide, by decide, hall.1.symm.trans (by decide)⟩

end Pool

end Workforce
