import Mathlib.Algebra.GroupWithZero.Nat
import Mathlib.Algebra.Order.BigOperators.Group.List
import Mathlib.Algebra.Order.Group.Nat
import Workforce.Proofs.Guard.Courses

/-
  Guarded calls balance. However many calls interleave, a compensator has never lowered its limits
  more often than it raised them, and once all calls have answers it did both equally often. An
  answer stands: nothing is done for the call any more, whatever its timer does. A call that has
  none can get one: it waits for nothing but its operation and a callback that is under way.
-/

namespace Workforce.Guard

variable {κ ν : Type}

/-! ## Answers stand -/

theorem Timed.answered {d : κ} {r : Except Failure (Exit ν)} {t : Ticket} {b : Bool}
    {tr : List (Note κ ν)} (h : Timed d (.answered r) t b tr) : t = .resolved ∧ b = false := by
  cases h <;> exact ⟨rfl, rfl⟩

namespace Call

theorem OnCourse.step_answered {c : Call κ ν} (h : c.OnCourse) {r : Except Failure (Exit ν)}
    (hr : c.stage = .answered r) (m : Move ν) : c.step m = c := by
  cases m with
  | go =>
    unfold Call.step Call.go
    simp only [hr]
  | finish e =>
    unfold Call.step Call.finish
    simp only [hr]
  | fire =>
    show c.fire = c
    unfold Call.fire
    split
    · rename_i ht
      obtain ⟨⟨d, hp⟩, -, -⟩ := takeable_cases ht
      rw [OnCourse.timed hp, hr] at h
      rw [if_neg (by rw [(Timed.answered h).1]; decide)]
      have htk : c.ticket.expire.2 = c.ticket := by rw [(Timed.answered h).1]; rfl
      rw [htk]
    · rfl
  | raise =>
    show c.raise = c
    unfold Call.raise
    split
    · rename_i d hp
      rw [OnCourse.timed hp, hr] at h
      exact if_neg (by rw [(Timed.answered h).2]; decide)
    · rfl

/-! ## Answers are reached -/

end Call

/-- How far a stage is from the beginning. -/
def Stage.level : Stage ν → Nat
  | .entered => 0
  | .flushed => 1
  | .ready => 2
  | .operating => 3
  | .ended _ => 4
  | .settling .. => 5
  | .answered _ => 6

theorem Stage.answered_of_level {s : Stage ν} (h : 6 ≤ s.level) : ∃ r, s = .answered r := by
  cases s with
  | answered r => exact ⟨r, rfl⟩
  | _ => simp [level] at h

namespace Call

/-- The end of the call has to wait for a callback that holds the ticket. -/
def Waits (c : Call κ ν) : Prop := (∃ d, c.plan = .timed d) ∧ c.raising = true

/-- The thread of a call gets on, unless the operation is being performed, its end has to wait, or
there is an answer. -/
theorem go_cases (c : Call κ ν) : c.stage.level < c.go.stage.level ∨
    c.go = c ∧ (c.stage.level = 3 ∨ c.stage.level = 4 ∧ c.Waits ∨ c.stage.level = 6) := by
  unfold go
  cases hst : c.stage with
  | entered => left; cases c.plan <;> simp [pass, Stage.level]
  | flushed => left; cases c.plan <;> simp [pass, Stage.level]
  | ready => left; cases c.plan <;> simp [pass, Stage.level]
  | operating => exact .inr ⟨by cases c.plan <;> rfl, .inl rfl⟩
  | ended e =>
    cases hp : c.plan with
    | timed d =>
      by_cases hr : c.raising = true
      · exact .inr ⟨if_pos hr, .inr (.inl ⟨rfl, ⟨d, hp⟩, hr⟩)⟩
      · left
        dsimp only
        rw [if_neg hr]
        simp [settle, pass, Stage.level]
    | _ => left; simp [pass, Stage.level]
  | settling s e => left; cases s <;> cases c.plan <;> simp [pass, Stage.level]
  | answered r => exact .inr ⟨by cases c.plan <;> rfl, .inr (.inr rfl)⟩

theorem go_waits_iff (c : Call κ ν) : c.go.Waits ↔ c.Waits := by
  have hr : c.go.raising = c.raising := by
    unfold go
    split
    all_goals first | rfl | (split <;> rfl)
  unfold Waits
  rw [go_plan, hr]

/-- The operation of a call that is performing it can end. -/
theorem level_finish {c : Call κ ν} (h : 3 ≤ c.stage.level) (e : Exit ν) :
    4 ≤ (c.finish e).stage.level := by
  unfold finish
  cases hst : c.stage with
  | operating => exact Nat.le_refl 4
  | _ =>
    rw [hst] at h
    simp only [hst]
    simp [Stage.level] at h ⊢

theorem raise_stage (c : Call κ ν) : c.raise.stage = c.stage := by
  unfold raise
  split
  · split <;> rfl
  · rfl

theorem raise_not_waits (c : Call κ ν) : ¬ c.raise.Waits := by
  rintro ⟨⟨d, hp⟩, hr⟩
  rw [raise_plan] at hp
  unfold raise at hr
  rw [hp] at hr
  dsimp only at hr
  split at hr
  · cases hr
  · exact absurd hr ‹_›

theorem level_go_early {c : Call κ ν} {n : Nat} (hn : n < 3) (h : n ≤ c.stage.level) :
    n + 1 ≤ c.go.stage.level := by
  rcases go_cases c with hlt | ⟨hgo, hst⟩
  · omega
  · rw [hgo]
    omega

theorem level_go_late {c : Call κ ν} {n : Nat} (hn : 4 ≤ n ∧ n < 6) (hw : ¬ c.Waits)
    (h : n ≤ c.stage.level) : n + 1 ≤ c.go.stage.level := by
  rcases go_cases c with hlt | ⟨hgo, hst | ⟨-, hwaits⟩ | hst⟩
  · omega
  · omega
  · exact absurd hwaits hw
  · rw [hgo]
    omega

/-- Moves that bring a call to its end: its thread goes on to the operation, which ends, and a
callback that is under way gets through. The timer need not do anything more. -/
def onward (e : Exit ν) : List (Move ν) := [.go, .go, .go, .finish e, .raise, .go, .go]

/-- Whatever point a call is at, it gets an answer. -/
theorem completes (c : Call κ ν) (e : Exit ν) : ∃ r, (c.run (onward e)).stage = .answered r := by
  apply Stage.answered_of_level
  show 6 ≤ ((((c.go.go.go).finish e).raise).go.go).stage.level
  have hstart : 3 ≤ c.go.go.go.stage.level :=
    level_go_early (by decide) (level_go_early (by decide)
      (level_go_early (by decide) (Nat.zero_le _)))
  generalize c.go.go.go = b at hstart ⊢
  have hend := level_finish hstart e
  generalize b.finish e = b at hend ⊢
  have hfree := raise_not_waits b
  rw [← raise_stage b] at hend
  generalize b.raise = b at hend hfree ⊢
  have hsettle := level_go_late (by decide) hfree hend
  exact level_go_late (by decide) (fun hw => hfree ((go_waits_iff b).mp hw)) hsettle

end Call

/-! ## Calls together -/

namespace Calls

theorem step_getElem? (cs : Calls κ ν) (i j : Nat) (m : Move ν) :
    (cs.step (.move i m))[j]? = cs[j]?.map fun c => if i = j then c.step m else c :=
  List.getElem?_modify ..

/-- Every call is on its course, at every moment. -/
theorem onCourse_run (as : List (Act κ ν)) {i : Nat} {c : Call κ ν}
    (h : (run as)[i]? = some c) : c.OnCourse := by
  have hstep : ∀ (cs : Calls κ ν) (a : Act κ ν), (∀ c ∈ cs, c.OnCourse) →
      ∀ c ∈ cs.step a, c.OnCourse := by
    intro cs a hall c hc
    cases a with
    | call enabled scope deadline =>
      rcases List.mem_append.mp hc with hc | hc
      · exact hall c hc
      · rw [List.mem_singleton.mp hc]
        exact Call.onCourse_fresh enabled scope deadline
    | move k m =>
      obtain ⟨j, hj⟩ := List.getElem?_of_mem hc
      rw [step_getElem?, Option.map_eq_some_iff] at hj
      obtain ⟨b, hb, rfl⟩ := hj
      have hon := hall b (List.mem_of_getElem? hb)
      split
      · exact hon.step m
      · exact hon
  have hrun : ∀ (as : List (Act κ ν)) (cs : Calls κ ν), (∀ c ∈ cs, c.OnCourse) →
      ∀ c ∈ as.foldl step cs, c.OnCourse := by
    intro as
    induction as with
    | nil => exact fun _ hall => hall
    | cons a as ih => exact fun cs hall => ih _ (hstep cs a hall)
  exact hrun as [] (fun _ hc => nomatch hc) c (List.mem_of_getElem? h)

/-- Whatever else happens, an answered call stays as it is. -/
theorem answered_stays {as : List (Act κ ν)} {i : Nat} {c : Call κ ν} {r : Except Failure (Exit ν)}
    (h : (run as)[i]? = some c) (hr : c.stage = .answered r) (bs : List (Act κ ν)) :
    (run (as ++ bs))[i]? = some c := by
  have hon := onCourse_run as h
  rw [run_append]
  generalize run as = cs at h
  induction bs generalizing cs with
  | nil => exact h
  | cons b bs ih =>
    refine ih _ ?_
    cases b with
    | call enabled scope deadline =>
      obtain ⟨hlt, -⟩ := List.getElem?_eq_some_iff.mp h
      exact (List.getElem?_append_left hlt).trans h
    | move k m =>
      rw [step_getElem?, h, Option.map_some, hon.step_answered hr]
      split <;> rfl

/-- Moves of one call alone. -/
theorem moves_getElem? {as : List (Act κ ν)} {i : Nat} {c : Call κ ν}
    (h : (run as)[i]? = some c) (ms : List (Move ν)) :
    (run (as ++ ms.map (.move i)))[i]? = some (c.run ms) := by
  rw [run_append]
  generalize run as = cs at h
  induction ms generalizing cs c with
  | nil => exact h
  | cons m ms ih =>
    refine ih (c := c.step m) (cs.step (.move i m)) ?_
    rw [step_getElem?, h, Option.map_some, if_pos rfl]

end Calls

/-! ## Balance -/

namespace Calls

/-- How often a compensator raised its limits, for all calls together. -/
def raises [DecidableEq κ] (cs : Calls κ ν) (d : κ) : Nat :=
  (cs.map fun c => c.trace.countP (Note.raises d)).sum

/-- How often a compensator lowered its limits, for all calls together. -/
def lowers [DecidableEq κ] (cs : Calls κ ν) (d : κ) : Nat :=
  (cs.map fun c => c.trace.countP (Note.lowers d)).sum

end Calls

theorem countP_compensates (p : Note κ ν → Bool) (hp : ∀ n, p n = true → n.compensates = true)
    (l : List (Note κ ν)) : l.countP p = (l.filter Note.compensates).countP p := by
  rw [List.countP_filter]
  refine List.countP_congr fun n _ => ?_
  simp only [Bool.and_eq_true]
  exact ⟨fun h => ⟨h, hp n h⟩, And.left⟩

theorem Call.OnCourse.lowers_le [DecidableEq κ] {c : Call κ ν} (h : c.OnCourse) (d : κ) :
    c.trace.countP (Note.lowers d) ≤ c.trace.countP (Note.raises d) ∧
      ∀ r, c.stage = .answered r →
        c.trace.countP (Note.lowers d) = c.trace.countP (Note.raises d) := by
  rw [countP_compensates (Note.lowers d) (fun n hn => by cases n <;> first | rfl | cases hn),
    countP_compensates (Note.raises d) (fun n hn => by cases n <;> first | rfl | cases hn)]
  rcases h.compensations with hc | ⟨e, ⟨hc, hst⟩ | hc⟩
  · rw [hc]
    exact ⟨Nat.le_refl _, fun _ _ => rfl⟩
  · rw [hc]
    exact ⟨by simp [Note.lowers], fun r hr => absurd hr (hst r)⟩
  · rw [hc]
    have heq : [Note.raised e, .lowered e].countP (Note.lowers (ν := ν) d) =
        [Note.raised e, .lowered e].countP (Note.raises (ν := ν) d) := by
      by_cases he : e = d <;> simp [Note.lowers, Note.raises, he]
    exact ⟨Nat.le_of_eq heq, fun _ _ => heq⟩

/-- However guarded calls interleave: an answered call took the course that its switch, scope and
deadline give it, and stays as it is; a call can be answered whenever its operation ends; and no
compensator has lowered its limits more often than it raised them, nor less often once all calls
have answers. -/
theorem guarded_calls_balance [DecidableEq κ] (as : List (Act κ ν)) :
    (∀ (i : Nat) (c : Call κ ν), (Calls.run as)[i]? = some c →
      (∀ r, c.stage = .answered r →
        c.Outcome r ∧ ∀ bs, (Calls.run (as ++ bs))[i]? = some c) ∧
      ∀ e, ∃ (b : Call κ ν) (r : _),
        (Calls.run (as ++ (Call.onward e).map (.move i)))[i]? = some b ∧ b.stage = .answered r) ∧
    ∀ d, (Calls.run as).lowers d ≤ (Calls.run as).raises d ∧
      ((∀ c ∈ Calls.run as, ∃ r, c.stage = .answered r) →
        (Calls.run as).lowers d = (Calls.run as).raises d) := by
  refine ⟨fun i c h => ⟨fun r hr => ?_, fun e => ?_⟩, fun d => ⟨?_, fun hall => ?_⟩⟩
  · exact ⟨(Calls.onCourse_run as h).outcome hr, Calls.answered_stays h hr⟩
  · obtain ⟨r, hr⟩ := c.completes e
    exact ⟨_, r, Calls.moves_getElem? h _, hr⟩
  · refine List.sum_le_sum fun c hc => ?_
    obtain ⟨i, hi⟩ := List.getElem?_of_mem hc
    exact ((Calls.onCourse_run as hi).lowers_le d).1
  · refine congrArg List.sum (List.map_congr_left fun c hc => ?_)
    obtain ⟨i, hi⟩ := List.getElem?_of_mem hc
    obtain ⟨r, hr⟩ := hall c hc
    exact ((Calls.onCourse_run as hi).lowers_le d).2 r hr

/-- Two calls for one compensator: the first outlasts its deadline and panics, the second returns
before its callback is invoked. -/
def race : List (Act Nat Nat) :=
  [.call true (some (.available 0)) ⟨1, 0⟩, .call true (some (.available 0)) ⟨1, 0⟩,
    .move 0 .go, .move 1 .go, .move 0 .go, .move 1 .go, .move 0 .go, .move 0 .fire, .move 1 .go,
    .move 1 (.finish (.returned (some 7))), .move 1 .go, .move 0 (.finish (.panicked .explosive)),
    .move 0 .go, .move 0 .raise, .move 1 .fire, .move 1 .go, .move 0 .go, .move 0 .go,
    .move 1 .fire]

/-- Of the two calls one compensates. -/
theorem guarded_calls_balance_race : ∃ b c : Call Nat Nat,
    Calls.run race = [b, c] ∧ b.Outcome (.ok (.panicked .explosive)) ∧
      c.Outcome (.ok (.returned (some 7))) ∧
      b.trace.filter Note.compensates = [.raised 0, .lowered 0] ∧
      c.trace.filter Note.compensates = [] ∧
      (Calls.run race).lowers 0 = 1 ∧ (Calls.run race).raises 0 = 1 := by
  have hall := guarded_calls_balance race
  refine ⟨_, _, rfl, ?_, ?_, rfl, rfl, rfl, rfl⟩
  · exact ((hall.1 0 _ rfl).1 _ rfl).1
  · exact ((hall.1 1 _ rfl).1 _ rfl).1

end Workforce.Guard
