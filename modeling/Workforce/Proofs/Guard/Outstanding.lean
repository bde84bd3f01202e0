import Workforce.Proofs.Guard.Courses

/-
  Outstanding compensation. A move of a guarded call notes one thing at most (`trace_step`). A call
  raises limits once and lowers them once after that, both with the compensator of its plan
  (`OnCourse.uses_of_mem`), so its compensation is outstanding from the raise to the lowering.

  `OnCourse.moved`: only a raise makes the compensation of a call outstanding, and only a lowering
  ends that.
-/

namespace Workforce

/-- A plan compensates with a compensator. -/
def Plan.Uses {κ : Type} (p : Plan κ) (d : κ) : Prop := p = .upFront d ∨ p = .timed d

namespace Guard

variable {κ ν : Type}

/-! ## What a move notes -/

namespace Note

/-- Limits are raised. -/
def isRaise : Note κ ν → Bool
  | .raised _ => true
  | _ => false

/-- Limits are lowered. -/
def isLower : Note κ ν → Bool
  | .lowered _ => true
  | _ => false

end Note

namespace Call

/-- What a move of a call notes, if anything. -/
def note? (c : Call κ ν) (m : Move ν) : Option (Note κ ν) := (c.step m).trace[c.trace.length]?

/-- Limits were raised for a call and have not been lowered since. -/
def outstanding (c : Call κ ν) : Bool := c.trace.any Note.isRaise && !c.trace.any Note.isLower

theorem go_trace (c : Call κ ν) : c.go.trace = c.trace ∨ ∃ n, c.go.trace = c.trace ++ [n] := by
  unfold go
  split
  case h_1 => exact .inl (List.append_nil _)
  case h_5 => exact .inl (List.append_nil _)
  case h_8 =>
    split
    · exact .inl rfl
    · exact .inr ⟨_, rfl⟩
  case h_9 => exact .inl (List.append_nil _)
  case h_12 => exact .inl rfl
  case h_13 => exact .inl rfl
  all_goals exact .inr ⟨_, rfl⟩

/-- A move notes one thing at most. -/
theorem step_cases (c : Call κ ν) (m : Move ν) : (c.step m).trace = c.trace ∨
    ∃ n, (c.step m).trace = c.trace ++ [n] := by
  cases m with
  | go => exact c.go_trace
  | finish e =>
    rw [step, finish]
    split
    · exact .inr ⟨_, rfl⟩
    · exact .inl rfl
  | fire =>
    rw [step, fire]
    split
    · split
      · exact .inr ⟨_, rfl⟩
      · exact .inl rfl
    · exact .inl rfl
  | raise =>
    rw [step, raise]
    split
    · split
      · exact .inr ⟨_, rfl⟩
      · exact .inl rfl
    · exact .inl rfl

theorem trace_step (c : Call κ ν) (m : Move ν) :
    (c.step m).trace = c.trace ++ (c.note? m).toList := by
  unfold note?
  rcases c.step_cases m with h | ⟨n, h⟩
  · rw [h, List.getElem?_eq_none (Nat.le_refl _)]
    exact (List.append_nil _).symm
  · rw [h, List.getElem?_concat_length]
    rfl

theorem step_scope (c : Call κ ν) (m : Move ν) : (c.step m).scope = c.scope := by
  cases m with
  | go =>
    rw [step, go]
    split
    all_goals first | rfl | (split <;> rfl)
  | finish e =>
    rw [step, finish]
    split <;> rfl
  | fire =>
    rw [step, fire]
    split
    · split <;> rfl
    · rfl
  | raise =>
    rw [step, raise]
    split
    · split <;> rfl
    · rfl

end Call

/-! ## Compensators of calls -/

/-- Without a timer compensators are called before the operation and after it. -/
theorem Straight.mem {before after : List (Note κ ν)} {st : Stage ν} {l : List (Note κ ν)}
    (h : Straight before after st l) {n : Note κ ν} (hn : n ∈ l) (hc : n.compensates = true) :
    n ∈ before ∨ n ∈ after := by
  have hflushed : n ≠ .flushed := by rintro rfl; cases hc
  have hbegan : n ≠ .began := by rintro rfl; cases hc
  have hended : ∀ e, n ≠ .ended e := by rintro e rfl; cases hc
  cases h with
  | entered => cases hn
  | flushed => exact absurd (List.mem_singleton.mp hn) hflushed
  | ready => exact .inl (by simpa [hflushed] using hn)
  | operating => exact .inl (by simpa [hflushed, hbegan] using hn)
  | ended => exact .inl (by simpa [hflushed, hbegan, hended] using hn)
  | answered => simpa [hflushed, hbegan, hended] using hn

theorem Raced.eq_raised {d : κ} {ops l : List (Note κ ν)} {t : Ticket} {b : Bool}
    (h : Raced d ops t b l) {n : Note κ ν} (hn : n ∈ l) (hc : n.compensates = true) :
    n = .raised d := by
  have hm : n ∈ (callbackNotes d t b).filter Note.compensates := by
    rw [← h.compensations]
    exact List.mem_filter.mpr ⟨hn, hc⟩
  cases t with
  | unresolved => cases hm
  | resolved =>
    cases b with
    | true => cases hm
    | false => exact List.mem_singleton.mp hm

/-- With a timer compensators are called by the callback and after the settlement. -/
theorem Timed.mem {d : κ} {st : Stage ν} {t : Ticket} {b : Bool} {l : List (Note κ ν)}
    (h : Timed d st t b l) {n : Note κ ν} (hn : n ∈ l) (hc : n.compensates = true) :
    n = .raised d ∨ n = .lowered d := by
  have hflushed : n ≠ .flushed := by rintro rfl; cases hc
  have harmed : n ≠ .armed := by rintro rfl; cases hc
  have hsettled : n ≠ .settled := by rintro rfl; cases hc
  have hcancelled : n ≠ .cancelled := by rintro rfl; cases hc
  cases h with
  | entered => cases hn
  | flushed => exact absurd (List.mem_singleton.mp hn) hflushed
  | ready h => exact .inl (h.eq_raised (by simpa [hflushed, harmed] using hn) hc)
  | operating h => exact .inl (h.eq_raised (by simpa [hflushed, harmed] using hn) hc)
  | ended e h => exact .inl (h.eq_raised (by simpa [hflushed, harmed] using hn) hc)
  | settling e h => exact .inl (h.eq_raised (by simpa [hflushed, harmed, hsettled] using hn) hc)
  | @cancelled l e h =>
    have hl : n ∈ l := by simpa [hflushed, harmed, hsettled, hcancelled] using hn
    exact .inl (h.eq_raised hl hc)
  | @lowered l e h =>
    have hl : n ∈ l ∨ n = .lowered d := by simpa [hflushed, harmed, hsettled] using hn
    exact hl.imp (fun hl => h.eq_raised hl hc) id

/-- A call compensates with the compensator of its plan. -/
theorem Call.OnCourse.uses_of_mem {c : Call κ ν} (h : c.OnCourse) {n : Note κ ν}
    (hn : n ∈ c.trace) (hc : n.compensates = true) :
    ∃ d, c.plan.Uses d ∧ (n = .raised d ∨ n = .lowered d) := by
  cases hp : c.plan with
  | refuse reason =>
    rw [OnCourse, hp] at h
    rw [h.1] at hn
    cases hn
  | plain =>
    rw [OnCourse, hp] at h
    rcases Straight.mem h hn hc with hm | hm <;> cases hm
  | upFront d =>
    rw [OnCourse, hp] at h
    refine ⟨d, .inl rfl, ?_⟩
    exact (Straight.mem h hn hc).imp List.mem_singleton.mp List.mem_singleton.mp
  | timed d =>
    rw [OnCourse.timed hp] at h
    exact ⟨d, .inr rfl, h.mem hn hc⟩

/-! ## What makes compensation outstanding -/

namespace Call

theorem step_plan (c : Call κ ν) (m : Move ν) : (c.step m).plan = c.plan := by
  cases m with
  | go => exact c.go_plan
  | finish e => exact c.finish_plan e
  | fire => exact c.fire_plan
  | raise => exact c.raise_plan

theorem any_compensates {p : Note κ ν → Bool} (hp : ∀ n, p n = true → n.compensates = true)
    (l : List (Note κ ν)) : (l.filter Note.compensates).any p = l.any p := by
  rw [List.any_filter]
  refine congrArg l.any (funext fun n => ?_)
  cases hn : p n with
  | false => exact Bool.and_false _
  | true => exact (Bool.and_true _).trans (hp n hn)

/-- Outstanding compensation shows in the calls of compensators alone. -/
theorem outstanding_eq {c : Call κ ν} {l : List (Note κ ν)}
    (h : c.trace.filter Note.compensates = l) :
    c.outstanding = (l.any Note.isRaise && !l.any Note.isLower) := by
  have hraise : ∀ n : Note κ ν, n.isRaise = true → n.compensates = true := fun n hn => by
    cases n <;> first | rfl | cases hn
  have hlower : ∀ n : Note κ ν, n.isLower = true → n.compensates = true := fun n hn => by
    cases n <;> first | rfl | cases hn
  rw [← h, any_compensates hraise, any_compensates hlower]
  rfl

/-- What was raised for a call is lowered by the time it is answered. -/
theorem OnCourse.not_outstanding {c : Call κ ν} (h : c.OnCourse) {r : Except Failure (Exit ν)}
    (hr : c.stage = .answered r) : c.outstanding = false := by
  rcases h.compensations with hnil | ⟨d, ⟨-, hopen⟩ | hboth⟩
  · exact outstanding_eq hnil
  · exact absurd hr (hopen r)
  · exact outstanding_eq hboth

/-- Only a raise makes the compensation of a call outstanding, and only a lowering ends that. -/
theorem OnCourse.moved {c : Call κ ν} (h : c.OnCourse) (m : Move ν) :
    (∀ d, c.note? m = some (.raised d) →
      c.plan.Uses d ∧ c.outstanding = false ∧ (c.step m).outstanding = true) ∧
    (∀ d, c.note? m = some (.lowered d) →
      c.plan.Uses d ∧ c.outstanding = true ∧ (c.step m).outstanding = false) ∧
    ((∀ n, c.note? m = some n → n.compensates = false) →
      (c.step m).outstanding = c.outstanding) := by
  have htrace := c.trace_step m
  have hfilter : (c.step m).trace.filter Note.compensates =
      c.trace.filter Note.compensates ++ (c.note? m).toList.filter Note.compensates := by
    rw [htrace, List.filter_append]
  have huses : ∀ {n : Note κ ν}, c.note? m = some n → n.compensates = true →
      ∃ d, c.plan.Uses d ∧ (n = .raised d ∨ n = .lowered d) := by
    intro n hn hc
    rw [← c.step_plan m]
    refine (h.step m).uses_of_mem ?_ hc
    rw [htrace, hn]
    exact List.mem_append_right _ List.mem_cons_self
  have hshape := (h.step m).compensations
  rw [hfilter] at hshape
  generalize hl : c.trace.filter Note.compensates = l at hfilter hshape
  -- what was noted last tells how many compensator calls came before it
  have hlast : ∀ {n : Note κ ν}, c.note? m = some n → n.compensates = true →
      (l = [] ∧ n.isRaise = true) ∨ ∃ e, l = [.raised e] ∧ n = .lowered e := by
    intro n hn hc
    have hone : (some n).toList.filter Note.compensates = [n] := by simp [hc]
    rw [hn, hone] at hshape
    rcases hshape with hnil | ⟨e, ⟨hraised, -⟩ | hboth⟩
    · cases (List.append_eq_nil_iff.mp hnil).2
    · have hsplit : l ++ [n] = [] ++ [.raised e] := hraised
      obtain ⟨hl, he⟩ := List.append_inj' hsplit rfl
      cases he
      exact .inl ⟨hl, rfl⟩
    · have hsplit : l ++ [n] = [.raised e] ++ [.lowered e] := hboth
      obtain ⟨hl, he⟩ := List.append_inj' hsplit rfl
      cases he
      exact .inr ⟨e, hl, rfl⟩
  refine ⟨fun d hd => ?_, fun d hd => ?_, fun hnone => ?_⟩
  · obtain ⟨e, he, hde⟩ := huses hd rfl
    obtain rfl : d = e := by simpa using hde
    rw [hd] at hfilter
    rcases hlast hd rfl with ⟨rfl, -⟩ | ⟨e, -, hn⟩
    · exact ⟨he, outstanding_eq hl, outstanding_eq hfilter⟩
    · cases hn
  · obtain ⟨e, he, hde⟩ := huses hd rfl
    obtain rfl : d = e := by simpa using hde
    rw [hd] at hfilter
    rcases hlast hd rfl with ⟨-, hn⟩ | ⟨e, rfl, -⟩
    · cases hn
    · exact ⟨he, outstanding_eq hl, outstanding_eq hfilter⟩
  · have hnil : (c.note? m).toList.filter Note.compensates = [] := by
      refine List.filter_eq_nil_iff.mpr fun n hn => ?_
      rw [hnone n (Option.mem_toList.mp hn)]
      decide
    rw [hnil, List.append_nil] at hfilter
    rw [outstanding_eq hl, outstanding_eq hfilter]

end Call

end Guard

end Workforce
