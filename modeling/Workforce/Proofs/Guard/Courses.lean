import Workforce.Proofs.Guard.Machine

/-
  The courses that guarded calls take. Without a timer the trace of a call is determined by its
  stage (`Straight`). With a timer the callback may come between any two steps of the call until
  the end of the call takes the ticket; what it did by then is determined by the ticket (`Timed`).

  `OnCourse.outcome`: whatever its moves were, a call that is answered compensated for nothing or
  raised a limit once and lowered it once after its operation ended. It did so if its deadline was
  zero or the callback took the ticket first. The operation was performed once, and control left
  the call as it left the operation.
-/

namespace Workforce.Guard

variable {κ ν : Type}

/-! ## Calls without a timer -/

/-- The stages of a call that does some things before its operation and some after it. -/
inductive Straight (before after : List (Note κ ν)) : Stage ν → List (Note κ ν) → Prop
  | entered : Straight before after .entered []
  | flushed : Straight before after .flushed [.flushed]
  | ready : Straight before after .ready ([.flushed] ++ before)
  | operating : Straight before after .operating ([.flushed] ++ before ++ [.began])
  | ended (e : Exit ν) :
      Straight before after (.ended e) ([.flushed] ++ before ++ [.began] ++ [.ended e])
  | answered (e : Exit ν) :
      Straight before after (.answered (.ok e))
        ([.flushed] ++ before ++ [.began] ++ [.ended e] ++ after)

/-! ## Calls with a timer -/

/-- What the callback has done. -/
def callbackNotes (d : κ) : Ticket → Bool → List (Note κ ν)
  | .unresolved, _ => []
  | .resolved, true => [.expired]
  | .resolved, false => [.expired, .raised d]

/-- The operation and the callback have each come to some point, in whatever order. -/
structure Raced (d : κ) (ops : List (Note κ ν)) (t : Ticket) (raising : Bool)
    (l : List (Note κ ν)) : Prop where
  operation : l.filter Note.operates = ops
  callback : l.filter (fun n => !n.operates) = callbackNotes d t raising
  holds : raising = true → t = .resolved

/-- The stages of a call with a timer. -/
inductive Timed (d : κ) : Stage ν → Ticket → Bool → List (Note κ ν) → Prop
  | entered : Timed d .entered .unresolved false []
  | flushed : Timed d .flushed .unresolved false [.flushed]
  | ready {t : Ticket} {b : Bool} {l : List (Note κ ν)} (h : Raced d [] t b l) :
      Timed d .ready t b ([.flushed, .armed] ++ l)
  | operating {t : Ticket} {b : Bool} {l : List (Note κ ν)} (h : Raced d [.began] t b l) :
      Timed d .operating t b ([.flushed, .armed] ++ l)
  | ended {t : Ticket} {b : Bool} {l : List (Note κ ν)} (e : Exit ν)
      (h : Raced d [.began, .ended e] t b l) :
      Timed d (.ended e) t b ([.flushed, .armed] ++ l)
  | settling {t : Ticket} {l : List (Note κ ν)} (e : Exit ν)
      (h : Raced d [.began, .ended e] t false l) :
      Timed d (.settling t.settle.1 e) .resolved false ([.flushed, .armed] ++ l ++ [.settled])
  | cancelled {l : List (Note κ ν)} (e : Exit ν)
      (h : Raced d [.began, .ended e] .unresolved false l) :
      Timed d (.answered (.ok e)) .resolved false
        ([.flushed, .armed] ++ l ++ [.settled] ++ [.cancelled])
  | lowered {l : List (Note κ ν)} (e : Exit ν)
      (h : Raced d [.began, .ended e] .resolved false l) :
      Timed d (.answered (.ok e)) .resolved false
        ([.flushed, .armed] ++ l ++ [.settled] ++ [.lowered d])

/-- The operation goes on. -/
theorem Raced.operate {d : κ} {ops l : List (Note κ ν)} {t : Ticket} {b : Bool}
    (h : Raced d ops t b l) {n : Note κ ν} (hn : n.operates = true) :
    Raced d (ops ++ [n]) t b (l ++ [n]) := by
  refine ⟨?_, ?_, h.holds⟩
  · rw [List.filter_append, h.operation, List.filter_cons_of_pos hn, List.filter_nil]
  · rw [List.filter_append, h.callback, List.filter_cons_of_neg (by simp [hn]), List.filter_nil,
      List.append_nil]

/-- The callback goes on. -/
theorem Raced.call {d : κ} {ops l : List (Note κ ν)} {t u : Ticket} {b b' : Bool}
    (h : Raced d ops t b l) {n : Note κ ν} (hn : n.operates = false)
    (hc : callbackNotes d u b' = callbackNotes d t b ++ [n]) (hu : u = .resolved) :
    Raced d ops u b' (l ++ [n]) := by
  refine ⟨?_, ?_, fun _ => hu⟩
  · rw [List.filter_append, h.operation, List.filter_cons_of_neg (by simp [hn]), List.filter_nil,
      List.append_nil]
  · rw [List.filter_append, h.callback, List.filter_cons_of_pos (by simp [hn]), List.filter_nil, hc]

/-- Once the timer is armed, what the callback does goes behind what was done before. -/
theorem Timed.callback {c : Call κ ν} {d : κ} {t : Ticket} {b : Bool} {n : Note κ ν}
    (h : Timed d c.stage c.ticket c.raising c.trace) (hn : n.operates = false)
    (hc : callbackNotes d t b = callbackNotes d c.ticket c.raising ++ [n]) (ht : t = .resolved)
    (hst : c.stage ≠ .entered ∧ c.stage ≠ .flushed) :
    Timed d c.stage t b (c.trace ++ [n]) := by
  obtain ⟨en, sc, dl, st, tk, ra, tr⟩ := c
  dsimp only at h hc hst ⊢
  -- the callback does two things at most, so it has one left to do only before the settlement
  have hopen : ¬ (tk = .resolved ∧ ra = false) := by
    rintro ⟨rfl, rfl⟩
    subst ht
    have hlen := congrArg List.length hc
    cases b <;> simp [callbackNotes] at hlen
  cases h with
  | entered => exact absurd rfl hst.1
  | flushed => exact absurd rfl hst.2
  | ready h =>
    rw [List.append_assoc]
    exact .ready (h.call hn hc ht)
  | operating h =>
    rw [List.append_assoc]
    exact .operating (h.call hn hc ht)
  | ended e h =>
    rw [List.append_assoc]
    exact .ended e (h.call hn hc ht)
  | _ => exact absurd ⟨rfl, rfl⟩ hopen

/-- A callback that holds the ticket has taken it from a call that is under way. -/
theorem Timed.holding {d : κ} {st : Stage ν} {t : Ticket} {b : Bool} {l : List (Note κ ν)}
    (h : Timed d st t b l) (hb : b = true) :
    t = .resolved ∧ st ≠ .entered ∧ st ≠ .flushed := by
  cases h with
  | ready h => exact ⟨h.holds hb, nofun, nofun⟩
  | operating h => exact ⟨h.holds hb, nofun, nofun⟩
  | ended e h => exact ⟨h.holds hb, nofun, nofun⟩
  | _ => cases hb

/-! ## Steps of one call -/

/-- A call is at a point of the course that its plan gives. -/
def Call.OnCourse (c : Call κ ν) : Prop :=
  match c.plan with
  | .refuse reason =>
    c.trace = [] ∧ (c.stage = .entered ∨ c.stage = .answered (.error (Plan.refusal reason)))
  | .plain => Straight [] [] c.stage c.trace
  | .upFront d => Straight [.raised d] [.lowered d] c.stage c.trace
  | .timed d => Timed d c.stage c.ticket c.raising c.trace

namespace Call

/-- A call keeps what it was made with. -/
theorem go_plan (c : Call κ ν) : c.go.plan = c.plan := by
  unfold go
  split
  all_goals first | rfl | (split <;> rfl)

theorem finish_plan (c : Call κ ν) (e : Exit ν) : (c.finish e).plan = c.plan := by
  unfold finish
  split <;> rfl

theorem fire_plan (c : Call κ ν) : c.fire.plan = c.plan := by
  unfold fire
  split
  · split <;> rfl
  · rfl

theorem raise_plan (c : Call κ ν) : c.raise.plan = c.plan := by
  unfold raise
  split
  · split <;> rfl
  · rfl

theorem OnCourse.go {c : Call κ ν} (h : c.OnCourse) : c.go.OnCourse := by
  unfold OnCourse at h ⊢
  rw [go_plan]
  unfold Call.go
  obtain ⟨en, sc, dl, st, tk, ra, tr⟩ := c
  generalize hp : Call.plan _ = p at h ⊢
  cases p with
  | refuse reason =>
    obtain ⟨rfl, rfl | rfl⟩ : tr = [] ∧ _ := h
    · exact ⟨rfl, .inr rfl⟩
    · exact ⟨rfl, .inr rfl⟩
  | plain =>
    dsimp only at h ⊢
    cases h
    · exact .flushed
    · exact .ready
    · exact .operating
    · exact .operating
    · exact .answered _
    · exact .answered _
  | upFront d =>
    dsimp only at h ⊢
    cases h
    · exact .flushed
    · exact .ready
    · exact .operating
    · exact .operating
    · exact .answered _
    · exact .answered _
  | timed d =>
    dsimp only at h ⊢
    cases h with
    | entered => exact .flushed
    | flushed => exact .ready ⟨rfl, rfl, fun hb => nomatch hb⟩
    | ready h =>
      show Timed d .operating tk ra ([.flushed, .armed] ++ _ ++ [.began])
      rw [List.append_assoc]
      exact .operating (h.operate rfl)
    | operating h => exact .operating h
    | ended e h =>
      cases ra with
      | false =>
        have hs : tk.settle.2 = .resolved := by cases tk <;> rfl
        show Timed d (.settling _ _) tk.settle.2 false _
        rw [hs]
        exact .settling e h
      | true => exact .ended e h
    | @settling t l e h =>
      cases t with
      | unresolved => exact .cancelled e h
      | resolved => exact .lowered e h
    | cancelled e h => exact .cancelled e h
    | lowered e h => exact .lowered e h

theorem OnCourse.finish {c : Call κ ν} (h : c.OnCourse) (e : Exit ν) : (c.finish e).OnCourse := by
  by_cases hst : c.stage = .operating
  · have hpass : c.finish e = c.pass (.ended e) [.ended e] := by
      unfold Call.finish
      rw [hst]
    unfold OnCourse at h ⊢
    rw [finish_plan, hpass]
    generalize c.plan = p at h ⊢
    obtain ⟨en, sc, dl, st, tk, ra, tr⟩ := c
    obtain rfl : st = .operating := hst
    cases p with
    | refuse reason => simp at h
    | plain =>
      dsimp only at h ⊢
      cases h
      exact .ended e
    | upFront d =>
      dsimp only at h ⊢
      cases h
      exact .ended e
    | timed d =>
      dsimp only at h ⊢
      cases h with
      | operating h =>
        show Timed d (.ended e) tk ra ([.flushed, .armed] ++ _ ++ [.ended e])
        rw [List.append_assoc]
        exact .ended e (h.operate rfl)
  · have hstay : c.finish e = c := by
      unfold Call.finish
      split
      · exact absurd ‹_› hst
      · rfl
    rw [hstay]
    exact h

theorem takeable_cases {c : Call κ ν} (h : c.takeable = true) :
    (∃ d, c.plan = .timed d) ∧ (c.stage ≠ .entered ∧ c.stage ≠ .flushed) ∧ c.raising = false := by
  unfold takeable at h
  split at h
  · cases h
  · cases h
  · cases h
  · rename_i d hp he hf _
    exact ⟨⟨d, hp⟩, ⟨he, hf⟩, by simpa using h⟩
  · cases h

theorem OnCourse.timed {c : Call κ ν} {d : κ} (hp : c.plan = .timed d) :
    c.OnCourse ↔ Timed d c.stage c.ticket c.raising c.trace := by
  unfold OnCourse
  rw [hp]

theorem OnCourse.fire {c : Call κ ν} (h : c.OnCourse) : c.fire.OnCourse := by
  by_cases ht : c.takeable = true
  · obtain ⟨⟨d, hp⟩, hst, hr⟩ := takeable_cases ht
    have hp' : c.fire.plan = .timed d := by rw [fire_plan, hp]
    rw [OnCourse.timed hp] at h
    rw [OnCourse.timed hp']
    unfold Call.fire
    rw [if_pos ht]
    cases htk : c.ticket with
    | unresolved =>
      refine h.callback rfl ?_ rfl hst
      rw [htk]
      rfl
    | resolved =>
      rw [htk] at h
      exact h
  · have hstay : c.fire = c := by
      unfold Call.fire
      rw [if_neg ht]
    rw [hstay]
    exact h

theorem OnCourse.raise {c : Call κ ν} (h : c.OnCourse) : c.raise.OnCourse := by
  by_cases ht : (∃ d, c.plan = .timed d) ∧ c.raising = true
  · obtain ⟨⟨d, hp⟩, hr⟩ := ht
    have hp' : c.raise.plan = .timed d := by rw [raise_plan, hp]
    rw [OnCourse.timed hp] at h
    rw [OnCourse.timed hp']
    have heq : c.raise = { c with raising := false, trace := c.trace ++ [.raised d] } := by
      unfold Call.raise
      rw [hp]
      exact if_pos hr
    rw [heq]
    obtain ⟨htk, hst⟩ := h.holding hr
    refine h.callback rfl ?_ htk hst
    rw [htk, hr]
    rfl
  · have hstay : c.raise = c := by
      unfold Call.raise
      split
      · exact if_neg fun hr => ht ⟨⟨_, ‹_›⟩, hr⟩
      · rfl
    rw [hstay]
    exact h

theorem OnCourse.step {c : Call κ ν} (h : c.OnCourse) (m : Move ν) : (c.step m).OnCourse := by
  cases m with
  | go => exact h.go
  | finish e => exact h.finish e
  | fire => exact h.fire
  | raise => exact h.raise

theorem onCourse_fresh (enabled : Bool) (scope : Option (Scope κ)) (deadline : Duration) :
    OnCourse ({ enabled, scope, deadline } : Call κ ν) := by
  unfold OnCourse
  split
  · exact ⟨rfl, .inl rfl⟩
  · exact .entered
  · exact .entered
  · exact .entered

end Call

/-! ## What a call comes to -/

/-- What the callback did shows in the trace. -/
theorem Raced.compensations {d : κ} {ops l : List (Note κ ν)} {t : Ticket} {b : Bool}
    (h : Raced d ops t b l) :
    l.filter Note.compensates = (callbackNotes d t b).filter Note.compensates := by
  rw [← h.callback, List.filter_filter]
  refine List.filter_congr fun n _ => ?_
  cases n <;> rfl

theorem Raced.ended_mem {d : κ} {l : List (Note κ ν)} {t : Ticket} {b : Bool} {e : Exit ν}
    (h : Raced d [.began, .ended e] t b l) : .ended e ∈ l := by
  have hmem : Note.ended e ∈ l.filter Note.operates := by rw [h.operation]; simp
  exact (List.mem_filter.mp hmem).1

theorem Raced.expired_mem_iff {d : κ} {ops l : List (Note κ ν)} {t : Ticket} {b : Bool}
    (h : Raced d ops t b l) : .expired ∈ l ↔ t = .resolved := by
  have hmem : .expired ∈ l ↔ .expired ∈ (callbackNotes d t b : List (Note κ ν)) := by
    rw [← h.callback, List.mem_filter]
    exact ⟨fun hm => ⟨hm, rfl⟩, And.left⟩
  rw [hmem]
  cases t <;> cases b <;> simp [callbackNotes]

/-- Around the race no compensator is called before the settlement. -/
theorem compensations_timed (l tail : List (Note κ ν)) :
    ([Note.flushed, .armed] ++ l ++ [Note.settled] ++ tail).filter Note.compensates =
      l.filter Note.compensates ++ tail.filter Note.compensates := by
  rw [List.filter_append, List.filter_append, List.filter_append]
  exact congrArg (· ++ _) (List.append_nil _)

theorem operations_timed (l tail : List (Note κ ν)) :
    ([Note.flushed, .armed] ++ l ++ [Note.settled] ++ tail).filter Note.operates =
      l.filter Note.operates ++ tail.filter Note.operates := by
  rw [List.filter_append, List.filter_append, List.filter_append]
  exact congrArg (· ++ _) (List.append_nil _)

/-- The compensator calls of a call: none, a raise that is yet to be answered, or a raise and a
lowering. -/
theorem Call.OnCourse.compensations {c : Call κ ν} (h : c.OnCourse) :
    c.trace.filter Note.compensates = [] ∨ ∃ d,
      (c.trace.filter Note.compensates = [.raised d] ∧ ∀ r, c.stage ≠ .answered r) ∨
        c.trace.filter Note.compensates = [.raised d, .lowered d] := by
  unfold OnCourse at h
  obtain ⟨en, sc, dl, st, tk, ra, tr⟩ := c
  dsimp only at h ⊢
  split at h
  · exact .inl (by rw [h.1]; rfl)
  · cases h <;> exact .inl rfl
  · rename_i d _
    cases h with
    | entered => exact .inl rfl
    | flushed => exact .inl rfl
    | ready => exact .inr ⟨d, .inl ⟨rfl, nofun⟩⟩
    | operating => exact .inr ⟨d, .inl ⟨rfl, nofun⟩⟩
    | ended => exact .inr ⟨d, .inl ⟨rfl, nofun⟩⟩
    | answered => exact .inr ⟨d, .inr rfl⟩
  · rename_i d _
    have hrace : ∀ {ops l : List (Note κ ν)} {t : Ticket} {b : Bool}, Raced d ops t b l →
        l.filter Note.compensates = [] ∨ l.filter Note.compensates = [.raised d] := by
      intro ops l t b hr
      rw [hr.compensations]
      cases t with
      | unresolved => exact .inl rfl
      | resolved =>
        cases b with
        | false => exact .inr rfl
        | true => exact .inl rfl
    cases h with
    | entered => exact .inl rfl
    | flushed => exact .inl rfl
    | ready h => exact (hrace h).imp id fun hl => ⟨d, .inl ⟨hl, nofun⟩⟩
    | operating h => exact (hrace h).imp id fun hl => ⟨d, .inl ⟨hl, nofun⟩⟩
    | ended e h => exact (hrace h).imp id fun hl => ⟨d, .inl ⟨hl, nofun⟩⟩
    | @settling t l e h =>
      have hall := compensations_timed l []
      rw [List.append_nil, List.filter_nil, List.append_nil] at hall
      rw [hall]
      exact (hrace h).imp id fun hl => ⟨d, .inl ⟨hl, nofun⟩⟩
    | cancelled e h =>
      rw [compensations_timed, h.compensations]
      exact .inl rfl
    | lowered e h =>
      rw [compensations_timed, h.compensations]
      exact .inr ⟨d, .inr rfl⟩

/-- What is true of a call that has an answer. -/
structure Call.Outcome (c : Call κ ν) (r : Except Failure (Exit ν)) : Prop where
  /-- Where compensation is forbidden, the call is refused and nothing is done. -/
  forbidden : ∀ reason, c.enabled = true → c.scope = some (.forbidden reason) →
    r = .error (Plan.refusal reason) ∧ c.trace = []
  /-- Switched off, or without a scope, the operation is performed and that is all. -/
  plain : c.enabled = false ∨ c.scope = none →
    ∃ e, r = .ok e ∧ c.trace = [.flushed, .began, .ended e]
  /-- With a compensator, the operation is performed once and its end passed on. If the deadline
  is zero or the callback took the ticket before the end of the call, limits are raised once, and
  lowered once after the operation; otherwise the compensator is not called. -/
  available : ∀ d, c.enabled = true → c.scope = some (.available d) →
    ∃ e, r = .ok e ∧ c.trace.filter Note.operates = [.began, .ended e] ∧
      ((c.deadline.isZero = true ∨ List.Sublist [.expired, .settled] c.trace) ∧
          c.trace.filter Note.compensates = [.raised d, .lowered d] ∧
          List.Sublist [.ended e, .lowered d] c.trace ∨
        ¬ (c.deadline.isZero = true ∨ List.Sublist [.expired, .settled] c.trace) ∧
          c.trace.filter Note.compensates = [])

/-- How a race ends. -/
theorem Timed.outcome {d : κ} {r : Except Failure (Exit ν)} {t : Ticket} {b : Bool}
    {tr : List (Note κ ν)} (h : Timed d (.answered r) t b tr) :
    ∃ e, r = .ok e ∧ tr.filter Note.operates = [.began, .ended e] ∧
      (List.Sublist [.expired, .settled] tr ∧
          tr.filter Note.compensates = [.raised d, .lowered d] ∧
          List.Sublist [.ended e, .lowered d] tr ∨
        ¬ List.Sublist [.expired, .settled] tr ∧ tr.filter Note.compensates = []) := by
  cases h with
  | @cancelled l e h =>
    refine ⟨e, rfl, ?_, .inr ⟨fun hsub => ?_, ?_⟩⟩
    · rw [operations_timed, h.operation]
      rfl
    · -- the callback never took the ticket
      have hmem : .expired ∈ [Note.flushed, .armed] ++ l ++ [.settled] ++ [.cancelled] :=
        hsub.subset List.mem_cons_self
      have hl : .expired ∈ l := by simpa using hmem
      exact absurd (h.expired_mem_iff.mp hl) nofun
    · rw [compensations_timed, h.compensations]
      rfl
  | @lowered l e h =>
    have hl : List.Sublist l ([.flushed, .armed] ++ l) := List.sublist_append_right ..
    refine ⟨e, rfl, ?_, .inl ⟨?_, ?_, ?_⟩⟩
    · rw [operations_timed, h.operation]
      rfl
    · have hexp := List.singleton_sublist.mpr (h.expired_mem_iff.mpr rfl)
      exact ((hexp.trans hl).append (.refl _)).trans (List.sublist_append_left ..)
    · rw [compensations_timed, h.compensations]
      rfl
    · have hend := List.singleton_sublist.mpr h.ended_mem
      exact ((hend.trans hl).trans (List.sublist_append_left ..)).append (.refl _)

namespace Call

theorem plan_forbidden {c : Call κ ν} {reason : String} (he : c.enabled = true)
    (hs : c.scope = some (.forbidden reason)) : c.plan = .refuse reason := by
  unfold plan
  rw [he, hs]
  rfl

theorem plan_plain {c : Call κ ν} (h : c.enabled = false ∨ c.scope = none) : c.plan = .plain := by
  unfold plan
  rcases h with h | h
  · rw [h]
    rfl
  · rw [h]
    cases c.enabled <;> rfl

theorem plan_available {c : Call κ ν} {d : κ} (he : c.enabled = true)
    (hs : c.scope = some (.available d)) :
    c.plan = if c.deadline.isZero then .upFront d else .timed d := by
  simp [plan, Plan.choose, he, hs]

theorem OnCourse.outcome {c : Call κ ν} (h : c.OnCourse) {r : Except Failure (Exit ν)}
    (hr : c.stage = .answered r) : c.Outcome r := by
  unfold OnCourse at h
  rw [hr] at h
  refine ⟨fun reason he hs => ?_, fun hp => ?_, fun d he hs => ?_⟩
  · rw [plan_forbidden he hs] at h
    obtain ⟨htr, hst⟩ := h
    refine ⟨?_, htr⟩
    simpa using hst
  · rw [plan_plain hp] at h
    dsimp only at h
    generalize c.trace = tr at h
    cases h with
    | answered e => exact ⟨e, rfl, rfl⟩
  · rw [plan_available he hs] at h
    cases hz : c.deadline.isZero with
    | true =>
      rw [hz, if_pos rfl] at h
      dsimp only at h
      generalize c.trace = tr at h
      cases h with
      | answered e =>
        refine ⟨e, rfl, rfl, .inl ⟨.inl rfl, rfl, ?_⟩⟩
        exact .cons _ (.cons _ (.cons _ (.refl _)))
    | false =>
      rw [hz, if_neg (by decide)] at h
      obtain ⟨e, hr, hops, hcase⟩ := Timed.outcome h
      refine ⟨e, hr, hops, hcase.imp (fun hl => ⟨.inr hl.1, hl.2⟩) fun hn => ⟨?_, hn.2⟩⟩
      exact fun hor => hor.elim (fun hf => nomatch hf) hn.1

end Call

end Workforce.Guard
