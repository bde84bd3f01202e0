import Workforce.Proofs.Guard.Courses
import Workforce.Proofs.Plant.Books

/-
  The guarded calls of a plant are calls of this kind. Beginning one takes a call to the point
  where compensation is prepared, the expiry of a ticket is an invocation of the callback, and
  paying a debt ends the call; each of them does to the network what the moves note.
-/

namespace Workforce

open Guard

namespace Guard.Call

variable {κ ν : Type} {c : Call κ ν}

/-- The first steps of a call that is not refused. -/
theorem go_go (st : c.stage = .entered) {ns : List (Note κ ν)}
    (h : (∃ d, c.plan = .timed d ∧ ns = [.armed]) ∨ (∃ d, c.plan = .upFront d ∧ ns = [.raised d]) ∨
      c.plan = .plain ∧ ns = []) :
    c.go.go = (c.pass .flushed [.flushed]).pass .ready ns := by
  have hfirst : c.go = c.pass .flushed [.flushed] := by
    unfold go
    rw [st]
    rcases h with ⟨d, hp, -⟩ | ⟨d, hp, -⟩ | ⟨hp, -⟩ <;> rw [hp]
  have hplan : (c.pass .flushed [.flushed]).plan = c.plan := rfl
  rw [hfirst]
  unfold go
  rw [hplan]
  rcases h with ⟨d, hp, rfl⟩ | ⟨d, hp, rfl⟩ | ⟨hp, rfl⟩ <;> rw [hp] <;> rfl

end Guard.Call

namespace Plant

variable {ν : Type}

/-- What a note of a call on a thread does to a plant. -/
def enact (a : Actor) (m : Plant ν) : Note Compensator ν → Plant ν
  | .flushed =>
    match a.worker? with
    | some w => m.withNetwork (m.network.flush w)
    | none => m
  | .raised c => m.raise c
  | .lowered c => m.lower c
  | _ => m

/-- The debt of a call in a plant. The callback is through whenever it can be looked at: the plant
performs an expiry at once. -/
inductive Owed (m : Plant ν) (c : Call Compensator ν) : Debt → Prop
  | nothing (hp : c.plan = .plain) : Owed m c .nothing
  | lower {d : Compensator} (hp : c.plan = .upFront d) : Owed m c (.lower d)
  | ticket {d : Compensator} {t : Nat} {entry : Option Nat} (hp : c.plan = .timed d)
      (ht : m.tickets[t]? = some (c.ticket, d)) (hr : c.raising = false) :
      Owed m c (.ticket t entry)

/-- A call as a thread of a plant makes it. -/
def callOf (m : Plant ν) (a : Actor) (deadline : Duration) (enabled : Bool) :
    Call Compensator ν :=
  { enabled, scope := (m.thread a).scope, deadline }

theorem raise_still (m : Plant ν) (c : Compensator) :
    Still { m with network := { m.network.raise c with dropped := [] } } (m.raise c) :=
  still_withNetwork m _

theorem lower_still (m : Plant ν) (c : Compensator) :
    Still { m with network := { m.network.lower c with dropped := [] } } (m.lower c) :=
  still_withNetwork m _

theorem arm_tickets (m : Plant ν) (timer : GuardTimer) (deadline : Duration) (t : Nat) :
    (m.arm timer deadline t).2.tickets = m.tickets ∧
      (m.arm timer deadline t).2.network = m.network := by
  cases timer <;> exact ⟨rfl, rfl⟩

theorem beginGuard_eq (m : Plant ν) (a : Actor) (deadline : Duration) (timer : GuardTimer)
    (enabled : Bool) :
    m.beginGuard a deadline timer enabled =
      match (m.callOf a deadline enabled).plan with
      | .refuse reason => (.error (Plan.refusal reason), m)
      | .plain => (.ok .nothing, m.enact a .flushed)
      | .upFront c => (.ok (.lower c), (m.enact a .flushed).raise c)
      | .timed c =>
        let n := m.enact a .flushed
        let armed := { n with tickets := n.tickets ++ [(Ticket.unresolved, c)] }.arm timer deadline
          n.tickets.length
        (.ok (.ticket n.tickets.length armed.1), armed.2) := rfl

/-- A call that is refused leaves the plant alone. -/
theorem beginGuard_refused {m m' : Plant ν} {a : Actor} {deadline : Duration} {timer : GuardTimer}
    {enabled : Bool} {f : Failure}
    (h : m.beginGuard a deadline timer enabled = (.error f, m')) :
    m' = m ∧ (m.callOf a deadline enabled).go.stage = .answered (.error f) := by
  rw [beginGuard_eq] at h
  unfold Call.go
  split at h
  · rename_i reason hp
    rw [hp]
    cases h
    exact ⟨rfl, rfl⟩
  all_goals cases h

/-- A call that is begun does what its first steps note, and owes what it has to clear up. -/
theorem beginGuard_ready {m m' : Plant ν} {a : Actor} {deadline : Duration} {timer : GuardTimer}
    {enabled : Bool} {debt : Debt}
    (h : m.beginGuard a deadline timer enabled = (.ok debt, m')) :
    let c := (m.callOf a deadline enabled).go.go
    c.stage = .ready ∧ Owed m' c debt ∧ m'.network = (c.trace.foldl (enact a) m).network := by
  rw [beginGuard_eq] at h
  generalize hb : m.callOf a deadline enabled = b at h
  have hst : b.stage = .entered := by rw [← hb]; rfl
  have htr : b.trace = [] := by rw [← hb]; rfl
  have htk : b.ticket = .unresolved := by rw [← hb]; rfl
  have hra : b.raising = false := by rw [← hb]; rfl
  intro c
  have hplan : c.plan = b.plan := by rw [← Call.go_plan b, ← Call.go_plan b.go]
  split at h
  · cases h
  · rename_i hp
    have hc : c = _ := Call.go_go hst (.inr (.inr ⟨hp, rfl⟩))
    cases h
    refine ⟨by rw [hc]; rfl, .nothing (hplan.trans hp), ?_⟩
    rw [hc, Call.pass, Call.pass, htr]
    rfl
  · rename_i d hp
    have hc : c = _ := Call.go_go hst (.inr (.inl ⟨d, hp, rfl⟩))
    cases h
    refine ⟨by rw [hc]; rfl, .lower (hplan.trans hp), ?_⟩
    rw [hc, Call.pass, Call.pass, htr]
    rfl
  · rename_i d hp
    have hc : c = _ := Call.go_go hst (.inl ⟨d, hp, rfl⟩)
    cases h
    refine ⟨by rw [hc]; rfl, .ticket (hplan.trans hp) ?_ (by rw [hc]; exact hra), ?_⟩
    · rw [hc, (arm_tickets ..).1]
      show _ = some (b.ticket, d)
      rw [htk]
      exact List.getElem?_concat_length
    · rw [hc, (arm_tickets ..).2, Call.pass, Call.pass, htr]
      rfl

/-- An expiry is an invocation of the callback. -/
theorem expire_fired {m : Plant ν} {c : Call Compensator ν} {t : Nat} {entry : Option Nat}
    (h : Owed m c (.ticket t entry)) (hc : c.takeable = true) (a : Actor) :
    ∃ ns, c.fire.raise.trace = c.trace ++ ns ∧ Owed (m.expire t) c.fire.raise (.ticket t entry) ∧
      (m.expire t).network = (ns.foldl (enact a) m).network := by
  cases h with
  | @ticket d _ _ hp ht hr =>
    obtain ⟨hlt, -⟩ := List.getElem?_eq_some_iff.mp ht
    have hset : (m.tickets.set t (.resolved, d))[t]? = some (.resolved, d) :=
      List.getElem?_set_self hlt
    cases htk : c.ticket with
    | unresolved =>
      have hexp : m.expire t = { m with tickets := m.tickets.set t (.resolved, d) }.raise d := by
        unfold expire
        rw [ht, htk]
        rfl
      have hfire : c.fire =
          { c with ticket := .resolved, raising := true, trace := c.trace ++ [.expired] } := by
        unfold Call.fire
        rw [if_pos hc, htk]
        rfl
      have hraise : c.fire.raise =
          { c with ticket := .resolved, raising := false,
                   trace := c.trace ++ [.expired] ++ [.raised d] } := by
        have hpf : c.fire.plan = .timed d := (Call.fire_plan c).trans hp
        unfold Call.raise
        rw [hpf, hfire]
        rfl
      have hs := raise_still { m with tickets := m.tickets.set t (.resolved, d) } d
      rw [hraise, hexp]
      refine ⟨[.expired, .raised d], List.append_assoc .., .ticket hp ?_ rfl, ?_⟩
      · rw [hs.tickets]
        exact hset
      · rw [hs.network]
        exact (raise_still m d).network.symm
    | resolved =>
      have hexp : m.expire t = { m with tickets := m.tickets.set t (.resolved, d) } := by
        unfold expire
        rw [ht, htk]
        rfl
      have hfire : c.fire = { c with ticket := .resolved } := by
        unfold Call.fire
        rw [if_pos hc, htk]
        rfl
      have hraise : c.fire.raise = { c with ticket := .resolved } := by
        have hpf : c.fire.plan = .timed d := (Call.fire_plan c).trans hp
        unfold Call.raise
        rw [hpf, hfire]
        exact if_neg (by rw [hr]; decide)
      rw [hraise, hexp]
      exact ⟨[], (List.append_nil _).symm, .ticket hp hset hr, rfl⟩

/-- Whoever pays the debt of a call whose operation has ended takes it to its answer. -/
theorem pay_answered {m : Plant ν} {c : Call Compensator ν} {debt : Debt} {e : Exit ν}
    (h : Owed m c debt) (hst : c.stage = .ended e) (a : Actor) :
    ∃ ns, (c.run [.go, .go]).trace = c.trace ++ ns ∧
      (c.run [.go, .go]).stage = .answered (.ok e) ∧
      (m.pay debt).network = (ns.foldl (enact a) m).network := by
  show ∃ ns, c.go.go.trace = _ ∧ c.go.go.stage = _ ∧ _
  cases h with
  | nothing hp =>
    have hgo : c.go = c.pass (.answered (.ok e)) [] := by
      unfold Call.go
      rw [hst, hp]
    rw [hgo]
    exact ⟨[], rfl, rfl, rfl⟩
  | @lower d hp =>
    have hgo : c.go = c.pass (.answered (.ok e)) [.lowered d] := by
      unfold Call.go
      rw [hst, hp]
    rw [hgo]
    exact ⟨[.lowered d], rfl, rfl, rfl⟩
  | @ticket d t entry hp ht hr =>
    have hgo : c.go = c.settle e := by
      unfold Call.go
      rw [hst, hp]
      exact if_neg (by rw [hr]; decide)
    have hps : (c.settle e).plan = .timed d := hp
    rw [hgo]
    cases htk : c.ticket with
    | unresolved =>
      have hlast : (c.settle e).go = (c.settle e).pass (.answered (.ok e)) [.cancelled] := by
        unfold Call.go
        rw [hps, Call.settle, htk]
        rfl
      rw [hlast]
      refine ⟨[.settled, .cancelled], List.append_assoc .., rfl, ?_⟩
      unfold pay
      dsimp only
      rw [ht, htk]
      cases entry <;> rfl
    | resolved =>
      have hlast : (c.settle e).go = (c.settle e).pass (.answered (.ok e)) [.lowered d] := by
        unfold Call.go
        rw [hps, Call.settle, htk]
        rfl
      rw [hlast]
      refine ⟨[.settled, .lowered d], List.append_assoc .., rfl, ?_⟩
      have hpay : m.pay (.ticket t entry) =
          { m with tickets := m.tickets.set t (.resolved, d) }.lower d := by
        unfold pay
        dsimp only
        rw [ht, htk]
        cases entry <;> rfl
      rw [hpay, (lower_still ..).network]
      exact (lower_still m d).network.symm

end Plant

end Workforce
