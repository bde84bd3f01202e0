import Workforce.Plant.Step
import Workforce.Proofs.Plant.Books

/-
  Guarded calls keep the books of a plant. A call that raises a limit owes a lowering from then
  on; a ticket comes to owe one when its deadline passes, and the end of the call pays what is
  owed and no more. So a limit is never lowered below the one place that a view always has.
-/

namespace Workforce.Plant

variable {ν : Type} {vs : List View} {m : Plant ν} {hand : List (Frame ν)} {out : Nat → Nat}
  {c : Compensator}

/-! ## Raising and lowering -/

/-- What a frame owes when a ticket is resolved. -/
theorem owes_resolve {tickets : List (Ticket × Compensator)} {t : Nat} {s : Ticket}
    {c : Compensator} (ht : tickets[t]? = some (s, c)) (i : Nat) (f : Frame ν) :
    f.owes (tickets.set t (.resolved, c)) i ≤ f.owes tickets i + c.raises i * f.carries t := by
  cases f with
  | guard debt =>
    cases debt with
    | nothing => exact Nat.zero_le _
    | lower d => exact Nat.le_add_right ..
    | ticket u entry =>
      obtain ⟨hlt, -⟩ := List.getElem?_eq_some_iff.mp ht
      show Ticket.due i (tickets.set t (.resolved, c))[u]? ≤
        Ticket.due i tickets[u]? + c.raises i * if u = t then 1 else 0
      rw [List.getElem?_set]
      by_cases hu : t = u
      · subst hu
        rw [if_pos rfl, if_pos hlt, if_pos rfl]
        show c.raises i ≤ _
        omega
      · rw [if_neg hu, if_neg (Ne.symm hu)]
        exact Nat.le_add_right ..
  | _ => exact Nat.zero_le _

theorem sum_owes_resolve {tickets : List (Ticket × Compensator)} {t : Nat} {s : Ticket}
    {c : Compensator} (ht : tickets[t]? = some (s, c)) (i : Nat) (fs : List (Frame ν)) :
    (fs.map (Frame.owes (tickets.set t (.resolved, c)) i)).sum ≤
      (fs.map (Frame.owes tickets i)).sum + c.raises i * (fs.map (Frame.carries t)).sum := by
  induction fs with
  | nil => exact Nat.zero_le _
  | cons f fs ih =>
    have hf := owes_resolve ht i f
    simp only [List.map_cons, List.sum_cons, Nat.mul_add]
    omega

/-- The limits of a compensator are raised, and the lowering is owed. -/
theorem Sound.raise (h : m.Sound vs hand out) (hc : ∀ v ∈ c.views, v.On vs) :
    (m.raise c).Sound vs (.guard (.lower c) :: hand) out ∧ Aside m (m.raise c) := by
  obtain ⟨hn, hcalm, hl, hset⟩ := Network.raise_sound hc h.network h.settled
  refine ⟨?_, aside_withNetwork hcalm⟩
  refine h.update rfl h.compensators hn hset hcalm (fun f hf => ?_) (fun t => ?_) fun i hi => ?_
  · rcases List.mem_cons.mp hf with rfl | hf
    · exact hc
    · exact h.inHand f hf
  · exact Nat.le_of_eq (Nat.zero_add _)
  · have hlim := h.limits i hi
    have howes : Frame.owes (ν := ν) m.tickets i (.guard (.lower c)) =
        c.views.countP fun v => v.id = i := rfl
    rw [List.map_cons, List.sum_cons, howes, hl]
    omega

/-- The limits of a compensator are lowered, which was owed. -/
theorem Sound.lower (h : m.Sound vs (.guard (.lower c) :: hand) out) :
    (m.lower c).Sound vs hand out ∧ Aside m (m.lower c) := by
  have hc : ∀ v ∈ c.views, v.On vs := h.inHand _ List.mem_cons_self
  obtain ⟨hn, hcalm, hl, hset⟩ := Network.lower_sound hc h.network h.settled
  refine ⟨?_, aside_withNetwork hcalm⟩
  refine h.update rfl h.compensators hn hset hcalm
    (fun f hf => h.inHand f (List.mem_cons_of_mem _ hf)) (fun t => Nat.le_add_left ..) fun i hi => ?_
  have hlim := h.limits i hi
  have howes : Frame.owes (ν := ν) m.tickets i (.guard (.lower c)) =
      c.views.countP fun v => v.id = i := rfl
  rw [List.map_cons, List.sum_cons, howes] at hlim
  rw [hl]
  omega

/-! ## Tickets -/

theorem set_resolved {tickets : List (Ticket × Compensator)} {t : Nat}
    (ht : tickets[t]? = some (.resolved, c)) : tickets.set t (.resolved, c) = tickets := by
  obtain ⟨hlt, he⟩ := List.getElem?_eq_some_iff.mp ht
  rw [← he]
  exact List.set_getElem_self hlt

/-- A ticket is in one place, so that its resolution lets one more lowering be owed at most. -/
theorem Sound.owes_resolved (h : m.Sound vs hand out) {t : Nat} {s : Ticket}
    (ht : m.tickets[t]? = some (s, c)) (i : Nat) :
    m.total (Frame.owes (m.tickets.set t (.resolved, c)) i) +
        (hand.map (Frame.owes (m.tickets.set t (.resolved, c)) i)).sum ≤
      m.total (Frame.owes m.tickets i) + (hand.map (Frame.owes m.tickets i)).sum + c.raises i := by
  have htotal := total_le (m := m) rfl fun f => owes_resolve ht i f
  have hhand := sum_owes_resolve ht i hand
  have hone : m.total (Frame.carries t) + (hand.map (Frame.carries t)).sum ≤ 1 := by
    have hcarried := h.tickets t
    split at hcarried <;> omega
  have hmul := Nat.mul_le_mul_left (c.raises i) hone
  rw [Nat.mul_add, Nat.mul_one] at hmul
  omega

/-- The deadline of a ticket passes. The call that carries it, if it still runs, owes a lowering
from now on. -/
theorem Sound.expire (h : m.Sound vs hand out) (t : Nat) :
    (m.expire t).Sound vs hand out ∧ Aside m (m.expire t) := by
  rw [Plant.expire]
  split
  case h_1 => exact ⟨h, Aside.refl m⟩
  case h_2 s c ht =>
    have hc := h.compensators _ (List.mem_of_getElem? ht)
    have hlen : (m.tickets.set t (.resolved, c)).length = m.tickets.length := List.length_set
    have hviews : ∀ x ∈ m.tickets.set t (.resolved, c), ∀ v ∈ x.2.views, v.On vs := by
      intro x hx
      rcases List.mem_or_eq_of_mem_set hx with hx | rfl
      · exact h.compensators x hx
      · exact hc
    cases s with
    | resolved =>
      have he : ({ m with tickets := m.tickets.set t (.resolved, c) } : Plant ν) = m := by
        rw [set_resolved ht]
      show ({ m with tickets := m.tickets.set t (.resolved, c) } : Plant ν).Sound vs hand out ∧
        Aside m { m with tickets := m.tickets.set t (.resolved, c) }
      rw [he]
      exact ⟨h, Aside.refl m⟩
    | unresolved =>
      obtain ⟨hn, hcalm, hl, hset⟩ := Network.raise_sound hc h.network h.settled
      have htickets : Aside m { m with tickets := m.tickets.set t (.resolved, c) } :=
        ⟨Network.Calm.refl _, fun a => (thread_congr rfl a).1⟩
      refine ⟨?_, htickets.trans (aside_withNetwork hcalm)⟩
      refine h.update hlen hviews hn hset hcalm h.inHand (fun _ => Nat.le_refl _) fun i hi => ?_
      have hlim := h.limits i hi
      have howes := h.owes_resolved ht i
      have hraise : (m.network.raise c).limitOf i = m.network.limitOf i + c.raises i := hl i
      rw [hraise]
      omega

/-! ## The end of a guarded call -/

/-- A ticket that is resolved by the end of its call is in no other hands, so that nobody owes
more. -/
theorem Sound.settle {t : Nat} {entry : Option Nat}
    (h : m.Sound vs (.guard (.ticket t entry) :: hand) out)
    (ht : m.tickets[t]? = some (.unresolved, c)) :
    ({ m with tickets := m.tickets.set t (.resolved, c) } : Plant ν).Sound vs hand out := by
  have hc := h.compensators _ (List.mem_of_getElem? ht)
  have hviews : ∀ x ∈ m.tickets.set t (.resolved, c), ∀ v ∈ x.2.views, v.On vs := by
    intro x hx
    rcases List.mem_or_eq_of_mem_set hx with hx | rfl
    · exact h.compensators x hx
    · exact hc
  have hput := h.putAway
  refine hput.replace List.length_set hviews hput.network hput.settled (Network.Calm.refl _)
    hput.inHand (fun _ => Nat.le_refl _) fun i hi => ?_
  have hnone : m.total (Frame.carries t) = 0 ∧ (hand.map (Frame.carries t)).sum = 0 := by
    have hcarried := h.tickets t
    have hself : Frame.carries (ν := ν) t (.guard (.ticket t entry)) = 1 := if_pos rfl
    rw [List.map_cons, List.sum_cons, hself] at hcarried
    split at hcarried <;> omega
  have htotal := total_le (m := m) rfl fun f => owes_resolve ht i f
  have hhand := sum_owes_resolve ht i hand
  rw [hnone.1, Nat.mul_zero] at htotal
  rw [hnone.2, Nat.mul_zero] at hhand
  have hlim := hput.limits i hi
  omega

/-- A guarded call ends, and pays what it owes. -/
theorem Sound.pay {debt : Debt} (h : m.Sound vs (.guard debt :: hand) out) :
    (m.pay debt).Sound vs hand out ∧ Aside m (m.pay debt) := by
  cases debt with
  | nothing => exact ⟨h.putAway, Aside.refl m⟩
  | lower c => exact h.lower
  | ticket t entry =>
    rw [Plant.pay]
    split
    case h_1 => exact ⟨h.putAway, Aside.refl m⟩
    case h_2 s c ht =>
      cases s with
      | unresolved =>
        have hs := h.settle ht
        have haside : Aside m { m with tickets := m.tickets.set t (.resolved, c) } :=
          ⟨Network.Calm.refl _, fun a => (thread_congr rfl a).1⟩
        cases entry with
        | none => exact ⟨hs, haside⟩
        | some seq =>
          have hcancel : Still { m with tickets := m.tickets.set t (.resolved, c) }
              { m with
                tickets := m.tickets.set t (.resolved, c)
                timer := (m.timer.cancel seq).2 } := ⟨rfl, rfl, rfl, rfl⟩
          exact ⟨hs.still hcancel, haside.trans hcancel.aside⟩
      | resolved =>
        have hc := h.compensators _ (List.mem_of_getElem? ht)
        have hlower : m.Sound vs (.guard (.lower c) :: hand) out := by
          refine h.exchange (fun f hf => ?_) (fun u => ?_) fun i => ?_
          · rcases List.mem_cons.mp hf with rfl | hf
            · exact hc
            · exact h.inHand f (List.mem_cons_of_mem _ hf)
          · exact Nat.add_le_add_right (Nat.zero_le _) _
          · have howes : Frame.owes (ν := ν) m.tickets i (.guard (.ticket t entry)) =
                c.raises i := by
              show Ticket.due i m.tickets[t]? = _
              rw [ht]
              rfl
            rw [List.map_cons, List.map_cons, List.sum_cons, List.sum_cons, howes]
            exact Nat.le_refl _
        have he : ({ m with tickets := m.tickets.set t (.resolved, c) } : Plant ν) = m := by
          rw [set_resolved ht]
        show (Plant.lower { m with tickets := m.tickets.set t (.resolved, c) } c).Sound vs hand out ∧
          Aside m (Plant.lower { m with tickets := m.tickets.set t (.resolved, c) } c)
        rw [he]
        exact hlower.lower

/-! ## The beginning of a guarded call -/

theorem compensator?_of_choose {enabled : Bool} {scope : Option TaskScope} {deadline : Duration}
    (h : Plan.choose enabled scope deadline = .upFront c ∨
      Plan.choose enabled scope deadline = .timed c) : Scope.compensator? scope = some c := by
  unfold Plan.choose at h
  cases enabled with
  | false => rcases h with h | h <;> cases h
  | true =>
    cases scope with
    | none => rcases h with h | h <;> cases h
    | some s =>
      cases s with
      | forbidden reason => rcases h with h | h <;> cases h
      | available d =>
        simp only [Bool.not_true, Bool.false_eq_true, if_false] at h
        split at h <;> rcases h with h | h <;> cases h <;> rfl

/-- A ticket that is not resolved owes nothing yet. -/
theorem owes_issue (tickets : List (Ticket × Compensator)) (c : Compensator) (i : Nat)
    (f : Frame ν) : f.owes (tickets ++ [(.unresolved, c)]) i = f.owes tickets i := by
  cases f with
  | guard debt =>
    cases debt with
    | ticket t entry =>
      show Ticket.due i (tickets ++ [(.unresolved, c)])[t]? = Ticket.due i tickets[t]?
      rcases Nat.lt_trichotomy t tickets.length with hlt | he | hgt
      · rw [List.getElem?_append_left hlt]
      · subst he
        rw [List.getElem?_concat_length, List.getElem?_eq_none (Nat.le_refl _)]
        rfl
      · rw [List.getElem?_eq_none (by rw [List.length_append]; exact hgt), List.getElem?_eq_none (Nat.le_of_lt hgt)]
    | _ => rfl
  | _ => rfl

/-- A ticket is issued for a call that begins. -/
theorem Sound.issue (h : m.Sound vs hand out) (hc : ∀ v ∈ c.views, v.On vs)
    (entry : Option Nat) :
    ({ m with tickets := m.tickets ++ [(.unresolved, c)] } : Plant ν).Sound vs
      (.guard (.ticket m.tickets.length entry) :: hand) out := by
  have howes : Frame.owes (ν := ν) (m.tickets ++ [(.unresolved, c)]) = Frame.owes m.tickets := by
    funext i f
    exact owes_issue m.tickets c i f
  have htotal : ∀ w, ({ m with tickets := m.tickets ++ [(.unresolved, c)] } : Plant ν).total w =
      m.total w := fun _ => rfl
  refine ⟨h.network, h.settled, fun i hi => ?_, fun t => ?_, fun x hx => ?_, h.frames,
    fun f hf => ?_, h.scopes, h.dispatchers, h.linked⟩
  · have hlim := h.limits i hi
    have hnew : Frame.owes (ν := ν) m.tickets i (.guard (.ticket m.tickets.length entry)) = 0 := by
      show Ticket.due i m.tickets[m.tickets.length]? = 0
      rw [List.getElem?_eq_none (Nat.le_refl _)]
      rfl
    dsimp only at hi ⊢
    rw [howes, htotal, List.map_cons, List.sum_cons, hnew]
    omega
  · have ht := h.tickets t
    have hnew : Frame.carries (ν := ν) t (.guard (.ticket m.tickets.length entry)) =
        if m.tickets.length = t then 1 else 0 := rfl
    dsimp only
    rw [htotal, List.map_cons, List.sum_cons, hnew, List.length_append, List.length_singleton]
    split at ht <;> split <;> split <;> omega
  · rcases List.mem_append.mp hx with hx | hx
    · exact h.compensators x hx
    · rw [List.mem_singleton.mp hx]
      exact hc
  · rcases List.mem_cons.mp hf with rfl | hf
    · exact trivial
    · exact h.inHand f hf

theorem still_arm (m : Plant ν) (timer : GuardTimer) (deadline : Duration) (t : Nat) :
    Still m (m.arm timer deadline t).2 := by
  cases timer <;> exact ⟨rfl, rfl, rfl, rfl⟩

/-- A worker with frames on its stack runs a task, and may empty its slot. -/
theorem Sound.flush (h : m.Sound vs hand out) {w : WorkerId}
    (hw : (m.thread (.worker w)).stack ≠ []) :
    (m.withNetwork (m.network.flush w)).Sound vs hand out ∧
    Aside m (m.withNetwork (m.network.flush w)) := by
  obtain ⟨j, hj, -⟩ := (h.linked w).resolve_left hw
  have hgains : ∀ p, m.network.pool? w.pool = some p → p.Gains (p.flush w.worker) [] := by
    intro p hp
    refine Pool.gains_flush ?_
    rw [Network.taskAt, hp] at hj
    exact Option.isSome_of_eq_some hj
  obtain ⟨hn, hk, hset⟩ := Network.onPool_sound h.network hgains
  exact ⟨h.keeps hn (fun i => hset i (h.settled i)) hk, aside_withNetwork hk.toCalm⟩

/-- A guarded call is refused, or begins and owes something. -/
theorem Sound.beginGuard (h : m.Sound vs hand out) {w : WorkerId}
    (hw : (m.thread (.worker w)).stack ≠ []) (deadline : Duration) (timer : GuardTimer)
    (enabled : Bool) :
    (∃ e, m.beginGuard (.worker w) deadline timer enabled = (.error e, m)) ∨
    ∃ debt m', m.beginGuard (.worker w) deadline timer enabled = (.ok debt, m') ∧
      m'.Sound vs (.guard debt :: hand) out ∧ Aside m m' := by
  obtain ⟨hflushed, haside⟩ := h.flush hw
  have hviews : ∀ c, Plan.choose enabled (m.thread (.worker w)).scope deadline = .upFront c ∨
      Plan.choose enabled (m.thread (.worker w)).scope deadline = .timed c →
      ∀ v ∈ c.views, v.On vs := fun c hc => h.scope (.worker w) c (compensator?_of_choose hc)
  unfold Plant.beginGuard
  dsimp only [Actor.worker?]
  split
  case h_1 => exact Or.inl ⟨_, rfl⟩
  case h_2 =>
    refine Or.inr ⟨_, _, rfl, hflushed.exchange (fun f hf => ?_) (fun _ => ?_) fun _ => ?_, haside⟩
    · rcases List.mem_cons.mp hf with rfl | hf
      · exact trivial
      · exact h.inHand f hf
    · exact Nat.le_of_eq (Nat.zero_add _)
    · exact Nat.le_of_eq (Nat.zero_add _)
  case h_3 c hc =>
    obtain ⟨hraised, haside'⟩ := hflushed.raise (hviews c (Or.inl hc))
    exact Or.inr ⟨_, _, rfl, hraised, haside.trans haside'⟩
  case h_4 c hc =>
    have hissued := hflushed.issue (hviews c (Or.inr hc))
    have harm := still_arm { m.withNetwork (m.network.flush w) with
      tickets := (m.withNetwork (m.network.flush w)).tickets ++ [(Ticket.unresolved, c)] }
      timer deadline (m.withNetwork (m.network.flush w)).tickets.length
    have htickets : Aside (m.withNetwork (m.network.flush w)) { m.withNetwork (m.network.flush w) with
      tickets := (m.withNetwork (m.network.flush w)).tickets ++ [(Ticket.unresolved, c)] } :=
      ⟨Network.Calm.refl _, fun a => (thread_congr rfl a).1⟩
    exact Or.inr ⟨_, _, rfl, (hissued _).still harm,
      haside.trans (htickets.trans harm.aside)⟩

/-! ## Frames pushed and popped -/

/-- A frame in hand comes onto the stack of a thread that runs a task. -/
theorem Sound.push {f : Frame ν} (h : m.Sound vs (f :: hand) out) (hf : f.view? = none) {a : Actor}
    (ha : (m.thread a).stack ≠ []) : (m.push a f).Sound vs hand out := by
  refine h.setThread (h.scope a) (fun g hg => ?_) (fun g hg => ?_) (fun w _ => ?_) fun w hw => ?_
  · rcases List.mem_cons.mp hg with rfl | hg
    · exact h.inHand _ List.mem_cons_self
    · exact h.stack a g hg
  · exact h.inHand g (List.mem_cons_of_mem f hg)
  · simp only [List.map_cons, List.sum_cons]
    omega
  · subst hw
    obtain ⟨j, hj, hi⟩ := (h.linked w).resolve_left ha
    exact Or.inr ⟨j, hj, fun i => (holds_cons_of_none i hf _).trans (hi i)⟩

theorem holds_append {fs : List (Frame ν)} (hf : ∀ f ∈ fs, f.view? = none) (i : Nat)
    (rest : List (Frame ν)) : holds i (fs ++ rest) = holds i rest := by
  induction fs with
  | nil => rfl
  | cons f fs ih =>
    rw [List.cons_append, holds_cons_of_none i (hf f List.mem_cons_self)]
    exact ih fun g hg => hf g (List.mem_cons_of_mem f hg)

/-- The first frames of a stack are taken into hand. -/
theorem Sound.pop (h : m.Sound vs hand out) {a : Actor} (fs : List (Frame ν))
    {rest : List (Frame ν)}
    (hs : (m.thread a).stack = fs ++ rest) (hf : ∀ f ∈ fs, f.view? = none) :
    (m.setStack a rest).Sound vs (fs ++ hand) out := by
  have hon := h.stack a
  rw [hs] at hon
  refine h.setThread (h.scope a) (fun g hg => hon g (List.mem_append_right fs hg)) (fun g hg => ?_)
    (fun w _ => ?_) fun w hw => ?_
  · rcases List.mem_append.mp hg with hg | hg
    · exact hon g (List.mem_append_left rest hg)
    · exact h.inHand g hg
  · rw [hs]
    simp only [List.map_append, List.sum_append]
    omega
  · subst hw
    rcases h.linked w with hnil | ⟨j, hj, hi⟩
    · rw [hs] at hnil
      exact Or.inl (List.append_eq_nil_iff.mp hnil).2
    · rw [hs] at hi
      exact Or.inr ⟨j, hj, fun i => (holds_append hf i rest).symm.trans (hi i)⟩

end Workforce.Plant
