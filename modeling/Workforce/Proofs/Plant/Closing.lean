import Workforce.Plant.Close
import Workforce.Proofs.Network.Rest
import Workforce.Proofs.Plant.Steps

/-
  Closes that complete. Operations happen to a plant one after the other: threads perform steps,
  workers take their turns, deadlines pass and closes begin. As long as they are careful and no close
  gives up waiting, the books of the plant stay in order (`Reaches.steady`), and then a pool whose
  queues and counters are empty is done with all tasks of all views over it (`close_sound`).

  Careful operations leave limits to guarded calls, throw no explosive payload and start tasks only
  in contexts that can be entered.
-/

namespace Workforce

variable {ν : Type}

/-! ## Operations -/

/-- What happens to a plant, one thing after the other. -/
inductive Operation (ν : Type) where
  /-- The controlling thread performs a step. -/
  | perform (s : Step ν)
  /-- A task that waits for its steps is given one. -/
  | direct (w : WorkerId) (s : Step ν)
  /-- A worker does the next thing it has to do. -/
  | advance (w : WorkerId)
  /-- A worker gives up waiting for a task. -/
  | giveUp (w : WorkerId)
  /-- The keep-alive time of a worker is over. -/
  | timeOut (w : WorkerId)
  /-- The deadline of a guarded call passes. -/
  | expire (ticket : Nat)
  | popTimer
  | beginClose (p : Nat)
  | closeApart (p : Nat) (timeout : Duration) (name : String)
  | recheck
  | collectClose (name : String)

namespace Plant

/-- The plant after an operation. -/
def after (m : Plant ν) : Operation ν → Plant ν
  | .perform s => (m.perform .controller s).2
  | .direct w s => (m.direct w s).2
  | .advance w => m.advance w
  | .giveUp w => m.followScript w
  | .timeOut w =>
    match m.pool? w.pool, m.phase? w with
    | some p, some (.idle _) => m.withTurn w.pool (p.resume w.worker true)
    | _, _ => m
  | .expire ticket => m.expire ticket
  | .popTimer => m.popTimer?.getD m
  | .beginClose p => m.beginClose p
  | .closeApart p timeout name => m.closeApart p timeout name
  | .recheck => { m with closers := m.closers.map m.recheck }
  | .collectClose name => (m.collectClose name).2

/-- What a worker does next is careful: it enters a context that can be entered, or goes on by a
plain step. -/
def careful (m : Plant ν) (w : WorkerId) : Bool :=
  match m.phase? w, (m.thread (.worker w)).stack with
  | some (.running j), [] => (j.task.context.enter (m.thread (.worker w)).ambient).1.isOk
  | _, .script _ (s :: _) :: _ => s.plain
  | _, _ => true

/-- An operation can happen and is careful. Short closes on threads of their own may give up. -/
def permits (m : Plant ν) : Operation ν → Bool
  | .perform s => s.plain
  | .direct w s => !(m.thread (.worker w)).stack.isEmpty && s.plain
  | .advance w => m.careful w
  | .giveUp w => !(m.thread (.worker w)).stack.isEmpty && m.careful w
  | .closeApart _ timeout _ => shortDeadline.toNanos ≤ timeout.toNanos
  | _ => true

/-- A plant comes about from another one by careful operations. -/
inductive Reaches (m₀ : Plant ν) : Plant ν → Prop
  | start : Reaches m₀ m₀
  | operate {m : Plant ν} (o : Operation ν) :
    Reaches m₀ m → m.permits o = true → Reaches m₀ (m.after o)

/-! ## Operations keep the books -/

variable {vs : List View} {m : Plant ν}

theorem exists_of_phase? {w : WorkerId} {phase : Phase (Job (Task ν))}
    (h : m.phase? w = some phase) : ∃ p x, m.pool? w.pool = some p ∧
      p.worker? w.worker = some x ∧ x.phase = phase := by
  unfold phase? at h
  obtain ⟨x, hx, hph⟩ := Option.map_eq_some_iff.mp h
  obtain ⟨p, hp, hw⟩ := Option.bind_eq_some_iff.mp hx
  exact ⟨p, x, hp, hw, hph⟩

theorem canEnter_of_careful {w : WorkerId} {j : Job (Task ν)} (h : m.careful w = true)
    (hj : m.phase? w = some (.running j)) (hs : (m.thread (.worker w)).stack = []) :
    m.CanEnter w j := by
  unfold careful at h
  rw [hj, hs] at h
  unfold CanEnter
  cases he : (j.task.context.enter (m.thread (.worker w)).ambient).1 with
  | ok token => exact ⟨token, rfl⟩
  | error p =>
    dsimp only at h
    rw [he] at h
    cases h

theorem plain_of_careful {w : WorkerId} {t : Nat} {s : Step ν} {rest : List (Step ν)}
    {below : List (Frame ν)} (h : m.careful w = true)
    (hs : (m.thread (.worker w)).stack = .script t (s :: rest) :: below) : s.plain = true := by
  unfold careful at h
  rw [hs] at h
  split at h
  case h_1 hnil => cases hnil
  case h_2 he =>
    cases he
    exact h
  case h_3 hne _ => exact absurd rfl (hne t s rest below)

theorem stack_ne_nil {w : WorkerId} (h : (!(m.thread (.worker w)).stack.isEmpty) = true) :
    (m.thread (.worker w)).stack ≠ [] := by
  intro hnil
  rw [hnil] at h
  cases h

theorem Steady.advance (h : m.Steady vs) {w : WorkerId} (hw : m.careful w = true) :
    ∃ us, (m.advance w).Steady us := by
  unfold Plant.advance
  split
  case h_1 p hp hph =>
    obtain ⟨q, x, hq, hx, hstarting⟩ := exists_of_phase? hph
    cases hp.symm.trans hq
    exact ⟨vs, h.freeTurn hp hx (by rw [hstarting]; rfl) (Pool.turns_begin hx hstarting)⟩
  case h_2 p woken hp hph =>
    obtain ⟨q, x, hq, hx, hidle⟩ := exists_of_phase? hph
    cases hp.symm.trans hq
    exact ⟨vs, h.freeTurn hp hx (by rw [hidle]; rfl) (Pool.turns_resume hx hidle false)⟩
  case h_3 p j hp hph =>
    split
    case isTrue hs =>
      have hnil := List.isEmpty_iff.mp hs
      exact ⟨vs, h.startRun (taskAt_of_phase? hph) hnil (canEnter_of_careful hw hph hnil)⟩
    case isFalse hs =>
      exact h.followScript (fun hnil => hs (List.isEmpty_iff.mpr hnil)) fun t s rest below =>
        plain_of_careful hw
  case h_4 => exact ⟨vs, h⟩

theorem Steady.timeOut (h : m.Steady vs) (w : WorkerId) : (m.after (.timeOut w)).Steady vs := by
  unfold after
  dsimp only
  split
  case h_1 p woken hp hph =>
    obtain ⟨q, x, hq, hx, hidle⟩ := exists_of_phase? hph
    cases hp.symm.trans hq
    exact h.freeTurn hp hx (by rw [hidle]; rfl) (Pool.turns_resume hx hidle true)
  case h_2 => exact h

theorem Steady.popTimer (h : m.Steady vs) : (m.after .popTimer).Steady vs := by
  unfold after popTimer?
  dsimp only
  split
  case h_1 => exact h
  case h_2 e t ht =>
    have hstill : Still m { m with timer := (t.fire e).2 } := ⟨rfl, rfl, rfl, rfl⟩
    dsimp only [Option.getD_some]
    split
    · exact (h.still hstill).expire _
    · exact h.still hstill

theorem Steady.beginClose (h : m.Steady vs) (p : Nat) : (m.beginClose p).Steady vs := by
  obtain ⟨hn, hk, hset⟩ := Network.onPool_sound (k := p) h.sound.network fun q _ =>
    Pool.gains_beginClose q
  have hs := h.sound.replace rfl h.sound.compensators hn (fun i => hset i (h.sound.settled i))
    hk.toCalm h.sound.inHand (fun _ => Nat.le_refl _) fun i hi => hk.limit i ▸ h.sound.limits i hi
  exact hs.steady fun i => (hk.running i).symm

theorem Steady.closeApart (h : m.Steady vs) (p : Nat) {timeout : Duration}
    (ht : shortDeadline.toNanos ≤ timeout.toNanos) (name : String) :
    (m.closeApart p timeout name).Steady vs := by
  have hb := h.beginClose p
  unfold Plant.closeApart
  dsimp only
  split
  case h_1 => exact hb
  case h_2 q hq =>
    rw [if_neg fun hand => Nat.not_lt.mpr ht hand.2]
    exact hb.still ⟨rfl, rfl, rfl, rfl⟩

theorem Steady.collectClose (h : m.Steady vs) (name : String) :
    (m.collectClose name).2.Steady vs := by
  unfold Plant.collectClose
  split
  · exact h
  · exact h.still ⟨rfl, rfl, rfl, rfl⟩

/-- Careful operations keep the books of a plant. -/
theorem Steady.after (h : m.Steady vs) {o : Operation ν} (ho : m.permits o = true) :
    ∃ us, (m.after o).Steady us := by
  cases o with
  | perform s => exact h.perform (fun w hw => by cases hw) ho
  | direct w s =>
    obtain ⟨hw, hs⟩ := Bool.and_eq_true_iff.mp ho
    exact h.direct (stack_ne_nil hw) hs
  | advance w => exact h.advance ho
  | giveUp w =>
    obtain ⟨hw, hc⟩ := Bool.and_eq_true_iff.mp ho
    exact h.followScript (stack_ne_nil hw) fun t s rest below => plain_of_careful hc
  | timeOut w => exact ⟨vs, h.timeOut w⟩
  | expire ticket => exact ⟨vs, h.expire ticket⟩
  | popTimer => exact ⟨vs, h.popTimer⟩
  | beginClose p => exact ⟨vs, h.beginClose p⟩
  | closeApart p timeout name =>
    simp only [permits, decide_eq_true_eq] at ho
    exact ⟨vs, h.closeApart p ho name⟩
  | recheck => exact ⟨vs, h.still ⟨rfl, rfl, rfl, rfl⟩⟩
  | collectClose name => exact ⟨vs, h.collectClose name⟩

/-- A plant without pools, threads and tasks. -/
theorem steady_empty (cells : Cells) : ({ network := {}, cells } : Plant ν).Steady [] := by
  refine ⟨⟨rfl, fun i v hv => ?_, fun k p hp => ?_, fun k p hp => ?_, fun i v x hv => ?_,
    fun i x hx => ?_⟩, fun i x hx => ?_, fun i hi => ?_, fun t => ?_, nofun, nofun, nofun, nofun,
    nofun, fun w => Or.inl rfl⟩
  · cases hv
  · cases hp
  · cases hp
  · cases hv
  · cases hx
  · cases hx
  · cases hi
  · exact Nat.zero_le _

/-- What holds of an empty plant and stays when pools are added holds of every plant that is
built. -/
theorem build_induct {P : Plant ν → Prop} {cells : Cells} {configs : List Config}
    (hempty : P { network := {}, cells })
    (hadd : ∀ (c : Config) {p : Pool (Job (Task ν))} {m : Plant ν}, Pool.create c = .ok p →
      P m → P (m.addPool p))
    (h : build cells configs = .ok m) : P m := by
  unfold build at h
  generalize ({ network := {}, cells } : Plant ν) = m₀ at hempty h
  induction configs generalizing m₀ with
  | nil =>
    cases h
    exact hempty
  | cons c cs ih =>
    rw [List.foldlM_cons] at h
    cases hc : (Pool.create c : Except Failure (Pool (Job (Task ν)))) with
    | error f =>
      rw [hc] at h
      cases h
    | ok p =>
      rw [hc] at h
      exact ih (m₀.addPool p) (hadd c hc hempty) h

/-- A plant that was built is sound. -/
theorem steady_build {cells : Cells} {configs : List Config} (h : build cells configs = .ok m) :
    m.Steady [] := by
  refine build_induct (steady_empty cells) (fun c p m hc hm => ?_) h
  unfold Pool.create at hc
  cases hv : c.validate with
  | error f =>
    rw [hv] at hc
    cases hc
  | ok u =>
    rw [hv] at hc
    cases hc
    exact hm.addPool c

/-- Whatever comes about by careful operations has its books in order. -/
theorem Reaches.steady {m₀ : Plant ν} (h₀ : m₀.Steady []) (h : Reaches m₀ m) :
    ∃ us, m.Steady us := by
  induction h with
  | start => exact ⟨[], h₀⟩
  | operate o _ ho ih =>
    obtain ⟨us, hus⟩ := ih
    exact hus.after ho

/-! ## Pools at rest -/

/-- No task of a pool or of any view over it waits or runs. -/
structure Clear (m : Plant ν) (p : Nat) : Prop where
  queues : ∀ q, m.pool? p = some q → q.cpuQueue = [] ∧ q.blockingQueue = []
  workers : ∀ q, m.pool? p = some q → ∀ x ∈ q.workers, x.slot = none ∧ x.phase.task? = none
  gates : ∀ d, some d ∈ m.dispatchers → d.poolId = p → ∀ v ∈ d.views,
    ∃ x, m.network.gate? v.id = some x ∧ x.running = 0 ∧ x.queue = []

theorem poolId_of_mem_views {d : Dispatcher} {v : View} (h : v ∈ d.views) :
    v.parent.poolId = d.poolId := by
  induction d with
  | pool id core => cases h
  | view id mode base parent ih =>
    rcases List.mem_cons.mp h with rfl | h
    · rfl
    · exact ih h

/-- Every view has a place at least. -/
theorem Sound.one_le_limit {hand : List (Frame ν)} {out : Nat → Nat} (h : m.Sound vs hand out)
    {i : Nat} {x : Gate (Job (Task ν))} (hx : m.network.gate? i = some x) : 1 ≤ x.limit := by
  obtain ⟨hi, -⟩ := List.getElem?_eq_some_iff.mp hx
  have hl := h.limits i hi
  have he : m.network.limitOf i = x.limit := by
    unfold Network.limitOf
    rw [hx]
    rfl
  omega

theorem worth_one_eq_zero {τ : Type} {o : Option τ} (h : Worth (fun _ => 1) o = 0) : o = none := by
  cases o with
  | none => rfl
  | some t => cases h

/-- A pool of a sound plant that is at rest is done with all tasks. -/
theorem Steady.clear (h : m.Steady vs) {p : Nat}
    (hp : ∀ q, m.pool? p = some q → q.queued = 0 ∧ q.running = 0) : m.Clear p := by
  refine ⟨fun q hq => ?_, fun q hq x hx => ?_, fun d hd hdp v hv => ?_⟩
  · obtain ⟨hqueued, -⟩ := hp q hq
    unfold Pool.queued at hqueued
    exact ⟨List.eq_nil_of_length_eq_zero (by omega), List.eq_nil_of_length_eq_zero (by omega)⟩
  · obtain ⟨hqueued, hrunning⟩ := hp q hq
    have hz := (h.sound.network.healthy p q hq).holding_eq_zero hqueued hrunning
      (fun _ => 1) fun _ => 1
    obtain ⟨hslot, htask⟩ := ((Pool.holding_eq_zero_iff _ _ q).mp hz).2 x hx
    exact ⟨worth_one_eq_zero hslot, worth_one_eq_zero htask⟩
  · have hlead := h.sound.dispatchers d hd
    obtain ⟨q, hq⟩ := Network.exists_pool (hdp ▸ hlead.pool)
    obtain ⟨hqueued, hrunning⟩ := hp q hq
    have hon : v.On vs := hlead.charted v hv
    obtain ⟨x, hx⟩ := h.sound.network.exists_gate hon
    exact ⟨x, hx, Network.rest_empty h.sound.network (fun _ => rfl) h.sound.settled
      (fun _ _ => h.sound.one_le_limit) hq hqueued hrunning v.id v x hon
      ((poolId_of_mem_views hv).trans hdp) hx⟩

/-! ## Closes -/

theorem stack_of_heldUp? {w : WorkerId} {patience : Duration} (h : m.heldUp? w = some patience) :
    (!(m.thread (.worker w)).stack.isEmpty) = true := by
  unfold heldUp? at h
  split at h
  case h_1 hs =>
    rw [hs]
    rfl
  case h_2 => cases h

theorem after_giveUp {w : WorkerId} {m' : Plant ν} (h : m.giveUp? w = some m') :
    (!(m.thread (.worker w)).stack.isEmpty) = true ∧ m.after (.giveUp w) = m' := by
  unfold giveUp? at h
  split at h
  case h_1 patience hp =>
    split at h
    case isTrue =>
      cases h
      exact ⟨stack_of_heldUp? hp, rfl⟩
    case isFalse => cases h
  case h_2 => cases h

theorem after_timeOut {w : WorkerId} {m' : Plant ν} (h : m.timeOut? w = some m') :
    m.after (.timeOut w) = m' := by
  unfold timeOut? at h
  split at h
  case h_1 p woken hp hph =>
    split at h
    case isTrue =>
      split at h
      case h_1 => cases h
      case h_2 =>
        cases h
        unfold after
        dsimp only
        rw [hp, hph]
    case isFalse => cases h
  case h_2 => cases h

/-- What can happen next while a plant settles. -/
theorem next_cases {m' : Plant ν} (h : m.next? = some m') :
    (∃ w, m' = m.advance w) ∨ m' = m.after .recheck ∨ m' = m.after .popTimer ∨
    (∃ w, (!(m.thread (.worker w)).stack.isEmpty) = true ∧ m' = m.followScript w) ∨
    ∃ w, m' = m.after (.timeOut w) := by
  unfold next? at h
  split at h
  case h_1 w _ =>
    cases h
    exact Or.inl ⟨w, rfl⟩
  case h_2 =>
    split at h
    case isTrue =>
      cases h
      exact Or.inr (Or.inl rfl)
    case isFalse =>
      split at h
      case h_1 m'' hpop =>
        cases h
        refine Or.inr (Or.inr (Or.inl ?_))
        unfold after
        dsimp only
        rw [hpop]
        rfl
      case h_2 =>
        rcases Option.or_eq_some_iff.mp ((Option.orElse_eq_or ..).symm.trans h) with hg | ⟨-, ht⟩
        · obtain ⟨w, -, hw⟩ := List.exists_of_findSome?_eq_some hg
          obtain ⟨hne, he⟩ := after_giveUp hw
          exact Or.inr (Or.inr (Or.inr (Or.inl ⟨w, hne, he.symm⟩)))
        · obtain ⟨w, -, hw⟩ := List.exists_of_findSome?_eq_some ht
          exact Or.inr (Or.inr (Or.inr (Or.inr ⟨w, (after_timeOut hw).symm⟩)))

/-- The next thing that happens while a plant settles is an operation. -/
theorem exists_operation {m' : Plant ν} (h : m.next? = some m') (hc : ∀ w, m.careful w = true) :
    ∃ o, m.permits o = true ∧ m.after o = m' := by
  rcases next_cases h with ⟨w, he⟩ | he | he | ⟨w, hne, he⟩ | ⟨w, he⟩
  · exact ⟨.advance w, hc w, he.symm⟩
  · exact ⟨.recheck, rfl, he.symm⟩
  · exact ⟨.popTimer, rfl, he.symm⟩
  · exact ⟨.giveUp w, Bool.and_eq_true_iff.mpr ⟨hne, hc w⟩, he.symm⟩
  · exact ⟨.timeOut w, rfl, he.symm⟩

/-- A plant that settles carefully goes on by operations. -/
theorem Reaches.run {m₀ : Plant ν} : ∀ (fuel : Nat) {m : Plant ν}, Reaches m₀ m →
    (∀ k w, (m.run k).careful w = true) → Reaches m₀ (m.run fuel) := by
  intro fuel
  induction fuel with
  | zero => exact fun h _ => h
  | succ fuel ih =>
    intro m h hc
    cases hn : m.next? with
    | none =>
      rw [Plant.run, hn]
      exact h
    | some m' =>
      have hrun : ∀ k, m.run (k + 1) = m'.run k := by
        intro k
        rw [Plant.run, hn]
      obtain ⟨o, ho, he⟩ := exists_operation hn (hc 0)
      rw [hrun]
      refine ih (he ▸ h.operate o ho) fun k w => ?_
      rw [← hrun]
      exact hc (k + 1) w

theorem atRest_of_closeCheck {τ : Type} {q : Pool τ} {o : Pool.Outcome}
    (h : q.closeCheck = some o) : q.queued = 0 ∧ q.running = 0 := by
  unfold Pool.closeCheck Pool.atRest at h
  split at h
  case isTrue hr => simpa using hr
  case isFalse => cases h

/-- A close finds the pool at rest at some point of settling, or gives up. -/
theorem close_cases (m : Plant ν) (p : Nat) (timeout : Duration) :
    (∃ k o, (((m.beginClose p).run k).pool? p).bind Pool.closeCheck = some o ∧
      m.close p timeout = (some o, (m.beginClose p).run k)) ∨
    ∃ k, m.close p timeout = ((m.beginClose p).run k).terminate p := by
  unfold Plant.close
  dsimp only
  generalize hb : m.beginClose p = b
  cases ho : (b.pool? p).bind Pool.closeCheck with
  | some o => exact Or.inl ⟨0, o, ho, rfl⟩
  | none =>
    obtain ⟨k, hk⟩ : ∃ k, (if timeout.isZero = true then b else b.settle) = b.run k := by
      split
      · exact ⟨0, rfl⟩
      · exact ⟨b.bound, rfl⟩
    rw [hk]
    cases hr : ((b.run k).pool? p).bind Pool.closeCheck with
    | some o => exact Or.inl ⟨k, o, hr, rfl⟩
    | none => exact Or.inr ⟨k, rfl⟩

/-- A close that gives up does not report that it completed. -/
theorem completed_terminate {p : Nat} {o : Pool.Outcome} {m' : Plant ν}
    (h : m.terminate p = (some o, m')) : o.completed = false := by
  unfold terminate at h
  split at h
  case h_1 => cases h
  case h_2 q hq =>
    cases h
    rfl

/-- A pool at rest is done with all tasks, and so is one whose close reports that it completed. -/
theorem close_sound {cells : Cells} {configs : List Config} {m₀ m : Plant ν}
    (hb : build cells configs = .ok m₀) (h : Reaches m₀ m) (p : Nat) :
    (∀ q, m.pool? p = some q → q.queued = 0 → q.running = 0 → m.Clear p) ∧
    ∀ timeout o m', (∀ k w, ((m.beginClose p).run k).careful w = true) →
      m.close p timeout = (some o, m') → o.completed = true → m'.Clear p := by
  have hsteady := steady_build hb
  refine ⟨fun q hq hqueued hrunning => ?_, fun timeout o m' hc hclose hdone => ?_⟩
  · obtain ⟨us, hus⟩ := h.steady hsteady
    refine hus.clear fun q' hq' => ?_
    cases hq.symm.trans hq'
    exact ⟨hqueued, hrunning⟩
  · have hbegun : Reaches m₀ (m.beginClose p) := h.operate (.beginClose p) rfl
    rcases close_cases m p timeout with ⟨k, o', ho, he⟩ | ⟨m'', he⟩
    · obtain ⟨us, hus⟩ := (hbegun.run k hc).steady hsteady
      rw [he] at hclose
      cases hclose
      obtain ⟨q, hq, hqo⟩ := Option.bind_eq_some_iff.mp ho
      refine hus.clear fun q' hq' => ?_
      cases hq.symm.trans hq'
      exact atRest_of_closeCheck hqo
    · rw [he] at hclose
      rw [completed_terminate hclose] at hdone
      cases hdone

/-! ## Settled plants -/

/-- Nothing happens any more to a plant that has settled. -/
theorem run_of_settled (h : m.next? = none) (k : Nat) : m.run k = m := by
  cases k with
  | zero => rfl
  | succ k => rw [run, h]

theorem run_succ (m : Plant ν) (k : Nat) : m.run (k + 1) = (m.run 1).run k := by
  cases hn : m.next? with
  | none => rw [run_of_settled hn, run_of_settled hn, run_of_settled hn]
  | some m' =>
    have hone : m.run 1 = m' := by
      rw [run, hn]
      rfl
    rw [hone, run, hn]

/-- Where no worker runs a task, nothing careless can happen. -/
theorem careful_of_idle (hs : ∀ x ∈ m.threads, x.2.stack = [])
    (hp : ∀ q ∈ m.network.pools, ∀ x ∈ q.workers, x.phase.task? = none) (w : WorkerId) :
    m.careful w = true := by
  have hnil : (m.thread (.worker w)).stack = [] := by
    rcases m.thread_cases (.worker w) with ⟨x, hx, he⟩ | ⟨he, -⟩
    · rw [he]
      exact hs x hx
    · exact he
  unfold careful
  rw [hnil]
  split
  case h_1 j hj _ =>
    obtain ⟨q, x, hq, hx, hph⟩ := exists_of_phase? hj
    have hnone := hp q (List.mem_of_getElem? hq) x (List.mem_of_getElem? hx)
    rw [hph] at hnone
    cases hnone
  case h_2 he => cases he
  case h_3 => rfl

def afterAll (m : Plant ν) (os : List (Operation ν)) : Plant ν := os.foldl after m

def permitsAll (m : Plant ν) : List (Operation ν) → Bool
  | [] => true
  | o :: os => m.permits o && (m.after o).permitsAll os

theorem Reaches.afterAll {m₀ : Plant ν} (os : List (Operation ν)) :
    ∀ {m : Plant ν}, Reaches m₀ m → m.permitsAll os = true → Reaches m₀ (m.afterAll os) := by
  induction os with
  | nil => exact fun h _ => h
  | cons o os ih =>
    intro m h ho
    obtain ⟨ho, hos⟩ := Bool.and_eq_true_iff.mp ho
    exact ih (h.operate o ho) hos

/-- A plant with one pool of one worker. -/
def onePool : Plant Nat :=
  ({ network := {}, cells := fun _ => .unit } : Plant Nat).addPool (.ofConfig (.ofCore 1))

/-- Two tasks go to a view with one place, and the worker takes its turns until both are done. -/
def twoErrands : List (Operation Nat) :=
  let errand (id : String) : Operation Nat :=
    .perform (.launch .submit 1 .cpu id none (some [.finish 0]) false)
  .perform (.soft 0 1) :: errand "a" :: errand "b" :: List.replicate 5 (.advance ⟨0, 0⟩)

theorem close_sound_twoErrands :
    build (fun _ => .unit) [.ofCore 1] = .ok onePool ∧
    Reaches onePool (onePool.afterAll twoErrands) ∧ (onePool.afterAll twoErrands).Clear 0 ∧
    ((onePool.afterAll twoErrands).close 0 ⟨0, 0⟩).1 = some ⟨true, 0, 0⟩ ∧
    ((onePool.afterAll twoErrands).close 0 ⟨0, 0⟩).2.Clear 0 := by
  have hreach : Reaches onePool (onePool.afterAll twoErrands) :=
    Reaches.start.afterAll twoErrands (by decide)
  have hcareful : ∀ k w, (((onePool.afterAll twoErrands).beginClose 0).run k).careful w = true := by
    intro k
    cases k with
    | zero => exact careful_of_idle (by decide) (by decide)
    | succ k =>
      rw [run_succ, run_of_settled (Option.isNone_iff_eq_none.mp (by decide))]
      exact careful_of_idle (by decide) (by decide)
  have hclose : ((onePool.afterAll twoErrands).close 0 ⟨0, 0⟩).1 = some ⟨true, 0, 0⟩ := by decide
  have hbuild : build (fun _ => .unit) [.ofCore 1] = .ok onePool := rfl
  obtain ⟨hrest, hclosed⟩ := close_sound hbuild hreach 0
  refine ⟨hbuild, hreach, hrest _ rfl (by decide) (by decide), hclose, ?_⟩
  exact hclosed ⟨0, 0⟩ ⟨true, 0, 0⟩ _ hcareful (Prod.ext hclose rfl) rfl

end Plant

end Workforce
