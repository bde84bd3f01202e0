import Workforce.Plant.Unwind
import Workforce.Proofs.Network.Forwarding

/-
  The books of a plant. Frames of threads hold admissions of views and owe lowerings of limits. A
  guarded call owes what it raised: at once, or by a ticket whose deadline has passed. In a sound
  plant the network is sound, every limit covers what is owed besides the one place that a view
  always has, a ticket belongs to one guarded call, and the frames of a task that runs hold the
  admissions of its job.

  `hand` are frames that a thread has taken off its stack and is about to leave.
-/

namespace Workforce

variable {ν : Type}

/-! ## Frames -/

/-- The view that a frame holds an admission of. -/
def Frame.view? : Frame ν → Option View
  | .view v => some v
  | _ => none

/-- How often frames hold an admission of the view with a number. -/
def holds (i : Nat) (fs : List (Frame ν)) : Nat :=
  (fs.filterMap Frame.view?).countP fun v => v.id = i

/-- How often a compensator raises the limit of the view with a number. -/
def Compensator.raises (i : Nat) (c : Compensator) : Nat := c.views.countP fun v => v.id = i

/-- What becomes due with a ticket: a lowering, once it is resolved. -/
def Ticket.due (i : Nat) : Option (Ticket × Compensator) → Nat
  | some (.resolved, c) => c.raises i
  | _ => 0

/-- How often a guarded call will lower the limit of the view with a number. -/
def Debt.owes (tickets : List (Ticket × Compensator)) (i : Nat) : Debt → Nat
  | .nothing => 0
  | .lower c => c.raises i
  | .ticket t _ => Ticket.due i tickets[t]?

def Frame.owes (tickets : List (Ticket × Compensator)) (i : Nat) : Frame ν → Nat
  | .guard debt => debt.owes tickets i
  | _ => 0

/-- A frame carries a ticket. -/
def Frame.carries (t : Nat) : Frame ν → Nat
  | .guard (.ticket u _) => if u = t then 1 else 0
  | _ => 0

/-- A weight of guarded calls. -/
def GuardWeight (w : Frame ν → Nat) : Prop := ∀ f, (∀ debt, f ≠ .guard debt) → w f = 0

theorem guardWeight_owes (tickets : List (Ticket × Compensator)) (i : Nat) :
    GuardWeight (Frame.owes (ν := ν) tickets i) := by
  intro f hf
  cases f with
  | guard debt => exact absurd rfl (hf debt)
  | _ => rfl

theorem guardWeight_carries (t : Nat) : GuardWeight (Frame.carries (ν := ν) t) := by
  intro f hf
  cases f with
  | guard debt => exact absurd rfl (hf debt)
  | _ => rfl

/-- A scope is about views of a chart. -/
def ScopeOn (vs : List View) (s : Option TaskScope) : Prop :=
  ∀ c, Scope.compensator? s = some c → ∀ v ∈ c.views, v.On vs

/-- A frame is about views of a chart. -/
def Frame.On (vs : List View) : Frame ν → Prop
  | .view v => v.On vs
  | .scope previous => ScopeOn vs previous
  | .guard (.lower c) => ∀ v ∈ c.views, v.On vs
  | _ => True

theorem holds_cons (i : Nat) (f : Frame ν) (fs : List (Frame ν)) :
    holds i (f :: fs) =
      holds i fs + match f.view? with
        | some v => if v.id = i then 1 else 0
        | none => 0 := by
  unfold holds
  rw [List.filterMap_cons]
  cases f.view? with
  | none => rfl
  | some v =>
    rw [List.countP_cons]
    simp

theorem holds_cons_of_none (i : Nat) {f : Frame ν} (h : f.view? = none) (fs : List (Frame ν)) :
    holds i (f :: fs) = holds i fs := by
  rw [holds_cons, h]
  rfl

namespace Plant

/-! ## Threads -/

theorem thread_setThread (m : Plant ν) (a : Actor) (t : Thread ν) (b : Actor) :
    (m.setThread a t).thread b = if b = a then t else m.thread b := by
  unfold thread setThread
  by_cases h : b = a
  · subst h
    simp
  · have hab : ¬ a = b := fun he => h he.symm
    have hf : (m.threads.filter fun x => x.1 ≠ a).find? (fun t => decide (t.1 = b)) =
        m.threads.find? fun t => decide (t.1 = b) := by
      rw [List.find?_filter]
      congr 1
      funext x
      by_cases hx : x.1 = b
      · simp [hx, h]
      · simp [hx]
    rw [if_neg h]
    simp only [List.find?_cons, hab, decide_false, hf]

/-- The total weight of the frames of all threads. -/
def total (m : Plant ν) (w : Frame ν → Nat) : Nat :=
  (m.threads.map fun t => (t.2.stack.map w).sum).sum

/-- A thread that is replaced gives up the weight of its frames. -/
theorem total_setThread (m : Plant ν) (a : Actor) (t : Thread ν) (w : Frame ν → Nat) :
    (m.setThread a t).total w + ((m.thread a).stack.map w).sum ≤
      m.total w + (t.stack.map w).sum := by
  have hsplit : ∀ ts : List (Actor × Thread ν),
      ((ts.filter fun x => x.1 ≠ a).map fun t => (t.2.stack.map w).sum).sum +
          ((ts.find? fun t => t.1 = a).map fun t => (t.2.stack.map w).sum).getD 0 ≤
        (ts.map fun t => (t.2.stack.map w).sum).sum := by
    intro ts
    induction ts with
    | nil => exact Nat.le_refl 0
    | cons x ts ih =>
      by_cases hx : x.1 = a
      · have hle : ((ts.filter fun x => x.1 ≠ a).map fun t => (t.2.stack.map w).sum).sum ≤
            (ts.map fun t => (t.2.stack.map w).sum).sum := Nat.le_trans (Nat.le_add_right ..) ih
        simp only [List.filter_cons, List.find?_cons, hx, ne_eq, not_true_eq_false, decide_false,
          decide_true, Bool.false_eq_true, if_false, List.map_cons, List.sum_cons, Option.map_some,
          Option.getD_some] at hle ⊢
        omega
      · simp only [List.filter_cons, List.find?_cons, hx, ne_eq, not_false_eq_true, decide_false,
          decide_true, if_true, List.map_cons, List.sum_cons] at ih ⊢
        omega
  have hs := hsplit m.threads
  have hold : ((m.thread a).stack.map w).sum =
      ((m.threads.find? fun t => t.1 = a).map fun t => (t.2.stack.map w).sum).getD 0 := by
    unfold thread
    cases m.threads.find? fun t => decide (t.1 = a) <;> rfl
  rw [hold]
  unfold total setThread
  simp only [List.map_cons, List.sum_cons]
  omega

theorem total_le {m m' : Plant ν} (h : m'.threads = m.threads) {w w' u : Frame ν → Nat} {k : Nat}
    (hw : ∀ f, w' f ≤ w f + k * u f) : m'.total w' ≤ m.total w + k * m.total u := by
  have hstack : ∀ fs : List (Frame ν),
      (fs.map w').sum ≤ (fs.map w).sum + k * (fs.map u).sum := by
    intro fs
    induction fs with
    | nil => exact Nat.zero_le _
    | cons f fs ih =>
      have hf := hw f
      simp only [List.map_cons, List.sum_cons, Nat.mul_add]
      omega
  unfold total
  rw [h]
  induction m.threads with
  | nil => exact Nat.zero_le _
  | cons t ts ih =>
    have ht := hstack t.2.stack
    simp only [List.map_cons, List.sum_cons, Nat.mul_add]
    omega

theorem thread_cases (m : Plant ν) (a : Actor) :
    (∃ x ∈ m.threads, m.thread a = x.2) ∨
      ((m.thread a).stack = [] ∧ (m.thread a).scope = a.scope) := by
  unfold thread
  cases hf : m.threads.find? fun t => decide (t.1 = a) with
  | none => exact Or.inr ⟨rfl, rfl⟩
  | some x => exact Or.inl ⟨x, List.mem_of_find?_eq_some hf, rfl⟩

/-- A plant with the same threads has the same stacks and scopes. -/
theorem thread_congr {m m' : Plant ν} (h : m'.threads = m.threads) (a : Actor) :
    (m'.thread a).stack = (m.thread a).stack ∧ (m'.thread a).scope = (m.thread a).scope := by
  unfold thread
  rw [h]
  cases m.threads.find? fun t => decide (t.1 = a) <;> exact ⟨rfl, rfl⟩

theorem mem_setThread {m : Plant ν} {a : Actor} {t : Thread ν} {x : Actor × Thread ν}
    (h : x ∈ (m.setThread a t).threads) : x = (a, t) ∨ x ∈ m.threads := by
  rcases List.mem_cons.mp h with rfl | h
  · exact Or.inl rfl
  · exact Or.inr (List.mem_filter.mp h).1

/-! ## Changes beside the books -/

/-- Nothing changed but records of tasks, timers, closes and logs. -/
structure Still (m m' : Plant ν) : Prop where
  network : m'.network = m.network
  threads : m'.threads = m.threads
  tickets : m'.tickets = m.tickets
  dispatchers : m'.dispatchers = m.dispatchers

theorem Still.trans {m m' m'' : Plant ν} (h : Still m m') (h' : Still m' m'') : Still m m'' :=
  ⟨h'.network.trans h.network, h'.threads.trans h.threads, h'.tickets.trans h.tickets,
    h'.dispatchers.trans h.dispatchers⟩

theorem still_onTask (m : Plant ν) (t : Nat) (f : TaskRecord ν → TaskRecord ν) :
    Still m (m.onTask t f) := ⟨rfl, rfl, rfl, rfl⟩

theorem still_discard (m : Plant ν) (t : Task ν) : Still m (m.discard t) := by
  unfold discard
  dsimp only
  split
  · exact ⟨rfl, rfl, rfl, rfl⟩
  · exact ⟨rfl, rfl, rfl, rfl⟩

/-- Dropped tasks are accounted for in their records. -/
theorem still_withNetwork (m : Plant ν) (n : Network (Task ν)) :
    Still { m with network := { n with dropped := [] } } (m.withNetwork n) := by
  unfold withNetwork
  generalize ({ m with network := { n with dropped := [] } } : Plant ν) = m'
  induction n.dropped generalizing m' with
  | nil => exact ⟨rfl, rfl, rfl, rfl⟩
  | cons j js ih => exact (still_discard m' j.task).trans (ih (m'.discard j.task))

/-- Workers run the same tasks, and all stacks are as they were. -/
structure Aside (m m' : Plant ν) : Prop where
  calm : m.network.Calm m'.network
  stack : ∀ a, (m'.thread a).stack = (m.thread a).stack

theorem Aside.refl (m : Plant ν) : Aside m m := ⟨Network.Calm.refl _, fun _ => rfl⟩

theorem Aside.trans {m m' m'' : Plant ν} (h : Aside m m') (h' : Aside m' m'') : Aside m m'' :=
  ⟨h.calm.trans h'.calm, fun a => (h'.stack a).trans (h.stack a)⟩

theorem Still.aside {m m' : Plant ν} (h : Still m m') : Aside m m' :=
  ⟨h.network ▸ Network.Calm.refl _, fun a => (thread_congr h.threads a).1⟩

theorem aside_withNetwork {m : Plant ν} {n : Network (Task ν)} (hc : m.network.Calm n) :
    Aside m (m.withNetwork n) := by
  have hs := still_withNetwork m n
  refine Aside.trans ⟨?_, fun a => ?_⟩ hs.aside
  · exact ⟨hc.pools, hc.gates, hc.task, hc.running⟩
  · exact (thread_congr rfl a).1

/-! ## Sound plants -/

/-- The network is sound, limits cover what is owed, and frames hold what jobs passed. -/
structure Sound (vs : List View) (m : Plant ν) (hand : List (Frame ν)) (out : Nat → Nat) :
    Prop where
  network : m.network.Sound vs out
  settled : ∀ i, m.network.SettledAt i
  limits : ∀ i, i < m.network.gates.length →
    1 + m.total (Frame.owes m.tickets i) + (hand.map (Frame.owes m.tickets i)).sum ≤
      m.network.limitOf i
  tickets : ∀ t, m.total (Frame.carries t) + (hand.map (Frame.carries t)).sum ≤
    if t < m.tickets.length then 1 else 0
  compensators : ∀ x ∈ m.tickets, ∀ v ∈ x.2.views, v.On vs
  frames : ∀ x ∈ m.threads, ∀ f ∈ x.2.stack, f.On vs
  inHand : ∀ f ∈ hand, f.On vs
  scopes : ∀ x ∈ m.threads, ScopeOn vs x.2.scope
  dispatchers : ∀ d, some d ∈ m.dispatchers → d.Leads vs m.network.pools.length
  linked : ∀ w, (m.thread (.worker w)).stack = [] ∨ ∃ j, m.network.taskAt w = some j ∧
    ∀ i, holds i (m.thread (.worker w)).stack = j.passes i

variable {vs : List View} {m m' : Plant ν} {hand : List (Frame ν)} {out : Nat → Nat}

theorem Sound.still (h : m.Sound vs hand out) (hs : Still m m') : m'.Sound vs hand out := by
  have ht : ∀ w, m'.total w = m.total w := by
    intro w
    unfold total
    rw [hs.threads]
  refine ⟨?_, ?_, ?_, ?_, ?_, ?_, h.inHand, ?_, ?_, ?_⟩
  · rw [hs.network]
    exact h.network
  · rw [hs.network]
    exact h.settled
  · intro i hi
    rw [hs.network] at hi ⊢
    rw [ht, hs.tickets]
    exact h.limits i hi
  · intro t
    rw [ht, hs.tickets]
    exact h.tickets t
  · rw [hs.tickets]
    exact h.compensators
  · rw [hs.threads]
    exact h.frames
  · rw [hs.threads]
    exact h.scopes
  · rw [hs.dispatchers, hs.network]
    exact h.dispatchers
  · intro w
    rw [(thread_congr hs.threads _).1, hs.network]
    exact h.linked w

theorem Sound.scope (h : m.Sound vs hand out) (a : Actor) : ScopeOn vs (m.thread a).scope := by
  rcases m.thread_cases a with ⟨x, hx, he⟩ | ⟨-, hs⟩
  · rw [he]
    exact h.scopes x hx
  · rw [hs]
    intro c hc v hv
    cases a with
    | controller => cases hc
    | worker w =>
      cases hc
      cases hv

theorem Sound.stack (h : m.Sound vs hand out) (a : Actor) : ∀ f ∈ (m.thread a).stack, f.On vs := by
  rcases m.thread_cases a with ⟨x, hx, he⟩ | ⟨hs, -⟩
  · rw [he]
    exact h.frames x hx
  · rw [hs]
    intro f hf
    cases hf

/-- The network, the states of tickets and the frames in hand were replaced. Workers run the same
tasks, tickets are in no more hands, and limits cover what is owed now. -/
theorem Sound.replace (h : m.Sound vs hand out) {tickets : List (Ticket × Compensator)}
    (hlen : tickets.length = m.tickets.length)
    (hviews : ∀ x ∈ tickets, ∀ v ∈ x.2.views, v.On vs) {n : Network (Task ν)}
    {out' : Nat → Nat} (hn : n.Sound vs out') (hset : ∀ i, n.SettledAt i)
    (hc : m.network.Calm n) {hand' : List (Frame ν)} (hon : ∀ f ∈ hand', f.On vs)
    (hcarry : ∀ t, (hand'.map (Frame.carries t)).sum ≤ (hand.map (Frame.carries t)).sum)
    (hl : ∀ i, i < m.network.gates.length →
      1 + m.total (Frame.owes tickets i) + (hand'.map (Frame.owes tickets i)).sum ≤
        n.limitOf i) : ({ m with tickets, network := n } : Plant ν).Sound vs hand' out' := by
  refine ⟨hn, hset, fun i hi => hl i (hc.gates ▸ hi), fun t => ?_, hviews, h.frames,
    hon, h.scopes, ?_, ?_⟩
  · have ht := h.tickets t
    have hle := hcarry t
    show m.total (Frame.carries t) + _ ≤ if t < tickets.length then 1 else 0
    rw [hlen]
    omega
  · intro d hd
    have hlead := h.dispatchers d hd
    rw [← hc.pools] at hlead
    exact hlead
  · intro w
    rcases h.linked w with hw | ⟨j, hj, hi⟩
    · exact Or.inl hw
    · exact Or.inr ⟨j, (hc.task w).trans hj, hi⟩

/-- The same, where tasks that the network dropped are accounted for. -/
theorem Sound.update (h : m.Sound vs hand out) {tickets : List (Ticket × Compensator)}
    (hlen : tickets.length = m.tickets.length)
    (hviews : ∀ x ∈ tickets, ∀ v ∈ x.2.views, v.On vs) {n : Network (Task ν)}
    {out' : Nat → Nat} (hn : n.Sound vs out') (hset : ∀ i, n.SettledAt i)
    (hc : m.network.Calm n) {hand' : List (Frame ν)} (hon : ∀ f ∈ hand', f.On vs)
    (hcarry : ∀ t, (hand'.map (Frame.carries t)).sum ≤ (hand.map (Frame.carries t)).sum)
    (hl : ∀ i, i < m.network.gates.length →
      1 + m.total (Frame.owes tickets i) + (hand'.map (Frame.owes tickets i)).sum ≤
        n.limitOf i) : ({ m with tickets }.withNetwork n).Sound vs hand' out' := by
  have hn' : ({ n with dropped := [] } : Network (Task ν)).Sound vs out' :=
    ⟨hn.size, hn.chart, hn.healthy, hn.pooled, hn.gated, hn.tally⟩
  have hc' : m.network.Calm { n with dropped := [] } := ⟨hc.pools, hc.gates, hc.task, hc.running⟩
  exact (h.replace hlen hviews hn' hset hc' hon hcarry hl).still
    (still_withNetwork { m with tickets } n)

/-- The frames in hand were exchanged for others that owe and carry no more. -/
theorem Sound.exchange (h : m.Sound vs hand out) {hand' : List (Frame ν)}
    (hon : ∀ f ∈ hand', f.On vs)
    (hcarry : ∀ t, (hand'.map (Frame.carries t)).sum ≤ (hand.map (Frame.carries t)).sum)
    (howes : ∀ i, (hand'.map (Frame.owes m.tickets i)).sum ≤
      (hand.map (Frame.owes m.tickets i)).sum) : m.Sound vs hand' out :=
  h.replace rfl h.compensators h.network h.settled (Network.Calm.refl _) hon hcarry fun i hi =>
    Nat.le_trans (Nat.add_le_add_left (howes i) _) (h.limits i hi)

/-- The first frame in hand is put away. -/
theorem Sound.putAway {f : Frame ν} (h : m.Sound vs (f :: hand) out) : m.Sound vs hand out :=
  h.exchange (fun g hg => h.inHand g (List.mem_cons_of_mem f hg)) (fun _ => Nat.le_add_left ..)
    fun _ => Nat.le_add_left ..

/-- The network was replaced by a sound one where workers run the same tasks. -/
theorem Sound.withNetwork (h : m.Sound vs hand out) {n : Network (Task ν)} {out' : Nat → Nat}
    (hn : n.Sound vs out') (hset : ∀ i, n.SettledAt i) (hc : m.network.Calm n)
    (hl : ∀ i, i < m.network.gates.length →
      1 + m.total (Frame.owes m.tickets i) + (hand.map (Frame.owes m.tickets i)).sum ≤
        n.limitOf i) : (m.withNetwork n).Sound vs hand out' :=
  h.update rfl h.compensators hn hset hc h.inHand (fun _ => Nat.le_refl _) hl

/-- The network was replaced by a sound one with the same limits. -/
theorem Sound.keeps (h : m.Sound vs hand out) {n : Network (Task ν)} {out' : Nat → Nat}
    (hn : n.Sound vs out') (hset : ∀ i, n.SettledAt i) (hk : m.network.Keeps n) :
    (m.withNetwork n).Sound vs hand out' :=
  h.withNetwork hn hset hk.toCalm fun i hi => hk.limit i ▸ h.limits i hi

/-! ## Threads and stacks -/

/-- A thread was replaced. Frames went from its stack to the hand or the other way round. -/
theorem Sound.setThread (h : m.Sound vs hand out) {a : Actor} {t : Thread ν}
    {hand' : List (Frame ν)} (hscope : ScopeOn vs t.scope) (hframes : ∀ f ∈ t.stack, f.On vs)
    (hhand : ∀ f ∈ hand', f.On vs)
    (hsum : ∀ w : Frame ν → Nat, GuardWeight w → (t.stack.map w).sum + (hand'.map w).sum ≤
      ((m.thread a).stack.map w).sum + (hand.map w).sum)
    (hlinked : ∀ w, a = .worker w → t.stack = [] ∨ ∃ j, m.network.taskAt w = some j ∧
      ∀ i, holds i t.stack = j.passes i) : (m.setThread a t).Sound vs hand' out := by
  refine ⟨h.network, h.settled, fun i hi => ?_, fun k => ?_, h.compensators, ?_, hhand, ?_,
    h.dispatchers, fun w => ?_⟩
  · have hl := h.limits i hi
    have ht := m.total_setThread a t (Frame.owes m.tickets i)
    have hs := hsum _ (guardWeight_owes m.tickets i)
    show 1 + (m.setThread a t).total (Frame.owes m.tickets i) +
      (hand'.map (Frame.owes m.tickets i)).sum ≤ m.network.limitOf i
    omega
  · have hk := h.tickets k
    have ht := m.total_setThread a t (Frame.carries k)
    have hs := hsum _ (guardWeight_carries k)
    show _ ≤ if k < m.tickets.length then 1 else 0
    omega
  · intro x hx
    rcases mem_setThread hx with rfl | hx
    · exact hframes
    · exact h.frames x hx
  · intro x hx
    rcases mem_setThread hx with rfl | hx
    · exact hscope
    · exact h.scopes x hx
  · rw [thread_setThread]
    split
    case isTrue hw => exact hlinked w hw.symm
    case isFalse => exact h.linked w

end Plant

end Workforce
