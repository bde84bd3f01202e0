import Mathlib.Data.List.Induction
import Workforce.Proofs.Network.Chart

/-
  The order of admission at one gate. The threads that act on a gate take its lock for one section
  at a time, and between two sections of one thread come any of the others: the loop that admits
  waiting tasks lets go of the lock for every task that it hands on. A diary notes the tasks that
  the gate accepted and those that got a place.

  `admitted_in_order`: after any sections in any order, a task waits only if all places are taken,
  the tasks that wait are those accepted last, and the gate has never had more tasks running than
  its largest limit so far.

  A place that is given back although none is taken is an overflow under the lock. `Gate.release`
  keeps the count at zero then, and the diary is marked: a thread that checks for overflows ends
  there, and nobody gets the lock any more. What holds after all sections holds up to that point.
-/

namespace Workforce.Gate

variable {τ : Type}

/-- A locked section of a gate. -/
inductive Section (τ : Type) where
  /-- A task is submitted while the pool below is open or closed. -/
  | submit (closed : Bool) (t : τ)
  /-- A task arrives that a gate above accepted earlier. -/
  | forward (t : τ)
  /-- The lock is taken again after a task was handed on. -/
  | next
  /-- A task ended, or the lock is taken again after a task was rejected below. -/
  | release
  | raise
  | lower

/-- A section changes the limit. -/
def Section.moves : Section τ → Bool
  | .raise => true
  | .lower => true
  | _ => false

/-- A gate and what it did so far. -/
structure Diary (τ : Type) where
  gate : Gate τ
  /-- The tasks that got a place or were queued, oldest first. -/
  accepted : List τ := []
  /-- The tasks that got a place, oldest first. -/
  admitted : List τ := []
  /-- A place was given back although none was taken. -/
  poisoned : Bool := false

namespace Diary

/-- The diary of a new gate. -/
def start (limit : Nat) : Diary τ := { gate := { limit } }

/-- A task is offered. -/
def arrive (d : Diary τ) (closed : Bool) (t : τ) : Diary τ :=
  match d.gate.offer closed t with
  | (.admitted, g) =>
    { d with gate := g, accepted := d.accepted ++ [t], admitted := d.admitted ++ [t] }
  | (.queued, g) => { d with gate := g, accepted := d.accepted ++ [t] }
  | (.refused, _) => d

/-- A gate that has changed admits a waiting task if it can. -/
def settle (d : Diary τ) (g : Gate τ) : Diary τ :=
  match g.admitNext with
  | some (t, g) => { d with gate := g, admitted := d.admitted ++ [t] }
  | none => { d with gate := g }

def step (d : Diary τ) : Section τ → Diary τ
  | .submit closed t => d.arrive closed t
  | .forward t => d.arrive false t
  | .next => d.settle d.gate
  | .release =>
    { d with poisoned := d.poisoned || d.gate.running == 0 }.settle d.gate.release
  | .raise => d.settle d.gate.raise
  | .lower => { d with gate := d.gate.lower }

def run (d : Diary τ) (ss : List (Section τ)) : Diary τ := ss.foldl step d

theorem run_append (d : Diary τ) (ss ts : List (Section τ)) :
    d.run (ss ++ ts) = (d.run ss).run ts :=
  List.foldl_append

theorem run_append_singleton (d : Diary τ) (ss : List (Section τ)) (s : Section τ) :
    d.run (ss ++ [s]) = (d.run ss).step s :=
  List.foldl_append

/-! ## One section -/

/-- What a section does: a task arrives, the gate changes by one place at most and admits a
waiting task, or the limit falls. A place that is given back although none is taken marks the
diary. -/
inductive Steps (d : Diary τ) : Section τ → Diary τ → Prop
  | arrives {s : Section τ} (closed : Bool) (t : τ) : Steps d s (d.arrive closed t)
  | settles {s : Section τ} (marked : Bool) (g : Gate τ) (hq : g.queue = d.gate.queue)
    (hrun : g.running ≤ d.gate.running)
    (hone : d.gate.limit ≤ d.gate.running → g.limit ≤ g.running + 1)
    (hl : s.moves = false → g.limit = d.gate.limit)
    (hm : marked = true → d.poisoned = true ∨ (s = .release ∧ d.gate.running = 0)) :
    Steps d s ({ d with poisoned := marked }.settle g)
  | lowers : Steps d .lower { d with gate := d.gate.lower }

theorem steps (d : Diary τ) (s : Section τ) : Steps d s (d.step s) := by
  cases s with
  | submit closed t => exact .arrives closed t
  | forward t => exact .arrives false t
  | next => exact .settles _ d.gate rfl (Nat.le_refl _) Nat.le_succ_of_le (fun _ => rfl) .inl
  | release =>
    refine .settles _ d.gate.release rfl (Nat.sub_le ..) (fun hle => ?_) (fun _ => rfl) fun hm => ?_
    · show d.gate.limit ≤ d.gate.running - 1 + 1
      omega
    · rcases Bool.or_eq_true_iff.mp hm with hp | hz
      · exact .inl hp
      · exact .inr ⟨rfl, beq_iff_eq.mp hz⟩
  | raise => exact .settles _ d.gate.raise rfl (Nat.le_refl _) Nat.succ_le_succ nofun .inl
  | lower => exact .lowers

theorem arrive_poisoned (d : Diary τ) (closed : Bool) (t : τ) :
    (d.arrive closed t).poisoned = d.poisoned := by
  unfold arrive
  split <;> rfl

theorem settle_poisoned (d : Diary τ) (g : Gate τ) : (d.settle g).poisoned = d.poisoned := by
  unfold settle
  split <;> rfl

/-- Only a place given back although none is taken is an overflow. -/
theorem overflow_cases {d : Diary τ} (h : d.poisoned = false) {s : Section τ}
    (hs : (d.step s).poisoned = true) : s = .release ∧ d.gate.running = 0 := by
  have hsteps := steps d s
  generalize d.step s = d' at hsteps hs
  cases hsteps with
  | arrives closed t => cases h.symm.trans ((arrive_poisoned d closed t).symm.trans hs)
  | settles marked g _ _ _ _ hm =>
    rcases hm ((settle_poisoned _ g).symm.trans hs) with hp | hz
    · cases h.symm.trans hp
    · exact hz
  | lowers => cases h.symm.trans hs

/-- Tasks wait only if all places are taken, and those that wait were accepted last. -/
structure InOrder (d : Diary τ) : Prop where
  settled : d.gate.Settled
  order : d.accepted = d.admitted ++ d.gate.queue

/-- No more tasks than before run, or no more than the limit allows. -/
def Within (d d' : Diary τ) : Prop :=
  d'.gate.running ≤ d.gate.running ∨ d'.gate.running ≤ d'.gate.limit

theorem within_self (d : Diary τ) : Within d d := .inl (Nat.le_refl _)

/-- Who finds a place free finds nobody waiting. -/
theorem InOrder.queue_eq_nil {d : Diary τ} (h : d.InOrder) (hlt : d.gate.running < d.gate.limit) :
    d.gate.queue = [] := by
  by_contra hq
  have hle := h.settled hq
  omega

theorem arrive_inOrder {d : Diary τ} (h : d.InOrder) (closed : Bool) (t : τ) :
    (d.arrive closed t).InOrder ∧ Within d (d.arrive closed t) := by
  unfold arrive
  rcases offer_cases d.gate closed t with ⟨hlt, ho⟩ | ⟨hle, -, ho⟩ | ⟨hle, -, ho⟩
  · rw [ho]
    have hq := h.queue_eq_nil hlt
    refine ⟨⟨fun hn => absurd hq hn, ?_⟩, .inr hlt⟩
    show d.accepted ++ [t] = d.admitted ++ [t] ++ d.gate.queue
    rw [h.order, hq, List.append_nil, List.append_nil]
  · rw [ho]
    exact ⟨h, within_self d⟩
  · rw [ho]
    refine ⟨⟨fun _ => hle, ?_⟩, .inl (Nat.le_refl _)⟩
    show d.accepted ++ [t] = d.admitted ++ (d.gate.queue ++ [t])
    rw [h.order, List.append_assoc]

/-- A change that frees one place at most is made up for by admitting one task. -/
theorem settle_inOrder {d : Diary τ} (h : d.InOrder) {g : Gate τ} (hq : g.queue = d.gate.queue)
    (hone : d.gate.limit ≤ d.gate.running → g.limit ≤ g.running + 1)
    (hrun : g.running ≤ d.gate.running) :
    (d.settle g).InOrder ∧ Within d (d.settle g) := by
  unfold settle
  rcases admitNext_cases g with ⟨hn, hs⟩ | ⟨t, rest, hgq, hlt, hn⟩
  · rw [hn]
    refine ⟨⟨hs, ?_⟩, .inl hrun⟩
    show d.accepted = d.admitted ++ g.queue
    rw [hq, h.order]
  · rw [hn]
    rw [hq] at hgq
    have hfull : d.gate.limit ≤ d.gate.running := h.settled (by rw [hgq]; nofun)
    refine ⟨⟨fun _ => hone hfull, ?_⟩, .inr hlt⟩
    show d.accepted = d.admitted ++ [t] ++ rest
    rw [h.order, hgq, List.append_assoc]
    rfl

theorem step_inOrder {d : Diary τ} (h : d.InOrder) (s : Section τ) :
    (d.step s).InOrder ∧ Within d (d.step s) := by
  have hsteps := steps d s
  generalize d.step s = d' at hsteps
  cases hsteps with
  | arrives closed t => exact arrive_inOrder h closed t
  | settles marked g hq hrun hone =>
    have hmarked : ({ d with poisoned := marked } : Diary τ).InOrder := ⟨h.settled, h.order⟩
    exact settle_inOrder hmarked hq hone hrun
  | lowers =>
    refine ⟨⟨fun hq => ?_, h.order⟩, .inl (Nat.le_refl _)⟩
    exact Nat.le_trans (Nat.sub_le ..) (h.settled hq)

/-! ## All sections -/

theorem inOrder_run (limit : Nat) (ss : List (Section τ)) :
    ((start limit : Diary τ).run ss).InOrder ∧ ∃ us, us <+: ss ∧
      ((start limit : Diary τ).run ss).gate.running ≤ ((start limit).run us).gate.limit := by
  -- induction on the number of sections
  induction ss using List.reverseRecOn with
  | nil => exact ⟨⟨fun hq => absurd rfl hq, rfl⟩, [], List.prefix_refl _, Nat.zero_le _⟩
  | append_singleton ss s ih =>
    obtain ⟨ho, us, hus, hle⟩ := ih
    obtain ⟨hs, hw⟩ := step_inOrder ho s
    rw [run_append_singleton]
    refine ⟨hs, ?_⟩
    rcases hw with hw | hw
    · exact ⟨us, hus.trans (List.prefix_append ..), Nat.le_trans hw hle⟩
    · exact ⟨ss ++ [s], List.prefix_refl _, by rw [run_append_singleton]; exact hw⟩

/-! ## Places -/

theorem arrive_admitted {d : Diary τ} (h : d.gate.running < d.gate.limit) (closed : Bool) (t : τ) :
    (d.arrive closed t).admitted = d.admitted ++ [t] := by
  unfold arrive offer
  rw [if_pos h]

theorem settle_admitted (d : Diary τ) {g : Gate τ} {t : τ} {rest : List τ} (hq : g.queue = t :: rest)
    (h : g.running < g.limit) : (d.settle g).admitted = d.admitted ++ [t] := by
  unfold settle admitNext
  rw [if_pos h, hq]

theorem step_admitted (d : Diary τ) (s : Section τ) : d.admitted <+: (d.step s).admitted := by
  have hsteps := steps d s
  generalize d.step s = d' at hsteps
  cases hsteps with
  | arrives closed t =>
    unfold arrive
    split
    · exact List.prefix_append ..
    · exact List.prefix_refl _
    · exact List.prefix_refl _
  | settles marked g =>
    unfold settle
    split
    · exact List.prefix_append ..
    · exact List.prefix_refl _
  | lowers => exact List.prefix_refl _

/-- What got a place is not forgotten. -/
theorem admitted_prefix_run (d : Diary τ) (ss : List (Section τ)) :
    d.admitted <+: (d.run ss).admitted := by
  induction ss generalizing d with
  | nil => exact List.prefix_refl _
  | cons s ss ih => exact (step_admitted d s).trans (ih (d.step s))

/-! ## Steady limits -/

theorem step_limit (d : Diary τ) {s : Section τ} (h : s.moves = false) :
    (d.step s).gate.limit = d.gate.limit := by
  have hsteps := steps d s
  generalize d.step s = d' at hsteps
  cases hsteps with
  | arrives closed t =>
    unfold arrive
    rcases offer_cases d.gate closed t with ⟨-, ho⟩ | ⟨-, -, ho⟩ | ⟨-, -, ho⟩ <;> rw [ho]
  | settles marked g _ _ _ hl =>
    refine Eq.trans ?_ (hl h)
    unfold settle
    rcases admitNext_cases g with ⟨hn, -⟩ | ⟨t, rest, -, -, hn⟩ <;> rw [hn]
  | lowers => cases h

/-- A limit that nobody raises or lowers stays. -/
theorem limit_run (d : Diary τ) {ss : List (Section τ)} (h : ∀ s ∈ ss, s.moves = false) :
    (d.run ss).gate.limit = d.gate.limit := by
  induction ss generalizing d with
  | nil => rfl
  | cons s ss ih =>
    have hs := step_limit d (h s List.mem_cons_self)
    exact (ih (d.step s) fun t ht => h t (List.mem_cons_of_mem s ht)).trans hs

/-- At a gate with a steady limit no more tasks run than that. -/
theorem running_le_limit (limit : Nat) {ss : List (Section τ)} (h : ∀ s ∈ ss, s.moves = false) :
    ((start limit : Diary τ).run ss).gate.running ≤ limit := by
  obtain ⟨-, us, hus, hle⟩ := inOrder_run limit ss
  rw [limit_run _ fun s hs => h s (hus.subset hs)] at hle
  exact hle

/-! ## Order -/

/-- Whatever sections threads perform at a gate: a task waits only if all places are taken, places
are given in the order in which tasks were accepted, and no more tasks run than the largest limit
so far allows. -/
theorem admitted_in_order (limit : Nat) (ss : List (Section τ)) :
    let d := (start limit).run ss
    (d.gate.queue ≠ [] → d.gate.limit ≤ d.gate.running) ∧
      d.accepted = d.admitted ++ d.gate.queue ∧
      ∃ us, us <+: ss ∧ d.gate.running ≤ ((start limit).run us).gate.limit := by
  intro d
  obtain ⟨ho, hpeak⟩ := inOrder_run limit ss
  exact ⟨ho.settled, ho.order, hpeak⟩

end Diary

end Workforce.Gate
