import Mathlib.Algebra.Order.BigOperators.Group.List
import Mathlib.Algebra.Order.Group.Nat
import Workforce.Proofs.Pool.Parallelism
import Workforce.Proofs.Pool.Slots
import Workforce.Proofs.Traffic.Performs

/-
  Who may touch the slot of a worker. A worker that runs a task is driven by one thread, the one
  with the body of the task (`Seated.driven`). Only this thread places tasks into the slot of the
  worker or flushes it, and only as the next thing that it does in the middle of the body
  (`Seated.tidy`). So nobody else comes between the two sections of a tail submission: as long as a
  displaced task still has to be queued, the task that displaced it is in the slot
  (`Seated.slot_of_requeue`).
-/

namespace Workforce

variable {τ : Type}

namespace Chore

/-- The chore is the body of a worker, or its end. -/
def drives (w : Nat) : Chore τ → Bool
  | .body u _ => u = w
  | .finish u _ _ => u = w
  | _ => false

/-- The chore is about the slot of the worker whose body is below it. -/
def atSlot : Chore τ → Bool
  | .submit _ _ slot => slot.isSome
  | .requeue .. => true
  | .flush _ => true
  | _ => false

/-- The slot that the chore is about is the slot of this worker. A displaced task was displaced by
what is there now. -/
def Claims (p : Pool (Job τ)) (w : Nat) : Chore τ → Prop
  | .submit _ _ slot => slot = some w
  | .requeue _ j => p.slotOf? w = some j
  | .flush u => u = w
  | _ => True

/-- The chore may change what is in the slot of a worker. -/
def touches (w : Nat) : Chore τ → Bool
  | .submit _ _ slot => slot = some w
  | .flush u => u = w
  | .finish u _ _ => u = w
  | _ => false

end Chore

namespace Traffic

/-- A thread is about a slot in its next chore only, in the middle of a body of that worker. -/
structure Tidy (p : Pool (Job τ)) (cs : List (Chore τ)) : Prop where
  top : ∀ c rest, cs = c :: rest → c.atSlot = true →
    ∃ w b below, rest = .body w b :: below ∧ c.Claims p w
  below : ∀ c ∈ cs.tail, c.atSlot = false

/-- How many chores of threads drive a worker. -/
def driversIn (w : Nat) (ts : List (List (Chore τ))) : Nat :=
  (ts.map (List.countP (Chore.drives w))).sum

/-- Workers that run a task are driven by one chore at most, and others by none. -/
def Driven (s : Traffic τ) : Prop :=
  ∀ w, driversIn w s.threads ≤ if (s.pool.taskOf? w).isSome then 1 else 0

/-- Every worker has its thread, and no other thread is about its slot. -/
structure Seated (s : Traffic τ) : Prop where
  driven : s.Driven
  tidy : ∀ cs ∈ s.threads, Tidy s.pool cs

/-! ## Counting drivers -/

theorem driversIn_append (w : Nat) (ts : List (List (Chore τ))) (cs : List (Chore τ)) :
    driversIn w (ts ++ [cs]) = driversIn w ts + cs.countP (Chore.drives w) := by
  simp [driversIn]

theorem driversIn_set {w : Nat} {ts : List (List (Chore τ))} {i : Nat} {cs : List (Chore τ)}
    (ds : List (Chore τ)) (h : ts[i]? = some cs) :
    driversIn w (ts.set i ds) + cs.countP (Chore.drives w) =
      driversIn w ts + ds.countP (Chore.drives w) :=
  sum_map_set _ ds h

theorem le_driversIn {w : Nat} {ts : List (List (Chore τ))} {cs : List (Chore τ)} (h : cs ∈ ts) :
    cs.countP (Chore.drives w) ≤ driversIn w ts :=
  List.le_sum_of_mem (List.mem_map_of_mem h)

theorem countP_drives_turnChores (w u : Nat) (r : Pool.Turn (Job τ)) :
    (turnChores u r).countP (Chore.drives w) =
      if u = w then if r.started.isSome then 1 else 0 else 0 := by
  cases r with
  | runs j => simp [turnChores, Chore.drives, Pool.Turn.started, List.countP_singleton]
  | rests => simp [turnChores, Pool.Turn.started]
  | leaves o => simp [turnChores, Pool.Turn.started]

theorem atSlot_turnChores (u : Nat) (r : Pool.Turn (Job τ)) :
    ∀ e ∈ turnChores u r, e.atSlot = false := by
  cases r <;> simp [turnChores, Chore.atSlot]

theorem countP_drives_releases (w : Nat) (vs : List View) :
    (vs.map Chore.release : List (Chore τ)).countP (Chore.drives w) = 0 := by
  simp [Function.comp_def, Chore.drives]

theorem countP_drives_raises (s : Traffic τ) (w : Nat) (u : Option Nat) (vs : List Nat) :
    (s.raises u vs).countP (Chore.drives w) = 0 ∧ (s.lowers u vs).countP (Chore.drives w) = 0 := by
  simp [raises, lowers, Chore.drives, Function.comp_def]

theorem atSlot_raises (s : Traffic τ) (u : Option Nat) (vs : List Nat) :
    (∀ c ∈ s.raises u vs, c.atSlot = false) ∧ ∀ c ∈ s.lowers u vs, c.atSlot = false := by
  constructor <;> intro c hc <;> rcases List.mem_append.mp hc with hc | hc <;>
    · obtain ⟨v, -, rfl⟩ := List.mem_map.mp hc
      rfl

variable [Kinded τ] {s : Traffic τ}

/-- A chore leaves drivers behind where it was one, and no more than the worker then runs. -/
theorem Performs.drives {c : Chore τ} {d : Deed τ} (h : Performs s c d) (w : Nat) :
    (d.todo.countP (Chore.drives w) ≤ (if c.drives w then 1 else 0) ∧
        d.pool.taskOf? w = s.pool.taskOf? w) ∨
      (c.drives w = true ∧
        d.todo.countP (Chore.drives w) ≤ if (d.pool.taskOf? w).isSome then 1 else 0) := by
  cases h with
  | idle => exact Or.inl ⟨Nat.le_of_eq (List.countP_singleton), rfl⟩
  | accepted ha => exact Or.inl ⟨Nat.zero_le _, (Pool.gains_accept ha).task w⟩
  | placed => exact Or.inl ⟨Nat.zero_le _, Pool.taskOf?_place s.pool _ _ w⟩
  | displaced => exact Or.inl ⟨Nat.zero_le _, Pool.taskOf?_place s.pool _ _ w⟩
  | refused => exact Or.inl ⟨by rw [refuse, countP_drives_releases]; exact Nat.zero_le _, rfl⟩
  | requeued ha => exact Or.inl ⟨Nat.zero_le _, (Pool.gains_accept ha).task w⟩
  | cut => exact Or.inl ⟨by rw [countP_drives_releases]; exact Nat.zero_le _, rfl⟩
  | handed ha =>
    refine Or.inl ⟨?_, (Pool.gains_submitAccepted ha).task w⟩
    simp [taken, Chore.drives, Function.comp_def]
  | waitsAgain => exact Or.inl ⟨by simp [taken, Chore.drives, Function.comp_def], rfl⟩
  | discarded =>
    exact Or.inl ⟨by rw [discard, countP_drives_releases]; exact Nat.zero_le _, rfl⟩
  | raisedWorker u => exact Or.inl ⟨Nat.zero_le _, (Pool.sameHands_raise s.pool u).task w⟩
  | loweredWorker u => exact Or.inl ⟨Nat.zero_le _, (Pool.sameHands_lower s.pool u).task w⟩
  | @flushed u x hw hr =>
    have hrun : (s.pool.taskOf? u).isSome = true := by
      rw [Pool.taskOf?_eq hw]
      exact hr
    exact Or.inl ⟨Nat.zero_le _, (Pool.gains_flush hrun).task w⟩
  | @finished u outcome x j hw hr =>
    have ht := (Pool.turns_finish hw hr).task
    rw [countP_drives_turnChores]
    by_cases he : u = w
    · refine Or.inr ⟨decide_eq_true he, Nat.le_of_eq ?_⟩
      rw [if_pos he, ht, if_pos he.symm]
    · refine Or.inl ⟨?_, ?_⟩
      · rw [if_neg he]
        exact Nat.zero_le _
      · rw [ht, if_neg (Ne.symm he)]
  | @died u outcome x j hw hr =>
    have hnone : (turnChores u (s.pool.die u (Kinded.kind j)).1).countP (Chore.drives w) = 0 := by
      rw [Pool.die_fst]
      rfl
    rw [hnone]
    by_cases he : u = w
    · exact Or.inr ⟨decide_eq_true he, Nat.zero_le _⟩
    · exact Or.inl ⟨Nat.zero_le _, Pool.taskOf?_die hw _ (Ne.symm he)⟩
  | _ => exact Or.inl ⟨Nat.zero_le _, rfl⟩

/-- A chore changes what is in a slot only if it touches the slot. -/
theorem Performs.slot {c : Chore τ} {d : Deed τ} (h : Performs s c d) (w : Nat) :
    d.pool.slotOf? w = s.pool.slotOf? w ∨ c.touches w = true := by
  have hne : ∀ {u : Nat}, (u ≠ w → d.pool.slotOf? w = s.pool.slotOf? w) →
      (u = w → c.touches w = true) →
      d.pool.slotOf? w = s.pool.slotOf? w ∨ c.touches w = true := fun {u} hn he =>
    (Decidable.em (u = w)).elim (fun h => Or.inr (he h)) fun h => Or.inl (hn h)
  cases h with
  | accepted ha =>
    obtain ⟨-, rfl⟩ := Pool.accept_eq_some_iff.mp ha
    exact Or.inl (Pool.slotOf?_queueUp s.pool _ w)
  | placed =>
    exact hne (fun hn => Pool.slotOf?_place s.pool (Ne.symm hn) _) fun he => by
      simp [Chore.touches, he]
  | displaced =>
    exact hne (fun hn => Pool.slotOf?_place s.pool (Ne.symm hn) _) fun he => by
      simp [Chore.touches, he]
  | requeued ha =>
    obtain ⟨-, rfl⟩ := Pool.accept_eq_some_iff.mp ha
    exact Or.inl (Pool.slotOf?_queueUp s.pool _ w)
  | handed ha =>
    obtain ⟨-, rfl⟩ := Pool.submitAccepted_eq_some_iff.mp ha
    exact Or.inl (Pool.slotOf?_queueUp s.pool _ w)
  | raisedWorker u => exact Or.inl ((Pool.sameHands_raise s.pool u).slot w)
  | loweredWorker u => exact Or.inl ((Pool.sameHands_lower s.pool u).slot w)
  | flushed =>
    exact hne (fun hn => Pool.slotOf?_flush s.pool (Ne.symm hn)) fun he => decide_eq_true he
  | finished =>
    exact hne (fun hn => Pool.slotOf?_finish s.pool (Ne.symm hn) _) fun he => decide_eq_true he
  | died =>
    exact hne (fun hn => Pool.slotOf?_die s.pool (Ne.symm hn) _) fun he => decide_eq_true he
  | _ => exact Or.inl rfl

/-- A chore about a slot comes from one that has the same slot. -/
theorem Performs.atSlot {c : Chore τ} {d : Deed τ} (h : Performs s c d) :
    (∀ e ∈ d.todo, e.atSlot = false) ∨
      ∃ e, d.todo = [e] ∧ c.atSlot = true ∧ ∀ w, c.Claims s.pool w → e.Claims d.pool w := by
  cases h with
  | @idle c hc =>
    by_cases ha : c.atSlot = true
    · exact Or.inr ⟨c, rfl, ha, fun w h => h⟩
    · exact Or.inl (by simpa [Traffic.idle] using ha)
  | @displaced _ _ w j k x ho hw =>
    refine Or.inr ⟨.requeue k j, rfl, rfl, fun u hu => ?_⟩
    cases hu
    exact Pool.slotOf?_place_self ho hw j
  | @entered v j slot x hg hlt =>
    cases slot with
    | none => exact Or.inl (by simp [Chore.atSlot])
    | some w => exact Or.inr ⟨.submit v.parent (j.admittedBy v) (some w), rfl, rfl, fun u hu => hu⟩
  | discarded =>
    refine Or.inl fun e he => ?_
    obtain ⟨v, -, rfl⟩ := List.mem_map.mp he
    rfl
  | finished => exact Or.inl (atSlot_turnChores _ _)
  | @died w outcome x j =>
    exact Or.inl (atSlot_turnChores w (s.pool.die w (Kinded.kind j)).1)
  | _ => exact Or.inl (by simp [refuse, taken, Chore.atSlot])

/-! ## Threads -/

omit [Kinded τ] in
theorem tidy_of_none {p : Pool (Job τ)} {cs : List (Chore τ)} (h : ∀ c ∈ cs, c.atSlot = false) :
    Tidy p cs := by
  refine ⟨?_, fun c hc => h c (List.mem_of_mem_tail hc)⟩
  rintro c rest rfl hc
  rw [h c List.mem_cons_self] at hc
  cases hc

omit [Kinded τ] in
/-- A body does something about the slot of its worker. -/
theorem Tidy.push {p : Pool (Job τ)} {c : Chore τ} {w : Nat} {b : Job τ} {rest : List (Chore τ)}
    (h : Tidy p (.body w b :: rest)) (hc : c.Claims p w) : Tidy p (c :: .body w b :: rest) := by
  refine ⟨?_, fun e he => ?_⟩
  · rintro d below hd -
    cases hd
    exact ⟨w, b, rest, rfl, hc⟩
  · rcases List.mem_cons.mp he with rfl | he
    · rfl
    · exact h.below e he

/-- What is left of a thread after its next chore. -/
theorem Tidy.goes {c : Chore τ} {rest : List (Chore τ)} {d : Deed τ}
    (h : Tidy s.pool (c :: rest)) (hp : Performs s c d) : Tidy d.pool (d.todo ++ rest) := by
  rcases hp.atSlot with hn | ⟨e, he, hc, hclaims⟩
  · refine tidy_of_none fun e he => ?_
    rcases List.mem_append.mp he with he | he
    · exact hn e he
    · exact h.below e he
  · obtain ⟨w, b, below, rfl, hw⟩ := h.top c rest rfl hc
    have hb : Tidy d.pool (.body w b :: below) := by
      refine tidy_of_none fun e he => ?_
      exact h.below e he
    rw [he]
    exact hb.push (hclaims w hw)

omit [Kinded τ] in
/-- A thread stays tidy while the slot of its worker is left alone. -/
theorem Tidy.keep {p q : Pool (Job τ)} {cs : List (Chore τ)} (h : Tidy p cs)
    (hs : ∀ w, 0 < cs.countP (Chore.drives w) → q.slotOf? w = p.slotOf? w) : Tidy q cs := by
  refine ⟨?_, h.below⟩
  rintro c rest rfl hc
  obtain ⟨w, b, below, rfl, hw⟩ := h.top c rest rfl hc
  refine ⟨w, b, below, rfl, ?_⟩
  have hq := hs w (List.countP_pos_iff.mpr ⟨.body w b, by simp, decide_eq_true rfl⟩)
  cases c with
  | requeue k j => exact hq.trans hw
  | _ => exact hw

omit [Kinded τ] in
/-- A chore at the head of a thread touches only the slot of the worker that the thread drives. -/
theorem Tidy.drives_of_touches {p : Pool (Job τ)} {c : Chore τ} {rest : List (Chore τ)} {w : Nat}
    (h : Tidy p (c :: rest)) (ht : c.touches w = true) :
    0 < (c :: rest).countP (Chore.drives w) := by
  -- below a chore about a slot is the body of the worker with this slot
  have hbody : c.atSlot = true → (∀ u, c.Claims p u → u = w) →
      0 < (c :: rest).countP (Chore.drives w) := by
    intro ha hc
    obtain ⟨u, b, below, rfl, hu⟩ := h.top c rest rfl ha
    exact List.countP_pos_iff.mpr ⟨.body u b, by simp, decide_eq_true (hc u hu)⟩
  cases c with
  | submit d j slot =>
    have hw : slot = some w := of_decide_eq_true ht
    exact hbody (by rw [hw]; rfl) fun u hu => Option.some.inj (hu.symm.trans hw)
  | flush u =>
    have hw : u = w := of_decide_eq_true ht
    exact hbody rfl fun v hv => hv.symm.trans hw
  | finish u outcome fatal => exact List.countP_pos_iff.mpr ⟨_, List.mem_cons_self, ht⟩
  | _ => cases ht


/-! ## Steps -/

omit [Kinded τ] in
/-- A thread goes on with as many drivers as before. -/
theorem driversIn_set_of_eq {w : Nat} {ts : List (List (Chore τ))} {i : Nat} {cs ds : List (Chore τ)}
    (h : ts[i]? = some cs) (he : ds.countP (Chore.drives w) = cs.countP (Chore.drives w)) :
    driversIn w (ts.set i ds) = driversIn w ts := by
  have hs := driversIn_set (w := w) ds h
  omega

omit [Kinded τ] in
/-- A free worker takes a turn: what it starts is driven by a new thread. -/
theorem Driven.turn (h : s.Driven) {u : Nat} {r : Pool.Turn (Job τ) × Pool (Job τ)}
    (hn : s.pool.taskOf? u = none)
    (ht : ∀ w, r.2.taskOf? w = if w = u then r.1.started else s.pool.taskOf? w) (w : Nat) :
    driversIn w (s.threads ++ [turnChores u r.1]) ≤ if (r.2.taskOf? w).isSome then 1 else 0 := by
  have hw := h w
  rw [driversIn_append, countP_drives_turnChores, ht]
  by_cases he : u = w
  · subst he
    rw [hn] at hw
    rw [if_pos rfl, if_pos rfl]
    exact Nat.add_le_of_le_sub (Nat.le_refl _) (Nat.le_trans hw (Nat.zero_le _))
  · rw [if_neg he, if_neg (Ne.symm he)]
    exact hw

theorem driven_step (h : s.Driven) (a : Act τ) : (s.step a).Driven := by
  intro w
  have hw := h w
  have hs := steps s a
  generalize s.step a = s' at hs
  cases hs with
  | stays => exact hw
  | built => exact hw
  | called =>
    rw [driversIn_append]
    exact hw
  | calledFrom hd hi =>
    rw [driversIn_set_of_eq hi (List.countP_cons_of_neg (by simp [Chore.drives]))]
    exact hw
  | flushes hi =>
    rw [driversIn_set_of_eq hi (List.countP_cons_of_neg (by simp [Chore.drives]))]
    exact hw
  | raised u vs =>
    rw [driversIn_append, (countP_drives_raises s w u vs).1]
    exact hw
  | lowered u vs =>
    rw [driversIn_append, (countP_drives_raises s w u vs).2]
    exact hw
  | @ended i u j rest outcome fatal hi =>
    have he : (j.views.reverse.map Chore.release ++ Chore.finish u outcome fatal :: rest).countP
        (Chore.drives w) = (Chore.body u j :: rest).countP (Chore.drives w) := by
      rw [List.countP_append, countP_drives_releases, List.countP_cons, List.countP_cons]
      exact Nat.zero_add _
    rw [driversIn_set_of_eq hi he]
    exact hw
  | @barred i u j rest outcome fatal hi =>
    have he : (Chore.finish u (.error .disconnected) fatal :: rest).countP (Chore.drives w) =
        (Chore.body u j :: rest).countP (Chore.drives w) := by
      rw [List.countP_cons, List.countP_cons]
      rfl
    rw [driversIn_set_of_eq hi he]
    exact hw
  | began hu hx =>
    exact h.turn (by rw [Pool.taskOf?_eq hu, hx]; rfl) (Pool.turns_begin hu hx).task w
  | resumed hu hx =>
    exact h.turn (by rw [Pool.taskOf?_eq hu, hx]; rfl) (Pool.turns_resume hu hx _).task w
  | @goes i c rest d hi hp =>
    have hset := driversIn_set (w := w) (d.todo ++ rest) hi
    rw [List.countP_append, List.countP_cons] at hset
    rcases hp.drives w with ⟨hle, ht⟩ | ⟨hc, hle⟩
    · rw [ht]
      dsimp only
      omega
    · -- the chore was the only driver
      rw [if_pos hc] at hset
      have hone : (if (s.pool.taskOf? w).isSome then 1 else 0) ≤ 1 := by split <;> omega
      dsimp only
      omega
  | closed =>
    rw [(Pool.sameHands_beginClose s.pool).task]
    exact hw
  | terminated =>
    rw [(Pool.sameHands_terminate s.pool).task]
    exact hw

omit [Kinded τ] in
/-- Two threads do not drive the same worker. -/
theorem Driven.apart (h : s.Driven) {i k : Nat} {cs ds : List (Chore τ)} (hi : s.threads[i]? = some cs)
    (hk : s.threads[k]? = some ds) (hn : k ≠ i) {w : Nat} (hc : 0 < cs.countP (Chore.drives w)) :
    ds.countP (Chore.drives w) = 0 := by
  have hset := driversIn_set (w := w) [] hi
  have hmem : ds ∈ s.threads.set i [] :=
    List.mem_of_getElem? ((List.getElem?_set_ne (Ne.symm hn)).trans hk)
  have hle := le_driversIn (w := w) hmem
  have hone : driversIn w s.threads ≤ 1 := Nat.le_trans (h w) (by split <;> omega)
  rw [List.countP_nil] at hset
  omega

omit [Kinded τ] in
/-- A driven worker runs a task. -/
theorem Driven.isSome (h : s.Driven) {cs : List (Chore τ)} (hm : cs ∈ s.threads) {w : Nat}
    (hc : 0 < cs.countP (Chore.drives w)) : (s.pool.taskOf? w).isSome = true := by
  have hle := Nat.le_trans (le_driversIn (w := w) hm) (h w)
  by_contra hn
  rw [if_neg hn] at hle
  omega

theorem mem_set_cases {α : Type} {xs : List α} {i : Nat} {x y : α} (h : y ∈ xs.set i x) :
    y = x ∨ ∃ k, k ≠ i ∧ xs[k]? = some y := by
  obtain ⟨k, hk⟩ := List.getElem?_of_mem h
  rw [List.getElem?_set] at hk
  split at hk
  case isTrue hik =>
    split at hk
    · exact Or.inl (Option.some.inj hk).symm
    · cases hk
  case isFalse hik => exact Or.inr ⟨k, Ne.symm hik, hk⟩

/-- A chore at the head of a thread leaves the slots of workers that other threads drive alone. -/
theorem Seated.others (h : s.Seated) {i k : Nat} {c : Chore τ} {rest ds : List (Chore τ)}
    {d : Deed τ} (hi : s.threads[i]? = some (c :: rest)) (hp : Performs s c d)
    (hk : s.threads[k]? = some ds) (hn : k ≠ i) : Tidy d.pool ds := by
  refine (h.tidy ds (List.mem_of_getElem? hk)).keep fun w hw => ?_
  rcases hp.slot w with hs | ht
  · exact hs
  · have hc := (h.tidy _ (List.mem_of_getElem? hi)).drives_of_touches ht
    have hz := h.driven.apart hi hk hn hc
    omega

omit [Kinded τ] in
/-- A turn of a free worker leaves the slots of workers that threads drive alone. -/
theorem Seated.turn (h : s.Seated) {u : Nat} {r : Pool.Turn (Job τ) × Pool (Job τ)}
    (hn : s.pool.taskOf? u = none) (hs : ∀ w, w ≠ u → r.2.slotOf? w = s.pool.slotOf? w) :
    ∀ cs ∈ s.threads ++ [turnChores u r.1], Tidy r.2 cs := by
  intro cs hcs
  rcases List.mem_append.mp hcs with hold | hnew
  · refine (h.tidy cs hold).keep fun w hw => hs w ?_
    rintro rfl
    have ht := h.driven.isSome hold hw
    rw [hn] at ht
    cases ht
  · rw [List.mem_singleton.mp hnew]
    exact tidy_of_none (atSlot_turnChores u r.1)

omit [Kinded τ] in
theorem Seated.sameHands (h : s.Seated) {q : Pool (Job τ)} (hq : Pool.SameHands s.pool q) :
    ∀ cs ∈ s.threads, Tidy q cs := fun cs hcs => (h.tidy cs hcs).keep fun w _ => hq.slot w

omit [Kinded τ] in
theorem Seated.append (h : s.Seated) {ds : List (Chore τ)} (hd : ∀ c ∈ ds, c.atSlot = false) :
    ∀ cs ∈ s.threads ++ [ds], Tidy s.pool cs := by
  intro cs hcs
  rcases List.mem_append.mp hcs with hcs | hcs
  · exact h.tidy cs hcs
  · rw [List.mem_singleton.mp hcs]
    exact tidy_of_none hd

omit [Kinded τ] in
theorem Seated.set (h : s.Seated) {i : Nat} {ds : List (Chore τ)} (hd : Tidy s.pool ds) :
    ∀ cs ∈ s.threads.set i ds, Tidy s.pool cs := by
  intro cs hcs
  rcases List.mem_or_eq_of_mem_set hcs with hcs | rfl
  · exact h.tidy cs hcs
  · exact hd

theorem seated_step (h : s.Seated) (a : Act τ) : (s.step a).Seated := by
  refine ⟨driven_step h.driven a, ?_⟩
  have hthread : ∀ {i : Nat} {cs : List (Chore τ)}, s.threads[i]? = some cs → Tidy s.pool cs :=
    fun hi => h.tidy _ (List.mem_of_getElem? hi)
  have hs := steps s a
  generalize s.step a = s' at hs
  cases hs with
  | stays => exact h.tidy
  | built => exact h.tidy
  | called => exact h.append (by simp [Chore.atSlot])
  | @calledFrom i w n d t tail j rest hd hi =>
    refine h.set ?_
    cases tail with
    | true => exact (hthread hi).push rfl
    | false =>
      refine tidy_of_none fun e he => ?_
      rcases List.mem_cons.mp he with rfl | he
      · rfl
      · rcases List.mem_cons.mp he with rfl | he
        · rfl
        · exact (hthread hi).below e he
  | flushes hi => exact h.set ((hthread hi).push rfl)
  | raised w vs => exact h.append (atSlot_raises s w vs).1
  | lowered w vs => exact h.append (atSlot_raises s w vs).2
  | @ended i w j rest outcome fatal hi =>
    refine h.set (tidy_of_none fun e he => ?_)
    rcases List.mem_append.mp he with he | he
    · obtain ⟨v, -, rfl⟩ := List.mem_map.mp he
      rfl
    · rcases List.mem_cons.mp he with rfl | he
      · rfl
      · exact (hthread hi).below e he
  | barred hi =>
    refine h.set (tidy_of_none fun e he => ?_)
    rcases List.mem_cons.mp he with rfl | he
    · rfl
    · exact (hthread hi).below e he
  | began hw hx =>
    exact h.turn (by rw [Pool.taskOf?_eq hw, hx]; rfl) fun u hu => Pool.slotOf?_begin s.pool hu
  | @resumed w timedOut woken x hw hx =>
    exact h.turn (by rw [Pool.taskOf?_eq hw, hx]; rfl) fun u hu =>
      Pool.slotOf?_resume s.pool hu timedOut
  | @goes i c rest d hi hp =>
    intro cs hcs
    rcases mem_set_cases hcs with rfl | ⟨k, hk, hcs⟩
    · exact (hthread hi).goes hp
    · exact h.others hi hp hcs hk
  | closed => exact h.sameHands (Pool.sameHands_beginClose s.pool)
  | terminated => exact h.sameHands (Pool.sameHands_terminate s.pool)

/-- In every run workers have their threads. -/
theorem seated_run (c : Config) (as : List (Act τ)) : ((start c).run as).Seated := by
  have hstart : (start c : Traffic τ).Seated := ⟨fun w => Nat.zero_le _, nofun⟩
  exact List.foldlRecOn (motive := Seated) as step hstart fun _ hs a _ => seated_step hs a

omit [Kinded τ] in
/-- While a displaced task waits to be queued, the one that displaced it is in its slot. -/
theorem Seated.slot_of_requeue (h : s.Seated) {k j : Job τ}
    (hm : .requeue k j ∈ s.threads.flatten) : ∃ w, s.pool.slotOf? w = some j := by
  obtain ⟨cs, hcs, hc⟩ := List.mem_flatten.mp hm
  obtain _ | ⟨c, rest⟩ := cs
  · cases hc
  · have ht := h.tidy _ hcs
    rcases List.mem_cons.mp hc with rfl | hc
    · obtain ⟨w, -, -, -, hw⟩ := ht.top _ rest rfl rfl
      exact ⟨w, hw⟩
    · exact absurd (ht.below _ hc) (by simp [Chore.atSlot])

end Traffic

end Workforce
