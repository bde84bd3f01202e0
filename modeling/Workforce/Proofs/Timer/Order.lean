import Workforce.Timer

/-
  The order of timers. Entries go by deadline, and by scheduling order among equal deadlines.
  `Entry.compare` is the same order upside down, in which the first entry is the greatest: a heap
  that yields its greatest element under it yields the head of a queue in firing order
  (`Ordered.head_iff_greatest`). Scheduling keeps a queue in firing order and a popped entry goes
  before all that it leaves behind (`Ordered.insert`, `Ordered.pop`).
-/

namespace Workforce

namespace Instant

theorem le_dueAfter (now : Instant) (delay : Duration) : now ≤ now.dueAfter delay := by
  unfold dueAfter
  split
  · exact Nat.le_add_right now delay.toNanos
  · exact Nat.le_add_right now farFuture

end Instant

namespace Entry

variable {α : Type} {a b c e : Entry α} {q : List (Entry α)}

/-! ## Two entries -/

theorem before_iff : a.before b = true ↔ a.due < b.due ∨ a.due = b.due ∧ a.seq < b.seq := by
  simp [before]

theorem before_trans (hab : a.before b = true) (hbc : b.before c = true) :
    a.before c = true := by
  rw [before_iff] at *
  grind

theorem not_before (hab : a.before b = true) : b.before a = false := by
  rw [← Bool.not_eq_true, before_iff]
  rw [before_iff] at hab
  grind

theorem before_of_seq_ne (h : a.seq ≠ b.seq) (hab : ¬a.before b = true) :
    b.before a = true := by
  rw [before_iff] at *
  grind

theorem ne_of_before (h : a.before b = true) : a ≠ b := by
  rintro rfl
  exact absurd h (by simp [not_before h])

/-- An entry goes before one that was scheduled later and is due no earlier. -/
theorem before_of_later (hd : a.due ≤ b.due) (hs : a.seq < b.seq) : a.before b = true := by
  rw [before_iff]
  grind

theorem due_le_of_before (h : a.before b = true) : a.due ≤ b.due := by
  obtain h | ⟨h, -⟩ := before_iff.mp h
  · exact Nat.le_of_lt h
  · exact Nat.le_of_eq h

/-- How a heap compares entries: an entry is the greater one if its deadline is earlier, or if it
was scheduled earlier for the same deadline. -/
def compare (a b : Entry α) : Ordering :=
  (Ord.compare b.due a.due).then (Ord.compare b.seq a.seq)

theorem compare_eq_gt : a.compare b = .gt ↔ a.before b = true := by
  rw [before_iff, compare, Ordering.then_eq_gt, Nat.compare_eq_gt, Nat.compare_eq_eq,
    Nat.compare_eq_gt]
  grind

/-- Among the entries of one timer, only the same entry compares equal. -/
theorem compare_eq_eq : a.compare b = .eq ↔ a.due = b.due ∧ a.seq = b.seq := by
  rw [compare, Ordering.then_eq_eq, Nat.compare_eq_eq, Nat.compare_eq_eq]
  grind

/-! ## Queues -/

/-- The entries are in firing order. -/
def Ordered (q : List (Entry α)) : Prop := q.Pairwise fun a b => a.before b = true

theorem insert_perm (e : Entry α) : ∀ q : List (Entry α), (insert e q).Perm (e :: q)
  | [] => .refl _
  | x :: xs => by
    rw [insert]
    split
    · exact .refl _
    · exact ((insert_perm e xs).cons x).trans (.swap e x xs)

@[simp]
theorem mem_insert : a ∈ insert e q ↔ a = e ∨ a ∈ q := by
  rw [(insert_perm e q).mem_iff, List.mem_cons]

theorem Ordered.insert (h : Ordered q) (he : ∀ x ∈ q, x.seq ≠ e.seq) :
    Ordered (Entry.insert e q) := by
  induction q with
  | nil => exact List.pairwise_singleton _ e
  | cons x xs ih =>
    obtain ⟨hx, hxs⟩ := List.pairwise_cons.mp h
    rw [Entry.insert]
    split
    · rename_i hex
      refine List.pairwise_cons.mpr ⟨fun y hy => ?_, h⟩
      obtain rfl | hy := List.mem_cons.mp hy
      · exact hex
      · exact before_trans hex (hx y hy)
    · rename_i hex
      refine List.pairwise_cons.mpr
        ⟨fun y hy => ?_, ih hxs fun y hy => he y (List.mem_cons_of_mem x hy)⟩
      obtain rfl | hy := mem_insert.mp hy
      · exact before_of_seq_ne (he x List.mem_cons_self).symm hex
      · exact hx y hy

/-- The head of a queue in firing order is the one entry that no other is greater than. -/
theorem Ordered.head_iff_greatest (h : Ordered q) (he : e ∈ q) :
    q.head? = some e ↔ ∀ x ∈ q, x.compare e ≠ .gt := by
  cases q with
  | nil => cases he
  | cons f rest =>
    have hf := (List.pairwise_cons.mp h).1
    constructor
    · intro hhead x hx hgt
      obtain rfl : f = e := by simpa using hhead
      rw [compare_eq_gt] at hgt
      obtain rfl | hx := List.mem_cons.mp hx
      · exact ne_of_before hgt rfl
      · exact absurd hgt (by simp [not_before (hf x hx)])
    · intro hall
      obtain rfl | he := List.mem_cons.mp he
      · rfl
      · exact absurd (compare_eq_gt.mpr (hf e he)) (hall f List.mem_cons_self)

end Entry

/-! ## Timers -/

namespace Timer

variable {α : Type} {t t' : Timer α} {e : Entry α} {now : Instant} {seq i : Nat}
  {next : EntryState}

/-- What popping an entry does. -/
theorem pop_eq_some (h : t.pop now = some (e, t')) :
    t.stopped = false ∧ e.due ≤ now ∧ ∃ rest, t.queue = e :: rest ∧
      t' = { t with queue := rest } := by
  unfold pop at h
  split at h
  · cases h
  · rename_i hs
    split at h
    · rename_i f rest hq
      split at h
      · rename_i hdue
        obtain ⟨rfl, rfl⟩ : f = e ∧ _ = t' := by simpa using h
        exact ⟨by simpa using hs, hdue, rest, hq, rfl⟩
      · cases h
    · cases h

/-- Where nothing is popped of a timer that goes on, nothing is due. -/
theorem due_of_pop_eq_none (ho : Entry.Ordered t.queue) (h : t.pop now = none)
    (hs : t.stopped = false) : ∀ x ∈ t.queue, now < x.due := by
  intro x hx
  unfold pop at h
  rw [hs] at h
  cases hq : t.queue with
  | nil => simp [hq] at hx
  | cons f rest =>
    have hf : now < f.due := by simpa [hq] using h
    rw [hq] at hx ho
    obtain rfl | hx := List.mem_cons.mp hx
    · exact hf
    · have hfx := Entry.before_iff.mp ((List.pairwise_cons.mp ho).1 x hx)
      grind

theorem nextDue_eq (hs : t.stopped = false) : t.nextDue = t.queue.head?.map Entry.due := by
  simp [nextDue, hs]

/-! ## States of entries -/

theorem stateOf_eq_armed : t.stateOf i = .armed ↔ t.states[i]? = some .armed := by
  unfold stateOf
  cases t.states[i]? <;> simp

theorem lt_of_armed (h : t.stateOf i = .armed) : i < t.states.length :=
  (List.getElem?_eq_some_iff.mp (stateOf_eq_armed.mp h)).1

theorem moveOn_of_armed (h : t.stateOf seq = .armed) :
    t.moveOn seq next = (true, { t with states := t.states.set seq next }) := by
  simp [moveOn, h]

theorem moveOn_of_settled (h : t.stateOf seq ≠ .armed) : t.moveOn seq next = (false, t) := by
  simp [moveOn, h]

theorem stateOf_set (h : seq < t.states.length) :
    Timer.stateOf { t with states := t.states.set seq next } i =
      if i = seq then next else t.stateOf i := by
  unfold stateOf
  rw [List.getElem?_set]
  split
  · subst seq
    simp
  · rw [if_neg (Ne.symm ‹_›)]

theorem stateOf_schedule (now : Instant) (delay : Duration) (callback : α) :
    (t.schedule now delay callback).2.stateOf i =
      if i = t.states.length then .armed else t.stateOf i := by
  unfold stateOf schedule
  simp only [List.getElem?_append]
  split
  · rw [if_neg (Nat.ne_of_lt ‹_›)]
  · split
    · simp [‹i = _›]
    · have hi : ¬i < t.states.length := ‹_›
      have hn : i - t.states.length ≠ 0 := by omega
      rw [List.getElem?_eq_none (by simp; omega), List.getElem?_eq_none (by omega)]

end Timer

end Workforce
