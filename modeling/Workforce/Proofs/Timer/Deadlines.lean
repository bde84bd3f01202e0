import Workforce.Proofs.Timer.Clockwork

/-
  The timer fires in deadline order, and never early. An entry is due when it was scheduled plus
  its delay, or plus a year where that is not representable. When a callback starts, its entry is
  due and goes before all entries that the queue then holds; entries that are scheduled later do
  not count. The thread waits only while nothing is due by the clock that it read.

  What carries this over the time in which the thread has let go of the queue is that the popped
  entry stays at the head of the line: an entry that is scheduled meanwhile is due no earlier than
  now, and comes later among equal deadlines (`Sound.line_schedule`).
-/

namespace Workforce.Clockwork

variable {α : Type} {m m' : Clockwork α} {a b e : Entry α} {seq : Nat} {now : Instant}
  {delay : Duration} {callback : α} {l es l₁ l₂ : List (Event α)}

/-- An entry was scheduled by then. -/
def Scheduled (log : List (Event α)) (seq : Nat) : Prop := ∃ now delay, .scheduled seq now delay ∈ log

theorem Scheduled.mono (h : Scheduled l₁ seq) (hl : ∀ x ∈ l₁, x ∈ l₂) : Scheduled l₂ seq := by
  obtain ⟨now, delay, hmem⟩ := h
  exact ⟨now, delay, hl _ hmem⟩

theorem scheduled_concat :
    Scheduled (l ++ [.scheduled seq now delay]) e.seq ↔ Scheduled l e.seq ∨ e.seq = seq := by
  simp only [Scheduled, List.mem_append, List.mem_singleton, Event.scheduled.injEq]
  constructor
  · rintro ⟨t, d, h | h⟩
    · exact .inl ⟨t, d, h⟩
    · exact .inr h.1
  · rintro (⟨t, d, h⟩ | h)
    · exact ⟨t, d, .inl h⟩
    · exact ⟨now, delay, .inr ⟨h, rfl, rfl⟩⟩

/-- An event of a log is among the last ones, or it has those after it. -/
theorem split_append {x : Event α} (h : l ++ es = l₁ ++ x :: l₂) :
    (∃ k, es = k ++ x :: l₂) ∨ ∃ l₃, l = l₁ ++ x :: l₃ ∧ l₂ = l₃ ++ es := by
  obtain ⟨k, -, hk⟩ | ⟨k, rfl, hk⟩ := List.append_eq_append_iff.mp h
  · exact .inl ⟨k, hk⟩
  · cases k with
    | nil => exact .inl ⟨[], hk.symm⟩
    | cons y k =>
      obtain ⟨rfl, rfl⟩ := List.cons_eq_cons.mp hk
      exact .inr ⟨k, rfl, rfl⟩

/-- A start that is not among the last events of a log has those after it. -/
theorem split_start (h : l ++ es = l₁ ++ .started b :: l₂) (hb : Event.started b ∉ es) :
    ∃ l₃, l = l₁ ++ .started b :: l₃ ∧ l₂ = l₃ ++ es :=
  (split_append h).resolve_left fun ⟨k, hk⟩ =>
    hb (hk ▸ List.mem_append_right k List.mem_cons_self)

/-- A start in a log is the last event, or it has that after it. -/
theorem split_concat {x : Event α} (h : l ++ [x] = l₁ ++ .started b :: l₂) :
    (x = .started b ∧ l₂ = []) ∨ ∃ l₃, l = l₁ ++ .started b :: l₃ ∧ l₂ = l₃ ++ [x] := by
  obtain ⟨k, hk⟩ | h := split_append h
  · obtain ⟨-, heq⟩ | ⟨-, heq⟩ := List.singleton_eq_append_iff.mp hk
    · exact .inl (by simpa [eq_comm] using heq)
    · cases heq
  · exact .inr h

/-! ## What the log says about the line -/

/-- What the log says about the entries in the line, and about those that have started. -/
structure Booked (m : Clockwork α) : Prop where
  past : ∀ seq, Scheduled m.log seq → seq < m.timer.states.length
  listed : ∀ e ∈ m.line, Scheduled m.log e.seq
  deadline : ∀ e ∈ m.line, ∀ now delay, .scheduled e.seq now delay ∈ m.log →
    e.due = now.dueAfter delay
  /-- What was in the line when an entry started, and still is, goes after that entry. -/
  behind : ∀ l₁ b l₂, m.log = l₁ ++ .started b :: l₂ → ∀ e ∈ m.line, Scheduled l₁ e.seq →
    b.before e = true
  /-- What was in the line when an entry started, and started since, goes after that entry. -/
  succession : ∀ l₁ b l₂, m.log = l₁ ++ .started b :: l₂ → ∀ a, .started a ∈ l₂ →
    Scheduled l₁ a.seq → b.before a = true

theorem booked_start : Booked ({} : Clockwork α) where
  past := fun _ ⟨_, _, h⟩ => nomatch h
  listed := nofun
  deadline := nofun
  behind := fun l₁ _ _ h => absurd h.symm (List.append_ne_nil_of_right_ne_nil l₁ nofun)
  succession := fun l₁ _ _ h => absurd h.symm (List.append_ne_nil_of_right_ne_nil l₁ nofun)

/-- A move that adds nothing to the line, and logs answers to cancels at most. -/
theorem Booked.quiet (h : Booked m) (hl : ∀ e ∈ m'.line, e ∈ m.line)
    (hs : m'.timer.states.length = m.timer.states.length) (hlog : m'.log = m.log ++ es)
    (hes : ∀ x ∈ es, ∃ seq done, x = .cancelled seq done) : Booked m' := by
  have hstart (b : Entry α) : Event.started b ∉ es := fun hb => by
    obtain ⟨_, _, heq⟩ := hes _ hb
    cases heq
  have hsched {seq : Nat} {now : Instant} {delay : Duration}
      (hx : .scheduled seq now delay ∈ m'.log) : .scheduled seq now delay ∈ m.log := by
    rw [hlog] at hx
    obtain hx | hx := List.mem_append.mp hx
    · exact hx
    · obtain ⟨_, _, heq⟩ := hes _ hx
      cases heq
  have hsplit {l₁ l₂ : List (Event α)} {b : Entry α} (heq : m'.log = l₁ ++ .started b :: l₂) :
      ∃ l₃, m.log = l₁ ++ .started b :: l₃ ∧ l₂ = l₃ ++ es :=
    split_start (hlog ▸ heq) (hstart b)
  constructor
  case past =>
    rintro seq ⟨now, delay, hmem⟩
    rw [hs]
    exact h.past seq ⟨now, delay, hsched hmem⟩
  case listed =>
    intro e he
    rw [hlog]
    exact (h.listed e (hl e he)).mono fun x hx => List.mem_append_left es hx
  case deadline => exact fun e he now delay hmem => h.deadline e (hl e he) now delay (hsched hmem)
  case behind =>
    intro l₁ b l₂ heq e he hse
    obtain ⟨l₃, hm, -⟩ := hsplit heq
    exact h.behind l₁ b l₃ hm e (hl e he) hse
  case succession =>
    intro l₁ b l₂ heq a ha hsa
    obtain ⟨l₃, hm, rfl⟩ := hsplit heq
    obtain ha | ha := List.mem_append.mp ha
    · exact h.succession l₁ b l₃ hm a ha hsa
    · exact absurd ha (hstart a)

theorem Booked.schedule (h : Booked m) (hsound : Sound m) :
    Booked (m.schedule delay callback) := by
  have hlog : (m.schedule delay callback).log =
    m.log ++ [.scheduled m.timer.states.length m.now delay] := rfl
  have hlen : (m.schedule delay callback).timer.states.length = m.timer.states.length + 1 := by
    simp [Clockwork.schedule, Timer.schedule]
  have hsplit {l₁ l₂ : List (Event α)} {b : Entry α}
      (heq : (m.schedule delay callback).log = l₁ ++ .started b :: l₂) :
      ∃ l₃, m.log = l₁ ++ .started b :: l₃ ∧ l₂ = l₃ ++ [.scheduled m.timer.states.length m.now delay] :=
    split_start (hlog ▸ heq) (by simp)
  -- the new entry has the one number that nothing in the log has yet
  have hfresh {l₁ : List (Event α)} {l₂ : List (Event α)} (hm : m.log = l₁ ++ l₂) :
      ¬Scheduled l₁ m.timer.states.length := fun hs =>
    Nat.lt_irrefl _ (h.past _ (hs.mono fun x hx => hm ▸ List.mem_append_left l₂ hx))
  constructor
  case past =>
    rintro seq ⟨now, delay, hmem⟩
    rw [hlen]
    rw [hlog] at hmem
    obtain hmem | hmem := List.mem_append.mp hmem
    · exact Nat.lt_succ_of_lt (h.past seq ⟨now, delay, hmem⟩)
    · obtain ⟨rfl, -, -⟩ : _ ∧ _ ∧ _ := by simpa using hmem
      exact Nat.lt_succ_self _
  case listed =>
    intro e he
    rw [hsound.line_schedule] at he
    rw [hlog, scheduled_concat]
    obtain rfl | he := Entry.mem_insert.mp he
    · exact .inr rfl
    · exact .inl (h.listed e he)
  case deadline =>
    intro e he now delay' hmem
    rw [hsound.line_schedule] at he
    rw [hlog] at hmem
    obtain rfl | he := Entry.mem_insert.mp he
    · obtain hmem | hmem := List.mem_append.mp hmem
      · exact absurd ⟨now, delay', hmem⟩ (hfresh (List.append_nil m.log).symm)
      · obtain ⟨rfl, rfl⟩ : now = m.now ∧ delay' = delay := by simpa using hmem
        rfl
    · obtain hmem | hmem := List.mem_append.mp hmem
      · exact h.deadline e he now delay' hmem
      · obtain ⟨hseq, -, -⟩ : _ ∧ _ ∧ _ := by simpa using hmem
        exact absurd hseq (Nat.ne_of_lt (hsound.known e he))
  case behind =>
    intro l₁ b l₂ heq e he hse
    obtain ⟨l₃, hm, -⟩ := hsplit heq
    rw [hsound.line_schedule] at he
    obtain rfl | he := Entry.mem_insert.mp he
    · exact absurd hse (hfresh hm)
    · exact h.behind l₁ b l₃ hm e he hse
  case succession =>
    intro l₁ b l₂ heq a ha hsa
    obtain ⟨l₃, hm, rfl⟩ := hsplit heq
    obtain ha | ha := List.mem_append.mp ha
    · exact h.succession l₁ b l₃ hm a ha hsa
    · simp at ha

/-- The entry in hand starts: it goes before all that wait, and after all that went before. -/
theorem Booked.started (h : Booked m) (hsound : Sound m) (hp : m.post = .holding e)
    (hl : m'.line = m.timer.queue) (hs : m'.timer.states.length = m.timer.states.length)
    (hlog : m'.log = m.log ++ [.started e]) : Booked m' := by
  have hline := line_of_holding hp
  have hmem {x : Entry α} (hx : x ∈ m'.line) : x ∈ m.line := by
    rw [hline, ← hl]
    exact List.mem_cons_of_mem e hx
  have hsched {seq : Nat} {now : Instant} {delay : Duration}
      (hx : .scheduled seq now delay ∈ m'.log) : .scheduled seq now delay ∈ m.log := by
    simpa [hlog] using hx
  constructor
  case past =>
    rintro seq ⟨now, delay, hx⟩
    rw [hs]
    exact h.past seq ⟨now, delay, hsched hx⟩
  case listed =>
    intro x hx
    rw [hlog]
    exact (h.listed x (hmem hx)).mono fun y hy => List.mem_append_left _ hy
  case deadline => exact fun x hx now delay hb => h.deadline x (hmem hx) now delay (hsched hb)
  case behind =>
    intro l₁ b l₂ heq x hx hsx
    obtain ⟨he, -⟩ | ⟨l₃, hm, -⟩ := split_concat (hlog ▸ heq)
    · obtain rfl : e = b := by simpa using he
      exact (List.pairwise_cons.mp (hline ▸ hsound.ordered)).1 x (hl ▸ hx)
    · exact h.behind l₁ b l₃ hm x (hmem hx) hsx
  case succession =>
    intro l₁ b l₂ heq a ha hsa
    obtain ⟨-, rfl⟩ | ⟨l₃, hm, rfl⟩ := split_concat (hlog ▸ heq)
    · cases ha
    · obtain ha | ha := List.mem_append.mp ha
      · exact h.succession l₁ b l₃ hm a ha hsa
      · obtain rfl : a = e := by simpa using ha
        exact h.behind l₁ b l₃ hm a (by simp [hline]) hsa

theorem Booked.moves (h : Booked m) (hsound : Sound m) (hm : Moves m m') : Booked m' := by
  have hnil : m.log = m.log ++ [] := (List.append_nil m.log).symm
  cases hm with
  | stays => exact h
  | passes => exact h.quiet (fun _ he => he) rfl hnil nofun
  | schedules => exact h.schedule hsound
  | cancels =>
    exact h.quiet (fun _ he => he) (by simp) rfl fun x hx => ⟨_, _, List.mem_singleton.mp hx⟩
  | fails => exact h.quiet (fun _ he => he) rfl rfl fun x hx => ⟨_, _, List.mem_singleton.mp hx⟩
  | stops => exact h.quiet (fun _ he => he) rfl hnil nofun
  | leaves hp => exact h.quiet (fun _ he => line_of_looks hp ▸ he) rfl hnil nofun
  | pops hp hs hq =>
    refine h.quiet (fun x hx => ?_) rfl hnil nofun
    rw [line_of_looks hp, hq]
    exact hx
  | waits hp => exact h.quiet (fun _ he => line_of_looks hp ▸ he) rfl hnil nofun
  | starts hp => exact h.started hsound hp rfl (by simp) rfl
  | skips hp =>
    refine h.quiet (fun x hx => ?_) rfl hnil nofun
    rw [line_of_holding hp]
    exact List.mem_cons_of_mem _ hx
  | ends panic hp =>
    refine h.quiet (fun x hx => ?_) rfl hnil nofun
    rw [line, hand_postAfter] at hx
    exact List.mem_append_right _ hx

theorem booked_run (as : List (Act α)) : Booked (run as) :=
  (run_induction (P := fun m : Clockwork α => Sound m ∧ Booked m) ⟨sound_start, booked_start⟩
    (fun m a h => ⟨h.1.moves (Clockwork.moves m a), h.2.moves h.1 (Clockwork.moves m a)⟩) as).2

/-! ## Deadline order -/

/-- A timer fires in deadline order, never early. -/
structure Punctual (m : Clockwork α) : Prop where
  /-- The head of the queue is what a heap yields that yields a greatest element. -/
  greatest : ∀ e ∈ m.timer.queue,
    m.timer.queue.head? = some e ↔ ∀ x ∈ m.timer.queue, x.compare e ≠ .gt
  /-- An entry is due a delay after it was scheduled. -/
  deadline : ∀ e, m.post = .holding e → (m.step .fire).post = .running e →
    Scheduled m.log e.seq ∧
      ∀ now delay, .scheduled e.seq now delay ∈ m.log → e.due = now.dueAfter delay
  /-- A callback starts when it is due or later, and before all that wait. -/
  starts : ∀ e, m.post = .holding e → (m.step .fire).post = .running e →
    e.due ≤ m.now ∧ ∀ x ∈ m.timer.queue, e.before x = true
  /-- Of two entries that start, the one that goes before the other starts first, if it was
  scheduled by then. -/
  succession : ∀ l₁ b l₂, m.log = l₁ ++ .started b :: l₂ → ∀ a, .started a ∈ l₂ →
    Scheduled l₁ a.seq → b.before a = true
  /-- The thread waits only for what is not due, and for the first of it. -/
  waits : ∀ till, (m.step .look).post = .asleep till →
    (∀ x ∈ (m.step .look).timer.queue, m.now < x.due) ∧
      till = (m.step .look).timer.queue.head?.map Entry.due

theorem waits_of_look (hsound : Sound m) (hp : m.post.looks) {till : Option Instant}
    (h : m.look.post = .asleep till) : (∀ x ∈ m.look.timer.queue, m.now < x.due) ∧
      till = m.look.timer.queue.head?.map Entry.due := by
  unfold look at h ⊢
  split
  case isTrue hs => simp [hs] at h
  case isFalse hs =>
    have hs : m.timer.stopped = false := by simpa using hs
    have ho : Entry.Ordered m.timer.queue := line_of_looks hp ▸ hsound.ordered
    rw [if_neg (by simp [hs])] at h
    cases hn : m.timer.pop m.now with
    | some r => simp [hn] at h
    | none =>
      rw [hn] at h
      obtain rfl : m.timer.nextDue = till := by simpa using h
      exact ⟨Timer.due_of_pop_eq_none ho hn hs, Timer.nextDue_eq hs⟩

theorem waits_of_step (hsound : Sound m) {till : Option Instant}
    (h : (m.step .look).post = .asleep till) :
    (∀ x ∈ (m.step .look).timer.queue, m.now < x.due) ∧
      till = (m.step .look).timer.queue.head?.map Entry.due := by
  rw [step] at h ⊢
  split
  case h_1 hp =>
    rw [hp] at h
    exact waits_of_look hsound (by rw [hp]; trivial) h
  case h_2 hp =>
    rw [hp] at h
    exact waits_of_look hsound (by rw [hp]; trivial) h
  case h_3 hfree hasleep =>
    cases hp : m.post with
    | free => exact absurd hp hfree
    | asleep till' => exact absurd hp (hasleep till')
    | _ => simp [hp] at h

theorem punctual_run (as : List (Act α)) : Punctual (run as) where
  greatest := fun e he => by
    have ho : Entry.Ordered (run as).timer.queue :=
      (List.pairwise_append.mp (sound_run as).ordered).2.1
    exact ho.head_iff_greatest he
  deadline := fun e hp _ => by
    have he : e ∈ (run as).line := by simp [line_of_holding hp]
    exact ⟨(booked_run as).listed e he, (booked_run as).deadline e he⟩
  starts := fun e hp _ => by
    refine ⟨(sound_run as).due e (by simp [hp, Post.hand]), ?_⟩
    exact (List.pairwise_cons.mp (line_of_holding hp ▸ (sound_run as).ordered)).1
  succession := (booked_run as).succession
  waits := fun _ h => waits_of_step (sound_run as) h

/-- Three entries of which the first is due last. -/
example : (run [.schedule (.ofMillis 40) "a", .schedule (.ofMillis 10) "b",
    .schedule (.ofMillis 25) "c", .look, .pass 50000000, .look, .fire, .finish none, .look, .fire,
    .finish none, .look, .fire]).starts = [1, 2, 0] := by
  decide

end Workforce.Clockwork
