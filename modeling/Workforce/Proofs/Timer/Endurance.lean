import Workforce.Proofs.Timer.Deadlines
import Workforce.Proofs.Timer.Fates
import Mathlib.Tactic.IntervalCases

/-
  What takes the thread of a timer down, and what that costs. An endless run is lively if the
  thread goes on wherever it can: it looks when it is free, when its wait is over and when an entry
  is scheduled while it waits, it fires what it holds, and callbacks end. Along a lively run of a
  timer that is not dropped, the thread is back in its loop after every callback, and every entry
  that is due and never cancelled starts in its turn, if and only if no callback ends by a panic
  whose payload panics once more when it is destroyed (`tended_iff`). If one does, the entries that
  are stranded are those that the queue holds at some time from then on.

  The argument for progress follows one overdue entry. What is scheduled from its deadline on goes
  behind it, so what goes before it is only dealt with (`rank`), and each act by which the thread
  gets on brings its turn nearer. That a waiting thread looks at all is `alarm`: either it
  has waited since before the entry came, and is woken for it, or its wait ends at the entry's
  deadline or earlier.
-/

namespace Workforce.Clockwork

variable {α : Type} {m : Clockwork α} {e x : Entry α} {a : Act α} {as : Nat → Act α}
  {n k seq : Nat}

/-! ## Endless runs -/

/-- The timer after the first acts of an endless run. -/
def stage (as : Nat → Act α) (n : Nat) : Clockwork α := run ((List.range n).map as)

theorem stage_succ : stage as (n + 1) = (stage as n).step (as n) := by
  rw [stage, List.range_succ, List.map_append, run_append]
  rfl

theorem sound_stage (as : Nat → Act α) (n : Nat) : Sound (stage as n) := sound_run _

/-- The thread goes on wherever it can. -/
structure Lively (as : Nat → Act α) : Prop where
  looks : ∀ n, (stage as n).post = .free → ∃ k ≥ n, as k = .look
  /-- A wait ends when its time has come. -/
  wakes : ∀ n t, (stage as n).post = .asleep (some t) → t ≤ (stage as n).now →
    ∃ k ≥ n, as k = .look
  /-- Scheduling an entry wakes the thread. -/
  woken : ∀ n till delay callback, (stage as n).post = .asleep till →
    as n = .schedule delay callback → ∃ k > n, as k = .look
  fires : ∀ n e, (stage as n).post = .holding e → ∃ k ≥ n, as k = .fire
  ends : ∀ n e, (stage as n).post = .running e → ∃ k ≥ n, ∃ panic, as k = .finish panic

/-! ## Getting on -/

/-- The acts by which the thread gets on. -/
inductive Post.MovedBy : Post α → Act α → Prop where
  | looks {p : Post α} (hp : p.looks) : MovedBy p .look
  | fires (e : Entry α) : MovedBy (.holding e) .fire
  | ends (e : Entry α) (panic : Option Payload) : MovedBy (.running e) (.finish panic)

theorem step_look (hp : m.post.looks) : m.step .look = m.look := by
  rw [step]
  split
  case h_1 => rfl
  case h_2 => rfl
  case h_3 hfree hasleep =>
    cases hq : m.post with
    | free => exact absurd hq hfree
    | asleep till => exact absurd hq (hasleep till)
    | _ => rw [hq] at hp; exact hp.elim

theorem step_fire (hp : m.post = .holding e) : m.step .fire = m.fire e := by simp [step, hp]

theorem step_finish (hp : m.post = .running e) (panic : Option Payload) :
    m.step (.finish panic) = { m with post := postAfter panic } := by
  simp [step, hp]

/-- Acts of the thread that do not get it on change nothing. -/
theorem step_of_not_movedBy (h : ¬m.post.MovedBy a) (ha : a = .look ∨ a = .fire ∨ ∃ p, a = .finish p) :
    m.step a = m := by
  obtain rfl | rfl | ⟨panic, rfl⟩ := ha
  · rw [step]
    split
    case h_1 hp => exact absurd (.looks (by rw [hp]; trivial)) h
    case h_2 hp => exact absurd (.looks (by rw [hp]; trivial)) h
    case h_3 => rfl
  · rw [step]
    split
    case h_1 hp => exact absurd (hp ▸ .fires _) h
    case h_2 => rfl
  · rw [step]
    split
    case h_1 hp => exact absurd (hp ▸ .ends _ panic) h
    case h_2 => rfl

/-- Other acts leave the thread where it is, and only scheduling changes the queue. -/
theorem post_of_not_movedBy (h : ¬m.post.MovedBy a) : (m.step a).post = m.post ∧
    ((∃ delay callback, a = .schedule delay callback) ∨
      (m.step a).timer.queue = m.timer.queue) := by
  cases a with
  | pass => exact ⟨rfl, .inr rfl⟩
  | schedule delay callback =>
    refine ⟨?_, .inl ⟨delay, callback, rfl⟩⟩
    rw [step]
    split <;> rfl
  | cancel seq =>
    rw [step]
    split
    case isTrue =>
      rw [cancel, Timer.cancel, Timer.moveOn]
      split <;> exact ⟨rfl, .inr rfl⟩
    case isFalse => exact ⟨rfl, .inr rfl⟩
  | stop => exact ⟨rfl, .inr rfl⟩
  | look => rw [step_of_not_movedBy h (.inl rfl)]; exact ⟨rfl, .inr rfl⟩
  | fire => rw [step_of_not_movedBy h (.inr (.inl rfl))]; exact ⟨rfl, .inr rfl⟩
  | finish panic => rw [step_of_not_movedBy h (.inr (.inr ⟨panic, rfl⟩))]; exact ⟨rfl, .inr rfl⟩

theorem post_fire (m : Clockwork α) (e : Entry α) :
    (m.fire e).post = .running e ∨ (m.fire e).post = .free := by
  simp only [fire]
  split
  · exact .inl rfl
  · exact .inr rfl

/-! ## Waiting threads -/

/-- The thread begins to wait for the first entry, hence for no longer than for any. -/
theorem wait_of_look (hs : Sound m) {till : Option Instant} (h : (m.step .look).post = .asleep till) :
    ∀ x ∈ (m.step .look).timer.queue, ∃ t, till = some t ∧ t ≤ x.due := by
  obtain ⟨-, htill⟩ := waits_of_step hs h
  have ho : Entry.Ordered (m.step .look).timer.queue :=
    (List.pairwise_append.mp (hs.moves (moves m .look)).ordered).2.1
  intro x hx
  cases hq : (m.step .look).timer.queue with
  | nil => rw [hq] at hx; cases hx
  | cons f rest =>
    rw [hq] at htill hx ho
    refine ⟨f.due, htill, ?_⟩
    obtain rfl | hx := List.mem_cons.mp hx
    · exact Nat.le_refl _
    · exact Entry.due_le_of_before ((List.pairwise_cons.mp ho).1 x hx)

/-- Where a thread waits, it looks again, or its wait ends when the first entry is due. -/
theorem alarm (hl : Lively as) (n : Nat) : ∀ till, (stage as n).post = .asleep till →
    (∃ k ≥ n, as k = .look) ∨
      ∀ x ∈ (stage as n).timer.queue, ∃ t, till = some t ∧ t ≤ x.due := by
  induction n with
  | zero =>
    intro till h
    cases h
  | succ n ih =>
    intro till h
    rw [stage_succ] at h ⊢
    by_cases hm : (stage as n).post.MovedBy (as n)
    case pos =>
      -- only a look ends in a wait, and it waits for the head of the queue
      generalize hp : (stage as n).post = p at hm
      generalize as n = a at h hm ⊢
      cases hm with
      | looks => exact .inr (wait_of_look (sound_stage as n) h)
      | fires e =>
        rw [step_fire hp] at h
        obtain hf | hf := post_fire (stage as n) e <;> rw [hf] at h <;> cases h
      | ends e panic =>
        rw [step_finish hp] at h
        unfold postAfter at h
        split at h <;> cases h
    case neg =>
      obtain ⟨hpost, hqueue⟩ := post_of_not_movedBy hm
      rw [hpost] at h
      obtain ⟨delay, callback, ha⟩ | hqueue := hqueue
      · obtain ⟨k, hk, hlook⟩ := hl.woken n till delay callback h ha
        exact .inl ⟨k, hk, hlook⟩
      · obtain ⟨k, hk, hlook⟩ | hall := ih till h
        · have hne : k ≠ n := by
            rintro rfl
            rw [h, hlook] at hm
            exact hm (.looks trivial)
          exact .inl ⟨k, by omega, hlook⟩
        · exact .inr (hqueue ▸ hall)

/-! ## An overdue entry -/

/-- An entry in the line that is due and may still start. -/
structure Overdue (m : Clockwork α) (e : Entry α) : Prop where
  listed : e ∈ m.line
  armed : m.timer.stateOf e.seq = .armed
  due : e.due ≤ m.now

/-- The entry's place in the line. -/
def rank (m : Clockwork α) (e : Entry α) : Nat := m.line.countP fun x => !e.before x

/-- What is scheduled goes behind an overdue entry. -/
theorem Overdue.schedule (h : Overdue m e) (hs : Sound m) (delay : Duration) (callback : α) :
    Overdue (m.schedule delay callback) e ∧ (m.schedule delay callback).rank e = m.rank e := by
  have hlt : e.seq < m.timer.states.length := hs.known e h.listed
  have hb : e.before ⟨m.now.dueAfter delay, m.timer.states.length, callback⟩ = true :=
    Entry.before_of_later (Nat.le_trans h.due (Instant.le_dueAfter m.now delay)) hlt
  refine ⟨⟨?_, ?_, h.due⟩, ?_⟩
  · rw [hs.line_schedule]
    exact Entry.mem_insert.mpr (.inr h.listed)
  · show (m.timer.schedule m.now delay callback).2.stateOf e.seq = .armed
    rw [Timer.stateOf_schedule, if_neg (Nat.ne_of_lt hlt)]
    exact h.armed
  · rw [rank, rank, hs.line_schedule, (Entry.insert_perm _ m.line).countP_eq,
      List.countP_cons_of_neg (by simp [hb])]

/-- A move that leaves the thread where it is leaves an overdue entry in its place, unless it is
cancelled. -/
theorem Overdue.moves {m' : Clockwork α} (h : Overdue m e) (hs : Sound m) (hm : Moves m m')
    (hp : m'.post = m.post) (hc : e.seq ∉ m'.cancels) : Overdue m' e ∧ m'.rank e = m.rank e := by
  cases hm with
  | stays => exact ⟨h, rfl⟩
  | passes nanos => exact ⟨⟨h.listed, h.armed, Nat.le_add_right_of_le h.due⟩, rfl⟩
  | schedules delay callback => exact h.schedule hs delay callback
  | @cancels seq ha =>
    have hne : e.seq ≠ seq := by
      rintro rfl
      simp [cancels, Event.cancelled?] at hc
    refine ⟨⟨h.listed, ?_, h.due⟩, rfl⟩
    rw [Timer.stateOf_set (Timer.lt_of_armed ha), if_neg hne]
    exact h.armed
  | fails => exact ⟨⟨h.listed, h.armed, h.due⟩, rfl⟩
  | stops => exact ⟨⟨h.listed, h.armed, h.due⟩, rfl⟩
  | waits =>
    have hl : ({ m with post := .asleep m.timer.nextDue } : Clockwork α).line = m.line := by
      rw [line, line, hp]
    exact ⟨⟨hl ▸ h.listed, h.armed, h.due⟩, by rw [rank, rank, hl]⟩
  | leaves hq => rw [← hp] at hq; exact hq.elim
  | pops hq => rw [← hp] at hq; exact hq.elim
  | starts hq => rw [← hp] at hq; cases hq
  | skips hq => rw [← hp] at hq; cases hq
  | ends panic hq =>
    rw [← hp] at hq
    simp only [postAfter] at hq
    split at hq <;> cases hq

/-- A thread that looks pops an entry. -/
theorem Overdue.look (h : Overdue m e) (hs : Sound m) (hp : m.post.looks)
    (hstop : m.timer.stopped = false) :
    (∃ x, m.look.post = .holding x) ∧ Overdue m.look e ∧ m.look.rank e = m.rank e := by
  have hmem : e ∈ m.timer.queue := line_of_looks hp ▸ h.listed
  obtain ⟨f, rest, hq⟩ := List.exists_cons_of_ne_nil (List.ne_nil_of_mem hmem)
  have hf : f.due ≤ m.now := by
    rw [hq] at hmem
    obtain rfl | hmem := List.mem_cons.mp hmem
    · exact h.due
    · have ho := line_of_looks hp ▸ hs.ordered
      rw [hq] at ho
      exact Nat.le_trans (Entry.due_le_of_before ((List.pairwise_cons.mp ho).1 e hmem)) h.due
  have hlook : m.look = { m with timer := { m.timer with queue := rest }, post := .holding f } := by
    simp [Clockwork.look, Timer.pop, hstop, hq, hf]
  have hline : m.look.line = m.line := by
    rw [hlook, line_of_looks hp, hq]
    rfl
  refine ⟨⟨f, by rw [hlook]⟩, ⟨hline ▸ h.listed, ?_, ?_⟩, by rw [rank, rank, hline]⟩
  · rw [hlook]
    exact h.armed
  · rw [hlook]
    exact h.due

/-- A thread that fires starts the entry, or deals with one that goes before it. -/
theorem Overdue.fire (h : Overdue m e) (hs : Sound m) (hp : m.post = .holding x) :
    (x = e ∧ (m.fire x).post = .running e) ∨
      Overdue (m.fire x) e ∧ (m.fire x).rank e + 1 = m.rank e := by
  have hline := line_of_holding hp
  have hmem := hline ▸ h.listed
  obtain rfl | hmem := List.mem_cons.mp hmem
  · refine .inl ⟨rfl, ?_⟩
    rw [Clockwork.fire, Timer.fire, Timer.moveOn_of_armed h.armed]
    rfl
  · refine .inr ?_
    have hb : x.before e = true := (List.pairwise_cons.mp (hline ▸ hs.ordered)).1 e hmem
    have hne : e.seq ≠ x.seq := by
      have hn := hline ▸ hs.distinct
      rw [List.map_cons, List.nodup_cons] at hn
      exact fun heq => hn.1 (heq ▸ List.mem_map_of_mem hmem)
    have hfire : (m.fire x).line = m.timer.queue ∧
        (m.fire x).timer.stateOf e.seq = .armed ∧ (m.fire x).now = m.now := by
      rw [Clockwork.fire, Timer.fire]
      by_cases hx : m.timer.stateOf x.seq = .armed
      · rw [Timer.moveOn_of_armed hx]
        refine ⟨rfl, ?_, rfl⟩
        exact (Timer.stateOf_set (Timer.lt_of_armed hx)).trans ((if_neg hne).trans h.armed)
      · rw [Timer.moveOn_of_settled hx]
        exact ⟨rfl, h.armed, rfl⟩
    obtain ⟨hl, ha, hnow⟩ := hfire
    refine ⟨⟨hl ▸ hmem, ha, hnow ▸ h.due⟩, ?_⟩
    rw [rank, rank, hl, hline, List.countP_cons_of_pos (by simp [Entry.not_before hb])]

/-- A callback that ends, in whatever way, leaves the queue as it is. -/
theorem Overdue.finish (h : Overdue m e) (hp : m.post = .running x) (panic : Option Payload) :
    Overdue { m with post := postAfter panic } e ∧
      ({ m with post := postAfter panic } : Clockwork α).rank e = m.rank e := by
  have hline : ({ m with post := postAfter panic } : Clockwork α).line = m.line := by
    rw [line, line, hp, hand_postAfter]
    rfl
  exact ⟨⟨hline ▸ h.listed, h.armed, h.due⟩, by rw [rank, rank, hline]⟩

/-- How far a thread is from its next entry. -/
def Post.lag : Post α → Nat
  | .free => 2
  | .asleep _ => 2
  | .holding _ => 1
  | .running _ => 3
  | _ => 0

theorem Post.looks.lag_eq {p : Post α} (h : p.looks) : p.lag = 2 := by
  cases p <;> first | rfl | exact h.elim

theorem lag_postAfter (panic : Option Payload) : (postAfter panic : Post α).lag ≤ 2 := by
  unfold postAfter
  split
  · exact Nat.zero_le 2
  · exact Nat.le_refl 2

theorem lag_fire (m : Clockwork α) (e : Entry α) : (m.fire e).post.lag ≤ 3 := by
  obtain h | h := post_fire m e
  · rw [h]
    exact Nat.le_refl 3
  · rw [h]
    exact Nat.le_succ 2

/-- How far the thread is from an entry in the line. -/
def distance (m : Clockwork α) (e : Entry α) : Nat := 3 * m.rank e + m.post.lag

/-- An act by which the thread gets on starts an overdue entry, or comes nearer to it. -/
theorem Overdue.nearer (h : Overdue m e) (hs : Sound m) (hstop : m.timer.stopped = false)
    (hm : m.post.MovedBy a) :
    (m.post = .holding e ∧ (m.step a).post = .running e) ∨
      Overdue (m.step a) e ∧ (m.step a).distance e < m.distance e := by
  unfold distance
  generalize hp : m.post = p at hm
  cases hm with
  | looks hl =>
    rw [← hp] at hl
    obtain ⟨⟨x, hx⟩, ho, hr⟩ := h.look hs hl hstop
    rw [step_look hl, ← hp, hl.lag_eq, hx, hr]
    exact .inr ⟨ho, Nat.lt_succ_self _⟩
  | fires x =>
    rw [step_fire hp]
    obtain ⟨rfl, hx⟩ | ⟨ho, hr⟩ := h.fire hs hp
    · exact .inl ⟨rfl, hx⟩
    · have hlag := lag_fire m x
      refine .inr ⟨ho, ?_⟩
      show _ < _ + 1
      omega
  | ends x panic =>
    obtain ⟨ho, hr⟩ := h.finish hp panic
    rw [step_finish hp, hr]
    exact .inr ⟨ho, Nat.add_lt_add_left (Nat.lt_succ_of_le (lag_postAfter panic)) _⟩

/-! ## Progress -/

/-- The timer was not dropped, so the thread has not left. -/
def Kept (m : Clockwork α) : Prop := m.timer.stopped = false ∧ m.post ≠ .gone

theorem Kept.look (h : Kept m) : Kept m.look := by
  unfold Clockwork.look
  rw [if_neg (by simp [h.1])]
  split
  case h_1 e t ht =>
    obtain ⟨-, -, rest, -, rfl⟩ := Timer.pop_eq_some ht
    exact ⟨h.1, fun hp => by cases hp⟩
  case h_2 => exact ⟨h.1, fun hp => by cases hp⟩

theorem Kept.fire (h : Kept m) (e : Entry α) : Kept (m.fire e) := by
  unfold Clockwork.fire Timer.fire Timer.moveOn
  split
  · exact ⟨h.1, fun hp => by cases hp⟩
  · exact ⟨h.1, fun hp => by cases hp⟩

theorem Kept.step (h : Kept m) (ha : a ≠ .stop) : Kept (m.step a) := by
  cases a with
  | pass => exact h
  | schedule =>
    rw [Clockwork.step]
    split <;> exact h
  | cancel seq =>
    rw [Clockwork.step, Clockwork.cancel, Timer.cancel, Timer.moveOn]
    split
    · split <;> exact h
    · exact h
  | stop => exact absurd rfl ha
  | look =>
    rw [Clockwork.step]
    split
    case h_1 => exact h.look
    case h_2 => exact h.look
    case h_3 => exact h
  | fire =>
    rw [Clockwork.step]
    split
    case h_1 e _ => exact h.fire e
    case h_2 => exact h
  | finish panic =>
    rw [Clockwork.step]
    split
    case h_1 =>
      refine ⟨h.1, ?_⟩
      unfold postAfter
      split <;> exact fun hp => by cases hp
    case h_2 => exact h

theorem kept_stage (hkept : ∀ n, as n ≠ .stop) (n : Nat) : Kept (stage as n) := by
  induction n with
  | zero => exact ⟨rfl, fun hp => by cases hp⟩
  | succ n ih => exact stage_succ ▸ ih.step (hkept n)

/-- Where the thread can go on, it does so, and meanwhile an overdue entry keeps its place. -/
theorem Overdue.reach (hc : ∀ k, e.seq ∉ (stage as k).cancels) :
    ∀ d n, Overdue (stage as n) e → (stage as n).post.MovedBy (as (n + d)) →
      ∃ k ≥ n, (stage as k).post = (stage as n).post ∧ (stage as k).post.MovedBy (as k) ∧
        Overdue (stage as k) e ∧ (stage as k).rank e = (stage as n).rank e := by
  intro d
  induction d with
  | zero => exact fun n ho hm => ⟨n, Nat.le_refl n, rfl, hm, ho, rfl⟩
  | succ d ih =>
    intro n ho hm
    by_cases hn : (stage as n).post.MovedBy (as n)
    case pos => exact ⟨n, Nat.le_refl n, rfl, hn, ho, rfl⟩
    case neg =>
      have hpost : (stage as (n + 1)).post = (stage as n).post := by
        rw [stage_succ, (post_of_not_movedBy hn).1]
      have hmoves : Moves (stage as n) (stage as (n + 1)) := stage_succ ▸ Clockwork.moves _ _
      obtain ⟨ho', hrank⟩ := ho.moves (sound_stage as n) hmoves hpost (hc (n + 1))
      have hidx : n + 1 + d = n + (d + 1) := by omega
      obtain ⟨k, hk, hpk, hmk, hok, hrk⟩ := ih (n + 1) ho' (by rw [hpost, hidx]; exact hm)
      exact ⟨k, by omega, hpk.trans hpost, hmk, hok, hrk.trans hrank⟩

/-- Where the thread is not down, it gets on with an overdue entry. -/
theorem Overdue.exists_movedBy (hl : Lively as) (hkept : ∀ n, as n ≠ .stop)
    (h : Overdue (stage as n) e) (hdead : (stage as n).post ≠ .dead) :
    ∃ k ≥ n, (stage as n).post.MovedBy (as k) := by
  cases hp : (stage as n).post with
  | free =>
    obtain ⟨k, hk, ha⟩ := hl.looks n hp
    exact ⟨k, hk, ha ▸ .looks trivial⟩
  | asleep till =>
    have hmem : e ∈ (stage as n).timer.queue := line_of_looks (by rw [hp]; trivial) ▸ h.listed
    obtain ⟨k, hk, ha⟩ | hall := alarm hl n till hp
    · exact ⟨k, hk, ha ▸ .looks trivial⟩
    · obtain ⟨t, rfl, ht⟩ := hall e hmem
      obtain ⟨k, hk, ha⟩ := hl.wakes n t hp (Nat.le_trans ht h.due)
      exact ⟨k, hk, ha ▸ .looks trivial⟩
  | holding x =>
    obtain ⟨k, hk, ha⟩ := hl.fires n x hp
    exact ⟨k, hk, ha ▸ .fires x⟩
  | running x =>
    obtain ⟨k, hk, panic, ha⟩ := hl.ends n x hp
    exact ⟨k, hk, ha ▸ .ends x panic⟩
  | gone => exact absurd hp (kept_stage hkept n).2
  | dead => exact absurd hp hdead

/-- An overdue entry starts in its turn, or it is in the queue of a thread that is down. -/
theorem Overdue.starts_or_stranded (hl : Lively as) (hkept : ∀ n, as n ≠ .stop)
    (hc : ∀ k, e.seq ∉ (stage as k).cancels) (h : Overdue (stage as n) e) :
    (∃ k, (stage as k).post = .holding e ∧ (stage as (k + 1)).post = .running e) ∨
      ∃ k, (stage as k).post = .dead ∧ e ∈ (stage as k).timer.queue := by
  induction hr : (stage as n).distance e using Nat.strongRecOn generalizing n with
  | ind r ih =>
    by_cases hdead : (stage as n).post = .dead
    case pos =>
      refine .inr ⟨n, hdead, ?_⟩
      simpa [line, hdead, Post.hand] using h.listed
    case neg =>
      obtain ⟨k, hk, hm⟩ := h.exists_movedBy hl hkept hdead
      obtain ⟨d, rfl⟩ := Nat.exists_eq_add_of_le hk
      obtain ⟨k, -, hpost, hmk, hok, hrank⟩ := Overdue.reach hc d n h hm
      obtain ⟨hp, hrun⟩ | ⟨ho, hlt⟩ := hok.nearer (sound_stage as k) (kept_stage hkept k).1 hmk
      · exact .inl ⟨k, hp, stage_succ ▸ hrun⟩
      · have heq : (stage as k).distance e = r := by rw [distance, hrank, hpost, ← hr, distance]
        rw [← stage_succ] at ho hlt
        exact ih _ (heq ▸ hlt) ho rfl

/-! ## What the log says -/

theorem moves_stage (as : Nat → Act α) (n : Nat) : Moves (stage as n) (stage as (n + 1)) :=
  stage_succ ▸ moves _ _

theorem Moves.log {m' : Clockwork α} (hm : Moves m m') : m.log <+: m'.log := by
  cases hm with
  | schedules => exact List.prefix_append _ _
  | cancels => exact List.prefix_append _ _
  | fails => exact List.prefix_append _ _
  | starts => exact List.prefix_append _ _
  | _ => exact List.prefix_rfl

theorem log_stage (as : Nat → Act α) (h : k ≤ n) : (stage as k).log <+: (stage as n).log := by
  induction h with
  | refl => exact List.prefix_rfl
  | step _ ih => exact ih.trans (moves_stage as _).log

theorem starts_subset {m' : Clockwork α} (h : m.log <+: m'.log) : m.starts ⊆ m'.starts :=
  (h.filterMap _).subset

theorem cancels_subset {m' : Clockwork α} (h : m.log <+: m'.log) : m.cancels ⊆ m'.cancels :=
  (h.filterMap _).subset

/-- Each entry may still start, has started or was cancelled. -/
def Accounted (m : Clockwork α) : Prop :=
  ∀ seq < m.timer.states.length, m.timer.stateOf seq = .armed ∨ seq ∈ m.starts ∨ seq ∈ m.cancels

/-- An armed entry moves on, and the log says how. -/
theorem Accounted.settle {m' : Clockwork α} {i : Nat} {next : EntryState} (h : Accounted m)
    (ha : m.timer.stateOf i = .armed) (hm : Moves m m')
    (hs : m'.timer = { m.timer with states := m.timer.states.set i next })
    (hi : i ∈ m'.starts ∨ i ∈ m'.cancels) : Accounted m' := by
  intro seq hlt
  rw [hs, List.length_set] at hlt
  by_cases heq : seq = i
  case pos => exact .inr (heq ▸ hi)
  case neg =>
    obtain ha' | hst | hc := h seq hlt
    · rw [hs, Timer.stateOf_set (Timer.lt_of_armed ha), if_neg heq]
      exact .inl ha'
    · exact .inr (.inl (starts_subset hm.log hst))
    · exact .inr (.inr (cancels_subset hm.log hc))

theorem Accounted.moves {m' : Clockwork α} (h : Accounted m) (hm : Moves m m') :
    Accounted m' := by
  have hlog := hm
  cases hm with
  | schedules delay callback =>
    intro seq hlt
    have hstate := Timer.stateOf_schedule (i := seq) (t := m.timer) m.now delay callback
    have hlen : (m.schedule delay callback).timer.states.length =
        m.timer.states.length + 1 := by
      simp [Clockwork.schedule, Timer.schedule]
    by_cases heq : seq = m.timer.states.length
    case pos => exact .inl (hstate.trans (if_pos heq))
    case neg =>
      obtain ha | hst | hc := h seq (by omega)
      · exact .inl (hstate.trans ((if_neg heq).trans ha))
      · exact .inr (.inl (starts_subset hlog.log hst))
      · exact .inr (.inr (cancels_subset hlog.log hc))
  | cancels ha => exact h.settle ha hlog rfl (.inr (by simp [cancels, Event.cancelled?]))
  | starts hp ha => exact h.settle ha hlog rfl (.inl (by simp [starts, Event.started?]))
  | fails =>
    intro seq hlt
    obtain ha | hst | hc := h seq hlt
    · exact .inl ha
    · exact .inr (.inl (starts_subset hlog.log hst))
    · exact .inr (.inr (cancels_subset hlog.log hc))
  | _ => exact h

theorem accounted_stage (as : Nat → Act α) (n : Nat) : Accounted (stage as n) :=
  run_induction (P := Accounted) (fun _ h => by cases h)
    (fun m a h => h.moves (Clockwork.moves m a)) _

/-! ## Starts -/

/-- An entry starts when it is due, before all that wait. -/
structure StartsInTurn (as : Nat → Act α) (k : Nat) (e : Entry α) : Prop where
  popped : (stage as k).post = .holding e
  started : (stage as (k + 1)).post = .running e
  due : e.due ≤ (stage as k).now
  first : ∀ x ∈ (stage as k).timer.queue, e.before x = true

theorem startsInTurn_of_post (hp : (stage as k).post = .holding e)
    (hr : (stage as (k + 1)).post = .running e) : StartsInTurn as k e where
  popped := hp
  started := hr
  due := (sound_stage as k).due e (by simp [hp, Post.hand])
  first := (List.pairwise_cons.mp (line_of_holding hp ▸ (sound_stage as k).ordered)).1

/-- A start is logged as the thread begins to run what it held. -/
theorem Moves.started {m' : Clockwork α} (hm : Moves m m') :
    (∃ e, m.post = .holding e ∧ m'.post = .running e ∧ m'.starts = m.starts ++ [e.seq]) ∨
      m'.starts = m.starts ∧ ∀ e, m'.post = .running e → m.post = .running e := by
  cases hm with
  | starts hp => exact .inl ⟨_, hp, rfl, by simp [Clockwork.starts, Event.started?]⟩
  | schedules => exact .inr ⟨by simp [Clockwork.starts, Clockwork.schedule, Event.started?], fun _ h => h⟩
  | cancels => exact .inr ⟨by simp [Clockwork.starts, Event.started?], fun _ h => h⟩
  | fails => exact .inr ⟨by simp [Clockwork.starts, Event.started?], fun _ h => h⟩
  | ends panic =>
    refine .inr ⟨rfl, fun e h => ?_⟩
    simp only [postAfter] at h
    split at h <;> cases h
  | leaves => exact .inr ⟨rfl, fun _ h => by cases h⟩
  | pops => exact .inr ⟨rfl, fun _ h => by cases h⟩
  | waits => exact .inr ⟨rfl, fun _ h => by cases h⟩
  | skips => exact .inr ⟨rfl, fun _ h => by cases h⟩
  | _ => exact .inr ⟨rfl, fun _ h => h⟩

theorem StartsInTurn.mem_starts (h : StartsInTurn as k e) :
    e.seq ∈ (stage as (k + 1)).starts := by
  obtain ⟨x, hp, -, hst⟩ | ⟨-, hpost⟩ := (moves_stage as k).started
  · obtain rfl : e = x := by simpa [h.popped] using hp
    simp [hst]
  · have hrun := hpost e h.started
    rw [h.popped] at hrun
    cases hrun

/-- What has started by then, started in its turn. -/
theorem startsInTurn_of_mem (h : seq ∈ (stage as n).starts) :
    ∃ k e, e.seq = seq ∧ StartsInTurn as k e := by
  induction n with
  | zero => cases h
  | succ n ih =>
    obtain ⟨x, hp, hr, hst⟩ | ⟨hst, -⟩ := (moves_stage as n).started
    · rw [hst] at h
      obtain h | h := List.mem_append.mp h
      · exact ih h
      · exact ⟨n, x, (List.mem_singleton.mp h).symm, startsInTurn_of_post hp hr⟩
    · exact ih (hst ▸ h)

/-! ## Threads that are down -/

theorem Moves.of_dead {m' : Clockwork α} (hm : Moves m m') (hp : m.post = .dead) :
    m'.post = .dead ∧ m'.starts = m.starts := by
  have hst : m'.starts = m.starts := by
    obtain ⟨e, he, -⟩ | ⟨hst, -⟩ := hm.started
    · rw [hp] at he
      cases he
    · exact hst
  refine ⟨?_, hst⟩
  cases hm with
  | leaves hq => rw [hp] at hq; exact hq.elim
  | pops hq => rw [hp] at hq; exact hq.elim
  | waits hq => rw [hp] at hq; exact hq.elim
  | starts hq => rw [hp] at hq; cases hq
  | skips hq => rw [hp] at hq; cases hq
  | ends _ hq => rw [hp] at hq; cases hq
  | _ => exact hp

/-- Nothing starts any more on a thread that is down. -/
theorem stage_of_dead (hp : (stage as k).post = .dead) (h : k ≤ n) :
    (stage as n).post = .dead ∧ (stage as n).starts = (stage as k).starts := by
  induction h with
  | refl => exact ⟨hp, rfl⟩
  | step _ ih =>
    obtain ⟨hdead, hst⟩ := (moves_stage as _).of_dead ih.1
    exact ⟨hdead, hst.trans ih.2⟩

theorem postAfter_eq_free {panic : Option Payload} :
    (postAfter panic : Post α) = .free ↔ panic ≠ some .explosive := by
  unfold postAfter
  cases panic with
  | none => simp
  | some p => cases p <;> simp [Payload.aftershock]

theorem look_ne_dead (m : Clockwork α) : m.look.post ≠ .dead := by
  unfold look
  split
  · nofun
  · split <;> nofun

/-- A thread goes down only by a callback whose panic panics once more. -/
theorem ne_dead_of_calm
    (h : ∀ n e, (stage as n).post = .running e → as n ≠ .finish (some .explosive)) (n : Nat) :
    (stage as n).post ≠ .dead := by
  induction n with
  | zero => nofun
  | succ n ih =>
    rw [stage_succ]
    by_cases hm : (stage as n).post.MovedBy (as n)
    case pos =>
      have hcalm := h n
      generalize hp : (stage as n).post = p at hm hcalm
      generalize as n = a at hm hcalm
      cases hm with
      | looks hl =>
        rw [step_look (hp ▸ hl)]
        exact look_ne_dead _
      | fires e =>
        rw [step_fire hp]
        obtain hf | hf := post_fire (stage as n) e <;> rw [hf] <;> nofun
      | ends e panic =>
        have hfree : (postAfter panic : Post α) = .free :=
          postAfter_eq_free.mpr fun heq => hcalm e rfl (heq ▸ rfl)
        rw [step_finish hp, hfree]
        nofun
    case neg =>
      rw [(post_of_not_movedBy hm).1]
      exact ih

/-- Among entries that are due and never cancelled, those start that no queue of a thread that is
down holds. -/
theorem starts_iff_not_stranded {now : Instant} {delay : Duration} (hl : Lively as)
    (hkept : ∀ n, as n ≠ .stop) (hs : .scheduled seq now delay ∈ (stage as n).log)
    (hdue : now.dueAfter delay ≤ (stage as n).now) (hc : ∀ k, seq ∉ (stage as k).cancels) :
    (∃ k e, e.seq = seq ∧ StartsInTurn as k e) ↔
      ∀ k, (stage as k).post = .dead → ∀ e ∈ (stage as k).timer.queue, e.seq ≠ seq := by
  constructor
  · rintro ⟨k, e, rfl, hturn⟩ j hdead x hx hseq
    have hx' : x.seq ∉ (stage as j).starts :=
      (recorded_run _).unstarted x (List.mem_append_right _ hx)
    apply hx'
    rw [hseq]
    obtain hkj | hjk := Nat.le_total (k + 1) j
    · exact starts_subset (log_stage as hkj) hturn.mem_starts
    · rw [← (stage_of_dead hdead hjk).2]
      exact hturn.mem_starts
  · intro hnot
    have hbooked : Booked (stage as n) := booked_run _
    obtain ha | hst | hcan := accounted_stage as n seq (hbooked.past seq ⟨now, delay, hs⟩)
    · obtain ⟨e, he, rfl⟩ := (sound_stage as n).waiting seq ha
      have ho : Overdue (stage as n) e := ⟨he, ha, hbooked.deadline e he now delay hs ▸ hdue⟩
      obtain ⟨k, hp, hr⟩ | ⟨k, hdead, hmem⟩ := ho.starts_or_stranded hl hkept hc
      · exact ⟨k, e, rfl, startsInTurn_of_post hp hr⟩
      · exact absurd rfl (hnot k hdead e hmem)
    · exact startsInTurn_of_mem hst
    · exact absurd hcan (hc n)

/-! ## No callback takes the timer down -/

/-- No callback takes the timer down. -/
structure Tended (as : Nat → Act α) : Prop where
  /-- After a callback the thread is back in its loop, and the timer is as it was left. -/
  back : ∀ n e panic, (stage as n).post = .running e → as n = .finish panic →
    (stage as (n + 1)).post = .free ∧ (stage as (n + 1)).timer = (stage as n).timer
  /-- Each entry that the clock finds due and that is never cancelled starts in its turn. -/
  served : ∀ n seq now delay, .scheduled seq now delay ∈ (stage as n).log →
    now.dueAfter delay ≤ (stage as n).now → (∀ k, seq ∉ (stage as k).cancels) →
    ∃ k e, e.seq = seq ∧ StartsInTurn as k e

/-- Along a lively run of a timer that is not dropped, no callback takes the timer down if and only
if none ends by a panic whose payload panics once more when it is destroyed. In any case, of the
entries that are due and never cancelled those start that no queue of a thread that is down
holds. -/
theorem tended_iff (hl : Lively as) (hkept : ∀ n, as n ≠ .stop) :
    (Tended as ↔
      ∀ n e, (stage as n).post = .running e → as n ≠ .finish (some .explosive)) ∧
    ∀ n seq now delay, .scheduled seq now delay ∈ (stage as n).log →
      now.dueAfter delay ≤ (stage as n).now → (∀ k, seq ∉ (stage as k).cancels) →
      ((∃ k e, e.seq = seq ∧ StartsInTurn as k e) ↔
        ∀ k, (stage as k).post = .dead → ∀ e ∈ (stage as k).timer.queue, e.seq ≠ seq) := by
  refine ⟨⟨fun h n e hp ha => ?_, fun h => ⟨fun n e panic hp ha => ?_, ?_⟩⟩, ?_⟩
  · have hfree := (h.back n e _ hp ha).1
    rw [stage_succ, ha, step_finish hp] at hfree
    exact postAfter_eq_free.mp hfree rfl
  · rw [stage_succ, ha, step_finish hp]
    refine ⟨postAfter_eq_free.mpr fun heq => h n e hp ?_, rfl⟩
    rw [ha, heq]
  · intro n seq now delay hs hdue hc
    exact (starts_iff_not_stranded hl hkept hs hdue hc).mpr fun k hdead =>
      absurd hdead (ne_dead_of_calm h k)
  · intro n seq now delay hs hdue hc
    exact starts_iff_not_stranded hl hkept hs hdue hc

/-! ## Runs that come to rest -/

/-- The acts of a list, and looks ever after. -/
def thenLooks (acts : List (Act α)) (n : Nat) : Act α := (acts[n]?).getD .look

/-- Two callbacks are due, of which the first ends so. -/
def twoDue (panic : Option Payload) : List (Act String) :=
  [.schedule (.ofMillis 10) "a", .schedule (.ofMillis 20) "b", .pass 20000000, .look, .fire,
    .finish panic, .look, .fire, .finish none, .look]

theorem stage_thenLooks_of_le {acts : List (Act α)} (h : n ≤ acts.length) :
    stage (thenLooks acts) n = run (acts.take n) := by
  rw [stage]
  congr 1
  apply List.ext_getElem
  · simp [h]
  · intro i h₁ h₂
    have hi : i < acts.length := by simp at h₂; omega
    simp [thenLooks, hi]

theorem stage_thenLooks {acts : List (Act α)} (hrest : (run acts).step .look = run acts)
    (h : acts.length ≤ n) : stage (thenLooks acts) n = run acts := by
  induction h with
  | refl => rw [stage_thenLooks_of_le (Nat.le_refl _), List.take_length]
  | @step n hn ih =>
    have hlook : thenLooks acts n = .look := by
      rw [thenLooks, List.getElem?_eq_none hn]
      rfl
    rw [stage_succ, ih, hlook, hrest]

/-- A thread with nothing to wait for stays where it is, and so does one that is down. -/
theorem step_look_of_rest (h : m.post = .asleep none ∧ m.timer.stopped = false ∧
    m.timer.queue = [] ∨ m.post = .dead) : m.step .look = m := by
  obtain ⟨timer, post, now, log⟩ := m
  obtain ⟨rfl, hs, hq⟩ | rfl := h
  · have hpop : timer.pop now = none := by
      rw [Timer.pop, hq]
      split <;> rfl
    have hnext : timer.nextDue = none := by simp [Timer.nextDue_eq hs, show timer.queue = [] from hq]
    simp [step, look, show timer.stopped = false from hs, hpop, hnext]
  · rfl

theorem rest_twoDue (panic : Option Payload) :
    (run (twoDue panic)).post = .asleep none ∧ (run (twoDue panic)).timer.stopped = false ∧
      (run (twoDue panic)).timer.queue = [] ∨ (run (twoDue panic)).post = .dead := by
  obtain _ | _ | _ | _ := panic
  · exact .inl ⟨rfl, rfl, rfl⟩
  · exact .inl ⟨rfl, rfl, rfl⟩
  · exact .inl ⟨rfl, rfl, rfl⟩
  · exact .inr rfl

/-- What such a run does is over after ten acts. -/
theorem stage_twoDue (panic : Option Payload) (h : 10 ≤ n) :
    stage (thenLooks (twoDue panic)) n = run (twoDue panic) :=
  stage_thenLooks (step_look_of_rest (rest_twoDue panic)) h

theorem thenLooks_ne {acts : List (Act α)} (hx : a ∉ acts) (ha : a ≠ .look) (n : Nat) :
    thenLooks acts n ≠ a := by
  unfold thenLooks
  cases h : acts[n]? with
  | none => exact ha.symm
  | some b => exact fun heq => hx (heq ▸ List.mem_of_getElem? h)

theorem holding_twoDue {panic : Option Payload} {e : Entry String} (hn : n < 10)
    (h : (stage (thenLooks (twoDue panic)) n).post = .holding e) : n = 4 ∨ n = 7 := by
  rw [stage_thenLooks_of_le (Nat.le_of_lt hn)] at h
  obtain _ | _ | _ | _ := panic
  all_goals interval_cases n
  all_goals first | exact .inl rfl | exact .inr rfl | cases h

theorem running_twoDue {panic : Option Payload} {e : Entry String} (hn : n < 10)
    (h : (stage (thenLooks (twoDue panic)) n).post = .running e) : n = 5 ∨ n = 8 := by
  rw [stage_thenLooks_of_le (Nat.le_of_lt hn)] at h
  obtain _ | _ | _ | _ := panic
  all_goals interval_cases n
  all_goals first | exact .inl rfl | exact .inr rfl | cases h

theorem lively_twoDue (panic : Option Payload) : Lively (thenLooks (twoDue panic)) := by
  have hlook (n : Nat) (h : 10 ≤ n) : thenLooks (twoDue panic) n = .look := by
    rw [thenLooks, List.getElem?_eq_none h]
    rfl
  constructor
  case looks => exact fun n _ => ⟨max n 10, by omega, hlook _ (by omega)⟩
  case wakes => exact fun n _ _ _ => ⟨max n 10, by omega, hlook _ (by omega)⟩
  case woken => exact fun n _ _ _ _ _ => ⟨max (n + 1) 10, by omega, hlook _ (by omega)⟩
  case fires =>
    intro n e h
    obtain hn | hn := Nat.lt_or_ge n 10
    · obtain rfl | rfl := holding_twoDue hn h
      · exact ⟨4, Nat.le_refl 4, rfl⟩
      · exact ⟨7, Nat.le_refl 7, rfl⟩
    · rw [stage_twoDue panic hn] at h
      obtain ⟨hp, -⟩ | hp := rest_twoDue panic <;> rw [hp] at h <;> cases h
  case ends =>
    intro n e h
    obtain hn | hn := Nat.lt_or_ge n 10
    · obtain rfl | rfl := running_twoDue hn h
      · exact ⟨5, Nat.le_refl 5, panic, rfl⟩
      · exact ⟨8, Nat.le_refl 8, none, rfl⟩
    · rw [stage_twoDue panic hn] at h
      obtain ⟨hp, -⟩ | hp := rest_twoDue panic <;> rw [hp] at h <;> cases h

theorem twoDue_ne_stop (panic : Option Payload) (n : Nat) : thenLooks (twoDue panic) n ≠ .stop := by
  have hmem : Act.stop ∉ twoDue panic := by simp [twoDue]
  exact thenLooks_ne hmem nofun n

/-- The first callback panics, and the second one starts all the same. -/
theorem tended_twoDue : Lively (thenLooks (twoDue (some .unreadable))) ∧
    (∀ n, thenLooks (twoDue (some .unreadable)) n ≠ .stop) ∧
    Tended (thenLooks (twoDue (some .unreadable))) := by
  have hcalm : Act.finish (some .explosive) ∉ twoDue (some .unreadable) := by simp [twoDue]
  refine ⟨lively_twoDue _, twoDue_ne_stop _, ?_⟩
  exact (tended_iff (lively_twoDue _) (twoDue_ne_stop _)).1.mpr fun n e _ => thenLooks_ne hcalm nofun n

/-- The payload of the first callback's panic takes the thread down, and the second callback, due
and never cancelled, never starts. -/
theorem felled_by_callback : Lively (thenLooks (twoDue (some .explosive))) ∧
    (∀ n, thenLooks (twoDue (some .explosive)) n ≠ .stop) ∧
    .scheduled 1 0 (.ofMillis 20) ∈ (stage (thenLooks (twoDue (some .explosive))) 3).log ∧
    Instant.dueAfter 0 (.ofMillis 20) ≤ (stage (thenLooks (twoDue (some .explosive))) 3).now ∧
    (∀ k, 1 ∉ (stage (thenLooks (twoDue (some .explosive))) k).cancels) ∧
    (∀ k, 1 ∉ (stage (thenLooks (twoDue (some .explosive))) k).starts) ∧
    ¬Tended (thenLooks (twoDue (some .explosive))) := by
  have hend (k : Nat) : stage (thenLooks (twoDue (some .explosive))) (max k 10) =
      run (twoDue (some .explosive)) :=
    stage_twoDue _ (Nat.le_max_right k 10)
  have hcancels (k : Nat) : 1 ∉ (stage (thenLooks (twoDue (some .explosive))) k).cancels :=
    fun h => by
      have h := cancels_subset (log_stage _ (Nat.le_max_left k 10)) h
      rw [hend k] at h
      revert h
      decide
  have hstarts (k : Nat) : 1 ∉ (stage (thenLooks (twoDue (some .explosive))) k).starts :=
    fun h => by
      have h := starts_subset (log_stage _ (Nat.le_max_left k 10)) h
      rw [hend k] at h
      revert h
      decide
  have hlog : .scheduled 1 0 (.ofMillis 20) ∈
      (stage (thenLooks (twoDue (some .explosive))) 3).log :=
    .tail _ (.head _)
  have hdue : Instant.dueAfter 0 (.ofMillis 20) ≤
      (stage (thenLooks (twoDue (some .explosive))) 3).now := by
    decide
  refine ⟨lively_twoDue _, twoDue_ne_stop _, hlog, hdue, hcancels, hstarts, fun h => ?_⟩
  obtain ⟨k, e, hseq, hturn⟩ := h.served 3 1 0 (.ofMillis 20) hlog hdue hcancels
  exact hstarts (k + 1) (hseq ▸ hturn.mem_starts)

end Workforce.Clockwork
