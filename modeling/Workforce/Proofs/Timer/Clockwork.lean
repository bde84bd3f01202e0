import Workforce.Payload
import Workforce.Proofs.Timer.Order

/-
  The thread of a timer among all other threads. The thread looks at the queue, pops what is due,
  lets go of the queue, fires what it popped and runs the callback; in between, anyone schedules
  and cancels entries, callbacks of the timer included, and the timer may be dropped. Each look,
  each scheduling and the drop is one locked section; the state of an entry changes on its own.

  Model. The clock stands still or goes forward between two acts. Acts that cannot take place
  change nothing, so every list of acts is a run. A thread that waits may look again at any time,
  since it may be woken for no reason. A callback takes as long as it takes, and returns or panics;
  a panic whose payload panics once more when it is destroyed takes the thread down. A timer whose
  thread could not be started is one whose thread never looks. The clock is more than a year away
  from the last point in time.
-/

namespace Workforce

/-- What the thread of a timer is doing. -/
inductive Clockwork.Post (α : Type) where
  /-- It is about to look at the queue. -/
  | free
  /-- It waits, at most until some point in time. -/
  | asleep (till : Option Instant)
  /-- It has popped an entry and let go of the queue. -/
  | holding (e : Entry α)
  /-- It runs the callback of an entry. -/
  | running (e : Entry α)
  /-- It has found the timer dropped, and left. -/
  | gone
  /-- It was taken down by a callback. -/
  | dead

/-- What is logged. -/
inductive Clockwork.Event (α : Type) where
  /-- An entry is scheduled with a delay. -/
  | scheduled (seq : Nat) (now : Instant) (delay : Duration)
  /-- A call to cancel an entry returns. -/
  | cancelled (seq : Nat) (done : Bool)
  /-- The callback of an entry starts. -/
  | started (e : Entry α)

/-- The entry whose callback starts. -/
def Clockwork.Event.started? {α : Type} : Clockwork.Event α → Option Nat
  | .started e => some e.seq
  | _ => none

/-- The entry that a call says to have cancelled. -/
def Clockwork.Event.cancelled? {α : Type} : Clockwork.Event α → Option Nat
  | .cancelled seq true => some seq
  | _ => none

/-- What can happen. -/
inductive Clockwork.Act (α : Type) where
  /-- Time passes. -/
  | pass (nanos : Nat)
  | schedule (delay : Duration) (callback : α)
  | cancel (seq : Nat)
  /-- The timer is dropped. -/
  | stop
  /-- The thread looks at the queue. -/
  | look
  /-- The thread fires the entry that it has popped. -/
  | fire
  /-- The callback that runs ends, perhaps by a panic. -/
  | finish (panic : Option Payload)

/-- A timer with its thread. -/
structure Clockwork (α : Type) where
  timer : Timer α := {}
  post : Clockwork.Post α := .free
  now : Instant := 0
  /-- What has happened, oldest first. -/
  log : List (Clockwork.Event α) := []

namespace Clockwork

variable {α : Type}

/-- The entries whose callbacks have started, in that order. -/
def starts (m : Clockwork α) : List Nat := m.log.filterMap Event.started?

/-- The entries that calls say to have cancelled, in that order. -/
def cancels (m : Clockwork α) : List Nat := m.log.filterMap Event.cancelled?

/-! ## Acts -/

def schedule (m : Clockwork α) (delay : Duration) (callback : α) : Clockwork α :=
  let r := m.timer.schedule m.now delay callback
  { m with timer := r.2, log := m.log ++ [.scheduled r.1 m.now delay] }

def cancel (m : Clockwork α) (seq : Nat) : Clockwork α :=
  let r := m.timer.cancel seq
  { m with timer := r.2, log := m.log ++ [.cancelled seq r.1] }

/-- The thread looks at the queue: it leaves, pops an entry or waits. -/
def look (m : Clockwork α) : Clockwork α :=
  if m.timer.stopped then { m with post := .gone }
  else
    match m.timer.pop m.now with
    | some (e, t) => { m with timer := t, post := .holding e }
    | none => { m with post := .asleep m.timer.nextDue }

/-- The thread fires an entry, and runs its callback unless the entry was cancelled. -/
def fire (m : Clockwork α) (e : Entry α) : Clockwork α :=
  let r := m.timer.fire e
  if r.1 then { m with timer := r.2, post := .running e, log := m.log ++ [.started e] }
  else { m with timer := r.2, post := .free }

/-- Where the thread is after a callback. -/
def postAfter (panic : Option Payload) : Post α :=
  if (panic.bind Payload.aftershock).isSome then .dead else .free

/-- Lets something happen, if it can. -/
def step (m : Clockwork α) : Act α → Clockwork α
  | .pass nanos => { m with now := m.now + nanos }
  | .schedule delay callback => if m.timer.stopped then m else m.schedule delay callback
  | .cancel seq => if seq < m.timer.states.length then m.cancel seq else m
  | .stop => { m with timer := m.timer.stop }
  | .look =>
    match m.post with
    | .free => m.look
    | .asleep _ => m.look
    | _ => m
  | .fire =>
    match m.post with
    | .holding e => m.fire e
    | _ => m
  | .finish panic =>
    match m.post with
    | .running _ => { m with post := postAfter panic }
    | _ => m

/-- A new timer after some acts. -/
def run (as : List (Act α)) : Clockwork α := as.foldl step {}

theorem run_append (as bs : List (Act α)) : run (as ++ bs) = bs.foldl step (run as) :=
  List.foldl_append

/-- What holds of a new timer and is kept by every act holds after every run. -/
theorem run_induction {P : Clockwork α → Prop} (start : P {})
    (step : ∀ m a, P m → P (m.step a)) (as : List (Act α)) : P (run as) :=
  List.foldlRecOn as _ start fun m hm a _ => step m a hm

/-! ## Moves -/

/-- The thread has no entry that it popped, and none whose callback it runs. -/
def Post.looks : Post α → Prop
  | .free => True
  | .asleep _ => True
  | _ => False

/-- The ways in which an act changes a timer. -/
inductive Moves (m : Clockwork α) : Clockwork α → Prop where
  | stays : Moves m m
  | passes (nanos : Nat) : Moves m { m with now := m.now + nanos }
  | schedules (delay : Duration) (callback : α) (hs : m.timer.stopped = false) :
      Moves m (m.schedule delay callback)
  | cancels {seq : Nat} (h : m.timer.stateOf seq = .armed) : Moves m { m with
      timer := { m.timer with states := m.timer.states.set seq .cancelled }
      log := m.log ++ [.cancelled seq true] }
  | fails {seq : Nat} (h : m.timer.stateOf seq ≠ .armed) :
      Moves m { m with log := m.log ++ [.cancelled seq false] }
  | stops : Moves m { m with timer := m.timer.stop }
  | leaves (hp : m.post.looks) : Moves m { m with post := .gone }
  | pops {e : Entry α} {rest : List (Entry α)} (hp : m.post.looks) (hs : m.timer.stopped = false)
      (hq : m.timer.queue = e :: rest) (hdue : e.due ≤ m.now) :
      Moves m { m with timer := { m.timer with queue := rest }, post := .holding e }
  | waits (hp : m.post.looks) (hs : m.timer.stopped = false) (hn : m.timer.pop m.now = none) :
      Moves m { m with post := .asleep m.timer.nextDue }
  | starts {e : Entry α} (hp : m.post = .holding e) (h : m.timer.stateOf e.seq = .armed) :
      Moves m { m with
        timer := { m.timer with states := m.timer.states.set e.seq .fired }
        post := .running e, log := m.log ++ [.started e] }
  | skips {e : Entry α} (hp : m.post = .holding e) (h : m.timer.stateOf e.seq ≠ .armed) :
      Moves m { m with post := .free }
  | ends {e : Entry α} (panic : Option Payload) (hp : m.post = .running e) :
      Moves m { m with post := postAfter panic }

theorem moves_look (m : Clockwork α) (hp : m.post.looks) : Moves m m.look := by
  unfold look
  split
  case isTrue => exact .leaves hp
  case isFalse h =>
    have hs : m.timer.stopped = false := by simpa using h
    split
    case h_1 e t ht =>
      obtain ⟨-, hdue, rest, hq, rfl⟩ := Timer.pop_eq_some ht
      exact .pops hp hs hq hdue
    case h_2 hn => exact .waits hp hs hn

theorem moves_fire (m : Clockwork α) {e : Entry α} (hp : m.post = .holding e) :
    Moves m (m.fire e) := by
  unfold fire Timer.fire
  by_cases h : m.timer.stateOf e.seq = .armed
  · rw [Timer.moveOn_of_armed h]
    exact .starts hp h
  · rw [Timer.moveOn_of_settled h]
    exact .skips hp h

theorem moves_cancel (m : Clockwork α) (seq : Nat) : Moves m (m.cancel seq) := by
  unfold cancel Timer.cancel
  by_cases h : m.timer.stateOf seq = .armed
  · rw [Timer.moveOn_of_armed h]
    exact .cancels h
  · rw [Timer.moveOn_of_settled h]
    exact .fails h

theorem moves (m : Clockwork α) (a : Act α) : Moves m (m.step a) := by
  cases a with
  | pass nanos => exact .passes nanos
  | schedule delay callback =>
    rw [step]
    split
    case isTrue => exact .stays
    case isFalse h => exact .schedules delay callback (by simpa using h)
  | cancel seq =>
    rw [step]
    split
    case isTrue => exact moves_cancel m seq
    case isFalse => exact .stays
  | stop => exact .stops
  | look =>
    rw [step]
    split
    case h_1 hp => exact moves_look m (by rw [hp]; trivial)
    case h_2 hp => exact moves_look m (by rw [hp]; trivial)
    case h_3 => exact .stays
  | fire =>
    rw [step]
    split
    case h_1 hp => exact moves_fire m hp
    case h_2 => exact .stays
  | finish panic =>
    rw [step]
    split
    case h_1 hp => exact .ends panic hp
    case h_2 => exact .stays

/-! ## The line -/

/-- The entry that the thread has popped and not yet fired. -/
def Post.hand : Post α → List (Entry α)
  | .holding e => [e]
  | _ => []

theorem Post.hand_eq (p : Post α) : p.hand = [] ∨ ∃ e, p = .holding e := by
  cases p with
  | holding e => exact .inr ⟨e, rfl⟩
  | _ => exact .inl rfl

theorem Post.looks.hand_eq {p : Post α} (h : p.looks) : p.hand = [] := by
  cases p <;> first | rfl | exact h.elim

@[simp]
theorem hand_postAfter (panic : Option Payload) : (postAfter panic : Post α).hand = [] := by
  unfold postAfter
  split <;> rfl

/-- The entries that were not dealt with yet: the popped one, and then the queue. -/
def line (m : Clockwork α) : List (Entry α) := m.post.hand ++ m.timer.queue

theorem line_of_holding {m : Clockwork α} {e : Entry α} (hp : m.post = .holding e) :
    m.line = e :: m.timer.queue := by
  rw [line, hp]
  rfl

theorem line_of_looks {m : Clockwork α} (hp : m.post.looks) : m.line = m.timer.queue := by
  rw [line, hp.hand_eq, List.nil_append]

/-- What holds of the line, the states and the clock at any time. -/
structure Sound (m : Clockwork α) : Prop where
  /-- The line is in firing order. -/
  ordered : Entry.Ordered m.line
  distinct : (m.line.map Entry.seq).Nodup
  known : ∀ e ∈ m.line, e.seq < m.timer.states.length
  due : ∀ e ∈ m.post.hand, e.due ≤ m.now
  /-- Entries that are armed wait in the line. -/
  waiting : ∀ seq, m.timer.stateOf seq = .armed → ∃ e ∈ m.line, e.seq = seq

section

variable {m m' : Clockwork α} {delay : Duration} {callback : α} {e : Entry α} {seq : Nat}

theorem sound_start : Sound ({} : Clockwork α) where
  ordered := .nil
  distinct := .nil
  known := nofun
  due := nofun
  waiting := fun _ h => by simp [Timer.stateOf] at h

/-- A move that leaves the line and the states alone. -/
theorem Sound.of_eq (h : Sound m) (hl : m'.line = m.line)
    (hs : m'.timer.states = m.timer.states) (hd : ∀ e ∈ m'.post.hand, e.due ≤ m'.now) :
    Sound m' where
  ordered := hl ▸ h.ordered
  distinct := hl ▸ h.distinct
  known := by rw [hl, hs]; exact h.known
  due := hd
  waiting := fun seq ha => by
    rw [hl]
    exact h.waiting seq (by rwa [Timer.stateOf, hs] at ha)

/-- An entry in hand stays in front of the entries that are scheduled from then on. -/
theorem Sound.line_schedule (h : Sound m) : (m.schedule delay callback).line =
    Entry.insert ⟨m.now.dueAfter delay, m.timer.states.length, callback⟩ m.line := by
  obtain hnil | ⟨e, hp⟩ := m.post.hand_eq
  · simp [line, schedule, hnil, Timer.schedule]
  · have he : e ∈ m.line := by simp [line_of_holding hp]
    have hdue : e.due ≤ m.now := h.due e (by simp [hp, Post.hand])
    have hb : e.before ⟨m.now.dueAfter delay, m.timer.states.length, callback⟩ = true :=
      Entry.before_of_later (Nat.le_trans hdue (Instant.le_dueAfter m.now delay)) (h.known e he)
    rw [line_of_holding hp, Entry.insert, Entry.not_before hb]
    simp [line, schedule, hp, Post.hand, Timer.schedule]

theorem Sound.schedule (h : Sound m) : Sound (m.schedule delay callback) where
  ordered := by
    rw [h.line_schedule]
    exact h.ordered.insert fun x hx => Nat.ne_of_lt (h.known x hx)
  distinct := by
    rw [h.line_schedule, ((Entry.insert_perm _ m.line).map Entry.seq).nodup_iff, List.map_cons,
      List.nodup_cons]
    refine ⟨fun hmem => ?_, h.distinct⟩
    obtain ⟨x, hx, heq⟩ := List.mem_map.mp hmem
    exact Nat.ne_of_lt (h.known x hx) heq
  known := by
    rw [h.line_schedule]
    intro x hx
    have hlen : (m.schedule delay callback).timer.states.length = m.timer.states.length + 1 := by
      simp [Clockwork.schedule, Timer.schedule]
    obtain rfl | hx := Entry.mem_insert.mp hx
    · rw [hlen]
      exact Nat.lt_succ_self _
    · rw [hlen]
      exact Nat.lt_succ_of_lt (h.known x hx)
  due := h.due
  waiting := by
    intro seq ha
    rw [h.line_schedule]
    have ha' := Timer.stateOf_schedule (i := seq) (t := m.timer) m.now delay callback
    split at ha'
    · exact ⟨_, Entry.mem_insert.mpr (.inl rfl), ‹seq = _›.symm⟩
    · obtain ⟨x, hx, hseq⟩ := h.waiting seq (ha'.symm.trans ha)
      exact ⟨x, Entry.mem_insert.mpr (.inr hx), hseq⟩

/-- An armed entry is cancelled. -/
theorem Sound.cancelled (h : Sound m) (ha : m.timer.stateOf seq = .armed) : Sound { m with
    timer := { m.timer with states := m.timer.states.set seq .cancelled }
    log := m.log ++ [.cancelled seq true] } where
  ordered := h.ordered
  distinct := h.distinct
  known := fun x hx => by
    rw [List.length_set]
    exact h.known x hx
  due := h.due
  waiting := fun i hi => by
    rw [Timer.stateOf_set (Timer.lt_of_armed ha)] at hi
    split at hi
    · cases hi
    · exact h.waiting i hi

/-- The entry in hand is dealt with. -/
theorem Sound.dealt (h : Sound m) (hp : m.post = .holding e) (hl : m'.line = m.timer.queue)
    (hs : m'.timer.states.length = m.timer.states.length) (hd : m'.post.hand = [])
    (hw : ∀ i, m'.timer.stateOf i = .armed → m.timer.stateOf i = .armed ∧ i ≠ e.seq) :
    Sound m' := by
  have hline := line_of_holding hp
  have hmem {x : Entry α} (hx : x ∈ m.timer.queue) : x ∈ m.line := by
    rw [hline]
    exact List.mem_cons_of_mem e hx
  exact {
    ordered := by
      rw [hl]
      exact (List.pairwise_cons.mp (hline ▸ h.ordered)).2
    distinct := by
      have hn := hline ▸ h.distinct
      rw [List.map_cons] at hn
      rw [hl]
      exact (List.nodup_cons.mp hn).2
    known := fun x hx => by
      rw [hs]
      exact h.known x (hmem (hl ▸ hx))
    due := by simp [hd]
    waiting := fun i hi => by
      obtain ⟨ha, hne⟩ := hw i hi
      obtain ⟨x, hx, rfl⟩ := h.waiting i ha
      rw [hline] at hx
      obtain rfl | hx := List.mem_cons.mp hx
      · exact absurd rfl hne
      · exact ⟨x, hl ▸ hx, rfl⟩ }

theorem Sound.moves (h : Sound m) (hm : Moves m m') : Sound m' := by
  cases hm with
  | stays => exact h
  | passes nanos =>
    exact h.of_eq rfl rfl fun e he => Nat.le_trans (h.due e he) (Nat.le_add_right m.now nanos)
  | schedules delay callback => exact h.schedule
  | cancels ha => exact h.cancelled ha
  | fails => exact h.of_eq rfl rfl h.due
  | stops => exact h.of_eq rfl rfl h.due
  | leaves hp => exact h.of_eq (line_of_looks hp).symm rfl nofun
  | pops hp hs hq hdue =>
    refine h.of_eq ?_ rfl ?_
    · rw [line_of_looks hp, hq]
      rfl
    · simpa [Post.hand] using hdue
  | waits hp => exact h.of_eq (line_of_looks hp).symm rfl nofun
  | starts hp ha =>
    refine h.dealt hp rfl (by simp) rfl fun i hi => ?_
    rw [Timer.stateOf_set (Timer.lt_of_armed ha)] at hi
    split at hi
    · cases hi
    · exact ⟨hi, ‹_›⟩
  | skips hp ha => exact h.dealt hp rfl rfl rfl fun i hi => ⟨hi, by rintro rfl; exact ha hi⟩
  | ends panic hp =>
    refine h.of_eq ?_ rfl (by simp)
    rw [line, line, hp, hand_postAfter]
    rfl

theorem sound_run (as : List (Act α)) : Sound (run as) :=
  run_induction sound_start (fun m a h => h.moves (Clockwork.moves m a)) as

end

end Clockwork

end Workforce
