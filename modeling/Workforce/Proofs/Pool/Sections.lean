import Mathlib.Data.List.Induction
import Workforce.Pool.Close
import Workforce.Pool.Compensation
import Workforce.Pool.Worker

/-
  Runs of a pool. `Section` lists the locked sections by which threads act on a pool, in any
  order; `step` performs one. A section whose worker is not in the phase it begins from, or that
  finds the pool closed, changes nothing, so every list of sections is a run.

  Model. A tail submission is `place` and, for a task displaced from the slot, a later `accept`.
  A view forwards tasks by `take`. A guarded call is `flush`, `raise` and `lower`; who calls them
  and when is left open. A task of a worker ends by `finish`, or by `die` if its panic takes the
  thread with it. Thread spawning succeeds.

  Here: the inversion lemmas of `pick` and `schedule` (`picks`, `schedules`), which later files
  use in place of the definitions, and the access lemmas for workers.
-/

namespace Workforce

/-- What holds at the start of a run and is ended by certain steps only, and always by them, holds
at every point of the run exactly if it has no such step. -/
theorem forall_prefix_iff {σ α : Type} {f : σ → α → σ} {x : σ} {as : List α} {I : σ → Prop}
    {B : σ → α → Prop} (h₀ : I x)
    (hstep : ∀ us a, us ++ [a] <+: as → I (us.foldl f x) →
      (I (f (us.foldl f x) a) ↔ ¬ B (us.foldl f x) a)) :
    (∀ us, us <+: as → I (us.foldl f x)) ↔ ∀ us a, us ++ [a] <+: as → ¬ B (us.foldl f x) a := by
  have happend : ∀ us a, (us ++ [a]).foldl f x = f (us.foldl f x) a := fun us a => by simp
  constructor
  · intro h us a hu
    have ha := h (us ++ [a]) hu
    rw [happend] at ha
    exact (hstep us a hu (h us ((List.prefix_append us [a]).trans hu))).mp ha
  · intro h us
    induction us using List.reverseRecOn with
    | nil => exact fun _ => h₀
    | append_singleton us a ih =>
      intro hu
      rw [happend]
      exact (hstep us a hu (ih ((List.prefix_append us [a]).trans hu))).mpr (h us a hu)

/-- What is said of all steps of a run is said of the last one and of those before. -/
theorem forall_prefix_concat_iff {α : Type} {P : List α → α → Prop} {as : List α} {a : α} :
    (∀ us b, us ++ [b] <+: as ++ [a] → P us b) ↔ (∀ us b, us ++ [b] <+: as → P us b) ∧ P as a := by
  constructor
  · intro h
    exact ⟨fun us b hu => h us b (hu.trans (List.prefix_append as [a])),
      h as a (List.prefix_refl _)⟩
  · rintro ⟨hall, hlast⟩ us b hu
    rcases List.prefix_concat_iff.mp hu with he | hu
    · obtain ⟨rfl, hb⟩ := List.append_inj' he rfl
      rw [(List.cons.inj hb).1]
      exact hlast
    · exact hall us b hu

theorem forall_prefix_nil {α : Type} {P : List α → α → Prop} :
    ∀ us b, us ++ [b] <+: [] → P us b := fun us b hu => by simp at hu

/-- The task of a phase that runs one. -/
def Phase.task? {τ : Type} : Phase τ → Option τ
  | .running t => some t
  | _ => none

namespace Pool

variable {τ : Type}

/-! ## Workers by number -/

/-- The task that a worker runs. -/
def taskOf? (p : Pool τ) (w : Nat) : Option τ := (p.worker? w).bind fun x => x.phase.task?

/-- The task in the slot of a worker. -/
def slotOf? (p : Pool τ) (w : Nat) : Option τ := (p.worker? w).bind Worker.slot

/-- The phase of a worker. -/
def phaseOf? (p : Pool τ) (w : Nat) : Option (Phase τ) := (p.worker? w).map Worker.phase

/-- The pool with the slot of a worker emptied. -/
def emptySlot (p : Pool τ) (w : Nat) : Pool τ := p.modifyWorker w fun x => { x with slot := none }

theorem slotOf?_eq {p : Pool τ} {w : Nat} {x : Worker τ} (h : p.worker? w = some x) :
    p.slotOf? w = x.slot := by
  rw [slotOf?, h]
  rfl

theorem taskOf?_eq {p : Pool τ} {w : Nat} {x : Worker τ} (h : p.worker? w = some x) :
    p.taskOf? w = x.phase.task? := by
  rw [taskOf?, h]
  rfl

/-- The worker that runs a task. -/
theorem exists_of_taskOf? {p : Pool τ} {w : Nat} {t : τ} (h : p.taskOf? w = some t) :
    ∃ x, p.worker? w = some x ∧ x.phase.task? = some t := by
  unfold taskOf? at h
  cases hx : p.worker? w with
  | none => rw [hx] at h; cases h
  | some x =>
    rw [hx] at h
    exact ⟨x, rfl, h⟩

theorem exists_of_phaseOf? {p : Pool τ} {w : Nat} {phase : Phase τ} (h : p.phaseOf? w = some phase) :
    ∃ x, p.worker? w = some x ∧ x.phase = phase := by
  unfold phaseOf? at h
  cases hx : p.worker? w with
  | none => rw [hx] at h; cases h
  | some x =>
    rw [hx] at h
    cases h
    exact ⟨x, rfl, rfl⟩

theorem worker?_modifyWorker (p : Pool τ) (w u : Nat) (f : Worker τ → Worker τ) :
    (p.modifyWorker w f).worker? u = if w = u then (p.worker? u).map f else p.worker? u := by
  unfold worker? modifyWorker
  rw [List.getElem?_modify]
  split <;> simp

theorem worker?_spawnWorker (p : Pool τ) (u : Nat) :
    p.spawnWorker.worker? u = if u = p.workers.length then some {} else p.worker? u := by
  unfold worker? spawnWorker
  rw [List.getElem?_append, List.getElem?_singleton]
  split
  · rw [if_neg (by omega)]
  · split <;> split <;> first | omega | rfl | skip
    rw [List.getElem?_eq_none (by omega)]

theorem taskOf?_modifyWorker (p : Pool τ) (w u : Nat) (f : Worker τ → Worker τ) :
    (p.modifyWorker w f).taskOf? u =
      if w = u then (p.worker? u).bind fun x => (f x).phase.task? else p.taskOf? u := by
  unfold taskOf?
  rw [worker?_modifyWorker]
  split
  · rw [Option.bind_map]; rfl
  · rfl

theorem slotOf?_modifyWorker (p : Pool τ) (w u : Nat) (f : Worker τ → Worker τ) :
    (p.modifyWorker w f).slotOf? u =
      if w = u then (p.worker? u).bind fun x => (f x).slot else p.slotOf? u := by
  unfold slotOf?
  rw [worker?_modifyWorker]
  split
  · rw [Option.bind_map]; rfl
  · rfl

/-- The workers of two pools run the same tasks and have the same tasks in their slots. -/
structure SameHands (p q : Pool τ) : Prop where
  task : ∀ u, q.taskOf? u = p.taskOf? u
  slot : ∀ u, q.slotOf? u = p.slotOf? u

/-- A change of a worker that keeps its slot and what it runs keeps all hands. -/
theorem sameHands_modifyWorker (p : Pool τ) (w : Nat) (f : Worker τ → Worker τ)
    (ht : ∀ x, p.worker? w = some x → (f x).phase.task? = x.phase.task?)
    (hs : ∀ x, p.worker? w = some x → (f x).slot = x.slot) :
    SameHands p (p.modifyWorker w f) := by
  constructor
  · intro u
    rw [taskOf?_modifyWorker]
    split
    case isTrue h =>
      subst h
      unfold taskOf?
      cases hx : p.worker? w with
      | none => rfl
      | some x => exact ht x hx
    case isFalse => rfl
  · intro u
    rw [slotOf?_modifyWorker]
    split
    case isTrue h =>
      subst h
      unfold slotOf?
      cases hx : p.worker? w with
      | none => rfl
      | some x => exact hs x hx
    case isFalse => rfl

theorem sameHands_spawnWorker (p : Pool τ) : SameHands p p.spawnWorker := by
  have hn : p.worker? p.workers.length = none := List.getElem?_eq_none (Nat.le_refl _)
  constructor <;> intro u
  · unfold taskOf?
    rw [worker?_spawnWorker]
    split
    case isTrue h => subst h; rw [hn]; rfl
    case isFalse => rfl
  · unfold slotOf?
    rw [worker?_spawnWorker]
    split
    case isTrue h => subst h; rw [hn]; rfl
    case isFalse => rfl

theorem sleeps_iff (x : Worker τ) : sleeps x = true ↔ x.phase = .idle false := by
  unfold sleeps
  split <;> simp_all

theorem sameHands_notifyOne (p : Pool τ) : SameHands p p.notifyOne := by
  unfold notifyOne
  split
  case h_1 w hw =>
    have hsleep : ∀ x, p.worker? w = some x → x.phase = .idle false := by
      intro x hx
      obtain ⟨h, hs, -⟩ := List.findIdx?_eq_some_iff_getElem.mp hw
      have he : p.workers[w] = x := by
        rw [worker?, List.getElem?_eq_getElem h] at hx
        exact Option.some.inj hx
      rw [he] at hs
      exact (sleeps_iff x).mp hs
    refine sameHands_modifyWorker p w wake (fun x hx => ?_) (fun _ _ => rfl)
    rw [hsleep x hx]
    rfl
  case h_2 => exact ⟨fun _ => rfl, fun _ => rfl⟩

theorem sameHands_notifyAll (p : Pool τ) : SameHands p p.notifyAll := by
  have hw : ∀ u, p.notifyAll.worker? u =
      (p.worker? u).map fun x => if sleeps x then wake x else x := by
    intro u
    exact List.getElem?_map ..
  constructor <;> intro u
  · unfold taskOf?
    rw [hw, Option.bind_map]
    cases p.worker? u with
    | none => rfl
    | some x =>
      by_cases h : sleeps x = true
      · simp [h, wake, Phase.task?, (sleeps_iff x).mp h]
      · simp [h]
  · unfold slotOf?
    rw [hw, Option.bind_map]
    cases p.worker? u with
    | none => rfl
    | some x =>
      by_cases h : sleeps x = true
      · simp [h, wake]
      · simp [h]

theorem sameHands_ensureCapacity (p : Pool τ) : SameHands p p.ensureCapacity := by
  unfold ensureCapacity
  split
  · exact ⟨fun _ => rfl, fun _ => rfl⟩
  · split
    · exact sameHands_spawnWorker p
    · exact sameHands_notifyOne p

/-! ## The pool without its workers -/

/-- The queues and counters of a pool. Waking workers and changing one leaves them as they are. -/
def bare (p : Pool τ) : Pool τ := { p with workers := [] }

theorem bare_notifyOne (p : Pool τ) : p.notifyOne.bare = p.bare := by
  unfold notifyOne
  split <;> rfl

/-- Providing for a worker starts one exactly if the runnable tasks outnumber the free workers and
there is room for it. -/
theorem bare_ensureCapacity (p : Pool τ) :
    (¬(p.idle + p.starting < p.runnable ∧ p.live < p.config.max ∧ p.abandoned = false) ∧
        p.ensureCapacity.bare = p.bare) ∨
      ((p.idle + p.starting < p.runnable ∧ p.live < p.config.max ∧ p.abandoned = false) ∧
        p.ensureCapacity.bare = { p.bare with live := p.live + 1, starting := p.starting + 1 }) := by
  unfold ensureCapacity
  split
  case isTrue h => exact Or.inl ⟨by omega, rfl⟩
  case isFalse =>
    split
    case isTrue h => exact Or.inr ⟨h, rfl⟩
    case isFalse h => exact Or.inl ⟨h, bare_notifyOne p⟩

/-! ## Sections -/

variable [Kinded τ]

/-- The locked sections of a pool, with what decides their course. -/
inductive Section (τ : Type) where
  /-- A task is submitted. -/
  | accept (t : τ)
  /-- A task that a view accepted earlier arrives. -/
  | take (t : τ)
  /-- A running worker puts a task into its slot. -/
  | place (w : Nat) (t : τ)
  /-- A running worker moves the task in its slot to the queues. -/
  | flush (w : Nat)
  | begin (w : Nat)
  | resume (w : Nat) (timedOut : Bool)
  | finish (w : Nat)
  | die (w : Nat)
  | raise (w : Nat)
  | lower (w : Nat)
  | beginClose
  /-- A close that has waited long enough for a pool not at rest. -/
  | terminate

/-- Performs a section, if it can take place. -/
def step (p : Pool τ) : Section τ → Pool τ
  | .accept t => (p.accept t).getD p
  | .take t => (p.submitAccepted t).getD p
  | .place w t => if (p.taskOf? w).isSome then (p.place w t).2 else p
  | .flush w => if (p.taskOf? w).isSome then p.flush w else p
  | .begin w =>
    match p.phaseOf? w with
    | some .starting => (p.begin w).2
    | _ => p
  | .resume w timedOut =>
    match p.phaseOf? w with
    | some (.idle _) => (p.resume w timedOut).2
    | _ => p
  | .finish w =>
    match p.taskOf? w with
    | some t => (p.finish w (Kinded.kind t)).2
    | none => p
  | .die w =>
    match p.taskOf? w with
    | some t => (p.die w (Kinded.kind t)).2
    | none => p
  | .raise w => p.raise w
  | .lower w => p.lower w
  | .beginClose => p.beginClose
  | .terminate => if p.closed = true ∧ p.atRest = false then p.terminate.2.2 else p

/-- Performs sections in order. -/
def run (p : Pool τ) (ss : List (Section τ)) : Pool τ := ss.foldl step p

theorem run_append_singleton (p : Pool τ) (ss : List (Section τ)) (s : Section τ) :
    p.run (ss ++ [s]) = (p.run ss).step s := by
  simp [run]

omit [Kinded τ] in
/-- What holds of a pool without workers, and still when one is started, holds of a new pool. -/
theorem ofConfig_induct {I : Pool τ → Prop} (c : Config) (h₀ : I { config := c, limit := c.core })
    (h : ∀ p, I p → I p.spawnWorker) : I (ofConfig c) := by
  unfold ofConfig
  generalize ({ config := c, limit := c.core } : Pool τ) = p at h₀
  induction List.range c.core generalizing p with
  | nil => exact h₀
  | cons i is ih => exact ih _ (h p h₀)

/-- The turn that a worker takes in a section, if the section takes place. -/
def turn? (p : Pool τ) : Section τ → Option (Turn τ)
  | .begin w =>
    match p.phaseOf? w with
    | some .starting => some (p.begin w).1
    | _ => none
  | .resume w timedOut =>
    match p.phaseOf? w with
    | some (.idle _) => some (p.resume w timedOut).1
    | _ => none
  | .finish w => (p.taskOf? w).map fun t => (p.finish w (Kinded.kind t)).1
  | .die w => (p.taskOf? w).map fun t => (p.die w (Kinded.kind t)).1
  | _ => none

/-! ## What a section can do -/

theorem accept_eq_some_iff {p q : Pool τ} {t : τ} :
    p.accept t = some q ↔ p.closed = false ∧ q = p.queueUp t := by
  unfold accept
  cases p.closed with
  | true => simp
  | false => simp [eq_comm]

theorem accept_eq_none_iff {p : Pool τ} {t : τ} : p.accept t = none ↔ p.closed = true := by
  unfold accept
  cases p.closed with
  | true => simp
  | false => simp

theorem submitAccepted_eq_some_iff {p q : Pool τ} {t : τ} :
    p.submitAccepted t = some q ↔ p.abandoned = false ∧ q = p.queueUp t := by
  unfold submitAccepted
  cases p.abandoned with
  | true => simp
  | false => simp [eq_comm]

theorem submitAccepted_eq_none_iff {p : Pool τ} {t : τ} :
    p.submitAccepted t = none ↔ p.abandoned = true := by
  unfold submitAccepted
  cases p.abandoned with
  | true => simp
  | false => simp

omit [Kinded τ] in
theorem place_of_closed {p : Pool τ} (h : p.closed = true) (w : Nat) (t : τ) :
    p.place w t = (.refused, p) := by
  rw [place, if_pos h]

omit [Kinded τ] in
/-- A task is placed into a slot that is empty. -/
theorem place_of_empty {p : Pool τ} {w : Nat} {x : Worker τ} (ho : p.closed = false)
    (hw : p.worker? w = some x) (hs : x.slot = none) (t : τ) :
    p.place w t = (.placed, (p.place w t).2) := by
  simp [place, ho, hw, hs]

omit [Kinded τ] in
/-- A task displaces another from a slot that is not empty. -/
theorem place_of_full {p : Pool τ} {w : Nat} {x : Worker τ} {u : τ} (ho : p.closed = false)
    (hw : p.worker? w = some x) (hs : x.slot = some u) (t : τ) :
    p.place w t = (.left u, (p.place w t).2) := by
  simp [place, ho, hw, hs]

omit [Kinded τ] in
theorem closed_place (p : Pool τ) (w : Nat) (t : τ) : (p.place w t).2.closed = p.closed := by
  unfold place
  split
  · rfl
  · split
    · rfl
    · split <;> rfl

section submission

variable {p q r : Pool τ} {caller : Option Nat} {tail : Bool} {w : Nat} {t u : τ}

theorem submit_accepted (hc : (if tail then caller else none) = none)
    (ha : p.accept t = some q) : p.submit caller t tail = (.accepted, q) := by
  rw [submit, hc]
  dsimp only
  rw [ha]

theorem submit_placed (hc : (if tail then caller else none) = some w)
    (hp : p.place w t = (.placed, q)) : p.submit caller t tail = (.accepted, q) := by
  rw [submit, hc]
  dsimp only
  rw [hp]

/-- A tail submission queues what it displaces from the slot. -/
theorem submit_left (hc : (if tail then caller else none) = some w)
    (hp : p.place w t = (.left u, q)) (ha : q.accept u = some r) :
    p.submit caller t tail = (.accepted, r) := by
  rw [submit, hc]
  dsimp only
  rw [hp]
  dsimp only
  rw [ha]

end submission

/-- The courses that a section can take. A section that ends a task takes place if its worker
runs one. -/
inductive Moves (p : Pool τ) : Section τ → Pool τ → Prop where
  | stays {s : Section τ} (h : ∀ w, s = .finish w ∨ s = .die w → p.taskOf? w = none) : Moves p s p
  | accepted {t : τ} (h : p.closed = false) : Moves p (.accept t) (p.queueUp t)
  | taken {t : τ} (h : p.abandoned = false) : Moves p (.take t) (p.queueUp t)
  | placed {w : Nat} {t : τ} (h : (p.taskOf? w).isSome = true) : Moves p (.place w t) (p.place w t).2
  | flushed {w : Nat} (h : (p.taskOf? w).isSome = true) : Moves p (.flush w) (p.flush w)
  | began {w : Nat} {x : Worker τ} (hw : p.worker? w = some x) (hx : x.phase = .starting) :
      Moves p (.begin w) (p.begin w).2
  | resumed {w : Nat} {timedOut woken : Bool} {x : Worker τ} (hw : p.worker? w = some x)
      (hx : x.phase = .idle woken) : Moves p (.resume w timedOut) (p.resume w timedOut).2
  | finished {w : Nat} {x : Worker τ} {t : τ} (hw : p.worker? w = some x)
      (ht : x.phase.task? = some t) : Moves p (.finish w) (p.finish w (Kinded.kind t)).2
  | died {w : Nat} {x : Worker τ} {t : τ} (hw : p.worker? w = some x)
      (ht : x.phase.task? = some t) : Moves p (.die w) (p.die w (Kinded.kind t)).2
  | raised (w : Nat) : Moves p (.raise w) (p.raise w)
  | lowered (w : Nat) : Moves p (.lower w) (p.lower w)
  | closed : Moves p .beginClose p.beginClose
  | terminated (hc : p.closed = true) (hr : p.atRest = false) : Moves p .terminate p.terminate.2.2

/-- There are no other courses. -/
theorem moves (p : Pool τ) (s : Section τ) : Moves p s (p.step s) := by
  cases s with
  | accept t =>
    rw [step]
    cases ha : p.accept t with
    | none => exact .stays (by simp)
    | some q =>
      obtain ⟨ho, rfl⟩ := accept_eq_some_iff.mp ha
      exact .accepted ho
  | take t =>
    rw [step]
    cases ha : p.submitAccepted t with
    | none => exact .stays (by simp)
    | some q =>
      obtain ⟨hk, rfl⟩ := submitAccepted_eq_some_iff.mp ha
      exact .taken hk
  | place w t =>
    rw [step]
    split
    case isTrue h => exact .placed h
    case isFalse => exact .stays (by simp)
  | flush w =>
    rw [step]
    split
    case isTrue h => exact .flushed h
    case isFalse => exact .stays (by simp)
  | begin w =>
    rw [step]
    split
    case h_1 hp =>
      obtain ⟨x, hw, hx⟩ := exists_of_phaseOf? hp
      exact .began hw hx
    case h_2 => exact .stays (by simp)
  | resume w timedOut =>
    rw [step]
    split
    case h_1 hp =>
      obtain ⟨x, hw, hx⟩ := exists_of_phaseOf? hp
      exact .resumed hw hx
    case h_2 => exact .stays (by simp)
  | finish w =>
    rw [step]
    split
    case h_1 ht =>
      obtain ⟨x, hw, hx⟩ := exists_of_taskOf? ht
      exact .finished hw hx
    case h_2 hn => exact .stays (by simp [hn])
  | die w =>
    rw [step]
    split
    case h_1 ht =>
      obtain ⟨x, hw, hx⟩ := exists_of_taskOf? ht
      exact .died hw hx
    case h_2 hn => exact .stays (by simp [hn])
  | raise w => exact .raised w
  | lower w => exact .lowered w
  | beginClose => exact .closed
  | terminate =>
    rw [step]
    split
    case isTrue h => exact .terminated h.1 h.2
    case isFalse => exact .stays (by simp)

/-! ## What picking and scheduling can do -/

/-- The ways to pick a task: what was in the slot, and what was picked together with the pool
after it. -/
inductive Picks : Pool τ → Option τ → Option τ × Pool τ → Prop where
  | fromSlot {p : Pool τ} {t : τ} (h : Kinded.kind t = .blocking ∨ p.admitsCpu = true) :
      Picks p (some t) (some t, p)
  | cpu {p : Pool τ} {t : τ} {rest : List τ} (ha : p.admitsCpu = true)
      (hq : p.cpuQueue = t :: rest) : Picks p none (some t, { p with cpuQueue := rest })
  | blocking {p : Pool τ} {t : τ} {rest : List τ} (ha : p.admitsCpu = true → p.cpuQueue = [])
      (hq : p.blockingQueue = t :: rest) :
      Picks p none (some t, { p with blockingQueue := rest })
  | nothing {p : Pool τ} (ha : p.admitsCpu = true → p.cpuQueue = [])
      (hq : p.blockingQueue = []) : Picks p none (none, p)
  /-- A processor-bound task in the slot that is not admissible joins its queue first. -/
  | aside {p : Pool τ} {t : τ} {r : Option τ × Pool τ} (hk : Kinded.kind t = .cpu)
      (ha : p.admitsCpu = false) (h : Picks { p with cpuQueue := p.cpuQueue ++ [t] } none r) :
      Picks p (some t) r

theorem picks_none (p : Pool τ) : Picks p none (p.pick none) := by
  by_cases hc : p.admitsCpu = true ∧ p.cpuQueue ≠ []
  · obtain ⟨t, rest, hq⟩ := List.exists_cons_of_ne_nil hc.2
    have hp : p.pick none = (some t, { p with cpuQueue := rest }) := by simp [pick, hc.1, hq]
    rw [hp]
    exact .cpu hc.1 hq
  · have hn : p.admitsCpu = true → p.cpuQueue = [] := by
      intro ha
      cases hq : p.cpuQueue with
      | nil => rfl
      | cons t rest => exact absurd ⟨ha, by simp [hq]⟩ hc
    cases hb : p.blockingQueue with
    | cons u rest =>
      have hp : p.pick none = (some u, { p with blockingQueue := rest }) := by
        cases ha : p.admitsCpu with
        | true => simp [pick, ha, hn ha, hb]
        | false => simp [pick, ha, hb]
      rw [hp]
      exact .blocking hn hb
    | nil =>
      have hp : p.pick none = (none, p) := by
        cases ha : p.admitsCpu with
        | true => simp [pick, ha, hn ha, hb]
        | false => simp [pick, ha, hb]
      rw [hp]
      exact .nothing hn hb

theorem picks (p : Pool τ) (slot : Option τ) : Picks p slot (p.pick slot) := by
  cases slot with
  | none => exact picks_none p
  | some t =>
    by_cases h : Kinded.kind t = .blocking ∨ p.admitsCpu = true
    · have hp : p.pick (some t) = (some t, p) := by simp [pick, h]
      rw [hp]
      exact .fromSlot h
    · have hk : Kinded.kind t = .cpu := by
        cases hk : Kinded.kind t with
        | cpu => rfl
        | blocking => exact absurd (Or.inl hk) h
      have hp : p.pick (some t) = { p with cpuQueue := p.cpuQueue ++ [t] }.pick none := by
        unfold pick
        simp only [h, if_false]
        simp only [enqueue, hk]
      rw [hp]
      exact .aside hk (by simpa using fun ha => h (Or.inr ha)) (picks_none _)

/-- Picking moves tasks between the queues and the worker, and nothing else. -/
theorem Picks.frame {p q : Pool τ} {slot o : Option τ} (h : Picks p slot (o, q)) :
    q = { p with cpuQueue := q.cpuQueue, blockingQueue := q.blockingQueue } := by
  generalize hr : (o, q) = r at h
  induction h with
  | fromSlot => cases hr; rfl
  | cpu => cases hr; rfl
  | blocking => cases hr; rfl
  | nothing => cases hr; rfl
  | aside _ _ _ ih =>
    have hq := ih hr
    rw [hq]

/-- The ways in which a free worker ends its section. -/
inductive Schedules (p : Pool τ) (w : Nat) : Turn τ × Pool τ → Prop where
  | abandoned (h : p.abandoned = true) : Schedules p w (p.leave w)
  | runs {t : τ} {q : Pool τ} (h : p.abandoned = false)
      (hp : Picks (p.emptySlot w) (p.slotOf? w) (some t, q)) :
      Schedules p w (.runs t, (q.countStart (Kinded.kind t)).setPhase w (.running t))
  | drained {q : Pool τ} (h : p.abandoned = false)
      (hp : Picks (p.emptySlot w) (p.slotOf? w) (none, q)) (hc : q.closed = true)
      (hq : q.queued = 0) : Schedules p w (q.leave w)
  | rests {q : Pool τ} (h : p.abandoned = false)
      (hp : Picks (p.emptySlot w) (p.slotOf? w) (none, q)) (hn : ¬(q.closed = true ∧ q.queued = 0)) :
      Schedules p w (.rests, { q with idle := q.idle + 1 }.setPhase w (.idle false))

theorem schedules (p : Pool τ) (w : Nat) : Schedules p w (p.schedule w) := by
  unfold schedule
  split
  case isTrue h => exact .abandoned h
  case isFalse h =>
    have ha : p.abandoned = false := by simpa using h
    have hp : Picks (p.emptySlot w) (p.slotOf? w) ((p.modifyWorker w fun x =>
        { x with slot := none }).pick ((p.worker? w).bind Worker.slot)) :=
      picks (p.emptySlot w) (p.slotOf? w)
    dsimp only
    split
    case h_1 t q he =>
      rw [he] at hp
      exact .runs ha hp
    case h_2 q he =>
      rw [he] at hp
      split
      case isTrue hc => exact .drained ha hp hc.1 hc.2
      case isFalse hc => exact .rests ha hp hc

end Pool

end Workforce
