import Workforce.Proofs.Network.Chart
import Workforce.Proofs.Pool.Holdings
import Workforce.Proofs.Traffic.Machine

/-
  What a step can do. `Performs` has one case for each course that a chore can take, with all that
  is known of the state then, and `Steps` one for each course of an act; `performs` and `steps`
  say that there are no others. The invariants of a traffic are proved by cases of these relations
  and never open the functions behind them. Invariants of all chores, or of all events logged, only
  look at what an act adds (`Steps.chore`, `Steps.logs`).
-/

namespace Workforce

/-- What only a call logs, or a submission that a close cuts off. -/
def Event.isRare {τ : Type} : Event τ → Bool
  | .called .. => true
  | .misled _ => true
  | .overdrawn _ => true
  | _ => false

/-- The chores that stay if they cannot be performed. -/
def Chore.canStay {τ : Type} : Chore τ → Bool
  | .submit .. => true
  | .forward (.view ..) .. => true
  | .body .. => true
  | _ => false

namespace Traffic

variable {τ : Type} [Kinded τ]

/-- The chores that change a gate and let it admit a waiting task, with what they log first. -/
inductive Settling : Chore τ → View → (Gate (Job τ) → Gate (Job τ)) → List (Event τ) → Prop where
  | next (v : View) : Settling (.next v) v id []
  | release (v : View) : Settling (.release v) v Gate.release [.released v]
  | raise (v : View) : Settling (.raise v) v Gate.raise []

omit [Kinded τ] in
theorem Settling.queue {c : Chore τ} {v : View} {change : Gate (Job τ) → Gate (Job τ)}
    {es : List (Event τ)} (h : Settling c v change es) (x : Gate (Job τ)) :
    (change x).queue = x.queue := by
  cases h <;> rfl

/-- The courses that a chore can take. -/
inductive Performs (s : Traffic τ) : Chore τ → Deed τ → Prop where
  | idle {c : Chore τ} (hc : c.canStay = true) : Performs s c (s.idle c)
  | accepted {id core : Nat} {j : Job τ} {p : Pool (Job τ)} (h : s.pool.accept j = some p) :
      Performs s (.submit (.pool id core) j none)
        { pool := p, gates := s.gates, events := [.accepted j.task] }
  | placed {id core w : Nat} {j : Job τ} {x : Worker (Job τ)} (ho : s.pool.closed = false)
      (hw : s.pool.worker? w = some x) (hr : x.phase.task?.isSome = true) (hs : x.slot = none) :
      Performs s (.submit (.pool id core) j (some w))
        { pool := (s.pool.place w j).2, gates := s.gates, events := [.accepted j.task] }
  | displaced {id core w : Nat} {j k : Job τ} {x : Worker (Job τ)} (ho : s.pool.closed = false)
      (hw : s.pool.worker? w = some x) (hr : x.phase.task?.isSome = true) (hs : x.slot = some k) :
      Performs s (.submit (.pool id core) j (some w))
        { pool := (s.pool.place w j).2, gates := s.gates, todo := [.requeue k j] }
  | refused {d : Dispatcher} {j : Job τ} {slot : Option Nat} (h : s.pool.closed = true) :
      Performs s (.submit d j slot) (s.refuse j)
  | entered {v : View} {j : Job τ} {slot : Option Nat} {x : Gate (Job τ)}
      (hg : s.gates[v.id]? = some x) (h : x.running < x.limit) :
      Performs s (.submit v.toDispatcher j slot)
        { pool := s.pool, gates := s.gates.set v.id { x with running := x.running + 1 }
          todo := [.submit v.parent (j.admittedBy v) slot], events := [.admitted v] }
  | waits {v : View} {j : Job τ} {slot : Option Nat} {x : Gate (Job τ)}
      (hg : s.gates[v.id]? = some x) (h : x.limit ≤ x.running) :
      Performs s (.submit v.toDispatcher j slot)
        { pool := s.pool, gates := s.gates.set v.id { x with queue := x.queue ++ [j] }
          events := [.accepted j.task] }
  | requeued {k j : Job τ} {p : Pool (Job τ)} (h : s.pool.accept k = some p) :
      Performs s (.requeue k j)
        { pool := p, gates := s.gates, events := [.accepted j.task] }
  | cut {k j : Job τ} (h : s.pool.closed = true) :
      Performs s (.requeue k j)
        { pool := s.pool, gates := s.gates, todo := j.views.map .release
          events := .misled j.task :: k.lost .cut ++ j.views.map .overdrawn }
  | handed {id core n : Nat} {j : Job τ} {p : Pool (Job τ)} (h : s.pool.submitAccepted j = some p) :
      Performs s (.forward (.pool id core) j n) (taken j n p s.gates)
  | passed {v : View} {j : Job τ} {n : Nat} {x : Gate (Job τ)} (hg : s.gates[v.id]? = some x)
      (h : x.running < x.limit) :
      Performs s (.forward v.toDispatcher j n)
        { pool := s.pool, gates := s.gates.set v.id { x with running := x.running + 1 }
          todo := [.forward v.parent (j.admittedBy v) (n + 1)], events := [.admitted v] }
  | waitsAgain {v : View} {j : Job τ} {n : Nat} {x : Gate (Job τ)} (hg : s.gates[v.id]? = some x)
      (h : x.limit ≤ x.running) :
      Performs s (.forward v.toDispatcher j n)
        (taken j n s.pool (s.gates.set v.id { x with queue := x.queue ++ [j] }))
  | discarded {id core n : Nat} {j : Job τ} (h : s.pool.abandoned = true) :
      Performs s (.forward (.pool id core) j n) (s.discard j n)
  | settled {c : Chore τ} {v : View} {change : Gate (Job τ) → Gate (Job τ)} {es : List (Event τ)}
      {x : Gate (Job τ)} (hc : Settling c v change es) (hg : s.gates[v.id]? = some x)
      (h : (change x).queue ≠ [] → (change x).limit ≤ (change x).running) :
      Performs s c { pool := s.pool, gates := s.gates.set v.id (change x), events := es }
  | admits {c : Chore τ} {v : View} {change : Gate (Job τ) → Gate (Job τ)} {es : List (Event τ)}
      {x : Gate (Job τ)} {j : Job τ} {rest : List (Job τ)} (hc : Settling c v change es)
      (hg : s.gates[v.id]? = some x) (hq : (change x).queue = j :: rest)
      (h : (change x).running < (change x).limit) :
      Performs s c
        { pool := s.pool
          gates := s.gates.set v.id
            { change x with running := (change x).running + 1, queue := rest }
          todo := [.forward v.parent (j.admittedBy v) 1], events := es ++ [.admitted v] }
  | missing {c : Chore τ} {v : View} {change : Gate (Job τ) → Gate (Job τ)} {es : List (Event τ)}
      (hc : Settling c v change es) (hg : s.gates[v.id]? = none) :
      Performs s c { pool := s.pool, gates := s.gates, events := es }
  | lowered {v : View} {x : Gate (Job τ)} (hg : s.gates[v.id]? = some x) :
      Performs s (.lower v) { pool := s.pool, gates := s.gates.set v.id x.lower }
  | unlowered {v : View} (hg : s.gates[v.id]? = none) :
      Performs s (.lower v) { pool := s.pool, gates := s.gates }
  | raisedWorker (w : Nat) :
      Performs s (.raiseWorker w) { pool := s.pool.raise w, gates := s.gates }
  | loweredWorker (w : Nat) :
      Performs s (.lowerWorker w) { pool := s.pool.lower w, gates := s.gates }
  | flushed {w : Nat} {x : Worker (Job τ)} (hw : s.pool.worker? w = some x)
      (hr : x.phase.task?.isSome = true) :
      Performs s (.flush w) { pool := s.pool.flush w, gates := s.gates }
  | unflushed (w : Nat) : Performs s (.flush w) { pool := s.pool, gates := s.gates }
  | unfinished {w : Nat} {outcome : Except Failure Unit} {fatal : Bool}
      (h : s.pool.taskOf? w = none) :
      Performs s (.finish w outcome fatal) { pool := s.pool, gates := s.gates }
  | finished {w : Nat} {outcome : Except Failure Unit} {x : Worker (Job τ)} {j : Job τ}
      (hw : s.pool.worker? w = some x) (hr : x.phase.task? = some j) :
      Performs s (.finish w outcome false)
        { pool := (s.pool.finish w (Kinded.kind j)).2, gates := s.gates
          todo := turnChores w (s.pool.finish w (Kinded.kind j)).1
          events := .ended j.task outcome ::
            turnEvents .forced (s.pool.finish w (Kinded.kind j)).1 }
  | died {w : Nat} {outcome : Except Failure Unit} {x : Worker (Job τ)} {j : Job τ}
      (hw : s.pool.worker? w = some x) (hr : x.phase.task? = some j) :
      Performs s (.finish w outcome true)
        { pool := (s.pool.die w (Kinded.kind j)).2, gates := s.gates
          todo := turnChores w (s.pool.die w (Kinded.kind j)).1
          events := .ended j.task outcome :: turnEvents .died (s.pool.die w (Kinded.kind j)).1 }

theorem performs_settle (s : Traffic τ) {c : Chore τ} {v : View}
    {change : Gate (Job τ) → Gate (Job τ)} {es : List (Event τ)} (hc : Settling c v change es) :
    Performs s c { s.settle v change with events := es ++ (s.settle v change).events } := by
  cases hg : s.gates[v.id]? with
  | none =>
    have he : s.settle v change = { pool := s.pool, gates := s.gates } := by
      rw [settle, hg]
    rw [he]
    simp only [List.append_nil]
    exact .missing hc hg
  | some x =>
    rcases Gate.admitNext_cases (change x) with ⟨hn, hf⟩ | ⟨j, rest, hq, hlt, hn⟩
    · have he : s.settle v change =
          { pool := s.pool, gates := s.gates.set v.id (change x) } := by
        rw [settle, hg]
        dsimp only
        rw [hn]
      rw [he]
      simp only [List.append_nil]
      exact .settled hc hg hf
    · have he : s.settle v change =
          { pool := s.pool
            gates := s.gates.set v.id
              { change x with running := (change x).running + 1, queue := rest }
            todo := [.forward v.parent (j.admittedBy v) 1], events := [.admitted v] } := by
        rw [settle, hg]
        dsimp only
        rw [hn]
      rw [he]
      exact .admits hc hg hq hlt

theorem performs_submit_pool (s : Traffic τ) (id core : Nat) (j : Job τ) (slot : Option Nat) :
    Performs s (.submit (.pool id core) j slot) (s.submit j slot (.pool id core)) := by
  cases slot with
  | none =>
    show Performs s _ (s.arrive j)
    unfold arrive
    cases h : s.pool.accept j with
    | some p => exact .accepted h
    | none => exact .refused (Pool.accept_eq_none_iff.mp h)
  | some w =>
    simp only [submit]
    split
    case isFalse => exact .idle rfl
    case isTrue ht =>
      obtain ⟨r, hr⟩ := Option.isSome_iff_exists.mp ht
      obtain ⟨x, hw, hx⟩ := Pool.exists_of_taskOf? hr
      have hrun : x.phase.task?.isSome = true := by rw [hx]; rfl
      unfold arriveAt
      cases hc : s.pool.closed with
      | true =>
        rw [Pool.place_of_closed hc]
        exact .refused hc
      | false =>
        cases hs : x.slot with
        | none =>
          rw [Pool.place_of_empty hc hw hs]
          exact .placed hc hw hrun hs
        | some k =>
          rw [Pool.place_of_full hc hw hs]
          exact .displaced hc hw hrun hs

theorem performs_submit (s : Traffic τ) (d : Dispatcher) (j : Job τ) (slot : Option Nat) :
    Performs s (.submit d j slot) (s.submit j slot d) := by
  cases d with
  | pool id core => exact performs_submit_pool s id core j slot
  | view id mode base parent =>
    cases hg : s.gates[id]? with
    | none =>
      have he : s.submit j slot (.view id mode base parent) =
          s.idle (.submit (.view id mode base parent) j slot) := by
        rw [submit, hg]
      rw [he]
      exact .idle rfl
    | some x =>
      rw [submit, hg]
      dsimp only
      rcases Gate.offer_cases x s.pool.closed j with ⟨h, he⟩ | ⟨-, hc, he⟩ | ⟨h, -, he⟩
      · rw [he]
        exact Performs.entered (v := ⟨id, mode, base, parent⟩) hg h
      · rw [he]
        exact .refused hc
      · rw [he]
        exact Performs.waits (v := ⟨id, mode, base, parent⟩) hg h

theorem performs_requeue (s : Traffic τ) (k j : Job τ) :
    Performs s (.requeue k j) (s.requeue k j) := by
  unfold requeue
  cases h : s.pool.accept k with
  | some p => exact .requeued h
  | none => exact .cut (Pool.accept_eq_none_iff.mp h)

theorem performs_forward (s : Traffic τ) (d : Dispatcher) (j : Job τ) (n : Nat) :
    Performs s (.forward d j n) (s.forward j n d) := by
  cases d with
  | pool id core =>
    unfold forward
    cases h : s.pool.submitAccepted j with
    | some p => exact .handed h
    | none => exact .discarded (Pool.submitAccepted_eq_none_iff.mp h)
  | view id mode base parent =>
    cases hg : s.gates[id]? with
    | none =>
      have he : s.forward j n (.view id mode base parent) =
          s.idle (.forward (.view id mode base parent) j n) := by
        rw [forward, hg]
      rw [he]
      exact .idle rfl
    | some x =>
      rw [forward, hg]
      dsimp only
      rcases Gate.offer_cases x false j with ⟨h, he⟩ | ⟨-, hc, -⟩ | ⟨h, -, he⟩
      · rw [he]
        exact Performs.passed (v := ⟨id, mode, base, parent⟩) hg h
      · cases hc
      · rw [he]
        exact Performs.waitsAgain (v := ⟨id, mode, base, parent⟩) hg h

theorem performs_finish (s : Traffic τ) (w : Nat) (outcome : Except Failure Unit) (fatal : Bool) :
    Performs s (.finish w outcome fatal) (s.finish w outcome fatal) := by
  unfold finish
  cases ht : s.pool.taskOf? w with
  | none => exact .unfinished ht
  | some j =>
    obtain ⟨x, hw, hr⟩ := Pool.exists_of_taskOf? ht
    cases fatal with
    | true => exact .died hw hr
    | false => exact .finished hw hr

/-- There are no other courses. -/
theorem performs (s : Traffic τ) (c : Chore τ) : Performs s c (s.perform c) := by
  cases c with
  | submit d j slot => exact performs_submit s d j slot
  | requeue k j => exact performs_requeue s k j
  | forward d j n => exact performs_forward s d j n
  | next v => exact performs_settle s (.next v)
  | release v => exact performs_settle s (.release v)
  | raise v => exact performs_settle s (.raise v)
  | lower v =>
    cases hg : s.gates[v.id]? with
    | none =>
      have he : s.gates.modify v.id Gate.lower = s.gates :=
        List.modify_eq_self (List.getElem?_eq_none_iff.mp hg)
      rw [perform, he]
      exact .unlowered hg
    | some x =>
      rw [perform, modify_eq_set Gate.lower hg]
      exact .lowered hg
  | raiseWorker w => exact .raisedWorker w
  | lowerWorker w => exact .loweredWorker w
  | flush w =>
    by_cases ht : (s.pool.taskOf? w).isSome = true
    · have he : s.perform (.flush w) = { pool := s.pool.flush w, gates := s.gates } := by
        simp only [perform, ht, if_true]
      obtain ⟨r, hr⟩ := Option.isSome_iff_exists.mp ht
      obtain ⟨x, hw, hx⟩ := Pool.exists_of_taskOf? hr
      rw [he]
      exact .flushed hw (by rw [hx]; rfl)
    · have he : s.perform (.flush w) = { pool := s.pool, gates := s.gates } := by
        simp only [perform, ht]
        rfl
      rw [he]
      exact .unflushed w
  | body w j => exact .idle rfl
  | finish w outcome fatal => exact performs_finish s w outcome fatal

/-! ## Acts -/

/-- The courses that an act can take. -/
inductive Steps (s : Traffic τ) : Act τ → Traffic τ → Prop where
  | stays {a : Act τ} (h : ∀ i c rest, a = .go i → s.threads[i]? ≠ some (c :: rest)) : Steps s a s
  | built {d : Option Nat} {parent : Dispatcher} {mode : Mode} {limit base : Nat}
      (hd : s.dispatcher? d = some parent) (hb : 0 < base) :
      Steps s (.build d mode limit) { s with
        views := s.views ++ [⟨s.gates.length, mode, base, parent⟩]
        gates := s.gates ++ [{ limit := base }] }
  | called {n : Option Nat} {d : Dispatcher} {t : τ} (hd : s.dispatcher? n = some d) :
      Steps s (.call n t) { s with
        threads := s.threads ++ [[.submit d { task := t } none]]
        log := s.log ++ [.called t d.views] }
  | calledFrom {i w : Nat} {n : Option Nat} {d : Dispatcher} {t : τ} {tail : Bool} {j : Job τ}
      {rest : List (Chore τ)} (hd : s.dispatcher? n = some d)
      (hi : s.threads[i]? = some (.body w j :: rest)) :
      Steps s (.callFrom i n t tail) { s with
        threads := s.threads.set i
          (.submit d { task := t } (if tail then some w else none) :: .body w j :: rest)
        log := s.log ++ [.called t d.views] }
  | flushes {i w : Nat} {j : Job τ} {rest : List (Chore τ)}
      (hi : s.threads[i]? = some (.body w j :: rest)) :
      Steps s (.flush i) { s with threads := s.threads.set i (.flush w :: .body w j :: rest) }
  | raised (w : Option Nat) (vs : List Nat) :
      Steps s (.raise w vs) { s with threads := s.threads ++ [s.raises w vs] }
  | lowered (w : Option Nat) (vs : List Nat) :
      Steps s (.lower w vs) { s with threads := s.threads ++ [s.lowers w vs] }
  | ended {i w : Nat} {j : Job τ} {rest : List (Chore τ)} {outcome : Except Failure Unit}
      {fatal : Bool} (hi : s.threads[i]? = some (.body w j :: rest)) :
      Steps s (.endBody i true outcome fatal) { s with
        threads := s.threads.set i
          (j.views.reverse.map .release ++ .finish w outcome fatal :: rest) }
  | barred {i w : Nat} {j : Job τ} {rest : List (Chore τ)} {outcome : Except Failure Unit}
      {fatal : Bool} (hi : s.threads[i]? = some (.body w j :: rest)) :
      Steps s (.endBody i false outcome fatal) { s with
        threads := s.threads.set i (.finish w (.error .disconnected) fatal :: rest)
        log := s.log ++ j.views.map .stranded }
  | began {w : Nat} {x : Worker (Job τ)} (hw : s.pool.worker? w = some x)
      (hx : x.phase = .starting) :
      Steps s (.begin w) { s with
        pool := (s.pool.begin w).2
        threads := s.threads ++ [turnChores w (s.pool.begin w).1]
        log := s.log ++ turnEvents .forced (s.pool.begin w).1 }
  | resumed {w : Nat} {timedOut woken : Bool} {x : Worker (Job τ)}
      (hw : s.pool.worker? w = some x) (hx : x.phase = .idle woken) :
      Steps s (.resume w timedOut) { s with
        pool := (s.pool.resume w timedOut).2
        threads := s.threads ++ [turnChores w (s.pool.resume w timedOut).1]
        log := s.log ++ turnEvents .forced (s.pool.resume w timedOut).1 }
  | goes {i : Nat} {c : Chore τ} {rest : List (Chore τ)} {d : Deed τ}
      (hi : s.threads[i]? = some (c :: rest)) (hp : Performs s c d) :
      Steps s (.go i) { s with
        pool := d.pool, gates := d.gates, threads := s.threads.set i (d.todo ++ rest)
        log := s.log ++ d.events }
  | closed : Steps s .close { s with pool := s.pool.beginClose }
  | terminated (hc : s.pool.closed = true) (hr : s.pool.atRest = false) :
      Steps s .terminate { s with
        pool := s.pool.terminate.2.2
        log := s.log ++ s.pool.terminate.2.1.flatMap fun j => j.lost .forced }

theorem steps_build (s : Traffic τ) (d : Option Nat) (mode : Mode) (limit : Nat) :
    Steps s (.build d mode limit) (s.step (.build d mode limit)) := by
  cases hd : s.dispatcher? d with
  | none =>
    have he : s.step (.build d mode limit) = s := by simp only [step, hd]
    rw [he]
    exact .stays nofun
  | some parent =>
    cases mode with
    | exclusive =>
      have he : s.step (.build d .exclusive limit) =
          s.addView (.exclusive s.gates.length parent) := by
        simp only [step, hd]
      rw [he]
      exact .built hd Nat.one_pos
    | soft =>
      cases hs : Dispatcher.soft s.gates.length parent limit with
      | error f =>
        have he : s.step (.build d .soft limit) = s := by simp only [step, hd, hs]
        rw [he]
        exact .stays nofun
      | ok v =>
        have he : s.step (.build d .soft limit) = s.addView v := by simp only [step, hd, hs]
        rw [he]
        unfold Dispatcher.soft at hs
        split at hs
        · cases hs
        · split at hs
          · cases hs
          · cases hs
            exact .built hd (by omega)

/-- There are no other courses. -/
theorem steps (s : Traffic τ) (a : Act τ) : Steps s a (s.step a) := by
  cases a with
  | build d mode limit => exact steps_build s d mode limit
  | call n t =>
    simp only [step]
    split
    case h_1 hd => exact .called hd
    case h_2 => exact .stays nofun
  | callFrom i n t tail =>
    simp only [step]
    split
    case h_1 hi hd => exact .calledFrom hd hi
    case h_2 => exact .stays nofun
  | flush i =>
    simp only [step]
    split
    case h_1 hi => exact .flushes hi
    case h_2 => exact .stays nofun
  | raise w vs => exact .raised w vs
  | lower w vs => exact .lowered w vs
  | endBody i entered outcome fatal =>
    simp only [step]
    split
    case h_1 hi =>
      cases entered with
      | true => exact .ended hi
      | false => exact .barred hi
    case h_2 => exact .stays nofun
  | begin w =>
    simp only [step]
    split
    case h_1 hp =>
      obtain ⟨x, hw, hx⟩ := Pool.exists_of_phaseOf? hp
      exact .began hw hx
    case h_2 => exact .stays nofun
  | resume w timedOut =>
    simp only [step]
    split
    case h_1 hp =>
      obtain ⟨x, hw, hx⟩ := Pool.exists_of_phaseOf? hp
      exact .resumed hw hx
    case h_2 => exact .stays nofun
  | go i =>
    simp only [step]
    split
    case h_1 c rest hi => exact .goes hi (performs s c)
    case h_2 hn =>
      refine .stays ?_
      rintro _ c rest ⟨rfl⟩ hi
      exact hn c rest hi
  | close => exact .closed
  | terminate =>
    simp only [step]
    split
    case isTrue h => exact .terminated h.1 h.2
    case isFalse => exact .stays nofun

/-! ## Where chores come from -/

omit [Kinded τ] in
theorem mem_thread {ts : List (List (Chore τ))} {i : Nat} {cs : List (Chore τ)} {c : Chore τ}
    (hi : ts[i]? = some cs) (hc : c ∈ cs) : c ∈ ts.flatten :=
  List.mem_flatten.mpr ⟨cs, List.mem_of_getElem? hi, hc⟩

omit [Kinded τ] in
/-- After a turn a worker has the body of the task that it started, if it started one. -/
theorem mem_turnChores {w : Nat} {r : Pool.Turn (Job τ)} {c : Chore τ} :
    c ∈ turnChores w r ↔ ∃ j, r.started = some j ∧ c = .body w j := by
  cases r <;> simp [turnChores, Pool.Turn.started]

/-- The chores that an act gives to threads. -/
inductive Brings (s s' : Traffic τ) : Act τ → Chore τ → Prop where
  | called {n : Option Nat} {d : Dispatcher} {t : τ} (hd : s.dispatcher? n = some d)
      (hl : .called t d.views ∈ s'.log) : Brings s s' (.call n t) (.submit d { task := t } none)
  | calledFrom {i : Nat} {n : Option Nat} {d : Dispatcher} {t : τ} {tail : Bool}
      {slot : Option Nat} (hd : s.dispatcher? n = some d) (hl : .called t d.views ∈ s'.log) :
      Brings s s' (.callFrom i n t tail) (.submit d { task := t } slot)
  | flushes {i w : Nat} : Brings s s' (.flush i) (.flush w)
  | raisesWorker {w : Nat} {vs : List Nat} : Brings s s' (.raise (some w) vs) (.raiseWorker w)
  | raises {w : Option Nat} {vs : List Nat} {v : View}
      (hv : v ∈ vs.filterMap fun i => s.views[i]?) : Brings s s' (.raise w vs) (.raise v)
  | lowersWorker {w : Nat} {vs : List Nat} : Brings s s' (.lower (some w) vs) (.lowerWorker w)
  | lowers {w : Option Nat} {vs : List Nat} {v : View}
      (hv : v ∈ vs.filterMap fun i => s.views[i]?) : Brings s s' (.lower w vs) (.lower v)
  | releases {i w : Nat} {j : Job τ} {rest : List (Chore τ)} {entered fatal : Bool}
      {outcome : Except Failure Unit} {v : View}
      (hi : s.threads[i]? = some (.body w j :: rest)) (hv : v ∈ j.views) :
      Brings s s' (.endBody i entered outcome fatal) (.release v)
  | finishes {i w : Nat} {entered fatal : Bool} {outcome outcome' : Except Failure Unit} :
      Brings s s' (.endBody i entered outcome fatal) (.finish w outcome' fatal)
  | began {w : Nat} {x : Worker (Job τ)} {j : Job τ} (hw : s.pool.worker? w = some x)
      (hx : x.phase = .starting) (hj : (s.pool.begin w).1.started = some j) :
      Brings s s' (.begin w) (.body w j)
  | resumed {w : Nat} {timedOut woken : Bool} {x : Worker (Job τ)} {j : Job τ}
      (hw : s.pool.worker? w = some x) (hx : x.phase = .idle woken)
      (hj : (s.pool.resume w timedOut).1.started = some j) :
      Brings s s' (.resume w timedOut) (.body w j)
  | left {i : Nat} {c e : Chore τ} {rest : List (Chore τ)} {d : Deed τ}
      (hi : s.threads[i]? = some (c :: rest)) (hp : Performs s c d) (he : e ∈ d.todo) :
      Brings s s' (.go i) e

/-- A chore of a thread was there before, or the act brings it. -/
theorem Steps.chore {s s' : Traffic τ} {a : Act τ} (h : Steps s a s') {c : Chore τ}
    (hc : c ∈ s'.threads.flatten) : c ∈ s.threads.flatten ∨ Brings s s' a c := by
  have happend : ∀ {cs : List (Chore τ)}, (c ∈ cs → Brings s s' a c) →
      c ∈ (s.threads ++ [cs]).flatten → c ∈ s.threads.flatten ∨ Brings s s' a c := by
    intro cs hb hm
    rw [List.flatten_append, List.flatten_singleton] at hm
    exact (List.mem_append.mp hm).imp id hb
  have hset : ∀ {i : Nat} {cs ds : List (Chore τ)}, s.threads[i]? = some cs →
      (c ∈ ds → c ∈ cs ∨ Brings s s' a c) → c ∈ (s.threads.set i ds).flatten →
      c ∈ s.threads.flatten ∨ Brings s s' a c := by
    intro i cs ds hi hb hm
    obtain ⟨es, hes, hce⟩ := List.mem_flatten.mp hm
    rcases List.mem_or_eq_of_mem_set hes with hes | rfl
    · exact .inl (List.mem_flatten.mpr ⟨es, hes, hce⟩)
    · exact (hb hce).imp (mem_thread hi) id
  cases h with
  | called hd =>
    refine happend (fun hm => ?_) hc
    rw [List.mem_singleton.mp hm]
    exact .called hd (List.mem_append_right _ (List.mem_singleton_self _))
  | calledFrom hd hi =>
    refine hset hi (fun hm => ?_) hc
    rcases List.mem_cons.mp hm with rfl | hm
    · exact .inr (.calledFrom hd (List.mem_append_right _ (List.mem_singleton_self _)))
    · exact .inl hm
  | flushes hi =>
    refine hset hi (fun hm => ?_) hc
    rcases List.mem_cons.mp hm with rfl | hm
    · exact .inr .flushes
    · exact .inl hm
  | raised w vs =>
    refine happend (fun hm => ?_) hc
    rcases List.mem_append.mp hm with hm | hm <;> obtain ⟨v, hv, rfl⟩ := List.mem_map.mp hm
    · rw [Option.mem_toList.mp hv]
      exact .raisesWorker
    · exact .raises hv
  | lowered w vs =>
    refine happend (fun hm => ?_) hc
    rcases List.mem_append.mp hm with hm | hm <;> obtain ⟨v, hv, rfl⟩ := List.mem_map.mp hm
    · exact .lowers (List.mem_reverse.mp hv)
    · rw [Option.mem_toList.mp hv]
      exact .lowersWorker
  | ended hi =>
    refine hset hi (fun hm => ?_) hc
    rcases List.mem_append.mp hm with hm | hm
    · obtain ⟨v, hv, rfl⟩ := List.mem_map.mp hm
      exact .inr (.releases hi (List.mem_reverse.mp hv))
    · rcases List.mem_cons.mp hm with rfl | hm
      · exact .inr .finishes
      · exact .inl (List.mem_cons_of_mem _ hm)
  | barred hi =>
    refine hset hi (fun hm => ?_) hc
    rcases List.mem_cons.mp hm with rfl | hm
    · exact .inr .finishes
    · exact .inl (List.mem_cons_of_mem _ hm)
  | began hw hx =>
    refine happend (fun hm => ?_) hc
    obtain ⟨j, hj, rfl⟩ := mem_turnChores.mp hm
    exact .began hw hx hj
  | resumed hw hx =>
    refine happend (fun hm => ?_) hc
    obtain ⟨j, hj, rfl⟩ := mem_turnChores.mp hm
    exact .resumed hw hx hj
  | goes hi hp =>
    refine hset hi (fun hm => ?_) hc
    rcases List.mem_append.mp hm with hm | hm
    · exact .inr (.left hi hp hm)
    · exact .inl (List.mem_cons_of_mem _ hm)
  | _ => exact .inl hc

/-! ## What acts log -/

/-- What an act logs. -/
inductive Logs (s s' : Traffic τ) : Act τ → Event τ → Prop where
  | called {n : Option Nat} {d : Dispatcher} {t : τ} (hd : s.dispatcher? n = some d) :
      Logs s s' (.call n t) (.called t d.views)
  | calledFrom {i : Nat} {n : Option Nat} {d : Dispatcher} {t : τ} {tail : Bool}
      (hd : s.dispatcher? n = some d) : Logs s s' (.callFrom i n t tail) (.called t d.views)
  | stranded {i : Nat} {outcome : Except Failure Unit} {fatal : Bool} {v : View} :
      Logs s s' (.endBody i false outcome fatal) (.stranded v)
  | began {w : Nat} {x : Worker (Job τ)} {e : Event τ} (hw : s.pool.worker? w = some x)
      (hx : x.phase = .starting) (he : e ∈ turnEvents .forced (s.pool.begin w).1) :
      Logs s s' (.begin w) e
  | resumed {w : Nat} {timedOut woken : Bool} {x : Worker (Job τ)} {e : Event τ}
      (hw : s.pool.worker? w = some x) (hx : x.phase = .idle woken)
      (he : e ∈ turnEvents .forced (s.pool.resume w timedOut).1) :
      Logs s s' (.resume w timedOut) e
  | performed {i : Nat} {c : Chore τ} {rest : List (Chore τ)} {d : Deed τ} {e : Event τ}
      (hi : s.threads[i]? = some (c :: rest)) (hp : Performs s c d) (he : e ∈ d.events)
      (hl : d.events ⊆ s'.log) : Logs s s' (.go i) e
  | terminated {j : Job τ} {e : Event τ} (he : e ∈ j.lost .forced) : Logs s s' .terminate e

/-- There is nothing else in the log. -/
theorem Steps.logs {s s' : Traffic τ} {a : Act τ} (h : Steps s a s') {e : Event τ}
    (hm : e ∈ s'.log) : e ∈ s.log ∨ Logs s s' a e := by
  cases h with
  | called hd =>
    refine (List.mem_append.mp hm).imp id fun hm => ?_
    rw [List.mem_singleton.mp hm]
    exact .called hd
  | calledFrom hd =>
    refine (List.mem_append.mp hm).imp id fun hm => ?_
    rw [List.mem_singleton.mp hm]
    exact .calledFrom hd
  | barred =>
    refine (List.mem_append.mp hm).imp id fun hm => ?_
    obtain ⟨v, -, rfl⟩ := List.mem_map.mp hm
    exact .stranded
  | began hw hx => exact (List.mem_append.mp hm).imp id fun hm => .began hw hx hm
  | resumed hw hx => exact (List.mem_append.mp hm).imp id fun hm => .resumed hw hx hm
  | goes hi hp =>
    exact (List.mem_append.mp hm).imp id fun hm =>
      .performed hi hp hm (List.subset_append_right _ _)
  | terminated =>
    refine (List.mem_append.mp hm).imp id fun hm => ?_
    obtain ⟨j, -, hj⟩ := List.mem_flatMap.mp hm
    exact .terminated hj
  | _ => exact .inl hm

/-! ## Rare events -/

omit [Kinded τ] in
theorem not_rare_lost (j : Job τ) (cause : Cause) : ∀ e ∈ j.lost cause, e.isRare = false := by
  intro e he
  rcases List.mem_cons.mp he with rfl | he
  · rfl
  · obtain ⟨v, -, rfl⟩ := List.mem_map.mp he
    rfl

omit [Kinded τ] in
theorem not_rare_turn (cause : Cause) (r : Pool.Turn (Job τ)) :
    ∀ e ∈ turnEvents cause r, e.isRare = false := by
  rcases r with j | - | (- | j)
  · simp [turnEvents, Event.isRare]
  · simp [turnEvents]
  · simp [turnEvents]
  · exact not_rare_lost j cause

/-- A chore that logs a rare event finds the pool closed and drops a task. -/
theorem Performs.rare {s : Traffic τ} {c : Chore τ} {d : Deed τ} (h : Performs s c d) {e : Event τ}
    (he : e ∈ d.events) (hr : e.isRare = true) :
    s.pool.closed = true ∧ (∃ k, .dropped .cut k ∈ d.events) ∧ ∀ t route, e ≠ .called t route := by
  have hroutine : ¬ ∀ e ∈ d.events, e.isRare = false := fun hn =>
    Bool.false_ne_true ((hn e he).symm.trans hr)
  cases h with
  | @cut k j hc =>
    refine ⟨hc, ⟨k, by simp [Job.lost]⟩, ?_⟩
    rintro t route rfl
    simp [Job.lost] at he
  | settled hc => exact (hroutine (by cases hc <;> simp [Event.isRare])).elim
  | admits hc => exact (hroutine (by cases hc <;> simp [Event.isRare])).elim
  | missing hc => exact (hroutine (by cases hc <;> simp [Event.isRare])).elim
  | finished => exact (hroutine (List.forall_mem_cons.mpr ⟨rfl, not_rare_turn _ _⟩)).elim
  | died => exact (hroutine (List.forall_mem_cons.mpr ⟨rfl, not_rare_turn _ _⟩)).elim
  | discarded =>
    refine (hroutine (List.forall_mem_cons.mpr ⟨rfl, fun e he => ?_⟩)).elim
    obtain ⟨v, -, rfl⟩ := List.mem_map.mp he
    rfl
  | _ => exact (hroutine (by simp [Traffic.idle, refuse, taken, Event.isRare])).elim

/-- A rare event was logged before, is a call, or comes with a task that a close dropped. -/
theorem Steps.rare {s s' : Traffic τ} {a : Act τ} (h : Steps s a s') {e : Event τ}
    (he : e ∈ s'.log) (hr : e.isRare = true) :
    e ∈ s.log ∨ (∃ t route, e = .called t route) ∨
      (s.pool.closed = true ∧ ∃ k, .dropped .cut k ∈ s'.log) := by
  rcases h.logs he with hm | hl
  · exact .inl hm
  · cases hl with
    | called => exact .inr (.inl ⟨_, _, rfl⟩)
    | calledFrom => exact .inr (.inl ⟨_, _, rfl⟩)
    | stranded => cases hr
    | began _ _ he => cases (not_rare_turn _ _ e he).symm.trans hr
    | resumed _ _ he => cases (not_rare_turn _ _ e he).symm.trans hr
    | performed _ hp he hl =>
      obtain ⟨hc, ⟨k, hk⟩, -⟩ := hp.rare he hr
      exact .inr (.inr ⟨hc, k, hl hk⟩)
    | terminated he => cases (not_rare_lost _ _ e he).symm.trans hr

end Traffic

end Workforce
