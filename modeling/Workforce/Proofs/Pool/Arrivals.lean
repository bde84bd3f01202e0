import Mathlib.Data.List.Basic
import Workforce.Proofs.Pool.Parallelism

/-
  Free workers that reach the scheduling loop one after the other, with nothing else in between.
  Which task a worker finds depends on who came before it: one that comes early may find the limit
  exhausted and take a blocking task, and another that ends a processor-bound task makes room after
  it. What all of them find together does not. `cpuShare` and `blockingShare` say how many tasks of
  each kind it is, in terms of the pool before the first of them comes.

  A worker is in one of three cases (`Arrives`), and in each the shares of the others are what is
  left of the shares of all (`Settles.cpu`, `Settles.blocking`, `Settles.nothing`). So by induction
  on the workers `Settles` describes the pool after all of them, and it depends on their order only
  as far as it says who runs what (`Settles.alike`).

  `free_workers_in_any_order`: the end states of two orders agree up to that.
-/

namespace Workforce

/-- What a worker has, whatever it is doing. -/
def Worker.belongings {τ : Type} (x : Worker τ) : Option τ × Nat × Nat := (x.slot, x.account)

/-- How many tasks end with a role. -/
def Role.ends : Role → Nat
  | .running _ => 1
  | _ => 0

/-- A value is not found more often at distinct positions than it occurs. -/
theorem countP_getElem?_le {α : Type} [DecidableEq α] {xs : List (Option α)} (a : α) {is : List Nat}
    (hd : is.Nodup) : is.countP (fun i => xs[i]? = some (some a)) ≤ xs.count (some a) := by
  induction is generalizing xs with
  | nil => exact Nat.zero_le _
  | cons i is ih =>
    obtain ⟨hi, hd⟩ := List.nodup_cons.mp hd
    by_cases ha : xs[i]? = some (some a)
    · -- the other positions find as much with this one out of the way
      have hother : is.countP (fun j => (xs.set i none)[j]? = some (some a)) =
          is.countP fun j => xs[j]? = some (some a) := by
        refine List.countP_congr fun j hj => ?_
        have hne : i ≠ j := fun h => hi (h ▸ hj)
        rw [List.getElem?_set_ne hne]
      have hset := count_set_add ha none (some a)
      have hrest := @ih (xs.set i none) hd
      rw [if_pos rfl, if_neg nofun] at hset
      rw [hother] at hrest
      simp only [List.countP_cons, ha, decide_true, if_true]
      omega
    · simp only [List.countP_cons, ha, decide_false]
      exact ih hd

namespace Pool

variable {τ : Type} [Kinded τ]

/-! ## Free workers -/

/-- The section in which a free worker reaches the scheduling loop: one that was started, one that
waits and wakes in time, or one that ends its task. -/
def nextSection? (p : Pool τ) (w : Nat) : Option (Section τ) :=
  match p.phaseOf? w with
  | some .starting => some (.begin w)
  | some (.idle _) => some (.resume w false)
  | some (.running _) => some (.finish w)
  | _ => none

/-- How many of the workers have a role. -/
def inRole (p : Pool τ) (ws : List Nat) (r : Role) : Nat :=
  ws.countP fun w => p.roles[w]? = some (some r)

/-- How many processor-bound tasks the workers find. -/
def cpuShare (p : Pool τ) (ws : List Nat) : Nat :=
  min p.cpuQueue.length
    (min (p.effectiveLimit - (p.runningCpu - p.inRole ws (.running .cpu))) ws.length)

/-- How many blocking tasks the workers find. -/
def blockingShare (p : Pool τ) (ws : List Nat) : Nat :=
  min p.blockingQueue.length (ws.length - p.cpuShare ws)

/-- The tasks that the sections of a run start, in order. -/
def startedIn (p : Pool τ) : List (Section τ) → List τ
  | [] => []
  | s :: ss => (p.started? s).toList ++ startedIn (p.step s) ss

/-- What free workers leave as it is. -/
def fixed (p : Pool τ) : Config × Nat × Nat × Bool × Bool × Nat :=
  (p.config, p.limit, p.live, p.closed, p.abandoned, p.signals)

omit [Kinded τ] in
theorem bare_ext {p q : Pool τ} (hf : q.fixed = p.fixed) (hq : q.queues = p.queues)
    (hc : ∀ r, q.counter r = p.counter r) (hd : q.completed = p.completed) : q.bare = p.bare := by
  have hstarting : q.starting = p.starting := hc .starting
  have hidle : q.idle = p.idle := hc .idle
  have hcpu : q.runningCpu = p.runningCpu := hc (.running .cpu)
  have hblocking : q.runningBlocking = p.runningBlocking := hc (.running .blocking)
  simp only [fixed, queues, Prod.mk.injEq] at hf hq
  simp only [bare, mk.injEq]
  simp_all

omit [Kinded τ] in
theorem effectiveLimit_of_fixed {p q : Pool τ} (h : q.fixed = p.fixed) :
    q.effectiveLimit = p.effectiveLimit := by
  simp only [fixed, Prod.mk.injEq] at h
  rw [effectiveLimit, h.1, h.2.1, effectiveLimit]

/-! ## One worker -/

/-- A worker gives up a role and is in a phase after that. -/
structure Passes (p : Pool τ) (w : Nat) (r : Role) (phase : Phase τ) (q : Pool τ) : Prop where
  fixed : q.fixed = p.fixed
  counter : ∀ a, q.counter a =
    p.counter a - (if r = a then 1 else 0) + if phase.role? = some a then 1 else 0
  completed : q.completed = p.completed + r.ends
  workers : q.workers = (p.setPhase w phase).workers

/-- What a worker that comes by finds, and the pool after that. -/
inductive Arrives (p : Pool τ) (w : Nat) (r : Role) : Option τ × Pool τ → Prop where
  | cpu {t : τ} {q : Pool τ}
      (ha : p.runningCpu - (if r = .running .cpu then 1 else 0) < p.effectiveLimit)
      (hk : Kinded.kind t = .cpu) (hc : p.cpuQueue = t :: q.cpuQueue)
      (hb : p.blockingQueue = q.blockingQueue) (h : Passes p w r (.running t) q) :
      Arrives p w r (some t, q)
  | blocking {t : τ} {q : Pool τ}
      (ha : p.runningCpu - (if r = .running .cpu then 1 else 0) < p.effectiveLimit →
        p.cpuQueue = [])
      (hk : Kinded.kind t = .blocking) (hc : p.cpuQueue = q.cpuQueue)
      (hb : p.blockingQueue = t :: q.blockingQueue) (h : Passes p w r (.running t) q) :
      Arrives p w r (some t, q)
  | nothing {q : Pool τ}
      (ha : p.runningCpu - (if r = .running .cpu then 1 else 0) < p.effectiveLimit →
        p.cpuQueue = [])
      (hc : p.cpuQueue = q.cpuQueue) (hb : p.blockingQueue = []) (hn : q.blockingQueue = [])
      (h : Passes p w r (.idle false) q) : Arrives p w r (none, q)

omit [Kinded τ] in
theorem emptySlot_of_empty {p : Pool τ} {w : Nat} (h : p.slotOf? w = none) :
    p.emptySlot w = p := by
  have hw : p.workers.modify w (fun x => { x with slot := none }) = p.workers := by
    refine List.ext_getElem? fun u => ?_
    rw [List.getElem?_modify]
    split
    case isTrue he =>
      subst he
      cases hx : p.workers[w]? with
      | none => rfl
      | some x =>
        have hs : x.slot = none := (slotOf?_eq hx).symm.trans h
        exact congrArg some (by rw [← hs])
    case isFalse => simp
  rw [emptySlot, modifyWorker, hw]

/-- The role that a free worker gives up, and how its section goes on. -/
theorem nextSection?_eq {p : Pool τ} {w : Nat} {s : Section τ} (h : p.nextSection? w = some s) :
    ∃ r, p.roles[w]? = some (some r) ∧ p.step s = ((p.uncount r).schedule w).2 ∧
      p.started? s = ((p.uncount r).schedule w).1.started := by
  unfold nextSection? at h
  split at h
  case h_1 hp =>
    cases h
    obtain ⟨x, hw, hx⟩ := exists_of_phaseOf? hp
    refine ⟨.starting, ?_, ?_, ?_⟩
    · rw [roles_getElem? hw, hx]
      rfl
    · rw [step, hp]
      rfl
    · rw [started?, turn?, hp]
      rfl
  case h_2 hp =>
    cases h
    obtain ⟨x, hw, hx⟩ := exists_of_phaseOf? hp
    have hresume : p.resume w false = (p.uncount .idle).schedule w := by
      rw [resume, if_neg fun h => Bool.false_ne_true h.1]
      rfl
    refine ⟨.idle, ?_, ?_, ?_⟩
    · rw [roles_getElem? hw, hx]
      rfl
    · rw [step, hp, ← hresume]
    · rw [started?, turn?, hp, ← hresume]
      rfl
  case h_3 t hp =>
    cases h
    obtain ⟨x, hw, hx⟩ := exists_of_phaseOf? hp
    have ht : p.taskOf? w = some t := by
      rw [taskOf?_eq hw, hx]
      rfl
    refine ⟨.running (Kinded.kind t), ?_, ?_, ?_⟩
    · rw [roles_getElem? hw, hx]
      rfl
    · rw [step, ht]
      rfl
    · rw [started?, turn?, ht]
      rfl
  case h_4 => cases h

omit [Kinded τ] in
theorem fixed_uncount {p : Pool τ} (ho : p.closed = false) (r : Role) :
    (p.uncount r).fixed = p.fixed := by
  have hend : ∀ k, (p.countEnd k).fixed = p.fixed := by
    intro k
    unfold countEnd
    cases k <;> dsimp only <;> rw [if_neg (by rw [ho]; exact Bool.false_ne_true)] <;> rfl
  cases r with
  | running k => exact hend k
  | _ => rfl

omit [Kinded τ] in
theorem uncount_others (p : Pool τ) (r : Role) :
    (p.uncount r).queues = p.queues ∧ (p.uncount r).workers = p.workers ∧
      (p.uncount r).completed = p.completed + r.ends := by
  cases r with
  | running k =>
    unfold uncount countEnd signal
    cases k <;> dsimp only <;> split <;> exact ⟨rfl, rfl, rfl⟩
  | _ => exact ⟨rfl, rfl, rfl⟩

/-- A worker that gave up its role enters a phase and is counted in its role there. -/
theorem passes_setPhase {p m : Pool τ} (ho : p.closed = false) {r : Role} (w : Nat)
    {phase : Phase τ} (role : Role) (hrole : phase.role? = some role) (hf : m.fixed = (p.uncount r).fixed)
    (hd : m.completed = (p.uncount r).completed) (hw : m.workers = (p.uncount r).workers)
    (hc : ∀ a, m.counter a = (p.uncount r).counter a + if some role = some a then 1 else 0) :
    Passes p w r phase (m.setPhase w phase) := by
  obtain ⟨-, hworkers, hcompleted⟩ := uncount_others p r
  refine ⟨hf.trans (fixed_uncount ho r), fun a => ?_, hd.trans hcompleted, ?_⟩
  · rw [← counter_uncount, hrole]
    exact hc a
  · show m.workers.modify w _ = p.workers.modify w _
    rw [hw, hworkers]

/-- A free worker with an empty slot is in one of the three cases. -/
theorem arrives {p : Pool τ} {w : Nat} {s : Section τ} (ho : p.closed = false)
    (ha : p.abandoned = false) (hp : Orderly p) (hw : p.slotOf? w = none)
    (hs : p.nextSection? w = some s) :
    ∃ r, p.roles[w]? = some (some r) ∧ Arrives p w r (p.started? s, p.step s) := by
  obtain ⟨r, hr, hstep, hstart⟩ := nextSection?_eq hs
  refine ⟨r, hr, ?_⟩
  rw [hstep, hstart]
  have hfixed := fixed_uncount ho r
  obtain ⟨hqueues, hworkers, -⟩ := uncount_others p r
  obtain ⟨hcpu, hblocking⟩ := Prod.mk.inj hqueues
  have horderly := orderly_uncount hp r
  have hslot : (p.uncount r).slotOf? w = none := by
    rw [slotOf?, worker?, hworkers]
    exact hw
  have hadmits : (p.uncount r).admitsCpu = true ↔
      p.runningCpu - (if r = .running .cpu then 1 else 0) < p.effectiveLimit := by
    have hcount : (p.uncount r).runningCpu = p.runningCpu - if r = .running .cpu then 1 else 0 :=
      counter_uncount p r (.running .cpu)
    rw [← hcount, ← effectiveLimit_of_fixed hfixed]
    exact admitsCpu_iff _
  simp only [fixed, Prod.mk.injEq] at hfixed
  obtain ⟨-, -, -, hclosed, habandoned, -⟩ := hfixed
  generalize hm : (p.uncount r).schedule w = m
  have hsch : Schedules (p.uncount r) w m := hm ▸ schedules _ w
  cases hsch with
  | abandoned hk =>
    rw [habandoned, ha] at hk
    cases hk
  | @runs t q _ hpick =>
    rw [emptySlot_of_empty hslot, hslot] at hpick
    cases hpick with
    | @cpu _ _ rest hadm hc =>
      have hk : Kinded.kind t = .cpu := horderly.cpu t (by rw [hc]; exact List.mem_cons_self)
      rw [hk]
      refine .cpu (hadmits.mp hadm) hk (hcpu.symm.trans hc) hblocking.symm
        (passes_setPhase ho w (.running .cpu) ?_ rfl rfl rfl fun a => ?_)
      · rw [← hk]
        rfl
      · exact counter_countStart { p.uncount r with cpuQueue := rest } .cpu a
    | @blocking _ _ rest hadm hc =>
      have hk : Kinded.kind t = .blocking :=
        horderly.blocking t (by rw [hc]; exact List.mem_cons_self)
      rw [hk]
      refine .blocking (fun h => hcpu.symm.trans (hadm (hadmits.mpr h))) hk hcpu.symm
        (hblocking.symm.trans hc) (passes_setPhase ho w (.running .blocking) ?_ rfl rfl rfl fun a => ?_)
      · rw [← hk]
        rfl
      · exact counter_countStart { p.uncount r with blockingQueue := rest } .blocking a
  | @drained q _ hpick hc =>
    rw [hpick.frame] at hc
    exact absurd (ho.symm.trans (hclosed.symm.trans hc)) Bool.false_ne_true
  | @rests q _ hpick =>
    rw [emptySlot_of_empty hslot, hslot] at hpick
    cases hpick with
    | nothing hadm hc =>
      refine .nothing (fun h => hcpu.symm.trans (hadm (hadmits.mpr h))) hcpu.symm
        (hblocking.symm.trans hc) hc (passes_setPhase ho w .idle rfl rfl rfl rfl fun a => ?_)
      exact (takes_idle (p.uncount r) w).counter a

/-! ## The other workers -/

section passing

variable {p q : Pool τ} {w u : Nat} {r : Role} {phase : Phase τ} {ws : List Nat}

theorem Passes.roles (h : Passes p w r phase q) : q.roles = p.roles.set w phase.role? := by
  rw [← roles_setPhase p w phase, Pool.roles, h.workers, Pool.roles]

theorem Passes.worker?_ne (h : Passes p w r phase q) (hu : u ≠ w) : q.worker? u = p.worker? u := by
  rw [worker?, h.workers]
  exact (worker?_modifyWorker p w u _).trans (if_neg (Ne.symm hu))

theorem Passes.phaseOf? (h : Passes p w r phase q) (hr : p.roles[w]? = some (some r)) :
    q.phaseOf? w = some phase := by
  rw [Pool.roles, List.getElem?_map] at hr
  obtain ⟨x, hx, -⟩ := Option.map_eq_some_iff.mp hr
  have hq : q.worker? w = (p.workers[w]?).map fun x => { x with phase } := by
    rw [worker?, h.workers]
    exact (worker?_modifyWorker p w w _).trans (if_pos rfl)
  rw [Pool.phaseOf?, hq, hx]
  rfl

theorem Passes.belongings (h : Passes p w r phase q) :
    q.workers.map Worker.belongings = p.workers.map Worker.belongings := by
  rw [h.workers, setPhase, modifyWorker]
  refine List.ext_getElem? fun u => ?_
  rw [List.getElem?_map, List.getElem?_map, List.getElem?_modify]
  cases p.workers[u]? with
  | none => rfl
  | some x => by_cases hu : w = u <;> simp [hu, Worker.belongings, Worker.account]

theorem Passes.inRole (h : Passes p w r phase q) (hw : w ∉ ws) (a : Role) :
    q.inRole ws a = p.inRole ws a := by
  refine List.countP_congr fun u hu => ?_
  have hne : w ≠ u := fun he => hw (he ▸ hu)
  rw [h.roles, List.getElem?_set_ne hne]

theorem Passes.nextSections (h : Passes p w r phase q) (hw : w ∉ ws) :
    ws.filterMap q.nextSection? = ws.filterMap p.nextSection? := by
  refine List.filterMap_congr fun u hu => ?_
  have hne : u ≠ w := fun he => hw (he ▸ hu)
  rw [nextSection?, Pool.phaseOf?, h.worker?_ne hne]
  rfl

theorem inRole_cons (hw : p.roles[w]? = some (some r)) (a : Role) :
    p.inRole (w :: ws) a = p.inRole ws a + if r = a then 1 else 0 := by
  rw [Pool.inRole, List.countP_cons, hw]
  simp [Pool.inRole]

end passing

/-! ## Shares -/

/-- A pool in which free workers come by. -/
structure Ready (p : Pool τ) (ws : List Nat) : Prop where
  closed : p.closed = false
  abandoned : p.abandoned = false
  orderly : Orderly p
  counts : ∀ r, CountsRole p r
  nodup : ws.Nodup
  slots : ∀ w ∈ ws, p.slotOf? w = none
  free : ∀ w ∈ ws, (p.nextSection? w).isSome = true

theorem Ready.inRole_le {p : Pool τ} {ws : List Nat} (h : Ready p ws) (r : Role) :
    p.inRole ws r ≤ p.counter r := by
  rw [h.counts r]
  exact countP_getElem?_le r h.nodup

theorem Ready.step {p : Pool τ} {w : Nat} {r : Role} {phase : Phase τ} {ws : List Nat}
    {s : Section τ} (h : Ready p (w :: ws)) (hp : Passes p w r phase (p.step s)) :
    Ready (p.step s) ws := by
  obtain ⟨hw, hnodup⟩ := List.nodup_cons.mp h.nodup
  have hworker : ∀ u ∈ ws, (p.step s).worker? u = p.worker? u := by
    intro u hu
    exact hp.worker?_ne fun he => hw (he ▸ hu)
  have hfixed := hp.fixed
  simp only [Pool.fixed, Prod.mk.injEq] at hfixed
  obtain ⟨-, -, -, hclosed, habandoned, -⟩ := hfixed
  refine ⟨hclosed.trans h.closed, habandoned.trans h.abandoned, orderly_step h.orderly s,
    fun r => (h.counts r).step s, hnodup, fun u hu => ?_, fun u hu => ?_⟩
  · rw [slotOf?, hworker u hu]
    exact h.slots u (List.mem_cons_of_mem w hu)
  · rw [nextSection?, Pool.phaseOf?, hworker u hu]
    exact h.free u (List.mem_cons_of_mem w hu)

section shares

variable {p q : Pool τ} {w : Nat} {r : Role} {phase : Phase τ} {ws : List Nat}

/-- A worker that takes a processor-bound task takes it from the share. -/
theorem shares_cpu {t : τ} (hr : p.roles[w]? = some (some r)) (hw : w ∉ ws)
    (hle : p.inRole (w :: ws) (.running .cpu) ≤ p.runningCpu) (hk : Kinded.kind t = .cpu)
    (ha : p.runningCpu - (if r = .running .cpu then 1 else 0) < p.effectiveLimit)
    (hc : p.cpuQueue = t :: q.cpuQueue) (hb : p.blockingQueue = q.blockingQueue)
    (h : Passes p w r (.running t) q) :
    p.cpuShare (w :: ws) = q.cpuShare ws + 1 ∧ p.blockingShare (w :: ws) = q.blockingShare ws := by
  have hrole : (Phase.running t).role? = some (.running .cpu) := by rw [← hk]; rfl
  have hcount : q.runningCpu = p.runningCpu - (if r = .running .cpu then 1 else 0) + 1 := by
    have hcount := h.counter (.running .cpu)
    rw [hrole, if_pos rfl] at hcount
    exact hcount
  have hin := h.inRole hw (.running .cpu)
  rw [inRole_cons hr] at hle
  have hcpu : p.cpuShare (w :: ws) = q.cpuShare ws + 1 := by
    rw [cpuShare, cpuShare, inRole_cons hr, effectiveLimit_of_fixed h.fixed, hcount, hin, hc,
      List.length_cons, List.length_cons]
    omega
  refine ⟨hcpu, ?_⟩
  rw [blockingShare, blockingShare, hcpu, hb, List.length_cons]
  omega

/-- A worker that finds no admissible processor-bound task takes nothing from their share. -/
theorem cpuShare_of_none (hr : p.roles[w]? = some (some r)) (hw : w ∉ ws)
    (hle : p.inRole (w :: ws) (.running .cpu) ≤ p.runningCpu)
    (hrole : phase.role? ≠ some (.running .cpu))
    (ha : p.runningCpu - (if r = .running .cpu then 1 else 0) < p.effectiveLimit →
      p.cpuQueue = [])
    (hc : p.cpuQueue = q.cpuQueue) (h : Passes p w r phase q) :
    p.cpuShare (w :: ws) = q.cpuShare ws ∧ q.cpuShare ws ≤ ws.length := by
  have hcount : q.runningCpu = p.runningCpu - if r = .running .cpu then 1 else 0 := by
    have hcount := h.counter (.running .cpu)
    rw [if_neg hrole] at hcount
    exact hcount
  have hin := h.inRole hw (.running .cpu)
  have hlen : p.inRole ws (.running .cpu) ≤ ws.length := List.countP_le_length
  rw [inRole_cons hr] at hle
  rw [cpuShare, cpuShare, inRole_cons hr, effectiveLimit_of_fixed h.fixed, hcount, hin, ← hc,
    List.length_cons]
  by_cases hadm : p.runningCpu - (if r = .running .cpu then 1 else 0) < p.effectiveLimit
  · have hnil : p.cpuQueue.length = 0 := by rw [ha hadm]; rfl
    omega
  · omega

end shares

/-! ## All workers -/

/-- What the workers do after they came by, up to who of them does what. -/
def outcome (p : Pool τ) (ws : List Nat) : List (Phase τ) :=
  (p.cpuQueue.take (p.cpuShare ws) ++ p.blockingQueue.take (p.blockingShare ws)).map .running ++
    List.replicate (ws.length - p.cpuShare ws - p.blockingShare ws) (.idle false)

/-- The pool `q` is what workers leave of `p` that came by and started the tasks `ts`. -/
structure Settles (p : Pool τ) (ws : List Nat) (ts : List τ) (q : Pool τ) : Prop where
  fixed : q.fixed = p.fixed
  cpu : ts.filter (fun t => Kinded.kind t = .cpu) = p.cpuQueue.take (p.cpuShare ws)
  blocking : ts.filter (fun t => Kinded.kind t = .blocking) =
    p.blockingQueue.take (p.blockingShare ws)
  cpuQueue : q.cpuQueue = p.cpuQueue.drop (p.cpuShare ws)
  blockingQueue : q.blockingQueue = p.blockingQueue.drop (p.blockingShare ws)
  counter : ∀ a, q.counter a =
    p.counter a - p.inRole ws a + (p.outcome ws).countP fun phase => phase.role? = some a
  completed : q.completed =
    p.completed + p.inRole ws (.running .cpu) + p.inRole ws (.running .blocking)
  phases : (ws.map q.phaseOf?).Perm ((p.outcome ws).map some)
  belongings : q.workers.map Worker.belongings = p.workers.map Worker.belongings
  others : ∀ w, w ∉ ws → q.phaseOf? w = p.phaseOf? w

theorem settles_nil (p : Pool τ) : Settles p [] [] p := by
  have hx : p.cpuShare [] = 0 := by simp [cpuShare]
  have hy : p.blockingShare [] = 0 := by simp [blockingShare]
  have ho : p.outcome [] = [] := by simp [outcome, hx, hy]
  refine ⟨rfl, ?_, ?_, ?_, ?_, fun a => ?_, rfl, ?_, rfl, fun _ _ => rfl⟩
  · rw [hx]
    rfl
  · rw [hy]
    rfl
  · rw [hx]
    rfl
  · rw [hy]
    rfl
  · rw [ho]
    rfl
  · rw [ho]
    exact .refl []

section settling

variable {p m q : Pool τ} {w : Nat} {r : Role} {phase : Phase τ} {ws : List Nat} {ts : List τ}

/-- The last worker to be counted is the first to come by. -/
theorem Settles.cons (h : Settles m ws ts q) (hp : Passes p w r phase m)
    (hready : Ready p (w :: ws)) (hr : p.roles[w]? = some (some r)) {o : Option τ}
    (hcpu : (o.toList ++ ts).filter (fun t => Kinded.kind t = .cpu) =
      p.cpuQueue.take (p.cpuShare (w :: ws)))
    (hblocking : (o.toList ++ ts).filter (fun t => Kinded.kind t = .blocking) =
      p.blockingQueue.take (p.blockingShare (w :: ws)))
    (hcpuQueue : q.cpuQueue = p.cpuQueue.drop (p.cpuShare (w :: ws)))
    (hblockingQueue : q.blockingQueue = p.blockingQueue.drop (p.blockingShare (w :: ws)))
    (hout : (p.outcome (w :: ws)).Perm (phase :: m.outcome ws)) :
    Settles p (w :: ws) (o.toList ++ ts) q := by
  have hw : w ∉ ws := (List.nodup_cons.mp hready.nodup).1
  refine ⟨h.fixed.trans hp.fixed, hcpu, hblocking, hcpuQueue, hblockingQueue, fun a => ?_, ?_, ?_,
    h.belongings.trans hp.belongings, fun u hu => ?_⟩
  · have hle := hready.inRole_le a
    have hcount := h.counter a
    rw [inRole_cons hr] at hle ⊢
    rw [hp.counter, hp.inRole hw] at hcount
    rw [hout.countP_eq, List.countP_cons, hcount]
    simp only [decide_eq_true_eq]
    omega
  · rw [h.completed, hp.completed, hp.inRole hw, hp.inRole hw, inRole_cons hr, inRole_cons hr]
    rcases r with _ | _ | k
    · simp [Role.ends]
    · simp [Role.ends]
    · cases k <;> simp [Role.ends] <;> omega
  · refine List.Perm.trans ?_ (hout.symm.map some)
    rw [List.map_cons, List.map_cons, h.others w hw, hp.phaseOf? hr]
    exact h.phases.cons _
  · obtain ⟨hne, hu⟩ := List.ne_and_not_mem_of_not_mem_cons hu
    rw [h.others u hu, Pool.phaseOf?, hp.worker?_ne hne]
    rfl

theorem Settles.cpu_first (h : Settles m ws ts q) (hready : Ready p (w :: ws))
    (hr : p.roles[w]? = some (some r)) {t : τ}
    (ha : p.runningCpu - (if r = .running .cpu then 1 else 0) < p.effectiveLimit)
    (hk : Kinded.kind t = .cpu) (hc : p.cpuQueue = t :: m.cpuQueue)
    (hb : p.blockingQueue = m.blockingQueue) (hp : Passes p w r (.running t) m) :
    Settles p (w :: ws) (t :: ts) q := by
  have hw : w ∉ ws := (List.nodup_cons.mp hready.nodup).1
  obtain ⟨hx, hy⟩ := shares_cpu hr hw (hready.inRole_le _) hk ha hc hb hp
  refine h.cons hp hready hr (o := some t) ?_ ?_ ?_ ?_ ?_
  · rw [hx, hc, List.take_succ_cons, ← h.cpu]
    exact List.filter_cons_of_pos (decide_eq_true hk)
  · rw [hy, hb, ← h.blocking]
    refine List.filter_cons_of_neg ?_
    simp [hk]
  · rw [hx, hc, List.drop_succ_cons, h.cpuQueue]
  · rw [hy, hb, h.blockingQueue]
  · rw [outcome, hx, hy, hc, hb, List.take_succ_cons, List.length_cons, Nat.add_sub_add_right]
    rfl

theorem Settles.blocking_first (h : Settles m ws ts q) (hready : Ready p (w :: ws))
    (hr : p.roles[w]? = some (some r)) {t : τ}
    (ha : p.runningCpu - (if r = .running .cpu then 1 else 0) < p.effectiveLimit →
      p.cpuQueue = [])
    (hk : Kinded.kind t = .blocking) (hc : p.cpuQueue = m.cpuQueue)
    (hb : p.blockingQueue = t :: m.blockingQueue) (hp : Passes p w r (.running t) m) :
    Settles p (w :: ws) (t :: ts) q := by
  have hw : w ∉ ws := (List.nodup_cons.mp hready.nodup).1
  have hrole : (Phase.running t).role? ≠ some (.running .cpu) := by
    intro he
    rw [Phase.role?, hk] at he
    cases he
  obtain ⟨hx, hlen⟩ := cpuShare_of_none hr hw (hready.inRole_le _) hrole ha hc hp
  have hy : p.blockingShare (w :: ws) = m.blockingShare ws + 1 := by
    rw [blockingShare, blockingShare, hx, hb, List.length_cons, List.length_cons]
    omega
  refine h.cons hp hready hr (o := some t) ?_ ?_ ?_ ?_ ?_
  · rw [hx, hc, ← h.cpu]
    refine List.filter_cons_of_neg ?_
    simp [hk]
  · rw [hy, hb, List.take_succ_cons, ← h.blocking]
    exact List.filter_cons_of_pos (decide_eq_true hk)
  · rw [hx, hc, h.cpuQueue]
  · rw [hy, hb, List.drop_succ_cons, h.blockingQueue]
  · have hidle : (w :: ws).length - m.cpuShare ws - (m.blockingShare ws + 1) =
        ws.length - m.cpuShare ws - m.blockingShare ws := by
      rw [List.length_cons]
      omega
    rw [outcome, outcome, hx, hy, hc, hb, hidle, List.take_succ_cons, List.map_append,
      List.map_cons, List.map_append, List.append_assoc, List.append_assoc]
    exact List.perm_middle

theorem Settles.nothing_first (h : Settles m ws ts q) (hready : Ready p (w :: ws))
    (hr : p.roles[w]? = some (some r))
    (ha : p.runningCpu - (if r = .running .cpu then 1 else 0) < p.effectiveLimit →
      p.cpuQueue = [])
    (hc : p.cpuQueue = m.cpuQueue) (hb : p.blockingQueue = []) (hn : m.blockingQueue = [])
    (hp : Passes p w r (.idle false) m) : Settles p (w :: ws) ts q := by
  have hw : w ∉ ws := (List.nodup_cons.mp hready.nodup).1
  obtain ⟨hx, hlen⟩ := cpuShare_of_none hr hw (hready.inRole_le _) (fun he => by cases he) ha hc hp
  have hy : p.blockingShare (w :: ws) = 0 := by
    rw [blockingShare, hb]
    exact Nat.zero_min _
  have hy' : m.blockingShare ws = 0 := by
    rw [blockingShare, hn]
    exact Nat.zero_min _
  refine h.cons hp hready hr (o := none) ?_ ?_ ?_ ?_ ?_
  · rw [hx, hc, ← h.cpu]
    rfl
  · rw [hy, hb, List.take_nil, Option.toList_none, List.nil_append, h.blocking, hn, List.take_nil]
  · rw [hx, hc, h.cpuQueue]
  · rw [hb, h.blockingQueue, hn, List.drop_nil, List.drop_nil]
  · have hidle : (w :: ws).length - m.cpuShare ws - 0 = ws.length - m.cpuShare ws - 0 + 1 := by
      rw [List.length_cons]
      omega
    rw [outcome, outcome, hx, hy, hy', hc, hidle, List.replicate_succ]
    exact List.perm_middle

end settling

/-- Free workers that come by one after the other. -/
theorem settles {p : Pool τ} {ws : List Nat} (h : Ready p ws) :
    Settles p ws (p.startedIn (ws.filterMap p.nextSection?))
      (p.run (ws.filterMap p.nextSection?)) := by
  induction ws generalizing p with
  | nil => exact settles_nil p
  | cons w ws ih =>
    obtain ⟨s, hs⟩ := Option.isSome_iff_exists.mp (h.free w List.mem_cons_self)
    have hw : w ∉ ws := (List.nodup_cons.mp h.nodup).1
    obtain ⟨r, hr, ha⟩ := arrives h.closed h.abandoned h.orderly (h.slots w List.mem_cons_self) hs
    have hrest : ∀ {phase : Phase τ}, Passes p w r phase (p.step s) →
        Settles (p.step s) ws ((p.step s).startedIn (ws.filterMap p.nextSection?))
          ((p.step s).run (ws.filterMap p.nextSection?)) := by
      intro phase hp
      have hrest := ih (h.step hp)
      rw [hp.nextSections hw] at hrest
      exact hrest
    rw [List.filterMap_cons_some hs]
    show Settles p (w :: ws)
      ((p.started? s).toList ++ (p.step s).startedIn (ws.filterMap p.nextSection?))
      ((p.step s).run (ws.filterMap p.nextSection?))
    generalize p.step s = m at ha hrest
    generalize p.started? s = o at ha
    cases ha with
    | cpu hadm hk hc hb hp => exact (hrest hp).cpu_first h hr hadm hk hc hb hp
    | blocking hadm hk hc hb hp => exact (hrest hp).blocking_first h hr hadm hk hc hb hp
    | nothing hadm hc hb hn hp => exact (hrest hp).nothing_first h hr hadm hc hb hn hp

/-! ## Order -/

/-- Two pools differ at most in who of the workers does what. -/
structure Alike (ws : List Nat) (p q : Pool τ) : Prop where
  bare : q.bare = p.bare
  phases : (ws.map q.phaseOf?).Perm (ws.map p.phaseOf?)
  belongings : q.workers.map Worker.belongings = p.workers.map Worker.belongings
  others : ∀ w, w ∉ ws → q.phaseOf? w = p.phaseOf? w

section order

variable {us ws : List Nat}

theorem cpuShare_perm (p : Pool τ) (h : us.Perm ws) : p.cpuShare us = p.cpuShare ws := by
  rw [cpuShare, cpuShare, inRole, inRole, h.countP_eq, h.length_eq]

theorem blockingShare_perm (p : Pool τ) (h : us.Perm ws) :
    p.blockingShare us = p.blockingShare ws := by
  rw [blockingShare, blockingShare, cpuShare_perm p h, h.length_eq]

theorem outcome_perm (p : Pool τ) (h : us.Perm ws) : p.outcome us = p.outcome ws := by
  rw [outcome, outcome, cpuShare_perm p h, blockingShare_perm p h, h.length_eq]

/-- What workers leave does not depend on their order. -/
theorem Settles.alike {p q q' : Pool τ} {ts ts' : List τ} (h : Settles p ws ts q)
    (h' : Settles p us ts' q') (hu : us.Perm ws) : Alike ws q q' := by
  have hin : ∀ a, p.inRole us a = p.inRole ws a := fun a => hu.countP_eq _
  refine ⟨bare_ext (h'.fixed.trans h.fixed.symm) (Prod.ext ?_ ?_) (fun a => ?_) ?_, ?_,
    h'.belongings.trans h.belongings.symm, fun w hw => ?_⟩
  · exact (h'.cpuQueue.trans (by rw [cpuShare_perm p hu])).trans h.cpuQueue.symm
  · exact (h'.blockingQueue.trans (by rw [blockingShare_perm p hu])).trans h.blockingQueue.symm
  · rw [h'.counter, h.counter, hin, outcome_perm p hu]
  · rw [h'.completed, h.completed, hin, hin]
  · refine ((hu.map q'.phaseOf?).symm.trans h'.phases).trans ?_
    rw [outcome_perm p hu]
    exact h.phases.symm
  · rw [h'.others w fun hm => hw (hu.subset hm), h.others w hw]

end order

theorem ready_run (c : Config) (ss : List (Section τ)) {ws : List Nat}
    (ho : ((ofConfig c : Pool τ).run ss).closed = false)
    (hs : ∀ w ∈ ws, ((ofConfig c : Pool τ).run ss).slotOf? w = none) (hd : ws.Nodup)
    (hw : ∀ w ∈ ws, (((ofConfig c : Pool τ).run ss).nextSection? w).isSome = true) :
    Ready ((ofConfig c : Pool τ).run ss) ws := by
  have hclosed : ClosedFirst ((ofConfig c : Pool τ).run ss) :=
    closedFirst_run (closedFirst_ofConfig c) ss
  refine ⟨ho, ?_, orderly_run (orderly_ofConfig c) ss, fun r => (countsRole_ofConfig c r).run ss,
    hd, hs, hw⟩
  cases ha : ((ofConfig c : Pool τ).run ss).abandoned with
  | false => rfl
  | true => exact absurd (ho.symm.trans (hclosed ha)) Bool.false_ne_true

/-- Free workers of an open pool whose slots are empty reach the scheduling loop in the order `us`.
In terms of the pool before, `f` of them end a processor-bound task, and `x` processor-bound and
`y` blocking tasks are started: the oldest ones of each queue, in order. The other workers wait. The
same happens in any other order, up to who of the workers does what. -/
theorem free_workers_in_any_order (c : Config) (ss : List (Section τ)) {ws us : List Nat}
    (ho : ((ofConfig c : Pool τ).run ss).closed = false)
    (hs : ∀ w ∈ ws, ((ofConfig c : Pool τ).run ss).slotOf? w = none) (hd : ws.Nodup)
    (hw : ∀ w ∈ ws, (((ofConfig c : Pool τ).run ss).nextSection? w).isSome = true)
    (hu : us.Perm ws) :
    let p : Pool τ := (ofConfig c).run ss
    let f := ws.countP fun w => p.roles[w]? = some (some (.running .cpu))
    let x := min p.cpuQueue.length (min (p.effectiveLimit - (p.runningCpu - f)) ws.length)
    let y := min p.blockingQueue.length (ws.length - x)
    let ts := p.startedIn (us.filterMap p.nextSection?)
    let q := p.run (us.filterMap p.nextSection?)
    f ≤ p.runningCpu ∧
      ts.filter (fun t => Kinded.kind t = .cpu) = p.cpuQueue.take x ∧
      ts.filter (fun t => Kinded.kind t = .blocking) = p.blockingQueue.take y ∧
      q.cpuQueue = p.cpuQueue.drop x ∧ q.blockingQueue = p.blockingQueue.drop y ∧
      (ws.map q.phaseOf?).Perm
        (((p.cpuQueue.take x ++ p.blockingQueue.take y).map Phase.running ++
          List.replicate (ws.length - x - y) (Phase.idle false)).map some) ∧
      Alike ws (p.run (ws.filterMap p.nextSection?)) q := by
  intro p f x y ts q
  have hready : Ready p ws := ready_run c ss ho hs hd hw
  have hready' : Ready p us := ready_run c ss ho (fun w h => hs w (hu.subset h)) (hu.nodup_iff.mpr hd)
    fun w h => hw w (hu.subset h)
  have hsettles : Settles p us ts q := settles hready'
  have hx : p.cpuShare us = x := cpuShare_perm p hu
  have hy : p.blockingShare us = y := blockingShare_perm p hu
  have hphases := hsettles.phases
  rw [outcome_perm p hu] at hphases
  refine ⟨hready.inRole_le (.running .cpu), ?_, ?_, ?_, ?_,
    (hu.map q.phaseOf?).symm.trans hphases, (settles hready).alike hsettles hu⟩
  · rw [hsettles.cpu, hx]
  · rw [hsettles.blocking, hy]
  · rw [hsettles.cpuQueue, hx]
  · rw [hsettles.blockingQueue, hy]

/-- One worker runs a processor-bound task at the limit, and two others wait; a task of each kind
is queued. -/
def threeFree : List (Section Kind) :=
  [.begin 0, .accept .cpu, .resume 0 false, .accept .blocking, .accept .blocking, .begin 1,
    .begin 2, .finish 1, .finish 2, .accept .cpu, .accept .blocking]

/-- The blocking task is started by whoever of the two that wait comes first, and the
processor-bound one by the first worker, even if it comes last. -/
theorem free_workers_in_any_order_threeFree :
    let p := (ofConfig (single 3)).run threeFree
    let q := p.run ([0, 1, 2].filterMap p.nextSection?)
    let q' := p.run ([2, 1, 0].filterMap p.nextSection?)
    p.closed = false ∧ (∀ w ∈ [0, 1, 2], p.slotOf? w = none) ∧ [0, 1, 2].Nodup ∧
      (∀ w ∈ [0, 1, 2], (p.nextSection? w).isSome = true) ∧ [2, 1, 0].Perm [0, 1, 2] ∧
      q.roles = [some (.running .cpu), some (.running .blocking), some .idle] ∧
      q'.roles = [some (.running .cpu), some .idle, some (.running .blocking)] ∧
      q'.cpuQueue = [] ∧ q'.blockingQueue = [] ∧ Alike [0, 1, 2] q q' := by
  intro p q q'
  have ho : p.closed = false := by decide
  have hs : ∀ w ∈ [0, 1, 2], p.slotOf? w = none := by decide
  have hd : [0, 1, 2].Nodup := by decide
  have hw : ∀ w ∈ [0, 1, 2], (p.nextSection? w).isSome = true := by decide
  have hu : [2, 1, 0].Perm [0, 1, 2] := by decide
  obtain ⟨-, -, -, hcpu, hblocking, -, halike⟩ :=
    free_workers_in_any_order (single 3) threeFree ho hs hd hw hu
  exact ⟨ho, hs, hd, hw, hu, by decide, by decide, hcpu, hblocking, halike⟩

end Pool

end Workforce
