import Workforce.Proofs.Pool.Contributions
import Workforce.Proofs.Pool.Roles
import Workforce.Proofs.Traffic.Exclusion

/-
  The levels that compensation reaches: the pool, where raises are kept apart by workers, and the
  views. The height of a level is how far it was raised over its first limit. A chore moves one
  level by one or none at all, and a raise or a lowering that has yet to be performed is among the
  chores of a thread, so heights and pending chores change together.

  `Stands.plain`: an act that performs no chore leaves the heights as they were.
  `Stands.goes`: a chore moves the height of its level as `Chore.up` and `Chore.down` tell.
-/

namespace Workforce

/-- A limit that compensation reaches: that of the pool on behalf of a worker, or that of a
view. -/
inductive Level where
  | worker (w : Nat)
  | view (i : Nat)
  deriving DecidableEq

/-- The levels that a compensator raises. -/
def Compensator.levels (c : Compensator) : List Level :=
  (c.worker.toList.map fun w => .worker w.worker) ++ c.views.map fun v => .view v.id

/-! ## Workers -/

/-- Workers stay on the list of a pool. -/
theorem Pool.spawned_le_step {τ : Type} [Kinded τ] (p : Pool τ) (s : Section τ) :
    p.spawned ≤ (p.step s).spawned := by
  have hlen : ∀ q : Pool τ, q.spawned = q.roles.length := fun q => by
    rw [Pool.roles, List.length_map]
    rfl
  have hhires : ∀ {q r : Pool τ}, Hires q r → q.spawned ≤ r.spawned := by
    intro q r h
    rw [hlen, hlen, h.roles, List.length_append]
    exact Nat.le_add_right ..
  have hswitches : ∀ {q r : Pool τ} {w : Nat} {a : Role} {b : Option Role},
      Switches q w a b r → q.spawned ≤ r.spawned := by
    intro q r w a b h
    rw [hlen, hlen, h.roles, List.length_set]
  cases shifts p s with
  | hires h =>
    rcases h with h | ⟨-, h⟩
    · rw [hlen, hlen, h.roles]
    · exact hhires h
  | switches h => exact hswitches h
  | replaced h _ hh => exact Nat.le_trans (hswitches h) (hhires hh)

variable {τ : Type}

/-! ## Chores that move levels -/

/-- The level that a chore raises. -/
def Chore.raises? : Chore τ → Option Level
  | .raise v => some (.view v.id)
  | .raiseWorker w => some (.worker w)
  | _ => none

/-- The level that a chore lowers. -/
def Chore.lowers? : Chore τ → Option Level
  | .lower v => some (.view v.id)
  | .lowerWorker w => some (.worker w)
  | _ => none

/-- A chore moves no level. -/
def Chore.Still (c : Chore τ) : Prop := c.raises? = none ∧ c.lowers? = none

/-- How often a chore raises a level. -/
def Chore.up (l : Level) (c : Chore τ) : Nat := if c.raises? = some l then 1 else 0

/-- How often a chore lowers a level. -/
def Chore.down (l : Level) (c : Chore τ) : Nat := if c.lowers? = some l then 1 else 0

/-- A weight of chores that move levels. -/
def LevelWeight (w : Chore τ → Nat) : Prop := ∀ c : Chore τ, c.Still → w c = 0

theorem levelWeight_up (l : Level) : LevelWeight (τ := τ) (Chore.up l) := fun c h => by
  rw [Chore.up, h.1]
  rfl

theorem levelWeight_down (l : Level) : LevelWeight (τ := τ) (Chore.down l) := fun c h => by
  rw [Chore.down, h.2]
  rfl

/-- The total weight of some chores. -/
def loadOf (w : Chore τ → Nat) (cs : List (Chore τ)) : Nat := (cs.map w).sum

theorem sum_ite_eq_count (f : Chore τ → Option Level) (l : Level) (cs : List (Chore τ)) :
    (cs.map fun c => if f c = some l then 1 else 0).sum = (cs.filterMap f).count l := by
  rw [sum_map_ite fun c => f c = some l, List.count, List.countP_filterMap]
  refine List.countP_congr fun c _ => ?_
  cases f c <;> simp

/-- How often chores raise a level. -/
theorem loadOf_up (l : Level) (cs : List (Chore τ)) :
    loadOf (Chore.up l) cs = (cs.filterMap Chore.raises?).count l :=
  sum_ite_eq_count Chore.raises? l cs

/-- How often chores lower a level. -/
theorem loadOf_down (l : Level) (cs : List (Chore τ)) :
    loadOf (Chore.down l) cs = (cs.filterMap Chore.lowers?).count l :=
  sum_ite_eq_count Chore.lowers? l cs

theorem loadOf_append (w : Chore τ → Nat) (cs ds : List (Chore τ)) :
    loadOf w (cs ++ ds) = loadOf w cs + loadOf w ds := by
  rw [loadOf, List.map_append, List.sum_append]
  rfl

theorem loadOf_still {w : Chore τ → Nat} (hw : LevelWeight w) {cs : List (Chore τ)}
    (h : ∀ c ∈ cs, c.Still) : loadOf w cs = 0 :=
  List.sum_eq_zero (List.forall_mem_map.mpr fun c hc => hw c (h c hc))

namespace Traffic

/-- The total weight of what all threads have to do. -/
def load (s : Traffic τ) (w : Chore τ → Nat) : Nat := (s.threads.map (loadOf w)).sum

/-- Chores were done, and none that moves a level has come instead. -/
structure Clears (cs : List (Chore τ)) (s s' : Traffic τ) : Prop where
  load : ∀ w, LevelWeight w → s'.load w + loadOf w cs = s.load w
  thread : ∀ w, LevelWeight w → ∀ (t : Nat) (ds : List (Chore τ)), s'.threads[t]? = some ds →
    loadOf w ds ≤ loadOf w ((s.threads[t]?).getD [])

theorem Clears.same {s s' : Traffic τ} (h : s'.threads = s.threads) : Clears [] s s' := by
  refine ⟨fun w _ => ?_, fun w _ t ds hd => ?_⟩
  · unfold Traffic.load
    rw [h]
    rfl
  · rw [← h, hd]
    exact Nat.le_refl _

/-- A thread is started. -/
theorem Clears.append {s s' : Traffic τ} {ds : List (Chore τ)}
    (h : s'.threads = s.threads ++ [ds]) (hd : ∀ c ∈ ds, c.Still) : Clears [] s s' := by
  refine ⟨fun w hw => ?_, fun w hw t es he => ?_⟩
  · unfold Traffic.load
    rw [h, List.map_append, List.sum_append, List.map_singleton, List.sum_singleton,
      loadOf_still hw hd]
    rfl
  · rw [h] at he
    rcases getElem?_concat_cases he with he | ⟨-, rfl⟩
    · rw [he]
      exact Nat.le_refl _
    · rw [loadOf_still hw hd]
      exact Nat.zero_le _

/-- A thread exchanges its first chores for others. -/
theorem Clears.set {s s' : Traffic τ} {i : Nat} {cs es : List (Chore τ)} (ds : List (Chore τ))
    (hi : s.threads[i]? = some (cs ++ es)) (h : s'.threads = s.threads.set i (ds ++ es))
    (hd : ∀ c ∈ ds, c.Still) : Clears cs s s' := by
  refine ⟨fun w hw => ?_, fun w hw t fs hf => ?_⟩
  · have hsum := sum_map_set (loadOf w) (ds ++ es) hi
    rw [loadOf_append, loadOf_append, loadOf_still hw hd] at hsum
    unfold Traffic.load
    rw [h]
    omega
  · rw [h, List.getElem?_set] at hf
    split at hf
    case isTrue ht =>
      subst ht
      split at hf
      · cases hf
        rw [hi, Option.getD_some, loadOf_append, loadOf_append, loadOf_still hw hd, Nat.zero_add]
        exact Nat.le_add_left ..
      · cases hf
    case isFalse =>
      rw [hf]
      exact Nat.le_refl _

/-- A thread gets one more chore. -/
theorem Clears.push {s s' : Traffic τ} {i : Nat} {c : Chore τ} {cs : List (Chore τ)}
    (hi : s.threads[i]? = some cs) (h : s'.threads = s.threads.set i (c :: cs)) (hc : c.Still) :
    Clears [] s s' :=
  Clears.set [c] hi h (List.forall_mem_singleton.mpr hc)

theorem Clears.getD {s s' : Traffic τ} {cs : List (Chore τ)} (h : Clears cs s s')
    (w : Chore τ → Nat) (hw : LevelWeight w) (t : Nat) :
    loadOf w ((s'.threads[t]?).getD []) ≤ loadOf w ((s.threads[t]?).getD []) := by
  cases ht : s'.threads[t]? with
  | none => exact Nat.zero_le _
  | some ds => exact h.thread w hw t ds ht

theorem Clears.still {s s' : Traffic τ} {cs : List (Chore τ)} (h : Clears cs s s')
    (hc : ∀ c ∈ cs, c.Still) : Clears [] s s' := by
  refine ⟨fun w hw => ?_, h.thread⟩
  have hl := h.load w hw
  rw [loadOf_still hw hc] at hl
  exact hl

/-! ## Heights -/

/-- Levels stand at heights. -/
structure Stands (c : Config) (h : Level → Nat) (s : Traffic τ) : Prop where
  pool : s.pool.Compensated c fun w => h (.worker w)
  gates : ∀ (i : Nat) (v : View), s.views[i]? = some v →
    ∃ x, s.gates[i]? = some x ∧ x.limit = v.base + h (.view i)

theorem exists_set {gs : List (Gate (Job τ))} {k i : Nat} {x y z : Gate (Job τ)} {f : Nat → Nat}
    (hz : gs[k]? = some z) (hx : gs[i]? = some x) (hother : k ≠ i → f x.limit = x.limit)
    (hself : k = i → y.limit = f z.limit) :
    ∃ u, (gs.set k y)[i]? = some u ∧ u.limit = f x.limit := by
  by_cases hk : k = i
  · subst hk
    cases hz.symm.trans hx
    obtain ⟨hlt, -⟩ := List.getElem?_eq_some_iff.mp hx
    exact ⟨y, List.getElem?_set_self hlt, hself rfl⟩
  · exact ⟨x, (List.getElem?_set_ne hk).trans hx, (hother hk).symm⟩

variable [Kinded τ]

/-- A chore moves the limit of a gate as it moves the level of the view. -/
theorem Performs.limit {s : Traffic τ} {c : Chore τ} {d : Deed τ} (hp : Performs s c d) {i : Nat}
    {x : Gate (Job τ)} (hx : s.gates[i]? = some x) :
    ∃ y, d.gates[i]? = some y ∧
      y.limit = x.limit + c.up (.view i) - c.down (.view i) := by
  have hup : ∀ {v : View}, Chore.up (.view i) (.raise v : Chore τ) = if v.id = i then 1 else 0 := by
    intro v
    simp [Chore.up, Chore.raises?]
  have hdown : ∀ {v : View},
      Chore.down (.view i) (.lower v : Chore τ) = if v.id = i then 1 else 0 := by
    intro v
    simp [Chore.down, Chore.lowers?]
  have hsettle : ∀ {c : Chore τ} {v : View} {change : Gate (Job τ) → Gate (Job τ)}
      {es : List (Event τ)}, Settling c v change es → ∀ z : Gate (Job τ),
      (v.id ≠ i → x.limit + c.up (.view i) - c.down (.view i) = x.limit) ∧
      (v.id = i → (change z).limit = z.limit + c.up (.view i) - c.down (.view i)) := by
    intro c v change es hc z
    cases hc with
    | next => exact ⟨fun _ => rfl, fun _ => rfl⟩
    | release => exact ⟨fun _ => rfl, fun _ => rfl⟩
    | raise =>
      rw [hup]
      refine ⟨fun hv => ?_, fun hv => ?_⟩
      · rw [if_neg hv]
        rfl
      · rw [if_pos hv]
        rfl
  have hset : ∀ {f : Nat → Nat} {k : Nat} {z y : Gate (Job τ)}, s.gates[k]? = some z →
      (k ≠ i → f x.limit = x.limit) → (k = i → y.limit = f z.limit) →
      ∃ u, (s.gates.set k y)[i]? = some u ∧ u.limit = f x.limit := fun hz => exists_set hz hx
  cases hp with
  | idle hc =>
    refine ⟨x, hx, ?_⟩
    cases c <;> first | rfl | cases hc
  | entered hg => exact hset (f := fun l => l) hg (fun _ => rfl) fun _ => rfl
  | waits hg => exact hset (f := fun l => l) hg (fun _ => rfl) fun _ => rfl
  | passed hg => exact hset (f := fun l => l) hg (fun _ => rfl) fun _ => rfl
  | waitsAgain hg => exact hset (f := fun l => l) hg (fun _ => rfl) fun _ => rfl
  | @settled c v change es z hc hg _ =>
    exact hset (f := fun l => l + c.up (.view i) - c.down (.view i)) hg (hsettle hc z).1
      (hsettle hc z).2
  | @admits c v change es z j rest hc hg _ _ =>
    exact hset (f := fun l => l + c.up (.view i) - c.down (.view i)) hg (hsettle hc z).1
      (hsettle hc z).2
  | @missing c v change es hc hg =>
    refine ⟨x, hx, ((hsettle hc x).1 ?_).symm⟩
    rintro rfl
    cases hg.symm.trans hx
  | @lowered v z hg =>
    refine hset (f := fun l => l + 0 - Chore.down (.view i) (.lower v : Chore τ)) hg
      (fun hv => ?_) fun hv => ?_
    · rw [hdown, if_neg hv]
      rfl
    · rw [hdown, if_pos hv]
      rfl
  | @unlowered v hg =>
    refine ⟨x, hx, ?_⟩
    rw [hdown, if_neg]
    · rfl
    · rintro rfl
      cases hg.symm.trans hx
  | _ => exact ⟨x, hx, rfl⟩

/-- Only raises and lowerings for workers touch the accounts of a pool. -/
theorem Performs.keeps {s : Traffic τ} {c : Chore τ} {d : Deed τ} (hp : Performs s c d)
    (hr : ∀ w, c ≠ .raiseWorker w) (hl : ∀ w, c ≠ .lowerWorker w) : s.pool.Keeps d.pool := by
  cases hp with
  | accepted h =>
    obtain ⟨-, rfl⟩ := Pool.accept_eq_some_iff.mp h
    exact Pool.keeps_queueUp _ _
  | placed => exact Pool.keeps_place _ _ _
  | displaced => exact Pool.keeps_place _ _ _
  | requeued h =>
    obtain ⟨-, rfl⟩ := Pool.accept_eq_some_iff.mp h
    exact Pool.keeps_queueUp _ _
  | handed h =>
    obtain ⟨-, rfl⟩ := Pool.submitAccepted_eq_some_iff.mp h
    exact Pool.keeps_queueUp _ _
  | raisedWorker w => exact absurd rfl (hr w)
  | loweredWorker w => exact absurd rfl (hl w)
  | flushed => exact Pool.keeps_flush _ _
  | finished => exact (Pool.keeps_countEnd _ _).trans (Pool.keeps_schedule _ _)
  | died => exact Pool.keeps_die _ _ _
  | _ => exact Pool.Keeps.refl _

theorem Performs.pool_raiseWorker {s : Traffic τ} {w : Nat} {d : Deed τ}
    (hp : Performs s (.raiseWorker w) d) : d.pool = s.pool.raise w := by
  cases hp with
  | idle hc => cases hc
  | settled hc => cases hc
  | admits hc => cases hc
  | missing hc => cases hc
  | raisedWorker => rfl

theorem Performs.pool_lowerWorker {s : Traffic τ} {w : Nat} {d : Deed τ}
    (hp : Performs s (.lowerWorker w) d) : d.pool = s.pool.lower w := by
  cases hp with
  | idle hc => cases hc
  | settled hc => cases hc
  | admits hc => cases hc
  | missing hc => cases hc
  | loweredWorker => rfl

/-- A chore moves the account of a worker as it moves the level. -/
theorem Performs.account {s : Traffic τ} {c : Chore τ} {d : Deed τ} (hp : Performs s c d)
    {k : Config} {h h' : Level → Nat} (hs : s.pool.Compensated k fun w => h (.worker w))
    (hborn : ∀ w, c = .raiseWorker w → w < s.pool.spawned)
    (hh : ∀ l, h' l + c.down l = h l + c.up l) :
    d.pool.Compensated k fun w => h' (.worker w) := by
  cases c with
  | raiseWorker w =>
    have he : (fun u => h' (.worker u)) =
        fun u => if u = w then h (.worker w) + 1 else h (.worker u) := by
      funext u
      have hu : h' (.worker u) = h (.worker u) + if w = u then 1 else 0 := by
        simpa [Chore.up, Chore.down, Chore.raises?, Chore.lowers?] using hh (.worker u)
      by_cases huw : u = w
      · rw [if_pos huw, hu, if_pos huw.symm, huw]
      · rw [if_neg huw, hu, if_neg (Ne.symm huw), Nat.add_zero]
    rw [he, hp.pool_raiseWorker]
    exact hs.raise (hborn w rfl)
  | lowerWorker w =>
    have hw : ∀ u, h' (.worker u) + (if w = u then 1 else 0) = h (.worker u) := by
      intro u
      simpa [Chore.up, Chore.down, Chore.raises?, Chore.lowers?] using hh (.worker u)
    have hpos : 0 < h (.worker w) := by
      have hself := hw w
      rw [if_pos rfl] at hself
      omega
    have he : (fun u => h' (.worker u)) =
        fun u => if u = w then h (.worker w) - 1 else h (.worker u) := by
      funext u
      have hu := hw u
      by_cases huw : u = w
      · rw [if_pos huw.symm] at hu
        rw [if_pos huw, ← huw]
        omega
      · rw [if_neg (Ne.symm huw)] at hu
        rw [if_neg huw]
        exact hu
    rw [he, hp.pool_lowerWorker]
    exact hs.lower hpos
  | _ =>
    have he : (fun u => h' (.worker u)) = fun u => h (.worker u) := funext fun u => hh (.worker u)
    rw [he]
    exact hs.keeps (hp.keeps nofun nofun)

omit [Kinded τ] in
theorem still_turnChores {w : Nat} {r : Pool.Turn (Job τ)} : ∀ c ∈ turnChores w r, c.Still := by
  intro c hc
  obtain ⟨j, rfl⟩ : ∃ j, c = .body w j := by
    cases r with
    | runs j => exact ⟨j, List.mem_singleton.mp hc⟩
    | rests => cases hc
    | leaves o => cases hc
  exact ⟨rfl, rfl⟩

/-- No chore leaves one behind that moves a level. -/
theorem Performs.still {s : Traffic τ} {c : Chore τ} {d : Deed τ} (hp : Performs s c d) :
    ∀ e ∈ d.todo, e.Still := by
  cases hp with
  | idle hc =>
    refine List.forall_mem_singleton.mpr ?_
    rename_i c
    cases c <;> first | exact ⟨rfl, rfl⟩ | cases hc
  | refused => exact List.forall_mem_map.mpr fun _ _ => ⟨rfl, rfl⟩
  | cut => exact List.forall_mem_map.mpr fun _ _ => ⟨rfl, rfl⟩
  | handed => exact List.forall_mem_map.mpr fun _ _ => ⟨rfl, rfl⟩
  | waitsAgain => exact List.forall_mem_map.mpr fun _ _ => ⟨rfl, rfl⟩
  | discarded => exact List.forall_mem_map.mpr fun _ _ => ⟨rfl, rfl⟩
  | displaced => exact List.forall_mem_singleton.mpr ⟨rfl, rfl⟩
  | entered => exact List.forall_mem_singleton.mpr ⟨rfl, rfl⟩
  | passed => exact List.forall_mem_singleton.mpr ⟨rfl, rfl⟩
  | admits => exact List.forall_mem_singleton.mpr ⟨rfl, rfl⟩
  | finished => exact still_turnChores
  | died =>
    intro e he
    rw [Pool.die_fst] at he
    cases he
  | _ => exact nofun

/-! ## Steps -/

/-- An act performs no chore and lets none come about that moves a level. -/
def Act.Plain : Act τ → Prop
  | .go _ => False
  | .raise .. => False
  | .lower .. => False
  | _ => True

theorem Steps.clears {s s' : Traffic τ} {a : Act τ} (h : Steps s a s') (ha : a.Plain) :
    Clears [] s s' := by
  cases h with
  | stays => exact .same rfl
  | built => exact .same rfl
  | called => exact .append rfl (List.forall_mem_singleton.mpr ⟨rfl, rfl⟩)
  | calledFrom _ hi => exact .push hi rfl ⟨rfl, rfl⟩
  | flushes hi => exact .push hi rfl ⟨rfl, rfl⟩
  | raised => exact ha.elim
  | lowered => exact ha.elim
  | @ended i w j rest outcome fatal hi =>
    have hdone : Clears [.body w j] s { s with
        threads := s.threads.set i
          (j.views.reverse.map .release ++ .finish w outcome fatal :: rest) } := by
      refine .set (j.views.reverse.map .release ++ [.finish w outcome fatal]) hi (by simp) ?_
      exact List.forall_mem_append.mpr ⟨List.forall_mem_map.mpr fun _ _ => ⟨rfl, rfl⟩,
        List.forall_mem_singleton.mpr ⟨rfl, rfl⟩⟩
    exact hdone.still (List.forall_mem_singleton.mpr ⟨rfl, rfl⟩)
  | @barred i w j rest outcome fatal hi =>
    have hdone : Clears [.body w j] s { s with
        threads := s.threads.set i (.finish w (.error .disconnected) fatal :: rest)
        log := s.log ++ j.views.map .stranded } :=
      .set [.finish w (.error .disconnected) fatal] hi rfl
        (List.forall_mem_singleton.mpr ⟨rfl, rfl⟩)
    exact hdone.still (List.forall_mem_singleton.mpr ⟨rfl, rfl⟩)
  | began => exact .append rfl still_turnChores
  | resumed => exact .append rfl still_turnChores
  | goes => exact ha.elim
  | closed => exact .same rfl
  | terminated => exact .same rfl

theorem Steps.keeps {s s' : Traffic τ} {a : Act τ} (h : Steps s a s') (ha : a.Plain) :
    s.pool.Keeps s'.pool := by
  cases h with
  | began => exact Pool.keeps_begin _ _
  | resumed => exact Pool.keeps_resume _ _ _
  | goes => exact ha.elim
  | closed => exact Pool.keeps_beginClose _
  | terminated => exact Pool.keeps_terminate _
  | _ => exact Pool.Keeps.refl _

variable {s : Traffic τ} {k : Config} {h : Level → Nat}

/-- An act that performs no chore leaves all levels where they are; a new view stands at its first
limit. -/
theorem Stands.plain (hs : s.Stands k h) (hc : s.Charted)
    (hnew : ∀ i, s.views[i]? = none → h (.view i) = 0) {a : Act τ} (ha : ∀ i, a ≠ .go i)
    (hk : s.pool.Keeps (s.step a).pool) : (s.step a).Stands k h := by
  refine ⟨hs.pool.keeps hk, fun i v hv => ?_⟩
  cases hi : s.views[i]? with
  | none =>
    refine ⟨_, gate_of_new hc hi hv, ?_⟩
    rw [hnew i hi]
    rfl
  | some u =>
    cases (view_step hi a).symm.trans hv
    obtain ⟨x, hx, hl⟩ := hs.gates i v hi
    obtain ⟨gs, hgs⟩ := gates_of_ne_go (steps s a) ha
    obtain ⟨hlt, -⟩ := List.getElem?_eq_some_iff.mp hx
    exact ⟨x, by rw [hgs, List.getElem?_append_left hlt]; exact hx, hl⟩

/-- A chore moves its level, and is done. -/
theorem Stands.goes (hs : s.Stands k h) {i : Nat} {c : Chore τ} {rest : List (Chore τ)}
    (hi : s.threads[i]? = some (c :: rest)) (hborn : ∀ w, c = .raiseWorker w → w < s.pool.spawned)
    (hdown : ∀ l, c.down l ≤ h l) :
    (s.step (.go i)).Stands k (fun l => h l + c.up l - c.down l) ∧ Clears [c] s (s.step (.go i)) := by
  have hstep : s.step (.go i) = { s with
      pool := (s.perform c).pool, gates := (s.perform c).gates
      threads := s.threads.set i ((s.perform c).todo ++ rest)
      log := s.log ++ (s.perform c).events } := by
    rw [step, hi]
  have hp := performs s c
  rw [hstep]
  generalize s.perform c = d at hp
  have hmoved : ∀ l, h l + c.up l - c.down l + c.down l = h l + c.up l := fun l =>
    Nat.sub_add_cancel (Nat.le_add_right_of_le (hdown l))
  refine ⟨⟨hp.account hs.pool hborn hmoved, fun n v hv => ?_⟩, .set d.todo hi rfl hp.still⟩
  obtain ⟨x, hx, hl⟩ := hs.gates n v hv
  obtain ⟨y, hy, hly⟩ := hp.limit hx
  refine ⟨y, hy, ?_⟩
  have hle := hdown (.view n)
  omega

/-! ## Raises and lowerings that are begun -/

omit [Kinded τ] in
theorem filterMap_known {vs : List View} (hv : ∀ v ∈ vs, s.Known v) :
    (vs.map View.id).filterMap (fun i => s.views[i]?) = vs := by
  induction vs with
  | nil => rfl
  | cons v vs ih =>
    have hk : s.views[v.id]? = some v := hv v List.mem_cons_self
    rw [List.map_cons, List.filterMap_cons, hk]
    exact congrArg (v :: ·) (ih fun u hu => hv u (List.mem_cons_of_mem v hu))

omit [Kinded τ] in
/-- The raise of a compensator raises its levels, and lowers none. -/
theorem loadOf_raises {d : Compensator} (hv : ∀ v ∈ d.views, s.Known v) (l : Level) :
    loadOf (Chore.up l) (s.raises (d.worker.map WorkerId.worker) (d.views.map View.id)) =
        d.levels.count l ∧
      loadOf (Chore.down l) (s.raises (d.worker.map WorkerId.worker) (d.views.map View.id)) = 0 := by
  rw [raises, filterMap_known hv, loadOf_up, loadOf_down]
  refine ⟨?_, ?_⟩
  · refine congrArg (List.count l) ?_
    rw [Compensator.levels, List.filterMap_append, List.filterMap_map, List.filterMap_map]
    cases d.worker <;> simp [Function.comp_def, Chore.raises?]
  · rw [List.filterMap_append, List.filterMap_map, List.filterMap_map]
    simp [Function.comp_def, Chore.lowers?]

omit [Kinded τ] in
/-- The lowering of a compensator lowers its levels, and raises none. -/
theorem loadOf_lowers {d : Compensator} (hv : ∀ v ∈ d.views, s.Known v) (l : Level) :
    loadOf (Chore.down l) (s.lowers (d.worker.map WorkerId.worker) (d.views.map View.id)) =
        d.levels.count l ∧
      loadOf (Chore.up l) (s.lowers (d.worker.map WorkerId.worker) (d.views.map View.id)) = 0 := by
  rw [lowers, filterMap_known hv, loadOf_up, loadOf_down, List.filterMap_append,
    List.filterMap_append, List.filterMap_map, List.filterMap_map, List.filterMap_map,
    List.filterMap_map]
  refine ⟨?_, ?_⟩
  · rw [Compensator.levels, List.count_append, List.count_append, Nat.add_comm]
    refine congrArg₂ (· + ·) ?_ ?_
    · refine congrArg (List.count l) ?_
      cases d.worker <;> simp [Function.comp_def, Chore.lowers?]
    · simp [Function.comp_def, Chore.lowers?, List.filterMap_reverse]
  · simp [Function.comp_def, Chore.raises?]

end Traffic

end Workforce
