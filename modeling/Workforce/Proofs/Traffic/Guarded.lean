import Workforce.Proofs.Guard.Outstanding
import Workforce.Proofs.Plant.Guards
import Workforce.Proofs.Traffic.Levels

/-
  Guarded calls in traffic. A body makes guarded calls, one inside the other if it likes; each takes
  the scope that the views of its job make of the scope of the worker, and raises and lowers limits
  through the compensator there, as its moves note. The raise and the lowering of a call are
  chores of threads of their own, so they interleave with everything else, level by level. A call
  lowers limits only when its raise is through.

  `even_run`: at every moment a level stands as high as the calls whose compensation is outstanding
  raise it, but for the raises and lowerings that are under way. A lowering that is under way never
  finds a level too low, because what is still to be raised belongs to calls that have yet to lower
  it.

  Bodies may end meanwhile and calls may outlive them; nothing here depends on the order.
-/

namespace Workforce

variable {τ : Type}

/-! ## Guarded calls of bodies -/

/-- A guarded call of the body of a job. -/
structure BodyCall (τ : Type) where
  worker : Nat
  job : Job τ
  call : Guard.Call Compensator Unit
  /-- The thread that raises limits for the call, once there is one. -/
  raiser : Nat := 0

/-- A traffic with the guarded calls that bodies have made. -/
structure Guarded (τ : Type) where
  traffic : Traffic τ
  calls : List (BodyCall τ) := []

namespace BodyCall

/-- The levels that the compensator in reach of a call raises. -/
def levels (b : BodyCall τ) : List Level :=
  ((Scope.compensator? b.call.scope).map Compensator.levels).getD []

/-- How often a level is raised for a call. -/
def owes (l : Level) (b : BodyCall τ) : Nat := if b.call.outstanding then b.levels.count l else 0

/-- How often a level is raised for a call whose raise is the business of a thread. -/
def owesFrom (t : Nat) (l : Level) (b : BodyCall τ) : Nat := if b.raiser = t then b.owes l else 0

/-- Limits are still being raised for a call. -/
def waits (s : Traffic τ) (b : BodyCall τ) : Bool := !((s.threads[b.raiser]?).getD []).isEmpty

end BodyCall

namespace Guarded

/-- What can happen. -/
inductive Act (τ : Type) where
  /-- Something happens in the traffic, other than that a raise or a lowering begins. -/
  | other (a : Traffic.Act τ)
  /-- The body on a thread makes a guarded call. -/
  | guard (i : Nat) (enabled : Bool) (deadline : Duration)
  /-- A guarded call makes a move. -/
  | move (n : Nat) (m : Guard.Move Unit)

/-- Raises and lowerings are left to guarded calls. -/
def free : Traffic.Act τ → Bool
  | .raise .. => false
  | .lower .. => false
  | _ => true

/-- How often a level is raised for all calls. -/
def owed (s : Guarded τ) (l : Level) : Nat := (s.calls.map (BodyCall.owes l)).sum

/-- How often a level is raised for all calls whose raise is the business of a thread. -/
def owedFrom (s : Guarded τ) (t : Nat) (l : Level) : Nat :=
  (s.calls.map (BodyCall.owesFrom t l)).sum

variable [Kinded τ]

/-- A guarded call makes a move, and does to limits what the move notes. -/
def advance (s : Guarded τ) (n : Nat) (b : BodyCall τ) (m : Guard.Move Unit) : Guarded τ :=
  match b.call.note? m with
  | some (.raised d) =>
    { traffic := s.traffic.step (.raise (d.worker.map WorkerId.worker) (d.views.map View.id))
      calls := s.calls.set n
        { b with call := b.call.step m, raiser := s.traffic.threads.length } }
  | some (.lowered d) =>
    if b.waits s.traffic then s
    else
      { traffic := s.traffic.step (.lower (d.worker.map WorkerId.worker) (d.views.map View.id))
        calls := s.calls.set n { b with call := b.call.step m } }
  | _ => { s with calls := s.calls.set n { b with call := b.call.step m } }

/-- Lets something happen, if it can. -/
def step (s : Guarded τ) : Act τ → Guarded τ
  | .other a => if free a then { s with traffic := s.traffic.step a } else s
  | .guard i enabled deadline =>
    match s.traffic.threads[i]? with
    | some (.body w j :: _) =>
      { s with calls := s.calls ++ [{
          worker := w, job := j
          call := { enabled, deadline
                    scope := View.scopeWithinAll j.views (some (WorkerId.scope ⟨0, w⟩)) } }] }
    | _ => s
  | .move n m =>
    match s.calls[n]? with
    | some b => s.advance n b m
    | none => s

def run (s : Guarded τ) (as : List (Act τ)) : Guarded τ := as.foldl step s

/-- A new pool without views. -/
def start (c : Config) : Guarded τ := { traffic := .start c }

end Guarded

/-! ## Sums by key -/

/-- What is counted under the first keys. -/
theorem sum_keys {α : Type} (key : α → Nat) (f : α → Nat) (xs : List α) (n : Nat) :
    ((List.range n).map fun i => (xs.map fun x => if key x = i then f x else 0).sum).sum =
      (xs.map fun x => if key x < n then f x else 0).sum := by
  induction n with
  | zero => simp
  | succ n ih =>
    rw [List.range_succ, List.map_append, List.sum_append, ih, List.map_singleton,
      List.sum_singleton, ← List.sum_map_add]
    refine congrArg List.sum (List.map_congr_left fun x _ => ?_)
    split_ifs <;> omega

theorem sum_keys_le {α : Type} (key : α → Nat) (f : α → Nat) (xs : List α) (n : Nat) :
    ((List.range n).map fun i => (xs.map fun x => if key x = i then f x else 0).sum).sum ≤
      (xs.map f).sum := by
  rw [sum_keys]
  refine List.sum_le_sum fun x _ => ?_
  split_ifs
  · exact Nat.le_refl _
  · exact Nat.zero_le _

namespace Traffic

theorem load_eq (s : Traffic τ) (w : Chore τ → Nat) : s.load w =
    ((List.range s.threads.length).map fun t => loadOf w ((s.threads[t]?).getD [])).sum := by
  refine congrArg List.sum (List.ext_getElem (by simp) fun t ht _ => ?_)
  rw [List.length_map] at ht
  simp [List.getElem?_eq_getElem ht]

theorem load_append {s s' : Traffic τ} {cs : List (Chore τ)} (h : s'.threads = s.threads ++ [cs])
    (w : Chore τ → Nat) : s'.load w = s.load w + loadOf w cs := by
  unfold load
  rw [h, List.map_append, List.sum_append, List.map_singleton, List.sum_singleton]

/-- A thread that starts has its own chores to do, and all others have theirs. -/
theorem loadOf_concat (w : Chore τ → Nat) (ts : List (List (Chore τ))) (cs : List (Chore τ))
    (t : Nat) : loadOf w (((ts ++ [cs])[t]?).getD []) =
      if t = ts.length then loadOf w cs else loadOf w ((ts[t]?).getD []) := by
  rcases Nat.lt_trichotomy t ts.length with hlt | rfl | hgt
  · rw [List.getElem?_append_left hlt, if_neg (Nat.ne_of_lt hlt)]
  · rw [List.getElem?_concat_length, if_pos rfl]
    rfl
  · rw [List.getElem?_eq_none (by rw [List.length_append]; exact hgt),
      List.getElem?_eq_none (Nat.le_of_lt hgt), if_neg (Nat.ne_of_gt hgt)]

theorem load_eq_zero {s : Traffic τ} {w : Chore τ → Nat}
    (h : ∀ c ∈ s.threads.flatten, w c = 0) : s.load w = 0 := by
  refine List.sum_eq_zero (List.forall_mem_map.mpr fun cs hcs => ?_)
  exact List.sum_eq_zero (List.forall_mem_map.mpr fun c hc =>
    h c (List.mem_flatten.mpr ⟨cs, hcs, hc⟩))

theorem loadOf_le_load {s : Traffic τ} {t : Nat} {cs : List (Chore τ)}
    (h : s.threads[t]? = some cs) (w : Chore τ → Nat) : loadOf w cs ≤ s.load w :=
  List.le_sum_of_mem (List.mem_map_of_mem (List.mem_of_getElem? h))

variable [Kinded τ]

/-! ## Bodies and workers -/

theorem spawned_le_step (s : Traffic τ) (a : Act τ) : s.pool.spawned ≤ (s.step a).pool.spawned := by
  rcases (steps s a).pool with he | ⟨sec, -, he⟩
  · rw [he]
  · rw [he]
    exact Pool.spawned_le_step _ _

/-- Bodies run on workers. -/
def Manned (s : Traffic τ) : Prop :=
  ∀ w j, .body w j ∈ s.threads.flatten → w < s.pool.spawned

theorem Performs.worker {s : Traffic τ} {c : Chore τ} {d : Deed τ} (h : Performs s c d) {w : Nat}
    {j : Job τ} (hm : .body w j ∈ d.todo) : c = .body w j ∨ w < s.pool.spawned := by
  cases h with
  | idle => exact .inl (List.mem_singleton.mp hm).symm
  | finished hw =>
    obtain ⟨_, -, ⟨⟩⟩ := mem_turnChores.mp hm
    exact .inr (List.getElem?_eq_some_iff.mp hw).1
  | died =>
    rw [Pool.die_fst] at hm
    cases hm
  | discarded =>
    obtain ⟨v, -, hv⟩ := List.mem_map.mp hm
    cases hv
  | _ => simp [refuse, taken] at hm

theorem manned_step {s : Traffic τ} (h : s.Manned) (a : Act τ) : (s.step a).Manned := by
  intro w j hm
  refine Nat.lt_of_lt_of_le ?_ (spawned_le_step s a)
  rcases (steps s a).chore hm with hm | hb
  · exact h w j hm
  · cases hb with
    | began hw => exact (List.getElem?_eq_some_iff.mp hw).1
    | resumed hw => exact (List.getElem?_eq_some_iff.mp hw).1
    | left hi hp he =>
      rcases hp.worker he with rfl | hlt
      · exact h w j (mem_thread hi List.mem_cons_self)
      · exact hlt

end Traffic

/-! ## Calls and their compensators -/

namespace BodyCall

/-- A call was made by the body of a job, on a worker and on a route of the traffic. -/
structure Made (s : Traffic τ) (b : BodyCall τ) : Prop where
  born : b.worker < s.pool.spawned
  called : s.Called b.job.task b.job.views.reverse
  scope : b.call.scope = View.scopeWithinAll b.job.views (some (WorkerId.scope ⟨0, b.worker⟩))
  course : b.call.OnCourse

variable {s : Traffic τ} {b : BodyCall τ}

theorem levels_of_uses {d : Compensator} (h : b.call.plan.Uses d) :
    b.levels = d.levels ∧ Scope.compensator? b.call.scope = some d := by
  have hd : Scope.compensator? b.call.scope = some d := Plant.compensator?_of_choose h
  refine ⟨?_, hd⟩
  rw [levels, hd]
  rfl

theorem Made.known (h : b.Made s) (hc : s.Charted) {d : Compensator}
    (hd : Scope.compensator? b.call.scope = some d) : ∀ v ∈ d.views, s.Known v := by
  intro v hv
  rw [h.scope] at hd
  have hr := h.called
  rw [← List.append_nil b.job.views.reverse] at hr
  exact Traffic.known_of_called hc hr (View.soft_of_compensator hd hv).1

/-- A call raises the limit of the pool on behalf of the worker that it blocks. -/
theorem Made.worker_of_mem (h : b.Made s) {w : Nat} (hw : .worker w ∈ b.levels) :
    w = b.worker := by
  rw [levels] at hw
  cases hd : Scope.compensator? b.call.scope with
  | none =>
    rw [hd] at hw
    cases hw
  | some d =>
    rw [hd] at hw
    rcases List.mem_append.mp hw with hm | hm
    · obtain ⟨u, hu, hl⟩ := List.mem_map.mp hm
      rw [h.scope] at hd
      rw [View.worker_of_compensator hd (Option.mem_toList.mp hu)] at hl
      cases hl
      rfl
    · obtain ⟨v, -, hl⟩ := List.mem_map.mp hm
      cases hl

/-- A call raises the limits of views of the traffic. -/
theorem Made.view_of_mem (h : b.Made s) (hc : s.Charted) {i : Nat} (hi : .view i ∈ b.levels) :
    s.views[i]? ≠ none := by
  rw [levels] at hi
  cases hd : Scope.compensator? b.call.scope with
  | none =>
    rw [hd] at hi
    cases hi
  | some d =>
    rw [hd] at hi
    rcases List.mem_append.mp hi with hm | hm
    · obtain ⟨u, -, hl⟩ := List.mem_map.mp hm
      cases hl
    · obtain ⟨v, hv, hl⟩ := List.mem_map.mp hm
      cases hl
      have hk : s.views[v.id]? = some v := h.known hc hd v hv
      rw [hk]
      exact nofun

theorem Made.step [Kinded τ] (h : b.Made s) (a : Traffic.Act τ) : b.Made (s.step a) :=
  ⟨Nat.lt_of_lt_of_le h.born (Traffic.spawned_le_step s a),
    (Traffic.log_prefix_step s a).subset h.called, h.scope, h.course⟩

theorem Made.move (h : b.Made s) (m : Guard.Move Unit) (t : Nat) :
    Made s { b with call := b.call.step m, raiser := t } :=
  ⟨h.born, h.called, (b.call.step_scope m).trans h.scope, h.course.step m⟩

end BodyCall

namespace Guarded

/-! ## Levels and what is owed -/

variable {k : Config} {s : Guarded τ}

/-- Levels stand as high as calls raise them, but for what is under way. -/
structure Even (k : Config) (s : Guarded τ) : Prop where
  charted : s.traffic.Charted
  manned : s.traffic.Manned
  made : ∀ b ∈ s.calls, b.Made s.traffic
  stands : ∃ h, s.traffic.Stands k h ∧ ∀ l, h l + s.traffic.load (Chore.up l) =
    s.owed l + s.traffic.load (Chore.down l)
  /-- What a thread has to raise is what calls have begun to raise there. -/
  raisers : ∀ t l, loadOf (Chore.up l) ((s.traffic.threads[t]?).getD []) ≤ s.owedFrom t l

/-- What is still to be raised was begun for calls. -/
theorem Even.load_le (h : s.Even k) (l : Level) : s.traffic.load (Chore.up l) ≤ s.owed l := by
  rw [Traffic.load_eq]
  refine Nat.le_trans (List.sum_le_sum fun t _ => h.raisers t l) ?_
  exact sum_keys_le BodyCall.raiser (BodyCall.owes l) s.calls _

theorem exists_of_owed_pos {l : Level} (h : 0 < s.owed l) : ∃ b ∈ s.calls, l ∈ b.levels := by
  obtain ⟨b, hb, hpos⟩ : ∃ b ∈ s.calls, b.owes l ≠ 0 := by
    by_contra hnone
    have hzero : ∀ b ∈ s.calls, b.owes l = 0 := fun b hb => not_not.mp fun hne => hnone ⟨b, hb, hne⟩
    exact Nat.ne_of_gt h (List.sum_eq_zero (List.forall_mem_map.mpr hzero))
  refine ⟨b, hb, ?_⟩
  rw [BodyCall.owes] at hpos
  split at hpos
  · exact List.count_pos_iff.mp (Nat.pos_of_ne_zero hpos)
  · exact absurd rfl hpos

/-- Nothing is done to the level of a view before the view is made. -/
theorem Even.fresh (h : s.Even k) {g : Level → Nat} (hg : ∀ l, g l + s.traffic.load (Chore.up l) =
    s.owed l + s.traffic.load (Chore.down l)) {i : Nat} (hi : s.traffic.views[i]? = none) :
    g (.view i) = 0 := by
  have howed : s.owed (.view i) = 0 := by
    by_contra hne
    obtain ⟨b, hb, hl⟩ := exists_of_owed_pos (Nat.pos_of_ne_zero hne)
    exact (h.made b hb).view_of_mem h.charted hl hi
  have hdown : s.traffic.load (Chore.down (.view i)) = 0 := by
    refine Traffic.load_eq_zero fun c hc => ?_
    obtain ⟨cs, hcs, hm⟩ := List.mem_flatten.mp hc
    have hfits := h.charted.chores cs hcs c hm
    refine if_neg fun hl => ?_
    cases c with
    | lower v =>
      cases hl
      have hk : s.traffic.views[v.id]? = some v := hfits
      exact absurd (hk.symm.trans hi) nofun
    | _ => cases hl
  have hall := hg (.view i)
  omega

/-! ## Steps -/

theorem plain_of_free {a : Traffic.Act τ} (ha : free a = true) (hgo : ∀ i, a ≠ .go i) :
    a.Plain := by
  cases a with
  | go i => exact hgo i rfl
  | raise => cases ha
  | lower => cases ha
  | _ => trivial

variable [Kinded τ]

/-- Whatever happens to guarded calls, the traffic takes one act at most. -/
theorem traffic_step (s : Guarded τ) (a : Act τ) :
    (s.step a).traffic = s.traffic ∨ ∃ b, (s.step a).traffic = s.traffic.step b := by
  cases a with
  | other a =>
    rw [step]
    split
    · exact .inr ⟨a, rfl⟩
    · exact .inl rfl
  | guard i enabled deadline =>
    rw [step]
    split <;> exact .inl rfl
  | move n m =>
    rw [step]
    split
    case h_2 => exact .inl rfl
    case h_1 b _ =>
      rw [advance]
      split
      · exact .inr ⟨.raise _ _, rfl⟩
      · split
        · exact .inl rfl
        · exact .inr ⟨.lower _ _, rfl⟩
      · exact .inl rfl

/-- Levels stay as they are while nothing is raised or lowered. -/
theorem Even.plain (h : s.Even k) {a : Traffic.Act τ} (ha : a.Plain) (hgo : ∀ i, a ≠ .go i) :
    ({ s with traffic := s.traffic.step a } : Guarded τ).Even k := by
  obtain ⟨g, hs, hg⟩ := h.stands
  have hclear := (Traffic.steps s.traffic a).clears ha
  refine ⟨Traffic.charted_step h.charted a, Traffic.manned_step h.manned a,
    fun b hb => (h.made b hb).step a, ⟨g, ?_, fun l => ?_⟩, fun t l => ?_⟩
  · exact hs.plain h.charted (fun i hi => h.fresh hg hi) hgo
      ((Traffic.steps s.traffic a).keeps ha)
  · have hup := hclear.load _ (levelWeight_up l)
    have hdown := hclear.load _ (levelWeight_down l)
    have hl := hg l
    have hnil : ∀ w : Chore τ → Nat, loadOf w [] = 0 := fun _ => rfl
    rw [hnil] at hup hdown
    show g l + (s.traffic.step a).load (Chore.up l) =
      s.owed l + (s.traffic.step a).load (Chore.down l)
    omega
  · exact Nat.le_trans (hclear.getD _ (levelWeight_up l) t) (h.raisers t l)

/-- A chore moves a level that stands high enough. -/
theorem Even.goes (h : s.Even k) {i : Nat} {c : Chore τ} {rest : List (Chore τ)}
    (hi : s.traffic.threads[i]? = some (c :: rest)) :
    ({ s with traffic := s.traffic.step (.go i) } : Guarded τ).Even k := by
  obtain ⟨g, hs, hg⟩ := h.stands
  have hweight : ∀ w : Chore τ → Nat, loadOf w (c :: rest) = w c + loadOf w rest := fun _ => rfl
  have hborn : ∀ w, c = .raiseWorker w → w < s.traffic.pool.spawned := by
    rintro w rfl
    have hload := Traffic.loadOf_le_load hi (Chore.up (.worker w))
    have hone : Chore.up (.worker w) (.raiseWorker w : Chore τ) = 1 := if_pos rfl
    rw [hweight, hone] at hload
    have hle := h.load_le (.worker w)
    obtain ⟨b, hb, hl⟩ := exists_of_owed_pos (s := s) (l := .worker w) (by omega)
    rw [(h.made b hb).worker_of_mem hl]
    exact (h.made b hb).born
  have hdown : ∀ l, c.down l ≤ g l := by
    intro l
    have hload := Traffic.loadOf_le_load hi (Chore.down l)
    rw [hweight] at hload
    have hle := h.load_le l
    have hl := hg l
    omega
  obtain ⟨hmoved, hclear⟩ := hs.goes hi hborn hdown
  refine ⟨Traffic.charted_step h.charted (.go i), Traffic.manned_step h.manned (.go i),
    fun b hb => (h.made b hb).step (.go i), ⟨_, hmoved, fun l => ?_⟩, fun t l => ?_⟩
  · have hup := hclear.load _ (levelWeight_up l)
    have hdn := hclear.load _ (levelWeight_down l)
    have hl := hg l
    have hle := hdown l
    have hone : ∀ w : Chore τ → Nat, loadOf w [c] = w c := fun _ => rfl
    rw [hone] at hup hdn
    show g l + c.up l - c.down l + (s.traffic.step (.go i)).load (Chore.up l) =
      s.owed l + (s.traffic.step (.go i)).load (Chore.down l)
    omega
  · exact Nat.le_trans (hclear.getD _ (levelWeight_up l) t) (h.raisers t l)

theorem Even.other (h : s.Even k) (a : Traffic.Act τ) : (s.step (.other a)).Even k := by
  rw [step]
  split
  case isFalse => exact h
  case isTrue ha =>
    by_cases hgo : ∃ i, a = .go i
    · obtain ⟨i, rfl⟩ := hgo
      cases hi : s.traffic.threads[i]? with
      | none =>
        have hstay : s.traffic.step (.go i) = s.traffic := by rw [Traffic.step, hi]
        rw [hstay]
        exact h
      | some cs =>
        cases cs with
        | nil =>
          have hstay : s.traffic.step (.go i) = s.traffic := by rw [Traffic.step, hi]
          rw [hstay]
          exact h
        | cons c rest => exact h.goes hi
    · have hne : ∀ i, a ≠ .go i := fun i he => hgo ⟨i, he⟩
      exact h.plain (plain_of_free ha hne) hne

/-- A call that begins owes nothing yet. -/
theorem Even.guard (h : s.Even k) (i : Nat) (enabled : Bool) (deadline : Duration) :
    (s.step (.guard i enabled deadline)).Even k := by
  rw [step]
  split
  case h_2 => exact h
  case h_1 w j rest hi =>
    generalize hb : ({ worker := w, job := j
                       call := { enabled, deadline
                                 scope := View.scopeWithinAll j.views
                                   (some (WorkerId.scope ⟨0, w⟩)) } } : BodyCall τ) = b
    have hnew : b.Made s.traffic ∧ b.call.outstanding = false := by
      subst hb
      exact ⟨⟨h.manned w j (Traffic.mem_thread hi List.mem_cons_self),
        h.charted.chores _ (List.mem_of_getElem? hi) (.body w j) List.mem_cons_self, rfl,
        Guard.Call.onCourse_fresh ..⟩, rfl⟩
    have hnone : ∀ l, b.owes l = 0 := fun l => by
      rw [BodyCall.owes, hnew.2]
      rfl
    have howed : ∀ f : BodyCall τ → Nat, f b = 0 →
        ((s.calls ++ [b]).map f).sum = (s.calls.map f).sum := by
      intro f hf
      rw [List.map_append, List.sum_append, List.map_singleton, List.sum_singleton, hf]
      rfl
    obtain ⟨g, hs, hg⟩ := h.stands
    refine ⟨h.charted, h.manned, fun a ha => ?_, ⟨g, hs, fun l => ?_⟩, fun t l => ?_⟩
    · rcases List.mem_append.mp ha with ha | ha
      · exact h.made a ha
      · rw [List.mem_singleton.mp ha]
        exact hnew.1
    · show _ = ((s.calls ++ [b]).map (BodyCall.owes l)).sum + _
      rw [howed _ (hnone l)]
      exact hg l
    · show _ ≤ ((s.calls ++ [b]).map (BodyCall.owesFrom t l)).sum
      rw [howed _ (by rw [BodyCall.owesFrom, hnone]; exact ite_self 0)]
      exact h.raisers t l

/-- A thread starts with the raise or the lowering of a compensator, and one call is put for
another that owes as much more or less. -/
theorem Even.begins (h : s.Even k) {n : Nat} {b b' : BodyCall τ} (hb : s.calls[n]? = some b)
    (hmade : b'.Made s.traffic) {a : Traffic.Act τ} {cs : List (Chore τ)}
    (hgo : ∀ i, a ≠ .go i) (hpool : (s.traffic.step a).pool = s.traffic.pool)
    (hthreads : (s.traffic.step a).threads = s.traffic.threads ++ [cs])
    (hdue : ∀ l, b'.owes l + loadOf (Chore.down l) cs = b.owes l + loadOf (Chore.up l) cs)
    (hraiser : ∀ t l, loadOf (Chore.up l) (((s.traffic.threads ++ [cs])[t]?).getD []) +
      b.owesFrom t l ≤ s.owedFrom t l + b'.owesFrom t l) :
    ({ traffic := s.traffic.step a, calls := s.calls.set n b' } : Guarded τ).Even k := by
  obtain ⟨g, hs, hg⟩ := h.stands
  have hkeeps : s.traffic.pool.Keeps (s.traffic.step a).pool := by
    rw [hpool]
    exact Pool.Keeps.refl _
  refine ⟨Traffic.charted_step h.charted a, Traffic.manned_step h.manned a, fun c hc => ?_,
    ⟨g, hs.plain h.charted (fun i hi => h.fresh hg hi) hgo hkeeps, fun l => ?_⟩, fun t l => ?_⟩
  · rcases List.mem_or_eq_of_mem_set hc with hc | rfl
    · exact (h.made c hc).step a
    · exact hmade.step a
  · have hsum := sum_map_set (BodyCall.owes l) b' hb
    have hl := hg l
    have hd := hdue l
    show g l + (s.traffic.step a).load (Chore.up l) = ((s.calls.set n b').map (BodyCall.owes l)).sum +
      (s.traffic.step a).load (Chore.down l)
    rw [Traffic.load_append hthreads, Traffic.load_append hthreads]
    unfold owed at hl
    omega
  · have hsum := sum_map_set (BodyCall.owesFrom t l) b' hb
    have hr := hraiser t l
    show loadOf (Chore.up l) (((s.traffic.step a).threads[t]?).getD []) ≤
      ((s.calls.set n b').map (BodyCall.owesFrom t l)).sum
    rw [hthreads]
    unfold owedFrom at hr
    omega

theorem Even.raises (h : s.Even k) {n : Nat} {b : BodyCall τ} (hb : s.calls[n]? = some b)
    {m : Guard.Move Unit} {d : Compensator} (hd : b.call.note? m = some (.raised d)) :
    (s.advance n b m).Even k := by
  have hmade := h.made b (List.mem_of_getElem? hb)
  obtain ⟨huses, hbefore, hafter⟩ := (hmade.course.moved m).1 d hd
  obtain ⟨hlevels, hscope⟩ := BodyCall.levels_of_uses huses
  have hload := Traffic.loadOf_raises (hmade.known h.charted hscope)
  have hzero : ∀ l, b.owes l = 0 := fun l => by
    rw [BodyCall.owes, hbefore]
    rfl
  have hnew := hmade.move m s.traffic.threads.length
  generalize hb' : ({ b with call := b.call.step m, raiser := s.traffic.threads.length } :
    BodyCall τ) = b' at hnew
  have howes : ∀ l, b'.owes l = d.levels.count l := fun l => by
    subst hb'
    show (if (b.call.step m).outstanding = true then
      (((Scope.compensator? (b.call.step m).scope).map Compensator.levels).getD []).count l
        else 0) = _
    rw [hafter, b.call.step_scope m, if_pos rfl, ← hlevels]
    rfl
  have hraiser : b'.raiser = s.traffic.threads.length := by
    subst hb'
    rfl
  rw [advance, hd]
  dsimp only
  rw [hb']
  refine h.begins hb hnew nofun rfl rfl (fun l => ?_) fun t l => ?_
  · rw [howes, hzero, (hload l).1, (hload l).2, Nat.zero_add, Nat.add_zero]
  · have hfrom : b.owesFrom t l = 0 := by
      rw [BodyCall.owesFrom, hzero]
      exact ite_self 0
    rw [hfrom, Traffic.loadOf_concat]
    split
    case isTrue ht =>
      have hdue : b'.owesFrom t l = d.levels.count l := by
        rw [BodyCall.owesFrom, if_pos (hraiser.trans ht.symm), howes]
      rw [(hload l).1, hdue]
      exact Nat.le_add_left ..
    case isFalse => exact Nat.le_add_right_of_le (h.raisers t l)

theorem Even.lowers (h : s.Even k) {n : Nat} {b : BodyCall τ} (hb : s.calls[n]? = some b)
    {m : Guard.Move Unit} {d : Compensator} (hd : b.call.note? m = some (.lowered d)) :
    (s.advance n b m).Even k := by
  have hmade := h.made b (List.mem_of_getElem? hb)
  obtain ⟨huses, hbefore, hafter⟩ := (hmade.course.moved m).2.1 d hd
  obtain ⟨hlevels, hscope⟩ := BodyCall.levels_of_uses huses
  have hload := Traffic.loadOf_lowers (hmade.known h.charted hscope)
  have howes : ∀ l, b.owes l = d.levels.count l := fun l => by
    rw [BodyCall.owes, hbefore, if_pos rfl, hlevels]
  rw [advance, hd]
  dsimp only
  split
  case isTrue => exact h
  case isFalse hwaits =>
    have hdone : (s.traffic.threads[b.raiser]?).getD [] = [] := by
      simpa [BodyCall.waits] using hwaits
    have hnew := hmade.move m b.raiser
    have hzero : ∀ l, BodyCall.owes l { b with call := b.call.step m } = 0 := fun l => by
      rw [BodyCall.owes, hafter]
      rfl
    refine h.begins hb hnew nofun rfl rfl (fun l => ?_) fun t l => ?_
    · rw [hzero, howes, (hload l).1, (hload l).2, Nat.zero_add, Nat.add_zero]
    · have hthread : loadOf (Chore.up l) (((s.traffic.threads ++
          [s.traffic.lowers (d.worker.map WorkerId.worker) (d.views.map View.id)])[t]?).getD []) ≤
          loadOf (Chore.up l) ((s.traffic.threads[t]?).getD []) := by
        rw [Traffic.loadOf_concat, (hload l).2]
        split
        · exact Nat.zero_le _
        · exact Nat.le_refl _
      refine Nat.le_trans (Nat.add_le_add_right hthread _) ?_
      have hle := h.raisers t l
      by_cases ht : b.raiser = t
      · -- the raise of this call is through, so its thread has none left for others either
        subst ht
        rw [hdone]
        have hmem : b.owesFrom b.raiser l ≤ s.owedFrom b.raiser l :=
          List.le_sum_of_mem (List.mem_map_of_mem (List.mem_of_getElem? hb))
        show 0 + _ ≤ _
        omega
      · rw [BodyCall.owesFrom, if_neg ht]
        exact Nat.le_add_right_of_le hle

/-- A move that calls no compensator changes nothing that is owed. -/
theorem Even.quiet (h : s.Even k) {n : Nat} {b : BodyCall τ} (hb : s.calls[n]? = some b)
    {m : Guard.Move Unit} (hq : ∀ e, b.call.note? m = some e → e.compensates = false) :
    (s.advance n b m).Even k := by
  have hmade := h.made b (List.mem_of_getElem? hb)
  have hsame := (hmade.course.moved m).2.2 hq
  have howes : ∀ l, BodyCall.owes l { b with call := b.call.step m } = b.owes l := fun l => by
    rw [BodyCall.owes, BodyCall.owes, hsame, BodyCall.levels, b.call.step_scope m]
    rfl
  have hsum : ∀ f : BodyCall τ → Nat, f { b with call := b.call.step m } = f b →
      ((s.calls.set n { b with call := b.call.step m }).map f).sum = (s.calls.map f).sum := by
    intro f hf
    have hset := sum_map_set f { b with call := b.call.step m } hb
    omega
  have hadvance : s.advance n b m =
      { s with calls := s.calls.set n { b with call := b.call.step m } } := by
    unfold advance
    split
    case h_1 he => exact absurd (hq _ he) nofun
    case h_2 he => exact absurd (hq _ he) nofun
    case h_3 => rfl
  obtain ⟨g, hs, hg⟩ := h.stands
  rw [hadvance]
  refine ⟨h.charted, h.manned, fun c hc => ?_, ⟨g, hs, fun l => ?_⟩, fun t l => ?_⟩
  · rcases List.mem_or_eq_of_mem_set hc with hc | rfl
    · exact h.made c hc
    · exact hmade.move m b.raiser
  · show _ = ((s.calls.set n _).map (BodyCall.owes l)).sum + _
    rw [hsum _ (howes l)]
    exact hg l
  · show _ ≤ ((s.calls.set n _).map (BodyCall.owesFrom t l)).sum
    rw [hsum _ (by rw [BodyCall.owesFrom, BodyCall.owesFrom, howes])]
    exact h.raisers t l

theorem Even.move (h : s.Even k) (n : Nat) (m : Guard.Move Unit) :
    (s.step (.move n m)).Even k := by
  rw [step]
  split
  case h_2 => exact h
  case h_1 b hb =>
    by_cases hr : ∃ d, b.call.note? m = some (.raised d)
    · obtain ⟨d, hd⟩ := hr
      exact h.raises hb hd
    · by_cases hl : ∃ d, b.call.note? m = some (.lowered d)
      · obtain ⟨d, hd⟩ := hl
        exact h.lowers hb hd
      · refine h.quiet hb fun e he => ?_
        cases e with
        | raised d => exact absurd ⟨d, he⟩ hr
        | lowered d => exact absurd ⟨d, he⟩ hl
        | _ => rfl

theorem even_step (h : s.Even k) (a : Act τ) : (s.step a).Even k := by
  cases a with
  | other a => exact h.other a
  | guard i enabled deadline => exact h.guard i enabled deadline
  | move n m => exact h.move n m

/-- Levels stand as high as calls raise them in every run. -/
theorem even_run (c : Config) (as : List (Act τ)) : ((start c : Guarded τ).run as).Even c := by
  have hs : (start c : Guarded τ).Even c := by
    refine ⟨Traffic.charted_run c [], ?_, ?_, ⟨fun _ => 0, ⟨?_, ?_⟩, ?_⟩, ?_⟩
    · exact fun w j hm => by cases hm
    · exact fun b hb => by cases hb
    · exact Pool.compensated_ofConfig c
    · exact fun i v hv => by cases hv
    · exact fun l => rfl
    · exact fun t l => Nat.zero_le _
  exact List.foldlRecOn (motive := Even c) as step hs fun _ hs a _ => even_step hs a

end Guarded

end Workforce
