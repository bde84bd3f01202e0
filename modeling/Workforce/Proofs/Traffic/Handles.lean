import Workforce.Proofs.Plant.Reports
import Workforce.Proofs.Traffic.Admissions

/-
  The handles of tasks. Each task has a slot for its handle here; that of a task without a handle is
  one that nobody looks at. A slot is filled when the closure of its task has run, with what the
  wrapper reports, and when the task is dropped or refused without having run. Handles take what
  they find at any time.

  `pending_add_filled`: a task that was called is either under way or its slot was filled, once.
  `handles_truthful_iff`: the handle of a task tells what happened to it exactly if its closure did
  not end by a panic whose payload panics when it is destroyed. Such a panic is reported as if the
  closure had never run (`explosive_unreported`).
-/

namespace Workforce

variable {τ ν : Type}

/-- The task that an event discards before it has run. -/
def Event.discarded? : Event τ → Option τ
  | .refused j => some j.task
  | .dropped _ j => some j.task
  | _ => none

/-- A traffic with the slots of its tasks. -/
structure Handled (τ ν : Type) where
  traffic : Traffic τ
  slots : τ → Slot (Option ν) := fun _ => .pending
  /-- How closures ended, oldest first, with none for one that was dropped without having run. -/
  fates : List (τ × Option (Exit ν)) := []
  /-- What was taken from slots. -/
  taken : List (τ × Except Failure (Option ν)) := []

/-- What can happen. -/
inductive Handled.Act (τ ν : Type) where
  /-- Something happens in the traffic, other than that a body ends. -/
  | other (a : Traffic.Act τ)
  /-- The closure on a thread ends. -/
  | ends (i : Nat) (exit : Exit ν) (fatal : Bool)
  /-- The closure on a thread is dropped because its context cannot be entered. -/
  | bars (i : Nat) (fatal : Bool)
  /-- The holder of a handle takes the outcome. -/
  | take (t : τ)

namespace Handled

/-- What a task leaves in its slot. -/
def told : Option (Exit ν) → Except Failure (Option ν)
  | none => .error .disconnected
  | some exit => exit.report.1

variable [DecidableEq τ]

/-- The fate of a task is decided: its slot is filled. -/
def settle (h : Handled τ ν) (t : τ) (fate : Option (Exit ν)) : Handled τ ν :=
  { h with
    slots := fun u => if u = t then (h.slots u).complete (told fate) else h.slots u
    fates := h.fates ++ [(t, fate)] }

/-- What the handle of a task finds, or found when it took it. -/
def outcome? (h : Handled τ ν) (t : τ) : Option (Except Failure (Option ν)) :=
  match h.slots t with
  | .pending => none
  | .ready outcome => some outcome
  | .consumed => (h.taken.find? fun x => x.1 = t).map Prod.snd

variable [Kinded τ]

/-- Something happens in the traffic, and the tasks that it discards are settled. -/
def proceed (h : Handled τ ν) (a : Traffic.Act τ) : Handled τ ν :=
  let s := h.traffic.step a
  let gone := (s.log.drop h.traffic.log.length).filterMap Event.discarded?
  gone.foldl (fun h t => h.settle t none) { h with traffic := s }

/-- Lets something happen, if it can. -/
def step (h : Handled τ ν) : Act τ ν → Handled τ ν
  | .other (.endBody ..) => h
  | .other a => h.proceed a
  | .ends i exit fatal =>
    match h.traffic.threads[i]? with
    | some (.body _ j :: _) =>
      let outcome := exit.report.1.map fun _ => ()
      { h with traffic := h.traffic.step (.endBody i true outcome fatal) }.settle j.task (some exit)
    | _ => h
  | .bars i fatal =>
    match h.traffic.threads[i]? with
    | some (.body _ j :: _) =>
      { h with traffic := h.traffic.step (.endBody i false (.error .disconnected) fatal) }.settle
        j.task none
    | _ => h
  | .take t =>
    match h.slots t with
    | .ready outcome => { h with
        slots := fun u => if u = t then ((h.slots u).take).2 else h.slots u
        taken := h.taken ++ [(t, outcome)] }
    | _ => h

/-- A new pool without views after some acts. -/
def run (c : Config) (as : List (Act τ ν)) : Handled τ ν := as.foldl step { traffic := .start c }

theorem run_concat (c : Config) (as : List (Act τ ν)) (a : Act τ ν) :
    run c (as ++ [a]) = (run c as).step a := by
  rw [run, List.foldl_append]
  rfl

end Handled

/-! ## Bodies -/

/-- The chore is the body of a task. -/
def Chore.isBody [DecidableEq τ] (t : τ) : Chore τ → Bool
  | .body _ j => j.task = t
  | _ => false

namespace Traffic

variable [DecidableEq τ] {s s' : Traffic τ} {t : τ}

/-- How often the body of a task is being run. -/
def bodies (s : Traffic τ) (t : τ) : Nat :=
  (s.threads.map (List.countP (Chore.isBody t))).sum

theorem countP_turnChores (w : Nat) (cause : Cause) (r : Pool.Turn (Job τ)) :
    (turnChores w r).countP (Chore.isBody t) =
      (turnEvents cause r).countP (Event.isStart t) := by
  cases r with
  | runs j => simp [turnChores, turnEvents, Chore.isBody, Event.isStart, List.countP_cons]
  | rests => rfl
  | leaves o =>
    cases o with
    | none => rfl
    | some j => simp [turnChores, turnEvents, Job.lost, Function.comp_def, Event.isStart]

theorem countP_releases (vs : List View) :
    (vs.map Chore.release : List (Chore τ)).countP (Chore.isBody t) = 0 := by
  simp [Function.comp_def, Chore.isBody]

theorem countP_isStart_stranded (vs : List View) :
    (vs.map Event.stranded : List (Event τ)).countP (Event.isStart t) = 0 := by
  simp [Function.comp_def, Event.isStart]

theorem Settling.bodies {c : Chore τ} {v : View} {change : Gate (Job τ) → Gate (Job τ)}
    {es : List (Event τ)} (h : Settling c v change es) :
    c.isBody t = false ∧ es.countP (Event.isStart t) = 0 := by
  cases h <;> exact ⟨rfl, rfl⟩

variable [Kinded τ]

/-- A chore leaves the bodies behind that it starts, and itself if it is one. -/
theorem Performs.bodies {c : Chore τ} {d : Deed τ} (h : Performs s c d) :
    d.todo.countP (Chore.isBody t) =
      (if c.isBody t then 1 else 0) + d.events.countP (Event.isStart t) := by
  cases h with
  | idle => exact List.countP_singleton
  | finished =>
    rw [countP_turnChores _ .forced]
    simp [Chore.isBody, Event.isStart]
  | died =>
    rw [countP_turnChores _ .died]
    simp [Chore.isBody, Event.isStart]
  | settled hc => simp [hc.bodies]
  | admits hc =>
    rw [hc.bodies.1, List.countP_append, hc.bodies.2]
    simp [Chore.isBody, Event.isStart]
  | missing hc => simp [hc.bodies]
  | handed => simp [taken, Chore.isBody, Function.comp_def]
  | waitsAgain => simp [taken, Chore.isBody, Function.comp_def]
  | discarded =>
    simp only [discard, countP_releases, List.countP_cons, countP_isStart_stranded, Chore.isBody,
      Event.isStart]
    simp
  | _ =>
    simp [refuse, Job.lost, Chore.isBody, Event.isStart, Function.comp_def]

omit [Kinded τ] in
theorem bodies_set {ts : List (List (Chore τ))} {i : Nat} {cs : List (Chore τ)}
    (ds : List (Chore τ)) (h : ts[i]? = some cs) :
    ((ts.set i ds).map (List.countP (Chore.isBody t))).sum + cs.countP (Chore.isBody t) =
      (ts.map (List.countP (Chore.isBody t))).sum + ds.countP (Chore.isBody t) :=
  sum_map_set _ ds h

omit [Kinded τ] in
/-- A thread gets something else to do first. -/
theorem bodies_above {ts : List (List (Chore τ))} {i : Nat} {cs : List (Chore τ)} {c : Chore τ}
    (hc : c.isBody t = false) (h : ts[i]? = some cs) :
    ((ts.set i (c :: cs)).map (List.countP (Chore.isBody t))).sum =
      (ts.map (List.countP (Chore.isBody t))).sum := by
  have hb := bodies_set (t := t) (c :: cs) h
  rw [List.countP_cons_of_neg (by simp [hc])] at hb
  omega

omit [Kinded τ] in
theorem countP_isStart_lost (js : List (Job τ)) (cause : Cause) :
    (js.flatMap fun j => j.lost cause).countP (Event.isStart t) = 0 := by
  rw [List.countP_eq_zero]
  intro e he
  obtain ⟨j, -, hj⟩ := List.mem_flatMap.mp he
  obtain rfl | hj := List.mem_cons.mp hj
  · simp [Event.isStart]
  · obtain ⟨v, -, rfl⟩ := List.mem_map.mp hj
    simp [Event.isStart]

omit [Kinded τ] in
theorem countP_raises (w : Option Nat) (vs : List Nat) :
    (s.raises w vs).countP (Chore.isBody t) = 0 ∧
      (s.lowers w vs).countP (Chore.isBody t) = 0 := by
  simp [raises, lowers, Chore.isBody, Function.comp_def]

/-- A body is run from its start until an act ends it. -/
theorem Steps.bodies {a : Act τ} (h : Steps s a s')
    (ha : ∀ i entered outcome fatal, a ≠ .endBody i entered outcome fatal) (t : τ) :
    s'.bodies t + s.starts t = s.bodies t + s'.starts t := by
  unfold Traffic.bodies starts
  cases h with
  | stays => rfl
  | built => rfl
  | called => simp [Chore.isBody, Event.isStart]
  | @calledFrom i w n d u tail j rest hd hi =>
    have hb := bodies_above (t := t)
      (c := .submit d { task := u } (if tail then some w else none)) rfl hi
    have hs : List.countP (Event.isStart t) [.called u d.views] = 0 := rfl
    rw [List.countP_append, hs, hb]
    rfl
  | @flushes i w j rest hi =>
    rw [bodies_above (c := .flush w) rfl hi]
  | raised w vs => simp [countP_raises]
  | lowered w vs => simp [countP_raises]
  | ended => exact absurd rfl (ha _ _ _ _)
  | barred => exact absurd rfl (ha _ _ _ _)
  | began hw hx =>
    simp only [List.map_append, List.map_singleton, List.sum_append, List.sum_singleton,
      List.countP_append, countP_turnChores _ .forced]
    omega
  | resumed hw hx =>
    simp only [List.map_append, List.map_singleton, List.sum_append, List.sum_singleton,
      List.countP_append, countP_turnChores _ .forced]
    omega
  | @goes i c rest d hi hp =>
    have hb := bodies_set (t := t) (d.todo ++ rest) hi
    rw [List.countP_cons, List.countP_append, hp.bodies] at hb
    simp only [List.countP_append]
    omega
  | closed => rfl
  | terminated =>
    simp only [List.countP_append, countP_isStart_lost]
    omega

/-- An act that ends a body starts nothing, and ends no other body. -/
theorem bodies_endBody {i w : Nat} {j : Job τ} {rest : List (Chore τ)}
    (hi : s.threads[i]? = some (.body w j :: rest)) (entered : Bool)
    (outcome : Except Failure Unit) (fatal : Bool) (t : τ) :
    (s.step (.endBody i entered outcome fatal)).bodies t + (if j.task = t then 1 else 0) =
      s.bodies t := by
  have hj : (Chore.body w j).isBody t = decide (j.task = t) := rfl
  have hf (outcome : Except Failure Unit) : (Chore.finish w outcome fatal).isBody t = false := rfl
  cases entered with
  | true =>
    have hb := bodies_set (t := t)
      (j.views.reverse.map .release ++ .finish w outcome fatal :: rest) hi
    rw [List.countP_append, countP_releases, List.countP_cons, List.countP_cons, hj, hf] at hb
    simp only [decide_eq_true_eq, Bool.false_eq_true, if_false] at hb
    simp only [step, hi, if_true, bodies]
    omega
  | false =>
    have hb := bodies_set (t := t) (.finish w (.error .disconnected) fatal :: rest) hi
    rw [List.countP_cons, List.countP_cons, hj, hf] at hb
    simp only [decide_eq_true_eq, Bool.false_eq_true, if_false] at hb
    simp only [step, hi, Bool.false_eq_true, if_false, bodies]
    omega

omit [DecidableEq τ] in
/-- Nor does it call or discard anything. -/
theorem log_endBody (s : Traffic τ) (i : Nat) (entered : Bool) (outcome : Except Failure Unit)
    (fatal : Bool) : ∃ vs : List View,
      (s.step (.endBody i entered outcome fatal)).log = s.log ++ vs.map .stranded := by
  have hs := steps s (.endBody i entered outcome fatal)
  generalize s.step (.endBody i entered outcome fatal) = s' at hs
  cases hs with
  | stays => exact ⟨[], (List.append_nil s.log).symm⟩
  | ended => exact ⟨[], (List.append_nil s.log).symm⟩
  | barred => exact ⟨_, rfl⟩

/-- How often a task was dropped or refused without having run. -/
def discards (s : Traffic τ) (t : τ) : Nat := s.log.countP (Event.isRefusal t) + s.drops t

omit [Kinded τ] in
theorem countP_discarded (es : List (Event τ)) :
    (es.filterMap Event.discarded?).countP (fun u => u = t) =
      es.countP (Event.isRefusal t) + es.countP (Event.isDrop t) := by
  induction es with
  | nil => rfl
  | cons e es ih =>
    rw [List.filterMap_cons, List.countP_cons, List.countP_cons]
    cases e <;> simp [Event.discarded?, Event.isRefusal, Event.isDrop, List.countP_cons, ih] <;> omega

end Traffic

namespace Handled

variable [DecidableEq τ] {h : Handled τ ν} {t : τ}

/-! ## Settled tasks -/

theorem foldl_settle (gone : List τ) (h : Handled τ ν) :
    (gone.foldl (fun h t => h.settle t none) h).traffic = h.traffic ∧
      (gone.foldl (fun h t => h.settle t none) h).fates =
        h.fates ++ gone.map fun t => (t, none) := by
  induction gone generalizing h with
  | nil => exact ⟨rfl, (List.append_nil _).symm⟩
  | cons u gone ih =>
    obtain ⟨ht, hf⟩ := ih (h.settle u none)
    refine ⟨ht, ?_⟩
    rw [List.foldl_cons, hf]
    simp [settle]

/-- How often the slot of a task was filled. -/
def filled (h : Handled τ ν) (t : τ) : Nat := h.fates.countP fun f => f.1 = t

/-- The slot of a task was filled once for each end of its body and each time it was discarded. -/
def Accounted (h : Handled τ ν) (t : τ) : Prop :=
  h.filled t + h.traffic.bodies t = h.traffic.starts t + h.traffic.discards t

theorem filled_settle (h : Handled τ ν) (u t : τ) (fate : Option (Exit ν)) :
    (h.settle u fate).filled t = h.filled t + if u = t then 1 else 0 := by
  simp [filled, settle, List.countP_append, List.countP_singleton]

variable [Kinded τ]

theorem accounted_proceed {a : Traffic.Act τ} (ha : Accounted h t)
    (hb : ∀ i entered outcome fatal, a ≠ .endBody i entered outcome fatal) :
    Accounted (h.proceed a) t := by
  obtain ⟨es, hes⟩ := Traffic.log_prefix_step h.traffic a
  have hbodies := (Traffic.steps h.traffic a).bodies hb t
  have hgone := Traffic.countP_discarded (t := t) es
  obtain ⟨htraffic, hfates⟩ := foldl_settle (es.filterMap Event.discarded?)
    { h with traffic := h.traffic.step a }
  have hdrop : (h.traffic.step a).log.drop h.traffic.log.length = es := by
    rw [← hes, List.drop_left]
  unfold Accounted filled proceed
  dsimp only
  rw [hdrop, htraffic, hfates, List.countP_append, List.countP_map]
  unfold Accounted filled Traffic.discards Traffic.drops at ha
  unfold Traffic.discards Traffic.drops
  rw [← hes, List.countP_append, List.countP_append]
  simp only [Function.comp_def]
  omega

theorem accounted_ends {i w : Nat} {j : Job τ} {rest : List (Chore τ)}
    (ha : Accounted h t) (hi : h.traffic.threads[i]? = some (.body w j :: rest)) (entered : Bool)
    (outcome : Except Failure Unit) (fatal : Bool) (fate : Option (Exit ν)) :
    Accounted ({ h with traffic := h.traffic.step (.endBody i entered outcome fatal) }.settle
      j.task fate) t := by
  have hbodies := Traffic.bodies_endBody hi entered outcome fatal t
  obtain ⟨vs, hlog⟩ := Traffic.log_endBody h.traffic i entered outcome fatal
  have hkeep {p : Event τ → Bool} (hp : ∀ v, p (.stranded v) = false) :
      (h.traffic.step (.endBody i entered outcome fatal)).log.countP p =
        h.traffic.log.countP p := by
    rw [hlog, List.countP_append, Nat.add_eq_left, List.countP_eq_zero]
    intro e he
    obtain ⟨v, -, rfl⟩ := List.mem_map.mp he
    simp [hp]
  unfold Accounted at ha ⊢
  rw [filled_settle]
  unfold Traffic.starts Traffic.discards Traffic.drops at ha ⊢
  unfold filled at ha ⊢
  dsimp only [settle]
  rw [hkeep fun _ => rfl, hkeep fun _ => rfl, hkeep fun _ => rfl]
  omega

/-! ## Moves -/

/-- The ways in which an act changes a traffic with its slots. -/
inductive Moves (h : Handled τ ν) : Handled τ ν → Prop where
  | stays : Moves h h
  | proceeds {a : Traffic.Act τ}
      (ha : ∀ i entered outcome fatal, a ≠ .endBody i entered outcome fatal) :
      Moves h (h.proceed a)
  | ends {i w : Nat} {j : Job τ} {rest : List (Chore τ)}
      (hi : h.traffic.threads[i]? = some (.body w j :: rest)) (entered : Bool)
      (outcome : Except Failure Unit) (fatal : Bool) (fate : Option (Exit ν)) :
      Moves h ({ h with traffic := h.traffic.step (.endBody i entered outcome fatal) }.settle
        j.task fate)
  | takes {t : τ} {outcome : Except Failure (Option ν)} (ht : h.slots t = .ready outcome) :
      Moves h { h with
        slots := fun u => if u = t then ((h.slots u).take).2 else h.slots u
        taken := h.taken ++ [(t, outcome)] }

theorem moves (h : Handled τ ν) (a : Act τ ν) : Moves h (h.step a) := by
  cases a with
  | other b =>
    cases b with
    | endBody => exact .stays
    | _ => exact .proceeds nofun
  | ends i exit fatal =>
    rw [step]
    split
    case h_1 hi => exact .ends hi true _ fatal (some exit)
    case h_2 => exact .stays
  | bars i fatal =>
    rw [step]
    split
    case h_1 hi => exact .ends hi false _ fatal none
    case h_2 => exact .stays
  | take t =>
    rw [step]
    split
    case h_1 ht => exact .takes ht
    case h_2 => exact .stays

/-- What the traffic does is what an act does to a traffic, if anything. -/
theorem Moves.traffic {h' : Handled τ ν} (hm : Moves h h') :
    h'.traffic = h.traffic ∨ ∃ b, h'.traffic = h.traffic.step b := by
  cases hm with
  | stays => exact .inl rfl
  | @proceeds a => exact .inr ⟨a, (foldl_settle _ _).1⟩
  | @ends i w j rest hi entered outcome fatal => exact .inr ⟨.endBody i entered outcome fatal, rfl⟩
  | takes => exact .inl rfl

/-- A run is a run of the traffic. -/
theorem exists_run (c : Config) (as : List (Act τ ν)) :
    ∃ bs, (run c as).traffic = (Traffic.start c).run bs := by
  -- induction on the number of acts
  induction as using List.reverseRecOn with
  | nil => exact ⟨[], rfl⟩
  | append_singleton as a ih =>
    obtain ⟨bs, hbs⟩ := ih
    rw [run_concat]
    obtain hsame | ⟨b, hb⟩ := (moves (run c as) a).traffic
    · exact ⟨bs, hsame.trans hbs⟩
    · exact ⟨bs ++ [b], by rw [hb, hbs, Traffic.run_concat]⟩

theorem Moves.accounted {h' : Handled τ ν} (hm : Moves h h') (ha : Accounted h t) :
    Accounted h' t := by
  cases hm with
  | stays => exact ha
  | proceeds hb => exact accounted_proceed ha hb
  | ends hi entered outcome fatal fate => exact accounted_ends ha hi entered outcome fatal fate
  | takes => exact ha

theorem accounted_run (c : Config) (as : List (Act τ ν)) (t : τ) : Accounted (run c as) t := by
  have hstart : Accounted ({ traffic := .start c } : Handled τ ν) t := rfl
  exact List.foldlRecOn (motive := (Accounted · t)) as step hstart fun h ha a _ =>
    (moves h a).accounted ha

/-- How often a task waits somewhere or has its body run. -/
def pending (h : Handled τ ν) (t : τ) : Nat :=
  ((h.traffic.places t).take 4).sum + h.traffic.bodies t

/-- A task is under way or its slot was filled, as often as it was called. -/
theorem pending_add_filled (c : Config) (as : List (Act τ ν)) (t : τ) :
    (run c as).pending t + (run c as).filled t = (run c as).traffic.calls t := by
  have ha := accounted_run c as t
  obtain ⟨bs, hbs⟩ := exists_run c as
  have hstarts := Traffic.starts_eq (Traffic.balanced_run (Weights.ofRun t) c bs)
  have htask := Traffic.balanced_run (Weights.ofTask t) c bs
  unfold Traffic.Balanced Traffic.weight at htask
  rw [Traffic.poolWeight_ofTask, Traffic.gatesWeight_ofTask, Traffic.threadsWeight_ofTask,
    Traffic.outgo_ofTask, Traffic.income_ofTask] at htask
  unfold Accounted Traffic.discards at ha
  unfold pending Traffic.places Traffic.calls
  unfold Traffic.drops at ha
  rw [← hbs] at hstarts htask
  simp only [List.take_succ_cons, List.take_zero, List.sum_cons, List.sum_nil]
  omega

/-! ## Outcomes -/

/-- The fate that decided what is in a slot. -/
def fate? (h : Handled τ ν) (t : τ) : Option (τ × Option (Exit ν)) :=
  h.fates.find? fun f => f.1 = t

/-- What handles find is what the first fates of their tasks left there. -/
structure Sealed (h : Handled τ ν) : Prop where
  outcome : ∀ t, h.outcome? t = (h.fate? t).map fun f => told f.2
  taken : ∀ t, h.slots t = .consumed ↔ ∃ x ∈ h.taken, x.1 = t

omit [Kinded τ] in
/-- A slot is empty if it was never filled. -/
theorem Sealed.fate?_eq_none (hs : Sealed h) : h.fate? t = none ↔ h.slots t = .pending := by
  have ho := hs.outcome t
  unfold outcome? at ho
  constructor
  · intro hf
    rw [hf] at ho
    cases hslot : h.slots t with
    | pending => rfl
    | ready outcome => simp [hslot] at ho
    | consumed =>
      obtain ⟨x, hx, hxt⟩ := (hs.taken t).mp hslot
      have hnone : h.taken.find? (fun x => x.1 = t) = none := by simpa [hslot] using ho
      exact absurd hxt (by simpa using List.find?_eq_none.mp hnone x hx)
  · intro hslot
    rw [hslot] at ho
    exact Option.map_eq_none_iff.mp ho.symm

omit [Kinded τ] in
theorem fate?_settle (h : Handled τ ν) (u t : τ) (fate : Option (Exit ν)) :
    (h.settle u fate).fate? t = (h.fate? t).or (if u = t then some (u, fate) else none) := by
  unfold fate? settle
  rw [List.find?_append, List.find?_singleton]
  simp

omit [Kinded τ] in
/-- Only the empty slot of the task itself is filled. -/
theorem slots_settle (h : Handled τ ν) {u t : τ} (ht : u = t → h.slots t ≠ .pending)
    (fate : Option (Exit ν)) : (h.settle u fate).slots t = h.slots t := by
  unfold settle
  dsimp only
  split
  · subst t
    apply Slot.complete_of_isReady
    cases hslot : h.slots u with
    | pending => exact absurd hslot (ht rfl)
    | _ => rfl
  · rfl

omit [Kinded τ] in
theorem slots_settle_self (h : Handled τ ν) (hslot : h.slots t = .pending)
    (fate : Option (Exit ν)) : (h.settle t fate).slots t = .ready (told fate) := by
  unfold settle
  dsimp only
  rw [if_pos rfl, hslot]
  rfl

omit [Kinded τ] in
theorem Sealed.settle (hs : Sealed h) (u : τ) (fate : Option (Exit ν)) :
    Sealed (h.settle u fate) := by
  have hcases (t : τ) : (u = t ∧ h.slots t = .pending) ∨ (u = t → h.slots t ≠ .pending) := by
    by_cases hu : u = t
    · by_cases hslot : h.slots t = .pending
      · exact .inl ⟨hu, hslot⟩
      · exact .inr fun _ => hslot
    · exact .inr fun he => absurd he hu
  constructor
  case outcome =>
    intro t
    rw [fate?_settle]
    obtain ⟨rfl, hslot⟩ | hsame := hcases t
    · rw [hs.fate?_eq_none.mpr hslot, outcome?, slots_settle_self h hslot]
      simp
    · have ho : (h.settle u fate).outcome? t = h.outcome? t := by
        unfold outcome?
        rw [slots_settle h hsame]
        rfl
      rw [ho, hs.outcome t]
      by_cases hu : u = t
      · obtain ⟨f, hf⟩ := Option.ne_none_iff_exists'.mp (mt hs.fate?_eq_none.mp (hsame hu))
        rw [hf]
        rfl
      · rw [if_neg hu, Option.or_none]
  case taken =>
    intro t
    obtain ⟨rfl, hslot⟩ | hsame := hcases t
    · have hn := (not_congr (hs.taken u)).mp (by simp [hslot])
      rw [slots_settle_self h hslot]
      simpa [Handled.settle] using hn
    · rw [slots_settle h hsame]
      exact hs.taken t

omit [Kinded τ] in
theorem Sealed.foldl_settle (hs : Sealed h) (gone : List τ) :
    Sealed (gone.foldl (fun h t => h.settle t none) h) :=
  List.foldlRecOn gone _ hs fun _ hs' u _ => hs'.settle u none

omit [Kinded τ] in
theorem Sealed.takes (hs : Sealed h) {outcome : Except Failure (Option ν)}
    (ht : h.slots t = .ready outcome) : Sealed { h with
      slots := fun u => if u = t then ((h.slots u).take).2 else h.slots u
      taken := h.taken ++ [(t, outcome)] } := by
  have hnone : h.taken.find? (fun x => x.1 = t) = none := by
    have hn := (not_congr (hs.taken t)).mp (by simp [ht])
    exact List.find?_eq_none.mpr fun x hx => by simpa using fun hxt => hn ⟨x, hx, hxt⟩
  constructor
  case outcome =>
    intro u
    have ho := hs.outcome u
    unfold outcome? at ho ⊢
    dsimp only
    by_cases hu : u = t
    · subst hu
      rw [ht] at ho
      refine Eq.trans ?_ ho
      rw [if_pos rfl, ht]
      simp [Slot.take, List.find?_append, hnone]
    · rw [if_neg hu]
      refine Eq.trans ?_ ho
      cases h.slots u with
      | consumed => simp [List.find?_append, Ne.symm hu]
      | _ => rfl
  case taken =>
    intro u
    dsimp only
    by_cases hu : u = t
    · subst hu
      simp [ht, Slot.take]
    · rw [if_neg hu, hs.taken u]
      simp [Ne.symm hu]

/-! ## The handle of a task -/

theorem Moves.sealed {h' : Handled τ ν} (hm : Moves h h') (hs : Sealed h) : Sealed h' := by
  cases hm with
  | stays => exact hs
  | @proceeds a =>
    have hs' : Sealed { h with traffic := h.traffic.step a } := ⟨hs.outcome, hs.taken⟩
    exact hs'.foldl_settle _
  | @ends i w j rest hi entered outcome fatal fate =>
    have hs' : Sealed { h with
      traffic := h.traffic.step (.endBody i entered outcome fatal) } := ⟨hs.outcome, hs.taken⟩
    exact hs'.settle j.task fate
  | takes ht => exact hs.takes ht

theorem sealed_run (c : Config) (as : List (Act τ ν)) : Sealed (run c as) := by
  have hstart : Sealed ({ traffic := .start c } : Handled τ ν) :=
    ⟨fun _ => rfl, fun t => by simp⟩
  exact List.foldlRecOn as step hstart fun h hs a _ => (moves h a).sealed hs

theorem Moves.fates {h' : Handled τ ν} (hm : Moves h h') : h.fates <+: h'.fates := by
  cases hm with
  | stays => exact List.prefix_refl _
  | proceeds =>
    unfold proceed
    rw [(foldl_settle _ _).2]
    exact List.prefix_append _ _
  | ends => exact List.prefix_append _ _
  | takes => exact List.prefix_refl _

theorem fates_growth (c : Config) (as bs : List (Act τ ν)) :
    (run c as).fates <+: (run c (as ++ bs)).fates := by
  -- induction on the number of further acts
  induction bs using List.reverseRecOn with
  | nil =>
    have he : (run c (as ++ [])).fates = (run c as).fates := by rw [List.append_nil]
    exact he ▸ List.prefix_rfl
  | append_singleton bs b ih =>
    rw [← List.append_assoc, run_concat]
    exact ih.trans (moves _ b).fates

omit [Kinded τ] in
/-- Further fates do not change what was decided. -/
theorem fate?_of_growth {h' : Handled τ ν} (hp : h.fates <+: h'.fates)
    {f : τ × Option (Exit ν)} (hf : h.fate? t = some f) : h'.fate? t = some f := by
  obtain ⟨l, hl⟩ := hp
  unfold fate? at hf ⊢
  rw [← hl, List.find?_append, hf]
  rfl

omit [Kinded τ] in
/-- What a handle finds is in the slot, or was taken from it. -/
theorem slot_of_outcome? {outcome : Except Failure (Option ν)}
    (ho : h.outcome? t = some outcome) :
    h.slots t = .ready outcome ∨ h.slots t = .consumed ∧ (t, outcome) ∈ h.taken := by
  unfold outcome? at ho
  split at ho
  case h_1 => cases ho
  case h_2 o hslot =>
    obtain rfl : o = outcome := Option.some.inj ho
    exact .inl hslot
  case h_3 hslot =>
    obtain ⟨x, hx, rfl⟩ := Option.map_eq_some_iff.mp ho
    have hxt : x.1 = t := by simpa using List.find?_some hx
    exact .inr ⟨hslot, hxt ▸ List.mem_of_find?_eq_some hx⟩

/-- A filled slot stays as it is until its outcome is taken. -/
theorem ready_stays (c : Config) (as bs : List (Act τ ν)) {outcome : Except Failure (Option ν)}
    (hr : (run c as).slots t = .ready outcome) :
    (run c (as ++ bs)).slots t = .ready outcome ∨
      (run c (as ++ bs)).slots t = .consumed ∧ (t, outcome) ∈ (run c (as ++ bs)).taken := by
  have ho : (run c as).outcome? t = some outcome := by rw [outcome?, hr]
  rw [(sealed_run c as).outcome] at ho
  obtain ⟨f, hf, rfl⟩ := Option.map_eq_some_iff.mp ho
  apply slot_of_outcome?
  rw [(sealed_run c (as ++ bs)).outcome, fate?_of_growth (fates_growth c as bs) hf]
  rfl

omit [Kinded τ] in
/-- A slot that was filled once at most was filled with the one fate of its task. -/
theorem mem_fates_iff (h1 : h.filled t ≤ 1) {fate : Option (Exit ν)} :
    (t, fate) ∈ h.fates ↔ h.fate? t = some (t, fate) := by
  constructor
  · intro hmem
    obtain ⟨l₁, l₂, hl⟩ := List.append_of_mem hmem
    unfold filled at h1
    rw [hl, List.countP_append, List.countP_cons_of_pos (by simp)] at h1
    have hnone : l₁.find? (fun f => f.1 = t) = none := by
      have hzero : l₁.countP (fun f => f.1 = t) = 0 := by omega
      exact List.find?_eq_none.mpr (List.countP_eq_zero.mp hzero)
    unfold fate?
    rw [hl, List.find?_append, hnone]
    simp
  · exact List.mem_of_find?_eq_some

/-- The closure of a task has ended in this way. -/
def Ended (h : Handled τ ν) (t : τ) (exit : Exit ν) : Prop := (t, some exit) ∈ h.fates

/-- What the handle of a task finds is what happened to it. -/
structure Truthful (h : Handled τ ν) (t : τ) : Prop where
  value : ∀ v, h.outcome? t = some (.ok v) ↔ h.Ended t (.returned v)
  panic : ∀ message, h.outcome? t = some (.error (.taskPanicked message)) ↔
    ∃ p, h.Ended t (.panicked p) ∧ p.message = message
  /-- Only a task whose closure was never run is disconnected. -/
  disconnected : h.outcome? t = some (.error .disconnected) → ∀ exit, ¬ h.Ended t exit

omit [Kinded τ] in
theorem truthful_iff {fate : Option (Option (Exit ν))}
    (ho : h.outcome? t = fate.map told) (he : ∀ exit, h.Ended t exit ↔ fate = some (some exit)) :
    h.Truthful t ↔ ∀ p, h.Ended t (.panicked p) → p.aftershock = none := by
  constructor
  · intro ht p hp
    have hreport : h.outcome? t = some (told (some (.panicked p))) := by
      rw [ho, (he _).mp hp]
      rfl
    cases hq : p.aftershock with
    | none => rfl
    | some q =>
      refine absurd hp (ht.disconnected ?_ (.panicked p))
      rw [hreport, told, Exit.report, hq]
  · intro hall
    cases fate with
    | none => constructor <;> simp [ho, he]
    | some fate =>
      cases fate with
      | none => constructor <;> simp [ho, he, told]
      | some exit =>
        cases exit with
        | returned v => constructor <;> simp [ho, he, told, Exit.report, eq_comm]
        | panicked p =>
          have hp : p.aftershock = none := hall p ((he _).mpr rfl)
          have hreport : (Exit.panicked p : Exit ν).report.1 = .error (.taskPanicked p.message) := by
            rw [Exit.report, hp]
          constructor <;> simp [ho, he, told, hreport]

/-- The handle of a task that was called once: its slot is filled exactly once, namely when the task
is not under way any more, and then stays as it is until its outcome is taken; and it tells what
happened to the task exactly if no panic with an explosive payload ended its closure. -/
theorem handles_truthful_iff (c : Config) (as : List (Act τ ν)) {t : τ}
    (hc : (run c as).traffic.calls t = 1) :
    (run c as).pending t + (run c as).filled t = 1 ∧
    (∀ us vs outcome, us ++ vs = as → (run c us).slots t = .ready outcome →
      (run c as).slots t = .ready outcome ∨
        (run c as).slots t = .consumed ∧ (t, outcome) ∈ (run c as).taken) ∧
    ((run c as).Truthful t ↔ ∀ p, (run c as).Ended t (.panicked p) → p.aftershock = none) := by
  have hsum := pending_add_filled c as t
  rw [hc] at hsum
  refine ⟨hsum, ?_, ?_⟩
  · rintro us vs outcome rfl hr
    exact ready_stays c us vs hr
  · have h1 : (run c as).filled t ≤ 1 := by omega
    have ho : (run c as).outcome? t = (((run c as).fate? t).map Prod.snd).map told := by
      rw [(sealed_run c as).outcome, Option.map_map]
      rfl
    refine truthful_iff ho fun exit => ?_
    unfold Ended
    rw [mem_fates_iff h1, Option.map_eq_some_iff]
    constructor
    · exact fun hf => ⟨_, hf, rfl⟩
    · rintro ⟨⟨u, fate⟩, hf, rfl⟩
      have hu : u = t := by simpa using List.find?_some hf
      rw [hf, hu]

/-! ## Panics -/

/-- Task 0 is spawned, and its closure panics. -/
def panicRun (p : Payload) : List (Act Nat Nat) :=
  [.other (.begin 0), .other (.call none 0), .other (.go 1), .other (.resume 0 false),
    .ends 2 (.panicked p) false]

/-- The law for a panic with a message: the handle tells it. -/
theorem handles_truthful_iff_panicRun :
    (run Traffic.lone (panicRun (.text "no"))).traffic.calls 0 = 1 ∧
      (run Traffic.lone (panicRun (.text "no"))).Truthful 0 := by
  have hc : (run Traffic.lone (panicRun (.text "no"))).traffic.calls 0 = 1 := by decide
  refine ⟨hc, (handles_truthful_iff Traffic.lone _ hc).2.2.mpr fun p hp => ?_⟩
  have hfates : (run Traffic.lone (panicRun (.text "no"))).fates =
      [(0, some (.panicked (.text "no")))] := rfl
  unfold Ended at hp
  rw [hfates] at hp
  obtain rfl : p = .text "no" := by simpa using hp
  rfl

/-- A closure has panicked, and its handle tells that it was never run. -/
theorem explosive_unreported :
    (run Traffic.lone (panicRun .explosive)).Ended 0 (.panicked .explosive) ∧
      (run Traffic.lone (panicRun .explosive)).outcome? 0 = some (.error .disconnected) ∧
      ¬ (run Traffic.lone (panicRun .explosive)).Truthful 0 := by
  have hended : (run Traffic.lone (panicRun .explosive)).Ended 0 (.panicked .explosive) :=
    List.mem_singleton.mpr rfl
  have houtcome : (run Traffic.lone (panicRun .explosive)).outcome? 0 =
      some (.error .disconnected) := rfl
  exact ⟨hended, houtcome, fun ht => ht.disconnected houtcome _ hended⟩

end Handled

end Workforce
