import Workforce.Proofs.Pool.Holdings
import Workforce.Proofs.Traffic.Performs

/-
  The ledger of a traffic. Tasks, calls that have not returned, tasks that run, and admissions each
  get a weight, and everything that is on its way somewhere is added up: jobs in queues, slots,
  gates and hands, running tasks, and admissions that threads still have to give back. Each event
  of the log brings something in or takes something out.

  `balanced_run`: in every run the ledger is balanced, that is, what came in is still there or
  went out by an event. The weights are arbitrary, so the one law counts the places of a task, its
  answers, its starts, and the admissions of one view.
-/

namespace Workforce

/-- What is counted, and how often. -/
structure Weights (τ : Type) where
  /-- Tasks from their call to their end. -/
  task : τ → Nat := fun _ => 0
  /-- Calls until they return. -/
  call : τ → Nat := fun _ => 0
  /-- Tasks that run. -/
  run : τ → Nat := fun _ => 0
  /-- Admissions until they are given back. -/
  admission : View → Nat := fun _ => 0

variable {τ : Type} (m : Weights τ)

/-! ## Weights -/

/-- The weight of admissions. -/
def Weights.views (vs : List View) : Nat := (vs.map m.admission).sum

/-- The weight of a job that waits. -/
def Job.waiting (j : Job τ) : Nat := m.task j.task + m.views j.views

/-- The weight of a job that runs: its admissions are counted with its thread. -/
def Job.running (j : Job τ) : Nat := m.task j.task + m.run j.task

/-- What is on its way because of a chore. -/
def Chore.weight : Chore τ → Nat
  | .submit _ j _ => j.waiting m + m.call j.task
  | .requeue displaced submitted => displaced.waiting m + m.call submitted.task
  | .forward _ j _ => j.waiting m
  | .release v => m.admission v
  | .body _ j => m.views j.views
  | _ => 0

/-- What an event brings in. -/
def Event.income : Event τ → Nat
  | .called t _ => m.task t + m.call t
  | .started t => m.run t
  | .admitted v => m.admission v
  | .overdrawn v => m.admission v
  | _ => 0

/-- What an event takes out. -/
def Event.outgo : Event τ → Nat
  | .accepted t => m.call t
  | .refused j => m.task j.task + m.call j.task
  | .misled t => m.call t
  | .ended t _ => m.task t + m.run t
  | .dropped _ j => m.task j.task
  | .released v => m.admission v
  | .stranded v => m.admission v
  | _ => 0

def choresWeight (cs : List (Chore τ)) : Nat := (cs.map (Chore.weight m)).sum

def income (es : List (Event τ)) : Nat := (es.map (Event.income m)).sum

def outgo (es : List (Event τ)) : Nat := (es.map (Event.outgo m)).sum

/-- What waits at gates. -/
def gatesWeight (gs : List (Gate (Job τ))) : Nat :=
  (gs.map fun x => (x.queue.map (Job.waiting m)).sum).sum

/-! ### Sums -/

@[simp] theorem views_nil : m.views [] = 0 := rfl

@[simp] theorem views_cons (v : View) (vs : List View) : m.views (v :: vs) = m.admission v + m.views vs := by
  simp [Weights.views]

@[simp] theorem views_append (us vs : List View) :
    m.views (us ++ vs) = m.views us + m.views vs := by
  simp [Weights.views]

@[simp] theorem views_reverse (vs : List View) : m.views vs.reverse = m.views vs := by
  induction vs with
  | nil => rfl
  | cons v vs ih =>
    rw [List.reverse_cons, views_append, ih]
    simp only [views_cons, views_nil]
    omega

@[simp] theorem choresWeight_nil : choresWeight m ([] : List (Chore τ)) = 0 := rfl

@[simp] theorem choresWeight_cons (c : Chore τ) (cs : List (Chore τ)) :
    choresWeight m (c :: cs) = c.weight m + choresWeight m cs := by
  simp [choresWeight]

@[simp] theorem choresWeight_append (cs ds : List (Chore τ)) :
    choresWeight m (cs ++ ds) = choresWeight m cs + choresWeight m ds := by
  simp [choresWeight]

@[simp] theorem choresWeight_releases (vs : List View) :
    choresWeight m (vs.map Chore.release : List (Chore τ)) = m.views vs := by
  induction vs with
  | nil => rfl
  | cons v vs ih => simp only [List.map_cons, choresWeight_cons, ih, views_cons, Chore.weight]

/-- Chores that nothing is on its way for. -/
theorem choresWeight_eq_zero {cs : List (Chore τ)} (h : ∀ c ∈ cs, c.weight m = 0) :
    choresWeight m cs = 0 := by
  induction cs with
  | nil => rfl
  | cons c cs ih =>
    rw [choresWeight_cons, h c List.mem_cons_self,
      ih fun d hd => h d (List.mem_cons_of_mem c hd)]

@[simp] theorem income_nil : income m ([] : List (Event τ)) = 0 := rfl

@[simp] theorem income_cons (e : Event τ) (es : List (Event τ)) :
    income m (e :: es) = e.income m + income m es := by
  simp [income]

@[simp] theorem income_append (es fs : List (Event τ)) :
    income m (es ++ fs) = income m es + income m fs := by
  simp [income]

@[simp] theorem income_stranded (vs : List View) :
    income m (vs.map Event.stranded : List (Event τ)) = 0 := by
  induction vs with
  | nil => rfl
  | cons v vs ih => simp only [List.map_cons, income_cons, ih, Event.income]

@[simp] theorem income_overdrawn (vs : List View) :
    income m (vs.map Event.overdrawn : List (Event τ)) = m.views vs := by
  induction vs with
  | nil => rfl
  | cons v vs ih => simp only [List.map_cons, income_cons, ih, Event.income, views_cons]

@[simp] theorem outgo_nil : outgo m ([] : List (Event τ)) = 0 := rfl

@[simp] theorem outgo_cons (e : Event τ) (es : List (Event τ)) :
    outgo m (e :: es) = e.outgo m + outgo m es := by
  simp [outgo]

@[simp] theorem outgo_append (es fs : List (Event τ)) :
    outgo m (es ++ fs) = outgo m es + outgo m fs := by
  simp [outgo]

@[simp] theorem outgo_stranded (vs : List View) :
    outgo m (vs.map Event.stranded : List (Event τ)) = m.views vs := by
  induction vs with
  | nil => rfl
  | cons v vs ih => simp only [List.map_cons, outgo_cons, ih, Event.outgo, views_cons]

@[simp] theorem outgo_overdrawn (vs : List View) :
    outgo m (vs.map Event.overdrawn : List (Event τ)) = 0 := by
  induction vs with
  | nil => rfl
  | cons v vs ih => simp only [List.map_cons, outgo_cons, ih, Event.outgo]

@[simp] theorem income_lost (j : Job τ) (cause : Cause) : income m (j.lost cause) = 0 := by
  simp [Job.lost, Event.income]

@[simp] theorem outgo_lost (j : Job τ) (cause : Cause) :
    outgo m (j.lost cause) = j.waiting m := by
  simp [Job.lost, Event.outgo, Job.waiting]

@[simp] theorem task_admittedBy (j : Job τ) (v : View) : (j.admittedBy v).task = j.task := rfl

theorem waiting_admittedBy (j : Job τ) (v : View) :
    (j.admittedBy v).waiting m = j.waiting m + m.admission v := by
  simp only [Job.waiting, Job.admittedBy, views_cons]
  omega

theorem gatesWeight_set {gs : List (Gate (Job τ))} {i : Nat} {x : Gate (Job τ)}
    (y : Gate (Job τ)) (h : gs[i]? = some x) :
    gatesWeight m (gs.set i y) + (x.queue.map (Job.waiting m)).sum =
      gatesWeight m gs + (y.queue.map (Job.waiting m)).sum :=
  sum_map_set _ y h

namespace Traffic

variable [Kinded τ]

/-! ## Performing chores -/

/-- What a pool holds. -/
def poolWeight (p : Pool (Job τ)) : Nat := p.holding (Job.waiting m) (Job.running m)

/-- The ledger of a deed: what was on its way and what came in is there afterwards or went out. -/
def DeedBalanced (s : Traffic τ) (c : Chore τ) (d : Deed τ) : Prop :=
  poolWeight m d.pool + gatesWeight m d.gates + choresWeight m d.todo + outgo m d.events =
    poolWeight m s.pool + gatesWeight m s.gates + c.weight m + income m d.events

omit [Kinded τ] in
/-- A turn that starts a task hands it from the queues to the worker and its thread. -/
theorem turn_weight (w : Nat) (cause : Cause) (t : Pool.Turn (Job τ)) :
    choresWeight m (turnChores w t) + outgo m (turnEvents cause t) +
        Worth (Job.running m) t.started =
      Worth (Job.waiting m) t.lifted + income m (turnEvents cause t) := by
  cases t with
  | runs j =>
    simp only [turnChores, turnEvents, Pool.Turn.started, Pool.Turn.lifted, choresWeight_cons,
      choresWeight_nil, outgo_cons, outgo_nil, income_cons, income_nil, Chore.weight, Event.outgo,
      Event.income, worth_some, Job.running, Job.waiting]
    omega
  | rests => rfl
  | leaves o =>
    cases o with
    | none => rfl
    | some j =>
      simp only [turnChores, turnEvents, Pool.Turn.started, Pool.Turn.lifted, choresWeight_nil,
        outgo_lost, income_lost, worth_some, worth_none]
      omega

omit [Kinded τ] in
theorem next_weight (vs : List View) (n : Nat) :
    choresWeight m ((vs[n]?).toList.map Chore.next : List (Chore τ)) = 0 := by
  refine choresWeight_eq_zero m fun c hc => ?_
  obtain ⟨v, -, rfl⟩ := List.mem_map.mp hc
  rfl

omit [Kinded τ] in
theorem take_add_drop (vs : List View) (n : Nat) :
    m.views (vs.take n) + m.views (vs.drop n) = m.views vs := by
  rw [← views_append, List.take_append_drop]

omit [Kinded τ] in
theorem Settling.weights {c : Chore τ} {v : View} {change : Gate (Job τ) → Gate (Job τ)}
    {es : List (Event τ)} (h : Settling c v change es) :
    outgo m es = c.weight m ∧ income m es = 0 ∧ ∀ x, (change x).queue = x.queue := by
  cases h with
  | next => exact ⟨rfl, rfl, fun _ => rfl⟩
  | release => exact ⟨rfl, rfl, fun _ => rfl⟩
  | raise => exact ⟨rfl, rfl, fun _ => rfl⟩

omit [Kinded τ] in
theorem deedBalanced_turn {s : Traffic τ} {w : Nat} {x : Worker (Job τ)} {j : Job τ}
    (hr : x.phase.task? = some j) (c : Chore τ) (hc : c.weight m = 0)
    {r : Pool.Turn (Job τ) × Pool (Job τ)} (cause : Cause) (outcome : Except Failure Unit)
    (h : Pool.TurnLaw (Job.waiting m) (Job.running m) s.pool x r) :
    DeedBalanced m s c
      { pool := r.2, gates := s.gates, todo := turnChores w r.1
        events := .ended j.task outcome :: turnEvents cause r.1 } := by
  have ht := turn_weight m w cause r.1
  unfold Pool.TurnLaw at h
  rw [hr] at h
  have hj : Worth (Job.running m) (some j) = m.task j.task + m.run j.task := rfl
  rw [hj] at h
  unfold DeedBalanced poolWeight
  simp only [outgo_cons, income_cons, Event.outgo, Event.income, hc]
  omega

/-- Every chore keeps the ledger balanced. -/
theorem deedBalanced {s : Traffic τ} {c : Chore τ} {d : Deed τ} (h : Performs s c d) :
    DeedBalanced m s c d := by
  unfold DeedBalanced poolWeight
  cases h with
  | idle =>
    simp only [idle, choresWeight_cons, choresWeight_nil, outgo_nil, income_nil]
    omega
  | accepted h =>
    have hp := Pool.holding_accept (Job.waiting m) (Job.running m) h
    simp only [choresWeight_nil, outgo_cons, outgo_nil, income_cons, income_nil, Event.outgo,
      Event.income, Chore.weight]
    omega
  | @placed _ _ w j x ho hw _ hs =>
    have hp := (Pool.holding_place (Job.waiting m) (Job.running m) j hw ho).2
    rw [hs] at hp
    simp only [worth_none] at hp
    simp only [choresWeight_nil, outgo_cons, outgo_nil, income_cons, income_nil, Event.outgo,
      Event.income, Chore.weight]
    omega
  | @displaced _ _ w j k x ho hw _ hs =>
    have hp := (Pool.holding_place (Job.waiting m) (Job.running m) j hw ho).2
    rw [hs] at hp
    simp only [worth_some] at hp
    simp only [choresWeight_cons, choresWeight_nil, outgo_nil, income_nil, Chore.weight]
    omega
  | refused =>
    simp only [refuse, choresWeight_releases, outgo_cons, outgo_nil, income_cons, income_nil,
      Event.outgo, Event.income, Chore.weight, Job.waiting]
    omega
  | @entered v j slot x hg _ =>
    have hs := gatesWeight_set m { x with running := x.running + 1 } hg
    simp only [choresWeight_cons, choresWeight_nil, outgo_cons, outgo_nil, income_cons, income_nil,
      Event.outgo, Event.income, Chore.weight, task_admittedBy,
      waiting_admittedBy] at hs ⊢
    omega
  | @waits v j slot x hg _ =>
    have hs := gatesWeight_set m { x with queue := x.queue ++ [j] } hg
    simp only [List.map_append, List.sum_append, List.map_cons, List.map_nil, List.sum_cons,
      List.sum_nil] at hs
    simp only [choresWeight_nil, outgo_cons, outgo_nil, income_cons, income_nil, Event.outgo,
      Event.income, Chore.weight]
    omega
  | requeued h =>
    have hp := Pool.holding_accept (Job.waiting m) (Job.running m) h
    simp only [choresWeight_nil, outgo_cons, outgo_nil, income_cons, income_nil, Event.outgo,
      Event.income, Chore.weight]
    omega
  | cut =>
    simp only [choresWeight_releases, List.cons_append, outgo_cons, outgo_append, outgo_lost,
      outgo_overdrawn, income_cons, income_append, income_lost, income_overdrawn, Event.outgo,
      Event.income, Chore.weight]
    omega
  | handed h =>
    have hp := Pool.holding_submitAccepted (Job.waiting m) (Job.running m) h
    simp only [taken, next_weight, outgo_nil, income_nil, Chore.weight]
    omega
  | @passed v j n x hg _ =>
    have hs := gatesWeight_set m { x with running := x.running + 1 } hg
    simp only [choresWeight_cons, choresWeight_nil, outgo_cons, outgo_nil, income_cons, income_nil,
      Event.outgo, Event.income, Chore.weight, waiting_admittedBy] at hs ⊢
    omega
  | @waitsAgain v j n x hg _ =>
    have hs := gatesWeight_set m { x with queue := x.queue ++ [j] } hg
    simp only [List.map_append, List.sum_append, List.map_cons, List.map_nil, List.sum_cons,
      List.sum_nil] at hs
    simp only [taken, next_weight, outgo_nil, income_nil, Chore.weight]
    omega
  | @discarded _ _ n j _ =>
    have ht := take_add_drop m j.views n
    simp only [discard, choresWeight_releases, outgo_cons, outgo_stranded, income_cons,
      income_stranded, Event.outgo, Event.income, Chore.weight, Job.waiting]
    omega
  | @settled c v change es x hc hg _ =>
    obtain ⟨ho, hi, hq⟩ := hc.weights m
    have hs := gatesWeight_set m (change x) hg
    rw [hq] at hs
    simp only [choresWeight_nil, ho, hi]
    omega
  | @admits c v change es x j rest hc hg hq _ =>
    obtain ⟨ho, hi, hc⟩ := hc.weights m
    have hs := gatesWeight_set m
      { change x with running := (change x).running + 1, queue := rest } hg
    rw [← hc x, hq] at hs
    simp only [List.map_cons, List.sum_cons] at hs
    simp only [choresWeight_cons, choresWeight_nil, outgo_append, outgo_cons, outgo_nil,
      income_append, income_cons, income_nil, Event.outgo, Event.income, Chore.weight,
      waiting_admittedBy, ho, hi]
    omega
  | missing hc _ =>
    obtain ⟨ho, hi, -⟩ := hc.weights m
    simp only [choresWeight_nil, ho, hi]
    omega
  | @lowered v x hg =>
    have hs := gatesWeight_set m x.lower hg
    change _ + _ = _ + (x.queue.map (Job.waiting m)).sum at hs
    simp only [choresWeight_nil, outgo_nil, income_nil, Chore.weight]
    omega
  | unlowered => rfl
  | raisedWorker w =>
    simp only [Pool.holding_raise, choresWeight_nil, outgo_nil, income_nil,
      Chore.weight]
  | loweredWorker w =>
    simp only [Pool.holding_lower, choresWeight_nil, outgo_nil, income_nil,
      Chore.weight]
  | flushed =>
    simp only [Pool.holding_flush, choresWeight_nil, outgo_nil, income_nil,
      Chore.weight]
  | unflushed w => rfl
  | unfinished => rfl
  | finished hw hr =>
    exact deedBalanced_turn m hr _ rfl .forced _ (Pool.turnLaw_finish _ _ hw _)
  | died hw hr =>
    exact deedBalanced_turn m hr _ rfl .died _ (Pool.turnLaw_die _ _ hw _)

/-! ## Acts -/

/-- What is on its way because of all threads. -/
def threadsWeight (ts : List (List (Chore τ))) : Nat := (ts.map (choresWeight m)).sum

omit [Kinded τ] in
theorem threadsWeight_set {ts : List (List (Chore τ))} {i : Nat} {cs : List (Chore τ)}
    (ds : List (Chore τ)) (h : ts[i]? = some cs) :
    threadsWeight m (ts.set i ds) + choresWeight m cs =
      threadsWeight m ts + choresWeight m ds :=
  sum_map_set _ ds h

omit [Kinded τ] in
@[simp] theorem threadsWeight_append (ts : List (List (Chore τ))) (cs : List (Chore τ)) :
    threadsWeight m (ts ++ [cs]) = threadsWeight m ts + choresWeight m cs := by
  simp [threadsWeight]

/-- All that is on its way somewhere. -/
def weight (s : Traffic τ) : Nat :=
  poolWeight m s.pool + gatesWeight m s.gates + threadsWeight m s.threads

/-- What came in is on its way or went out. -/
def Balanced (s : Traffic τ) : Prop := s.weight m + outgo m s.log = income m s.log

omit [Kinded τ] in
theorem raises_weight (s : Traffic τ) (w : Option Nat) (vs : List Nat) :
    choresWeight m (s.raises w vs) = 0 := by
  refine choresWeight_eq_zero m fun c hc => ?_
  rcases List.mem_append.mp hc with hc | hc <;> obtain ⟨v, -, rfl⟩ := List.mem_map.mp hc <;> rfl

omit [Kinded τ] in
theorem lowers_weight (s : Traffic τ) (w : Option Nat) (vs : List Nat) :
    choresWeight m (s.lowers w vs) = 0 := by
  refine choresWeight_eq_zero m fun c hc => ?_
  rcases List.mem_append.mp hc with hc | hc <;> obtain ⟨v, -, rfl⟩ := List.mem_map.mp hc <;> rfl

omit [Kinded τ] in
theorem lost_weight (js : List (Job τ)) (cause : Cause) :
    outgo m (js.flatMap fun j => j.lost cause) = (js.map (Job.waiting m)).sum ∧
      income m (js.flatMap fun j => j.lost cause) = 0 := by
  induction js with
  | nil => exact ⟨rfl, rfl⟩
  | cons j js ih =>
    simp only [List.flatMap_cons, outgo_append, income_append, outgo_lost, income_lost,
      List.map_cons, List.sum_cons, ih, Nat.add_zero, and_self]

omit [Kinded τ] in
/-- A free worker that has looked for a task. -/
theorem balanced_turn {s : Traffic τ} {w : Nat} {x : Worker (Job τ)} (h : s.Balanced m)
    (hx : x.phase.task? = none) {r : Pool.Turn (Job τ) × Pool (Job τ)}
    (hr : Pool.TurnLaw (Job.waiting m) (Job.running m) s.pool x r) :
    Balanced m { s with
      pool := r.2, threads := s.threads ++ [turnChores w r.1]
      log := s.log ++ turnEvents .forced r.1 } := by
  have ht := turn_weight m w .forced r.1
  unfold Pool.TurnLaw at hr
  rw [hx] at hr
  simp only [worth_none] at hr
  unfold Balanced weight poolWeight at h ⊢
  simp only [threadsWeight_append, outgo_append, income_append]
  omega

/-- Every act keeps the ledger balanced. -/
theorem balanced_step {s : Traffic τ} (h : s.Balanced m) (a : Act τ) :
    (s.step a).Balanced m := by
  have hs := steps s a
  generalize s.step a = s' at hs
  cases hs with
  | stays => exact h
  | built =>
    unfold Balanced weight at h ⊢
    simp only [gatesWeight, List.map_append, List.sum_append, List.map_cons, List.map_nil,
      List.sum_cons, List.sum_nil] at h ⊢
    omega
  | called =>
    unfold Balanced weight at h ⊢
    simp only [threadsWeight_append, choresWeight_cons, choresWeight_nil, outgo_append, outgo_cons,
      outgo_nil, income_append, income_cons, income_nil, Event.outgo, Event.income, Chore.weight,
      Job.waiting, views_nil]
    omega
  | @calledFrom i w n d t tail j rest hd hi =>
    have ht := threadsWeight_set m
      (.submit d { task := t } (if tail then some w else none) :: .body w j :: rest) hi
    unfold Balanced weight at h ⊢
    simp only [choresWeight_cons, Chore.weight, Job.waiting, views_nil] at ht
    simp only [outgo_append, outgo_cons, outgo_nil, income_append, income_cons, income_nil,
      Event.outgo, Event.income]
    omega
  | @flushes i w j rest hi =>
    have ht := threadsWeight_set m (.flush w :: .body w j :: rest) hi
    unfold Balanced weight at h ⊢
    simp only [choresWeight_cons, Chore.weight] at ht
    dsimp only
    omega
  | raised w vs =>
    unfold Balanced weight at h ⊢
    simp only [threadsWeight_append, raises_weight]
    omega
  | lowered w vs =>
    unfold Balanced weight at h ⊢
    simp only [threadsWeight_append, lowers_weight]
    omega
  | @ended i w j rest outcome fatal hi =>
    have ht := threadsWeight_set m
      (j.views.reverse.map .release ++ .finish w outcome fatal :: rest) hi
    unfold Balanced weight at h ⊢
    simp only [choresWeight_append, choresWeight_cons, choresWeight_releases, views_reverse,
      Chore.weight] at ht
    dsimp only
    omega
  | @barred i w j rest outcome fatal hi =>
    have ht := threadsWeight_set m (.finish w (.error .disconnected) fatal :: rest) hi
    unfold Balanced weight at h ⊢
    simp only [choresWeight_cons, Chore.weight] at ht
    simp only [outgo_append, outgo_stranded, income_append, income_stranded]
    omega
  | began hw hx =>
    refine balanced_turn m h ?_ (Pool.turnLaw_begin _ _ hw)
    rw [hx]
    rfl
  | resumed hw hx =>
    refine balanced_turn m h ?_ (Pool.turnLaw_resume _ _ hw _)
    rw [hx]
    rfl
  | @goes i c rest d hi hp =>
    have hd := deedBalanced m hp
    have ht := threadsWeight_set m (d.todo ++ rest) hi
    unfold DeedBalanced at hd
    unfold Balanced weight at h ⊢
    simp only [choresWeight_append, choresWeight_cons] at ht
    simp only [outgo_append, income_append]
    omega
  | closed =>
    unfold Balanced weight poolWeight at h ⊢
    simp only [Pool.holding_beginClose]
    exact h
  | terminated =>
    have hp := Pool.holding_terminate (Job.waiting m) (Job.running m) s.pool
    obtain ⟨ho, hi⟩ := lost_weight m s.pool.terminate.2.1 .forced
    unfold Balanced weight poolWeight at h ⊢
    simp only [outgo_append, income_append, ho, hi]
    omega

/-- In every run the ledger is balanced. -/
theorem balanced_run (c : Config) (as : List (Act τ)) : ((start c).run as).Balanced m := by
  have hstart : (start c : Traffic τ).Balanced m := by
    show poolWeight m (Pool.ofConfig c : Pool (Job τ)) + 0 + 0 + 0 = 0
    rw [poolWeight, Pool.holding_ofConfig]
  exact List.foldlRecOn (motive := Balanced m) as step hstart fun _ hs a _ => balanced_step m hs a

end Traffic

end Workforce
