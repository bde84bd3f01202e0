import Mathlib.Data.List.Induction
import Workforce.Proofs.Traffic.Conservation

/-
  The gates of a traffic. A chore touches one gate at most (`touches`). A task waits at a gate
  only while the gate is full (`settled_run`). What a gate counts as running is what it admitted
  and did not get back (`tallied_run`), as long as no more admissions were given back whose tasks
  were kept than were lost with their tasks.
-/

namespace Workforce

variable {τ : Type}

/-! ## Events at a gate -/

namespace Event

def isAdmission (i : Nat) : Event τ → Bool
  | admitted v => v.id = i
  | _ => false

def isRelease (i : Nat) : Event τ → Bool
  | released v => v.id = i
  | _ => false

def isStranding (i : Nat) : Event τ → Bool
  | stranded v => v.id = i
  | _ => false

def isOverdraft (i : Nat) : Event τ → Bool
  | overdrawn v => v.id = i
  | _ => false

/-- An admission is counted or given back. -/
def atGate : Event τ → Bool
  | admitted _ => true
  | released _ => true
  | _ => false

end Event

/-- The weights that count the admissions of one gate. -/
def Weights.ofGate (i : Nat) : Weights τ := { admission := fun v => if v.id = i then 1 else 0 }

namespace Traffic

/-- How often a gate admitted a task, got an admission back, and lost one. -/
def admissions (s : Traffic τ) (i : Nat) : Nat := s.log.countP (Event.isAdmission i)

def releases (s : Traffic τ) (i : Nat) : Nat := s.log.countP (Event.isRelease i)

def strandings (s : Traffic τ) (i : Nat) : Nat := s.log.countP (Event.isStranding i)

def overdrafts (s : Traffic τ) (i : Nat) : Nat := s.log.countP (Event.isOverdraft i)

theorem income_ofGate (i : Nat) (es : List (Event τ)) :
    income (Weights.ofGate i) es =
      es.countP (Event.isAdmission i) + es.countP (Event.isOverdraft i) := by
  have he : Event.income (Weights.ofGate (τ := τ) i) = fun e =>
      (if Event.isAdmission i e = true then 1 else 0) +
        (if Event.isOverdraft i e = true then 1 else 0) := by
    funext e
    cases e <;> simp [Event.income, Event.isAdmission, Event.isOverdraft, Weights.ofGate]
  unfold income
  rw [he, List.sum_map_add, sum_map_ite, sum_map_ite]
  simp

theorem outgo_ofGate (i : Nat) (es : List (Event τ)) :
    outgo (Weights.ofGate i) es =
      es.countP (Event.isRelease i) + es.countP (Event.isStranding i) := by
  have he : Event.outgo (Weights.ofGate (τ := τ) i) = fun e =>
      (if Event.isRelease i e = true then 1 else 0) +
        (if Event.isStranding i e = true then 1 else 0) := by
    funext e
    cases e <;> simp [Event.outgo, Event.isRelease, Event.isStranding, Weights.ofGate]
  unfold outgo
  rw [he, List.sum_map_add, sum_map_ite, sum_map_ite]
  simp

variable [Kinded τ]

omit [Kinded τ] in
/-- The ledger of one gate. -/
theorem balanced_ofGate {s : Traffic τ} {i : Nat} (h : s.Balanced (Weights.ofGate i)) :
    s.weight (Weights.ofGate i) + s.releases i + s.strandings i =
      s.admissions i + s.overdrafts i := by
  unfold Balanced at h
  rw [income_ofGate, outgo_ofGate] at h
  unfold releases strandings admissions overdrafts
  omega

/-! ## The gate that a chore touches -/

/-- What a chore does to gates and logs about them. -/
inductive Touches (s : Traffic τ) (c : Chore τ) : List (Gate (Job τ)) → List (Event τ) → Prop where
  | nothing {es : List (Event τ)} (he : ∀ e ∈ es, e.atGate = false) : Touches s c s.gates es
  | missing {v : View} (hc : c = .release v) (hg : s.gates[v.id]? = none) :
      Touches s c s.gates [.released v]
  | one {v : View} {x y : Gate (Job τ)} {es : List (Event τ)} (hg : s.gates[v.id]? = some x)
      (hs : x.Settled → y.Settled)
      (he : ∀ e ∈ es, e.atGate = true → e = .admitted v ∨ e = .released v)
      (ht : (c = .release v → 0 < x.running) →
        y.running + es.countP (Event.isRelease v.id) =
          x.running + es.countP (Event.isAdmission v.id)) :
      Touches s c (s.gates.set v.id y) es

omit [Kinded τ] in
theorem atGate_lost (j : Job τ) (cause : Cause) : ∀ e ∈ j.lost cause, e.atGate = false := by
  intro e he
  rcases List.mem_cons.mp he with rfl | he
  · rfl
  · obtain ⟨v, -, rfl⟩ := List.mem_map.mp he
    rfl

omit [Kinded τ] in
theorem atGate_turn (cause : Cause) (r : Pool.Turn (Job τ)) :
    ∀ e ∈ turnEvents cause r, e.atGate = false := by
  cases r with
  | runs j => simp [turnEvents, Event.atGate]
  | rests => simp [turnEvents]
  | leaves o =>
    cases o with
    | none => simp [turnEvents]
    | some j => exact atGate_lost j cause

omit [Kinded τ] in
theorem touches_entered {s : Traffic τ} {c : Chore τ} {v : View} {x : Gate (Job τ)}
    (hg : s.gates[v.id]? = some x) :
    Touches s c (s.gates.set v.id { x with running := x.running + 1 }) [.admitted v] := by
  refine .one hg (fun hs hq => Nat.le_succ_of_le (hs hq)) (by simp) fun _ => ?_
  simp [Event.isAdmission, Event.isRelease]

omit [Kinded τ] in
theorem touches_waits {s : Traffic τ} {c : Chore τ} {v : View} {x : Gate (Job τ)} {j : Job τ}
    {es : List (Event τ)} (hg : s.gates[v.id]? = some x) (h : x.limit ≤ x.running)
    (he : es = [] ∨ es = [.accepted j.task]) :
    Touches s c (s.gates.set v.id { x with queue := x.queue ++ [j] }) es := by
  rcases he with rfl | rfl
  · exact .one hg (fun _ _ => h) (by simp) fun _ => rfl
  · exact .one hg (fun _ _ => h) (by simp [Event.atGate]) fun _ => rfl

omit [Kinded τ] in
theorem touches_settled {s : Traffic τ} {c : Chore τ} {v : View}
    {change : Gate (Job τ) → Gate (Job τ)} {es : List (Event τ)} (hc : Settling c v change es)
    {x : Gate (Job τ)} (hg : s.gates[v.id]? = some x) (h : (change x).Settled) :
    Touches s c (s.gates.set v.id (change x)) es := by
  refine .one hg (fun _ => h) ?_ fun hr => ?_
  · cases hc <;> simp
  · cases hc with
    | next => rfl
    | release =>
      have hpos := hr rfl
      have hcount : [(Event.released v : Event τ)].countP (Event.isRelease v.id) = 1 ∧
          [(Event.released v : Event τ)].countP (Event.isAdmission v.id) = 0 := by
        simp [Event.isAdmission, Event.isRelease]
      rw [hcount.1, hcount.2]
      show x.running - 1 + 1 = _
      omega
    | raise => rfl

omit [Kinded τ] in
theorem touches_admits {s : Traffic τ} {c : Chore τ} {v : View}
    {change : Gate (Job τ) → Gate (Job τ)} {es : List (Event τ)} (hc : Settling c v change es)
    {x : Gate (Job τ)} (hg : s.gates[v.id]? = some x) {j : Job τ} {rest : List (Job τ)}
    (hq : (change x).queue = j :: rest) :
    Touches s c
      (s.gates.set v.id { change x with running := (change x).running + 1, queue := rest })
      (es ++ [.admitted v]) := by
  have hx : x.queue ≠ [] := by
    have hne : (change x).queue ≠ [] := by simp [hq]
    cases hc <;> exact hne
  refine .one hg (fun hs _ => ?_) ?_ fun hr => ?_
  · -- the gate was full before, so the change made one place at most
    have hle := hs hx
    cases hc with
    | next => exact Nat.le_succ_of_le hle
    | release =>
      show x.limit ≤ x.running - 1 + 1
      omega
    | raise => exact Nat.succ_le_succ hle
  · cases hc <;> simp
  · cases hc with
    | next => simp [Event.isAdmission, Event.isRelease]
    | release =>
      have hpos := hr rfl
      have hcount : [Event.released v, (.admitted v : Event τ)].countP (Event.isRelease v.id) = 1 ∧
          [Event.released v, (.admitted v : Event τ)].countP (Event.isAdmission v.id) = 1 := by
        simp [Event.isAdmission, Event.isRelease]
      show x.running - 1 + 1 + [Event.released v, .admitted v].countP _ = _ +
        [Event.released v, .admitted v].countP _
      rw [hcount.1, hcount.2]
      omega
    | raise => simp [Gate.raise, Event.isAdmission, Event.isRelease]

/-- A chore touches one gate at most. -/
theorem touches {s : Traffic τ} {c : Chore τ} {d : Deed τ} (hp : Performs s c d) :
    Touches s c d.gates d.events := by
  cases hp with
  | entered hg _ => exact touches_entered hg
  | passed hg _ => exact touches_entered hg
  | waits hg h => exact touches_waits hg h (Or.inr rfl)
  | @waitsAgain v j n x hg h => exact touches_waits (j := j) hg h (Or.inl rfl)
  | settled hc hg h => exact touches_settled hc hg h
  | admits hc hg hq _ => exact touches_admits hc hg hq
  | missing hc hg =>
    cases hc with
    | next => exact .nothing (by simp)
    | release => exact .missing rfl hg
    | raise => exact .nothing (by simp)
  | lowered hg =>
    refine .one hg (fun hs hq => ?_) (by simp) fun _ => rfl
    exact Nat.le_trans (Nat.sub_le ..) (hs hq)
  | idle => exact .nothing (by simp [Traffic.idle])
  | accepted => exact .nothing (by simp [Event.atGate])
  | placed => exact .nothing (by simp [Event.atGate])
  | displaced => exact .nothing (by simp)
  | refused => exact .nothing (by simp [refuse, Event.atGate])
  | requeued => exact .nothing (by simp [Event.atGate])
  | @cut k j _ =>
    refine .nothing fun e he => ?_
    rcases List.mem_append.mp he with he | he
    · rcases List.mem_cons.mp he with rfl | he
      · rfl
      · exact atGate_lost k .cut e he
    · obtain ⟨v, -, rfl⟩ := List.mem_map.mp he
      rfl
  | handed => exact .nothing (by simp [taken])
  | discarded =>
    refine .nothing fun e he => ?_
    rcases List.mem_cons.mp he with rfl | he
    · rfl
    · obtain ⟨v, -, rfl⟩ := List.mem_map.mp he
      rfl
  | unlowered => exact .nothing (by simp)
  | raisedWorker => exact .nothing (by simp)
  | loweredWorker => exact .nothing (by simp)
  | flushed => exact .nothing (by simp)
  | unflushed => exact .nothing (by simp)
  | unfinished => exact .nothing (by simp)
  | finished =>
    refine .nothing fun e he => ?_
    rcases List.mem_cons.mp he with rfl | he
    · rfl
    · exact atGate_turn .forced _ e he
  | died =>
    refine .nothing fun e he => ?_
    rcases List.mem_cons.mp he with rfl | he
    · rfl
    · exact atGate_turn .died _ e he

/-- An act makes a gate, performs a chore, or leaves the gates alone. -/
theorem Steps.gates {s s' : Traffic τ} {a : Act τ} (h : Steps s a s') :
    (s'.gates = s.gates ∧ ∃ es, s'.log = s.log ++ es ∧ ∀ e ∈ es, e.atGate = false) ∨
    (∃ base, s'.gates = s.gates ++ [{ limit := base }] ∧ s'.log = s.log) ∨
    (∃ (i : Nat) (c : Chore τ) (rest : List (Chore τ)), s.threads[i]? = some (c :: rest) ∧
      ∃ es, s'.log = s.log ++ es ∧ Touches s c s'.gates es) := by
  have hnil : s.log = s.log ++ [] := (List.append_nil _).symm
  cases h with
  | stays => exact Or.inl ⟨rfl, [], hnil, by simp⟩
  | built => exact Or.inr (Or.inl ⟨_, rfl, rfl⟩)
  | called => exact Or.inl ⟨rfl, _, rfl, by simp [Event.atGate]⟩
  | calledFrom => exact Or.inl ⟨rfl, _, rfl, by simp [Event.atGate]⟩
  | flushes => exact Or.inl ⟨rfl, [], hnil, by simp⟩
  | raised => exact Or.inl ⟨rfl, [], hnil, by simp⟩
  | lowered => exact Or.inl ⟨rfl, [], hnil, by simp⟩
  | ended => exact Or.inl ⟨rfl, [], hnil, by simp⟩
  | barred =>
    refine Or.inl ⟨rfl, _, rfl, fun e he => ?_⟩
    obtain ⟨v, -, rfl⟩ := List.mem_map.mp he
    rfl
  | began => exact Or.inl ⟨rfl, _, rfl, atGate_turn .forced _⟩
  | resumed => exact Or.inl ⟨rfl, _, rfl, atGate_turn .forced _⟩
  | @goes i c rest d hi hp => exact Or.inr (Or.inr ⟨i, c, rest, hi, d.events, rfl, touches hp⟩)
  | closed => exact Or.inl ⟨rfl, [], hnil, by simp⟩
  | terminated =>
    refine Or.inl ⟨rfl, _, rfl, fun e he => ?_⟩
    obtain ⟨j, -, he⟩ := List.mem_flatMap.mp he
    exact atGate_lost j .forced e he

/-- The log only grows. -/
theorem log_prefix_step (s : Traffic τ) (a : Act τ) : s.log <+: (s.step a).log := by
  rcases (steps s a).gates with ⟨-, es, hl, -⟩ | ⟨-, -, hl⟩ | ⟨-, -, -, -, es, hl, -⟩
  · exact ⟨es, hl.symm⟩
  · exact ⟨[], by rw [hl, List.append_nil]⟩
  · exact ⟨es, hl.symm⟩

/-! ## Waiting at gates -/

/-- Tasks wait at full gates only. -/
def Settled (s : Traffic τ) : Prop := ∀ x ∈ s.gates, x.Settled

omit [Kinded τ] in
theorem Touches.settled {s : Traffic τ} {c : Chore τ} {gs : List (Gate (Job τ))}
    {es : List (Event τ)} (ht : Touches s c gs es) (h : s.Settled) : ∀ x ∈ gs, x.Settled := by
  cases ht with
  | nothing => exact h
  | missing => exact h
  | one hg hs =>
    intro x hx
    rcases List.mem_or_eq_of_mem_set hx with hx | rfl
    · exact h x hx
    · exact hs (h _ (List.mem_of_getElem? hg))

theorem settled_step {s : Traffic τ} (h : s.Settled) (a : Act τ) : (s.step a).Settled := by
  rcases (steps s a).gates with ⟨hg, -⟩ | ⟨base, hg, -⟩ | ⟨-, c, -, -, es, -, ht⟩
  · unfold Settled
    rw [hg]
    exact h
  · intro x hx
    rw [hg] at hx
    rcases List.mem_append.mp hx with hx | hx
    · exact h x hx
    · rw [List.mem_singleton.mp hx]
      exact fun hn => absurd rfl hn
  · exact ht.settled h

/-- In every run tasks wait at full gates only. -/
theorem settled_run (c : Config) (as : List (Act τ)) : ((start c).run as).Settled := by
  have hs : (start c : Traffic τ).Settled := by
    intro x hx
    cases hx
  exact List.foldlRecOn (motive := Settled) as step hs fun _ hs a _ => settled_step hs a

/-! ## Tallies -/

/-- A gate counts as running what it admitted and did not get back. -/
structure Tallied (s : Traffic τ) (i : Nat) : Prop where
  known : 0 < s.admissions i → i < s.gates.length
  running : ∀ x, s.gates[i]? = some x → x.running + s.releases i = s.admissions i

/-- A view was not overdrawn by more than was stranded with it. -/
def Covered (s : Traffic τ) (i : Nat) : Prop := s.overdrafts i ≤ s.strandings i

omit [Kinded τ] in
/-- A gate without admissions is not known by number yet. -/
theorem Tallied.admissions_eq_zero {s : Traffic τ} {i : Nat} (h : s.Tallied i)
    (hi : s.gates.length ≤ i) : s.admissions i = 0 :=
  Nat.eq_zero_of_not_pos fun hpos => Nat.not_lt.mpr hi (h.known hpos)

omit [Kinded τ] in
theorem countP_eq_zero_of_atGate {es : List (Event τ)} (h : ∀ e ∈ es, e.atGate = false) (i : Nat) :
    es.countP (Event.isAdmission i) = 0 ∧ es.countP (Event.isRelease i) = 0 := by
  constructor <;> rw [List.countP_eq_zero] <;> intro e he hi
  · have hq := h e he
    cases e <;> simp [Event.atGate, Event.isAdmission] at hq hi
  · have hq := h e he
    cases e <;> simp [Event.atGate, Event.isRelease] at hq hi

omit [Kinded τ] in
/-- What happens at a gate is not counted at others. -/
theorem countP_eq_zero_of_ne {es : List (Event τ)} {v : View}
    (h : ∀ e ∈ es, e.atGate = true → e = .admitted v ∨ e = .released v) {i : Nat} (hi : v.id ≠ i) :
    es.countP (Event.isAdmission i) = 0 ∧ es.countP (Event.isRelease i) = 0 := by
  constructor
  · rw [List.countP_eq_zero]
    intro e hm hei
    cases e with
    | admitted u =>
      rcases h _ hm rfl with hu | hu
      · cases hu
        simp [Event.isAdmission, hi] at hei
      · cases hu
    | _ => cases hei
  · rw [List.countP_eq_zero]
    intro e hm hei
    cases e with
    | released u =>
      rcases h _ hm rfl with hu | hu
      · cases hu
      · cases hu
        simp [Event.isRelease, hi] at hei
    | _ => cases hei

omit [Kinded τ] in
/-- The admission that a thread is about to give back is out. -/
theorem weight_pos_of_release {s : Traffic τ} {k : Nat} {v : View} {rest : List (Chore τ)}
    (h : s.threads[k]? = some (.release v :: rest)) :
    0 < s.weight (Weights.ofGate v.id) := by
  have ht := threadsWeight_set (Weights.ofGate v.id) [] h
  have hw : Chore.weight (Weights.ofGate v.id) (.release v : Chore τ) = 1 := by
    simp [Chore.weight, Weights.ofGate]
  simp only [choresWeight_cons, choresWeight_nil, hw] at ht
  unfold weight
  omega

omit [Kinded τ] in
/-- A gate counts the jobs that passed it and are still on their way, with the admissions that were
stranded, and without those overdrawn. -/
theorem Tallied.running_add {s : Traffic τ} {i : Nat} (h : s.Tallied i)
    (hb : s.Balanced (Weights.ofGate i)) {x : Gate (Job τ)} (hx : s.gates[i]? = some x) :
    x.running + s.overdrafts i = s.weight (Weights.ofGate i) + s.strandings i := by
  have hrun := h.running x hx
  have hbal := balanced_ofGate hb
  omega

omit [Kinded τ] in
/-- A gate that is about to get an admission back counts it. -/
theorem Tallied.running_pos {s : Traffic τ} {v : View} (h : s.Tallied v.id)
    (hb : s.Balanced (Weights.ofGate v.id)) (hc : s.Covered v.id) {k : Nat}
    {rest : List (Chore τ)} (hk : s.threads[k]? = some (.release v :: rest)) {x : Gate (Job τ)}
    (hx : s.gates[v.id]? = some x) : 0 < x.running := by
  have hw := weight_pos_of_release hk
  have hrun := h.running_add hb hx
  unfold Covered at hc
  omega

omit [Kinded τ] in
/-- The gate stays, and what is logged is not about it. -/
theorem Tallied.same {s s' : Traffic τ} {i : Nat} (h : s.Tallied i)
    (hg : s'.gates[i]? = s.gates[i]?) (hlen : s'.gates.length = s.gates.length)
    {es : List (Event τ)} (hl : s'.log = s.log ++ es)
    (ha : es.countP (Event.isAdmission i) = 0) (hr : es.countP (Event.isRelease i) = 0) :
    s'.Tallied i := by
  have hadm : s'.admissions i = s.admissions i := by
    unfold admissions
    rw [hl, List.countP_append, ha, Nat.add_zero]
  have hrel : s'.releases i = s.releases i := by
    unfold releases
    rw [hl, List.countP_append, hr, Nat.add_zero]
  refine ⟨fun hpos => ?_, fun x hx => ?_⟩
  · rw [hadm] at hpos
    rw [hlen]
    exact h.known hpos
  · rw [hg] at hx
    rw [hadm, hrel]
    exact h.running x hx

omit [Kinded τ] in
/-- A new gate. -/
theorem Tallied.built {s s' : Traffic τ} {i : Nat} (h : s.Tallied i)
    (hb : s.Balanced (Weights.ofGate i)) (hc : s.Covered i) {base : Nat}
    (hg : s'.gates = s.gates ++ [{ limit := base }]) (hl : s'.log = s.log) : s'.Tallied i := by
  have hadm : s'.admissions i = s.admissions i := by rw [admissions, hl, admissions]
  have hrel : s'.releases i = s.releases i := by rw [releases, hl, releases]
  refine ⟨fun hpos => ?_, fun x hx => ?_⟩
  · rw [hadm] at hpos
    rw [hg, List.length_append]
    exact Nat.lt_add_right _ (h.known hpos)
  · rw [hg] at hx
    rw [hadm, hrel]
    rcases getElem?_concat_cases hx with hx | ⟨rfl, rfl⟩
    · exact h.running x hx
    · -- nothing is known of the gate before, so nothing came back to it either
      have hz := h.admissions_eq_zero (Nat.le_refl _)
      have hbal := balanced_ofGate hb
      unfold Covered at hc
      show 0 + s.releases s.gates.length = s.admissions s.gates.length
      omega

omit [Kinded τ] in
/-- A chore at the head of a thread was performed. -/
theorem Tallied.touched {s s' : Traffic τ} {i : Nat} (h : s.Tallied i)
    (hb : s.Balanced (Weights.ofGate i)) (hcov : s.Covered i) {k : Nat} {c : Chore τ}
    {rest : List (Chore τ)} (hk : s.threads[k]? = some (c :: rest)) {es : List (Event τ)}
    (hl : s'.log = s.log ++ es) (ht : Touches s c s'.gates es) : s'.Tallied i := by
  generalize hgs : s'.gates = gs at ht
  cases ht with
  | nothing he =>
    obtain ⟨ha, hr⟩ := countP_eq_zero_of_atGate he i
    exact h.same (by rw [hgs]) (by rw [hgs]) hl ha hr
  | @missing v hc hg =>
    have hlen : s.gates.length ≤ v.id := List.getElem?_eq_none_iff.mp hg
    by_cases hi : i < s.gates.length
    · have hv : v.id ≠ i := by omega
      refine h.same (by rw [hgs]) (by rw [hgs]) hl ?_ ?_
      · simp [Event.isAdmission]
      · simp [Event.isRelease, hv]
    · refine ⟨fun hpos => ?_, fun x hx => ?_⟩
      · have hadm : s'.admissions i = s.admissions i := by
          simp [admissions, hl, Event.isAdmission]
        rw [hadm] at hpos
        exact absurd (h.known hpos) hi
      · rw [hgs, List.getElem?_eq_none_iff.mpr (Nat.le_of_not_lt hi)] at hx
        cases hx
  | @one v x y es hg _ he ht =>
    by_cases hi : v.id = i
    · subst hi
      obtain ⟨hlt, -⟩ := List.getElem?_eq_some_iff.mp hg
      refine ⟨fun _ => ?_, fun z hz => ?_⟩
      · rw [hgs, List.length_set]
        exact hlt
      · rw [hgs, List.getElem?_set_self hlt] at hz
        cases hz
        have hrun := h.running x hg
        have hy := ht fun hc => h.running_pos hb hcov (hc ▸ hk) hg
        unfold releases admissions at hrun ⊢
        rw [hl, List.countP_append, List.countP_append]
        omega
    · obtain ⟨ha, hr⟩ := countP_eq_zero_of_ne he hi
      refine h.same ?_ ?_ hl ha hr
      · rw [hgs, List.getElem?_set_ne hi]
      · rw [hgs, List.length_set]

theorem tallied_step {s : Traffic τ} {i : Nat} (h : s.Tallied i)
    (hb : s.Balanced (Weights.ofGate i)) (hc : s.Covered i) (a : Act τ) : (s.step a).Tallied i := by
  rcases (steps s a).gates with ⟨hg, es, hl, he⟩ | ⟨base, hg, hl⟩ | ⟨k, c, rest, hk, es, hl, ht⟩
  · obtain ⟨ha, hr⟩ := countP_eq_zero_of_atGate he i
    exact h.same (by rw [hg]) (by rw [hg]) hl ha hr
  · exact h.built hb hc hg hl
  · exact h.touched hb hc hk hl ht

/-- In every run a gate counts what it admitted, one act further than overdrafts are known to be
covered. -/
theorem tallied_run (c : Config) {as : List (Act τ)} {i : Nat}
    (hc : ∀ us a, us ++ [a] <+: as → ((start c).run us).Covered i) :
    ((start c).run as).Tallied i := by
  -- induction on the number of acts
  induction as using List.reverseRecOn with
  | nil => exact ⟨fun hpos => absurd hpos (Nat.lt_irrefl 0), fun x hx => nomatch hx⟩
  | append_singleton as a ih =>
    rw [run_concat]
    have hi := ih fun us b hu => hc us b (hu.trans (List.prefix_append as [a]))
    exact tallied_step hi (balanced_run _ c as) (hc as a (List.prefix_refl _)) a

end Traffic

end Workforce
