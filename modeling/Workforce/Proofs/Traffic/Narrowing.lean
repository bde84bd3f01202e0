import Workforce.Proofs.Traffic.Nests

/-
  Narrowing. A pool is narrowed against its core size and a view against its first limit
  (`Dispatcher.nominal`), so limits applied one after the other come to their minimum, whatever
  their order: a limit that is not below what there is gives the same dispatcher, and a lower one a
  view with that limit. What a view tells of its parallelism is its present limit, which stands
  above its first one while compensation is outstanding. So the minimum of the parallelism and a
  limit comes out, except for limits from the first up to the present one: such a limit changes
  nothing, and the dispatcher goes on telling the higher number (`narrow_iff`).

  A dispatcher is followed through a run in which anything else happens between two narrowings
  (`Narrowing`).
-/

namespace Workforce

namespace Dispatcher

/-- How many tasks a dispatcher runs at a time while nothing is compensated. -/
def nominal : Dispatcher → Nat
  | pool _ core => core
  | view _ _ base _ => base

/-- The first limits from a dispatcher down to the core size of the pool. -/
def bounds : Dispatcher → List Nat
  | pool _ core => [core]
  | view _ _ base parent => base :: parent.bounds

variable {d : Dispatcher} {core n fresh : Nat} {ns : List Nat}

theorem head?_bounds (d : Dispatcher) : d.bounds.head? = some d.nominal := by
  cases d <;> rfl

/-- What narrowing comes to. -/
theorem narrow_eq (hd : d.isExclusive = false) (hn : 0 < n) (fresh : Nat) :
    d.narrow fresh n = .ok (if d.nominal ≤ n then d else .view fresh .soft n d) := by
  have hn : n ≠ 0 := Nat.ne_of_gt hn
  have hsoft : soft fresh d n = .ok (.view fresh .soft n d) := by simp [soft, hn, hd]
  cases d with
  | pool id core =>
    rw [narrow, if_neg hn, hsoft, nominal]
    split <;> rfl
  | view id mode base parent =>
    have hmode : mode ≠ .exclusive := by
      rintro rfl
      cases hd
    rw [narrow, if_neg hmode, if_neg hn, hsoft, nominal]
    split <;> rfl

theorem pos_of_narrow {d' : Dispatcher} (h : d.narrow fresh n = .ok d') : 0 < n := by
  refine Nat.pos_of_ne_zero ?_
  rintro rfl
  cases d with
  | pool id core => cases h
  | view id mode base parent =>
    cases mode with
    | soft => cases h
    | exclusive => cases h

/-- A dispatcher that comes from a pool of a core size by applying limits. -/
structure Narrowed (core : Nat) (ns : List Nat) (d : Dispatcher) : Prop where
  positive : ∀ m ∈ ns, 0 < m
  nominal : d.nominal = ns.foldl min core
  plain : d.isExclusive = false
  /-- First limits decrease from the pool outwards. -/
  slims : d.bounds.Pairwise (· < ·)

theorem narrowed_pool (id core : Nat) : Narrowed core [] (.pool id core) where
  positive := nofun
  nominal := rfl
  plain := rfl
  slims := List.pairwise_singleton _ core

theorem Narrowed.positive_concat (h : Narrowed core ns d) (hpos : 0 < n) :
    ∀ m ∈ ns ++ [n], 0 < m := by
  intro m hm
  obtain hm | hm := List.mem_append.mp hm
  · exact h.positive m hm
  · exact List.mem_singleton.mp hm ▸ hpos

theorem Narrowed.same (h : Narrowed core ns d) (hpos : 0 < n) (hn : d.nominal ≤ n) :
    Narrowed core (ns ++ [n]) d where
  positive := h.positive_concat hpos
  nominal := by
    rw [List.foldl_append, ← h.nominal]
    exact (Nat.min_eq_left hn).symm
  plain := h.plain
  slims := h.slims

theorem Narrowed.view (h : Narrowed core ns d) (hpos : 0 < n) (hn : n < d.nominal) :
    Narrowed core (ns ++ [n]) (.view fresh .soft n d) where
  positive := h.positive_concat hpos
  nominal := by
    rw [List.foldl_append, ← h.nominal]
    exact (Nat.min_eq_right (Nat.le_of_lt hn)).symm
  plain := rfl
  slims := by
    refine List.pairwise_cons.mpr ⟨fun b hb => ?_, h.slims⟩
    obtain ⟨rest, hr⟩ := List.head?_eq_some_iff.mp (head?_bounds d)
    have hslims := h.slims
    rw [hr] at hb hslims
    obtain rfl | hb := List.mem_cons.mp hb
    · exact hn
    · exact Nat.lt_trans hn ((List.pairwise_cons.mp hslims).1 b hb)

/-- The order in which limits are applied does not matter. -/
theorem Narrowed.nominal_of_perm (h : Narrowed core ns d) {ms : List Nat} (hp : ms.Perm ns) :
    d.nominal = ms.foldl min core := by
  rw [h.nominal]
  exact (hp.foldl_eq' (fun x _ y _ z => by omega) core).symm

/-- No limit applied so far is below what came of them. -/
theorem Narrowed.nominal_le (h : Narrowed core ns d) {m : Nat} (hm : m ∈ ns) : d.nominal ≤ m := by
  obtain ⟨l₁, l₂, rfl⟩ := List.append_of_mem hm
  rw [h.nominal_of_perm (List.perm_append_singleton m (l₁ ++ l₂) |>.trans List.perm_middle.symm),
    List.foldl_append]
  exact Nat.min_le_right _ _

end Dispatcher

/-! ## Narrowing in a run -/

namespace Guarded

variable {τ : Type}

/-- What a dispatcher tells of its parallelism. -/
def parallelism (s : Guarded τ) (d : Dispatcher) : Nat :=
  d.parallelism fun i => ((s.traffic.gates[i]?).map Gate.limit).getD 0

/-- Narrows the dispatcher with a number, and answers the number of what comes of it: the same one,
or that of a new view. -/
def narrow (s : Guarded τ) (i : Option Nat) (n : Nat) :
    Option (Except Failure (Option Nat) × Guarded τ) :=
  (s.traffic.dispatcher? i).map fun d =>
    match d.narrow s.traffic.gates.length n with
    | .error f => (.error f, s)
    | .ok d' =>
      if d' = d then (.ok i, s)
      else (.ok (some s.traffic.views.length), { s with traffic := s.traffic.addView d' })

variable {c : Config} {s s' : Guarded τ} {i j : Option Nat} {d d' : Dispatcher} {n : Nat}
  {ns : List Nat}

/-- A limit that is not below the first one changes nothing. -/
theorem narrow_same (hd : s.traffic.dispatcher? i = some d) (hx : d.isExclusive = false)
    (hpos : 0 < n) (hn : d.nominal ≤ n) : s.narrow i n = some (.ok i, s) := by
  simp [narrow, hd, Dispatcher.narrow_eq hx hpos, hn]

theorem view_ne {id base : Nat} {mode : Mode} : Dispatcher.view id mode base d ≠ d := by
  intro h
  have hsize := congrArg (fun d => d.views.length) h
  simp [Dispatcher.views] at hsize

/-- A lower limit gives a new view. -/
theorem narrow_view (hd : s.traffic.dispatcher? i = some d) (hx : d.isExclusive = false)
    (hpos : 0 < n) (hn : n < d.nominal) :
    s.narrow i n = some (.ok (some s.traffic.views.length), { s with
      traffic := s.traffic.addView (.view s.traffic.gates.length .soft n d) }) := by
  simp [narrow, hd, Dispatcher.narrow_eq hx hpos, Nat.not_le.mpr hn, view_ne]

theorem pos_of_narrow (hd : s.traffic.dispatcher? i = some d)
    (h : s.narrow i n = some (.ok j, s')) : 0 < n := by
  rw [narrow, hd, Option.map_some, Option.some.injEq] at h
  split at h
  case h_1 => cases h
  case h_2 d' hd' => exact Dispatcher.pos_of_narrow hd'

/-- The new view is found under its number. -/
theorem dispatcher?_addView (s : Guarded τ) (id n : Nat) (d : Dispatcher) :
    (s.traffic.addView (.view id .soft n d)).dispatcher? (some s.traffic.views.length) =
      some (.view id .soft n d) := by
  simp [Traffic.addView, Dispatcher.view?, Traffic.dispatcher?, View.toDispatcher]

theorem Even.core_eq (h : s.Even c) : s.traffic.pool.config.core = c.core := by
  obtain ⟨_, hs, -⟩ := h.stands
  rw [hs.pool.config]

/-- What a dispatcher tells of its parallelism is its first limit and how high its level stands. -/
theorem parallelism_of_stands {g : Level → Nat} (hc : s.traffic.Charted)
    (hs : s.traffic.Stands c g) (hd : s.traffic.dispatcher? i = some d) :
    s.parallelism d = d.nominal + (d.view?.elim 0 fun v => g (.view v.id)) := by
  cases i with
  | none =>
    cases hd
    rfl
  | some k =>
    obtain ⟨v, hv, rfl⟩ := Option.map_eq_some_iff.mp hd
    obtain ⟨x, hx, hl⟩ := hs.gates k v hv
    have hid : v.id = k := hc.numbered k v hv
    have hpar : s.parallelism v.toDispatcher = x.limit := by
      simp [parallelism, Dispatcher.parallelism, View.toDispatcher, hid, hx]
    rw [hpar, hl, View.view?_toDispatcher, Option.elim_some, hid]
    rfl

theorem Even.nominal_le (h : s.Even c) (hd : s.traffic.dispatcher? i = some d) :
    d.nominal ≤ s.parallelism d := by
  obtain ⟨g, hs, -⟩ := h.stands
  rw [parallelism_of_stands h.charted hs hd]
  exact Nat.le_add_right _ _

/-- A new view tells the limit that it was made with. -/
theorem parallelism_addView (s : Guarded τ) (n : Nat) (d : Dispatcher) :
    parallelism { s with traffic := s.traffic.addView (.view s.traffic.gates.length .soft n d) }
      (.view s.traffic.gates.length .soft n d) = n := by
  simp [parallelism, Dispatcher.parallelism, Traffic.addView, Dispatcher.view?]

variable [Kinded τ]

/-- Making a view of it is an act of its own. -/
theorem build_eq (hd : s.traffic.dispatcher? i = some d) (hx : d.isExclusive = false)
    (hpos : 0 < n) : s.step (.other (.build i .soft n)) = { s with
      traffic := s.traffic.addView (.view s.traffic.gates.length .soft n d) } := by
  simp [step, free, Traffic.step, hd, Dispatcher.soft, Nat.ne_of_gt hpos, hx]

/-! ## Runs -/

/-- After a run in which a pool was narrowed to a dispatcher by some limits, among anything
else. -/
inductive Narrowing (c : Config) : List Nat → Guarded τ → Option Nat → Prop where
  | start : Narrowing c [] (start c) none
  | step {ns : List Nat} {s : Guarded τ} {i : Option Nat} (h : Narrowing c ns s i) (a : Act τ) :
      Narrowing c ns (s.step a) i
  | narrow {ns : List Nat} {s s' : Guarded τ} {i j : Option Nat} {n : Nat}
      (h : Narrowing c ns s i) (hn : s.narrow i n = some (.ok j, s')) :
      Narrowing c (ns ++ [n]) s' j

/-- Views stay. -/
theorem views_step (s : Guarded τ) (a : Act τ) :
    s.traffic.views <+: (s.step a).traffic.views := by
  rcases s.traffic_step a with he | ⟨b, he⟩
  · exact he ▸ List.prefix_rfl
  · exact he ▸ Traffic.views_step _ b

/-- Dispatchers keep their numbers. -/
theorem dispatcher?_step (h : s.Even c) (hd : s.traffic.dispatcher? i = some d) (a : Act τ) :
    (s.step a).traffic.dispatcher? i = some d := by
  cases i with
  | none =>
    rw [Traffic.dispatcher?, (even_step h a).core_eq, ← h.core_eq]
    exact hd
  | some k =>
    obtain ⟨v, hv, rfl⟩ := Option.map_eq_some_iff.mp hd
    obtain ⟨vs, hvs⟩ := views_step s a
    obtain ⟨hlt, -⟩ := List.getElem?_eq_some_iff.mp hv
    rw [Traffic.dispatcher?, ← hvs, List.getElem?_append_left hlt, hv]
    rfl

theorem Narrowing.spec (h : Narrowing c ns s i) :
    s.Even c ∧ ∃ d, s.traffic.dispatcher? i = some d ∧ d.Narrowed c.core ns := by
  induction h with
  | start =>
    have heven : (Guarded.start c : Guarded τ).Even c := even_run c []
    refine ⟨heven, .pool 0 c.core, ?_, Dispatcher.narrowed_pool 0 c.core⟩
    rw [Traffic.dispatcher?, heven.core_eq]
  | step h a ih =>
    obtain ⟨heven, d, hd, hn⟩ := ih
    exact ⟨even_step heven a, d, dispatcher?_step heven hd a, hn⟩
  | @narrow ns s s' i j n h hj ih =>
    obtain ⟨heven, d, hd, hn⟩ := ih
    have hpos := pos_of_narrow hd hj
    obtain hlt | hle := Nat.lt_or_ge n d.nominal
    rotate_left
    · rw [narrow_same hd hn.plain hpos hle] at hj
      cases hj
      exact ⟨heven, d, hd, hn.same hpos hle⟩
    · rw [narrow_view hd hn.plain hpos hlt] at hj
      cases hj
      refine ⟨?_, _, dispatcher?_addView s _ n d, hn.view hpos hlt⟩
      rw [← build_eq hd hn.plain hpos]
      exact even_step heven _

/-! ## The law of the minimum -/

/-- What holds of a dispatcher that comes from a pool by applying limits. -/
structure Composed (c : Config) (ns : List Nat) (s : Guarded τ) (i : Option Nat)
    (d : Dispatcher) : Prop where
  /-- Without compensation it is as parallel as the least of the limits, whatever their order. -/
  nominal : ∀ ms : List Nat, ms.Perm ns → d.nominal = ms.foldl min c.core
  /-- Its first limits decrease from the pool outwards. -/
  slims : d.bounds.Pairwise (· < ·)
  /-- Limits that were applied give the same dispatcher again. -/
  repeats : ∀ n ∈ ns, s.narrow i n = some (.ok i, s)
  /-- Between compensator calls it tells how often it is raised for calls beyond that. -/
  tells : s.Between →
    s.parallelism d = d.nominal + (d.view?.elim 0 fun v => s.owed (.view v.id))

theorem Narrowing.composed (h : Narrowing c ns s i) :
    ∃ d, s.traffic.dispatcher? i = some d ∧ d.isExclusive = false ∧ Composed c ns s i d := by
  obtain ⟨heven, d, hd, hn⟩ := h.spec
  refine ⟨d, hd, hn.plain, fun ms => hn.nominal_of_perm, hn.slims, fun m hm => ?_, fun hb => ?_⟩
  · exact narrow_same hd hn.plain (hn.positive m hm) (hn.nominal_le hm)
  · exact parallelism_of_stands heven.charted (heven.stands_owed hb) hd

/-- Narrowing by a positive limit succeeds in every state of every run. It composes as a minimum of
first limits; the parallelism that dispatchers tell is the minimum as well if and only if the limit
is not one from the first limit of a view up to its present one, without that. -/
theorem narrow_iff (h : Narrowing c ns s i) (hpos : 0 < n) :
    ∃ d, s.traffic.dispatcher? i = some d ∧ Composed c ns s i d ∧
      ∃ j s' d', s.narrow i n = some (.ok j, s') ∧ s'.traffic.dispatcher? j = some d' ∧
        d'.nominal = min n d.nominal ∧
        (s'.parallelism d' = min n (s.parallelism d) ↔
          ¬(d.nominal ≤ n ∧ n < s.parallelism d)) := by
  obtain ⟨d, hd, hx, hcomposed⟩ := h.composed
  have hle := h.spec.1.nominal_le hd
  refine ⟨d, hd, hcomposed, ?_⟩
  obtain hlt | hge := Nat.lt_or_ge n d.nominal
  · refine ⟨_, _, _, narrow_view hd hx hpos hlt, dispatcher?_addView s _ n d, ?_, ?_⟩
    · exact (Nat.min_eq_left (Nat.le_of_lt hlt)).symm
    · rw [parallelism_addView]
      omega
  · refine ⟨i, s, d, narrow_same hd hx hpos hge, hd, ?_, ?_⟩
    · exact (Nat.min_eq_right hge).symm
    · omega

theorem Narrowing.run (h : Narrowing c ns s i) (as : List (Act τ)) : Narrowing c ns (s.run as) i :=
  List.foldlRecOn (motive := fun s => Narrowing c ns s i) as Guarded.step h fun _ h a _ => h.step a

/-- Settings for three workers. -/
def triple : Config := { core := 3, max := 3, keepAlive := ⟨60, 0⟩, threadName := "" }

/-- A task makes a guarded call, which raises the limit of its view from two to three. -/
def raisedInside : List (Act Nat) :=
  [.other (.call (some 0) 0), .other (.go 0), .other (.go 0), .other (.begin 0),
    .guard 1 true ⟨0, 0⟩, .move 0 .go, .move 0 .go, .other (.go 2), .other (.go 2)]

/-- A pool of three is narrowed to two, and a task of the view makes a guarded call. -/
def blockedInside : Guarded Nat :=
  (start triple).run (.other (.build none .soft 2) :: raisedInside)

theorem narrowing_blockedInside : Narrowing triple [2] blockedInside (some 0) := by
  have hfirst : (start triple : Guarded Nat).narrow none 2 =
      some (.ok (some 0), (start triple).step (.other (.build none .soft 2))) := rfl
  exact (Narrowing.start.narrow hfirst).run raisedInside

theorem dispatcher?_blockedInside :
    blockedInside.traffic.dispatcher? (some 0) = some (.view 0 .soft 2 (.pool 0 3)) := by decide

theorem parallelism_blockedInside :
    blockedInside.parallelism (.view 0 .soft 2 (.pool 0 3)) = 3 := by decide

/-- Such a view, which tells three, is narrowed to one. -/
theorem narrow_iff_blockedInside : ∃ j s' d', blockedInside.narrow (some 0) 1 = some (.ok j, s') ∧
    s'.traffic.dispatcher? j = some d' ∧ d'.nominal = 1 ∧ s'.parallelism d' = 1 := by
  obtain ⟨d, hd, -, j, s', d', hj, hd', hnominal, hlaw⟩ :=
    narrow_iff narrowing_blockedInside (n := 1) (by decide)
  obtain rfl : Dispatcher.view 0 .soft 2 (.pool 0 3) = d := by
    simpa [dispatcher?_blockedInside] using hd
  rw [parallelism_blockedInside] at hlaw
  exact ⟨j, s', d', hj, hd', hnominal, hlaw.mpr (by decide)⟩

/-- A view of two that tells three is narrowed to two, and tells three after that. -/
theorem narrow_not_min : Narrowing triple [2] blockedInside (some 0) ∧
    blockedInside.traffic.dispatcher? (some 0) = some (.view 0 .soft 2 (.pool 0 3)) ∧
    blockedInside.narrow (some 0) 2 = some (.ok (some 0), blockedInside) ∧
    blockedInside.parallelism (.view 0 .soft 2 (.pool 0 3)) ≠
      min 2 (blockedInside.parallelism (.view 0 .soft 2 (.pool 0 3))) := by
  refine ⟨narrowing_blockedInside, dispatcher?_blockedInside, ?_, ?_⟩
  · exact narrow_same dispatcher?_blockedInside rfl (by decide) (by decide)
  · rw [parallelism_blockedInside]
    decide

end Guarded

end Workforce
