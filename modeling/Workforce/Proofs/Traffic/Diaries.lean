import Workforce.Proofs.Gate.Order
import Workforce.Proofs.Traffic.Performs

/-
  The gates of a traffic keep diaries. A chore is one section of the gate that it concerns and no
  section of any other, so a gate is at every moment where the sections of the chores performed so
  far lead it (`follows_run`). What holds of a diary therefore holds of the gates of a pool's
  views, whatever threads do (`waiting_run`).
-/

namespace Workforce

open Gate (Section Diary)

variable {τ : Type}

/-- The section of a gate that a chore is, if it is one. -/
def Chore.sections (closed : Bool) (i : Nat) : Chore τ → List (Section (Job τ))
  | .submit (.view id ..) j _ => if id = i then [.submit closed j] else []
  | .forward (.view id ..) j _ => if id = i then [.forward j] else []
  | .next v => if v.id = i then [.next] else []
  | .release v => if v.id = i then [.release] else []
  | .raise v => if v.id = i then [.raise] else []
  | .lower v => if v.id = i then [.lower] else []
  | _ => []

/-- A chore is one section of a gate at most, and gives a place back as a release only. -/
theorem Chore.sections_cases (closed : Bool) (i : Nat) (c : Chore τ) :
    c.sections closed i = [] ∨ ∃ t, c.sections closed i = [t] ∧
      (t = .release → ∃ v, c = .release v ∧ v.id = i) := by
  have hif {p : Prop} [Decidable p] {t : Section (Job τ)}
      (ht : p → t = .release → ∃ v, c = .release v ∧ v.id = i) :
      (if p then [t] else []) = [] ∨ ∃ u, (if p then [t] else []) = [u] ∧
        (u = .release → ∃ v, c = .release v ∧ v.id = i) := by
    by_cases hp : p
    · exact .inr ⟨t, if_pos hp, ht hp⟩
    · exact .inl (if_neg hp)
  cases c with
  | submit d j slot =>
    cases d with
    | pool => exact .inl rfl
    | view => exact hif nofun
  | forward d j n =>
    cases d with
    | pool => exact .inl rfl
    | view => exact hif nofun
  | next v => exact hif nofun
  | release v => exact hif fun hv _ => ⟨v, rfl, hv⟩
  | raise v => exact hif nofun
  | lower v => exact hif nofun
  | _ => exact .inl rfl

namespace Traffic

/-- The section of a gate that an act performs. -/
def sections (s : Traffic τ) (i : Nat) : Act τ → List (Section (Job τ))
  | .go k =>
    match s.threads[k]? with
    | some (c :: _) => c.sections s.pool.closed i
    | _ => []
  | _ => []

variable [Kinded τ]

/-- The sections of a gate that a run performs. -/
def sectionsAt (i : Nat) : Traffic τ → List (Act τ) → List (Section (Job τ))
  | _, [] => []
  | s, a :: as => s.sections i a ++ sectionsAt i (s.step a) as

theorem sectionsAt_append (i : Nat) (s : Traffic τ) (as bs : List (Act τ)) :
    sectionsAt i s (as ++ bs) = sectionsAt i s as ++ sectionsAt i (s.run as) bs := by
  induction as generalizing s with
  | nil => rfl
  | cons a as ih =>
    show s.sections i a ++ sectionsAt i (s.step a) (as ++ bs) =
      s.sections i a ++ sectionsAt i (s.step a) as ++ sectionsAt i ((s.step a).run as) bs
    rw [ih, List.append_assoc]

theorem sectionsAt_concat (i : Nat) (s : Traffic τ) (as : List (Act τ)) (a : Act τ) :
    sectionsAt i s (as ++ [a]) = sectionsAt i s as ++ (s.run as).sections i a := by
  rw [sectionsAt_append]
  exact congrArg _ (List.append_nil _)

/-- A gate is where its diary says. -/
def Follows (gs : List (Gate (Job τ))) (i : Nat) (d : Diary (Job τ)) : Prop :=
  gs[i]? = some d.gate

omit [Kinded τ] in
/-- A section of another gate changes nothing. -/
theorem follows_other {gs : List (Gate (Job τ))} {i n : Nat} {d : Diary (Job τ)}
    (hx : gs[i]? = some d.gate) (hn : n ≠ i) (g : Gate (Job τ)) : Follows (gs.set n g) i d :=
  (List.getElem?_set_ne hn).trans hx

omit [Kinded τ] in
theorem follows_set {gs : List (Gate (Job τ))} {i : Nat} {d e : Diary (Job τ)}
    (hx : gs[i]? = some d.gate) : Follows (gs.set i e.gate) i e := by
  obtain ⟨hlt, -⟩ := List.getElem?_eq_some_iff.mp hx
  exact List.getElem?_set_self hlt

omit [Kinded τ] in
theorem follows_settle {s : Traffic τ} {v : View} {d : Diary (Job τ)}
    (hx : s.gates[v.id]? = some d.gate) (change : Gate (Job τ) → Gate (Job τ)) :
    Follows (s.settle v change).gates v.id (d.settle (change d.gate)) := by
  unfold Traffic.settle Diary.settle
  rw [hx]
  cases hn : (change d.gate).admitNext with
  | none =>
    simp only [hn]
    exact follows_set (e := { d with gate := change d.gate }) hx
  | some r =>
    simp only [hn]
    exact follows_set (e := { d with gate := r.2, admitted := d.admitted ++ [r.1] }) hx

omit [Kinded τ] in
theorem follows_settle_other {s : Traffic τ} {v : View} {i : Nat} {d : Diary (Job τ)}
    (hx : s.gates[i]? = some d.gate) (hv : v.id ≠ i) (change : Gate (Job τ) → Gate (Job τ)) :
    Follows (s.settle v change).gates i d := by
  unfold Traffic.settle
  split
  · exact hx
  · split
    · exact follows_other hx hv _
    · exact follows_other hx hv _

omit [Kinded τ] in
/-- A chore that changes a gate and then looks for a waiting task. -/
theorem follows_change {s : Traffic τ} {i : Nat} {d : Diary (Job τ)}
    (hx : s.gates[i]? = some d.gate) {v : View} {t : Section (Job τ)}
    {change : Gate (Job τ) → Gate (Job τ)}
    (ht : ∃ marked, d.step t = { d with poisoned := marked }.settle (change d.gate)) :
    Follows (s.settle v change).gates i (d.run (if v.id = i then [t] else [])) := by
  obtain ⟨marked, ht⟩ := ht
  by_cases hv : v.id = i
  · rw [if_pos hv]
    show Follows _ i (d.step t)
    subst hv
    rw [ht]
    exact follows_settle (d := { d with poisoned := marked }) hx change
  · rw [if_neg hv]
    exact follows_settle_other hx hv change

theorem follows_submit {s : Traffic τ} {i : Nat} {d : Diary (Job τ)}
    (hx : s.gates[i]? = some d.gate) (e : Dispatcher) (j : Job τ) (slot : Option Nat) :
    Follows (s.submit j slot e).gates i
      (d.run (Chore.sections s.pool.closed i (.submit e j slot))) := by
  have hsame : Follows s.gates i d := hx
  cases e with
  | pool id core =>
    show Follows (s.submit j slot (.pool id core)).gates i d
    cases slot with
    | none =>
      simp only [submit, arrive]
      split <;> exact hsame
    | some w =>
      simp only [submit]
      split
      · unfold arriveAt
        split <;> exact hsame
      · exact hsame
  | view id mode base parent =>
    show Follows _ i (d.run (if id = i then [.submit s.pool.closed j] else []))
    by_cases hi : id = i
    · subst hi
      rw [if_pos rfl]
      show Follows _ id (d.arrive s.pool.closed j)
      simp only [submit, hx, Diary.arrive]
      rcases Gate.offer_cases d.gate s.pool.closed j with ⟨-, ho⟩ | ⟨-, -, ho⟩ | ⟨-, -, ho⟩
      · simp only [ho]
        exact follows_set (e := { d with gate := _, accepted := _, admitted := _ }) hx
      · simp only [ho]
        exact hsame
      · simp only [ho]
        exact follows_set (e := { d with gate := _, accepted := _ }) hx
    · rw [if_neg hi]
      simp only [submit]
      split
      · exact hsame
      · split
        · exact follows_other hx hi _
        · exact follows_other hx hi _
        · exact hsame

theorem follows_forward {s : Traffic τ} {i : Nat} {d : Diary (Job τ)}
    (hx : s.gates[i]? = some d.gate) (e : Dispatcher) (j : Job τ) (n : Nat) :
    Follows (s.forward j n e).gates i
      (d.run (Chore.sections s.pool.closed i (.forward e j n))) := by
  have hsame : Follows s.gates i d := hx
  cases e with
  | pool id core =>
    show Follows (s.forward j n (.pool id core)).gates i d
    simp only [forward]
    split <;> exact hsame
  | view id mode base parent =>
    show Follows _ i (d.run (if id = i then [.forward j] else []))
    by_cases hi : id = i
    · subst hi
      rw [if_pos rfl]
      show Follows _ id (d.arrive false j)
      simp only [forward, hx, Diary.arrive]
      rcases Gate.offer_cases d.gate false j with ⟨-, ho⟩ | ⟨-, hc, -⟩ | ⟨-, -, ho⟩
      · simp only [ho]
        exact follows_set (e := { d with gate := _, accepted := _, admitted := _ }) hx
      · exact absurd hc (by decide)
      · simp only [ho]
        exact follows_set (e := { d with gate := _, accepted := _ }) hx
    · rw [if_neg hi]
      simp only [forward]
      split
      · exact hsame
      · split
        · exact follows_other hx hi _
        · exact follows_other hx hi _
        · exact hsame

/-- A chore takes a gate through the section that it is. -/
theorem follows_perform {s : Traffic τ} {i : Nat} {d : Diary (Job τ)}
    (hx : s.gates[i]? = some d.gate) (c : Chore τ) :
    Follows (s.perform c).gates i (d.run (c.sections s.pool.closed i)) := by
  have hsame : Follows s.gates i d := hx
  cases c with
  | submit e j slot => exact follows_submit hx e j slot
  | requeue k j =>
    show Follows (s.requeue k j).gates i d
    unfold requeue
    split <;> exact hsame
  | forward e j n => exact follows_forward hx e j n
  | next v => exact follows_change hx ⟨d.poisoned, rfl⟩
  | release v => exact follows_change hx ⟨_, rfl⟩
  | raise v => exact follows_change hx ⟨d.poisoned, rfl⟩
  | lower v =>
    show Follows (s.gates.modify v.id Gate.lower) i (d.run (if v.id = i then [.lower] else []))
    by_cases hv : v.id = i
    · rw [if_pos hv]
      show (s.gates.modify v.id Gate.lower)[i]? = some d.gate.lower
      simp [hx, hv]
    · rw [if_neg hv]
      show (s.gates.modify v.id Gate.lower)[i]? = some d.gate
      simpa [List.getElem?_modify, hv] using hx
  | finish w outcome fatal =>
    show Follows (s.finish w outcome fatal).gates i d
    unfold finish
    split
    · exact hsame
    · split <;> exact hsame
  | _ => exact hsame

/-- Only chores change gates; a new view gets a new one. -/
theorem gates_of_ne_go {s s' : Traffic τ} {a : Act τ} (h : Steps s a s') (ha : ∀ k, a ≠ .go k) :
    ∃ gs, s'.gates = s.gates ++ gs := by
  cases h with
  | goes => exact absurd rfl (ha _)
  | built => exact ⟨_, rfl⟩
  | _ => exact ⟨[], (List.append_nil _).symm⟩

/-- An act takes a gate through the sections that it performs. -/
theorem follows_step {s : Traffic τ} {i : Nat} {d : Diary (Job τ)} (h : Follows s.gates i d)
    (a : Act τ) : Follows (s.step a).gates i (d.run (s.sections i a)) := by
  have hother (ha : ∀ k, a ≠ .go k) : Follows (s.step a).gates i d := by
    obtain ⟨gs, hgs⟩ := gates_of_ne_go (steps s a) ha
    obtain ⟨hlt, -⟩ := List.getElem?_eq_some_iff.mp h
    rw [hgs]
    exact (List.getElem?_append_left hlt).trans h
  cases a with
  | go k =>
    simp only [sections, step]
    cases hk : s.threads[k]? with
    | none => exact h
    | some cs =>
      cases cs with
      | nil => exact h
      | cons c cs => exact follows_perform h c
  | _ => exact hother fun k hk => by cases hk

/-- A gate is where the sections of a run lead it. -/
theorem follows_run {s : Traffic τ} {i : Nat} {d : Diary (Job τ)} (h : Follows s.gates i d)
    (as : List (Act τ)) : Follows (s.run as).gates i (d.run (sectionsAt i s as)) := by
  -- induction on the acts, with the diary as far as they have come
  induction as generalizing s d with
  | nil => exact h
  | cons a as ih =>
    have hrun : d.run (sectionsAt i s (a :: as)) =
        (d.run (s.sections i a)).run (sectionsAt i (s.step a) as) := d.run_append _ _
    rw [hrun]
    exact ih (follows_step h a)

/-- A view over a running pool: whatever happens after it was made, a task waits at its gate only
if all places are taken, and the tasks that wait are those of its diary that came last. -/
theorem waiting_run {s : Traffic τ} {i limit : Nat} (hi : s.gates[i]? = some { limit })
    (as : List (Act τ)) :
    let d := (Diary.start limit).run (sectionsAt i s as)
    ∃ x, (s.run as).gates[i]? = some x ∧ x.Settled ∧ d.accepted = d.admitted ++ x.queue := by
  intro d
  obtain ⟨ho, -⟩ := Diary.inOrder_run limit (sectionsAt i s as)
  exact ⟨_, follows_run (d := Diary.start limit) hi as, ho.settled, ho.order⟩

end Traffic

end Workforce
