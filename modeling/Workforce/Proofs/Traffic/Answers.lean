import Workforce.Proofs.Traffic.Admissions

/-
  What the answer to a submission says. A submission that is answered with an error is to have left
  nothing behind, and one that is answered with success is to have kept its task until the task
  runs or the pool is terminated by force; no other task is to notice (`Clean`).

  A tail submission may be cut in two by a close. If its task went into an empty slot, it has been
  answered before. If the slot was full, the close drops the task that was displaced, and the
  answer to the submission is an error although its own task is kept in the slot.
  `clean_prefixes_iff`: as long as the pool and its views are held, this and the death of a worker
  with a task in its slot are the only ways in which an answer is wrong, in all runs, those with a
  forced termination included. A refusal itself leaves the pool, the gates and all other tasks as
  they are. No submission is under way in a pool or a view that is freed (`Estate.Frees`).
-/

namespace Workforce

variable {τ : Type} [DecidableEq τ]

/-- A forced termination drops a task. -/
def Event.isDiscard (t : τ) : Event τ → Bool
  | dropped .forced j => j.task = t
  | _ => false

namespace Traffic

/-! ## Answers -/

/-- A submission of a task is answered with an error. -/
def Rejected (s : Traffic τ) (t : τ) : Prop :=
  (∃ j, .refused j ∈ s.log ∧ j.task = t) ∨ .misled t ∈ s.log

/-- How often a task was dropped by a forced termination, and for other reasons. -/
def discarded (s : Traffic τ) (t : τ) : Nat := s.log.countP (Event.isDiscard t)

def losses (s : Traffic τ) (t : τ) : Nat := s.log.countP (Event.isLoss t)

/-- Every answer tells what became of the task, and no task is lost. -/
structure Clean (s : Traffic τ) : Prop where
  /-- A task whose submission was answered with an error is nowhere and was not started. -/
  rejected : ∀ t, s.calls t = 1 → s.Rejected t → (s.places t).sum = 0 ∧ s.starts t = 0
  /-- A task whose submission was answered with success is in one place, or was discarded by force. -/
  kept : ∀ t, s.calls t = 1 → .accepted t ∈ s.log → (s.places t).sum + s.discarded t = 1
  /-- No task is dropped for another reason. -/
  undisturbed : ∀ t, s.losses t = 0

theorem drops_eq (s : Traffic τ) (t : τ) : s.drops t = s.discarded t + s.losses t := by
  unfold drops discarded losses
  induction s.log with
  | nil => rfl
  | cons e es ih =>
    simp only [List.countP_cons, ih]
    cases e with
    | dropped cause j => cases cause <;> simp [Event.isDrop, Event.isDiscard, Event.isLoss] <;> omega
    | _ => simp [Event.isDrop, Event.isDiscard, Event.isLoss]

/-- A task called once that was refused is nowhere. -/
theorem nowhere_of_refused (c : Config) (as : List (Act τ)) [Kinded τ] {j : Job τ}
    (hc : ((start c).run as).calls j.task = 1) (hr : .refused j ∈ ((start c).run as).log) :
    (((start c).run as).places j.task).sum = 0 := by
  have hp := places_eq_calls (balanced_run (Weights.ofTask j.task) c as)
  have hpos : 0 < ((start c).run as).log.countP (Event.isRefusal j.task) :=
    List.countP_pos_iff.mpr ⟨_, hr, by simp [Event.isRefusal]⟩
  omega

variable [Kinded τ]

/-! ## Misleading answers -/

/-- Whoever was misled cost another task its place. -/
def Accounts (s : Traffic τ) : Prop :=
  ∀ t, .misled t ∈ s.log → ∃ k, .dropped .cut k ∈ s.log

omit [DecidableEq τ] in
theorem accounts_step {s : Traffic τ} (h : s.Accounts) (a : Act τ) : (s.step a).Accounts := by
  intro t hm
  rcases (steps s a).rare hm rfl with hm | ⟨u, route, he⟩ | ⟨-, hk⟩
  · exact (h t hm).imp fun k hk => (log_prefix_step s a).subset hk
  · cases he
  · exact hk

omit [DecidableEq τ] in
theorem accounts_run (c : Config) (as : List (Act τ)) : ((start c).run as).Accounts := by
  have hs : (start c : Traffic τ).Accounts := fun t hm => by simp [start] at hm
  exact List.foldlRecOn (motive := Accounts) as step hs fun _ hs a _ => accounts_step hs a

/-! ## Losses -/

/-- No task was lost so far. -/
def Lossless (s : Traffic τ) : Prop := ∀ t, s.losses t = 0

/-- An act ends this exactly if it loses a task. -/
theorem lossless_step_iff {s : Traffic τ} (ho : s.pool.Orderly) (h : s.Lossless) (a : Act τ) :
    (s.step a).Lossless ↔ ¬ ∃ t, s.Loses a t := by
  obtain ⟨es, hlog, hd⟩ := (steps s a).discards ho
  have hsum : ∀ t, (s.step a).losses t = es.countP (Event.isLoss t) := by
    intro t
    have hz := h t
    unfold losses at hz ⊢
    rw [hlog, List.countP_append, hz, Nat.zero_add]
  constructor
  · rintro hr ⟨t, ht⟩
    have hone := (hd.losses t).1 ht
    rw [← hsum, hr t] at hone
    cases hone
  · intro hn t
    rw [hsum]
    exact (hd.losses t).2 fun ht => hn ⟨t, ht⟩

omit [Kinded τ] in
/-- As long as no task was lost, nobody was misled. -/
theorem Lossless.honest {s : Traffic τ} (h : s.Lossless) (ha : s.Accounts) (t : τ) :
    .misled t ∉ s.log := by
  intro hm
  obtain ⟨k, hk⟩ := ha t hm
  have hpos : 0 < s.losses k.task :=
    List.countP_pos_iff.mpr ⟨_, hk, by simp [Event.isLoss]⟩
  rw [h k.task] at hpos
  cases hpos

/-- As long as no task was lost, every answer is right. -/
theorem Lossless.clean {c : Config} {as : List (Act τ)} (h : ((start c).run as).Lossless) :
    ((start c).run as).Clean := by
  refine ⟨fun t hc hr => ?_, fun t hc ha => ?_, h⟩
  · have hz : (((start c).run as).places t).sum = 0 := by
      rcases hr with ⟨j, hj, rfl⟩ | hm
      · exact nowhere_of_refused c as hc hj
      · exact absurd hm (h.honest (accounts_run c as) t)
    have hs := starts_le_places (balanced_run (Weights.ofRun t) c as)
    exact ⟨hz, by omega⟩
  · have hp := places_add_drops (fun m => balanced_run m c as) ⟨hc, ha⟩
    rw [drops_eq, h t] at hp
    exact hp

/-! ## Refusals -/

/-- An act refuses a submission. -/
def Refuses (s : Traffic τ) (a : Act τ) (j : Job τ) : Prop := (s.step a).log = s.log ++ [.refused j]

omit [DecidableEq τ] [Kinded τ] in
theorem turnEvents_ne_refused (cause : Cause) (r : Pool.Turn (Job τ)) (j : Job τ) :
    turnEvents cause r ≠ [.refused j] := by
  rcases r with k | - | (- | k) <;> simp [turnEvents, Job.lost]

omit [DecidableEq τ] in
/-- Only a submission on its way is refused. -/
theorem Performs.eq_refuse {s : Traffic τ} {c : Chore τ} {d : Deed τ} (h : Performs s c d)
    {j : Job τ} (he : d.events = [.refused j]) :
    (∃ d' slot, c = .submit d' j slot) ∧ d = s.refuse j := by
  cases h with
  | refused =>
    cases he
    exact ⟨⟨_, _, rfl⟩, rfl⟩
  | settled hc => cases hc <;> simp at he
  | admits hc => cases hc <;> simp at he
  | missing hc => cases hc <;> simp at he
  | _ => simp [Traffic.idle, taken, discard] at he

omit [DecidableEq τ] in
theorem Refuses.eq_step {s : Traffic τ} {a : Act τ} {j : Job τ} (h : s.Refuses a j) :
    ∃ i d slot rest, s.threads[i]? = some (.submit d j slot :: rest) ∧
      s.step a = { s with
        threads := s.threads.set i (j.views.map .release ++ rest)
        log := s.log ++ [.refused j] } := by
  unfold Refuses at h
  have hs := steps s a
  generalize s.step a = s' at h hs
  cases hs with
  | @goes i c rest d hi hp =>
    obtain ⟨⟨d', slot, rfl⟩, rfl⟩ := hp.eq_refuse (List.append_cancel_left h)
    exact ⟨i, d', slot, rest, hi, rfl⟩
  | began => exact absurd (List.append_cancel_left h) (turnEvents_ne_refused _ _ j)
  | resumed => exact absurd (List.append_cancel_left h) (turnEvents_ne_refused _ _ j)
  | barred =>
    have hm : Event.refused j ∈ _ := List.append_cancel_left h ▸ List.mem_singleton_self _
    simp at hm
  | terminated =>
    have hm : Event.refused j ∈ _ := List.append_cancel_left h ▸ List.mem_singleton_self _
    simp [Job.lost] at hm
  | _ => simp at h

/-- A refusal leaves the pool, the gates and all other tasks as they are. -/
theorem Refuses.still {s : Traffic τ} {a : Act τ} {j : Job τ} (h : s.Refuses a j) :
    (s.step a).pool = s.pool ∧ (s.step a).gates = s.gates ∧
      ∀ u, u ≠ j.task → (s.step a).places u = s.places u := by
  obtain ⟨i, d, slot, rest, hi, he⟩ := h.eq_step
  rw [he]
  refine ⟨rfl, rfl, fun u hu => ?_⟩
  have hthreads : countTask u ((s.threads.set i (j.views.map .release ++ rest)).flatten.filterMap
      Chore.job?) = countTask u (s.threads.flatten.filterMap Chore.job?) := by
    have hset := threadsWeight_set (Weights.ofTask u) (j.views.map .release ++ rest) hi
    rw [← threadsWeight_ofTask, ← threadsWeight_ofTask]
    have hj : j.waiting (Weights.ofTask u) = 0 := (waiting_eq_task rfl j).trans (if_neg (Ne.symm hu))
    have hcall : (Weights.ofTask u).call j.task = 0 := rfl
    simp only [choresWeight_append, choresWeight_releases, choresWeight_cons, Chore.weight,
      views_eq_zero (m := Weights.ofTask u) rfl, hj, hcall] at hset
    omega
  have hended : (s.log ++ [Event.refused j]).countP (Event.isEnd u) = s.log.countP (Event.isEnd u) := by
    simp [Event.isEnd]
  unfold places
  dsimp only
  rw [hthreads, hended]

/-- At every point of a run the answers are right exactly if no act loses a task. In either case a
refusal leaves the pool, the gates and all other tasks as they are. -/
theorem clean_prefixes_iff (c : Config) (as : List (Act τ)) :
    ((∀ us, us <+: as → ((start c).run us).Clean) ↔
      ∀ us a, us ++ [a] <+: as → ∀ t, ¬ ((start c).run us).Loses a t) ∧
    ∀ us a j, us ++ [a] <+: as → ((start c).run us).Refuses a j →
      ((start c).run (us ++ [a])).pool = ((start c).run us).pool ∧
        ((start c).run (us ++ [a])).gates = ((start c).run us).gates ∧
        ∀ u, u ≠ j.task →
          ((start c).run (us ++ [a])).places u = ((start c).run us).places u := by
  have hstart : (start c : Traffic τ).Lossless := fun _ => rfl
  have hpre : (∀ us, us <+: as → ((start c).run us).Lossless) ↔
      ∀ us a, us ++ [a] <+: as → ¬ ∃ t, ((start c).run us).Loses a t :=
    forall_prefix_iff (B := fun (s : Traffic τ) (a : Act τ) => ∃ t, s.Loses a t) hstart fun us a _ h =>
      lossless_step_iff (orderly_run c us) h a
  refine ⟨Iff.trans ⟨fun h us hu => (h us hu).undisturbed, fun h us hu => Lossless.clean (h us hu)⟩
    (hpre.trans ?_), fun us a j _ hr => ?_⟩
  · exact ⟨fun h us a hu t ht => h us a hu ⟨t, ht⟩, fun h us a hu ⟨t, ht⟩ => h us a hu t ht⟩
  · rw [run_concat]
    exact hr.still

/-! ## Wrong answers -/

/-- After a submission of task 2 that a close cut in two, task 0 ends. -/
def misledRun : List (Act Nat) := lateRun ++ [.endBody 2 true (.ok ()) false, .go 2]

/-- The submission of task 2 is answered with an error, but task 2 is in the slot and then started.
Task 1, which was accepted before, is dropped because of that answer. -/
theorem answers_wrong :
    ((start lone).run lateRun).calls 2 = 1 ∧
      ((start lone).run lateRun).log.countP (Event.isMisleading 2) = 1 ∧
      ((start lone).run lateRun).places 2 = [0, 1, 0, 0, 0, 0] ∧
      ((start lone).run lateRun).log.countP (Event.isAcceptance 1) = 1 ∧
      ((start lone).run lateRun).losses 1 = 1 ∧ ((start lone).run misledRun).starts 2 = 1 := by
  decide

end Traffic

end Workforce
