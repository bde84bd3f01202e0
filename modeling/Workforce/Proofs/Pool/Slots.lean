import Workforce.Proofs.Pool.Holdings
import Workforce.Proofs.Pool.Order

/-
  The slots of workers. A task comes into the slot of a worker when the worker places it there, and
  it leaves the slot when the worker flushes it or takes a turn. All other sections of the pool, and
  all sections of other workers, leave the slot alone.
-/

namespace Workforce.Pool

variable {τ : Type}

/-- What is done to a worker leaves the slots of others alone. -/
theorem slotOf?_modifyWorker_of_ne (p : Pool τ) {w u : Nat} (h : u ≠ w)
    (f : Worker τ → Worker τ) : (p.modifyWorker w f).slotOf? u = p.slotOf? u := by
  rw [slotOf?_modifyWorker, if_neg (Ne.symm h)]

/-! ## Submissions -/

section submission

variable [Kinded τ]

theorem slotOf?_queueUp (p : Pool τ) (t : τ) (u : Nat) : (p.queueUp t).slotOf? u = p.slotOf? u := by
  have he : (p.enqueue t).slotOf? u = p.slotOf? u := by
    unfold enqueue
    cases Kinded.kind t <;> rfl
  rw [queueUp, (sameHands_ensureCapacity _).slot, he]

omit [Kinded τ] in
theorem slotOf?_place (p : Pool τ) {w u : Nat} (h : u ≠ w) (t : τ) :
    (p.place w t).2.slotOf? u = p.slotOf? u := by
  have hm := p.slotOf?_modifyWorker_of_ne h fun x => { x with slot := some t }
  unfold place
  split
  · rfl
  · split
    · rfl
    · split <;> exact hm

omit [Kinded τ] in
/-- A worker of an open pool finds in its slot what it placed there. -/
theorem slotOf?_place_self {p : Pool τ} {w : Nat} {x : Worker τ} (ho : p.closed = false)
    (hw : p.worker? w = some x) (t : τ) : (p.place w t).2.slotOf? w = some t := by
  have hm : (p.modifyWorker w fun x => { x with slot := some t }).slotOf? w = some t := by
    rw [slotOf?_modifyWorker, if_pos rfl, hw]
    rfl
  have hp : (p.place w t).2 = p.modifyWorker w fun x => { x with slot := some t } := by
    cases hs : x.slot with
    | none => simp [place, ho, hw, hs]
    | some u => simp [place, ho, hw, hs]
  rw [hp, hm]

theorem slotOf?_flush (p : Pool τ) {w u : Nat} (h : u ≠ w) :
    (p.flush w).slotOf? u = p.slotOf? u := by
  unfold flush
  split
  · rfl
  · rw [slotOf?_queueUp, slotOf?_modifyWorker_of_ne p h]

end submission

/-! ## Limits and closing -/

/-- Hands are those of the workers. -/
theorem SameHands.of_workers {p r q : Pool τ} (hh : SameHands r q) (h : r.workers = p.workers) :
    SameHands p q := by
  have hw : ∀ u, r.worker? u = p.worker? u := fun u => by rw [worker?, h]; rfl
  exact ⟨fun u => by rw [hh.task, taskOf?, hw]; rfl, fun u => by rw [hh.slot, slotOf?, hw]; rfl⟩

theorem sameHands_raise (p : Pool τ) (w : Nat) : SameHands p (p.raise w) := by
  unfold raise
  split
  · exact ⟨fun _ => rfl, fun _ => rfl⟩
  · split
    · exact sameHands_modifyWorker p w _ (fun _ _ => rfl) fun _ _ => rfl
    · have hm : SameHands { p with limit := p.limit + 1 }
          ({ p with limit := p.limit + 1 }.modifyWorker w fun x =>
            { x with contribution := x.contribution + 1 }) :=
        sameHands_modifyWorker _ w _ (fun _ _ => rfl) fun _ _ => rfl
      have he := sameHands_ensureCapacity ({ p with limit := p.limit + 1 }.modifyWorker w fun x =>
          { x with contribution := x.contribution + 1 })
      exact ⟨fun u => (he.task u).trans (hm.task u), fun u => (he.slot u).trans (hm.slot u)⟩

theorem sameHands_lower (p : Pool τ) (w : Nat) : SameHands p (p.lower w) := by
  unfold lower
  split
  · exact ⟨fun _ => rfl, fun _ => rfl⟩
  · split
    · exact sameHands_modifyWorker p w _ (fun _ _ => rfl) fun _ _ => rfl
    · have hm : SameHands { p with limit := p.limit - 1 }
          ({ p with limit := p.limit - 1 }.modifyWorker w fun x =>
            { x with contribution := x.contribution - 1 }) :=
        sameHands_modifyWorker _ w _ (fun _ _ => rfl) fun _ _ => rfl
      exact hm.of_workers rfl

theorem sameHands_beginClose (p : Pool τ) : SameHands p p.beginClose := by
  unfold beginClose
  split
  · exact ⟨fun _ => rfl, fun _ => rfl⟩
  · exact (sameHands_notifyAll { p with closed := true }).of_workers rfl

theorem sameHands_terminate (p : Pool τ) : SameHands p p.terminate.2.2 :=
  (sameHands_notifyAll { p with abandoned := true, cpuQueue := [], blockingQueue := [] }).of_workers
    rfl

/-! ## Turns -/

theorem slotOf?_leave (p : Pool τ) {w u : Nat} (h : u ≠ w) :
    (p.leave w).2.slotOf? u = p.slotOf? u :=
  slotOf?_modifyWorker_of_ne { p with live := p.live - 1 } h _

theorem slotOf?_die (p : Pool τ) {w u : Nat} (h : u ≠ w) (k : Kind) :
    (p.die w k).2.slotOf? u = p.slotOf? u := by
  have hl : ((p.countEnd k).leave w).2.slotOf? u = p.slotOf? u := by
    rw [slotOf?_leave _ h, slotOf?_countEnd]
  unfold die
  dsimp only
  split
  · exact ((sameHands_spawnWorker _).slot u).trans hl
  · exact hl

variable [Kinded τ]

theorem slotOf?_schedule (p : Pool τ) {w u : Nat} (h : u ≠ w) :
    (p.schedule w).2.slotOf? u = p.slotOf? u := by
  have hpick : ∀ {o : Option τ} {q : Pool τ}, Picks (p.emptySlot w) (p.slotOf? w) (o, q) →
      q.slotOf? u = p.slotOf? u := by
    intro o q hp
    rw [hp.frame]
    exact slotOf?_modifyWorker_of_ne p h _
  generalize hr : p.schedule w = r
  have hsch : Schedules p w r := hr ▸ schedules p w
  cases hsch with
  | abandoned => exact slotOf?_leave p h
  | @runs t q _ hp =>
    have hc : (q.countStart (Kinded.kind t)).slotOf? u = q.slotOf? u := by
      unfold countStart
      cases Kinded.kind t <;> rfl
    exact (slotOf?_modifyWorker_of_ne _ h _).trans (hc.trans (hpick hp))
  | @drained q _ hp => exact (slotOf?_leave q h).trans (hpick hp)
  | @rests q _ hp =>
    have hq := hpick hp
    exact (slotOf?_modifyWorker_of_ne { q with idle := q.idle + 1 } h _).trans hq

theorem slotOf?_begin (p : Pool τ) {w u : Nat} (h : u ≠ w) :
    (p.begin w).2.slotOf? u = p.slotOf? u :=
  slotOf?_schedule { p with starting := p.starting - 1 } h

theorem slotOf?_resume (p : Pool τ) {w u : Nat} (h : u ≠ w) (timedOut : Bool) :
    (p.resume w timedOut).2.slotOf? u = p.slotOf? u := by
  unfold resume
  dsimp only
  split
  · exact slotOf?_leave { p with idle := p.idle - 1 } h
  · exact slotOf?_schedule { p with idle := p.idle - 1 } h

theorem slotOf?_finish (p : Pool τ) {w u : Nat} (h : u ≠ w) (k : Kind) :
    (p.finish w k).2.slotOf? u = p.slotOf? u :=
  (slotOf?_schedule (p.countEnd k) h).trans (slotOf?_countEnd p k u)

end Workforce.Pool
