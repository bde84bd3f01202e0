import Workforce.Proofs.Network.Sound

/-
  Submissions, admissions and changes of limits let workers run on. No function on networks but the
  turns of workers takes a task from a worker or gives it one. Nothing is assumed of the network
  here.
-/

namespace Workforce

variable {τ : Type}

/-! ## Pools -/

namespace Pool

variable [Kinded τ]

theorem taskOf?_submit (p : Pool τ) (caller : Option Nat) (t : τ) (tail : Bool) (u : Nat) :
    (p.submit caller t tail).2.taskOf? u = p.taskOf? u := by
  have haccept : ∀ {q q' : Pool τ} {v : τ}, q.accept v = some q' →
      q'.taskOf? u = q.taskOf? u := fun h => (gains_accept h).task u
  unfold submit
  split
  · split
    case h_1 h => exact haccept h
    case h_2 => rfl
  case h_2 w hw =>
    have hplace := taskOf?_place p w t u
    generalize p.place w t = r at hplace
    obtain ⟨placement, q⟩ := r
    cases placement with
    | refused => exact hplace
    | placed => exact hplace
    | left rest =>
      dsimp only at hplace ⊢
      split
      case h_1 h => exact (haccept h).trans hplace
      case h_2 => exact hplace

theorem taskOf?_flush (p : Pool τ) (w u : Nat) : (p.flush w).taskOf? u = p.taskOf? u := by
  unfold flush
  split
  · rfl
  · rw [taskOf?_queueUp]
    refine taskOf?_modifyWorker_of_phase p w _ (fun _ => ?_) u
    rfl

omit [Kinded τ] in
theorem taskOf?_terminate (p : Pool τ) (u : Nat) : p.terminate.2.2.taskOf? u = p.taskOf? u :=
  (sameHands_notifyAll { p with abandoned := true, cpuQueue := [], blockingQueue := [] }).task u

end Pool

/-! ## Networks -/

namespace Network

/-- Workers run the same tasks. -/
def SameTasks (n n' : Network τ) : Prop := ∀ w, n'.taskAt w = n.taskAt w

theorem SameTasks.refl (n : Network τ) : SameTasks n n := fun _ => rfl

theorem SameTasks.trans {n n' n'' : Network τ} (h : SameTasks n n') (h' : SameTasks n' n'') :
    SameTasks n n'' := fun w => (h' w).trans (h w)

theorem sameTasks_of_pools {n n' : Network τ} (h : n'.pools = n.pools) : SameTasks n n' := fun w => by
  unfold taskAt pool?
  rw [h]

theorem sameTasks_setPool {n : Network τ} {k : Nat} {p q : Pool (Job τ)} (hp : n.pool? k = some p)
    (hq : ∀ u, q.taskOf? u = p.taskOf? u) : SameTasks n (n.setPool k q) := fun w => by
  rw [taskAt_setPool n q hp]
  split
  case isTrue hw =>
    rw [hq, taskAt, hw, hp]
    rfl
  case isFalse => rfl

theorem sameTasks_onPool (n : Network τ) (k : Nat) {f : Pool (Job τ) → Pool (Job τ)}
    (hf : ∀ p u, (f p).taskOf? u = p.taskOf? u) : SameTasks n (n.onPool k f) := fun w => by
  unfold taskAt pool? onPool
  dsimp only
  rw [List.getElem?_modify]
  cases n.pools[w.pool]? with
  | none => rfl
  | some p =>
    show (if k = w.pool then f p else p).taskOf? w.worker = p.taskOf? w.worker
    split
    · exact hf p w.worker
    · rfl

theorem sameTasks_onGate (n : Network τ) (i : Nat) (f : Gate (Job τ) → Gate (Job τ)) :
    SameTasks n (n.onGate i f) := sameTasks_of_pools rfl

theorem sameTasks_setGate (n : Network τ) (i : Nat) (x : Gate (Job τ)) :
    SameTasks n (n.setGate i x) := sameTasks_of_pools rfl

theorem sameTasks_admitWaiting {f : Job τ → Network τ → Bool × Network τ}
    (hf : ∀ j n, SameTasks n (f j n).2) (v : View) (fuel : Nat) :
    ∀ n : Network τ, SameTasks n (admitWaiting f v fuel n) := by
  induction fuel with
  | zero => exact SameTasks.refl
  | succ fuel ih =>
    intro n
    rw [admitWaiting]
    split
    case h_1 => exact SameTasks.refl n
    case h_2 j x _ =>
      have hfwd := (sameTasks_setGate n v.id x).trans (hf (j.admittedBy v) (n.setGate v.id x))
      split
      case h_1 n' hn =>
        rw [hn] at hfwd
        exact hfwd.trans (ih n')
      case h_2 n' hn =>
        rw [hn] at hfwd
        exact hfwd.trans ((sameTasks_onGate n' v.id Gate.release).trans (ih _))

variable [Kinded τ]

theorem sameTasks_forward (d : Dispatcher) :
    ∀ (j : Job τ) (n : Network τ), SameTasks n (forward d j n).2 := by
  induction d with
  | pool id core =>
    intro j n
    rw [forward]
    split
    case h_1 q hq =>
      obtain ⟨p, hp, ht⟩ := Option.bind_eq_some_iff.mp hq
      exact sameTasks_setPool hp (Pool.gains_submitAccepted ht).task
    case h_2 => exact sameTasks_of_pools rfl
  | view id mode base parent ih =>
    intro j n
    rw [forward]
    split
    case h_1 => exact sameTasks_of_pools rfl
    case h_2 x _ =>
      dsimp only
      split
      case h_1 y _ =>
        have hfwd := (sameTasks_setGate n id y).trans
          (ih (j.admittedBy ⟨id, mode, base, parent⟩) (n.setGate id y))
        split
        case h_1 n' hn =>
          rw [hn] at hfwd
          exact hfwd
        case h_2 n' hn =>
          rw [hn] at hfwd
          refine hfwd.trans ((sameTasks_onGate n' id Gate.release).trans ?_)
          exact sameTasks_admitWaiting ih _ _ _
      case h_2 y _ => exact sameTasks_setGate n id y
      case h_3 => exact sameTasks_of_pools rfl

theorem sameTasks_refill (n : Network τ) (v : View) (change : Gate (Job τ) → Gate (Job τ)) :
    SameTasks n (refill (forward v.parent) v (n.onGate v.id change)) :=
  (sameTasks_onGate n v.id change).trans
    (sameTasks_admitWaiting (sameTasks_forward v.parent) v _ _)

theorem sameTasks_release (n : Network τ) (v : View) : SameTasks n (n.release v) :=
  sameTasks_refill n v Gate.release

theorem sameTasks_submit (caller : Option WorkerId) (tail : Bool) (d : Dispatcher) :
    ∀ (j : Job τ) (n : Network τ), SameTasks n (n.submit caller tail d j).2 := by
  induction d with
  | pool id core =>
    intro j n
    rw [submit]
    split
    case h_1 => exact sameTasks_of_pools rfl
    case h_2 p hp =>
      dsimp only
      have htask := Pool.taskOf?_submit p ((caller.filter fun w => w.pool = id).map WorkerId.worker)
        j tail
      split
      case h_1 q hq =>
        rw [hq] at htask
        exact sameTasks_setPool hp htask
      case h_2 k q hq =>
        rw [hq] at htask
        exact (sameTasks_setPool hp htask).trans (sameTasks_of_pools rfl)
  | view id mode base parent ih =>
    intro j n
    rw [submit]
    split
    case h_1 => exact sameTasks_of_pools rfl
    case h_2 x _ =>
      dsimp only
      split
      case h_1 y _ =>
        have hsub := (sameTasks_setGate n id y).trans
          (ih (j.admittedBy ⟨id, mode, base, parent⟩) (n.setGate id y))
        split
        case h_1 n' hn =>
          rw [hn] at hsub
          exact hsub
        case h_2 n' hn =>
          rw [hn] at hsub
          exact hsub.trans (sameTasks_release n' ⟨id, mode, base, parent⟩)
      case h_2 y _ => exact sameTasks_setGate n id y
      case h_3 => exact sameTasks_of_pools rfl

theorem sameTasks_flush (n : Network τ) (w : WorkerId) : SameTasks n (n.flush w) :=
  sameTasks_onPool n w.pool fun p u => Pool.taskOf?_flush p w.worker u

theorem sameTasks_raise (n : Network τ) (c : Compensator) : SameTasks n (n.raise c) := by
  have hviews : ∀ (vs : List View) (n : Network τ), SameTasks n (vs.foldl raiseView n) := by
    intro vs
    induction vs with
    | nil => exact SameTasks.refl
    | cons v vs ih => exact fun n => (sameTasks_refill n v Gate.raise).trans (ih (n.raiseView v))
  unfold raise
  cases c.worker with
  | none => exact hviews c.views n
  | some w =>
    exact (sameTasks_onPool n w.pool fun p u => (Pool.gains_raise p w.worker).task u).trans
      (hviews c.views _)

theorem sameTasks_lower (n : Network τ) (c : Compensator) : SameTasks n (n.lower c) := by
  have hviews : ∀ vs : List View,
      SameTasks n (vs.foldr (fun v n => n.onGate v.id Gate.lower) n) := by
    intro vs
    induction vs with
    | nil => exact SameTasks.refl n
    | cons v vs ih => exact ih.trans (sameTasks_onGate _ v.id Gate.lower)
  unfold lower
  cases c.worker with
  | none => exact hviews c.views
  | some w =>
    exact (hviews c.views).trans
      (sameTasks_onPool _ w.pool fun p u => (Pool.gains_lower p w.worker).task u)

end Network

end Workforce
