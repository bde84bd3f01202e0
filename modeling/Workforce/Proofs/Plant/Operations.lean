import Workforce.Plant.Close
import Workforce.Proofs.Plant.Closing

/-
  What comes about from a plant. Operations may be of any kind, careful or not, closes may give up
  waiting, and pools are dropped while tasks wait for their steps (`Arises`). All of this is made of
  few single happenings, so a property that each of these keeps lasts (`Lasting.arises`): settling
  repeats them, a close lets the plant settle, and dropping a pool closes it and ends its bodies one
  after the other.
-/

namespace Workforce.Plant

variable {ν : Type} {m m' : Plant ν} {P : Plant ν → Prop}

/-- Only a task that waits for its steps is given one. -/
def ready (m : Plant ν) : Operation ν → Bool
  | .direct w _ => !(m.thread (.worker w)).stack.isEmpty
  | _ => true

/-- A plant comes about from another one by operations, careful or not, and by closing and
dropping pools. -/
inductive Arises (m₀ : Plant ν) : Plant ν → Prop
  | start : Arises m₀ m₀
  | operate {m : Plant ν} (o : Operation ν) :
    Arises m₀ m → m.ready o = true → Arises m₀ (m.after o)
  | close {m : Plant ν} (p : Nat) (timeout : Duration) :
    Arises m₀ m → Arises m₀ (m.close p timeout).2
  | dropPool {m : Plant ν} (p : Nat) (value : ν) : Arises m₀ m → Arises m₀ (m.dropPool p value)

/-- A property that each single happening keeps. -/
structure Lasting (P : Plant ν → Prop) : Prop where
  perform : ∀ {m} (s : Step ν), P m → P (m.perform .controller s).2
  direct : ∀ {m w} (s : Step ν), P m → (m.thread (.worker w)).stack ≠ [] → P (m.direct w s).2
  advance : ∀ {m} (w : WorkerId), P m → P (m.advance w)
  followScript : ∀ {m} (w : WorkerId), P m → P (m.followScript w)
  timeOut : ∀ {m} (w : WorkerId), P m → P (m.after (.timeOut w))
  expire : ∀ {m} (t : Nat), P m → P (m.expire t)
  popTimer : ∀ {m}, P m → P (m.after .popTimer)
  beginClose : ∀ {m} (p : Nat), P m → P (m.beginClose p)
  terminate : ∀ {m} (p : Nat), P m → P (m.terminate p).2
  /-- Closes on threads of their own are only written down. -/
  closers : ∀ {m} (cs : List Closer), P m → P { m with closers := cs }
  endBody : ∀ {m} (w : WorkerId) (exit : Exit ν), P m → P (m.endBody w exit)
  /-- Dispatchers over a dropped pool go, and so do saved compensators. -/
  forget : ∀ {m} (f : Option Dispatcher → Option Dispatcher), (∀ d e, f d = some e → d = some e) →
    P m → P { m with dispatchers := m.dispatchers.map f, saved := [] }
  releaseViews : ∀ {m} (vs : List View), P m → P (m.releaseViews vs)

namespace Lasting

theorem next (hp : Lasting P) (h : P m) (hn : m.next? = some m') : P m' := by
  rcases next_cases hn with ⟨w, rfl⟩ | rfl | rfl | ⟨w, -, rfl⟩ | ⟨w, rfl⟩
  · exact hp.advance w h
  · exact hp.closers _ h
  · exact hp.popTimer h
  · exact hp.followScript w h
  · exact hp.timeOut w h

theorem run (hp : Lasting P) (fuel : Nat) : ∀ {m : Plant ν}, P m → P (m.run fuel) := by
  induction fuel with
  | zero => exact fun h => h
  | succ fuel ih =>
    intro m h
    rw [Plant.run]
    split
    case h_1 m' hn => exact ih (hp.next h hn)
    case h_2 => exact h

theorem close (hp : Lasting P) (h : P m) (p : Nat) (timeout : Duration) :
    P (m.close p timeout).2 := by
  have hb := hp.beginClose p h
  rcases m.close_cases p timeout with ⟨k, o, -, he⟩ | ⟨k, he⟩
  · rw [he]
    exact hp.run k hb
  · rw [he]
    exact hp.terminate p (hp.run k hb)

theorem closeApart (hp : Lasting P) (h : P m) (p : Nat) (timeout : Duration) (name : String) :
    P (m.closeApart p timeout name) := by
  have hb := hp.beginClose p h
  unfold Plant.closeApart
  dsimp only
  split
  case h_1 => exact hb
  case h_2 q _ =>
    split
    case isTrue => exact hp.closers _ (hp.close hb p timeout)
    case isFalse => exact hp.closers _ hb

theorem finishAll (hp : Lasting P) (p : Nat) (value : ν) (fuel : Nat) :
    ∀ {m : Plant ν}, P m → P (finishAll p value fuel m) := by
  induction fuel with
  | zero => exact fun h => h
  | succ fuel ih =>
    intro m h
    rw [Plant.finishAll]
    split
    case h_1 w _ => exact ih (hp.run _ (hp.endBody w _ h))
    case h_2 => exact h

theorem dropPool (hp : Lasting P) (h : P m) (p : Nat) (value : ν) : P (m.dropPool p value) := by
  unfold Plant.dropPool
  dsimp only
  refine hp.releaseViews _ (hp.finishAll p value _ (hp.run _ (hp.beginClose p ?_)))
  refine hp.forget _ (fun d e he => ?_) h
  split at he
  · cases he
  · exact he

theorem after (hp : Lasting P) (h : P m) {o : Operation ν} (ho : m.ready o = true) :
    P (m.after o) := by
  cases o with
  | perform s => exact hp.perform s h
  | direct w s => exact hp.direct s h (stack_ne_nil ho)
  | advance w => exact hp.advance w h
  | giveUp w => exact hp.followScript w h
  | timeOut w => exact hp.timeOut w h
  | expire ticket => exact hp.expire ticket h
  | popTimer => exact hp.popTimer h
  | beginClose p => exact hp.beginClose p h
  | closeApart p timeout name => exact hp.closeApart h p timeout name
  | recheck => exact hp.closers _ h
  | collectClose name =>
    show P (m.collectClose name).2
    unfold Plant.collectClose
    split
    · exact h
    · exact hp.closers _ h

/-- A lasting property holds of all that comes about. -/
theorem arises (hp : Lasting P) {m₀ : Plant ν} (h₀ : P m₀) (h : Arises m₀ m) : P m := by
  induction h with
  | start => exact h₀
  | operate o _ ho ih => exact hp.after ih ho
  | close p timeout _ ih => exact hp.close ih p timeout
  | dropPool p value _ ih => exact hp.dropPool ih p value

end Lasting

end Workforce.Plant
