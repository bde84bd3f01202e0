import Workforce.Proofs.Context.Nesting
import Workforce.Scenario.Contexts

/-
  Tokens away from where they come from. A token holds one prior state for each element of its
  context, in order (`enter_bindings`), and what was current; it knows no thread. So it can be used
  on another thread, and it can be used with another context.

  `token_carries`: whatever happened on any threads since a context was entered, leaving it on a
  thread with its token gives that thread what the context displaced where it was entered, and
  nothing else.

  `leave_of_other`: a token of another context restores position by position if the contexts have
  the same size, and otherwise nothing at all; what was current is put back in either case.
-/

namespace Workforce

namespace Element

/-! ## Prior states of bindings -/

/-- What a prior state puts into a cell when it is handed to an element: itself, if the element
binds the cell and the prior state has its type. -/
def returned? (e : Element) (prior : Datum) (cell : Cell) : Option Datum :=
  match e.action with
  | .bind bound _ => if bound = cell then prior.as? cell.type else none
  | _ => none

/-- A surface after a prior state was handed to an element. -/
def handBack (x : Element × Datum) (s : Surface) : Surface := (x.1.restore x.2 s).2

theorem restore_bind {e : Element} {cell : Cell} {value : Datum} (h : e.action = .bind cell value)
    (prior : Datum) (s : Surface) : e.restore prior s = (none, putBack cell prior s) := by
  rw [restore, h]

/-- A prior state of another type is ignored. -/
theorem restore_foreign {e : Element} {cell : Cell} {value prior : Datum}
    (h : e.action = .bind cell value) (ht : prior.type ≠ cell.type) (s : Surface) :
    e.restore prior s = (none, s) := by
  rw [restore_bind h, putBack, if_neg ht]

theorem handBack_cells {e : Element} (h : e.IsBinding) (prior : Datum) (s : Surface) (cell : Cell) :
    (handBack (e, prior) s).cells cell = (e.returned? prior cell).getD (s.cells cell) := by
  obtain ⟨bound, value, he⟩ := h
  rw [handBack, restore_bind he, returned?, he]
  dsimp only
  by_cases hb : bound = cell
  · subst hb
    rw [if_pos rfl, Datum.as?]
    by_cases ht : prior.type = bound.type
    · rw [putBack_cells ht, Cells.set_self, if_pos ht]
      rfl
    · rw [putBack, if_neg ht, if_neg ht]
      rfl
  · rw [putBack_of_ne (Ne.symm hb), if_neg hb]
    rfl

/-- Bindings take back prior states without a panic, the last one first. -/
theorem restoreAll_reverse {xs : List (Element × Datum)} (h : ∀ x ∈ xs, x.1.IsBinding)
    (s : Surface) : restoreAll xs.reverse s = (none, xs.foldr handBack s) := by
  induction xs with
  | nil => rfl
  | cons x xs ih =>
    obtain ⟨hx, hxs⟩ := List.forall_mem_cons.mp h
    obtain ⟨bound, value, he⟩ := hx
    have hrest := ih hxs
    rw [List.reverse_cons, restoreAll_concat (by rw [hrest]), hrest, List.foldr_cons, handBack,
      restore_bind he]

/-- A cell gets the first prior state that fits it, and otherwise keeps its value. -/
theorem foldr_handBack_cells {xs : List (Element × Datum)} (h : ∀ x ∈ xs, x.1.IsBinding)
    (s : Surface) (cell : Cell) : (xs.foldr handBack s).cells cell =
      (xs.findSome? fun x => x.1.returned? x.2 cell).getD (s.cells cell) := by
  induction xs with
  | nil => rfl
  | cons x xs ih =>
    obtain ⟨hx, hxs⟩ := List.forall_mem_cons.mp h
    rw [List.foldr_cons, handBack_cells hx, ih hxs, List.findSome?_cons]
    cases x.1.returned? x.2 cell <;> rfl

/-- Each of several bindings displaces what the one before it that binds the same cell put there,
and the first one what the cell held. -/
theorem installAll_bindings {es : List Element} (h : ∀ e ∈ es, e.IsBinding) (s : Surface) :
    ∃ priors t, installAll es s = (.ok priors, t) ∧ priors.length = es.length ∧
      ∀ (i : Nat) (e : Element) (cell : Cell) (value : Datum), es[i]? = some e →
        e.action = .bind cell value →
        priors[i]? = some ((held? (es.take i) cell).getD (s.cells cell)) := by
  induction es generalizing s with
  | nil =>
    refine ⟨[], s, rfl, rfl, fun i e cell value he => ?_⟩
    rw [List.getElem?_nil] at he
    cases he
  | cons e es ih =>
    obtain ⟨⟨bound, value, he⟩, hes⟩ := List.forall_mem_cons.mp h
    obtain ⟨hi, hx⟩ := exchange_bind he s
    obtain ⟨priors, t, hall, hlen, hprior⟩ := ih hes (s.setCell bound value)
    refine ⟨s.cells bound :: priors, t, by simp [installAll, hi, hall], by simp [hlen], ?_⟩
    intro i f cell v hf hv
    cases i with
    | zero =>
      cases hf
      cases he.symm.trans hv
      rfl
    | succ i =>
      rw [List.getElem?_cons_succ] at hf ⊢
      rw [hprior i f cell v hf hv, hx.installed, List.take_succ_cons, held?_cons]
      cases held? (es.take i) cell <;> rfl

end Element

namespace Context

/-! ## Tokens -/

/-- Entering a context of bindings succeeds, and its token holds what was current and one prior
state for each element. -/
theorem enter_bindings {c : Context} (h : ∀ e ∈ c.elements, e.IsBinding) (a : Ambient) :
    ∃ priors entered, c.enter a = (.ok ⟨a.current, .ofPriors priors⟩, entered) ∧
      priors.length = c.size ∧
      ∀ (i : Nat) (e : Element) (cell : Cell) (value : Datum), c.elements[i]? = some e →
        e.action = .bind cell value →
        priors[i]? = some ((Element.held? (c.elements.take i) cell).getD (a.cells cell)) := by
  obtain ⟨priors, s, hi, hlen, hprior⟩ := Element.installAll_bindings h a.surface
  refine ⟨priors, { surface := s, current := some c }, ?_, hlen, hprior⟩
  rw [enter, installInto_ok hi hlen]

/-- Prior states in another number than the elements are not handed to them. -/
theorem restoreInto_mismatch {d : Context} {priors : List Datum} (hne : priors ≠ [])
    (hl : priors.length ≠ d.elements.length) (s : Surface) :
    d.restoreInto (.ofPriors priors) s = (some Ambient.mismatch, s) := by
  unfold restoreInto
  split
  case h_1 hsaved =>
    match priors with
    | [] => exact absurd rfl hne
    | [_] => cases hsaved
    | _ :: _ :: _ => cases hsaved
  case h_2 e prior he hsaved =>
    match priors with
    | [] => exact absurd rfl hne
    | [_] =>
      rw [he] at hl
      exact absurd rfl hl
    | _ :: _ :: _ => cases hsaved
  case h_3 ps hsaved =>
    have hps : ps = priors := by
      match priors with
      | [] => exact absurd rfl hne
      | [_] => cases hsaved
      | _ :: _ :: _ =>
        cases hsaved
        rfl
    rw [if_neg]
    intro he
    rw [hps] at he
    exact hl he.symm
  case h_4 => rfl

theorem leave_eq {d : Context} (token : Token) {b : Ambient} {panicked : Option Payload}
    {s : Surface} (h : d.restoreInto token.saved b.surface = (panicked, s)) :
    d.leave token b = (panicked, { surface := s, current := token.previous }) := by
  rw [leave, h]

end Context

/-- Leaving a context of bindings on any thread with the token of another one, which was entered on
a thread in the state `a`. What was current there becomes current. A token of an empty context
does nothing else. One of a context of the same size hands each element, in the reverse order, the
prior state of its own position, which is ignored if its type is not that of the cell. Any other token
touches no cell, and leaving panics. -/
theorem leave_of_other (c d : Context) (hc : ∀ e ∈ c.elements, e.IsBinding)
    (hd : ∀ e ∈ d.elements, e.IsBinding) (a b : Ambient) :
    ∃ priors entered, c.enter a = (.ok ⟨a.current, .ofPriors priors⟩, entered) ∧
      priors.length = c.size ∧
      (∀ (i : Nat) (e : Element) (cell : Cell) (value : Datum), c.elements[i]? = some e →
        e.action = .bind cell value →
        priors[i]? = some ((Element.held? (c.elements.take i) cell).getD (a.cells cell))) ∧
      (d.leave ⟨a.current, .ofPriors priors⟩ b).2.current = a.current ∧
      (c.size = 0 →
        d.leave ⟨a.current, .ofPriors priors⟩ b = (none, { b with current := a.current })) ∧
      (c.size = d.size →
        d.leave ⟨a.current, .ofPriors priors⟩ b =
          (none, { surface := (d.elements.zip priors).foldr Element.handBack b.surface
                   current := a.current }) ∧
        (∀ cell, (d.leave ⟨a.current, .ofPriors priors⟩ b).2.cells cell =
          ((d.elements.zip priors).findSome? fun x => x.1.returned? x.2 cell).getD
            (b.cells cell)) ∧
        ∀ x ∈ d.elements.zip priors, ∀ cell value, x.1.action = .bind cell value →
          x.2.type ≠ cell.type → ∀ s, Element.handBack x s = s) ∧
      (c.size ≠ 0 → c.size ≠ d.size →
        d.leave ⟨a.current, .ofPriors priors⟩ b =
          (some Ambient.mismatch, { b with current := a.current })) := by
  obtain ⟨priors, entered, he, hlen, hprior⟩ := c.enter_bindings hc a
  refine ⟨priors, entered, he, hlen, hprior, rfl, fun hz => ?_, fun hsize => ?_,
    fun hz hsize => ?_⟩
  · rw [hz] at hlen
    obtain rfl : priors = [] := List.eq_nil_of_length_eq_zero hlen
    rfl
  · have hzip : ∀ x ∈ d.elements.zip priors, x.1.IsBinding := fun x hx =>
      hd x.1 (List.of_mem_zip hx).1
    have hleave := Context.leave_eq ⟨a.current, .ofPriors priors⟩
      ((Context.restoreInto_ofPriors (hlen.trans hsize) b.surface).trans
        (Element.restoreAll_reverse hzip b.surface))
    refine ⟨hleave, fun cell => ?_, fun x _ cell value hx ht s => ?_⟩
    · rw [hleave]
      exact Element.foldr_handBack_cells hzip b.surface cell
    · rw [Element.handBack, Element.restore_foreign hx ht]
  · refine Context.leave_eq _ (Context.restoreInto_mismatch (fun hnil => ?_) ?_ b.surface)
    · rw [hnil] at hlen
      exact hz hlen.symm
    · rw [hlen]
      exact hsize

/-- Two bindings of cells of different types. -/
def levelAndTag : Context :=
  ⟨1, [⟨"level", .bind levelCell (.nat32 5)⟩, ⟨"tag", .bind tagCell (.optionalText (some "t"))⟩]⟩

/-- Two bindings of one cell. -/
def tagTwice : Context :=
  ⟨2, [⟨"first", .bind tagCell (.optionalText none)⟩, ⟨"second", .bind tagCell (.optionalText none)⟩]⟩

def tagOnce : Context := ⟨3, [⟨"tag", .bind tagCell (.optionalText none)⟩]⟩

/-- The first prior state is foreign to the cell and the second one is not; a context with one
element less gets neither. -/
theorem leave_of_other_doubled :
    let a := (Ambient.ofCells .blank).setCell tagCell (.optionalText (some "old"))
    let token : Token := ⟨none, .many [.nat32 0, .optionalText (some "old")]⟩
    (∀ e ∈ levelAndTag.elements, e.IsBinding) ∧ (∀ e ∈ tagTwice.elements, e.IsBinding) ∧
      (∀ e ∈ tagOnce.elements, e.IsBinding) ∧ (levelAndTag.enter a).1 = .ok token ∧
      (tagTwice.leave token (.ofCells .blank)).1 = none ∧
      (tagTwice.leave token (.ofCells .blank)).2.cells tagCell = .optionalText (some "old") ∧
      tagOnce.leave token (.ofCells .blank) = (some Ambient.mismatch, .ofCells .blank) := by
  intro a token
  have hp : ∀ e ∈ levelAndTag.elements, e.IsBinding := by
    rintro e (_ | ⟨_, _ | ⟨_, he⟩⟩)
    · exact ⟨levelCell, .nat32 5, rfl⟩
    · exact ⟨tagCell, .optionalText (some "t"), rfl⟩
    · cases he
  have hd : ∀ e ∈ tagTwice.elements, e.IsBinding := by
    rintro e (_ | ⟨_, _ | ⟨_, he⟩⟩)
    · exact ⟨tagCell, .optionalText none, rfl⟩
    · exact ⟨tagCell, .optionalText none, rfl⟩
    · cases he
  have hs : ∀ e ∈ tagOnce.elements, e.IsBinding := fun e he => by
    rw [List.mem_singleton.mp he]
    exact ⟨tagCell, .optionalText none, rfl⟩
  have henter : (levelAndTag.enter a).1 = .ok token := rfl
  have htoken : ∀ {priors : List Datum} {entered : Ambient},
      levelAndTag.enter a = (.ok ⟨a.current, .ofPriors priors⟩, entered) → priors.length = levelAndTag.size →
      token = ⟨a.current, .ofPriors priors⟩ ∧ priors = [.nat32 0, .optionalText (some "old")] := by
    intro priors entered he hlen
    have h := Except.ok.inj (henter.symm.trans (congrArg Prod.fst he))
    match priors, hlen, h with
    | [_, _], _, h => exact ⟨h, (Saved.many.inj (Token.mk.inj h).2).symm⟩
  refine ⟨hp, hd, hs, henter, ?_⟩
  obtain ⟨priors, entered, he, hlen, -, -, -, hfit, -⟩ :=
    leave_of_other levelAndTag tagTwice hp hd a (.ofCells .blank)
  obtain ⟨priors', entered', he', hlen', -, -, -, -, hmismatch⟩ :=
    leave_of_other levelAndTag tagOnce hp hs a (.ofCells .blank)
  obtain ⟨ht, rfl⟩ := htoken he hlen
  obtain ⟨ht', rfl⟩ := htoken he' hlen'
  obtain ⟨hleave, hcells, -⟩ := hfit rfl
  refine ⟨?_, ?_, ?_⟩
  · rw [ht, hleave]
  · rw [ht, hcells]
    rfl
  · rw [ht', hmismatch (by decide) (by decide)]
    rfl

namespace Scenario.Contexts

/-! ## Threads -/

/-- What happens on threads: an operation on one of them, or anything else that changes its
state. -/
inductive Deed where
  | operate (t : Nat) (op : Op)
  | acts (t : Nat) (f : Ambient → Ambient)

/-- A context is left with the token of this number. -/
def Deed.uses (k : Nat) : Deed → Prop
  | .operate _ (.restore _ i) => i = k
  | _ => False

namespace Bench

def after (b : Bench) : Deed → Bench
  | .operate t op => ((b.step t op).map Prod.snd).getD b
  | .acts t f => { b with threads := b.threads.modify t f }

def afterAll (b : Bench) (ds : List Deed) : Bench := ds.foldl after b

/-- The context `n` is still there, and the token `k` was not used. -/
structure Holds (b : Bench) (n : Nat) (c : Context) (k : Nat) (token : Token) : Prop where
  context : b.contexts[n]? = some c
  token : b.tokens[k]? = some (some token)

variable {b : Bench} {n k : Nat} {c : Context} {token : Token}

theorem Holds.setThread (h : b.Holds n c k token) (t : Nat) (a : Ambient) :
    (b.setThread t a).Holds n c k token := ⟨h.context, h.token⟩

theorem Holds.addContext (h : b.Holds n c k token) (d : Context) :
    { b with contexts := b.contexts ++ [d] }.Holds n c k token := by
  refine ⟨?_, h.token⟩
  obtain ⟨hn, he⟩ := List.getElem?_eq_some_iff.mp h.context
  exact (List.getElem?_append_left hn).trans h.context

theorem Holds.addToken (h : b.Holds n c k token) (other : Token) :
    { b with tokens := b.tokens ++ [some other] }.Holds n c k token := by
  refine ⟨h.context, ?_⟩
  obtain ⟨hk, he⟩ := List.getElem?_eq_some_iff.mp h.token
  exact (List.getElem?_append_left hk).trans h.token

theorem Holds.useToken (h : b.Holds n c k token) {i : Nat} (hi : i ≠ k) :
    { b with tokens := b.tokens.set i none }.Holds n c k token :=
  ⟨h.context, (List.getElem?_set_ne hi).trans h.token⟩

/-- No operation takes a context away, and only leaving a context with a token uses it up. -/
theorem Holds.perform (h : b.Holds n c k token) (t : Nat) (a : Ambient) {op : Op}
    (hop : ¬ (Deed.operate t op).uses k) : (b.perform t a op).2.Holds n c k token := by
  cases op with
  | add base e =>
    unfold Bench.perform
    dsimp only
    split
    · exact h
    · exact h.addContext _
  | enter i =>
    unfold Bench.perform
    dsimp only
    split
    · exact h
    · split
      · exact h.setThread t _
      · exact ⟨h.context, h.token⟩
  | dropGuard g =>
    unfold Bench.perform
    dsimp only
    split
    · exact h
    · split <;> exact ⟨h.context, h.token⟩
  | guardContext g =>
    unfold Bench.perform
    dsimp only
    split <;> exact h
  | detach g =>
    unfold Bench.perform
    dsimp only
    split
    · exact h
    · exact ⟨h.context, (h.addToken _).token⟩
  | update i =>
    unfold Bench.perform
    dsimp only
    split
    · exact h
    · split
      · exact h.setThread t _
      · exact (h.setThread t _).addToken _
  | restore i l =>
    have hl : l ≠ k := hop
    unfold Bench.perform
    dsimp only
    split
    · exact h
    · split
      · exact h
      · split <;> exact (h.useToken hl).setThread t _
  | previous l =>
    unfold Bench.perform
    dsimp only
    split <;> exact h
  | get i key =>
    unfold Bench.perform
    dsimp only
    split <;> exact h
  | same i l =>
    unfold Bench.perform
    dsimp only
    split <;> exact h
  | set cell value => exact h.setThread t _
  | task kind context writes panicked run =>
    unfold Bench.perform
    dsimp only
    split
    · exact h
    · split
      · exact h.setThread t _
      · exact h
  | _ => exact h

theorem Holds.after (h : b.Holds n c k token) {d : Deed} (hd : ¬ d.uses k) :
    (b.after d).Holds n c k token := by
  cases d with
  | acts t f => exact ⟨h.context, h.token⟩
  | operate t op =>
    unfold Bench.after step
    dsimp only
    cases b.threads[t]? with
    | none => exact h
    | some a => exact (h.perform t a.forgetNotes hd).setThread t _

/-- A context and a token stay as long as nothing uses the token. -/
theorem Holds.afterAll (h : b.Holds n c k token) {ds : List Deed} (hds : ∀ d ∈ ds, ¬ d.uses k) :
    (b.afterAll ds).Holds n c k token :=
  List.foldlRecOn (motive := fun b => b.Holds n c k token) ds Bench.after h
    fun _ hb d hd => hb.after (hds d hd)

/-- Entering a context with a token. -/
theorem step_update {t : Nat} {a a' : Ambient} (ht : b.threads[t]? = some a)
    (hn : b.contexts[n]? = some c) (he : c.enter a.forgetNotes = (.ok token, a')) :
    ∃ seen, b.step t (.update n) = some (seen,
        { b with threads := b.threads.set t a'.forgetNotes, tokens := b.tokens ++ [some token] }) ∧
      seen.reply = .token b.tokens.length := by
  obtain ⟨hlt, -⟩ := List.getElem?_eq_some_iff.mp ht
  have hset : (b.threads.set t a')[t]? = some a' := List.getElem?_set_self hlt
  refine ⟨⟨.token b.tokens.length, a'.cells, b.which a'.current, a'.surface.notes⟩, ?_, rfl⟩
  simp [step, perform, ht, hn, he, setThread, hset, which]

/-- Leaving a context with a token that was kept. -/
theorem Holds.step_restore (h : b.Holds n c k token) {t : Nat} {x y : Ambient}
    (ht : b.threads[t]? = some x) (hl : c.leave token x.forgetNotes = (none, y)) :
    ∃ seen, b.step t (.restore n k) = some (seen,
        { b with threads := b.threads.set t y.forgetNotes, tokens := b.tokens.set k none }) ∧
      seen.reply = .restored := by
  obtain ⟨hlt, -⟩ := List.getElem?_eq_some_iff.mp ht
  have hset : (b.threads.set t y)[t]? = some y := List.getElem?_set_self hlt
  refine ⟨⟨.restored, y.cells, b.which y.current, y.surface.notes⟩, ?_, rfl⟩
  simp [step, Bench.perform, ht, h.context, h.token, hl, Bench.setThread, hset, which]

end Bench

end Scenario.Contexts

open Scenario.Contexts in
/-- A context of bindings is entered on a thread in the state `a`. Whatever happens on any threads
after that, as long as the token is not used, the context can be left with it on every thread `t`:
each cell that it binds gets what it held in `a`, and so does what is current; `t` keeps its other
cells, and no other thread changes. -/
theorem token_carries {b : Bench} {n s : Nat} {c : Context} {a : Ambient}
    (hn : b.contexts[n]? = some c) (hc : ∀ e ∈ c.elements, e.IsBinding)
    (hs : b.threads[s]? = some a) (ha : a.Typed) {ds : List Deed}
    (hds : ∀ d ∈ ds, ¬ d.uses b.tokens.length) :
    ∃ seen entered, b.step s (.update n) = some (seen, entered) ∧
      seen.reply = .token b.tokens.length ∧
      ∀ t x, (entered.afterAll ds).threads[t]? = some x →
        ∃ seen left y,
          (entered.afterAll ds).step t (.restore n b.tokens.length) = some (seen, left) ∧
          seen.reply = .restored ∧ left.threads[t]? = some y ∧ y.current = a.current ∧
          (∀ cell, y.cells cell =
            if (Element.held? c.elements cell).isSome then a.cells cell else x.cells cell) ∧
          ∀ u, u ≠ t → left.threads[u]? = (entered.afterAll ds).threads[u]? := by
  obtain ⟨saved, surface, he, hx⟩ := c.exchange_enter
    (fun e h => ⟨(hc e h).restorable, (hc e h).balks_eq⟩) a.forgetNotes
  obtain ⟨seen, hstep, hreply⟩ := Bench.step_update hs hn he
  refine ⟨seen, _, hstep, hreply, ?_⟩
  generalize hb : ({ b with
    threads := b.threads.set s (Ambient.forgetNotes { surface, current := some c })
    tokens := b.tokens ++ [some ⟨a.forgetNotes.current, saved⟩] } : Bench) = entered
  have hentered : entered.Holds n c b.tokens.length ⟨a.current, saved⟩ := by
    rw [← hb]
    exact ⟨hn, List.getElem?_concat_length⟩
  have hkept := hentered.afterAll hds
  generalize entered.afterAll ds = kept at hkept
  intro t x ht
  obtain ⟨hlt, -⟩ := List.getElem?_eq_some_iff.mp ht
  have hleave : c.leave ⟨a.current, saved⟩ x.forgetNotes =
      (none, ⟨(c.restoreInto saved x.forgetNotes.surface).2, a.current⟩) :=
    Context.leave_eq _ (Prod.ext (hx.calm _) rfl)
  obtain ⟨seen', hstep', hreply'⟩ := hkept.step_restore ht hleave
  exact ⟨seen', _, _, hstep', hreply', List.getElem?_set_self hlt, rfl,
    fun cell => hx.restored x.forgetNotes.surface cell (ha cell),
    fun u hu => List.getElem?_set_ne (Ne.symm hu)⟩

open Scenario.Contexts in
/-- Two threads, whose cells differ, and a context. -/
def desk : Bench where
  threads := [.ofCells .blank, (Ambient.ofCells .blank).setCell levelCell (.nat32 9)]
  contexts := [.empty, twofold]

open Scenario.Contexts in
/-- The first thread is overwritten, and the second one enters the context as well. -/
def meanwhile : List Deed :=
  [.acts 0 fun a => a.setCell levelCell (.nat32 99),
    .operate 1 (.set tagCell (.optionalText (some "seen"))), .operate 1 (.update 1)]

open Scenario.Contexts in
/-- The token of the first thread is used on the second one. -/
theorem token_carries_meanwhile :
    desk.contexts[1]? = some twofold ∧ (∀ e ∈ twofold.elements, e.IsBinding) ∧
      desk.threads[0]? = some (.ofCells .blank) ∧ (Ambient.ofCells .blank).Typed ∧
      (∀ d ∈ meanwhile, ¬ d.uses desk.tokens.length) ∧
      ∃ y, ((desk.after (.operate 0 (.update 1))).afterAll meanwhile |>.after
          (.operate 1 (.restore 1 0))).threads[1]? = some y ∧
        y.current = none ∧ y.cells levelCell = .nat32 0 ∧
        y.cells tagCell = .optionalText (some "seen") := by
  have hbind : ∀ e ∈ twofold.elements, e.IsBinding := by
    rintro e (_ | ⟨_, _ | ⟨_, he⟩⟩)
    · exact ⟨levelCell, .nat32 5, rfl⟩
    · exact ⟨levelCell, .nat32 6, rfl⟩
    · cases he
  have hunused : ∀ d ∈ meanwhile, ¬ d.uses desk.tokens.length := by
    simp [meanwhile, Deed.uses]
  refine ⟨rfl, hbind, rfl, typed_blank, hunused, ?_⟩
  obtain ⟨seen, entered, hstep, -, hleave⟩ :=
    token_carries (b := desk) (n := 1) (s := 0) rfl hbind rfl typed_blank hunused
  have hentered : desk.after (.operate 0 (.update 1)) = entered := by
    rw [Bench.after, hstep]
    rfl
  rw [hentered]
  obtain ⟨x, hx, htag⟩ : ∃ x, (entered.afterAll meanwhile).threads[1]? = some x ∧
      x.cells tagCell = .optionalText (some "seen") := by
    rw [← hentered]
    exact ⟨_, rfl, rfl⟩
  obtain ⟨seen', left, y, hrestore, -, hy, hcurrent, hcells, -⟩ := hleave 1 x hx
  refine ⟨y, ?_, hcurrent, ?_, ?_⟩
  · rw [Bench.after, show (0 : Nat) = desk.tokens.length from rfl, hrestore]
    exact hy
  · rw [hcells]
    rfl
  · rw [hcells, ← htag]
    rfl

end Workforce
