import Mathlib.Data.List.Dedup
import Workforce.Proofs.Context.Tokens

/-
  What a context holds, from the elements that were added on the way to it. Of the additions those
  stand that no later one of the same key replaces (`Element.standing`), in their order: the keys
  of a context are those of its lineage with all but the last occurrences struck out, and a key
  finds the last element added under it (`HoldsLastOf`). Contexts are made from one another in any
  pattern, on any thread and between any other operations. `lineages` follows who was made from
  whom; a new context is an old one's elements with one more addition, and no operation changes a
  context that was already made (`holdsLastOf_afterAll`).
-/

namespace Workforce

/-! ## Additions that stand -/

namespace Element

/-- The elements that no later one of the same key replaces, in order. -/
def standing : List Element → List Element
  | [] => []
  | e :: es => if e.key ∈ es.map key then standing es else e :: standing es

/-- The last element of a key. -/
def LastOf (key : String) (e : Element) (es : List Element) : Prop :=
  ∃ before after, es = before ++ e :: after ∧ e.key = key ∧ ∀ x ∈ after, x.key ≠ key

theorem keys_standing (es : List Element) : (standing es).map key = (es.map key).dedup := by
  induction es with
  | nil => rfl
  | cons e es ih =>
    rw [standing, List.map_cons]
    split
    case isTrue h => rw [List.dedup_cons_of_mem h, ih]
    case isFalse h => rw [List.dedup_cons_of_notMem h, List.map_cons, ih]

/-- A later element takes the place of the one with its key, at the end. -/
theorem standing_concat (es : List Element) (e : Element) :
    standing (es ++ [e]) = (standing es).filter (fun x => x.key ≠ e.key) ++ [e] := by
  induction es with
  | nil => rfl
  | cons x es ih =>
    have hmem : x.key ∈ (es ++ [e]).map key ↔ x.key ∈ es.map key ∨ x.key = e.key := by simp
    rw [List.cons_append, standing, standing, ih]
    by_cases hx : x.key = e.key
    case pos =>
      rw [if_pos (hmem.mpr (.inr hx))]
      split
      case isTrue => rfl
      case isFalse => rw [List.filter_cons_of_neg (by simpa using hx)]
    case neg =>
      by_cases hes : x.key ∈ es.map key
      case pos => rw [if_pos (hmem.mpr (.inl hes)), if_pos hes]
      case neg =>
        rw [if_neg fun h => (hmem.mp h).elim hes hx, if_neg hes,
          List.filter_cons_of_pos (by simpa using hx), List.cons_append]

theorem lastOf_cons {key : String} {e x : Element} {es : List Element} :
    LastOf key e (x :: es) ↔
      LastOf key e es ∨ x = e ∧ e.key = key ∧ ∀ y ∈ es, y.key ≠ key := by
  constructor
  · rintro ⟨before, after, h, he, hafter⟩
    cases before with
    | nil =>
      obtain ⟨rfl, rfl⟩ := List.cons.inj h
      exact .inr ⟨rfl, he, hafter⟩
    | cons y before => exact .inl ⟨before, after, (List.cons.inj h).2, he, hafter⟩
  · rintro (⟨before, after, rfl, he, hafter⟩ | ⟨rfl, he, hes⟩)
    · exact ⟨x :: before, after, rfl, he, hafter⟩
    · exact ⟨[], es, rfl, he, hes⟩

theorem LastOf.mem_keys {key : String} {e : Element} {es : List Element} (h : LastOf key e es) :
    key ∈ es.map Element.key := by
  obtain ⟨before, after, rfl, rfl, -⟩ := h
  simp

/-- Of those that stand, the one with a key is the last one of that key. -/
theorem find?_standing {key : String} {e : Element} {es : List Element} :
    (standing es).find? (fun x => x.key = key) = some e ↔ LastOf key e es := by
  induction es with
  | nil => simp [standing, LastOf]
  | cons x es ih =>
    rw [standing, lastOf_cons, ← ih]
    split
    case isTrue hx =>
      refine ⟨.inl, fun h => h.elim id ?_⟩
      rintro ⟨rfl, rfl, hes⟩
      obtain ⟨y, hy, hkey⟩ := List.mem_map.mp hx
      exact absurd hkey (hes y hy)
    case isFalse hx =>
      by_cases hkey : x.key = key
      case pos =>
        subst hkey
        rw [List.find?_cons_of_pos (by simp)]
        constructor
        · intro h
          cases h
          exact .inr ⟨rfl, rfl, fun y hy h => hx (h ▸ List.mem_map_of_mem hy)⟩
        · rintro (h | ⟨rfl, -⟩)
          · exact absurd (ih.mp h).mem_keys hx
          · rfl
      case neg =>
        rw [List.find?_cons_of_neg (by simpa using hkey)]
        refine ⟨.inl, fun h => h.elim id ?_⟩
        rintro ⟨rfl, h, -⟩
        exact absurd h hkey

end Element

/-! ## Contexts -/

namespace Context

/-- The context holds the last of each key among some additions, in the order of these (`dedup`
keeps last occurrences). -/
structure HoldsLastOf (c : Context) (es : List Element) : Prop where
  distinct : c.keys.Nodup
  ordered : c.keys = (es.map Element.key).dedup
  found : ∀ key e, c.get? key = some e ↔ Element.LastOf key e es
  absent : ∀ key, c.get? key = none ↔ ∀ e ∈ es, e.key ≠ key

theorem holdsLastOf_of_elements {c : Context} {es : List Element}
    (h : c.elements = Element.standing es) : c.HoldsLastOf es := by
  have hkeys : c.keys = (es.map Element.key).dedup := by rw [keys, h, Element.keys_standing]
  refine ⟨hkeys ▸ List.nodup_dedup _, hkeys, fun key e => ?_, fun key => ?_⟩
  · rw [get?, h, Element.find?_standing]
  · have hnone : c.get? key = none ↔ key ∉ c.keys := by simp [get?, keys]
    rw [hnone, hkeys, List.mem_dedup]
    simp

/-- One more addition. -/
theorem elements_add {c : Context} {es : List Element} (h : c.elements = Element.standing es)
    (serial : Nat) (e : Element) : (c.add serial e).elements = Element.standing (es ++ [e]) := by
  rw [Element.standing_concat, add, h]

end Context

/-! ## Benches -/

namespace Scenario.Contexts

/-- Who was made from whom: for each context the elements that were added on the way to it, one
after the other, from the empty context on. An addition makes a context if its thread and its base
exist. -/
def descend (threads : Nat) (ls : List (List Element)) : Deed → List (List Element)
  | .operate t (.add base e) =>
    if t < threads then ls ++ (ls[base]?.map (· ++ [e])).toList else ls
  | _ => ls

/-- The lineages of the contexts that there are after some deeds. -/
def lineages (threads : Nat) (ds : List Deed) : List (List Element) :=
  ds.foldl (descend threads) [[]]

namespace Bench

variable {b : Bench} {ls : List (List Element)}

/-- The context that an operation makes. -/
def made? (b : Bench) : Op → Option Context
  | .add base e => b.contexts[base]?.map fun c => c.add b.contexts.length e
  | _ => none

theorem setThread_contexts (t : Nat) (a : Ambient) : (b.setThread t a).contexts = b.contexts := rfl

theorem setThread_threads_length (t : Nat) (a : Ambient) :
    (b.setThread t a).threads.length = b.threads.length := by
  rw [setThread, List.length_set]

/-- Contexts are only ever added, by the one operation that does so; threads stay as many. -/
theorem perform_contexts (t : Nat) (a : Ambient) (op : Op) :
    (b.perform t a op).2.contexts = b.contexts ++ (b.made? op).toList ∧
      (b.perform t a op).2.threads.length = b.threads.length := by
  cases op with
  | add base e =>
    rw [perform, made?]
    cases b.contexts[base]? with
    | none => simp
    | some c => simp
  | _ =>
    simp only [perform, made?, Option.toList_none, List.append_nil]
    repeat' split
    all_goals simp [setThread_contexts, setThread_threads_length]

/-- The context that a deed makes. -/
def begotten? (b : Bench) : Deed → Option Context
  | .operate t op => if t < b.threads.length then b.made? op else none
  | .acts _ _ => none

theorem after_contexts (d : Deed) :
    (b.after d).contexts = b.contexts ++ (b.begotten? d).toList ∧
      (b.after d).threads.length = b.threads.length := by
  cases d with
  | acts t f => simp [after, begotten?]
  | operate t op =>
    rw [after, step, begotten?]
    cases ht : b.threads[t]? with
    | none => simp [Nat.not_lt.mpr (List.getElem?_eq_none_iff.mp ht)]
    | some a =>
      rw [if_pos (List.getElem?_eq_some_iff.mp ht).1]
      have h := perform_contexts (b := b) t a.forgetNotes op
      simpa [setThread_contexts, setThread_threads_length] using h

/-- Each context has what stands of its lineage. -/
def Descended (b : Bench) (ls : List (List Element)) : Prop :=
  b.contexts.map Context.elements = ls.map Element.standing

theorem Descended.after (h : b.Descended ls) (d : Deed) :
    (b.after d).Descended (descend b.threads.length ls d) := by
  unfold Descended at h ⊢
  rw [(after_contexts d).1]
  cases d with
  | acts t f => simpa [descend, begotten?] using h
  | operate t op =>
    rw [begotten?]
    cases op with
    | add base e =>
      rw [descend]
      split
      case isFalse => simpa using h
      case isTrue =>
        rw [List.map_append, List.map_append, h, made?]
        have hbase : (b.contexts[base]?).map Context.elements = (ls[base]?).map Element.standing := by
          rw [← List.getElem?_map, ← List.getElem?_map, h]
        cases hls : ls[base]? with
        | none =>
          rw [hls, Option.map_none, Option.map_eq_none_iff] at hbase
          rw [hbase]
          rfl
        | some es =>
          rw [hls, Option.map_some, Option.map_eq_some_iff] at hbase
          obtain ⟨c, hc, hes⟩ := hbase
          rw [hc]
          simp [Context.elements_add hes]
    | _ => simpa [descend, made?] using h

theorem descended_afterAll (h : b.Descended ls) (ds : List Deed) :
    (b.afterAll ds).Descended (ds.foldl (descend b.threads.length) ls) := by
  induction ds generalizing b ls with
  | nil => exact h
  | cons d ds ih =>
    have hd := ih (h.after d)
    rw [(after_contexts d).2] at hd
    exact hd

/-- What was made stays as it is. -/
theorem contexts_afterAll (b : Bench) (ds : List Deed) :
    b.contexts <+: (b.afterAll ds).contexts := by
  induction ds generalizing b with
  | nil => exact List.prefix_rfl
  | cons d ds ih =>
    refine List.IsPrefix.trans ?_ (ih (b.after d))
    rw [(after_contexts d).1]
    exact List.prefix_append _ _

/-- After any operations on any threads, every context holds the last of each key among the
elements added on the way to it, in the order of these additions; and it keeps them under all
further operations. -/
theorem holdsLastOf_afterAll (threads : List Ambient) (ds : List Deed) :
    List.Forall₂ Context.HoldsLastOf (afterAll { threads } ds).contexts
        (lineages threads.length ds) ∧
      ∀ more, (afterAll { threads } ds).contexts <+:
        (afterAll { threads } (ds ++ more)).contexts := by
  constructor
  · have hstart : Descended { threads } [[]] := by simp [Descended, Context.empty, Element.standing]
    have h : (afterAll { threads } ds).Descended (lineages threads.length ds) :=
      descended_afterAll hstart ds
    rw [Descended, ← List.forall₂_eq_eq_eq, List.forall₂_map_left_iff,
      List.forall₂_map_right_iff] at h
    exact h.imp fun c es => Context.holdsLastOf_of_elements
  · intro more
    rw [afterAll, afterAll, List.foldl_append]
    exact contexts_afterAll _ more

end Bench

end Scenario.Contexts

end Workforce
