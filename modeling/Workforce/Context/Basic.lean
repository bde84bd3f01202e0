import Workforce.Context.Element
import Workforce.Text.Quoted

/-
  Execution contexts: immutable lists of elements, at most one for each key. Adding an element
  drops the one with its key and appends the new one, so keys stand in the order in which they
  were last written. A context also has a serial number, which tells snapshots with equal
  elements apart; the empty context is one shared snapshot with the serial number zero.
-/

namespace Workforce

/-- A snapshot of ambient state. -/
structure Context where
  serial : Nat
  elements : List Element
  deriving Repr, DecidableEq

namespace Context

/-- The shared empty context. -/
def empty : Context := ⟨0, []⟩

/-- The context with one element added, as a new snapshot with the given serial number. -/
def add (c : Context) (serial : Nat) (e : Element) : Context :=
  ⟨serial, c.elements.filter (fun x => x.key ≠ e.key) ++ [e]⟩

/-- The context of a list of elements, added one after the other. -/
def ofElements (serial : Nat) (es : List Element) : Context :=
  es.foldl (fun c e => c.add serial e) empty

def get? (c : Context) (key : String) : Option Element := c.elements.find? fun e => e.key = key

def keys (c : Context) : List String := c.elements.map Element.key

def size (c : Context) : Nat := c.elements.length

def isEmpty (c : Context) : Bool := c.elements.isEmpty

/-- Two contexts are the same snapshot. -/
def same (c d : Context) : Bool := c.serial = d.serial

/-- How a context is shown. -/
def render (c : Context) : String := Text.Quoted.encodeList c.keys

theorem keys_add (c : Context) (serial : Nat) (e : Element) :
    (c.add serial e).keys = c.keys.filter (fun k => k ≠ e.key) ++ [e.key] := by
  simp only [keys, add, List.map_append, List.map_cons, List.map_nil, List.filter_map]
  rfl

theorem get?_add_self (c : Context) (serial : Nat) (e : Element) :
    (c.add serial e).get? e.key = some e := by
  have h : c.elements.find? (fun _ => false) = none := by simp
  simp [get?, add, List.find?_append, List.find?_filter, h]

end Context

end Workforce
