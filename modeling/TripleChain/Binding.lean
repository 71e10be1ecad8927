import TripleChain.Triple
import TripleChain.Json
import TripleChain.Data.SortedMap
import TripleChain.Data.InsertionSet
/-!
# Bindings

A binding gives terms to variables by name. A binding set is what handlers take and return: its
bindings are kept in order of arrival, but which set it is does not depend on that order. Written out,
the bindings are sorted, so that the output does not show the order in which they were found.
-/

open Std

namespace TripleChain

/-- Terms given to variables. -/
structure Binding where
  values : SortedMap Variable Term
  deriving DecidableEq, Inhabited

namespace Binding

/-- Bindings are compared entry by entry, variable before term. -/
instance : Ord Binding := ⟨compareOn Binding.values⟩

instance : TransOrd Binding := inferInstanceAs (TransCmp (compareOn Binding.values))

instance : LawfulEqOrd Binding where
  eq_of_compare {a b} h := by
    have h : compare a.values b.values = .eq := h
    have := Std.compare_eq_iff_eq.1 h
    cases a; cases b; simp_all

def empty : Binding := ⟨∅⟩

instance : EmptyCollection Binding := ⟨empty⟩

/-- Binds a variable, in place of what it was bound to. -/
def insert (b : Binding) (v : Variable) (t : Term) : Binding := ⟨b.values.insert v t⟩

/-- The binding with the given entries: of two for one variable the later counts. -/
def ofList (l : List (Variable × Term)) : Binding := ⟨.ofList l⟩

def get? (b : Binding) (v : Variable) : Option Term := b.values.get? v

/-- The entries in the order of their variables. -/
def entries (b : Binding) : List (Variable × Term) := b.values.entries

/-- The bound variables in order. -/
def vars (b : Binding) : List Variable := b.values.keys

def isEmpty (b : Binding) : Bool := b.values.isEmpty

def size (b : Binding) : Nat := b.values.size

/-- True when no variable is bound to two different terms. -/
def compatible (a b : Binding) : Bool :=
  a.entries.all fun (v, t) => match b.get? v with
    | some u => u == t
    | none => true

/-- The union of two compatible bindings. -/
def merge? (a b : Binding) : Option Binding :=
  if a.compatible b then
    some ⟨a.values.insertAll (b.entries.filter fun (v, _) => !a.values.contains v)⟩
  else none

/-- The part that binds the given variables. -/
def restrict (b : Binding) (vars : SortedSet Variable) : Binding :=
  ⟨b.values.filter fun v _ => vars.contains v⟩

/-- The written form. -/
def text (b : Binding) : String :=
  "\x7b" ++ ", ".intercalate (b.entries.map fun (v, t) => v.text ++ "=" ++ t.text) ++ "\x7d"

def toJson (b : Binding) : Json := .object (b.entries.map fun (v, t) => (v.name, .string t.text))

end Binding

/-- A set of bindings in order of arrival. -/
abbrev BindingSet := InsertionSet Binding

namespace BindingSet

/-- Every compatible pair of a binding of `s` and one of `t`, united. -/
def merge (s t : BindingSet) : BindingSet :=
  .ofList (s.toList.flatMap fun a => t.toList.filterMap fun b => a.merge? b)

/-- The bindings compatible with some binding of `demand`. An empty demand, or one with the empty
binding, keeps all. -/
def keepCompatible (s demand : BindingSet) : BindingSet :=
  if demand.isEmpty || demand.any Binding.isEmpty then s
  else s.filter fun b => demand.any b.compatible

/-- The bindings in ascending order. -/
def sorted (s : BindingSet) : List Binding := s.toList.mergeSort fun a b => (compare a b).isLE

/-- The written form: a line for each binding, sorted. -/
def text (s : BindingSet) : String := String.join (s.sorted.map fun b => b.text ++ "\n")

/-- The bindings, sorted, as a JSON array. -/
def toJson (s : BindingSet) : Json := .array (s.sorted.map Binding.toJson)

/-- The bindings in order of arrival, between braces. -/
def label (s : BindingSet) : String := "\x7b" ++ ", ".intercalate (s.toList.map Binding.text) ++ "\x7d"

end BindingSet

end TripleChain
