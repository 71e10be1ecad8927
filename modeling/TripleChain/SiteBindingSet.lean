import TripleChain.SiteBinding
/-!
# Sets of site bindings

Site bindings of one pattern. A binding is full when it binds every site of the pattern that holds a
variable. The operations are those by which the input of a rule is put together from what other rules
produced: carry through matches, enrich by parts, join what does not conflict.
-/

namespace TripleChain

/-- Site bindings of a pattern in order of arrival. -/
structure SiteBindingSet where
  pattern : Pattern
  bindings : InsertionSet SiteBinding

namespace SiteBindingSet

def empty (p : Pattern) : SiteBindingSet := ⟨p, ∅⟩

/-- A binding set by name, spread over the sites of a pattern. -/
def ofBindings (p : Pattern) (s : BindingSet) : SiteBindingSet := ⟨p, s.map (SiteBinding.ofBinding p)⟩

def toBindings (s : SiteBindingSet) : BindingSet := s.bindings.map SiteBinding.toBinding

/-- The bindings in order of arrival. -/
def toList (s : SiteBindingSet) : List SiteBinding := s.bindings.toList

def size (s : SiteBindingSet) : Nat := s.bindings.size

def isEmpty (s : SiteBindingSet) : Bool := s.bindings.isEmpty

def contains (s : SiteBindingSet) (b : SiteBinding) : Bool := s.bindings.contains b

/-- Adds the bindings of a list. -/
def addAll (s : SiteBindingSet) (l : List SiteBinding) : SiteBindingSet :=
  { s with bindings := s.bindings.insertAll l }

def extend (s t : SiteBindingSet) : SiteBindingSet := s.addAll t.toList

/-- The bindings that pass a test. -/
def filter (s : SiteBindingSet) (p : SiteBinding → Bool) : SiteBindingSet :=
  { s with bindings := s.bindings.filter p }

/-- The same pattern and the same bindings, in whatever order. -/
def same (s t : SiteBindingSet) : Bool := s.pattern == t.pattern && s.bindings.sameElements t.bindings

/-- True when a binding binds every site of the pattern that holds a variable. -/
def isFull (s : SiteBindingSet) (b : SiteBinding) : Bool := b.covers s.pattern.variableSites

/-- The full bindings. -/
def full (s : SiteBindingSet) : SiteBindingSet :=
  let sites := s.pattern.variableSites
  s.filter (·.covers sites)

/-- The bindings that are not full. -/
def partials (s : SiteBindingSet) : SiteBindingSet :=
  let sites := s.pattern.variableSites
  s.filter (!·.covers sites)

/-- Every pair without conflict, joined. Joined with no binding at all, `t` stays as it is. -/
def combine (s t : SiteBindingSet) : SiteBindingSet :=
  if s.isEmpty then s.extend t
  else
    (empty s.pattern).addAll <| s.toList.flatMap fun a =>
      t.toList.filterMap fun b => if a.conflicts b then none else some (a.merge b)

def merge (s t : SiteBindingSet) : SiteBindingSet := ((s.combine t).extend t).extend s

/-- The bindings carried through matches to the pattern `target`. -/
def carryThrough (s : SiteBindingSet) (target : Pattern) (ms : List Match) : SiteBindingSet :=
  (empty target).addAll (ms.flatMap fun m => s.toList.filterMap (SiteBinding.carryThrough m))

/-- The bindings without conflict with some binding of `t`. An empty `t`, or one with the empty
binding, keeps all. -/
def keepCompatible (s t : SiteBindingSet) : SiteBindingSet :=
  if t.isEmpty || t.bindings.any SiteBinding.isEmpty then s
  else s.filter fun b => t.bindings.any fun c => !b.conflicts c

/-- The full bindings that incorporate some binding of `triggers`. -/
def keepFullIncorporating (s triggers : SiteBindingSet) : SiteBindingSet :=
  s.full.filter fun b => triggers.bindings.any b.incorporates

/-- The sublists of a list, the empty one first; each element doubles what is there. -/
def subsets {α : Type} (l : List α) : List (List α) :=
  l.foldl (fun acc a => acc ++ acc.map (· ++ [a])) [[]]

/-- The non-empty parts of a binding: its restrictions to sets of the triples it touches. -/
def parts (b : SiteBinding) : List SiteBinding :=
  ((subsets b.touched.toList).map b.restrict).filter (!·.isEmpty)

/-- The bindings and all their parts. A consumer that matches only some triples of a producer finds
the part that it needs. -/
def withPartials (s : SiteBindingSet) : SiteBindingSet := s.addAll (s.toList.flatMap parts)

/-- The restrictions of every binding to all sets of the given triples, the empty one included. -/
def restrictionsOver (s : SiteBindingSet) (triples : SortedSet Triple) : SiteBindingSet :=
  let all := subsets triples.toList
  (empty s.pattern).addAll (s.toList.flatMap fun b => all.map b.restrict)

/-- The written form: the bindings by name, sorted. -/
def text (s : SiteBindingSet) : String := s.toBindings.text

/-- The bindings in order of arrival, between braces. -/
def label (s : SiteBindingSet) : String := "\x7b" ++ ", ".intercalate (s.toList.map SiteBinding.label) ++ "\x7d"

/-- A triple as a binding sees it: bound sites by their terms, if it touches the triple at all. -/
def cell (b : SiteBinding) (t : Triple) : String :=
  if b.touched.contains t then
    " " ++ " ".intercalate (Position.all.map fun p => ((b.get? (t.site p)).getD (t.term p)).text) ++ " |"
  else "  |"

/-- A table with a row for each triple of the pattern and a column for each binding. -/
def table (s : SiteBindingSet) : String :=
  let heads := s.toList.mapIdx fun i _ => " Binding-" ++ toString i ++ " |"
  let rules := List.replicate (s.size + 1) "-------|"
  let rows := s.pattern.toList.map fun t =>
    "| " ++ t.text ++ " |" ++ String.join (s.toList.map (cell · t)) ++ "\n"
  "| Graph Pattern |" ++ String.join heads ++ "\n|" ++ String.join rules ++ "\n" ++ String.join rows

end SiteBindingSet

end TripleChain
