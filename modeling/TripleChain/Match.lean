import TripleChain.Unify
/-!
# Matches

A match lines up triples of one pattern with triples of another, each triple with at most one, and
carries the pairs of sites that this makes. Matches are built from single pairs (`Match.between?`) by
merging. They are compared by their triples only: the sites follow from these.
-/

open Std

namespace TripleChain

/-- Triples of one pattern lined up with triples of another. -/
structure Match where
  /-- The triples that are lined up. -/
  triples : SortedMap Triple Triple
  /-- The sites that face each other. -/
  sites : SiteMap
  deriving DecidableEq, Inhabited

namespace Match

/-- Matches are compared by their triples. -/
instance : Ord Match := ⟨compareOn Match.triples⟩

instance : TransOrd Match := inferInstanceAs (TransCmp (compareOn Match.triples))

/-- The match of two triples that unify. -/
def between? (p q : Triple) : Option Match :=
  (p.unify? q).map fun sites => ⟨(∅ : SortedMap Triple Triple).insert p q, sites⟩

def size (m : Match) : Nat := m.triples.size

def sources (m : Match) : List Triple := m.triples.keys

def targets (m : Match) : List Triple := m.triples.values

def swapEntries {α : Type} (l : List (α × α)) : List (α × α) := l.map Prod.swap

/-- The match seen from the second pattern. -/
def inverse (m : Match) : Match :=
  ⟨.ofList (swapEntries m.triples.entries), .ofList (swapEntries m.sites.entries)⟩

/-- True when every pair of triples and every pair of sites is in `n`, and the sites hold the same
terms there. -/
def isSubMatch (m n : Match) : Bool :=
  (m.triples.all fun p q => n.triples.get? p == some q) &&
    m.sites.all fun u v => match n.sites.get? u with
      | some w => w == v && w.term == v.term
      | none => false

/-- The triples of both maps, unless one of them is lined up in both. -/
def mergeTriples? (a b : SortedMap Triple Triple) : Option (SortedMap Triple Triple) :=
  if b.any fun p q => a.contains p || a.values.contains q then none else some (a.insertAll b.entries)

/-- True when two pairs of sites agree: they hold the same term on one side exactly when they do on
the other. -/
def agree (e f : Site × Site) : Bool := (e.1.term == f.1.term) == (e.2.term == f.2.term)

/-- The sites of both maps, unless some pairs do not agree. -/
def mergeSites? (a b : SiteMap) : Option SiteMap :=
  if b.entries.all fun f => a.entries.all fun e => agree e f then some (a.insertAll b.entries) else none

/-- Two matches as one, if they are consistent: no triple is lined up in both, and one term on either
side faces one term on the other. -/
def merge? (m n : Match) : Option Match := do
  let triples ← mergeTriples? m.triples n.triples
  let sites ← mergeSites? m.sites n.sites
  some ⟨triples, sites⟩

/-- The written form: the pairs of triples in the order of the first. -/
def text (m : Match) : String :=
  "\x7b" ++ ", ".intercalate (m.triples.entries.map fun (p, q) => "[" ++ p.text ++ "]=[" ++ q.text ++ "]") ++
    "\x7d"

end Match

/-- A set of matches, each pairing of triples once. -/
abbrev MatchSet := SortedSet Match

def MatchSet.inverse (s : MatchSet) : MatchSet := .ofList (s.toList.map Match.inverse)

end TripleChain
