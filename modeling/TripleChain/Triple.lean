import TripleChain.Term
import TripleChain.Data.SortedSet
/-!
# Triples, sites and patterns

A triple may hold a variable in any of its three places. A site is one place of one triple: the same
variable has a site wherever it occurs. A pattern is a set of triples that are meant to hold
together.
-/

open Std

namespace TripleChain

/-- A place in a triple. -/
inductive Position where
  | subject
  | predicate
  | object
  deriving DecidableEq, Inhabited

namespace Position

/-- The three places, in order. -/
def all : List Position := [.subject, .predicate, .object]

/-- The place as a number. -/
def rank : Position → Nat
  | subject => 0
  | predicate => 1
  | object => 2

/-- The name of the place. -/
def name : Position → String
  | subject => "subject"
  | predicate => "predicate"
  | object => "object"

/-- Places are ordered from left to right. -/
instance : Ord Position := ⟨compareOn rank⟩

instance : TransOrd Position := inferInstanceAs (TransCmp (compareOn rank))

instance : LawfulEqOrd Position where
  eq_of_compare {a b} h := by
    have h : compare a.rank b.rank = .eq := h
    have := Std.compare_eq_iff_eq.1 h
    cases a <;> cases b <;> simp_all [rank]

theorem mem_all (p : Position) : p ∈ all := by cases p <;> simp [all]

end Position

/-- A triple of terms, any of which may be a variable. -/
structure Triple where
  subject : Term
  predicate : Term
  object : Term
  deriving DecidableEq, Inhabited

/-- One place of one triple. -/
structure Site where
  triple : Triple
  position : Position
  deriving DecidableEq, Inhabited

namespace Triple

/-- Triples are compared from left to right. -/
def order : Triple → Triple → Ordering :=
  compareLex (compareOn Triple.subject) <| compareLex (compareOn Triple.predicate) (compareOn Triple.object)

instance : Ord Triple := ⟨order⟩

instance : TransOrd Triple := by
  show TransCmp order
  unfold order
  infer_instance

instance : LawfulEqOrd Triple where
  eq_of_compare {a b} h := by
    have h : order a b = .eq := h
    simp only [order, compareLex_eq_eq, compareOn, Std.compare_eq_iff_eq] at h
    cases a; cases b; simp_all

/-- The term at a place. -/
def term (t : Triple) : Position → Term
  | .subject => t.subject
  | .predicate => t.predicate
  | .object => t.object

def terms (t : Triple) : List Term := Position.all.map t.term

def hasVariables (t : Triple) : Bool := t.terms.any Term.isVariable

def variablePositions (t : Triple) : List Position := Position.all.filter fun p => (t.term p).isVariable

def vars (t : Triple) : SortedSet Variable := .ofList (t.terms.filterMap Term.toVariable?)

def site (t : Triple) (p : Position) : Site := ⟨t, p⟩

def variableSites (t : Triple) : List Site := t.variablePositions.map t.site

/-- The written form: the three terms with blanks between. -/
def text (t : Triple) : String := " ".intercalate (t.terms.map Term.text)

end Triple

namespace Site

/-- Sites are compared by triple, then by place. -/
def order : Site → Site → Ordering := compareLex (compareOn Site.triple) (compareOn Site.position)

instance : Ord Site := ⟨order⟩

instance : TransOrd Site := by
  show TransCmp order
  unfold order
  infer_instance

instance : LawfulEqOrd Site where
  eq_of_compare {a b} h := by
    have h : order a b = .eq := h
    simp only [order, compareLex_eq_eq, compareOn, Std.compare_eq_iff_eq] at h
    cases a; cases b; simp_all

def term (s : Site) : Term := s.triple.term s.position

def toVariable? (s : Site) : Option Variable := s.term.toVariable?

/-- The site as a label: its term and the triple around it. -/
def label (s : Site) : String := s.term.text ++ "@[" ++ s.triple.text ++ "]"

end Site

/-- A set of triples that are meant to hold together. -/
abbrev Pattern := SortedSet Triple

namespace Pattern

def vars (p : Pattern) : SortedSet Variable := .ofList (p.toList.flatMap fun t => t.vars.toList)

def variableSites (p : Pattern) : SortedSet Site := .ofList (p.toList.flatMap Triple.variableSites)

/-- The written form: the triples with full stops between. -/
def text (p : Pattern) : String := " . ".intercalate (p.toList.map Triple.text)

theorem mem_variableSites {p : Pattern} {s : Site} :
    s ∈ p.variableSites ↔ s.triple ∈ p ∧ s.term.isVariable = true := by
  rw [variableSites, SortedSet.mem_ofList]
  simp only [List.mem_flatMap, Triple.variableSites, Triple.variablePositions, List.mem_map, List.mem_filter,
    SortedSet.mem_def]
  constructor
  · rintro ⟨t, ht, q, ⟨_, hq⟩, rfl⟩
    exact ⟨ht, hq⟩
  · rintro ⟨ht, hv⟩
    exact ⟨s.triple, ht, s.position, ⟨Position.mem_all _, hv⟩, rfl⟩

end Pattern

end TripleChain
