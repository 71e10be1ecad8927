import TripleChain.Vocabulary
/-!
# Prefix tables

The labels that a text may put before a colon, each with the namespace it stands for. A table keeps
the order in which labels were first declared; declaring one again changes its namespace only.
-/

namespace TripleChain

/-- Labels with their namespaces, in order of first declaration. -/
structure Prefixes where
  entries : List (String × String)
  deriving DecidableEq, Inhabited

namespace Prefixes

/-- Gives a label its namespace, in place or at the end. -/
def declareIn (label iri : String) : List (String × String) → List (String × String)
  | [] => [(label, iri)]
  | e :: rest => if e.1 = label then (label, iri) :: rest else e :: declareIn label iri rest

def declare (p : Prefixes) (label iri : String) : Prefixes := ⟨declareIn label iri p.entries⟩

/-- Declares labels one after the other. -/
def declareAll (p : Prefixes) (l : List (String × String)) : Prefixes :=
  l.foldl (fun p e => p.declare e.1 e.2) p

/-- The labels that need no declaration. -/
def standard : Prefixes :=
  ⟨[("rdf", Vocabulary.rdf), ("rdfs", Vocabulary.rdfs), ("xsd", Vocabulary.xsd), ("owl", Vocabulary.owl)]⟩

/-- The namespace of a label. -/
def find? (p : Prefixes) (label : String) : Option String :=
  (p.entries.find? fun e => e.1 == label).map (·.2)

theorem find?_declare (p : Prefixes) (label iri x : String) :
    (p.declare label iri).find? x = if label = x then some iri else p.find? x := by
  obtain ⟨l⟩ := p
  simp only [find?, declare]
  induction l with
  | nil => by_cases h : label = x <;> simp [declareIn, h]
  | cons e rest ih =>
    by_cases he : e.1 = label
    · by_cases h : label = x <;> simp [declareIn, he, h]
    · by_cases hx : e.1 = x
      · have hlx : label ≠ x := fun h => he (hx.trans h.symm)
        rw [declareIn, if_neg he, if_neg hlx]
        simp [hx]
      · simp [declareIn, he, hx, ih]

end Prefixes

end TripleChain
