import TripleChain.Triple
import TripleChain.Data.SortedMap
/-!
# Unification of two triples

Two triples unify when they can describe the same triple. Place by place, constants must be equal,
and wherever a variable stands on either side the two sites are paired. The variables of the two
triples have nothing to do with each other, even under one name. A variable that faces constants
must face the same one everywhere; variables that face each other are left alone.
-/

namespace TripleChain

abbrev SiteMap := SortedMap Site Site

/-- Two triples unified from the left up to some place. -/
structure Unifier where
  /-- The sites paired so far. -/
  sites : SiteMap
  /-- The constants that the variables of the first triple face. -/
  ours : SortedMap Variable Term
  /-- The constants that the variables of the second triple face. -/
  theirs : SortedMap Variable Term

/-- Records that a variable faces a constant, unless it has faced another. -/
def face? (seen : SortedMap Variable Term) (v : Variable) (t : Term) : Option (SortedMap Variable Term) :=
  match seen.get? v with
  | some u => if u = t then some seen else none
  | none => some (seen.insert v t)

/-- Unifies at one more place. -/
def Unifier.step? (p q : Triple) (u : Unifier) (at_ : Position) : Option Unifier :=
  let sites := u.sites.insert (p.site at_) (q.site at_)
  match p.term at_, q.term at_ with
  -- Two variables say nothing about a term.
  | .var _, .var _ => some { u with sites }
  | .var v, t => (face? u.ours v t).map fun ours => { u with sites, ours }
  | t, .var v => (face? u.theirs v t).map fun theirs => { u with sites, theirs }
  | s, t => if s = t then some u else none

/-- The pairs of sites that unify two triples, if they unify. -/
def Triple.unify? (p q : Triple) : Option SiteMap :=
  (Position.all.foldlM (Unifier.step? p q) ⟨∅, ∅, ∅⟩).map Unifier.sites

end TripleChain
