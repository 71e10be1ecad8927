import TripleChain.Match
import TripleChain.Binding
/-!
# Site bindings

A binding by name cannot tell apart the places where a variable occurs, so the chaining itself binds
sites: one place of one triple each. All sites of one variable are to hold the same term. The terms are
kept by variable as well, so that two site bindings can be compared by name.

`SiteBinding.carryThrough` carries a site binding through a match to the other pattern.
-/

namespace TripleChain

/-- Terms given to sites. -/
structure SiteBinding where
  /-- The term of each bound site. -/
  sites : SortedMap Site Term
  /-- The term of each bound variable. -/
  vars : SortedMap Variable Term
  deriving DecidableEq, Inhabited

namespace SiteBinding

def empty : SiteBinding := ⟨∅, ∅⟩

instance : EmptyCollection SiteBinding := ⟨empty⟩

/-- Binds a site that holds a variable; a site that holds a constant is passed over. -/
def put (b : SiteBinding) (s : Site) (t : Term) : SiteBinding :=
  match s.toVariable? with
  | some v => ⟨b.sites.insert s t, b.vars.insert v t⟩
  | none => b

def putAll (b : SiteBinding) (l : List (Site × Term)) : SiteBinding := l.foldl (fun b e => b.put e.1 e.2) b

/-- Spreads a binding by name over the sites of a pattern. -/
def ofBinding (p : Pattern) (b : Binding) : SiteBinding :=
  (∅ : SiteBinding).putAll <| p.toList.flatMap fun t => t.variableSites.filterMap fun s => do
    let v ← s.toVariable?
    let value ← b.get? v
    some (s, value)

def toBinding (b : SiteBinding) : Binding := ⟨b.vars⟩

/-- The bound sites with their terms, in order. -/
def entries (b : SiteBinding) : List (Site × Term) := b.sites.entries

def get? (b : SiteBinding) (s : Site) : Option Term := b.sites.get? s

def binds (b : SiteBinding) (s : Site) : Bool := b.sites.contains s

def valueOf? (b : SiteBinding) (v : Variable) : Option Term := b.vars.get? v

def size (b : SiteBinding) : Nat := b.sites.size

def isEmpty (b : SiteBinding) : Bool := b.sites.isEmpty

def touched (b : SiteBinding) : SortedSet Triple := .ofList (b.sites.keys.map Site.triple)

/-- True when some variable has a different term in each. -/
def conflicts (a b : SiteBinding) : Bool :=
  a.vars.any fun v t => match b.vars.get? v with
    | some u => u != t
    | none => false

def merge (a b : SiteBinding) : SiteBinding := a.putAll b.entries

/-- True when every site of `b` is bound to the same term in `a`. -/
def incorporates (a b : SiteBinding) : Bool := b.sites.all fun s t => a.get? s == some t

/-- The sites in the given triples. -/
def restrict (b : SiteBinding) (triples : List Triple) : SiteBinding :=
  (∅ : SiteBinding).putAll (b.entries.filter fun e => triples.contains e.1.triple)

def covers (b : SiteBinding) (sites : SortedSet Site) : Bool := sites.all b.binds

/-- The bound sites in order, between braces. -/
def label (b : SiteBinding) : String :=
  "\x7b" ++ ", ".intercalate (b.entries.map fun (s, t) => s.label ++ ": " ++ t.text) ++ "\x7d"

/-! ## Carrying over -/

/-- Carries the term of one site to the site that faces it. Refused when the variable there has another
term already, or when the term meets another constant. -/
def carry? (source : SiteBinding) (target : SiteBinding) (e : Site × Site) : Option SiteBinding :=
  match e.1.toVariable?, e.2.toVariable? with
  -- From variable to variable: the term is carried if there is one.
  | some _, some v =>
    match source.get? e.1 with
    | none => some target
    | some value =>
      match target.valueOf? v with
      | some current => if current = value then some (target.put e.2 value) else none
      | none => some (target.put e.2 value)
  -- From variable to constant: nothing is bound, but the term must be the constant.
  | some _, none =>
    match source.get? e.1 with
    | some value => if value = e.2.term then some target else none
    | none => some target
  -- From constant to variable: the constant is bound.
  | none, some v =>
    match target.valueOf? v with
    | some current => if current = e.1.term then some (target.put e.2 e.1.term) else none
    | none => some (target.put e.2 e.1.term)
  | none, none => some target

/-- Carries the terms of a pair of triples over. -/
def carryTriple? (source target : SiteBinding) (e : Triple × Triple) : Option SiteBinding :=
  match e.1.unify? e.2 with
  | some sites => sites.entries.foldlM (carry? source) target
  | none => some target

/-- The binding of the second pattern that a match makes of a binding of the first, unless it
contradicts a constant or a term carried before. -/
def carryThrough (m : Match) (b : SiteBinding) : Option SiteBinding :=
  m.triples.entries.foldlM (carryTriple? b) ∅

end SiteBinding

end TripleChain
