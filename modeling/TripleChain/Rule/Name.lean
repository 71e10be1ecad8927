import TripleChain.Rule
import TripleChain.Text.Visible
/-!
# Names of rules

A rule without a name of its own is called after its patterns: after the classes in its type triples
and the constants in all others. Different rules may come to the same name.
-/

namespace TripleChain

/-- The local name of an IRI; other terms as they are written. -/
def Term.shortName : Term → String
  | .iri text => (splitIri text).2
  | t => t.text

/-- True when a word occurs in the characters. -/
def Text.occurs (word : List Char) : List Char → Bool
  | [] => word.isEmpty
  | c :: rest => word.isPrefixOf (c :: rest) || occurs word rest

/-- True for a triple whose predicate is an IRI with `type` in it. -/
def Triple.isTyping (t : Triple) : Bool :=
  match t.predicate with
  | .iri text => Text.occurs ['t', 'y', 'p', 'e'] text.toList
  | _ => false

/-- The name of a triple: its class, if it gives one, or its constants. -/
def Triple.shortName (t : Triple) : String :=
  if t.isTyping && !t.object.isVariable then t.object.shortName
  else
    match (t.terms.filter (!·.isVariable)).map Term.shortName with
    | [] => "unknown"
    | parts => " ".intercalate parts

def Pattern.shortName (p : Pattern) : String := " ".intercalate (p.toList.map Triple.shortName)

namespace Rule

/-- The name made from the patterns. -/
def generatedName (r : Rule) : String :=
  let antecedent := Pattern.shortName r.antecedent
  let consequent := Pattern.shortName r.consequent
  if antecedent.isEmpty then "-> " ++ consequent
  else if consequent.isEmpty then antecedent ++ " ->"
  else antecedent ++ " -> " ++ consequent

/-- The name that the rule was given, or else the one made from its patterns. -/
def displayName (r : Rule) : String := r.name.getD r.generatedName

/-- The parts of the rule, each by its name. -/
def description (r : Rule) : String :=
  let name := match r.name with
    | some n => "Some(" ++ Text.quoted n ++ ")"
    | none => "None"
  "Rule \x7b name: " ++ name ++ ", kind: " ++ Text.quoted r.role.name ++
    ", antecedent: " ++ Text.quoted (Pattern.text r.antecedent) ++
    ", consequent: " ++ Text.quoted (Pattern.text r.consequent) ++ " \x7d"

end Rule

end TripleChain
