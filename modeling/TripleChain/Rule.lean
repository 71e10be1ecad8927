import TripleChain.Handler
/-!
# Rules

A rule leads from an antecedent to a consequent: its handler turns bindings of the one into bindings of
the other. A sink has no consequent and only takes bindings. A proactive rule has no handler; it stands
for a goal (an antecedent to be answered) or a premise (a consequent that is given).
-/

namespace TripleChain

/-- What a rule does. -/
inductive Role where
  /-- Starts a plan. -/
  | proactive
  /-- Turns bindings of the antecedent into bindings of the consequent. -/
  | transform (h : Handler)
  /-- Takes bindings of the antecedent. -/
  | sink (f : BindingSet → Except Failure Unit)

namespace Role

/-- The name of the role. -/
def name : Role → String
  | proactive => "proactive"
  | transform _ => "transform"
  | sink _ => "sink"

/-- True when a rule with the given sides can have the role. -/
def admits (r : Role) (antecedent consequent : Pattern) : Bool :=
  match r with
  | proactive => !(antecedent.isEmpty && consequent.isEmpty)
  | transform _ => !consequent.isEmpty
  | sink _ => !antecedent.isEmpty && consequent.isEmpty

end Role

/-- A rule. -/
structure Rule where
  /-- The name that the rule was given. -/
  name : Option String
  antecedent : Pattern
  consequent : Pattern
  role : Role
  /-- The role suits the sides. -/
  admitted : role.admits antecedent consequent = true

namespace Rule

/-- A rule with a handler. -/
def withHandler (antecedent consequent : Pattern) (h : Handler) : Except Failure Rule :=
  if hc : consequent.isEmpty then
    if antecedent.isEmpty then .error .emptyRule
    else
      .error ((Failure.ofCode .missingHandler "A rule without a consequent needs a sink handler").withField
        "antecedent" (Pattern.text antecedent))
  else .ok ⟨none, antecedent, consequent, .transform h, by simp [Role.admits, hc]⟩

/-- The rule that holds whenever its antecedent does: the consequent takes over the terms. -/
def ofPatterns (antecedent consequent : Pattern) : Except Failure Rule :=
  withHandler antecedent consequent (.copy (Pattern.vars consequent))

/-- A rule that takes bindings. -/
def sink (antecedent : Pattern) (f : BindingSet → Except Failure Unit) : Except Failure Rule :=
  if h : antecedent.isEmpty then .error .emptyRule
  else .ok ⟨none, antecedent, ∅, .sink f, by simp [Role.admits, h]; rfl⟩

/-- A rule that starts a plan. -/
def proactive (antecedent consequent : Pattern) : Except Failure Rule :=
  if h : (antecedent.isEmpty && consequent.isEmpty) = true then .error .emptyRule
  else .ok ⟨none, antecedent, consequent, .proactive,
    by simpa only [Role.admits, Bool.not_eq_true', Bool.not_eq_true] using h⟩

def named (r : Rule) (name : String) : Rule := { r with name := some name }

/-- True for rules that start plans. -/
def isProactive (r : Rule) : Bool :=
  match r.role with
  | .proactive => true
  | _ => false

/-- True for rules that only take bindings. -/
def isSink (r : Rule) : Bool :=
  match r.role with
  | .sink _ => true
  | _ => false

def text (r : Rule) : String := Pattern.text r.antecedent ++ " -> " ++ Pattern.text r.consequent

end Rule

end TripleChain
