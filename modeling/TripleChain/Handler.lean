import TripleChain.Table
/-!
# Handlers

A handler turns bindings of the antecedent of a rule into bindings of its consequent, or fails.
-/

namespace TripleChain

/-- How the bindings of an antecedent become bindings of a consequent. -/
inductive Handler where
  /-- Copies the terms of the given variables. -/
  | copy (vars : SortedSet Variable)
  /-- Looks the bindings up in a table. -/
  | lookUp (t : Table)
  /-- Anything else. -/
  | custom (f : BindingSet → Except Failure BindingSet)

namespace Handler

/-- The terms of the given variables, all of which must be bound. -/
def project (vars : SortedSet Variable) (b : Binding) : Except Failure Binding :=
  (vars.toList.mapM fun v => match b.get? v with
    | some t => Except.ok (v, t)
    | none => .error (Failure.missingVariable v.name)).map .ofList

/-- What the handler makes of bindings. -/
def handle : Handler → BindingSet → Except Failure BindingSet
  | copy vars, s => (s.toList.mapM (project vars)).map .ofList
  | lookUp t, s => .ok (t.answer s)
  | custom f, s => f s

end Handler

end TripleChain
