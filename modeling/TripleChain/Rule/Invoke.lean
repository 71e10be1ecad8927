import TripleChain.Rule.Name
/-!
# Invoking rules
-/

namespace TripleChain.Rule

/-- What the rule makes of bindings. A sink gives nothing back; a proactive rule cannot be asked. -/
def invoke (r : Rule) (s : BindingSet) : Except Failure BindingSet :=
  match r.role with
  | .proactive =>
    .error ((Failure.ofCode .unexpectedState "Proactive rules have no handler to invoke").withField
      "rule" r.displayName)
  | .transform h => h.handle s
  | .sink f => (f s).map fun _ => ∅

end TripleChain.Rule
