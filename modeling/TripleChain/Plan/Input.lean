import TripleChain.Plan
import TripleChain.SiteBindingSet
/-!
# The input of a node

The bindings of the antecedent of a node, put together from what its producers have given so far. Every
output is carried through the matches to the antecedent and joined with what came before; what binds
the whole antecedent counts. A node with triggers takes only what one of these has a part in.
-/

namespace TripleChain

/-- Bindings of an antecedent under way. -/
structure Assembly where
  /-- The joined bindings. -/
  combined : SiteBindingSet
  /-- The bindings that came from a trigger. -/
  triggering : SiteBindingSet

namespace Assembly

def empty (antecedent : Pattern) : Assembly := ⟨.empty antecedent, .empty antecedent⟩

/-- Joins what a producer gives through one match. The biggest match may cover more than is needed, so that
the parts of what comes through it count too. -/
def joinThrough (strategy : Strategy) (produced : SiteBindingSet) (isTrigger : Bool) (a : Assembly) (m : Match) :
    Assembly :=
  let carried := produced.carryThrough a.combined.pattern [m]
  let carried := if strategy == .biggest then carried.withPartials else carried
  { combined := a.combined.merge carried
    triggering := if isTrigger then a.triggering.extend carried else a.triggering }

end Assembly

namespace Plan

/-- Joins what a producer of the node `id` gives. -/
def joinProducer (p : Plan) (id : NodeId) (n : Node) (a : Assembly) (producer : NodeId) : Assembly :=
  let output := (p.progressOf producer).output
  match p.graph.node? producer with
  | none => a
  | some source =>
    if output.isEmpty then a
    else
      match source.matchesTo? id with
      | none => a
      | some found =>
        let produced := SiteBindingSet.ofBindings source.rule.consequent output
        found.toList.foldl (Assembly.joinThrough p.options.strategy produced (n.triggers.contains producer)) a

/-- The bindings of the antecedent of a node. Without antecedent these are what the node is asked for. -/
def nodeInput (p : Plan) (id : NodeId) (n : Node) : BindingSet :=
  let demand := (p.progressOf id).demand
  if n.rule.antecedent.isEmpty then demand
  else
    let a := (n.allProducers.map (·.1)).foldl (p.joinProducer id n) (.empty n.rule.antecedent)
    if n.triggers.isEmpty then BindingSet.keepCompatible a.combined.full.toBindings demand
    else (a.combined.full.keepFullIncorporating a.triggering).toBindings

end Plan

end TripleChain
