import TripleChain.RuleStore
import TripleChain.Rule.Name
/-!
# Rule graphs

The rules of a store drawn as a directed graph in the language of Graphviz: a node for each rule and
an edge from each rule to those that it can feed.
-/

namespace TripleChain.RuleStore

/-- The line that declares the node of a rule. -/
def nodeLine (id : RuleId) (r : Rule) : String :=
  let escaped (s : String) := String.ofList (escapeQuoted s.toList)
  "  r" ++ toString id ++ " [label=\"" ++ escaped r.generatedName ++ "\" tooltip=\"" ++ escaped r.text ++
    "\"]\n"

/-- The lines for the edges that lead to a rule. -/
def edgeLines (id : RuleId) (feeding : List Neighbor) : String :=
  String.join (feeding.map fun n => "  r" ++ toString n.id ++ " -> r" ++ toString id ++ "\n")

/-- The questions that the edges answer. -/
def edgeQueries (s : RuleStore) (strategy : Strategy) : List NeighborQuery :=
  (List.range s.size).map fun id => ⟨id, .antecedent, strategy⟩

/-- The graph of the rules. -/
def graphviz (s : RuleStore) (strategy : Strategy) : String :=
  let nodes := s.rules.mapIdx nodeLine
  let edges := (s.edgeQueries strategy).map fun q => edgeLines q.rule ((s.neighbors? q).getD [])
  "digraph \x7b\n" ++ String.join nodes ++ String.join edges ++ "\x7d"

/-- The store after its graph has been drawn: all edges are remembered. -/
def rememberEdges (s : RuleStore) (strategy : Strategy) : RuleStore :=
  (s.edgeQueries strategy).foldl remember s

end TripleChain.RuleStore
