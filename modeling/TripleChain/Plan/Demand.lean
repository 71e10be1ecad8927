import TripleChain.Plan
import TripleChain.SiteBindingSet
/-!
# Demand

What each node of a backward plan is asked for. The start node is asked for the input. What a node is asked
for is carried through its matches to its producers, loops included, until nothing is added any more.
-/

namespace TripleChain

abbrev Demands := SortedMap NodeId BindingSet

namespace Demands

def of (d : Demands) (id : NodeId) : BindingSet := (d.get? id).getD ∅

/-- Asks a node for more. -/
def add (d : Demands) (id : NodeId) (s : BindingSet) : Demands := d.insert id ((d.of id).union s)

def total (d : Demands) : Nat := d.values.foldl (fun n s => n + s.size) 0

end Demands

/-- What a demand on an antecedent asks of a producer with the given consequent. The biggest match may ask a
producer for more than it can give in one piece, so that parts are asked for too. -/
def wantedThrough (strategy : Strategy) (demand : SiteBindingSet) (consequent : Pattern) (found : MatchSet) :
    BindingSet :=
  found.toList.foldl (fun wanted m =>
    let carried := demand.carryThrough consequent [m]
    let carried :=
      if strategy == .biggest && m.size > 1 then carried.restrictionsOver (.ofList m.targets)
      else carried
    wanted.union carried.toBindings) ∅

namespace Graph

/-- What a node asks of each of its producers when it is itself asked for some bindings. -/
def requests (g : Graph) (strategy : Strategy) (n : Node) (demand : BindingSet) : List (NodeId × BindingSet) :=
  if demand.isEmpty || n.rule.antecedent.isEmpty then []
  else
    let source := SiteBindingSet.ofBindings n.rule.antecedent demand
    n.allProducers.filterMap fun (id, found) =>
      (g.node? id).map fun producer => (id, wantedThrough strategy source producer.rule.consequent found)

/-- Carries the demand on one node to its producers. -/
def passDemand (g : Graph) (strategy : Strategy) (d : Demands) (id : NodeId) : Demands :=
  match g.node? id with
  | none => d
  | some n => (g.requests strategy n (d.of id)).foldl (fun d r => d.add r.1 r.2) d

/-- Carries the demand on every node to its producers, again and again until nothing is added. None if that
takes more than the given number of rounds. -/
def settleDemand (g : Graph) (strategy : Strategy) : Nat → Demands → Option Demands
  | 0, _ => none
  | rounds + 1, d =>
    let d' := (List.range g.size).foldl (g.passDemand strategy) d
    if d'.total = d.total then some d' else g.settleDemand strategy rounds d'

end Graph

def BindingSet.unconstrained : BindingSet := .singleton ∅

namespace Plan

/-- What each node is asked for when the plan is run with some bindings. Forward plans ask for nothing in
particular. -/
def demandsFor (p : Plan) (rounds : Nat) (bindings : BindingSet) : Option Demands :=
  if p.isBackward then
    p.graph.settleDemand p.options.strategy rounds ((∅ : Demands).insert start bindings)
  else some (.ofList (p.nodeIds.map fun id => (id, .unconstrained)))

/-- The plan with other demands on its nodes. -/
def withDemands (p : Plan) (d : Demands) : Plan :=
  p.nodeIds.foldl (fun p id => p.update id fun s => { s with demand := d.of id }) p

end Plan

end TripleChain
