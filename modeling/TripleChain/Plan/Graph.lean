import TripleChain.RuleStore
/-!
# Reasoning graphs

The graph of a plan has a node for each rule that takes part. A producer of a node is a node whose
consequent matches the antecedent of the node; seen from there, the node is a consumer. A link that
would close a cycle is kept apart as a loop: data flow over it, but nobody waits for it.

`Graph.ofGoal` works back from a goal to everything that can answer it, `Graph.ofPremise` works on from a
premise to everything that can use it. Each rule becomes a node once, so the number of rules bounds how
deep either goes.
-/

namespace TripleChain

abbrev NodeId := Nat

def NodeId.label (id : NodeId) : String := "n" ++ toString id

/-- Which way the chaining went that made a node. -/
inductive Direction where
  | backward
  | forward
  deriving DecidableEq, Inhabited

namespace Direction

/-- The name of the direction. -/
def name : Direction → String
  | backward => "backward"
  | forward => "forward"

/-- The other direction. -/
def opposite : Direction → Direction
  | backward => forward
  | forward => backward

end Direction

abbrev Links := SortedMap NodeId MatchSet

/-- Adds matches to a node. -/
def Links.add (l : Links) (id : NodeId) (found : MatchSet) : Links :=
  l.insert id (((l.get? id).getD ∅).insertAll found.toList)

/-- A rule that takes part in a plan. -/
structure Node where
  ruleId : RuleId
  rule : Rule
  direction : Direction
  /-- The nodes that feed the antecedent, with the matches from it to their consequents. -/
  producers : Links
  /-- The nodes that the consequent feeds, with the matches from it to their antecedents. -/
  consumers : Links
  /-- Further producers, over loops. -/
  producerLoops : Links
  /-- Further consumers, over loops. -/
  consumerLoops : Links
  /-- The producers that this node continues when chaining forward. -/
  triggers : SortedSet NodeId
  /-- Whether the producers have been looked for. -/
  expandedBackward : Bool
  /-- Whether the consumers have been looked for. -/
  expandedForward : Bool

namespace Node

/-- A node without links. -/
def ofRule (ruleId : RuleId) (rule : Rule) (direction : Direction) : Node :=
  ⟨ruleId, rule, direction, ∅, ∅, ∅, ∅, ∅, false, false⟩

/-- All producers, those over loops last. -/
def allProducers (n : Node) : List (NodeId × MatchSet) := n.producers.entries ++ n.producerLoops.entries

/-- The matches from the consequent to the antecedent of a consumer. -/
def matchesTo? (n : Node) (consumer : NodeId) : Option MatchSet :=
  match n.consumers.get? consumer with
  | some found => some found
  | none => n.consumerLoops.get? consumer

/-- True when a triple of the antecedent is matched by no producer. -/
def hasGap (n : Node) : Bool :=
  let covered := n.allProducers.flatMap fun e => e.2.toList.flatMap Match.sources
  n.rule.antecedent.any fun t => !covered.contains t

/-- Adds matches to a producer. -/
def addProducer (n : Node) (producer : NodeId) (found : MatchSet) (cyclic : Bool) : Node :=
  if cyclic then { n with producerLoops := n.producerLoops.add producer found }
  else { n with producers := n.producers.add producer found }

/-- Adds matches to a consumer. -/
def addConsumer (n : Node) (consumer : NodeId) (found : MatchSet) (cyclic : Bool) : Node :=
  if cyclic then { n with consumerLoops := n.consumerLoops.add consumer found }
  else { n with consumers := n.consumers.add consumer found }

/-- Records that the node continues a producer. -/
def addTrigger (n : Node) (producer : NodeId) : Node := { n with triggers := n.triggers.insert producer }

end Node

/-- Nodes by number; the first is the start. -/
structure Graph where
  nodes : List Node

namespace Graph

def size (g : Graph) : Nat := g.nodes.length

def ofStart (ruleId : RuleId) (rule : Rule) (direction : Direction) : Graph := ⟨[.ofRule ruleId rule direction]⟩

def node? (g : Graph) (id : NodeId) : Option Node := g.nodes[id]?

def nodeOf? (g : Graph) (ruleId : RuleId) : Option NodeId := g.nodes.findIdx? (·.ruleId == ruleId)

/-- Adds a node, which gets the next number. -/
def add (g : Graph) (n : Node) : Graph := ⟨g.nodes ++ [n]⟩

def update (g : Graph) (id : NodeId) (f : Node → Node) : Graph := ⟨g.nodes.modify id f⟩

/-- Records that one node feeds another. The matches lead from the antecedent of the consumer to the
consequent of the producer. -/
def link (g : Graph) (producer consumer : NodeId) (found : MatchSet) (cyclic : Bool) : Graph :=
  (g.update consumer (·.addProducer producer found cyclic)).update producer
    (·.addConsumer consumer (MatchSet.inverse found) cyclic)

/-! ## Reach -/

/-- The nodes that a node feeds, loops apart. -/
def consumersOf (g : Graph) (id : NodeId) : List NodeId :=
  match g.node? id with
  | some n => n.consumers.keys
  | none => []

/-- The nodes that feed a node, loops apart. -/
def producersOf (g : Graph) (id : NodeId) : List NodeId :=
  match g.node? id with
  | some n => n.producers.keys
  | none => []

/-- The nodes reached in at most the given number of steps. -/
def reach (g : Graph) : Nat → SortedSet NodeId → SortedSet NodeId
  | 0, seen => seen
  | steps + 1, seen => g.reach steps (seen.insertAll (seen.toList.flatMap g.consumersOf))

/-- True when data flow from one node to another, loops apart. -/
def flowsTo (g : Graph) (source target : NodeId) : Bool :=
  (g.reach g.size (.singleton source)).contains target

/-! ## Growth -/

abbrev Neighborhood := Side → RuleId → List Neighbor

/-- Links the producers of a node and, where they are new, their producers in turn. The nodes on the way
from the start are in `chain`; `skip` is a rule that is not wanted as a producer. -/
def growBackward (near : Neighborhood) :
    Nat → Graph → NodeId → List NodeId → Option RuleId → Graph
  | 0, g, _, _, _ => g
  | depth + 1, g, id, chain, skip =>
    match g.node? id with
    | none => g
    | some n =>
      if n.expandedBackward then g
      else
        let grow (g : Graph) (p : Neighbor) : Graph :=
          if some p.id = skip then g
          else
            match g.nodeOf? p.id with
            | some producer => g.link producer id p.found (chain.contains producer || g.flowsTo id producer)
            | none =>
              -- The link to a new node cannot close a cycle.
              let producer := g.size
              let g := (g.add (.ofRule p.id p.rule .backward)).link producer id p.found false
              growBackward near depth g producer (producer :: chain) none
        (near .antecedent n.ruleId).foldl grow (g.update id fun n => { n with expandedBackward := true })

/-- Links the consumers of a node and, where they are new, their consumers in turn. A new consumer whose
antecedent no single match covers gets its other producers too, so that the missing triples can be
fetched. -/
def growForward (near : Neighborhood) (limit : Nat) : Nat → Graph → NodeId → List NodeId → Graph
  | 0, g, _, _ => g
  | depth + 1, g, id, chain =>
    match g.node? id with
    | none => g
    | some n =>
      if n.expandedForward then g
      else
        let grow (g : Graph) (c : Neighbor) : Graph :=
          let found := MatchSet.inverse c.found
          match g.nodeOf? c.id with
          | some consumer =>
            let cyclic := chain.contains consumer || g.flowsTo consumer id
            (g.link id consumer found cyclic).update consumer (·.addTrigger id)
          | none =>
            let consumer := g.size
            let g := (g.add (.ofRule c.id c.rule .forward)).link id consumer found false
            let g := g.update consumer (·.addTrigger id)
            -- Triples that this producer does not give have to come from somewhere else.
            let covered := c.found.any fun m => m.size == c.rule.antecedent.size
            let g := if covered then g else growBackward near limit g consumer [consumer] (some n.ruleId)
            growForward near limit depth g consumer (consumer :: chain)
        (near .consequent n.ruleId).foldl grow (g.update id fun n => { n with expandedForward := true })

/-- The graph behind a goal; `limit` is more than the number of rules. -/
def ofGoal (near : Neighborhood) (limit : Nat) (ruleId : RuleId) (rule : Rule) : Graph :=
  growBackward near limit (.ofStart ruleId rule .backward) 0 [0] none

/-- The graph that follows from a premise; `limit` is more than the number of rules. -/
def ofPremise (near : Neighborhood) (limit : Nat) (ruleId : RuleId) (rule : Rule) : Graph :=
  growForward near limit limit (.ofStart ruleId rule .forward) 0 [0]

/-! ## Order -/

/-- Takes nodes off a queue; a node joins the queue when the last of its producers is taken off. -/
def orderFrom (g : Graph) : Nat → List NodeId → List NodeId → List NodeId
  | 0, _, done => done
  | _, [], done => done
  | steps + 1, id :: queue, done =>
    let done := done ++ [id]
    let freed := (g.consumersOf id).filter fun c => (g.producersOf c).all done.contains
    g.orderFrom steps (queue ++ freed) done

/-- All nodes, producers before consumers. -/
def order (g : Graph) : List NodeId :=
  let ids := List.range g.size
  let done := g.orderFrom g.size (ids.filter fun id => (g.producersOf id).isEmpty) []
  done ++ ids.filter fun id => !done.contains id

end Graph

end TripleChain
