import TripleChain.Plan
/-!
# Plans as text

A plan is shown as a tree: each node with its stages, name and number, below it what it waits for or what
it leads to. A node that has been shown before is not followed again, so the number of nodes bounds how
deep the tree is.
-/

namespace TripleChain

def Progress.glyphs (q : Progress) : String := q.backward.glyph ++ q.forward.glyph

namespace Plan

def indent (depth : Nat) : String := String.ofList (List.replicate (2 * depth) ' ')

/-- The line of a node, but for its end. -/
def nodeHead (p : Plan) (id : NodeId) (n : Node) (depth : Nat) (mark : String) : String :=
  let q := p.progressOf id
  indent depth ++ mark ++ "[" ++ q.glyphs ++ "] " ++ n.rule.displayName ++ " (" ++ NodeId.label id ++ ")" ++
    (if n.hasGap then " gap" else "") ++ (if q.failed then " failed" else "")

/-- The line of a loop. -/
def loopLine (p : Plan) (depth : Nat) (id : NodeId) : String :=
  match p.graph.node? id with
  | some n => indent depth ++ "loop -> " ++ n.rule.displayName ++ " (" ++ NodeId.label id ++ ")\n"
  | none => ""

/-- The nodes below a node, each with the mark before it: in the direction of the node, then the further
producers of a consumer. -/
def below (n : Node) : List (NodeId × String) :=
  match n.direction with
  | .backward => n.producers.keys.map (·, "")
  | .forward =>
    n.consumers.keys.map (·, "") ++ (n.producers.keys.filter (!n.triggers.contains ·)).map (·, "<- ")

/-- The nodes that a node is in a loop with, in its own direction. -/
def loops (n : Node) : List NodeId :=
  match n.direction with
  | .backward => n.producerLoops.keys
  | .forward => n.consumerLoops.keys

/-- The tree below a node. Returned with the nodes shown so far. -/
def tree (p : Plan) : Nat → NodeId → Nat → String → List NodeId → String × List NodeId
  | 0, _, _, _, seen => ("", seen)
  | limit + 1, id, depth, mark, seen =>
    match p.graph.node? id with
    | none => ("", seen)
    | some n =>
      let head := p.nodeHead id n depth mark
      if seen.contains id then (head ++ " ...\n", seen)
      else
        let follow (shown : String × List NodeId) (next : NodeId × String) : String × List NodeId :=
          let (text, seen) := p.tree limit next.1 (depth + 1) next.2 shown.2
          (shown.1 ++ text, seen)
        let (text, seen) := (below n).foldl follow (head ++ "\n", id :: seen)
        (text ++ String.join ((loops n).map (p.loopLine (depth + 1))), seen)

def text (p : Plan) : String := (p.tree (p.size + 2) start 0 "" []).1

/-- The size of the plan and its options, each by its name. -/
def description (p : Plan) : String :=
  let bool (b : Bool) := if b then "true" else "false"
  "ReasonerPlan \x7b nodes: " ++ toString p.size ++ ", backward: " ++ bool p.isBackward ++
    ", options: PlanOptions \x7b strategy: " ++ p.options.strategy.title ++
    ", use_task_board: " ++ bool p.options.useTaskBoard ++
    ", large_binding_set_warning: " ++ toString p.options.largeBindingSetWarning ++
    " \x7d, tasks: " ++ toString p.board.length ++ " \x7d"

end Plan

end TripleChain
