import TripleChain.Plan.Graph
import TripleChain.Rule.Invoke
/-!
# Plans

A plan is the reasoning graph of a start rule together with how far it has come. The graph and the order
in which its nodes are visited never change; all that changes is the progress of the nodes, the board of
handler calls that wait to be made, the input and the record of the calls made so far.
-/

namespace TripleChain

/-- How a plan is built and run. -/
structure PlanOptions where
  strategy : Strategy
  /-- Whether handler calls wait on the board or are made at once. -/
  useTaskBoard : Bool
  /-- The size above which a binding set is worth a warning. -/
  largeBindingSetWarning : Nat
  deriving DecidableEq

/-- The options that hold when none are given. -/
def PlanOptions.standard : PlanOptions := ⟨.biggest, true, 300000⟩

instance : Inhabited PlanOptions := ⟨.standard⟩

/-- How far a node has come in one direction. -/
inductive Stage where
  | notRequested
  /-- A handler call is outstanding. -/
  | requested
  | available
  deriving DecidableEq, Inhabited

namespace Stage

/-- The name of the stage. -/
def name : Stage → String
  | notRequested => "not-requested"
  | requested => "requested"
  | available => "available"

/-- The sign of the stage. -/
def glyph : Stage → String
  | notRequested => "."
  | requested => "~"
  | available => "+"

end Stage

/-- How far a node has come. -/
structure Progress where
  backward : Stage
  forward : Stage
  /-- Whether the handler has failed. A node that has failed never becomes available. -/
  failed : Bool
  /-- What the consumers ask for, in the variables of the consequent. -/
  demand : BindingSet
  /-- The bindings of the antecedent that the handler has been given. -/
  handled : BindingSet
  /-- All that the handler has given back. -/
  output : BindingSet

namespace Progress

def initial : Progress := ⟨.notRequested, .notRequested, false, ∅, ∅, ∅⟩

instance : Inhabited Progress := ⟨initial⟩

/-- The stage in a direction. -/
def stage (p : Progress) : Direction → Stage
  | .backward => p.backward
  | .forward => p.forward

/-- Moves to a stage in a direction. -/
def withStage (p : Progress) (d : Direction) (s : Stage) : Progress :=
  match d with
  | .backward => { p with backward := s }
  | .forward => { p with forward := s }

def isPending (p : Progress) : Bool := p.backward == .requested || p.forward == .requested

/-- True when the node has been evaluated in its own direction and nothing is outstanding. -/
def isAvailable (p : Progress) (d : Direction) : Bool := p.stage d == .available && !p.isPending

/-- The direction in which a handler call is outstanding. -/
def pendingDirection? (p : Progress) : Option Direction :=
  if p.backward == .requested then some .backward
  else if p.forward == .requested then some .forward
  else none

end Progress

/-- A handler call that waits to be made for a node. -/
structure Task where
  node : NodeId
  ruleId : RuleId
  rule : Rule
  bindings : BindingSet

/-- A handler call that has been made. -/
structure Invocation where
  ruleId : RuleId
  bindings : BindingSet

/-- A reasoning graph and how far it has come. -/
structure Plan where
  graph : Graph
  /-- Whether the start is a goal. -/
  isBackward : Bool
  /-- The order in which the nodes are visited. -/
  order : List NodeId
  options : PlanOptions
  /-- The progress of the nodes that have made any. -/
  progress : SortedMap NodeId Progress
  /-- The handler calls that wait. -/
  board : List Task
  /-- The bindings that the plan was last run with. -/
  input : Option BindingSet
  /-- The handler calls made so far. -/
  invoked : List Invocation

namespace Plan

def start : NodeId := 0

/-- The plan of a start rule under some options. A start rule has one side only. -/
def build (s : RuleStore) (id : RuleId) (options : PlanOptions) : Except Failure Plan := do
  let rule ← s.get id
  if rule.consequent.isEmpty || rule.antecedent.isEmpty then
    let near (side : Side) (r : RuleId) := (s.neighbors? ⟨r, side, options.strategy⟩).getD []
    let grow := if rule.consequent.isEmpty then Graph.ofGoal else Graph.ofPremise
    let graph := grow near (s.size + 1) id rule
    return ⟨graph, rule.consequent.isEmpty, graph.order, options, ∅, [], none, []⟩
  else
    .error <| .ofCode .invalidValue
      "A start rule needs either an antecedent (goal) or a consequent (premise), not both"

def size (p : Plan) : Nat := p.graph.size

def nodeIds (p : Plan) : List NodeId := List.range p.size

def progressOf (p : Plan) (id : NodeId) : Progress := (p.progress.get? id).getD .initial

/-- Changes the progress of a node. -/
def update (p : Plan) (id : NodeId) (f : Progress → Progress) : Plan :=
  { p with progress := p.progress.insert id (f (p.progressOf id)) }

theorem progressOf_update (p : Plan) (id x : NodeId) (f : Progress → Progress) :
    (p.update id f).progressOf x = if id = x then f (p.progressOf id) else p.progressOf x := by
  have h : compare id x = .eq ↔ id = x := Std.compare_eq_iff_eq
  by_cases hx : id = x <;> simp [update, progressOf, SortedMap.get?_insert, h, hx]

/-- True when a node has been evaluated and nothing is outstanding for it. -/
def isAvailable (p : Plan) (id : NodeId) : Bool :=
  match p.graph.node? id with
  | some n => (p.progressOf id).isAvailable n.direction
  | none => false

/-- True when no handler call waits or is outstanding and the start node is available. -/
def isDone (p : Plan) : Bool :=
  p.board.isEmpty && !(p.nodeIds.any fun id => (p.progressOf id).isPending) && p.isAvailable start

/-- The bindings of the goal, once the plan is done. -/
def results (p : Plan) : Except Failure BindingSet :=
  if !p.isBackward then
    .error <| (Failure.ofCode .notBackwardPlan "Results are only collected by backward plans").withHint
      "Read the node outputs or sink handlers of a forward plan instead"
  else
    match (p.nodeIds.filter fun id => (p.progressOf id).failed).head?.bind p.graph.node? with
    | some n =>
      .error <| (Failure.ofCode .planStalled "A binding set handler failed, so the plan cannot complete").withField
        "rule" n.rule.displayName
    | none =>
      if p.isDone then .ok (p.progressOf start).output
      else
        .error <| (Failure.ofCode .planNotFinished "The plan has not finished").withHint
          "Call execute until it returns false, draining the task board in between"

end Plan

end TripleChain
