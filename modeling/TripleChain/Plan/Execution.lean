import TripleChain.Plan.Demand
import TripleChain.Plan.Input
/-!
# Running a plan

A plan is advanced in passes over its nodes. In a pass a node whose producers are available gives its handler
the bindings that the handler has not had before. The calls wait on the board, or are made at once. Passes
and drained boards alternate until neither changes anything.

Rules may depend on each other in circles, and a handler may make up new terms for ever; so the number of
rounds is bounded by the caller, and running out of rounds is an outcome of its own.
-/

namespace TripleChain

/-- Why a run ends without a plan. -/
inductive RunError where
  /-- The input was refused. -/
  | refused (f : Failure)
  | outOfRounds

/-- What a handler has answered for a node. -/
structure Outcome where
  node : NodeId
  result : Except Failure BindingSet

namespace Plan

/-- Records what the handler has answered for a node that waits for an answer. -/
def answer (p : Plan) (id : NodeId) (result : Except Failure BindingSet) : Plan :=
  if id < p.size then
    match (p.progressOf id).pendingDirection? with
    | none => p
    | some d =>
      match result with
      | .ok s => p.update id fun q => { q with output := q.output.union s }.withStage d .available
      | .error _ => p.update id fun q => { q with failed := true }
  else p

/-- Makes a handler call and records it. -/
def invoke (p : Plan) (t : Task) : Plan × Except Failure BindingSet :=
  ({ p with invoked := p.invoked ++ [⟨t.ruleId, t.bindings⟩] }, t.rule.invoke t.bindings)

def addTask (p : Plan) (t : Task) : Plan := { p with board := p.board ++ [t] }

/-- Gives a node bindings that its handler has not had. -/
def dispatch (p : Plan) (id : NodeId) (n : Node) (d : Direction) (delta : BindingSet) : Plan :=
  let p := p.update id fun q => { q with handled := q.handled.union delta }.withStage d .requested
  let t : Task := ⟨id, n.ruleId, n.rule, delta⟩
  if p.options.useTaskBoard then p.addTask t
  else
    let (p, result) := p.invoke t
    p.answer id result

/-- True when all producers are available, those over loops apart. -/
def producersAvailable (p : Plan) (n : Node) : Bool := n.producers.keys.all p.isAvailable

/-- Advances the start node: a goal takes over its answers, a premise the input. Returned with whether
anything changed. -/
def advanceStart (p : Plan) (n : Node) : Plan × Bool :=
  if p.isBackward then
    if p.producersAvailable n then
      let result := if n.hasGap then ∅ else p.nodeInput start n
      let q := p.progressOf start
      if q.output.sameElements result && q.backward == .available then (p, false)
      else (p.update start fun q => { q with output := result, backward := .available }, true)
    else (p, false)
  else
    let premise := p.input.getD ∅
    let q := p.progressOf start
    (p.update start fun q => { q with output := premise, forward := .available },
      !(q.output.sameElements premise && q.forward == .available))

/-- Advances a node other than the start. What comes after the first evaluation, over a loop or with another
input, is handled in the other direction. -/
def advanceInner (p : Plan) (id : NodeId) (n : Node) : Plan × Bool :=
  let q := p.progressOf id
  if q.isPending || q.failed || !p.producersAvailable n then (p, false)
  else
    let first := q.stage n.direction == .notRequested
    -- Available without a handler call: the output stays empty.
    let settle := p.update id (·.withStage n.direction .available)
    if n.hasGap then if first then (settle, true) else (p, false)
    else
      let delta := (p.nodeInput id n).difference q.handled
      if first then
        -- A rule without antecedent is asked even when nothing is wanted of it.
        if n.rule.antecedent.isEmpty || !delta.isEmpty then (p.dispatch id n n.direction delta, true)
        else (settle, true)
      else if delta.isEmpty then (p, false)
      else (p.dispatch id n n.direction.opposite delta, true)

/-- Advances a node. -/
def advanceNode (p : Plan) (id : NodeId) : Plan × Bool :=
  match p.graph.node? id with
  | none => (p, false)
  | some n => if id = start then p.advanceStart n else p.advanceInner id n

/-- Advances all nodes once, in order. -/
def advance (p : Plan) : Plan × Bool :=
  p.order.foldl (fun (p, changed) id =>
    let (p, c) := p.advanceNode id
    (p, changed || c)) (p, false)

/-- Advances until handler calls wait or nothing changes. Returned with whether any wait. -/
def settle : Nat → Plan → Except RunError (Plan × Bool)
  | 0, _ => .error .outOfRounds
  | rounds + 1, p =>
    let (p, changed) := p.advance
    if !p.board.isEmpty then .ok (p, true)
    else if changed then settle rounds p
    else .ok (p, false)

/-- The pattern that the input binds. -/
def inputPattern (p : Plan) : Pattern :=
  match p.graph.node? start with
  | some n => if p.isBackward then n.rule.antecedent else n.rule.consequent
  | none => ∅

/-- Refuses bindings of variables that the start pattern does not have. -/
def checkInput (p : Plan) (bindings : BindingSet) : Except Failure Unit :=
  let known := Pattern.vars p.inputPattern
  bindings.toList.forM fun b =>
    match b.vars.find? fun v => !known.contains v with
    | none => .ok ()
    | some v =>
      .error <| (Failure.ofCode .invalidValue
        ("Variable " ++ v.text ++ " does not occur in the start pattern")).withField "binding" b.text

/-- Takes over an input, unless it is the one that the plan has. An empty set stands for the empty binding. -/
def withInput (p : Plan) (rounds : Nat) (bindings : BindingSet) : Except RunError Plan :=
  let bindings := if bindings.isEmpty then .unconstrained else bindings
  if p.input.any (·.sameElements bindings) then .ok p
  else
    match p.checkInput bindings with
    | .error f => .error (.refused f)
    | .ok () =>
      match p.demandsFor rounds bindings with
      | none => .error .outOfRounds
      | some d => .ok { p.withDemands d with input := some bindings }

/-- Advances the plan with some bindings as far as it goes without the handler calls on the board. Returned
with whether any wait there. -/
def execute (rounds : Nat) (p : Plan) (bindings : BindingSet) : Except RunError (Plan × Bool) := do
  settle rounds (← p.withInput rounds bindings)

/-- Takes all handler calls off the board and makes them. Returned with the answers. -/
def callAll (p : Plan) : Plan × List Outcome :=
  p.board.foldl (fun (p, outcomes) t =>
    let (p, result) := p.invoke t
    (p, outcomes ++ [⟨t.node, result⟩])) ({ p with board := [] }, [])

/-- Records answers, one after the other. -/
def answerAll (p : Plan) (outcomes : List Outcome) : Plan := outcomes.foldl (fun p o => p.answer o.node o.result) p

/-- Makes all handler calls on the board, then records the answers. -/
def drain (p : Plan) : Plan :=
  let (p, outcomes) := p.callAll
  p.answerAll outcomes

/-- Executes and drains by turns until no handler call waits. -/
def run : Nat → Plan → BindingSet → Except RunError Plan
  | 0, _, _ => .error .outOfRounds
  | rounds + 1, p, bindings =>
    match p.execute (rounds + 1) bindings with
    | .error e => .error e
    | .ok (p, true) => run rounds p.drain bindings
    | .ok (p, false) => .ok p

end Plan

end TripleChain
