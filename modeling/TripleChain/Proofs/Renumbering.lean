import TripleChain.Proofs.RegularGrowth
import TripleChain.Proofs.Execution
/-!
# Other numbers for the rules

A plan notes the numbers of its rules, but they only tell the rules apart while the graph grows. `Plan.renumber` gives
the rules other numbers. If no two rules get the same one, the graph behind a goal grows from renumbered neighbours as
it grows from the others (`Graph.ofGoal_renumber`). Once the graph is there the numbers are not looked at any more: a
plan with other numbers takes the same steps, whatever the numbers are (`Plan.run_renumber`), and has the same results
(`Plan.results_renumber`).
-/

namespace TripleChain

def Neighbor.renumber (σ : RuleId → RuleId) (p : Neighbor) : Neighbor := { p with id := σ p.id }

/-- A rule is a neighbour under any number. -/
theorem neighborOf?_renumber (σ : RuleId → RuleId) (r : Rule) (side : Side) (strategy : Strategy) (e : Rule × RuleId) :
    neighborOf? r side strategy (e.1, σ e.2) = (neighborOf? r side strategy e).map (Neighbor.renumber σ) := by
  unfold neighborOf?
  dsimp only
  split
  · rfl
  · split <;> rfl

namespace Node

def renumber (σ : RuleId → RuleId) (n : Node) : Node := { n with ruleId := σ n.ruleId }

variable (σ : RuleId → RuleId) (n : Node)

@[simp] theorem rule_renumber : (n.renumber σ).rule = n.rule := rfl

@[simp] theorem direction_renumber : (n.renumber σ).direction = n.direction := rfl

@[simp] theorem producers_renumber : (n.renumber σ).producers = n.producers := rfl

@[simp] theorem triggers_renumber : (n.renumber σ).triggers = n.triggers := rfl

@[simp] theorem allProducers_renumber : (n.renumber σ).allProducers = n.allProducers := rfl

@[simp] theorem hasGap_renumber : (n.renumber σ).hasGap = n.hasGap := rfl

end Node

namespace Graph

def renumber (σ : RuleId → RuleId) (g : Graph) : Graph := ⟨g.nodes.map (Node.renumber σ)⟩

variable {σ : RuleId → RuleId} (g : Graph)

/-! ## Looking at a graph -/

@[simp] theorem size_renumber : (g.renumber σ).size = g.size := List.length_map _

@[simp] theorem node?_renumber (id : NodeId) : (g.renumber σ).node? id = (g.node? id).map (Node.renumber σ) :=
  List.getElem?_map

theorem nodeOf?_renumber (hσ : Function.Injective σ) (r : RuleId) : (g.renumber σ).nodeOf? (σ r) = g.nodeOf? r := by
  unfold nodeOf? renumber
  rw [List.findIdx?_map]
  congr 1
  funext n
  rw [Bool.eq_iff_iff]
  simp only [Function.comp_apply, Node.renumber, beq_iff_eq, hσ.eq_iff]

@[simp] theorem consumersOf_renumber (id : NodeId) : (g.renumber σ).consumersOf id = g.consumersOf id := by
  unfold consumersOf
  rw [node?_renumber]
  cases g.node? id <;> rfl

@[simp] theorem producersOf_renumber (id : NodeId) : (g.renumber σ).producersOf id = g.producersOf id := by
  unfold producersOf
  rw [node?_renumber]
  cases g.node? id <;> rfl

theorem reach_renumber (steps : Nat) (seen : SortedSet NodeId) :
    (g.renumber σ).reach steps seen = g.reach steps seen := by
  induction steps generalizing seen with
  | zero => rfl
  | succ steps ih =>
    have hconsumers : (g.renumber σ).consumersOf = g.consumersOf := funext g.consumersOf_renumber
    rw [reach, reach, ih, hconsumers]

@[simp] theorem flowsTo_renumber (source target : NodeId) :
    (g.renumber σ).flowsTo source target = g.flowsTo source target := by
  rw [flowsTo, flowsTo, reach_renumber, size_renumber]

theorem orderFrom_renumber (steps : Nat) (queue done : List NodeId) :
    (g.renumber σ).orderFrom steps queue done = g.orderFrom steps queue done := by
  induction steps generalizing queue done with
  | zero => rfl
  | succ steps ih =>
    cases queue with
    | nil => rfl
    | cons id queue => simp only [orderFrom, consumersOf_renumber, producersOf_renumber, ih]

@[simp] theorem order_renumber : (g.renumber σ).order = g.order := by
  simp only [order, orderFrom_renumber, size_renumber, producersOf_renumber]

/-! ## Changing a graph -/

theorem add_renumber (n : Node) : (g.add n).renumber σ = (g.renumber σ).add (n.renumber σ) := by
  simp [add, renumber]

theorem update_renumber (id : NodeId) {f : Node → Node} (h : ∀ n, (f n).renumber σ = f (n.renumber σ)) :
    (g.update id f).renumber σ = (g.renumber σ).update id f := by
  unfold update renumber
  congr 1
  apply List.ext_getElem?
  intro i
  simp only [List.getElem?_map, List.getElem?_modify]
  cases g.nodes[i]? with
  | none => rfl
  | some n =>
    by_cases hid : id = i
    · simp [hid, h]
    · simp [hid]

theorem link_renumber (producer consumer : NodeId) (found : MatchSet) (cyclic : Bool) :
    (g.link producer consumer found cyclic).renumber σ = (g.renumber σ).link producer consumer found cyclic := by
  rw [link, link, update_renumber, update_renumber]
  · intro n
    cases cyclic <;> rfl
  · intro n
    cases cyclic <;> rfl

/-! ## Growth -/

section Growth

variable {near near' : Neighborhood}

/-- The rules have other numbers in the one neighbourhood than in the other. -/
def Neighborhood.Renumbered (σ : RuleId → RuleId) (near near' : Neighborhood) : Prop :=
  ∀ side i, near' side (σ i) = (near side i).map (Neighbor.renumber σ)

/-- One neighbour is taken in as it is with other numbers, if everything behind it is. -/
theorem growStep_renumber (hσ : Function.Injective σ) {depth : Nat} (id : NodeId) (chain : List NodeId)
    (skip : Option RuleId) (p : Neighbor)
    (hdeep : ∀ (g : Graph) (id : NodeId) (chain : List NodeId) (skip : Option RuleId),
      growBackward near' depth (g.renumber σ) id chain (skip.map σ) =
        (growBackward near depth g id chain skip).renumber σ) :
    growStep near' depth id chain (skip.map σ) (g.renumber σ) (p.renumber σ) =
      (growStep near depth id chain skip g p).renumber σ := by
  have hskip : some (p.renumber σ).id = skip.map σ ↔ some p.id = skip := by
    cases skip with
    | none => simp
    | some r => simp [Neighbor.renumber, hσ.eq_iff]
  have hnode : (g.renumber σ).nodeOf? (p.renumber σ).id = g.nodeOf? p.id := g.nodeOf?_renumber hσ p.id
  unfold growStep
  rw [hnode]
  by_cases hp : some p.id = skip
  · rw [if_pos hp, if_pos (hskip.2 hp)]
  · rw [if_neg hp, if_neg (mt hskip.1 hp)]
    cases g.nodeOf? p.id with
    | some producer =>
      dsimp only
      rw [link_renumber, flowsTo_renumber]
      rfl
    | none =>
      have hnew : (g.withProducer id p).renumber σ = (g.renumber σ).withProducer id (p.renumber σ) := by
        rw [withProducer, link_renumber, add_renumber, withProducer, size_renumber]
        rfl
      dsimp only
      rw [size_renumber, ← hnew]
      exact hdeep _ _ _ none

/-- Growth sees the numbers of rules only to tell them apart. -/
theorem growBackward_renumber (hσ : Function.Injective σ) (hnear : near.Renumbered σ near') (depth : Nat) (g : Graph)
    (id : NodeId) (chain : List NodeId) (skip : Option RuleId) :
    growBackward near' depth (g.renumber σ) id chain (skip.map σ) =
      (growBackward near depth g id chain skip).renumber σ := by
  induction depth generalizing g id chain skip with
  | zero => rfl
  | succ depth ih =>
    cases hn : g.node? id with
    | none =>
      have hn' : (g.renumber σ).node? id = none := by rw [node?_renumber, hn]; rfl
      simp only [growBackward, hn, hn']
    | some n =>
      have hn' : (g.renumber σ).node? id = some (n.renumber σ) := by rw [node?_renumber, hn]; rfl
      by_cases he : n.expandedBackward = true
      · have he' : (n.renumber σ).expandedBackward = true := he
        simp only [growBackward, hn, hn', he, he', if_true]
      · have he : n.expandedBackward = false := by simpa using he
        have hneighbors : near' .antecedent (n.renumber σ).ruleId =
            (near .antecedent n.ruleId).map (Neighbor.renumber σ) := hnear .antecedent n.ruleId
        rw [growBackward_succ hn he, growBackward_succ hn' he, hneighbors, List.foldl_map, ← update_renumber]
        · -- Each neighbour in turn, from the same graph with other numbers.
          generalize g.update id (fun n => { n with expandedBackward := true }) = g
          induction near .antecedent n.ruleId generalizing g with
          | nil => rfl
          | cons p l ihl => rw [List.foldl_cons, List.foldl_cons, growStep_renumber g hσ id chain skip p ih, ihl]
        · intro n
          rfl

/-- The graph behind a goal does not depend on the numbers of the rules. -/
theorem ofGoal_renumber (hσ : Function.Injective σ) (hnear : near.Renumbered σ near') (limit : Nat) (root : RuleId)
    (r : Rule) : ofGoal near' limit (σ root) r = (ofGoal near limit root r).renumber σ :=
  growBackward_renumber hσ hnear limit (ofStart root r .backward) 0 [0] none

end Growth

/-! ## Demand -/

section Demand

variable (strategy : Strategy)

theorem requests_renumber (n : Node) (demand : BindingSet) :
    (g.renumber σ).requests strategy (n.renumber σ) demand = g.requests strategy n demand := by
  unfold requests
  simp only [Node.rule_renumber, Node.allProducers_renumber, node?_renumber, Option.map_map]
  rfl

theorem passDemand_renumber (d : Demands) (id : NodeId) :
    (g.renumber σ).passDemand strategy d id = g.passDemand strategy d id := by
  unfold passDemand
  rw [node?_renumber]
  cases g.node? id with
  | none => rfl
  | some n =>
    dsimp only [Option.map_some]
    rw [requests_renumber]

theorem settleDemand_renumber (rounds : Nat) (d : Demands) :
    (g.renumber σ).settleDemand strategy rounds d = g.settleDemand strategy rounds d := by
  induction rounds generalizing d with
  | zero => rfl
  | succ rounds ih =>
    have hpass : (g.renumber σ).passDemand strategy = g.passDemand strategy := by
      funext d id
      exact g.passDemand_renumber strategy d id
    simp only [settleDemand, size_renumber, hpass, ih]

end Demand

end Graph

/-! ## Plans -/

def Task.renumber (σ : RuleId → RuleId) (t : Task) : Task := { t with ruleId := σ t.ruleId }

def Invocation.renumber (σ : RuleId → RuleId) (i : Invocation) : Invocation := { i with ruleId := σ i.ruleId }

namespace Plan

/-- The plan with other numbers for its rules. -/
def renumber (σ : RuleId → RuleId) (p : Plan) : Plan :=
  { p with
    graph := p.graph.renumber σ
    board := p.board.map (Task.renumber σ)
    invoked := p.invoked.map (Invocation.renumber σ) }

variable (σ : RuleId → RuleId) (p : Plan)

@[simp] theorem graph_renumber : (p.renumber σ).graph = p.graph.renumber σ := rfl

@[simp] theorem isBackward_renumber : (p.renumber σ).isBackward = p.isBackward := rfl

@[simp] theorem options_renumber : (p.renumber σ).options = p.options := rfl

@[simp] theorem input_renumber : (p.renumber σ).input = p.input := rfl

@[simp] theorem order_renumber : (p.renumber σ).order = p.order := rfl

@[simp] theorem progressOf_renumber (id : NodeId) : (p.renumber σ).progressOf id = p.progressOf id := rfl

@[simp] theorem size_renumber : (p.renumber σ).size = p.size := p.graph.size_renumber

@[simp] theorem nodeIds_renumber : (p.renumber σ).nodeIds = p.nodeIds := by rw [nodeIds, nodeIds, size_renumber]

@[simp] theorem isAvailable_renumber (id : NodeId) : (p.renumber σ).isAvailable id = p.isAvailable id := by
  unfold isAvailable
  rw [graph_renumber, Graph.node?_renumber]
  cases p.graph.node? id <;> rfl

@[simp] theorem isDone_renumber : (p.renumber σ).isDone = p.isDone := by
  have hboard : (p.renumber σ).board.isEmpty = p.board.isEmpty := List.isEmpty_map
  simp only [isDone, hboard, nodeIds_renumber, progressOf_renumber, isAvailable_renumber]

/-- What a plan has found does not depend on the numbers of the rules. A failure names a rule, but not by its number. -/
theorem results_renumber : (p.renumber σ).results = p.results := by
  unfold results
  simp only [isBackward_renumber, nodeIds_renumber, progressOf_renumber, isDone_renumber, graph_renumber]
  cases (p.nodeIds.filter fun id => (p.progressOf id).failed).head? with
  | none => rfl
  | some id =>
    simp only [Option.bind_some, Graph.node?_renumber]
    cases p.graph.node? id <;> rfl

theorem update_renumber (id : NodeId) (f : Progress → Progress) :
    (p.update id f).renumber σ = (p.renumber σ).update id f :=
  rfl

/-! ## Input -/

theorem demandsFor_renumber (rounds : Nat) (bindings : BindingSet) :
    (p.renumber σ).demandsFor rounds bindings = p.demandsFor rounds bindings := by
  simp only [demandsFor, isBackward_renumber, graph_renumber, options_renumber, Graph.settleDemand_renumber,
    nodeIds_renumber]

theorem withDemands_renumber (d : Demands) : (p.withDemands d).renumber σ = (p.renumber σ).withDemands d := by
  unfold withDemands
  rw [nodeIds_renumber]
  generalize p.nodeIds = l
  induction l generalizing p with
  | nil => rfl
  | cons id l ih => exact ih (p.update id fun s => { s with demand := d.of id })

theorem checkInput_renumber (bindings : BindingSet) : (p.renumber σ).checkInput bindings = p.checkInput bindings := by
  have hpattern : (p.renumber σ).inputPattern = p.inputPattern := by
    unfold inputPattern
    rw [graph_renumber, Graph.node?_renumber]
    cases p.graph.node? start <;> rfl
  rw [checkInput, checkInput, hpattern]

theorem withInput_renumber (rounds : Nat) (bindings : BindingSet) :
    (p.renumber σ).withInput rounds bindings = (p.withInput rounds bindings).map (renumber σ) := by
  unfold withInput
  simp only [input_renumber, checkInput_renumber, demandsFor_renumber, ← withDemands_renumber]
  generalize (if bindings.isEmpty then BindingSet.unconstrained else bindings) = given
  split
  · rfl
  · cases p.checkInput given with
    | error f => rfl
    | ok _ => cases p.demandsFor rounds given <;> rfl

theorem joinProducer_renumber (id : NodeId) (n : Node) :
    (p.renumber σ).joinProducer id (n.renumber σ) = p.joinProducer id n := by
  funext a producer
  unfold joinProducer
  simp only [progressOf_renumber, graph_renumber, Graph.node?_renumber, options_renumber, Node.triggers_renumber]
  cases p.graph.node? producer <;> rfl

@[simp] theorem nodeInput_renumber (id : NodeId) (n : Node) :
    (p.renumber σ).nodeInput id (n.renumber σ) = p.nodeInput id n := by
  simp only [nodeInput, joinProducer_renumber, progressOf_renumber, Node.rule_renumber, Node.allProducers_renumber,
    Node.triggers_renumber]

/-! ## Steps -/

theorem answer_renumber (id : NodeId) (result : Except Failure BindingSet) :
    (p.answer id result).renumber σ = (p.renumber σ).answer id result := by
  unfold answer
  rw [size_renumber, progressOf_renumber]
  split
  · cases (p.progressOf id).pendingDirection? with
    | none => rfl
    | some d => cases result <;> rfl
  · rfl

theorem invoke_renumber (t : Task) :
    (p.renumber σ).invoke (t.renumber σ) = ((p.invoke t).1.renumber σ, (p.invoke t).2) := by
  simp [invoke, renumber, Task.renumber, Invocation.renumber]

theorem addTask_renumber (t : Task) : (p.addTask t).renumber σ = (p.renumber σ).addTask (t.renumber σ) := by
  simp [addTask, renumber]

theorem dispatch_renumber (id : NodeId) (n : Node) (d : Direction) (delta : BindingSet) :
    (p.renumber σ).dispatch id (n.renumber σ) d delta = (p.dispatch id n d delta).renumber σ := by
  have htask : (⟨id, (n.renumber σ).ruleId, (n.renumber σ).rule, delta⟩ : Task) =
      Task.renumber σ ⟨id, n.ruleId, n.rule, delta⟩ := rfl
  unfold dispatch
  rw [htask, ← update_renumber]
  generalize p.update id (fun q => { q with handled := q.handled.union delta }.withStage d .requested) = p
  dsimp only
  rw [options_renumber]
  split
  · rw [addTask_renumber]
  · rw [invoke_renumber, answer_renumber]

theorem producersAvailable_renumber (n : Node) :
    (p.renumber σ).producersAvailable (n.renumber σ) = p.producersAvailable n := by
  have havailable : (p.renumber σ).isAvailable = p.isAvailable := funext (p.isAvailable_renumber σ)
  rw [producersAvailable, producersAvailable, havailable, Node.producers_renumber]

/-- The plan with other numbers and whether anything has changed. -/
def renumberStep (r : Plan × Bool) : Plan × Bool := (r.1.renumber σ, r.2)

theorem advanceStart_renumber (n : Node) :
    (p.renumber σ).advanceStart (n.renumber σ) = renumberStep σ (p.advanceStart n) := by
  unfold advanceStart
  simp only [isBackward_renumber, producersAvailable_renumber, Node.hasGap_renumber, nodeInput_renumber,
    progressOf_renumber, input_renumber, ← update_renumber, apply_ite (renumberStep σ)]
  rfl

theorem advanceInner_renumber (id : NodeId) (n : Node) :
    (p.renumber σ).advanceInner id (n.renumber σ) = renumberStep σ (p.advanceInner id n) := by
  unfold advanceInner
  simp only [producersAvailable_renumber, Node.hasGap_renumber, nodeInput_renumber, progressOf_renumber,
    Node.direction_renumber, Node.rule_renumber, dispatch_renumber, ← update_renumber, apply_ite (renumberStep σ)]
  rfl

theorem advanceNode_renumber (id : NodeId) : (p.renumber σ).advanceNode id = renumberStep σ (p.advanceNode id) := by
  unfold advanceNode
  rw [graph_renumber, Graph.node?_renumber]
  cases p.graph.node? id with
  | none => rfl
  | some n =>
    dsimp only [Option.map_some]
    split
    · exact p.advanceStart_renumber σ n
    · exact p.advanceInner_renumber σ id n

theorem advanceOver_renumber (l : List NodeId) (changed : Bool) :
    advanceOver l (p.renumber σ) changed = renumberStep σ (advanceOver l p changed) := by
  induction l generalizing p changed with
  | nil => rfl
  | cons id l ih =>
    rw [advanceOver_cons, advanceOver_cons, advanceNode_renumber]
    exact ih _ _

theorem advance_renumber : (p.renumber σ).advance = renumberStep σ p.advance := by
  rw [advance_eq, advance_eq, order_renumber, advanceOver_renumber]

/-! ## Runs -/

theorem settle_renumber (rounds : Nat) : settle rounds (p.renumber σ) = (settle rounds p).map (renumberStep σ) := by
  induction rounds generalizing p with
  | zero => rfl
  | succ rounds ih =>
    have hboard (q : Plan) : (q.renumber σ).board.isEmpty = q.board.isEmpty := List.isEmpty_map
    unfold settle
    rw [advance_renumber]
    dsimp only [renumberStep]
    rw [hboard, ih]
    split
    · rfl
    · split <;> rfl

theorem execute_renumber (rounds : Nat) (bindings : BindingSet) :
    execute rounds (p.renumber σ) bindings = (execute rounds p bindings).map (renumberStep σ) := by
  unfold execute
  rw [withInput_renumber]
  cases p.withInput rounds bindings with
  | error e => rfl
  | ok q => exact q.settle_renumber σ rounds

theorem answerAll_renumber (outcomes : List Outcome) :
    (p.answerAll outcomes).renumber σ = (p.renumber σ).answerAll outcomes := by
  induction outcomes generalizing p with
  | nil => rfl
  | cons o outcomes ih =>
    rw [answerAll, answerAll, List.foldl_cons, List.foldl_cons, ← answer_renumber]
    exact ih (p.answer o.node o.result)

theorem drain_renumber : (p.renumber σ).drain = p.drain.renumber σ := by
  have houtcomes : (p.renumber σ).board.map Task.outcome = p.board.map Task.outcome := by
    simp only [renumber, List.map_map]
    rfl
  have hcalls : (p.renumber σ).callAll.1 = p.callAll.1.renumber σ := by
    simp [callAll_eq, record, withCalls, renumber, Task.renumber, Invocation.renumber, Task.invocation]
  have hanswers : (p.renumber σ).callAll.2 = p.callAll.2 := by rw [callAll_eq, callAll_eq, houtcomes]
  show (p.renumber σ).callAll.1.answerAll (p.renumber σ).callAll.2 = (p.callAll.1.answerAll p.callAll.2).renumber σ
  rw [hcalls, hanswers, answerAll_renumber]

/-- A run does not look at the numbers of the rules. -/
theorem run_renumber (rounds : Nat) (bindings : BindingSet) :
    run rounds (p.renumber σ) bindings = (run rounds p bindings).map (renumber σ) := by
  induction rounds generalizing p with
  | zero => rfl
  | succ rounds ih =>
    unfold run
    rw [execute_renumber]
    cases execute (rounds + 1) p bindings with
    | error e => rfl
    | ok r =>
      obtain ⟨q, waits⟩ := r
      cases waits with
      | true =>
        show run rounds (q.renumber σ).drain bindings = _
        rw [drain_renumber, ih]
      | false => rfl

end Plan

end TripleChain
