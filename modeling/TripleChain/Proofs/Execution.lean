import TripleChain.Plan.Execution
import TripleChain.Proofs.Assembly
import TripleChain.Proofs.Handlers
import Mathlib.Logic.Relation
/-!
# What happens in a run

`Plan.Step` lists what can happen to a plan in a run: the start takes over, a node becomes available without a
handler call, a call is put on the board, a call on the board is answered. Passes (`Plan.advance_steps`),
calls that are made at once, and boards drained in any order (`Plan.drain_steps`) are all made of such
steps; so what a step keeps, every run keeps. A `Plan.Move` is larger: it makes a call, puts it on record and takes the
answer, all at once (`Plan.settle_moves`, `Plan.drain_moves`).

A plan is `Quiet` when no call waits and no node would advance: that is how runs end.
-/

open Std

namespace TripleChain

/-- The answer to a call. -/
def Task.outcome (t : Task) : Outcome := ⟨t.node, t.rule.invoke t.bindings⟩

/-- What is put on record of a call. -/
def Task.invocation (t : Task) : Invocation := ⟨t.ruleId, t.bindings⟩

namespace Progress

/-- The progress of a node whose handler is given bindings. -/
def give (r : Progress) (d : Direction) (s : BindingSet) : Progress :=
  { r with handled := r.handled.union s }.withStage d .requested

/-- The progress of a node whose handler has answered. -/
def take (r : Progress) (d : Direction) (s : BindingSet) : Progress :=
  { r with output := r.output.union s }.withStage d .available

/-- The progress of the start when it has taken over what it gives. -/
def conclude (r : Progress) (d : Direction) (s : BindingSet) : Progress :=
  { r with output := s }.withStage d .available

section Fields

variable (r : Progress) (d d' : Direction) (s : Stage) (b : BindingSet)

theorem stage_withStage : (r.withStage d s).stage d' = if d = d' then s else r.stage d' := by
  cases d <;> cases d' <;> rfl

@[simp] theorem failed_withStage : (r.withStage d s).failed = r.failed := by
  cases d <;> rfl

@[simp] theorem demand_withStage : (r.withStage d s).demand = r.demand := by
  cases d <;> rfl

@[simp] theorem handled_withStage : (r.withStage d s).handled = r.handled := by
  cases d <;> rfl

@[simp] theorem output_withStage : (r.withStage d s).output = r.output := by
  cases d <;> rfl

theorem stage_give : (r.give d b).stage d' = if d = d' then .requested else r.stage d' :=
  stage_withStage { r with handled := r.handled.union b } d d' .requested

@[simp] theorem failed_give : (r.give d b).failed = r.failed := failed_withStage ..

@[simp] theorem demand_give : (r.give d b).demand = r.demand := demand_withStage ..

@[simp] theorem handled_give : (r.give d b).handled = r.handled.union b := handled_withStage ..

@[simp] theorem output_give : (r.give d b).output = r.output := output_withStage ..

theorem stage_take : (r.take d b).stage d' = if d = d' then .available else r.stage d' :=
  stage_withStage { r with output := r.output.union b } d d' .available

@[simp] theorem failed_take : (r.take d b).failed = r.failed := failed_withStage ..

@[simp] theorem demand_take : (r.take d b).demand = r.demand := demand_withStage ..

@[simp] theorem handled_take : (r.take d b).handled = r.handled := handled_withStage ..

@[simp] theorem output_take : (r.take d b).output = r.output.union b := output_withStage ..

@[simp] theorem failed_conclude : (r.conclude d b).failed = r.failed := failed_withStage ..

@[simp] theorem demand_conclude : (r.conclude d b).demand = r.demand := demand_withStage ..

@[simp] theorem handled_conclude : (r.conclude d b).handled = r.handled := handled_withStage ..

@[simp] theorem output_conclude : (r.conclude d b).output = b := output_withStage ..

end Fields

end Progress

namespace Plan

variable {p q r : Plan} {id x : NodeId} {n : Node}

/-! ## Calls -/

/-- The plan with these calls on the board and these on record. -/
def withCalls (p : Plan) (board : List Task) (invoked : List Invocation) : Plan := { p with board, invoked }

/-- The plan with some calls put on record and the others left on the board. -/
def record (p : Plan) (calls others : List Task) : Plan := p.withCalls others (p.invoked ++ calls.map Task.invocation)

section Fields

variable (p : Plan) (id : NodeId) (board calls others : List Task) (invoked : List Invocation)

@[simp] theorem size_withCalls : (p.withCalls board invoked).size = p.size := rfl

@[simp] theorem progressOf_withCalls : (p.withCalls board invoked).progressOf id = p.progressOf id := rfl

@[simp] theorem board_withCalls : (p.withCalls board invoked).board = board := rfl

@[simp] theorem size_record : (p.record calls others).size = p.size := rfl

@[simp] theorem progressOf_record : (p.record calls others).progressOf id = p.progressOf id := rfl

@[simp] theorem board_record : (p.record calls others).board = others := rfl

@[simp] theorem invoked_record : (p.record calls others).invoked = p.invoked ++ calls.map Task.invocation := rfl

end Fields

theorem withCalls_self (p : Plan) : p.withCalls p.board p.invoked = p := rfl

theorem record_nil (p : Plan) : p.record [] p.board = p := by
  rw [record, List.map_nil, List.append_nil, withCalls_self]

theorem record_record (p : Plan) (calls calls' others others' : List Task) :
    (p.record calls others).record calls' others' = p.record (calls ++ calls') others' := by
  rw [record, invoked_record, List.append_assoc, ← List.map_append]
  rfl

theorem invoke_eq (p : Plan) (t : Task) : p.invoke t = (p.record [t] p.board, t.rule.invoke t.bindings) := rfl

/-! ## Answers -/

theorem answer_cases (p : Plan) (id : NodeId) (result : Except Failure BindingSet) :
    p.answer id result = p ∨ ∃ d, id < p.size ∧ (p.progressOf id).pendingDirection? = some d ∧
      ((∃ s, result = .ok s ∧ p.answer id result = p.update id (·.take d s)) ∨
        ∃ f, result = .error f ∧ p.answer id result = p.update id fun q => { q with failed := true }) := by
  unfold answer
  split
  · next hlt =>
    split
    · exact .inl rfl
    · next d hd =>
      refine .inr ⟨d, hlt, hd, ?_⟩
      cases result with
      | ok s => exact .inl ⟨s, rfl, rfl⟩
      | error f => exact .inr ⟨f, rfl, rfl⟩
  · exact .inl rfl

theorem answer_of_pending {d : Direction} {result : Except Failure BindingSet} (hlt : id < p.size)
    (hd : (p.progressOf id).pendingDirection? = some d) : p.answer id result =
      match result with
      | .ok s => p.update id (·.take d s)
      | .error _ => p.update id fun r => { r with failed := true } := by
  unfold answer
  rw [if_pos hlt, hd]
  cases result <;> rfl

theorem answer_board (p : Plan) (id : NodeId) (result : Except Failure BindingSet) :
    (p.answer id result).board = p.board := by
  rcases p.answer_cases id result with heq | ⟨d, _, _, ⟨s, _, heq⟩ | ⟨f, _, heq⟩⟩ <;> rw [heq] <;> rfl

theorem answer_invoked (p : Plan) (id : NodeId) (result : Except Failure BindingSet) :
    (p.answer id result).invoked = p.invoked := by
  rcases p.answer_cases id result with heq | ⟨d, _, _, ⟨s, _, heq⟩ | ⟨f, _, heq⟩⟩ <;> rw [heq] <;> rfl

/-- Answering has nothing to do with the calls that wait and those on record. -/
theorem answer_withCalls (p : Plan) (board : List Task) (invoked : List Invocation) (id : NodeId)
    (result : Except Failure BindingSet) :
    (p.withCalls board invoked).answer id result = (p.answer id result).withCalls board invoked := by
  unfold answer
  rw [progressOf_withCalls, size_withCalls]
  split
  · split
    · rfl
    · split <;> rfl
  · rfl

theorem answer_record (p : Plan) (calls others : List Task) (id : NodeId) (result : Except Failure BindingSet) :
    (p.record calls others).answer id result = (p.answer id result).record calls others := by
  rw [record, record, answer_withCalls, answer_invoked]

/-! ## Steps -/

/-- The node may give its handler something: nothing is outstanding and the producers are available. -/
structure Ready (p : Plan) (id : NodeId) (n : Node) : Prop where
  node : p.graph.node? id = some n
  inner : id ≠ start
  idle : (p.progressOf id).isPending = false
  sound : (p.progressOf id).failed = false
  producers : p.producersAvailable n = true

/-- The bindings that the handler of a node has not had. -/
def delta (p : Plan) (id : NodeId) (n : Node) : BindingSet := (p.nodeInput id n).difference (p.progressOf id).handled

/-- The node has not been evaluated. -/
def IsFirst (p : Plan) (id : NodeId) (n : Node) : Prop := (p.progressOf id).stage n.direction = .notRequested

/-- The call for what the handler of a node has not had. -/
def nextTask (p : Plan) (id : NodeId) (n : Node) : Task := ⟨id, n.ruleId, n.rule, p.delta id n⟩

/-- The plan with the next call of a node on the board. -/
def post (p : Plan) (id : NodeId) (n : Node) (d : Direction) : Plan :=
  (p.update id (·.give d (p.delta id n))).addTask (p.nextTask id n)

@[simp] theorem board_post (p : Plan) (id : NodeId) (n : Node) (d : Direction) :
    (p.post id n d).board = p.board ++ [p.nextTask id n] := rfl

theorem progressOf_post (p : Plan) (id x : NodeId) (n : Node) (d : Direction) :
    (p.post id n d).progressOf x = if id = x then (p.progressOf id).give d (p.delta id n) else p.progressOf x :=
  progressOf_update p id x (·.give d (p.delta id n))

/-- What the goal takes over when it is advanced. -/
def due (p : Plan) (n : Node) : BindingSet := if n.hasGap then ∅ else p.nodeInput start n

theorem mem_due {b : Binding} : b ∈ p.due n ↔ n.hasGap = false ∧ b ∈ p.nodeInput start n := by
  unfold due
  cases n.hasGap <;> simp

/-- What happens to a plan in a run. -/
inductive Step : Plan → Plan → Prop
  | record {p : Plan} (invoked : List Invocation) : Step p (p.withCalls p.board invoked)
  | goal {p : Plan} {n : Node} (isGoal : p.isBackward = true) (node : p.graph.node? start = some n)
      (producers : p.producersAvailable n = true) : Step p (p.update start (·.conclude .backward (p.due n)))
  | premise {p : Plan} (isPremise : p.isBackward = false) :
      Step p (p.update start (·.conclude .forward (p.input.getD ∅)))
  | settle {p : Plan} {id : NodeId} {n : Node} (ready : p.Ready id n) (first : p.IsFirst id n)
      (idle : n.hasGap = true ∨ n.rule.antecedent.isEmpty = false ∧ (p.delta id n).isEmpty = true) :
      Step p (p.update id (·.withStage n.direction .available))
  | dispatch {p : Plan} {id : NodeId} {n : Node} (d : Direction) (ready : p.Ready id n) (whole : n.hasGap = false)
      (due : (p.delta id n).isEmpty = false ∨ p.IsFirst id n ∧ n.rule.antecedent.isEmpty = true)
      (way : p.IsFirst id n ∧ d = n.direction ∨ ¬ p.IsFirst id n) : Step p (p.post id n d)
  | answer {p : Plan} {t : Task} {rest : List Task} (waits : p.board.Perm (t :: rest)) :
      Step p ((p.withCalls rest p.invoked).answer t.node (t.rule.invoke t.bindings))

/-- What happens one after the other. -/
abbrev Steps : Plan → Plan → Prop := Relation.ReflTransGen Step

/-- What every step keeps is kept throughout. -/
theorem Steps.induction {I : Plan → Prop} (h : Steps p q) (hp : I p) (hstep : ∀ p q, Step p q → I p → I q) : I q := by
  induction h with
  | refl => exact hp
  | tail _ hs ih => exact hstep _ _ hs ih

/-- Everything about a plan that does not change in a run. -/
structure SameFrame (p q : Plan) : Prop where
  graph : q.graph = p.graph
  isBackward : q.isBackward = p.isBackward
  order : q.order = p.order
  options : q.options = p.options
  input : q.input = p.input
  demand : ∀ id, (q.progressOf id).demand = (p.progressOf id).demand

theorem SameFrame.refl (p : Plan) : SameFrame p p := ⟨rfl, rfl, rfl, rfl, rfl, fun _ => rfl⟩

/-- Which calls wait and which have been made is not part of the frame. -/
theorem sameFrame_withCalls (p : Plan) (board : List Task) (invoked : List Invocation) :
    SameFrame p (p.withCalls board invoked) := ⟨rfl, rfl, rfl, rfl, rfl, fun _ => rfl⟩

theorem SameFrame.trans (h : SameFrame p q) (h' : SameFrame q r) : SameFrame p r :=
  ⟨h'.graph.trans h.graph, h'.isBackward.trans h.isBackward, h'.order.trans h.order, h'.options.trans h.options,
    h'.input.trans h.input, fun id => (h'.demand id).trans (h.demand id)⟩

theorem sameFrame_update (p : Plan) (id : NodeId) {f : Progress → Progress} (hf : ∀ q, (f q).demand = q.demand) :
    SameFrame p (p.update id f) := by
  refine ⟨rfl, rfl, rfl, rfl, rfl, fun x => ?_⟩
  rw [progressOf_update]
  split
  · next heq => rw [hf, heq]
  · rfl

/-- A call of a node that waits changes nothing of the frame. -/
theorem sameFrame_post (p : Plan) (id : NodeId) (n : Node) (d : Direction) : SameFrame p (p.post id n d) :=
  (sameFrame_update p id fun r => r.demand_give ..).trans (sameFrame_withCalls ..)

/-- Nor does what a handler answers, whichever calls are left. -/
theorem sameFrame_take (p : Plan) (board : List Task) (id : NodeId) (d : Direction) (s : BindingSet) :
    SameFrame p ((p.withCalls board p.invoked).update id (·.take d s)) :=
  (sameFrame_withCalls p board p.invoked).trans (sameFrame_update _ id fun r => r.demand_take d s)

theorem progressOf_take (p : Plan) (board : List Task) (id x : NodeId) (d : Direction) (s : BindingSet) :
    ((p.withCalls board p.invoked).update id (·.take d s)).progressOf x =
      if id = x then (p.progressOf id).take d s else p.progressOf x := progressOf_update _ id x (·.take d s)

theorem sameFrame_answer (p : Plan) (id : NodeId) (result : Except Failure BindingSet) :
    SameFrame p (p.answer id result) := by
  rcases p.answer_cases id result with heq | ⟨d, _, _, ⟨s, _, heq⟩ | ⟨f, _, heq⟩⟩
  · rw [heq]
    exact .refl p
  · rw [heq]
    exact sameFrame_update p id fun r => r.demand_take d s
  · rw [heq]
    exact sameFrame_update p id (by intro q; rfl)

theorem Step.sameFrame (h : Step p q) : SameFrame p q := by
  cases h with
  | record => exact sameFrame_withCalls ..
  | goal => exact sameFrame_update _ _ fun r => r.demand_conclude ..
  | premise => exact sameFrame_update _ _ fun r => r.demand_conclude ..
  | settle => exact sameFrame_update _ _ fun r => r.demand_withStage ..
  | dispatch => exact sameFrame_post ..
  | answer => exact (sameFrame_withCalls ..).trans (sameFrame_answer ..)

theorem Steps.sameFrame (h : Steps p q) : SameFrame p q :=
  Steps.induction (I := SameFrame p) h (.refl p) fun _ _ hs hf => hf.trans hs.sameFrame

/-! ## Moves -/

/-- What happens to a plan while every call is put on record as it is answered. -/
inductive Move : Plan → Plan → Prop
  /-- A step that makes no call. -/
  | advance {p q : Plan} (step : Step p q) (kept : q.invoked = p.invoked) (waits : p.board <+: q.board) : Move p q
  | call {p : Plan} {before after : List Task} {t : Task} (waits : p.board = before ++ t :: after) :
      Move p ((p.record [t] (before ++ after)).answer t.node (t.rule.invoke t.bindings))

abbrev Moves : Plan → Plan → Prop := Relation.ReflTransGen Move

/-- An answer takes a call off the board, so it is not a step that a move makes without a call. -/
theorem not_prefix_of_answer {t : Task} {rest : List Task} (waits : p.board.Perm (t :: rest))
    (result : Except Failure BindingSet) : ¬ p.board <+: ((p.withCalls rest p.invoked).answer t.node result).board := by
  rw [answer_board, board_withCalls]
  intro hprefix
  have hlen := waits.length_eq ▸ hprefix.length_le
  exact absurd hlen (by simp)

theorem Move.steps (h : Move p q) : Steps p q := by
  cases h with
  | advance step => exact .single step
  | @call before after t waits =>
    have hrecord : Step p (p.record [t] p.board) := .record _
    have hwaits : p.board.Perm (t :: (before ++ after)) := by
      rw [waits]
      exact List.perm_middle
    exact .tail (.single hrecord) (.answer hwaits)

theorem Moves.steps (h : Moves p q) : Steps p q := by
  induction h with
  | refl => exact .refl
  | tail _ hm ih => exact ih.trans hm.steps

theorem Moves.sameFrame (h : Moves p q) : SameFrame p q := h.steps.sameFrame

/-! ## Nodes -/

/-- What the start comes to when it is advanced, with whether that is a change. -/
inductive StartAdvance (p : Plan) (n : Node) : Plan × Bool → Prop
  /-- A goal waits for its producers. -/
  | waits (isGoal : p.isBackward = true) (h : p.producersAvailable n = false) : StartAdvance p n (p, false)
  /-- A goal has taken over all of its answers. -/
  | taken (isGoal : p.isBackward = true) (producers : p.producersAvailable n = true)
      (same : ((p.progressOf start).output.sameElements (p.due n) &&
        (p.progressOf start).backward == .available) = true) :
      StartAdvance p n (p, false)
  | goal (isGoal : p.isBackward = true) (producers : p.producersAvailable n = true)
      (new : ((p.progressOf start).output.sameElements (p.due n) &&
        (p.progressOf start).backward == .available) = false) :
      StartAdvance p n (p.update start (·.conclude .backward (p.due n)), true)
  | premise (isPremise : p.isBackward = false) :
      StartAdvance p n (p.update start (·.conclude .forward (p.input.getD ∅)),
        !((p.progressOf start).output.sameElements (p.input.getD ∅) && (p.progressOf start).forward == .available))

theorem advanceStart_cases (p : Plan) (n : Node) : StartAdvance p n (p.advanceStart n) := by
  unfold advanceStart
  cases hb : p.isBackward with
  | true =>
    rw [if_pos rfl]
    split
    · next producers =>
      show StartAdvance p n (if (p.progressOf start).output.sameElements (p.due n) && _ then _ else _)
      split
      · next same => exact .taken hb producers same
      · next new => exact .goal hb producers (Bool.eq_false_iff.2 new)
    · next h => exact .waits hb (Bool.eq_false_iff.2 h)
  | false => exact .premise hb

/-- What any other node comes to when it is advanced, with whether that is a change. -/
inductive InnerAdvance (p : Plan) (id : NodeId) (n : Node) : Plan × Bool → Prop
  /-- The handler has not answered or has failed, or a producer is not available. -/
  | waits (h : ¬ p.Ready id n) : InnerAdvance p id n (p, false)
  /-- The handler has had all that there is. -/
  | idle (ready : p.Ready id n) (later : ¬ p.IsFirst id n) (had : n.hasGap = true ∨ (p.delta id n).isEmpty = true) :
      InnerAdvance p id n (p, false)
  | settle (ready : p.Ready id n) (first : p.IsFirst id n)
      (idle : n.hasGap = true ∨ n.rule.antecedent.isEmpty = false ∧ (p.delta id n).isEmpty = true) :
      InnerAdvance p id n (p.update id (·.withStage n.direction .available), true)
  /-- The first call goes in the direction of the node. -/
  | evaluate (ready : p.Ready id n) (whole : n.hasGap = false) (first : p.IsFirst id n)
      (due : n.rule.antecedent.isEmpty = true ∨ (p.delta id n).isEmpty = false) :
      InnerAdvance p id n (p.dispatch id n n.direction (p.delta id n), true)
  /-- Later calls go against it. -/
  | resume (ready : p.Ready id n) (whole : n.hasGap = false) (later : ¬ p.IsFirst id n)
      (due : (p.delta id n).isEmpty = false) :
      InnerAdvance p id n (p.dispatch id n n.direction.opposite (p.delta id n), true)

theorem advanceInner_cases (hn : p.graph.node? id = some n) (hid : id ≠ start) :
    InnerAdvance p id n (p.advanceInner id n) := by
  unfold advanceInner
  dsimp only
  split
  · next hwaits =>
    refine .waits fun ready => ?_
    simp [ready.idle, ready.sound, ready.producers] at hwaits
  · next hidle =>
    simp only [Bool.or_eq_true, Bool.not_eq_true', not_or, Bool.not_eq_true, Bool.not_eq_false] at hidle
    have ready : p.Ready id n := ⟨hn, hid, hidle.1.1, hidle.1.2, hidle.2⟩
    split
    · next gap =>
      split
      · next first => exact .settle ready (beq_iff_eq.1 first) (.inl gap)
      · next later => exact .idle ready (fun h => later (beq_iff_eq.2 h)) (.inl gap)
    · next hgap =>
      have whole : n.hasGap = false := Bool.eq_false_iff.2 hgap
      split
      · next first =>
        split
        · next due => exact .evaluate ready whole (beq_iff_eq.1 first) (by simpa [delta] using due)
        · next hdue => exact .settle ready (beq_iff_eq.1 first) (.inr (by simpa [delta] using hdue))
      · next hlater =>
        have later : ¬ p.IsFirst id n := fun h => hlater (beq_iff_eq.2 h)
        split
        · next had => exact .idle ready later (.inr had)
        · next due => exact .resume ready whole later (Bool.eq_false_iff.2 due)

theorem advanceNode_start (hn : p.graph.node? start = some n) : p.advanceNode start = p.advanceStart n := by
  unfold advanceNode
  rw [hn]
  exact if_pos rfl

theorem advanceNode_inner (hn : p.graph.node? id = some n) (hid : id ≠ start) :
    p.advanceNode id = p.advanceInner id n := by
  unfold advanceNode
  rw [hn]
  exact if_neg hid

theorem advanceNode_cases (p : Plan) (id : NodeId) : p.advanceNode id = (p, false) ∨
    (∃ n, id = start ∧ p.graph.node? start = some n ∧ p.advanceNode id = p.advanceStart n) ∨
      ∃ n, id ≠ start ∧ p.graph.node? id = some n ∧ p.advanceNode id = p.advanceInner id n := by
  cases hn : p.graph.node? id with
  | none =>
    refine .inl ?_
    rw [advanceNode, hn]
  | some n =>
    by_cases hid : id = start
    · subst hid
      exact .inr (.inl ⟨n, rfl, hn, advanceNode_start hn⟩)
    · exact .inr (.inr ⟨n, hid, rfl, advanceNode_inner hn hid⟩)

/-! ## Passes -/

/-- A call that is made at once is a call that waits and is then answered. -/
theorem invoke_move (p : Plan) (t : Task) : Move (p.addTask t) ((p.invoke t).1.answer t.node (p.invoke t).2) := by
  have hwaits : (p.addTask t).board = p.board ++ t :: [] := rfl
  have hmove := Move.call hwaits
  rw [List.append_nil] at hmove
  rw [invoke_eq]
  exact hmove

theorem dispatch_moves {d : Direction} (ready : p.Ready id n) (whole : n.hasGap = false)
    (due : (p.delta id n).isEmpty = false ∨ p.IsFirst id n ∧ n.rule.antecedent.isEmpty = true)
    (way : p.IsFirst id n ∧ d = n.direction ∨ ¬ p.IsFirst id n) : Moves p (p.dispatch id n d (p.delta id n)) := by
  have hmove := Move.advance (.dispatch d ready whole due way) rfl (List.prefix_append _ _)
  show Moves p (if p.options.useTaskBoard then _ else _)
  split
  · exact .single hmove
  · exact .tail (.single hmove) (invoke_move (p.update id (·.give d (p.delta id n))) (p.nextTask id n))

theorem advanceStart_moves (hn : p.graph.node? start = some n) : Moves p (p.advanceStart n).1 := by
  have hcases := p.advanceStart_cases n
  generalize p.advanceStart n = r at hcases ⊢
  cases hcases with
  | waits => exact .refl
  | taken => exact .refl
  | goal isGoal producers => exact .single (.advance (.goal isGoal hn producers) rfl (List.prefix_refl _))
  | premise isPremise => exact .single (.advance (.premise isPremise) rfl (List.prefix_refl _))

theorem advanceInner_moves (hn : p.graph.node? id = some n) (hid : id ≠ start) : Moves p (p.advanceInner id n).1 := by
  have hcases := advanceInner_cases hn hid
  generalize p.advanceInner id n = r at hcases ⊢
  cases hcases with
  | waits => exact .refl
  | idle => exact .refl
  | settle ready first idle => exact .single (.advance (.settle ready first idle) rfl (List.prefix_refl _))
  | evaluate ready whole first due =>
    exact dispatch_moves ready whole (due.symm.imp_right fun h => ⟨first, h⟩) (.inl ⟨first, rfl⟩)
  | resume ready whole later due => exact dispatch_moves ready whole (.inl due) (.inr later)

theorem advanceNode_moves (p : Plan) (id : NodeId) : Moves p (p.advanceNode id).1 := by
  rcases advanceNode_cases p id with heq | ⟨n, rfl, hn, heq⟩ | ⟨n, hid, hn, heq⟩
  · rw [heq]
  · rw [heq]
    exact advanceStart_moves hn
  · rw [heq]
    exact advanceInner_moves hn hid

theorem advanceNode_steps (p : Plan) (id : NodeId) : Steps p (p.advanceNode id).1 := (advanceNode_moves p id).steps

/-- What a pass over some nodes does. -/
def advanceOver (l : List NodeId) (p : Plan) (changed : Bool) : Plan × Bool :=
  l.foldl (fun (p, changed) id =>
    let (p, c) := p.advanceNode id
    (p, changed || c)) (p, changed)

theorem advance_eq (p : Plan) : p.advance = advanceOver p.order p false := rfl

theorem advanceOver_cons (id : NodeId) (l : List NodeId) (p : Plan) (changed : Bool) :
    advanceOver (id :: l) p changed = advanceOver l (p.advanceNode id).1 (changed || (p.advanceNode id).2) := rfl

theorem advanceOver_moves (l : List NodeId) (p : Plan) (changed : Bool) : Moves p (advanceOver l p changed).1 := by
  induction l generalizing p changed with
  | nil => exact .refl
  | cons id l ih =>
    rw [advanceOver_cons]
    exact (advanceNode_moves p id).trans (ih _ _)

theorem advance_moves (p : Plan) : Moves p p.advance.1 := advanceOver_moves p.order p false

theorem advance_steps (p : Plan) : Steps p p.advance.1 := (advance_moves p).steps

theorem settle_moves {rounds : Nat} {waits : Bool} (h : settle rounds p = .ok (q, waits)) : Moves p q := by
  induction rounds generalizing p with
  | zero => cases h
  | succ rounds ih =>
    rw [settle] at h
    dsimp only at h
    split at h
    · cases h
      exact advance_moves p
    · split at h
      · exact (advance_moves p).trans (ih h)
      · cases h
        exact advance_moves p

theorem settle_steps {rounds : Nat} {waits : Bool} (h : settle rounds p = .ok (q, waits)) : Steps p q :=
  (settle_moves h).steps

/-! ## Boards -/

theorem callAll_eq (p : Plan) : p.callAll = (p.record p.board [], p.board.map Task.outcome) := by
  -- The handlers see nothing of the plan, so the calls can be made in a row.
  have hfold (l : List Task) (m : Plan) (outcomes : List Outcome) :
      l.foldl (fun (r : Plan × List Outcome) t =>
          ((r.1.invoke t).1, r.2 ++ [⟨t.node, (r.1.invoke t).2⟩])) (m, outcomes) =
        (m.record l m.board, outcomes ++ l.map Task.outcome) := by
    induction l generalizing m outcomes with
    | nil => simp [record_nil]
    | cons t l ih =>
      rw [List.foldl_cons, ih, invoke_eq]
      simp [record_record, Task.outcome]
  exact hfold p.board (p.withCalls [] p.invoked) []

theorem answerAll_cons (p : Plan) (o : Outcome) (l : List Outcome) :
    p.answerAll (o :: l) = (p.answer o.node o.result).answerAll l := rfl

/-- Calls may be answered in any order. -/
theorem answerAll_steps {l : List Task} (h : p.board.Perm l) :
    Steps p ((p.withCalls [] p.invoked).answerAll (l.map Task.outcome)) := by
  induction l generalizing p with
  | nil =>
    have heq := p.withCalls_self
    rw [List.perm_nil.1 h] at heq
    rw [heq]
    exact .refl
  | cons t l ih =>
    have hstep := Step.answer h
    have hrest := ih (p := (p.withCalls l p.invoked).answer t.node (t.rule.invoke t.bindings))
      (by rw [answer_board, board_withCalls])
    rw [List.map_cons, answerAll_cons, Task.outcome, answer_withCalls]
    rw [answer_withCalls] at hstep hrest
    exact .head hstep hrest

/-- A board is drained in steps, in whatever order the answers come. -/
theorem drain_steps {outcomes : List Outcome} (h : outcomes.Perm p.callAll.2) :
    Steps p (p.callAll.1.answerAll outcomes) := by
  rw [callAll_eq] at h ⊢
  dsimp only at h ⊢
  -- Outcomes in another order are the outcomes of the calls in another order.
  obtain ⟨l, rfl, hl⟩ := (congrFun (congrFun (List.eq_map_comp_perm Task.outcome) outcomes) p.board).mpr h
  have hrecord : Step p (p.record p.board p.board) := .record _
  exact .head hrecord (answerAll_steps hl.symm)

/-- A board that is drained in order is drained in moves. -/
theorem drain_moves (p : Plan) : Moves p p.drain := by
  have hall (l : List Task) (p : Plan) (hl : p.board = l) :
      Moves p ((p.record l []).answerAll (l.map Task.outcome)) := by
    induction l generalizing p with
    | nil =>
      have heq := p.record_nil
      rw [hl] at heq
      rw [heq]
      exact .refl
    | cons t l ih =>
      have hwaits : p.board = [] ++ t :: l := hl
      have hrest := ih ((p.record [t] l).answer t.node (t.rule.invoke t.bindings)) (by rw [answer_board, board_record])
      rw [← answer_record, record_record, List.singleton_append] at hrest
      rw [List.map_cons, answerAll_cons, Task.outcome]
      exact .head (.call hwaits) hrest
  have heq : p.drain = p.callAll.1.answerAll p.callAll.2 := rfl
  rw [heq, callAll_eq]
  exact hall p.board p rfl

/-! ## Ends of runs -/

/-- No call waits and no node would advance. -/
structure Quiet (p : Plan) : Prop where
  board : p.board = []
  still : ∀ id < p.size, p.advanceNode id = (p, false)

/-- Every node is visited. -/
def Ordered (p : Plan) : Prop := ∀ id < p.size, id ∈ p.order

/-- A node that does not change anything leaves the plan as it is. -/
theorem advanceNode_still (hb : p.isBackward = true) (h : (p.advanceNode id).2 = false) :
    p.advanceNode id = (p, false) := by
  rcases advanceNode_cases p id with heq | ⟨n, rfl, _, heq⟩ | ⟨n, hid, hn, heq⟩
  · exact heq
  · rw [heq] at h ⊢
    have hcases := p.advanceStart_cases n
    generalize p.advanceStart n = r at hcases h ⊢
    cases hcases with
    | waits => rfl
    | taken => rfl
    | goal => cases h
    | premise isPremise =>
      rw [hb] at isPremise
      cases isPremise
  · rw [heq] at h ⊢
    have hcases := advanceInner_cases hn hid
    generalize p.advanceInner id n = r at hcases h ⊢
    cases hcases with
    | waits => rfl
    | idle => rfl
    | settle => cases h
    | evaluate => cases h
    | resume => cases h

theorem advanceOver_still {l : List NodeId} {changed : Bool} (hb : p.isBackward = true)
    (h : (advanceOver l p changed).2 = false) :
    changed = false ∧ (advanceOver l p changed).1 = p ∧ ∀ id ∈ l, p.advanceNode id = (p, false) := by
  induction l generalizing p changed with
  | nil => exact ⟨h, rfl, by simp⟩
  | cons id l ih =>
    rw [advanceOver_cons] at h ⊢
    have hframe := (advanceNode_steps p id).sameFrame
    obtain ⟨hc, heq, hall⟩ := ih (hframe.isBackward.trans hb) h
    rw [Bool.or_eq_false_iff] at hc
    have hid := advanceNode_still hb hc.2
    rw [hid] at heq hall ⊢
    exact ⟨hc.1, heq, List.forall_mem_cons.2 ⟨hid, hall⟩⟩

theorem settle_quiet {rounds : Nat} (hb : p.isBackward = true) (ho : p.Ordered)
    (h : settle rounds p = .ok (q, false)) : q.Quiet := by
  induction rounds generalizing p with
  | zero => cases h
  | succ rounds ih =>
    rw [settle] at h
    dsimp only at h
    have hframe := (advance_steps p).sameFrame
    split at h
    · cases h
    · next hboard =>
      split at h
      · refine ih (hframe.isBackward.trans hb) (fun id hid => ?_) h
        rw [hframe.order]
        exact ho id (by rwa [size, hframe.graph] at hid)
      · next hchanged =>
        cases h
        rw [advance_eq] at hboard hchanged ⊢
        obtain ⟨_, heq, hall⟩ := advanceOver_still hb (by simpa using hchanged)
        rw [heq] at hboard ⊢
        exact ⟨by simpa using hboard, fun id hid => hall id (ho id hid)⟩

/-! ## Runs -/

/-- The input that stands for some bindings. -/
def inputOf (bindings : BindingSet) : BindingSet := if bindings.isEmpty then .unconstrained else bindings

/-- A plan that has been given an input. -/
def withInputAs (p : Plan) (d : Demands) (bindings : BindingSet) : Plan :=
  { p.withDemands d with input := some (inputOf bindings) }

/-- The plan was last given these bindings. -/
def HasInput (p : Plan) (bindings : BindingSet) : Prop := p.input.any (·.sameElements (inputOf bindings)) = true

theorem hasInput_withInputAs (p : Plan) (d : Demands) (bindings : BindingSet) :
    (p.withInputAs d bindings).HasInput bindings :=
  InsertionSet.sameElements_iff.2 fun _ => .rfl

theorem not_hasInput {bindings : BindingSet} (h : p.input = none) : ¬ p.HasInput bindings := by
  simp [HasInput, h]

theorem HasInput.of_sameFrame {bindings : BindingSet} (h : p.HasInput bindings) (hf : SameFrame p q) :
    q.HasInput bindings := by
  unfold HasInput
  rwa [hf.input]

theorem withInput_same {rounds : Nat} {bindings : BindingSet} (h : p.HasInput bindings) :
    p.withInput rounds bindings = .ok p := if_pos h

theorem withInput_new {rounds : Nat} {bindings : BindingSet} (h : ¬ p.HasInput bindings) :
    p.withInput rounds bindings =
      match p.checkInput (inputOf bindings) with
      | .error f => .error (.refused f)
      | .ok () =>
        match p.demandsFor rounds (inputOf bindings) with
        | none => .error .outOfRounds
        | some d => .ok (p.withInputAs d bindings) := if_neg h

theorem withInput_fresh {rounds : Nat} {bindings : BindingSet} (h : p.input = none) :
    p.withInput rounds bindings =
      match p.checkInput (inputOf bindings) with
      | .error f => .error (.refused f)
      | .ok () =>
        match p.demandsFor rounds (inputOf bindings) with
        | none => .error .outOfRounds
        | some d => .ok (p.withInputAs d bindings) := withInput_new (not_hasInput h)

/-- The plan keeps the input that it has, or takes over another one with the demands that come of it. -/
theorem withInput_eq_ok {rounds : Nat} {bindings : BindingSet} (h : p.withInput rounds bindings = .ok q) :
    p.HasInput bindings ∧ q = p ∨ ∃ d, p.demandsFor rounds (inputOf bindings) = some d ∧
      p.checkInput (inputOf bindings) = .ok () ∧ q = p.withInputAs d bindings := by
  by_cases hsame : p.HasInput bindings
  · rw [withInput_same hsame] at h
    cases h
    exact .inl ⟨hsame, rfl⟩
  · rw [withInput_new hsame] at h
    split at h
    · cases h
    · next hc =>
      split at h
      · cases h
      · next d hd =>
        cases h
        exact .inr ⟨d, hd, hc, rfl⟩

theorem hasInput_of_withInput {rounds : Nat} {bindings : BindingSet} (h : p.withInput rounds bindings = .ok q) :
    q.HasInput bindings := by
  rcases withInput_eq_ok h with ⟨hsame, rfl⟩ | ⟨d, _, _, rfl⟩
  · exact hsame
  · exact p.hasInput_withInputAs d bindings

theorem withInput_eq_error {rounds : Nat} {bindings : BindingSet} {e : RunError}
    (h : p.withInput rounds bindings = .error e) :
    e = .outOfRounds ∨ ∃ f, ¬ p.HasInput bindings ∧ p.checkInput (inputOf bindings) = .error f ∧ e = .refused f := by
  by_cases hsame : p.HasInput bindings
  · rw [withInput_same hsame] at h
    cases h
  · rw [withInput_new hsame] at h
    split at h
    · next f hcheck => exact .inr ⟨f, hsame, hcheck, (Except.error.inj h).symm⟩
    · split at h
      · exact .inl (Except.error.inj h).symm
      · cases h

/-- The plan has been executed to the end and drained by turns; the answers of a drained board came in any
order. -/
inductive Runs (bindings : BindingSet) : Plan → Plan → Prop
  | done {p q : Plan} {rounds : Nat} (executed : p.execute rounds bindings = .ok (q, false)) : Runs bindings p q
  | drained {p m q : Plan} {rounds : Nat} {outcomes : List Outcome}
      (executed : p.execute rounds bindings = .ok (m, true))
      (order : outcomes.Perm m.callAll.2) (rest : Runs bindings (m.callAll.1.answerAll outcomes) q) : Runs bindings p q

theorem run_succ (rounds : Nat) (bindings : BindingSet) : p.run (rounds + 1) bindings =
    match p.execute (rounds + 1) bindings with
    | .error e => .error e
    | .ok (p, true) => run rounds p.drain bindings
    | .ok (p, false) => .ok p := rfl

theorem runs_of_run {rounds : Nat} {bindings : BindingSet} (h : p.run rounds bindings = .ok q) : Runs bindings p q := by
  induction rounds generalizing p with
  | zero => cases h
  | succ rounds ih =>
    rw [run] at h
    split at h
    · cases h
    · next m hm => exact .drained hm (.refl _) (ih h)
    · next m hm =>
      cases h
      exact .done hm

theorem execute_eq_ok {rounds : Nat} {bindings : BindingSet} {waits : Bool} :
    p.execute rounds bindings = .ok (q, waits) ↔
      ∃ m, p.withInput rounds bindings = .ok m ∧ settle rounds m = .ok (q, waits) := Except.bind_eq_ok

/-- A run goes on in steps once the plan has its input. -/
theorem Runs.steps {bindings : BindingSet} (h : Runs bindings p q) (hi : p.HasInput bindings) :
    Steps p q ∧ (p.isBackward = true → p.Ordered → q.Quiet) := by
  -- On the turns of the run; the input stays what it is, so each turn starts without giving it anew.
  induction h with
  | done hex =>
    obtain ⟨m, hm, hs⟩ := execute_eq_ok.1 hex
    rw [withInput_same hi] at hm
    cases hm
    exact ⟨settle_steps hs, fun hb ho => settle_quiet hb ho hs⟩
  | @drained p m q rounds outcomes hex hperm _ ih =>
    obtain ⟨p', hp', hs⟩ := execute_eq_ok.1 hex
    rw [withInput_same hi] at hp'
    cases hp'
    have hsteps : Steps p (m.callAll.1.answerAll outcomes) := (settle_steps hs).trans (drain_steps hperm)
    have hframe := hsteps.sameFrame
    obtain ⟨hrest, hq⟩ := ih (hi.of_sameFrame hframe)
    refine ⟨hsteps.trans hrest, fun hb ho => hq (hframe.isBackward.trans hb) fun id hid => ?_⟩
    rw [hframe.order]
    exact ho id (by rwa [size, hframe.graph] at hid)

/-- A run of a plan gives it its input first, unless it has it. -/
theorem Runs.exists_demands {bindings : BindingSet} (h : Runs bindings p q) (hi : ¬ p.HasInput bindings) :
    ∃ rounds d, p.demandsFor rounds (inputOf bindings) = some d ∧ p.checkInput (inputOf bindings) = .ok () ∧
      Runs bindings (p.withInputAs d bindings) q := by
  have hgiven {rounds : Nat} {m : Plan} (hm : p.withInput rounds bindings = .ok m) :=
    (withInput_eq_ok hm).resolve_left fun hsame => hi hsame.1
  cases h with
  | @done _ _ rounds hex =>
    obtain ⟨m, hm, hs⟩ := execute_eq_ok.1 hex
    obtain ⟨d, hd, hc, rfl⟩ := hgiven hm
    exact ⟨rounds, d, hd, hc, .done (execute_eq_ok.2 ⟨_, withInput_same (p.hasInput_withInputAs d bindings), hs⟩)⟩
  | @drained _ m _ rounds outcomes hex hperm hrest =>
    obtain ⟨p', hp', hs⟩ := execute_eq_ok.1 hex
    obtain ⟨d, hd, hc, rfl⟩ := hgiven hp'
    exact ⟨rounds, d, hd, hc,
      .drained (execute_eq_ok.2 ⟨_, withInput_same (p.hasInput_withInputAs d bindings), hs⟩) hperm hrest⟩

theorem settle_eq_error {rounds : Nat} {e : RunError} (h : settle rounds p = .error e) : e = .outOfRounds := by
  induction rounds generalizing p with
  | zero => exact (Except.error.inj h).symm
  | succ rounds ih =>
    rw [settle] at h
    dsimp only at h
    split at h
    · cases h
    · split at h
      · exact ih h
      · cases h

/-- After a plan has been given its input, a run can only run out of rounds. -/
theorem run_eq_error {rounds : Nat} {bindings : BindingSet} {e : RunError} (h : p.run rounds bindings = .error e) :
    e = .outOfRounds ∨ ∃ f, ¬ p.HasInput bindings ∧ p.checkInput (inputOf bindings) = .error f ∧ e = .refused f := by
  induction rounds generalizing p with
  | zero => exact .inl (Except.error.inj h).symm
  | succ rounds ih =>
    rw [run_succ] at h
    split at h
    · next e' hex =>
      obtain rfl : e' = e := Except.error.inj h
      cases hinput : p.withInput (rounds + 1) bindings with
      | ok m =>
        rw [execute, hinput] at hex
        exact .inl (settle_eq_error hex)
      | error e'' =>
        rw [execute, hinput] at hex
        obtain rfl : e'' = e' := Except.error.inj hex
        exact withInput_eq_error hinput
    · next m hex =>
      obtain ⟨m', hm', hs⟩ := execute_eq_ok.1 hex
      have hsteps : Steps m' m.drain := (settle_steps hs).trans (drain_steps (.refl _))
      have hgiven := (hasInput_of_withInput hm').of_sameFrame hsteps.sameFrame
      exact (ih h).imp_right fun ⟨_, hnot, _⟩ => absurd hgiven hnot
    · cases h

/-- An input that is refused ends the run. -/
theorem run_eq_refused {rounds : Nat} {bindings : BindingSet} {f : Failure} (hi : ¬ p.HasInput bindings)
    (hcheck : p.checkInput (inputOf bindings) = .error f) (hended : p.run rounds bindings ≠ .error .outOfRounds) :
    p.run rounds bindings = .error (.refused f) := by
  cases rounds with
  | zero => exact absurd rfl hended
  | succ rounds =>
    have hex : p.execute (rounds + 1) bindings = .error (.refused f) := by
      unfold execute
      rw [withInput_new hi, hcheck]
      rfl
    rw [run_succ, hex]

/-- A run with any other input ends with a plan, if the rounds suffice. -/
theorem exists_run {rounds : Nat} {bindings : BindingSet} (hcheck : p.checkInput (inputOf bindings) = .ok ())
    (hended : p.run rounds bindings ≠ .error .outOfRounds) : ∃ q, p.run rounds bindings = .ok q := by
  cases hrun : p.run rounds bindings with
  | ok q => exact ⟨q, rfl⟩
  | error e =>
    rcases run_eq_error hrun with rfl | ⟨f, _, hrefused, _⟩
    · exact absurd hrun hended
    · rw [hcheck] at hrefused
      cases hrefused

end Plan

end TripleChain
