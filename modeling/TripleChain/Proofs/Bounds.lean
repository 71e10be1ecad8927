import TripleChain.Proofs.Execution
/-!
# Bounds on what nodes take in and give back

`X` bounds what the nodes give back and `Y` what their handlers are given. `Plan.Confines` says of such bounds
that inputs and handler calls do not lead out of them; then no run does (`Plan.Steps.bounded`).

Soundness, the finiteness of runs and the fact that the order of answers does not matter are all obtained from
suitable bounds.
-/

namespace TripleChain

namespace Plan

variable {p q : Plan} {X Y : Outputs} {id : NodeId}

/-- A handler call that a node may make on nothing: it has no antecedent, and nothing is wanted of it. -/
def AsksForAll (p : Plan) (id : NodeId) (n : Node) : Prop :=
  n.rule.antecedent.isEmpty = true ∧ (p.progressOf id).demand.isEmpty = true

/-- Neither inputs nor handler calls lead out of the bounds. -/
structure Confines (p : Plan) (X Y : Outputs) : Prop where
  input : ∀ q, SameFrame p q → (∀ id, q.outputs id ⊆ X id) → ∀ id n, id ≠ start → p.graph.node? id = some n →
    n.hasGap = false → ∀ b ∈ q.nodeInput id n, b ∈ Y id
  goal : p.isBackward = true → ∀ q, SameFrame p q → (∀ id, q.outputs id ⊆ X id) → ∀ n,
    p.graph.node? start = some n → n.hasGap = false → ∀ b ∈ q.nodeInput start n, b ∈ X start
  premise : p.isBackward = false → ∀ b ∈ p.input.getD ∅, b ∈ X start
  call : ∀ id n s c, id ≠ start → p.graph.node? id = some n → (∀ b ∈ s, b ∈ Y id) →
    (s.isEmpty = true → p.AsksForAll id n) → n.rule.Yields s c → c ∈ X id

/-- A handler call on the board is one of its node, within the bounds. -/
structure CallBounded (p : Plan) (Y : Outputs) (t : Task) : Prop where
  inner : t.node ≠ start
  node : ∃ n, p.graph.node? t.node = some n ∧ t.rule = n.rule ∧ (t.bindings.isEmpty = true → p.AsksForAll t.node n)
  bindings : ∀ b ∈ t.bindings, b ∈ Y t.node

/-- The plan is within the bounds. -/
structure Bounded (p : Plan) (X Y : Outputs) : Prop where
  output : ∀ id, p.outputs id ⊆ X id
  handled : ∀ id, id ≠ start → ∀ b ∈ (p.progressOf id).handled, b ∈ Y id
  fresh : ∀ id n, id ≠ start → p.graph.node? id = some n → p.IsFirst id n → ∀ b, b ∉ (p.progressOf id).handled
  board : ∀ t ∈ p.board, CallBounded p Y t

theorem Confines.of_sameFrame (h : p.Confines X Y) (hf : SameFrame p q) : q.Confines X Y := by
  have hasks {id : NodeId} {n : Node} (ha : q.AsksForAll id n) : p.AsksForAll id n := by
    unfold AsksForAll at ha ⊢
    rwa [hf.demand] at ha
  refine ⟨?_, ?_, ?_, ?_⟩
  · rw [hf.graph]
    exact fun r hr => h.input r (hf.trans hr)
  · rw [hf.graph, hf.isBackward]
    exact fun hb r hr => h.goal hb r (hf.trans hr)
  · rw [hf.isBackward, hf.input]
    exact h.premise
  · rw [hf.graph]
    exact fun id n s c hid hn hs he => h.call id n s c hid hn hs fun hs => hasks (he hs)

theorem CallBounded.of_sameFrame {t : Task} (h : CallBounded p Y t) (hf : SameFrame p q) : CallBounded q Y t := by
  obtain ⟨n, hn, hr, he⟩ := h.node
  refine ⟨h.inner, ⟨n, by rw [hf.graph, hn], hr, fun hs => ?_⟩, h.bindings⟩
  unfold AsksForAll
  rw [hf.demand]
  exact he hs

/-- Progress of one node within the bounds. -/
theorem Bounded.update {f : Progress → Progress} (h : p.Bounded X Y) (hd : ∀ r, (f r).demand = r.demand)
    (hout : ∀ b ∈ (f (p.progressOf id)).output, b ∈ X id)
    (hhandled : id ≠ start → ∀ b ∈ (f (p.progressOf id)).handled, b ∈ Y id)
    (hfresh : id ≠ start → ∀ n, p.graph.node? id = some n → (f (p.progressOf id)).stage n.direction = .notRequested →
      ∀ b, b ∉ (f (p.progressOf id)).handled) : (p.update id f).Bounded X Y := by
  refine ⟨fun x b hb => ?_, fun x hx b hb => ?_, fun x n hx hn hfirst b hb => ?_, fun t ht => ?_⟩
  · show b ∈ X x
    rw [outputs, progressOf_update] at hb
    split at hb
    · next heq => exact heq ▸ hout b hb
    · exact h.output x hb
  · rw [progressOf_update] at hb
    split at hb
    · next heq => exact heq ▸ hhandled (heq ▸ hx) b hb
    · exact h.handled x hx b hb
  · unfold IsFirst at hfirst
    rw [progressOf_update] at hb hfirst
    split at hb
    · next heq =>
      subst heq
      rw [if_pos rfl] at hfirst
      exact hfresh hx n hn hfirst b hb
    · next hne =>
      rw [if_neg hne] at hfirst
      exact h.fresh x n hx hn hfirst b hb
  · exact (h.board t ht).of_sameFrame (sameFrame_update p id hd)

theorem Bounded.withCalls {board : List Task} {invoked : List Invocation} (h : p.Bounded X Y)
    (hb : ∀ t ∈ board, CallBounded p Y t) : (p.withCalls board invoked).Bounded X Y :=
  ⟨h.output, h.handled, h.fresh, fun t ht => (hb t ht).of_sameFrame (sameFrame_withCalls ..)⟩

/-- An answer to a call within the bounds is within the bounds. -/
theorem Bounded.answer {t : Task} (hc : p.Confines X Y) (h : p.Bounded X Y) (ht : CallBounded p Y t) :
    (p.answer t.node (t.rule.invoke t.bindings)).Bounded X Y := by
  obtain ⟨n, hn, hr, he⟩ := ht.node
  rcases p.answer_cases t.node (t.rule.invoke t.bindings) with heq | ⟨d, _, _, ⟨s, hs, heq⟩ | ⟨f, _, heq⟩⟩
  · rwa [heq]
  · rw [heq]
    refine h.update (fun r => r.demand_take d s) (fun b hb => ?_) (fun hid b hb => ?_) fun hid m hm hfirst b hb => ?_
    · rw [Progress.output_take] at hb
      rcases InsertionSet.mem_union.1 hb with hb | hb
      · exact h.output _ hb
      · exact hc.call _ n _ b ht.inner hn ht.bindings he (hr ▸ ⟨s, hs, hb⟩)
    · rw [Progress.handled_take] at hb
      exact h.handled _ hid b hb
    · rw [Progress.stage_take] at hfirst
      rw [Progress.handled_take] at hb
      split at hfirst
      · cases hfirst
      · exact h.fresh _ m hid hm hfirst b hb
  · rw [heq]
    exact h.update (by intro r; rfl) (h.output _) (fun hid => h.handled _ hid)
      fun hid m hm hfirst => h.fresh _ m hid hm hfirst

theorem mem_delta {n : Node} {b : Binding} :
    b ∈ p.delta id n ↔ b ∈ p.nodeInput id n ∧ b ∉ (p.progressOf id).handled := InsertionSet.mem_difference

/-- A node that is asked before anything is wanted of it asks for everything. -/
theorem Bounded.asksForAll {n : Node} (h : p.Bounded X Y) (hid : id ≠ start) (hn : p.graph.node? id = some n)
    (hdue : (p.delta id n).isEmpty = false ∨ p.IsFirst id n ∧ n.rule.antecedent.isEmpty = true)
    (he : (p.delta id n).isEmpty = true) : p.AsksForAll id n := by
  -- Without antecedent the input is what is wanted, and at the first call nothing of it has been handled.
  obtain ⟨hfirst, hne⟩ := hdue.resolve_left (by simp [he])
  refine ⟨hne, InsertionSet.isEmpty_iff.2 fun b hb => ?_⟩
  refine InsertionSet.isEmpty_iff.1 he b (mem_delta.2 ⟨?_, h.fresh id n hid hn hfirst b⟩)
  rwa [nodeInput_of_empty hne]

/-- A call that a node makes on what it has not handled is within the bounds. -/
theorem Bounded.dispatch {n : Node} {d : Direction} (h : p.Bounded X Y) (ready : p.Ready id n)
    (hinput : ∀ b ∈ p.delta id n, b ∈ Y id)
    (due : (p.delta id n).isEmpty = false ∨ p.IsFirst id n ∧ n.rule.antecedent.isEmpty = true)
    (way : p.IsFirst id n ∧ d = n.direction ∨ ¬ p.IsFirst id n) :
    (p.post id n d).Bounded X Y := by
  have hupdate : (p.update id (·.give d (p.delta id n))).Bounded X Y := by
    refine h.update (fun r => r.demand_give ..) (fun b hm => ?_) (fun hid b hm => ?_) fun hid m hm hfirst b hmem => ?_
    · rw [Progress.output_give] at hm
      exact h.output id hm
    · rw [Progress.handled_give] at hm
      exact (InsertionSet.mem_union.1 hm).elim (h.handled id hid b) (hinput b)
    · -- After a call the node is no longer one that has not been evaluated.
      have hnm : n = m := Option.some.inj (ready.node.symm.trans hm)
      subst hnm
      rw [Progress.stage_give] at hfirst
      split at hfirst
      · cases hfirst
      · next hne => exact absurd hfirst (way.resolve_left fun hw => hne hw.2)
  have hf : SameFrame p (p.update id (·.give d (p.delta id n))) := sameFrame_update _ _ fun r => r.demand_give ..
  refine hupdate.withCalls fun t ht => ?_
  rcases List.mem_append.1 ht with ht | ht
  · exact hupdate.board t ht
  · rw [List.mem_singleton.1 ht]
    refine CallBounded.of_sameFrame (p := p) ⟨ready.inner, ⟨n, ready.node, rfl, ?_⟩, hinput⟩ hf
    exact h.asksForAll ready.inner ready.node due

/-- No step leads out of the bounds. -/
theorem Step.bounded (h : Step p q) (hc : p.Confines X Y) (hb : p.Bounded X Y) : q.Bounded X Y := by
  have hout : ∀ id, p.outputs id ⊆ X id := hb.output
  cases h with
  | record => exact hb.withCalls hb.board
  | @goal n hgoal hn _ =>
    refine hb.update (fun r => r.demand_conclude ..) (fun b hb => ?_)
      (fun hid => absurd rfl hid) fun hid => absurd rfl hid
    rw [Progress.output_conclude, mem_due] at hb
    exact hc.goal hgoal p (.refl p) hout n hn hb.1 b hb.2
  | premise hpremise =>
    refine hb.update (fun r => r.demand_conclude ..) (fun b hb => ?_)
      (fun hid => absurd rfl hid) fun hid => absurd rfl hid
    rw [Progress.output_conclude] at hb
    exact hc.premise hpremise b hb
  | @settle id n ready first _ =>
    refine hb.update (fun r => r.demand_withStage ..) (fun b hm => ?_) (fun hid b hm => ?_)
      fun hid m hm hfirst b hmem => ?_
    · rw [Progress.output_withStage] at hm
      exact hb.output id hm
    · rw [Progress.handled_withStage] at hm
      exact hb.handled id hid b hm
    · rw [Progress.stage_withStage] at hfirst
      rw [Progress.handled_withStage] at hmem
      split at hfirst
      · cases hfirst
      · exact hb.fresh id m hid hm hfirst b hmem
  | @dispatch id n _ ready whole due way =>
    refine hb.dispatch ready (fun b hd => ?_) due way
    exact hc.input p (.refl p) hout id n ready.inner ready.node whole b (mem_delta.1 hd).1
  | @answer t rest waits =>
    have ht := hb.board t (waits.mem_iff.2 List.mem_cons_self)
    have hrest : (p.withCalls rest p.invoked).Bounded X Y :=
      hb.withCalls fun a ha => hb.board a (waits.mem_iff.2 (List.mem_cons_of_mem t ha))
    have hf : SameFrame p (p.withCalls rest p.invoked) := sameFrame_withCalls ..
    exact hrest.answer (hc.of_sameFrame hf) (ht.of_sameFrame hf)

/-- No run leads out of the bounds. -/
theorem Steps.bounded (h : Steps p q) (hc : p.Confines X Y) (hb : p.Bounded X Y) : q.Bounded X Y :=
  (Steps.induction (I := fun r => SameFrame p r ∧ r.Bounded X Y) h ⟨.refl p, hb⟩ fun _ _ hs hi =>
    ⟨hi.1.trans hs.sameFrame, hs.bounded (hc.of_sameFrame hi.1) hi.2⟩).2

end Plan

end TripleChain
