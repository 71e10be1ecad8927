import TripleChain.Proofs.NodeJoin
import TripleChain.Proofs.Universe
import Mathlib.Order.Bounds.Defs
/-!
# Demand asks for no more than it has to

Demand is carried on from node to node, each time with what the nodes are asked for at that moment, and over loops too.
The order makes no difference: what is asked for in the end is the least family of binding sets with which the start is
asked for the input and every producer is asked for whatever comes through the matches to it
(`Plan.demandsFor_isLeast`).

One request asks for what comes through the matches and nothing else (`Plan.exists_request_iff`). So settled demand
asks enough, because it is closed under requests, and no family that asks enough asks for less, because each request
stays inside of it.
-/

namespace TripleChain

namespace Plan

variable {s : RuleStore} {id : RuleId} {o : PlanOptions} {p₀ p : Plan} {c d : NodeId} {n : Node} {b' : Binding}
  {demand bindings : BindingSet} {D : NodeId → Set Binding}

/-! ## What comes through a match -/

/-- Asked for a binding, a node can ask a producer, over a loop or not, for what comes through the match. -/
def Carries (p : Plan) (c d : NodeId) (m : Match) (b : Binding) (x : SiteBinding) : Prop :=
  ∃ n found, p.graph.node? c = some n ∧ (d, found) ∈ n.allProducers ∧ m ∈ found ∧
    SiteBinding.carryThrough m (.ofBinding n.rule.antecedent b) = some x

/-- The family asks the start for the input, and every producer for what comes through a match from a consumer. Where
only the biggest matches count and a match has several pairs, it asks for the parts of that too. -/
structure AsksEnough (p : Plan) (input : BindingSet) (D : NodeId → Set Binding) : Prop where
  input : ∀ b ∈ input, b ∈ D start
  whole : ∀ c d m b x, p.Carries c d m b x → b ∈ D c → x.toBinding ∈ D d
  parts : p.options.strategy = .biggest → ∀ c d m b x, p.Carries c d m b x → 1 < m.size → b ∈ D c →
    ∀ ts : List Triple, (∀ t ∈ ts, t ∈ m.targets) → (x.restrict ts).toBinding ∈ D d

/-- Asked for the first binding, a node asks a producer for the second. -/
def Requests (p : Plan) (c d : NodeId) (b b' : Binding) : Prop :=
  ∃ m x, p.Carries c d m b x ∧ (b' = x.toBinding ∨ p.options.strategy = .biggest ∧ 1 < m.size ∧
    ∃ ts : List Triple, (∀ t ∈ ts, t ∈ m.targets) ∧ b' = (x.restrict ts).toBinding)

theorem asksEnough_iff : p.AsksEnough bindings D ↔
    (∀ b ∈ bindings, b ∈ D start) ∧ ∀ c d b b', p.Requests c d b b' → b ∈ D c → b' ∈ D d := by
  constructor
  · refine fun h => ⟨h.input, ?_⟩
    rintro c d b _ ⟨m, x, hx, rfl | ⟨hbiggest, hsize, ts, hts, rfl⟩⟩ hb
    · exact h.whole c d m b x hx hb
    · exact h.parts hbiggest c d m b x hx hsize hb ts hts
  · rintro ⟨hinput, hrequests⟩
    refine ⟨hinput, fun c d m b x hx => hrequests c d b _ ⟨m, x, hx, .inl rfl⟩, ?_⟩
    exact fun hbiggest c d m b x hx hsize hb ts hts =>
      hrequests c d b _ ⟨m, x, hx, .inr ⟨hbiggest, hsize, ts, hts, rfl⟩⟩ hb

/-- What a node asks a producer for comes from single bindings that it is asked for itself. -/
theorem exists_request_iff (hg : p.graph.Backward s.rules p.options.strategy id) (hn : p.graph.node? c = some n) :
    (∃ wanted, (d, wanted) ∈ p.graph.requests p.options.strategy n demand ∧ b' ∈ wanted) ↔
      ∃ b ∈ demand, p.Requests c d b b' := by
  constructor
  · rintro ⟨wanted, hrequest, hb'⟩
    obtain ⟨_, _, found, producer, hlinked, _, rfl⟩ := Graph.mem_requests.1 hrequest
    obtain ⟨m, hm, hthrough⟩ := mem_wantedThrough.1 hb'
    obtain ⟨z, hz, rfl⟩ := SiteBindingSet.mem_toBindings.1 hthrough
    obtain ⟨y, hy, x, hx, hcases⟩ := mem_wantedThroughMatch.1 hz
    obtain ⟨b, hb, rfl⟩ := SiteBindingSet.mem_ofBindings.1 hy
    refine ⟨b, hb, m, x, ⟨n, found, hn, hlinked, hm, hx⟩, ?_⟩
    rcases hcases with rfl | ⟨hbiggest, hsize, ts, hts, rfl⟩
    · exact .inl rfl
    · exact .inr ⟨hbiggest, hsize, ts, hts, rfl⟩
  · rintro ⟨b, hb, m, x, ⟨n', found, hn', hlinked, hm, hx⟩, hcases⟩
    obtain rfl : n = n' := Option.some.inj (hn.symm.trans hn')
    obtain ⟨loops, hget⟩ := Node.mem_allProducers.1 hlinked
    obtain ⟨producer, hproducer, hfaithful, _⟩ := hg.producer c n loops d found hn hget
    -- A match from the antecedent has something to start from.
    have hantecedent : n.rule.antecedent.isEmpty = false := (isEmpty_of_mem_findMatches (hfaithful.sound m hm)).1
    have hy : SiteBinding.ofBinding n.rule.antecedent b ∈
        (SiteBindingSet.ofBindings n.rule.antecedent demand).bindings :=
      SiteBindingSet.mem_ofBindings.2 ⟨b, hb, rfl⟩
    refine ⟨_,
      Graph.mem_requests.2 ⟨InsertionSet.isEmpty_eq_false hb, hantecedent, found, producer, hlinked, hproducer, rfl⟩,
      mem_wantedThrough.2 ⟨m, hm, SiteBindingSet.mem_toBindings.2 ?_⟩⟩
    rcases hcases with rfl | ⟨hbiggest, hsize, ts, hts, rfl⟩
    · exact ⟨x, mem_wantedThroughMatch.2 ⟨_, hy, x, hx, .inl rfl⟩, rfl⟩
    · exact ⟨x.restrict ts, mem_wantedThroughMatch.2 ⟨_, hy, x, hx, .inr ⟨hbiggest, hsize, ts, hts, rfl⟩⟩, rfl⟩

/-! ## Settled demand -/

variable {rounds : Nat} {e : Demands}

/-- Demand that has settled asks enough, because it is closed. -/
theorem asksEnough_of_settled (hg : p.graph.Backward s.rules p.options.strategy id)
    (he : p.graph.settleDemand p.options.strategy rounds ((∅ : Demands).insert start bindings) = some e) :
    p.AsksEnough bindings fun x => {b | b ∈ e.of x} := by
  refine asksEnough_iff.2 ⟨fun b hb => Graph.settleDemand_grows he ?_, fun c d b b' hrequests hb => ?_⟩
  · rw [Demands.of_insert, if_pos rfl]
    exact hb
  · obtain ⟨n, hn⟩ : ∃ n, p.graph.node? c = some n := by
      obtain ⟨_, _, ⟨n, _, hn, _⟩, _⟩ := hrequests
      exact ⟨n, hn⟩
    obtain ⟨wanted, hrequest, hwanted⟩ := (exists_request_iff hg hn).2 ⟨b, hb, hrequests⟩
    exact Graph.settleDemand_closed he c n hn _ hrequest b' hwanted

/-- Whatever asks enough asks for all that demand settles on, because no request leads out of it. -/
theorem AsksEnough.settled_subset (hD : p.AsksEnough bindings D) (hg : p.graph.Backward s.rules p.options.strategy id)
    (he : p.graph.settleDemand p.options.strategy rounds ((∅ : Demands).insert start bindings) = some e) :
    ∀ x, ∀ b ∈ e.of x, b ∈ D x := by
  obtain ⟨hinput, hrequests⟩ := asksEnough_iff.1 hD
  refine Graph.settleDemand_induction (I := fun e => ∀ x, ∀ b ∈ e.of x, b ∈ D x) he (fun x b hb => ?_) ?_
  · rw [Demands.of_insert] at hb
    split at hb
    · next hx => exact hx ▸ hinput b hb
    · exact absurd hb (InsertionSet.not_mem_emptyCollection b)
  · rintro e c n hinside hn ⟨d, wanted⟩ hrequest e₁ hinside₁ x b' hb'
    rw [Demands.of_add] at hb'
    split at hb'
    · next hx =>
      rcases InsertionSet.mem_union.1 hb' with hb' | hb'
      · exact hx ▸ hinside₁ d b' hb'
      · obtain ⟨b, hb, hbb'⟩ := (exists_request_iff hg hn).1 ⟨wanted, hrequest, hb'⟩
        exact hx ▸ hrequests c d b b' hbb' (hinside c b hb)
    · exact hinside₁ x b' hb'

/-- In whatever state a plan for a goal is, demand settles with enough rounds, however many there are. What it settles
on is the least family that asks enough, and this is what the nodes are then asked for. -/
theorem demandsFor_isLeast (hbuild : Plan.build s id o = .ok p₀) (hback : p₀.isBackward = true) (h : Reached p₀ p)
    (bindings : BindingSet) : ∃ enough e, (∀ rounds, enough ≤ rounds → p.demandsFor rounds bindings = some e) ∧
      IsLeast {D | p.AsksEnough bindings D} (fun x => {b | b ∈ e.of x}) ∧
        ∀ x < p.size, ((p.withDemands e).progressOf x).demand = e.of x := by
  obtain ⟨hregular, hstart⟩ := build_regular hbuild
  obtain ⟨r, hr, hgoal, hoptions, _⟩ := build_eq_ok hbuild
  have hdescends := h.descends (build_orderly hbuild) hregular
  have hbackward : p.isBackward = true := hdescends.isBackward.trans hback
  have hg : p.graph.Backward s.rules p.options.strategy id := by
    rw [h.graph_options.1, h.graph_options.2, hoptions]
    exact (build_graph hbuild hr (hgoal.symm.trans hback)).1
  obtain ⟨V, T, hwithin, hinput⟩ := p.graph.exists_within bindings.toList
  have hsize : start < p.graph.size := by
    rw [hdescends.graph]
    exact hstart
  obtain ⟨enough, e, he, _⟩ := hwithin.exists_settleDemand p.options.strategy hsize hinput
  refine ⟨enough, e, fun rounds hrounds => ?_, ⟨asksEnough_of_settled hg he, fun D hD x b hb => ?_⟩, fun x hx => ?_⟩
  · rw [demandsFor_backward hbackward]
    exact Graph.settleDemand_mono he hrounds
  · exact AsksEnough.settled_subset hD hg he x b hb
  · rw [(p.withDemands_spec e).2, if_pos hx]

/-- Asked for the paths from one place, the rule that joins paths is asked for these, and over its loop for
all paths. -/
theorem paths_demandsFor_isLeast :
    let input : BindingSet := .singleton (.ofList [(⟨"u"⟩, .iri "a")])
    ∃ p enough e, Plan.build .paths 2 .standard = .ok p ∧
      (∀ rounds, enough ≤ rounds → p.demandsFor rounds input = some e) ∧
      IsLeast {D | p.AsksEnough input D} (fun x => {b | b ∈ e.of x}) ∧
        Binding.ofList [(⟨"x"⟩, .iri "a")] ∈ e.of 2 ∧ ∅ ∈ e.of 2 := by
  intro input
  obtain ⟨p, hp⟩ := exists_build .paths 2 .standard rfl rfl
  obtain ⟨r, hr, hback, _⟩ := build_eq_ok hp
  cases hr
  obtain ⟨enough, e, hsettles, hleast, _⟩ := demandsFor_isLeast hp hback .refl input
  have hasked : ((Plan.build .paths 2 .standard).toOption.any fun p => (p.demandsFor 20 input).any fun e =>
      (e.of 2).contains (.ofList [(⟨"x"⟩, .iri "a")]) && (e.of 2).contains ∅) = true := by decide +kernel
  obtain ⟨p', hp', hasked⟩ := (Option.any_eq_true _ _).1 hasked
  rw [hp] at hp'
  cases hp'
  obtain ⟨e', he', hmem⟩ := (Option.any_eq_true _ _).1 hasked
  rw [demandsFor_backward hback] at he'
  have hsame := hsettles _ (Nat.le_max_left enough 20)
  rw [demandsFor_backward hback, Graph.settleDemand_mono he' (Nat.le_max_right enough 20)] at hsame
  cases hsame
  rw [Bool.and_eq_true, InsertionSet.contains_iff, InsertionSet.contains_iff] at hmem
  exact ⟨p, enough, e, hp, hsettles, hleast, hmem⟩

end Plan

end TripleChain
