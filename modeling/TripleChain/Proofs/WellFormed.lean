import TripleChain.Proofs.GraphOrder
import TripleChain.Proofs.Start
/-!
# Every plan is well formed

`Plan.WellFormed` is what running a plan relies on: each rule takes part once, data flow in no circle apart from loops,
both ends of a link agree on its matches, and the order visits producers first. `Plan.build_wellFormed` is that all
plans are like this, whichever way they have grown.
-/

namespace TripleChain

namespace Graph

variable {rules : List Rule} {g : Graph}

/-- Apart from loops, data never come back to where they were. -/
theorem Regular.acyclic (h : g.Regular rules) (i : NodeId) : ¬ Relation.TransGen g.Feeds i i := by
  obtain ⟨rank, hrank⟩ := h.rank
  intro hpath
  have hlt : rank i < rank i := Relation.TransGen.trans_induction_on (motive := fun {a b} _ => rank a < rank b) hpath
    (fun hf => hrank _ _ hf) fun _ _ => Nat.lt_trans
  exact Nat.lt_irrefl _ hlt

/-- No producer of a node is also one over a loop: a loop would lead back. -/
theorem Regular.apart {c d : NodeId} {n : Node} {found : MatchSet} (h : g.Regular rules) (hn : g.node? c = some n)
    (hget : n.producers.get? d = some found) : n.producerLoops.get? d = none := by
  refine Option.eq_none_iff_forall_ne_some.2 fun f hloop => ?_
  exact h.acyclic d (Relation.TransGen.head' ⟨n, hn, found, hget⟩ (h.loop c n d f hn hloop))

/-- What a consumer records is what the producer records, turned around. -/
theorem Regular.mirrored_back {c d : NodeId} {n m : Node} (h : g.Regular rules) (loops : Bool) (hn : g.node? c = some n)
    (hm : g.node? d = some m) :
    (n.producerLinks loops).get? d = ((m.consumerLinks loops).get? c).map MatchSet.inverse := by
  rw [h.mirrored c n d m loops hn hm]
  cases hget : (n.producerLinks loops).get? d with
  | none => rfl
  | some found => exact congrArg some (h.producer c n loops d found hn hget).1.inverse_inverse.symm

end Graph

namespace Plan

/-- A plan that can be run as plans are run. -/
structure WellFormed (p : Plan) : Prop where
  /-- Each rule is one node at most. -/
  once : ∀ i j n m, p.graph.node? i = some n → p.graph.node? j = some m → n.ruleId = m.ruleId → i = j
  /-- Links apart from loops close no cycle. -/
  acyclic : ∀ i, ¬ Relation.TransGen p.graph.Feeds i i
  /-- What a consumer records is recorded by the producer, turned around. -/
  atProducer : ∀ c n loops d found, p.graph.node? c = some n → (n.producerLinks loops).get? d = some found →
    ∃ m, p.graph.node? d = some m ∧ (m.consumerLinks loops).get? c = some (MatchSet.inverse found)
  /-- What a producer records is recorded by the consumer, turned around. -/
  atConsumer : ∀ d m loops c back, p.graph.node? d = some m → (m.consumerLinks loops).get? c = some back →
    ∃ n, p.graph.node? c = some n ∧ (n.producerLinks loops).get? d = some (MatchSet.inverse back)
  /-- A node feeds another one over a loop or apart from loops, not both. -/
  apart : ∀ c n d, p.graph.node? c = some n → n.producers.get? d = none ∨ n.producerLoops.get? d = none
  /-- A loop is where data already flow the other way. -/
  loop : ∀ c n d found, p.graph.node? c = some n → n.producerLoops.get? d = some found →
    Relation.ReflTransGen p.graph.Feeds c d
  order_perm : p.order.Perm p.nodeIds
  sorted : ∀ d c, p.graph.Feeds d c → p.order.idxOf d < p.order.idxOf c
  /-- All nodes are taken off the queue, so that none is left to be put at the end. -/
  queued : ∀ more, p.graph.orderFrom (p.size + more) p.graph.sources [] = p.order
  /-- A goal is visited last. -/
  last : p.isBackward = true → p.order.getLast? = some start

theorem wellFormed_of_regular {rules : List Rule} {p : Plan} (h : p.graph.Regular rules)
    (horder : p.order = p.graph.order) (hlast : p.isBackward = true → p.graph.order.getLast? = some start) :
    p.WellFormed where
  once := h.once
  acyclic := h.acyclic
  atProducer c n loops d found hn hget := by
    obtain ⟨m, hm⟩ := Graph.exists_node (h.producer c n loops d found hn hget).2
    exact ⟨m, hm, by rw [h.mirrored c n d m loops hn hm, hget]; rfl⟩
  atConsumer d m loops c back hm hget := by
    obtain ⟨n, hn⟩ := Graph.exists_node (h.consumer d m loops c back hm hget)
    exact ⟨n, hn, by rw [h.mirrored_back loops hn hm, hget]; rfl⟩
  apart c n d hn := by
    cases hget : n.producers.get? d with
    | none => exact .inl rfl
    | some found => exact .inr (h.apart hn hget)
  loop := h.loop
  order_perm := by
    rw [horder]
    exact h.order_perm
  sorted d c hf := by
    rw [horder]
    exact h.idxOf_lt hf
  queued more := by
    rw [horder]
    exact h.sorting_order.2 more
  last hb := by
    rw [horder]
    exact hlast hb

/-- Every start rule has a plan, and it is well formed. The depth to which its graph may grow is never used up: to any
greater depth the same graph would grow. -/
theorem build_wellFormed (s : RuleStore) (id : RuleId) (o : PlanOptions) (r : Rule) (hr : s.get id = .ok r)
    (hstart : (r.consequent.isEmpty || r.antecedent.isEmpty) = true) :
    ∃ p, build s id o = .ok p ∧ p.WellFormed ∧ ∀ more, p.graph =
      (if r.consequent.isEmpty then Graph.ofGoal else Graph.ofPremise)
        (s.near o.strategy) (s.size + 1 + more) id r := by
  obtain ⟨p, hp⟩ := exists_build s id o hr hstart
  obtain ⟨r', hr', hback, _, horder, _, _, _, hgraph⟩ := build_eq_ok hp
  rw [hr] at hr'
  cases hr'
  refine ⟨p, hp, ?_⟩
  by_cases hgoal : r.consequent.isEmpty = true
  · obtain ⟨hgrew, hreach, hmore⟩ := Graph.ofGoal_regular (s.sound_near o.strategy) (get_eq_ok.1 hr)
    rw [if_pos hgoal] at hgraph ⊢
    have hsame : p.graph = Graph.ofGoal (s.near o.strategy) (s.rules.length + 1) id r := hgraph
    rw [← hsame] at hgrew hreach hmore
    have hpos : start < p.graph.size := hgrew.kept.size_le
    refine ⟨wellFormed_of_regular hgrew.regular horder fun _ => ?_, fun more => (hmore more).symm⟩
    exact hgrew.regular.getLast?_order hreach hpos
  · obtain ⟨hgrew, hmore⟩ := Graph.ofPremise_regular (s.sound_near o.strategy) (get_eq_ok.1 hr)
    rw [if_neg hgoal] at hgraph ⊢
    have hsame : p.graph = Graph.ofPremise (s.near o.strategy) (s.rules.length + 1) id r := hgraph
    rw [← hsame] at hgrew hmore
    refine ⟨wellFormed_of_regular hgrew.regular horder fun hb => ?_, fun more => (hmore more).symm⟩
    exact absurd (hback ▸ hb) hgoal

/-- The plan to find all paths, where the rule that joins paths feeds itself. -/
theorem paths_wellFormed : ∃ p, build .paths 2 .standard = .ok p ∧ p.WellFormed ∧
    ∀ more, p.graph = Graph.ofGoal (RuleStore.near .paths .biggest) (4 + more) 2 .findPaths :=
  build_wellFormed .paths 2 .standard .findPaths rfl rfl

end Plan

end TripleChain
