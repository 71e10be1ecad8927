import TripleChain.Proofs.Assembly
import TripleChain.Proofs.GraphGrowth
import TripleChain.Proofs.Handlers
/-!
# Routes and matches

In a graph that has grown back from a goal the routes into a node are the matches from its antecedent to the
consequents of its producers, seen from there (`Graph.Backward.route_sound`, `Graph.Backward.exists_route`).
-/

namespace TripleChain

namespace Graph

variable {g : Graph} {rules : List Rule} {strategy : Strategy} {root : RuleId} {c d : NodeId} {n m : Node} {r : Route}

theorem mem_routes : r ∈ g.routes c n ↔ ∃ found m f, (r.producer, found) ∈ n.allProducers ∧
    g.node? r.producer = some m ∧ m.matchesTo? c = some f ∧ r.consequent = m.rule.consequent ∧ r.link ∈ f := by
  unfold routes routesFrom
  constructor
  · intro h
    obtain ⟨d, hd, h⟩ := List.mem_flatMap.1 h
    obtain ⟨⟨d, found⟩, he, rfl⟩ := List.mem_map.1 hd
    split at h
    · cases h
    · next m hm =>
      split at h
      · cases h
      · next f hf =>
        obtain ⟨link, hlink, rfl⟩ := List.mem_map.1 h
        exact ⟨found, m, f, he, hm, hf, rfl, hlink⟩
  · rintro ⟨found, m, f, he, hm, hf, hc, hlink⟩
    refine List.mem_flatMap.2 ⟨r.producer, List.mem_map.2 ⟨_, he, rfl⟩, ?_⟩
    rw [hm]
    dsimp only
    rw [hf]
    refine List.mem_map.2 ⟨r.link, hlink, ?_⟩
    rw [← hc]

/-- Every route is a match seen from the producer. -/
theorem Backward.route_sound (h : g.Backward rules strategy root) (hn : g.node? c = some n) (hr : r ∈ g.routes c n) :
    ∃ m, g.node? r.producer = some m ∧ r.consequent = m.rule.consequent ∧
      ∃ link ∈ findMatches n.rule.antecedent m.rule.consequent strategy, r.link = link.inverse := by
  obtain ⟨_, m, f, _, hm, hf, hc, hlink⟩ := mem_routes.1 hr
  obtain ⟨cyclic, hget⟩ := Node.matchesTo?_eq_some hf
  obtain ⟨n', hn', hfaith, _⟩ := h.consumer r.producer m cyclic c f hm hget
  rw [hn] at hn'
  cases hn'
  obtain ⟨link, hmem, heq⟩ := hfaith.sound r.link hlink
  exact ⟨m, hm, hc, link, hmem, heq.symm⟩

/-- Every match to a producer is a route. -/
theorem Backward.exists_route (h : g.Backward rules strategy root) (hn : g.node? c = some n) (hp : n.HasProducer d)
    (hm : g.node? d = some m) {link : Match} (hlink : link ∈ findMatches n.rule.antecedent m.rule.consequent strategy) :
    ∃ r ∈ g.routes c n, r.producer = d ∧ r.consequent = m.rule.consequent ∧ r.link.triples = link.inverse.triples := by
  obtain ⟨cyclic, found, hfound⟩ := hp
  obtain ⟨m', hm', _, back, hback⟩ := h.producer c n cyclic d found hn hfound
  rw [hm] at hm'
  cases hm'
  obtain ⟨f, hf⟩ := Node.exists_matchesTo? hback
  obtain ⟨cyclic', hget⟩ := Node.matchesTo?_eq_some hf
  obtain ⟨n', hn', hfaith, _⟩ := h.consumer d m cyclic' c f hm hget
  rw [hn] at hn'
  cases hn'
  obtain ⟨x, hx, heq⟩ := hfaith.complete link.inverse ⟨link, hlink, rfl⟩
  refine ⟨⟨d, m.rule.consequent, x⟩, ?_, rfl, rfl, heq⟩
  exact mem_routes.2 ⟨found, m, f, Node.mem_allProducers.2 ⟨cyclic, hfound⟩, hm, hf, rfl, hx⟩

end Graph

end TripleChain
