import TripleChain.Proofs.NeighborSymmetry
import TripleChain.Proofs.Completeness
/-!
# What links record

A link records matches between the rules at its ends. They are found from the side of the consumer while a graph grows
back, and from the side of the producer while it grows on. Whatever is true of the matches from either side, and of two
such sets together, is true of all that links record (`Graph.records_lastsOn`).

With the strategy `all` the two sides find the same matches, so that in every plan a link records just what matching the
rules at its ends gives (`Plan.build_faced`).
-/

namespace TripleChain

namespace Graph

variable {R : Rule → Rule → MatchSet → Prop} {rules : List Rule} {g : Graph} {c d id : NodeId} {n m : Node}

/-- The nodes are of the given rules, and what a link records is in a relation to the rules of the consumer and the
producer. -/
structure Records (R : Rule → Rule → MatchSet → Prop) (rules : List Rule) (g : Graph) : Prop where
  rule : ∀ i n, g.node? i = some n → rules[n.ruleId]? = some n.rule
  found : ∀ c n loops d found, g.node? c = some n → (n.producerLinks loops).get? d = some found →
    ∃ m, g.node? d = some m ∧ R n.rule m.rule found

/-- More matches of the same kind may be recorded. -/
def Additive (R : Rule → Rule → MatchSet → Prop) : Prop :=
  ∀ a b old found, (old = ∅ ∨ R a b old) → R a b found → R a b (old.insertAll found.toList)

theorem Records.update {f : Node → Node} (h : g.Records R rules) (hf : ∀ n : Node, n.Alike (f n)) :
    (g.update id f).Records R rules := by
  refine ⟨fun i x hx => ?_, fun c x loops d found hx hget => ?_⟩
  · obtain ⟨y, hy, halike⟩ := exists_of_node?_update hf hx
    rw [halike.ruleId, halike.rule]
    exact h.rule i y hy
  · obtain ⟨y, hy, halike⟩ := exists_of_node?_update hf hx
    rw [halike.producerLinks] at hget
    obtain ⟨m, hm, hfound⟩ := h.found c y loops d found hy hget
    have hkept : ∃ m', (g.update id f).node? d = some m' ∧ m.Alike m' := exists_node?_update hf hm
    obtain ⟨m', hm', halike'⟩ := hkept
    refine ⟨m', hm', ?_⟩
    rw [halike.rule, halike'.rule]
    exact hfound

theorem Records.add {ruleId : RuleId} {r : Rule} {direction : Direction} (h : g.Records R rules)
    (hr : rules[ruleId]? = some r) : (g.add (.ofRule ruleId r direction)).Records R rules := by
  refine ⟨fun i x hx => ?_, fun c x loops d found hx hget => ?_⟩
  · rcases node?_add_cases hx with hx | ⟨_, rfl⟩
    · exact h.rule i x hx
    · exact hr
  · rcases node?_add_cases hx with hx | ⟨_, rfl⟩
    · obtain ⟨m, hm, hfound⟩ := h.found c x loops d found hx hget
      exact ⟨m, node?_add_of hm, hfound⟩
    · rw [(ofRule_links loops d).1] at hget
      cases hget

theorem Records.link {found : MatchSet} {cyclic : Bool} (hR : Additive R) (h : g.Records R rules)
    (hn : g.node? c = some n) (hm : g.node? d = some m) (hfound : R n.rule m.rule found) :
    (g.link d c found cyclic).Records R rules := by
  refine ⟨fun i x hx => ?_, fun i x loops j f hx hget => ?_⟩
  · obtain ⟨y, hy, rfl⟩ := exists_of_node?_link hx
    rw [Node.relink_ruleId, Node.relink_rule]
    exact h.rule i y hy
  · obtain ⟨y, hy, rfl⟩ := exists_of_node?_link hx
    rcases Node.producer_relink_cases hget with hget | ⟨rfl, _, rfl, rfl⟩
    · obtain ⟨m', hm', hold⟩ := h.found i y loops j f hy hget
      refine ⟨_, node?_link_of hm', ?_⟩
      rw [Node.relink_rule, Node.relink_rule]
      exact hold
    · obtain rfl : n = y := Option.some.inj (hn.symm.trans hy)
      refine ⟨_, node?_link_of hm, ?_⟩
      rw [Node.relink_rule, Node.relink_rule]
      refine hR _ _ _ _ ?_ hfound
      cases hget' : (n.producerLinks loops).get? d with
      | none => exact .inl rfl
      | some old =>
        obtain ⟨m', hm', hold⟩ := h.found c n loops d old hn hget'
        obtain rfl : m = m' := Option.some.inj (hm.symm.trans hm')
        exact .inr hold

theorem records_ofStart {root : RuleId} {r : Rule} {direction : Direction} (hr : rules[root]? = some r) :
    (ofStart root r direction).Records R rules := by
  refine ⟨rulesIn_ofStart (P := fun _ x r => rules[x]? = some r) direction hr, fun c n loops d found hn hget => ?_⟩
  obtain rfl : c = 0 := Nat.lt_one_iff.1 (lt_size hn)
  cases hn
  rw [(ofRule_links loops d).1] at hget
  cases hget

/-- What matching gives from either side is recorded, and nothing else. -/
theorem records_lastsOn (s : RuleStore) (strategy : Strategy) (hR : Additive R)
    (hback : ∀ a b, R a b (findMatches a.antecedent b.consequent strategy))
    (hon : ∀ a b, R a b (MatchSet.inverse (findMatches b.consequent a.antecedent strategy))) :
    LastsOn (s.near strategy) (Records R s.rules) where
  mark _ _ h := h.update Node.alike_expandedBackward
  markOn _ _ h := h.update Node.alike_expandedForward
  add _ _ p hp h := h.add (s.sound_near strategy .antecedent _ p hp).rule
  addOn _ _ p hp h := h.add (s.sound_near strategy .consequent _ p hp).rule
  link g c n d m p cyclic hn hm hp hid h := by
    obtain ⟨r, hr, hmem⟩ := RuleStore.mem_neighbors.1 hp
    obtain ⟨hrule, _, hfound, _⟩ := mem_neighborsAmong.1 hmem
    obtain rfl : r = n.rule := Option.some.inj (hr.symm.trans (h.rule c n hn))
    have hsame : p.rule = m.rule := Option.some.inj (hrule.symm.trans (hid ▸ h.rule d m hm))
    refine h.link hR hn hm ?_
    rw [hfound, hsame]
    exact hback _ _
  linkOn g c n d m p cyclic hn hm hp hid h := by
    obtain ⟨r, hr, hmem⟩ := RuleStore.mem_neighbors.1 hp
    obtain ⟨hrule, _, hfound, _⟩ := mem_neighborsAmong.1 hmem
    obtain rfl : r = m.rule := Option.some.inj (hr.symm.trans (h.rule d m hm))
    have hsame : p.rule = n.rule := Option.some.inj (hrule.symm.trans (hid ▸ h.rule c n hn))
    refine Records.update (h.link hR hn hm ?_) (Node.alike_addTrigger d)
    rw [hfound, hsame]
    exact hon _ _

/-! ## Links of all matches -/

/-- Every link records what matching the rules at its ends gives with the strategy `all`. -/
def Faced (rules : List Rule) (g : Graph) : Prop :=
  g.Records (fun a b found => Faithful (Facing .all a b) found) rules

theorem faced_lastsOn (s : RuleStore) : LastsOn (s.near .all) (Faced s.rules) := by
  refine records_lastsOn s .all (fun a b old found hold hfound => hfound.add fun x hx => ?_)
    (faithful_findMatches .all) fun a b => ?_
  · rcases hold with rfl | hold
    · exact absurd hx (SortedSet.not_mem_emptyCollection x)
    · exact hold.sound x hx
  · rw [inverse_findMatches]
    exact faithful_findMatches .all a b

/-- A single pair of triples that unify is a route on its own. -/
theorem Faced.exists_route {t u : Triple} {found : MatchSet} (h : g.Faced rules) (hg : g.Regular rules)
    (hn : g.node? c = some n) (hm : g.node? d = some m) (hlinked : (d, found) ∈ n.allProducers)
    (ht : t ∈ n.rule.antecedent) (hu : u ∈ m.rule.consequent) (hunify : (t.unify? u).isSome = true) :
    n.Covers t ∧ ∃ r ∈ g.routes c n, r.producer = d ∧ r.consequent = m.rule.consequent ∧
      r.link.triples.entries = [(u, t)] := by
  obtain ⟨link, hlink, hentries⟩ := findsPairs_all _ _ t ht u hu hunify
  have hrecorded : ∀ loops f, (n.producerLinks loops).get? d = some f → ∃ x ∈ f, x.triples = link.triples := by
    intro loops f hf
    obtain ⟨m', hm', hfaithful⟩ := h.found c n loops d f hn hf
    obtain rfl : m = m' := Option.some.inj (hm.symm.trans hm')
    exact hfaithful.complete link hlink
  obtain ⟨loops, hfound⟩ := Node.mem_allProducers.1 hlinked
  obtain ⟨x, hx, hxl⟩ := hrecorded loops found hfound
  have hback : (m.consumerLinks loops).get? c = some (MatchSet.inverse found) := by
    rw [hg.mirrored c n d m loops hn hm, hfound]
    rfl
  obtain ⟨f, hf⟩ := Node.exists_matchesTo? hback
  obtain ⟨loops', hget⟩ := Node.matchesTo?_eq_some hf
  rw [hg.mirrored c n d m loops' hn hm] at hget
  obtain ⟨found', hfound', rfl⟩ := Option.map_eq_some_iff.1 hget
  obtain ⟨y, hy, hyl⟩ := hrecorded loops' found' hfound'
  obtain ⟨z, hz, hzl⟩ := MatchSet.exists_mem_inverse hy
  refine ⟨⟨(d, found), hlinked, x, hx, Match.mem_sources.2 ⟨u, SortedMap.get?_eq_some_iff.2 ?_⟩⟩,
    ⟨d, m.rule.consequent, z⟩, mem_routes.2 ⟨found, m, _, hlinked, hm, hf, rfl, hz⟩, rfl, rfl, ?_⟩
  · rw [hxl, hentries]
    exact List.mem_singleton.2 rfl
  · rw [hzl, Match.inverse_congr hyl, Match.inverse_pair hentries]

/-- What comes along a route was found between the rules at its ends. -/
theorem Faced.route_sound {r : Route} (h : g.Faced rules) (hg : g.Regular rules) (hn : g.node? c = some n)
    (hr : r ∈ g.routes c n) : ∃ found m, (r.producer, found) ∈ n.allProducers ∧ g.node? r.producer = some m ∧
      r.consequent = m.rule.consequent ∧
      ∃ link ∈ findMatches n.rule.antecedent m.rule.consequent .all, r.link = link.inverse := by
  obtain ⟨found, m, f, hlinked, hm, hf, hc, hlink⟩ := mem_routes.1 hr
  obtain ⟨loops, hget⟩ := Node.matchesTo?_eq_some hf
  rw [hg.mirrored c n r.producer m loops hn hm] at hget
  obtain ⟨found', hfound', rfl⟩ := Option.map_eq_some_iff.1 hget
  obtain ⟨link, hmem, hinverse⟩ := MatchSet.mem_of_mem_inverse hlink
  obtain ⟨m', hm', hfaithful⟩ := h.found c n loops r.producer found' hn hfound'
  obtain rfl : m = m' := Option.some.inj (hm.symm.trans hm')
  exact ⟨found, m, hlinked, hm, hc, link, hfaithful.sound link hmem, hinverse.symm⟩

end Graph

/-- So it is in every plan with the strategy `all`. -/
theorem Plan.build_faced {s : RuleStore} {id : RuleId} {o : PlanOptions} {p : Plan} (h : Plan.build s id o = .ok p)
    (hall : o.strategy = .all) : p.graph.Faced s.rules := by
  obtain ⟨r, hr, _, _, _, _, _, _, hgraph⟩ := build_eq_ok h
  have hstart (direction : Direction) : (Graph.ofStart id r direction).Faced s.rules :=
    Graph.records_ofStart (get_eq_ok.1 hr)
  rw [hall] at hgraph
  rw [hgraph]
  split
  · exact ((Graph.faced_lastsOn s).toLastsBack.growBackward _ _ _ _ _ (hstart _)).1
  · exact ((Graph.faced_lastsOn s).growForward _ _ _ _ _ (hstart _)).1

end TripleChain
