import TripleChain.Proofs.BiggestMatches
import TripleChain.Proofs.Twins
/-!
# Links and gaps behind a goal

The graph behind a goal grows back from one node to the next, and passes over what it has been to. In the end each of
its nodes is linked to just the rules that the store gives as neighbours of its antecedent
(`Graph.Whole.exists_neighbor`, `Graph.Whole.exists_link`), each with the matches that the store gives.

A node has a gap when some triple of its antecedent is in no match with a producer. With the strategies `all` and
`biggest` every triple that unifies with one of a producer is in some match with it, so that a gap is a triple that
nothing in the store can give (`Plan.goal_links_and_gaps`).
-/

namespace TripleChain

/-- Unless only full matches are wanted, two triples that unify are lined up in some match. -/
theorem exists_match_of_pair {strategy : Strategy} {p q : Pattern} {t u : Triple} (hstrategy : strategy ≠ .full)
    (ht : t ∈ p) (hu : u ∈ q) (h : (t.unify? u).isSome = true) :
    ∃ m ∈ findMatches p q strategy, (t, u) ∈ m.triples.entries := by
  cases strategy with
  | all =>
    obtain ⟨m, hm, hentries⟩ := findsPairs_all p q t ht u hu h
    exact ⟨m, hm, hentries ▸ List.mem_singleton.2 rfl⟩
  | biggest => exact exists_biggest_of_pair ht hu h
  | full => exact absurd rfl hstrategy

/-- The matches that stand for what a search finds are what it finds. -/
theorem Faithful.eq_findMatches {strategy : Strategy} {consumer producer : Rule} {found : MatchSet}
    (h : Faithful (Facing strategy consumer producer) found) :
    found = findMatches consumer.antecedent producer.consequent strategy := by
  refine SortedSet.ext_mem fun m => ⟨h.sound m, fun hm => ?_⟩
  obtain ⟨x, hx, htriples⟩ := h.complete m hm
  have hsame : x = m := (findMatches_proper x (h.sound x hx)).ext (findMatches_proper m hm) htriples
  exact hsame ▸ hx

namespace Graph

variable {rules : List Rule} {strategy : Strategy} {root : RuleId} {g : Graph} {c d : NodeId} {n : Node}
  {found : MatchSet} {t : Triple}

/-- A link is one to a neighbour. -/
theorem Whole.exists_neighbor (h : g.Whole rules strategy root) (hn : g.node? c = some n)
    (hlinked : (d, found) ∈ n.allProducers) : ∃ m, g.node? d = some m ∧
      ⟨m.ruleId, m.rule, found⟩ ∈ neighborsAmong rules n.rule .antecedent strategy := by
  obtain ⟨loops, hget⟩ := Node.mem_allProducers.1 hlinked
  obtain ⟨m, hm, hfaithful, _⟩ := h.backward.producer c n loops d found hn hget
  obtain ⟨link, hlink⟩ := (h.hasProducer_iff hn hm).1 ⟨loops, found, hget⟩
  rw [hfaithful.eq_findMatches]
  exact ⟨m, hm, h.mem_neighborsAmong hm hlink⟩

/-- A neighbour has its link. -/
theorem Whole.exists_link {y : Neighbor} (h : g.Whole rules strategy root) (hn : g.node? c = some n)
    (hy : y ∈ neighborsAmong rules n.rule .antecedent strategy) :
    ∃ d m, (d, y.found) ∈ n.allProducers ∧ g.node? d = some m ∧ m.ruleId = y.id := by
  obtain ⟨hrule, _, hfound, _⟩ := TripleChain.mem_neighborsAmong.1 hy
  obtain ⟨d, m, hm, hid, loops, found, hget⟩ := h.linked c n hn y hy
  obtain ⟨m', hm', hfaithful, _⟩ := h.backward.producer c n loops d found hn hget
  obtain rfl : m = m' := Option.some.inj (hm.symm.trans hm')
  have hsame : m.rule = y.rule := Option.some.inj ((h.backward.rule d m hm).symm.trans (hid ▸ hrule))
  refine ⟨d, m, Node.mem_allProducers.2 ⟨loops, ?_⟩, hm, hid⟩
  rw [hget, hfaithful.eq_findMatches, hfound, hsame]
  rfl

/-- A triple is covered when it unifies with something that a rule of the store gives. -/
theorem Whole.covers_iff_unify (h : g.Whole rules strategy root) (hstrategy : strategy ≠ .full)
    (hn : g.node? c = some n) (ht : t ∈ n.rule.antecedent) :
    n.Covers t ↔ ∃ r ∈ rules, r.isProactive = false ∧ ∃ u ∈ r.consequent, (t.unify? u).isSome = true := by
  constructor
  · rw [h.covers_iff hn]
    rintro ⟨d, m, hm, link, hlink, hsource⟩
    obtain ⟨hrule, hproactive, _⟩ := TripleChain.mem_neighborsAmong.1 (h.mem_neighborsAmong hm hlink)
    obtain ⟨u, hu⟩ := Match.mem_sources.1 hsource
    obtain ⟨_, huc, hunify⟩ := (findMatches_between link hlink).mem (t, u) (SortedMap.get?_eq_some_iff.1 hu)
    exact ⟨m.rule, List.mem_of_getElem? hrule, hproactive, u, huc, hunify⟩
  · rintro ⟨r, hr, hproactive, u, hu, hunify⟩
    obtain ⟨x, hx⟩ := List.getElem?_of_mem hr
    obtain ⟨link, hlink, hpair⟩ := exists_match_of_pair hstrategy ht hu hunify
    have hneighbor : ⟨x, r, n.rule.facing r .antecedent strategy⟩ ∈ neighborsAmong rules n.rule .antecedent strategy :=
      TripleChain.mem_neighborsAmong.2 ⟨hx, hproactive, rfl, SortedSet.isEmpty_eq_false hlink⟩
    obtain ⟨d, _, hlinked, _⟩ := h.exists_link hn hneighbor
    exact ⟨_, hlinked, link, hlink, Match.mem_sources.2 ⟨u, SortedMap.get?_eq_some_iff.2 hpair⟩⟩

end Graph

namespace Plan

variable {s : RuleStore} {id : RuleId} {o : PlanOptions} {p : Plan} {i : NodeId} {n : Node}

/-- A plan that works back is one of a goal, with the whole graph behind it. -/
theorem build_backward_whole (hbuild : Plan.build s id o = .ok p) (hback : p.isBackward = true) :
    p.graph.Whole s.rules o.strategy id := by
  obtain ⟨r, hr, hgoal, _⟩ := build_eq_ok hbuild
  exact build_whole hbuild hr (hgoal.symm.trans hback)

/-- Every node behind a goal is linked to just the rules that the store gives as neighbours of its antecedent, and with
just the matches that it gives. The node has a gap exactly when some triple of its antecedent unifies with no triple
that a rule of the store gives, proactive rules apart. -/
theorem goal_links_and_gaps (hbuild : Plan.build s id o = .ok p) (hback : p.isBackward = true)
    (hstrategy : o.strategy ≠ .full) (hn : p.graph.node? i = some n) :
    (∃ l s', s.neighbors ⟨n.ruleId, .antecedent, o.strategy⟩ = .ok (l, s') ∧
      (∀ e ∈ n.allProducers, ∃ m, p.graph.node? e.1 = some m ∧ ∃ y ∈ l, y.id = m.ruleId ∧ y.found = e.2) ∧
        ∀ y ∈ l, ∃ d m, (d, y.found) ∈ n.allProducers ∧ p.graph.node? d = some m ∧ m.ruleId = y.id) ∧
      (n.hasGap = true ↔ ∃ t ∈ n.rule.antecedent, ∀ r ∈ s.rules, r.isProactive = false →
        ∀ u ∈ r.consequent, t.unify? u = none) := by
  have hgraph := build_backward_whole hbuild hback
  have hneighbors : s.neighbors ⟨n.ruleId, .antecedent, o.strategy⟩ =
      .ok (neighborsAmong s.rules n.rule .antecedent o.strategy, s.remember ⟨n.ruleId, .antecedent, o.strategy⟩) := by
    rw [RuleStore.neighbors, s.neighbors?_eq, neighborsIn?, hgraph.backward.rule i n hn]
    rfl
  refine ⟨⟨_, _, hneighbors, fun e he => ?_, fun y hy => ?_⟩, ?_⟩
  · obtain ⟨m, hm, hneighbor⟩ := hgraph.exists_neighbor hn he
    exact ⟨m, hm, _, hneighbor, rfl, rfl⟩
  · exact hgraph.exists_link hn hy
  · rw [← Bool.not_eq_false, Node.hasGap_eq_false]
    simp only [not_forall]
    constructor
    · rintro ⟨t, ht, hno⟩
      refine ⟨t, ht, fun r hr hproactive u hu => ?_⟩
      by_contra hunify
      exact hno ((hgraph.covers_iff_unify hstrategy hn ht).2
        ⟨r, hr, hproactive, u, hu, Option.isSome_iff_ne_none.2 hunify⟩)
    · rintro ⟨t, ht, hnone⟩
      refine ⟨t, ht, fun hcovered => ?_⟩
      obtain ⟨r, hr, hproactive, u, hu, hunify⟩ := (hgraph.covers_iff_unify hstrategy hn ht).1 hcovered
      rw [hnone r hr hproactive u hu] at hunify
      cases hunify

/-- A store that can join paths but knows nothing of owners, and is asked for paths with an owner. -/
def ownedPaths : RuleStore :=
  ⟨[.joinPaths, .asking (.ofList [.path (.var ⟨"u"⟩) (.var ⟨"v"⟩), ⟨.var ⟨"u"⟩, .iri "owner", .var ⟨"w"⟩⟩]) rfl], [],
    by simp⟩

/-- The goal has a gap, but not the rule behind it, which feeds itself. -/
theorem ownedPaths_gap : ∃ p n d m, Plan.build ownedPaths 1 .standard = .ok p ∧ p.graph.node? start = some n ∧
    n.hasGap = true ∧ p.graph.node? d = some m ∧ m.ruleId = 0 ∧ m.hasGap = false := by
  obtain ⟨p, hp⟩ := exists_build ownedPaths 1 .standard rfl rfl
  obtain ⟨r, hr, hback, _⟩ := build_eq_ok hp
  cases hr
  have hrules : ∀ i n, p.graph.node? i = some n → ownedPaths.rules[n.ruleId]? = some n.rule :=
    (build_backward_whole hp hback).backward.rule
  obtain ⟨n, hn, hid⟩ := (build_backward_whole hp hback).backward.root
  obtain ⟨⟨l, s', hl, _, hlinked⟩, hgap⟩ := goal_links_and_gaps hp hback (by decide) hn
  have hrule : n.rule = .asking _ rfl := Option.some.inj ((hrules start n hn).symm.trans (by rw [hid]; rfl))
  -- The one neighbour of the goal is the rule that joins paths.
  have hids : (ownedPaths.neighbors ⟨1, .antecedent, .biggest⟩).map (·.1.map (·.id)) = .ok [0] := by decide +kernel
  rw [hid] at hl
  rw [show ownedPaths.neighbors ⟨1, .antecedent, .biggest⟩ = .ok (l, s') from hl] at hids
  have hone : l.map (·.id) = [0] := Except.ok.inj hids
  obtain ⟨y, hy, hzero⟩ := List.mem_map.1 (hone ▸ List.mem_singleton.2 rfl : 0 ∈ l.map (·.id))
  obtain ⟨d, m, _, hm, hjoin⟩ := hlinked y hy
  obtain ⟨_, hjoingap⟩ := goal_links_and_gaps hp hback (by decide) hm
  have hjoinrule : m.rule = .joinPaths :=
    Option.some.inj ((hrules d m hm).symm.trans (by rw [hjoin, hzero]; rfl))
  refine ⟨p, n, d, m, hp, hn, hgap.2 ⟨⟨.var ⟨"u"⟩, .iri "owner", .var ⟨"w"⟩⟩, ?_, ?_⟩, hm, hjoin.trans hzero, ?_⟩
  · rw [hrule]
    decide
  · intro r hr hproactive u hu
    rcases List.mem_pair.1 hr with rfl | rfl
    · obtain rfl := SortedSet.mem_singleton.1 hu
      decide
    · cases hproactive
  · rw [← Bool.not_eq_true, hjoingap]
    rintro ⟨t, ht, hnone⟩
    have hunify : ∀ t ∈ Rule.joinPaths.antecedent.toList, t.unify? (.path (.var ⟨"x"⟩) (.var ⟨"z"⟩)) ≠ none := by decide
    rw [hjoinrule] at ht
    exact hunify t ht (hnone .joinPaths List.mem_cons_self rfl _ (SortedSet.mem_singleton.2 rfl))

end Plan

end TripleChain
