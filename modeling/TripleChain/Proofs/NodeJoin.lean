import TripleChain.Proofs.Dispatch
import TripleChain.Proofs.LinkRecords
import TripleChain.Proofs.Soundness
/-!
# What goes into a node

With the strategy `all` the input of a node is a join. Where the producers bind all that they are to give to ground
terms, it is made of the bindings of the antecedent under which every triple with variables has been given by some
producer, and which fit what the node is asked for (`Plan.nodeInput_join`). Nothing there speaks of an order: producers
and matches may be taken in any.
-/

namespace TripleChain

namespace Plan

variable {s : RuleStore} {id : RuleId} {o : PlanOptions} {p₀ p : Plan} {c : NodeId} {n : Node} {b : Binding}
  {t : Triple}

/-- Some producer of the node has given the triple. -/
def GivenTo (p : Plan) (n : Node) (t : Triple) : Prop :=
  ∃ d found m, (d, found) ∈ n.allProducers ∧ p.graph.node? d = some m ∧
    ∃ γ ∈ (p.progressOf d).output, ∃ u ∈ m.rule.consequent, t = u.instantiate γ

/-- All that the producers of the node have given binds the variables of their consequents to ground terms. -/
def GivenGround (p : Plan) (n : Node) : Prop :=
  ∀ d found m, (d, found) ∈ n.allProducers → p.graph.node? d = some m → ∀ γ ∈ (p.progressOf d).output,
    ∀ v ∈ Pattern.vars m.rule.consequent, ∃ t, γ.get? v = some t ∧ t.isVariable = false

/-- The binding fits something that is asked for, or nothing is. -/
def Wanted (demand : BindingSet) (b : Binding) : Prop :=
  demand.isEmpty = true ∨ ∃ d ∈ demand, b.compatible d = true

theorem passes_iff {demand : BindingSet} : Passes demand b ↔ Wanted demand b := by
  unfold Passes Wanted
  rw [Bool.or_eq_true, InsertionSet.any_iff]
  constructor
  · rintro ((h | ⟨d, hd, hempty⟩) | h)
    · exact .inl h
    -- Who asks for anything at all takes everything.
    · refine .inr ⟨d, hd, Binding.compatible_iff.2 fun v t u _ hu => ?_⟩
      rw [Binding.get?, SortedMap.isEmpty_iff_get?.1 hempty] at hu
      cases hu
    · exact .inr h
  · rintro (h | h)
    · exact .inl (.inl h)
    · exact .inr h

instance (p : Plan) (n : Node) : Decidable (p.GivenGround n) :=
  decidable_of_iff (∀ e ∈ n.allProducers, ∀ m ∈ p.graph.node? e.1, ∀ γ ∈ (p.progressOf e.1).output.toList,
      ∀ v ∈ (Pattern.vars m.rule.consequent).toList, ∃ t ∈ γ.get? v, t.isVariable = false)
    ⟨fun h d found m hlinked hm γ hγ v hv => h (d, found) hlinked m hm γ hγ v hv,
      fun h e he m hm γ hγ v hv => h e.1 e.2 m he hm γ hγ v hv⟩

theorem GivenGround.isGround (h : p.GivenGround n) (ht : p.GivenTo n t) : t.IsGround := by
  obtain ⟨d, found, m, hlinked, hm, γ, hγ, u, hu, rfl⟩ := ht
  exact Triple.isGround_instantiate fun v hv => h d found m hlinked hm γ hγ v (Pattern.mem_vars.2 ⟨u, hu, hv⟩)

/-- What is gathered of a node is backed by what its producers have given. -/
theorem backed_of_gathered (hf : p.graph.Faced s.rules) (hg : p.graph.Regular s.rules) (hn : p.graph.node? c = some n)
    (hall : p.options.strategy = .all) (hground : p.GivenGround n) :
    ∀ x ∈ p.gathered c n, x.Backed (p.GivenTo n) .all n.rule.antecedent := by
  unfold gathered
  rw [hall]
  refine gathered_induction (fun r hr => ?_) fun _ _ hx hy hc => hx.merge hy hc
  obtain ⟨found, m, hlinked, hm, hc, link, hlink, hinverse⟩ := hf.route_sound hg hn hr
  rw [← hc] at hlink
  refine Route.backed_of_gives (covers_of_mem_findMatches hlink) hinverse (fun t => hground.isGround)
    fun γ hγ u hu => ?_
  exact ⟨r.producer, found, m, hlinked, hm, γ, hγ, u, hc ▸ hu, rfl⟩

/-- A triple of the antecedent that is given as the binding makes it comes in. -/
theorem supplied_of_given {a : Triple} (hf : p.graph.Faced s.rules) (hg : p.graph.Regular s.rules)
    (hn : p.graph.node? c = some n) (hground : p.GivenGround n) (ha : a ∈ n.rule.antecedent)
    (hgiven : p.GivenTo n (a.instantiate b)) : p.Supplied c n a b := by
  have hisGround := hground.isGround hgiven
  obtain ⟨d, found, m, hlinked, hm, γ, hγ, u, hu, heq⟩ := hgiven
  have hunify : (a.unify? u).isSome = true := Option.isSome_iff_exists.2 (Triple.unify?_isSome heq)
  obtain ⟨hcovers, r, hr, rfl, hc, hentries⟩ := hf.exists_route hg hn hm hlinked ha hu hunify
  exact ⟨hcovers, ⟨r, hr, u, hc ▸ hu, hentries, γ, hγ, heq.symm⟩, hisGround⟩

/-! ## Any order -/

/-- The bindings of an antecedent, put together along routes in the given order. -/
def assembledAlong (p : Plan) (n : Node) (routes : List Route) : Assembly :=
  routes.foldl (fun a r => a.joinThrough p.options.strategy
    (.ofBindings r.consequent (p.progressOf r.producer).output) (n.triggers.contains r.producer) r.link)
    (.empty n.rule.antecedent)

theorem assembledAlong_combined (p : Plan) (n : Node) (routes : List Route) :
    {x | x ∈ (p.assembledAlong n routes).combined.bindings} = Gathered p.options.strategy p.outputs routes ∧
      (p.assembledAlong n routes).combined.pattern = n.rule.antecedent := by
  induction routes using List.reverseRecOn with
  | nil => exact ⟨Set.ext fun x => iff_of_false SiteBindingSet.not_mem_empty (Set.notMem_empty x), rfl⟩
  | append_singleton l r ih =>
    obtain ⟨hset, hpattern⟩ := ih
    unfold assembledAlong at hset hpattern ⊢
    rw [List.foldl_append, List.foldl_cons, List.foldl_nil, gathered_concat, ← hset]
    exact ⟨Assembly.joinThrough_combined rfl, (SiteBindingSet.pattern_merge _ _).trans hpattern⟩

/-- Whatever the order of the routes, what binds the whole antecedent is the same. -/
theorem mem_full_assembledAlong {routes : List Route} (h : (p.graph.routes c n).Perm routes) :
    b ∈ (p.assembledAlong n routes).combined.full.toBindings ↔
      ∃ x ∈ p.gathered c n, x.covers (Pattern.variableSites n.rule.antecedent) = true ∧ x.toBinding = b := by
  obtain ⟨hset, hpattern⟩ := p.assembledAlong_combined n routes
  have hmem (x : SiteBinding) : x ∈ (p.assembledAlong n routes).combined.bindings ↔ x ∈ p.gathered c n := by
    rw [gathered, gathered_perm h, ← hset]
    rfl
  rw [SiteBindingSet.mem_toBindings]
  simp only [SiteBindingSet.mem_full, hmem, hpattern, and_assoc]

/-! ## The join -/

/-- In a plan with the strategy `all`, however far it has got, the input of a node that continues no other is the join
of what its producers have given, and the order of producers and matches makes no difference. -/
theorem nodeInput_join (hbuild : build s id o = .ok p₀) (hgraph : p.graph = p₀.graph)
    (hoptions : p.options = p₀.options)
    (hall : o.strategy = .all) (hn : p.graph.node? c = some n) (ht : n.triggers.isEmpty = true)
    (hvars : ∃ v, v ∈ Pattern.vars n.rule.antecedent) (hground : p.GivenGround n) :
    (∀ b, b ∈ p.nodeInput c n ↔ b.Over (Pattern.vars n.rule.antecedent) ∧
      (∀ a ∈ n.rule.antecedent, a.hasVariables = true → p.GivenTo n (a.instantiate b)) ∧
      Wanted (p.progressOf c).demand b) ∧
    ∀ routes, (p.graph.routes c n).Perm routes → ∀ b, b ∈ p.nodeInput c n ↔
      b ∈ BindingSet.keepCompatible (p.assembledAlong n routes).combined.full.toBindings (p.progressOf c).demand := by
  obtain ⟨v, hv⟩ := hvars
  obtain ⟨a₀, ha₀, hva₀⟩ := Pattern.mem_vars.1 hv
  have hne : n.rule.antecedent.isEmpty = false := SortedSet.isEmpty_eq_false ha₀
  have hchosen : p.options.strategy = .all := by
    obtain ⟨_, _, _, hopt, _⟩ := build_eq_ok hbuild
    rw [hoptions, hopt, hall]
  have hf : p.graph.Faced s.rules := hgraph ▸ build_faced hbuild hall
  have hg : p.graph.Regular s.rules := hgraph ▸ (build_regular hbuild).1
  refine ⟨fun b => ⟨fun hb => ?_, ?_⟩, fun routes hperm b => ?_⟩
  · obtain ⟨⟨x, hx, hcovers, rfl⟩, hpass⟩ := (mem_nodeInput hne ht).1 hb
    have hbacked := backed_of_gathered hf hg hn hchosen hground x hx
    exact ⟨hbacked.binds hcovers, (hbacked.enough hcovers).1, passes_iff.1 hpass⟩
  · rintro ⟨hover, hgiven, hwanted⟩
    have hhas : a₀.hasVariables = true := by
      obtain ⟨i, hi⟩ := Triple.mem_vars.1 hva₀
      exact List.any_eq_true.2 ⟨_, Triple.mem_terms.2 ⟨i, rfl⟩, Term.isVariable_iff.2 ⟨v, hi⟩⟩
    exact exists_input hne ht hover ⟨a₀, ha₀, hhas⟩ (fun _ _ h => h)
      (fun a ha h => supplied_of_given hf hg hn hground ha (hgiven a ha h)) (passes_iff.2 hwanted)
  · rw [mem_nodeInput hne ht, mem_keepCompatible, mem_full_assembledAlong hperm]

/-- Whatever is done with a plan, its graph and its options stay. -/
theorem Reached.graph_options (h : Reached p₀ p) : p.graph = p₀.graph ∧ p.options = p₀.options := by
  refine h.induction (I := fun q => q.graph = p₀.graph ∧ q.options = p₀.options) ⟨rfl, rfl⟩ (fun q d bindings hq => ?_)
    fun q r hm hq => ?_
  · obtain ⟨⟨progress, heq⟩, _⟩ := q.withInputAs_spec d bindings
    rw [heq]
    exact hq
  · have hframe := Moves.sameFrame (.single hm)
    exact ⟨hframe.graph.trans hq.1, hframe.options.trans hq.2⟩

/-- The rule that joins paths is given the two that are known, one for either half, though it is a producer of
its own. -/
theorem paths_joined : ∃ p₀ p n, build .paths 2 ⟨.all, true, 0⟩ = .ok p₀ ∧ Reached p₀ p ∧ p.graph.node? 2 = some n ∧
    n.rule.antecedent = Rule.joinPaths.antecedent ∧ p.GivenGround n ∧
    p.GivenTo n (.path (.iri "a") (.iri "b")) ∧ p.GivenTo n (.path (.iri "b") (.iri "c")) := by
  have hends : endsWith .paths 2 ⟨.all, true, 0⟩ 50 (fun q => (q.graph.node? 2).any fun n => n.triggers.isEmpty &&
      decide (n.rule.antecedent = Rule.joinPaths.antecedent) && decide (q.GivenGround n) &&
      (q.nodeInput 2 n).contains RuleStore.joinedPaths) = true := by decide +kernel
  obtain ⟨p₀, p, hbuild, hrun, htest⟩ := exists_of_endsWith hends
  obtain ⟨n, hn, htest⟩ := (Option.any_eq_true _ _).1 htest
  simp only [Bool.and_eq_true, decide_eq_true_eq, InsertionSet.contains_iff] at htest
  obtain ⟨⟨⟨ht, hantecedent⟩, hground⟩, hb⟩ := htest
  have hreached : Reached p₀ p := .run .refl hrun
  have hvars : ∃ v, v ∈ Pattern.vars n.rule.antecedent := ⟨⟨"x"⟩, by rw [hantecedent]; decide⟩
  obtain ⟨hjoin, _⟩ := nodeInput_join hbuild hreached.graph_options.1 hreached.graph_options.2 rfl hn ht hvars hground
  obtain ⟨_, hgiven, _⟩ := (hjoin _).1 hb
  rw [hantecedent] at hgiven
  exact ⟨p₀, p, n, hbuild, hreached, hn, hantecedent, hground,
    hgiven (.path (.var ⟨"x"⟩) (.var ⟨"y"⟩)) (by decide) (by decide),
    hgiven (.path (.var ⟨"y"⟩) (.var ⟨"z"⟩)) (by decide) (by decide)⟩

end Plan

end TripleChain
