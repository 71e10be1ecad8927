import TripleChain.Proofs.Answers
import TripleChain.Proofs.Dispatch
import TripleChain.Proofs.ForwardReach
import TripleChain.Proofs.LinkRecords
import TripleChain.Proofs.Strategies
/-!
# What is published can be asked for

A premise is carried on from rule to rule, a goal is traced back from rule to rule, through graphs that have little in
common. Still both say the same about a rule that takes what it hears: whatever it is given while a premise is published
is an answer to its antecedent, asked of the same rules with the premise as data (`Session.mem_answers_of_received`).

The links of a premise line up triples of the rules at their ends (`Graph.Lined`), whichever end they were found from.
So what a handler is given seems to follow from the rules and the data (`Plan.admits_of_invoked`), and what seems to
follow is found.
-/

namespace TripleChain

namespace Graph

variable {rules : List Rule} {g : Graph}

/-! ## What links line up -/

/-- The nodes are of the given rules, and what feeds a node lines up triples of the rules at both ends. -/
structure Lined (rules : List Rule) (g : Graph) : Prop where
  rule : ∀ i n, g.node? i = some n → rules[n.ruleId]? = some n.rule
  between : ∀ c n loops d found, g.node? c = some n → (n.producerLinks loops).get? d = some found →
    ∃ m, g.node? d = some m ∧ ∀ link ∈ found, link.Between n.rule.antecedent m.rule.consequent

theorem lined_iff :
    g.Lined rules ↔ g.Records (fun a b found => ∀ link ∈ found, link.Between a.antecedent b.consequent) rules :=
  ⟨fun h => ⟨h.rule, h.between⟩, fun h => ⟨h.rule, h.found⟩⟩

/-- A neighbour on the side of the consequents was found from the other end. -/
theorem lined_lastsOn (s : RuleStore) (strategy : Strategy) : LastsOn (s.near strategy) (Lined s.rules) := by
  rw [show Lined s.rules = Records _ s.rules from funext fun g => propext lined_iff]
  refine records_lastsOn s strategy (fun a b old found hold hfound link hlink => ?_)
    (fun a b link hlink => findMatches_between link hlink) fun a b link hlink => ?_
  · rcases SortedSet.mem_of_mem_insertAll hlink with hlink | hlink
    · rcases hold with rfl | hold
      · exact absurd hlink (SortedSet.not_mem_emptyCollection link)
      · exact hold link hlink
    · exact hfound link hlink
  · obtain ⟨link', hlink', rfl⟩ := MatchSet.mem_of_mem_inverse hlink
    exact (findMatches_between link' hlink').inverse (findMatches_oneToOne link' hlink')

end Graph

namespace Plan

variable {s : RuleStore} {id : RuleId} {r t : Rule} {o : PlanOptions} {p q : Plan} {rules : List Rule}
  {bindings : BindingSet} {columns : List Variable}

/-! ## Plans of a premise -/

/-- The plan of a premise. -/
structure Carrying (s : RuleStore) (r : Rule) (strategy : Strategy) (p : Plan) : Prop where
  isPremise : p.isBackward = false
  chosen : p.options.strategy = strategy
  regular : p.graph.Regular s.rules
  lined : p.graph.Lined s.rules
  root : ∀ n, p.graph.node? start = some n → n.rule = r
  inner : ∀ i n, i ≠ start → p.graph.node? i = some n → n.rule ∈ s.rules ∧ n.rule.isProactive = false

theorem build_carrying (h : build s id o = .ok p) (hr : s.get id = .ok r) (hpremise : r.consequent.isEmpty = false) :
    Carrying s r o.strategy p := by
  obtain ⟨r', hr', hback, hopt, _, _, _, _, hgraph⟩ := build_eq_ok h
  rw [hr] at hr'
  cases hr'
  rw [hpremise, if_neg Bool.false_ne_true] at hgraph
  have hlined : (Graph.ofStart id r .forward).Lined s.rules :=
    Graph.lined_iff.2 (Graph.records_ofStart (get_eq_ok.1 hr))
  have hnear (side : Side) (x : RuleId) : ∀ y ∈ s.near o.strategy side x, ∀ i, i ≠ start →
      y.rule ∈ s.rules ∧ y.rule.isProactive = false := by
    intro y hy _ _
    obtain ⟨_, _, hy⟩ := RuleStore.mem_neighbors.1 hy
    obtain ⟨hrule, hpro, _⟩ := mem_neighborsAmong.1 hy
    exact ⟨List.mem_of_getElem? hrule, hpro⟩
  obtain ⟨hall, hext⟩ := (Graph.lined_lastsOn s o.strategy).growForward (s.size + 1) (s.size + 1) _ 0 [0] hlined
  obtain ⟨n₀, hn₀, hkept⟩ := hext 0 _ rfl
  refine ⟨hback.trans hpremise, by rw [hopt], (build_regular h).1, hgraph ▸ hall, fun n hn => ?_, fun i n hi hn => ?_⟩
  · rw [hgraph] at hn
    obtain rfl : n₀ = n := Option.some.inj (hn₀.symm.trans hn)
    exact hkept.rule
  · rw [hgraph] at hn
    exact ((Graph.rulesIn_lastsOn (P := fun i _ r => i ≠ start → r ∈ s.rules ∧ r.isProactive = false) hnear).growForward
      _ _ _ _ _ (Graph.rulesIn_ofStart _ fun h => absurd rfl h)).1 i n hn hi

/-- What is carried on from a premise is what the rules and the data can give. -/
theorem Carrying.sourced (h : Carrying s r .all p) (hrules : ∀ x ∈ s.rules, x.isProactive = false → x ∈ rules)
    (ht : t ∈ rules) (hpro : t.isProactive = false) (hsame : t.consequent = r.consequent) :
    Sourced rules .all p.graph := by
  refine ⟨fun c n hn route hroute => ?_, fun c n hn hgap a ha => ?_⟩
  · obtain ⟨_, m, f, _, hm, hf, hc, hlink⟩ := Graph.mem_routes.1 hroute
    obtain ⟨loops, hget⟩ := Node.matchesTo?_eq_some hf
    rw [h.regular.mirrored c n route.producer m loops hn hm] at hget
    obtain ⟨found, hfound, rfl⟩ := Option.map_eq_some_iff.1 hget
    obtain ⟨link, hmem, hinverse⟩ := MatchSet.mem_of_mem_inverse hlink
    obtain ⟨m', hm', hbetween⟩ := h.lined.between c n loops route.producer found hn hfound
    obtain rfl : m = m' := Option.some.inj (hm.symm.trans hm')
    have hproper := (h.regular.producer c n loops route.producer found hn hfound).1 link hmem
    exact ⟨m, hm, hc, link, ⟨hbetween link hmem, hproper.oneToOne, fun hfull => (nomatch hfull)⟩, hinverse.symm⟩
  · obtain ⟨⟨d, found⟩, he, link, hlink, hal⟩ := Node.hasGap_eq_false.1 hgap a ha
    obtain ⟨loops, hfound⟩ := Node.mem_allProducers.1 he
    obtain ⟨m, hm, hbetween⟩ := h.lined.between c n loops d found hn hfound
    obtain ⟨u, hu⟩ := Match.mem_sources.1 hal
    obtain ⟨_, hu, hunify⟩ := (hbetween link hlink).mem _ (SortedMap.get?_eq_some_iff.1 hu)
    by_cases hd : d = start
    · subst hd
      rw [h.root m hm, ← hsame] at hu
      exact ⟨t, ht, hpro, u, hu, hunify⟩
    · obtain ⟨hmem, hpro'⟩ := h.inner d m hd hm
      exact ⟨m.rule, hrules _ hmem hpro', hpro', u, hu, hunify⟩

/-- What seems to follow from the rules and the premise bounds whatever a premise is carried on to. -/
theorem confines_carried (hbuild : build s id o = .ok p) (hr : s.get id = .ok r)
    (hpremise : r.consequent.isEmpty = false) (hs : ∀ x ∈ s.rules, x.IsTransparent) (hall : o.strategy = .all)
    (hrules : ∀ x ∈ s.rules, x.isProactive = false → x ∈ rules) (ht : t ∈ rules) (hdata : t.IsData ⟨columns, bindings⟩)
    (hsame : t.consequent = r.consequent) (hsome : bindings.isEmpty = false) (d : Demands) :
    (p.withInputAs d bindings).Confines (Warranted rules .all (Apparent rules) p.graph)
      (Admitted rules .all (Apparent rules) p.graph) := by
  have hcarrying := build_carrying hbuild hr hpremise
  rw [hall] at hcarrying
  obtain ⟨⟨progress, heq⟩, _⟩ := p.withInputAs_spec d bindings
  have hgraph : (p.withInputAs d bindings).graph = p.graph := by rw [heq]
  have hoptions : (p.withInputAs d bindings).options.strategy = .all := by rw [heq, hcarrying.chosen]
  have hinput : (p.withInputAs d bindings).input.getD ∅ = bindings := by
    rw [show (p.withInputAs d bindings).input = some (inputOf bindings) by rw [heq], inputOf, if_neg (by simp [hsome])]
    rfl
  have hsourced : Sourced rules (p.withInputAs d bindings).options.strategy (p.withInputAs d bindings).graph := by
    rw [hoptions, hgraph]
    exact hcarrying.sourced hrules ht hdata.isProactive hsame
  rw [← hoptions, ← hgraph]
  refine Plan.confines_warranted hsourced (fun y m hy hm => ?_) (apparent_sustains rules _) (fun hgoal => ?_)
    fun _ b hb m hm => ?_
  · obtain ⟨hmem, hpro⟩ := hcarrying.inner y m hy (hgraph ▸ hm)
    exact ⟨hrules _ hmem hpro, hs _ hmem⟩
  · rw [show (p.withInputAs d bindings).isBackward = p.isBackward by rw [heq], hcarrying.isPremise] at hgoal
    cases hgoal
  -- The premise itself is what the data say.
  · rw [hinput] at hb
    rw [hcarrying.root m (hgraph ▸ hm)]
    refine ⟨fun u hu => .row ht hdata hb (hsame ▸ hu), fun _ => .of_isEmpty ?_ b⟩
    simpa [hpremise] using build_oneSided hbuild hr

/-- With each binding that a handler is given while a premise is carried on, enough of its antecedent seems to follow
from the rules and the premise. -/
theorem admits_of_invoked {n : Node} {x : NodeId} {i : Invocation} {b : Binding} (hbuild : build s id o = .ok p)
    (hr : s.get id = .ok r) (hpremise : r.consequent.isEmpty = false) (hs : ∀ x ∈ s.rules, x.IsTransparent)
    (hall : o.strategy = .all) (hrules : ∀ x ∈ s.rules, x.isProactive = false → x ∈ rules) (ht : t ∈ rules)
    (hdata : t.IsData ⟨columns, bindings⟩) (hsame : t.consequent = r.consequent) (hsome : bindings.isEmpty = false)
    (hq : Runs bindings p q) (hreached : Reached p q) (hi : i ∈ q.invoked) (hx : x ≠ start)
    (hn : q.graph.node? x = some n) (hid : n.ruleId = i.ruleId) (hb : b ∈ i.bindings) :
    Admits rules .all (Apparent rules) n.rule.antecedent b := by
  obtain ⟨_, d, _, _, hruns⟩ := hq.exists_demands (not_hasInput (build_new hbuild).2.2.2)
  obtain ⟨hsteps, _⟩ := hruns.steps (p.hasInput_withInputAs d bindings)
  have hconfines := confines_carried hbuild hr hpremise hs hall hrules ht hdata hsame hsome d
  have hbounded := hsteps.bounded hconfines (build_untouched hbuild).withInputAs.bounded
  have hdescends := hreached.descends (build_orderly hbuild) (build_regular hbuild).1
  have hhandled : b ∈ (q.progressOf x).handled := ((hdescends.orderly.docket x n hn).handled b).2
    ⟨i.bindings, List.mem_append_left _ (mem_made.2 ⟨i, hi, hid.symm, rfl⟩), hb⟩
  refine hbounded.handled x hx b hhandled n ?_
  rw [← hdescends.graph]
  exact hn

/-! ## Goals beside rules that only take -/

/-- Whatever solves a goal is answered after finitely many rounds, though there may be rules that only take. -/
theorem exists_answers_of_solution {g : Rule} {b : Binding} (hs : ∀ x ∈ s.rules, x.IsTransparent)
    (hg : s.get id = .ok g) (hgoal : g.consequent.isEmpty = true) (hall : o.strategy = .all) (hp : build s id o = .ok p)
    (hb : Solution s.rules g.antecedent ∅ b) :
    ∃ enough q answers, (∀ rounds, enough ≤ rounds → p.run rounds ∅ = .ok q) ∧
      q.results = .ok answers ∧ b ∈ answers := by
  have hcheck : p.checkInput (inputOf ∅) = .ok () := by
    refine ((build_laid hp hg hgoal).checkInput_eq_ok hg).2 fun i hi v hv => ?_
    rw [InsertionSet.mem_singleton.1 hi] at hv
    cases hv
  obtain ⟨enough, q, hq⟩ := run_ends_known (fun r hr => (hs r hr).isPlain) hp hcheck
  obtain ⟨m, _, hposed, hsteps, hquiet⟩ := (runs_of_run (hq enough (Nat.le_refl _))).posed hp hg hgoal
  rw [hall] at hposed
  have hpointwise := hposed.pointwise_of_gives fun r hr hpro hgives => (hs r hr).pointwise hpro hgives
  have hended := hposed.toAsked.ended hg hgoal hpointwise hposed.untouched.accounted hsteps hquiet
  obtain ⟨answers, hresults, hmem⟩ := hended.results
  exact ⟨enough, q, answers, hq, hresults,
    (hmem b).2 (hended.mem_outputs_of_solution hg (fun _ _ _ _ => findsPairs_all _ _) hb)⟩

end Plan

/-! ## Sessions -/

namespace Session

variable {s s' : Session} {premise : Pattern} {bindings : BindingSet}

/-- What a session with rules of these kinds is given besides is of these kinds too. -/
theorem isTransparent_add {r : Rule} (hs : ∀ x ∈ s.store.rules, x.IsTransparent) (hr : r.isProactive = true) :
    ∀ x ∈ (s.add r).store.rules, x.IsTransparent := by
  intro x hx
  rcases s.mem_rules_add.1 hx with hx | rfl
  · exact hs x hx
  · exact .inl hr

/-- A call that publishing makes of a sink was made with what seems to follow of its antecedent. -/
theorem admits_of_received {columns : List Variable} {t sink : Rule} {rules : List Rule} {rounds : Nat} {i : Invocation}
    {b : Binding} (hs : ∀ r ∈ s.store.rules, r.IsTransparent) (hall : s.settings.strategy = .all)
    (hsome : bindings.isEmpty = false) (hdata : t.IsData ⟨columns, bindings⟩) (hsame : t.consequent = premise)
    (ht : t ∈ rules) (hrules : ∀ x ∈ s.store.rules, x ∈ rules)
    (hi : i ∈ (s.publish rounds premise bindings).invoked) (hsink : s.store.rules[i.ruleId]? = some sink)
    (htakes : sink.isSink = true) (hb : b ∈ i.bindings) : Admits rules .all (Apparent rules) sink.antecedent b := by
  have hpremise : premise.isEmpty = false := hsame ▸ hdata.gives
  obtain ⟨p, hp, hpublish⟩ := s.exists_publish_eq hpremise
  rw [hpublish] at hi
  cases hrun : p.run rounds bindings with
  | error e =>
    rw [hrun] at hi
    cases hi
  | ok q =>
    rw [hrun] at hi
    have hreached : Plan.Reached p q := .run .refl hrun
    have hdescends := hreached.descends (Plan.build_orderly hp) (Plan.build_regular hp).1
    obtain ⟨x, n, hn, hid⟩ := hdescends.orderly.record i hi
    have hrule : n.rule = sink := by
      have hat := (Plan.build_regular hp).1.rule x n (hdescends.graph ▸ hn)
      rw [hid, rules_add, List.getElem?_append_left (List.getElem?_eq_some_iff.1 hsink).1, hsink] at hat
      exact (Option.some.inj hat).symm
    have hx : x ≠ Plan.start := by
      rintro rfl
      have hroot := (Plan.build_carrying hp (s.get_add _) hpremise).root n (hdescends.graph ▸ hn)
      rw [← hrule, hroot] at htakes
      cases htakes
    rw [← hrule]
    refine Plan.admits_of_invoked hp (s.get_add _) hpremise (isTransparent_add hs rfl) hall
      (fun y hy hpro => ?_) ht hdata
      hsame hsome (Plan.runs_of_run hrun) hreached hi hx hn hid hb
    rcases s.mem_rules_add.1 hy with hy | rfl
    · exact hrules y hy
    · cases hpro

/-- To publish bindings of a premise comes to an end, and each binding that a sink is given on the way is an answer to
its antecedent, asked of the same rules with the bindings as data on the premise. -/
theorem mem_answers_of_received {columns : List Variable} {t : Rule} (hs : ∀ r ∈ s.store.rules, r.IsTransparent)
    (hall : s.settings.strategy = .all) (hall' : s'.settings.strategy = .all) (hsome : bindings.isEmpty = false)
    (hdata : t.IsData ⟨columns, bindings⟩) (hpremise : t.consequent = premise)
    (hrules : s'.store.rules.Perm (t :: s.store.rules)) :
    (∃ enough, ∀ rounds, enough ≤ rounds →
      ∀ e, (s.publish rounds premise bindings).result = .error e → e ≠ .outOfRounds) ∧
    ∀ rounds, ∀ i ∈ (s.publish rounds premise bindings).invoked, ∀ sink, s.store.rules[i.ruleId]? = some sink →
      sink.isSink = true → ∀ b ∈ i.bindings, ∃ enough answers, b ∈ answers ∧
        ∀ rounds, enough ≤ rounds → (s'.query rounds sink.antecedent ∅).result = .ok answers := by
  constructor
  · obtain ⟨p, hp, hpublish⟩ := s.exists_publish_eq (hpremise ▸ hdata.gives)
    obtain ⟨enough, result, hresult, hrun⟩ :=
      Plan.run_ends (fun r hr => (isTransparent_add hs rfl r hr).isPlain) hp bindings
    refine ⟨enough, fun rounds hrounds e he hout => hresult ?_⟩
    rw [hpublish, hrun rounds hrounds] at he
    cases result with
    | error e' => exact congrArg _ ((Except.error.inj he).trans hout)
    | ok q => cases he
  · intro rounds i hi sink hsink htakes b hb
    have hmem (x : Rule) : x ∈ s'.store.rules ↔ x = t ∨ x ∈ s.store.rules := by rw [hrules.mem_iff, List.mem_cons]
    have hs' : ∀ r ∈ s'.store.rules, r.IsTransparent := fun r hr => ((hmem r).1 hr).elim
      (fun h => h ▸ .inr (.inr (.inr ⟨_, hdata⟩))) (hs r)
    have hgoal : sink.antecedent.isEmpty = false := by
      have hadmitted := sink.admitted
      unfold Rule.isSink at htakes
      split at htakes
      · next hrole =>
        rw [hrole] at hadmitted
        simp only [Role.admits, Bool.and_eq_true, Bool.not_eq_true'] at hadmitted
        exact hadmitted.1
      · cases htakes
    obtain ⟨p, hp, hquery⟩ := s'.exists_query_eq hgoal
    have hsub : ∀ x ∈ s'.store.rules, x ∈ (s'.add (.goal sink.antecedent hgoal)).store.rules :=
      fun x hx => s'.mem_rules_add.2 (.inl hx)
    have hadmits := admits_of_received hs hall hsome hdata hpremise (hsub t ((hmem t).2 (.inl rfl)))
      (fun x hx => hsub x ((hmem x).2 (.inr hx))) hi hsink htakes hb
    obtain ⟨enough, q, answers, hrun, hresults, hanswer⟩ := Plan.exists_answers_of_solution (isTransparent_add hs' rfl)
      (s'.get_add _) rfl hall' hp ⟨hadmits.binds hgoal, hadmits.covered, hadmits.enough, .inl rfl⟩
    refine ⟨enough, answers, hanswer, fun rounds hrounds => ?_⟩
    rw [hquery, hrun rounds hrounds]
    simp only [hresults]
    rfl

/-- A path is known, paths can be joined, and whoever listens hears of all paths. -/
def listening : Session :=
  ⟨⟨[.holding [.path (.iri "a") (.iri "b")], .joinPaths,
      .hearing (.singleton (.path (.var ⟨"u"⟩) (.var ⟨"v"⟩))) rfl], [],
    by simp⟩, { Settings.standard with strategy := .all }, .standard⟩

/-- A path goes on from the end of the known one. -/
def news : Rule :=
  .listing (.singleton (.path (.var ⟨"x"⟩) (.var ⟨"y"⟩))) rfl [.ofList [(⟨"x"⟩, .iri "b"), (⟨"y"⟩, .iri "c")]]

/-- What whoever listens is then given. -/
def heardPath : Binding := .ofList [(⟨"u"⟩, .iri "a"), (⟨"v"⟩, .iri "c")]

/-- Whoever listens to the news hears of the path that the two make together. It is answered too. -/
theorem listening_mem_answers : ∃ enough answers, .ofList [(⟨"u"⟩, .iri "a"), (⟨"v"⟩, .iri "c")] ∈ answers ∧
    ∀ rounds, enough ≤ rounds →
      ((listening.add news).query rounds (.singleton (.path (.var ⟨"u"⟩) (.var ⟨"v"⟩))) ∅).result = .ok answers := by
  have hs : ∀ r ∈ listening.store.rules, r.IsTransparent := by
    intro r hr
    simp only [listening, List.mem_cons, List.not_mem_nil, or_false] at hr
    rcases hr with rfl | rfl | rfl
    · exact .inr (.inr (.inr ⟨_, Rule.holding_isData (by decide)⟩))
    · exact .inr (.inr (.inl ⟨rfl, by decide⟩))
    · exact .inr (.inl rfl)
  have hrules : (listening.add news).store.rules.Perm (news :: listening.store.rules) := by
    rw [rules_add]
    exact List.perm_append_singleton _ _
  have hreceived : ((listening.publish 20 news.consequent (.ofList news.rows)).invoked.any fun i =>
      i.ruleId == 2 && i.bindings.contains heardPath) = true := by decide +kernel
  obtain ⟨i, hi, hboth⟩ := List.any_eq_true.1 hreceived
  rw [Bool.and_eq_true, beq_iff_eq] at hboth
  have hall : (listening.add news).settings.strategy = .all := rfl
  obtain ⟨_, hanswers⟩ := mem_answers_of_received hs rfl hall rfl (Rule.listing_isData (by decide)) rfl hrules
  exact hanswers 20 i hi _ (by rw [hboth.1]; rfl) rfl heardPath (InsertionSet.contains_iff.1 hboth.2)

end Session

end TripleChain
