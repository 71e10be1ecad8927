import TripleChain.Proofs.Answers
/-!
# Runs with full matches only

A full match brings in the whole antecedent in one piece, so that joining what several of them bring adds nothing.
What a node gives has therefore come from a row of a table along one line of full matches: that is `Carried`, and
`Brought` is what comes in at the end of such a line (`Plan.brought_of_mem_results`).

Every full match is also a biggest one (`exists_biggest_of_full`), so that a run with the biggest matches has the
same lines (`Plan.Ended.mem_outputs_of_carried`).
-/

namespace TripleChain

/-! ## Full matches are biggest -/

/-- All that is big after a search for full matches is big after any search. -/
theorem Found.biggest_of_full {ls : List (List Match)} {f f' : Found} {m : Match}
    (hf : ∀ m ∈ f'.biggest, m ∈ f.biggest) (hl : ∀ l ∈ ls, l ≠ [])
    (h : m ∈ (ls.foldl (Found.step true) f').biggest) : m ∈ (ls.foldl (Found.step false) f).biggest := by
  induction ls generalizing f f' with
  | nil => exact hf m h
  | cons l ls ih =>
    refine ih (fun a ha => ?_) (fun k hk => hl k (List.mem_cons_of_mem l hk)) h
    obtain ⟨b, hb, c, hc, hm⟩ := Found.step_full (hl l List.mem_cons_self) ha
    exact List.mem_append_right _ (Round.mem_toBiggest_addAll (.inr ⟨b, hf b hb, c, hc, hm⟩))

/-- A full match is one of the biggest. -/
theorem exists_biggest_of_full {p q : Pattern} {m : Match} (h : m ∈ findMatches p q .full) :
    ∃ n ∈ findMatches p q .biggest, n.triples = m.triples := by
  have hall : ∀ t ∈ p, candidates t q ≠ [] := fun t ht => candidates_ne_nil_of_full h ht
  cases hp : p.toList with
  | nil =>
    obtain rfl : p = ∅ := SortedSet.ext_toList hp
    exact absurd h (SortedSet.not_mem_emptyCollection m)
  | cons a ts =>
    have hts : ∀ l ∈ ts.map (candidates · q), l ≠ [] := fun l hl => by
      obtain ⟨t, ht, rfl⟩ := List.mem_map.1 hl
      exact hall t (by rw [SortedSet.mem_def, hp]; exact List.mem_cons_of_mem a ht)
    rw [findMatches_full_of_cons hp hall] at h
    have hbig : m ∈ (Found.search p.toList q).biggest := by
      rw [hp, Found.search, List.map_cons, List.foldl_cons, Found.step_first]
      exact Found.biggest_of_full (fun _ hm => hm) hts (SortedSet.mem_of_mem_ofList h)
    obtain ⟨n, hn, hc⟩ := SortedSet.exists_mem_ofList hbig
    exact ⟨n, (findMatches_biggest p q).symm ▸ hn, (Match.triples_eq hc).symm⟩

/-! ## Lines of full matches -/

/-- What a rule gives when a row of a table, or a fact, has come to it along full matches. -/
inductive Carried (rules : List Rule) : Rule → Binding → Prop
  | row {r : Rule} {tab : Table} {b : Binding} (mem : r ∈ rules) (holds : r.IsData tab) (hb : b ∈ tab.rows) :
      Carried rules r b
  | fact {r : Rule} (mem : r ∈ rules) (copies : r.IsCopy) (empty : r.antecedent.isEmpty = true) : Carried rules r ∅
  | copy {r source : Rule} {b : Binding} {m : Match} {x : SiteBinding} (mem : r ∈ rules) (copies : r.IsCopy)
      (given : Carried rules source b) (full : m ∈ findMatches r.antecedent source.consequent .full)
      (comes : SiteBinding.carryThrough m.inverse (.ofBinding source.consequent b) = some x) :
      Carried rules r (x.toBinding.restrict (Pattern.vars r.consequent))

/-- What comes to a pattern at the end of a line of full matches. -/
def Brought (rules : List Rule) (p : Pattern) (x : SiteBinding) : Prop :=
  ∃ source b m, Carried rules source b ∧ m ∈ findMatches p source.consequent .full ∧
    SiteBinding.carryThrough m.inverse (.ofBinding source.consequent b) = some x

/-- A copying rule without antecedent has nothing to copy. -/
theorem Rule.IsCopy.restrict_of_empty {r : Rule} (h : r.IsCopy) (he : r.antecedent.isEmpty = true) (b : Binding) :
    b.restrict (Pattern.vars r.consequent) = ∅ := by
  refine Binding.ext_get? fun v => ?_
  rw [Binding.get?_restrict, if_neg]
  · rfl
  · intro hv
    obtain ⟨a, ha, _⟩ := Pattern.mem_vars.1 (h.vars v hv)
    rw [SortedSet.isEmpty_iff.1 he] at ha
    exact SortedSet.not_mem_emptyCollection a ha

section Lines

variable {rules : List Rule} {r source : Rule} {p : Pattern} {b : Binding} {m : Match} {x y : SiteBinding}

theorem Carried.mem (h : Carried rules r b) : r ∈ rules ∧ r.isProactive = false := by
  cases h with
  | row mem holds => exact ⟨mem, holds.isProactive⟩
  | fact mem copies => exact ⟨mem, copies.isProactive⟩
  | copy mem copies => exact ⟨mem, copies.isProactive⟩

/-- Through a full match every triple of the pattern becomes what it faces. -/
theorem exists_facing_of_full (hm : m ∈ findMatches p source.consequent .full)
    (hb : ∀ u ∈ source.consequent, (u.instantiate b).IsGround)
    (hx : SiteBinding.carryThrough m.inverse (.ofBinding source.consequent b) = some x) {a : Triple} (ha : a ∈ p) :
    (∀ i v, a.term i = .var v → ∃ t, x.get? (a.site i) = some t) ∧
      ∃ u ∈ source.consequent, (a, u) ∈ m.triples.entries ∧ a.instantiate x.toBinding = u.instantiate b := by
  obtain ⟨u, hu⟩ := Match.mem_sources.1 (findMatches_full m hm a ha)
  have hentry := SortedMap.get?_eq_some_iff.1 hu
  obtain ⟨hbound, heq⟩ := SiteBinding.instance_of_carryThrough (findMatches_between m hm) hb hx
    (Match.mem_inverse (findMatches_oneToOne m hm) hentry)
  exact ⟨hbound, u, ((findMatches_between m hm).mem _ hentry).2.1, hentry, heq⟩

theorem Carried.isGround (h : Carried rules r b) : ∀ u ∈ r.consequent, (u.instantiate b).IsGround := by
  induction h with
  | row _ hd hb =>
    exact fun u hu => Triple.isGround_instantiate fun v hv => hd.ground _ hb v (Pattern.mem_vars.2 ⟨u, hu, hv⟩)
  | fact _ hc he =>
    refine fun u hu => Triple.isGround_instantiate fun v hv => ?_
    obtain ⟨a, ha, _⟩ := Pattern.mem_vars.1 (hc.vars v (Pattern.mem_vars.2 ⟨u, hu, hv⟩))
    rw [SortedSet.isEmpty_iff.1 he] at ha
    exact absurd ha (SortedSet.not_mem_emptyCollection a)
  | copy _ hc _ hm hx ih =>
    intro u hu
    rw [Triple.instantiate_restrict fun v hv => Pattern.mem_vars.2 ⟨u, hu, hv⟩]
    refine Triple.isGround_instantiate fun v hv => ?_
    obtain ⟨a, ha, hva⟩ := Pattern.mem_vars.1 (hc.vars v (Pattern.mem_vars.2 ⟨u, hu, hv⟩))
    obtain ⟨_, u', hu', _, heq⟩ := exists_facing_of_full hm ih hx ha
    exact Triple.get?_of_instantiate (heq ▸ ih u' hu') hva

/-- What a copying rule makes of what is brought to it has come along full matches too. -/
theorem Carried.of_yields {bs : BindingSet} {c : Binding} (hr : r ∈ rules) (hcopy : r.IsCopy)
    (hbs : ∀ b ∈ bs, r.antecedent.isEmpty = true ∨ ∃ x, Brought rules r.antecedent x ∧ x.toBinding = b)
    (hc : r.Yields bs c) : Carried rules r c := by
  have hacc : r.Accepts bs := fun b hb v hv => by
    obtain ⟨a, ha, hva⟩ := Pattern.mem_vars.1 hv
    obtain ⟨x, ⟨source, γ, m, hgiven, hm, hx⟩, rfl⟩ := (hbs b hb).resolve_left (by simp [SortedSet.isEmpty_eq_false ha])
    obtain ⟨_, u, hu, _, heq⟩ := exists_facing_of_full hm hgiven.isGround hx ha
    obtain ⟨t, ht, _⟩ := Triple.get?_of_instantiate (heq ▸ hgiven.isGround u hu) hva
    exact ⟨t, ht⟩
  obtain ⟨b, hb, rfl⟩ := (hcopy.yields_iff hacc).1 hc
  rcases hbs b hb with hempty | ⟨x, ⟨source, γ, m, hgiven, hm, hx⟩, rfl⟩
  · rw [hcopy.restrict_of_empty hempty]
    exact .fact hr hcopy hempty
  · exact .copy hr hcopy hgiven hm hx

/-- What is brought to a pattern binds the sites of the pattern that hold a variable and no others. -/
theorem Brought.binds_iff (h : Brought rules p x) (s : Site) :
    (∃ t, x.get? s = some t) ↔ s.triple ∈ p ∧ ∃ v, s.toVariable? = some v := by
  obtain ⟨source, b, m, hgiven, hm, hx⟩ := h
  constructor
  · rintro ⟨t, ht⟩
    obtain ⟨hc, hsites, _⟩ := SiteBinding.carryThrough_some hx
    obtain ⟨v, hv, _⟩ := hc.site s t ht
    obtain ⟨e, he, _, i, rfl, _⟩ := (hsites s t).1 ht
    exact ⟨((findMatches_between m hm).mem _ (Match.mem_of_mem_inverse he)).1, v, hv⟩
  · rintro ⟨ha, v, hv⟩
    exact (exists_facing_of_full hm hgiven.isGround hx ha).1 s.position v (Term.toVariable?_eq_some.1 hv)

theorem Brought.coherent (h : Brought rules p x) : x.Coherent := by
  obtain ⟨_, _, _, _, _, hx⟩ := h
  exact (SiteBinding.carryThrough_some hx).1

theorem Brought.covers (h : Brought rules p x) : x.covers (Pattern.variableSites p) = true := by
  refine SiteBinding.covers_iff.2 fun s hs => (h.binds_iff s).2 ?_
  obtain ⟨ha, hv⟩ := Pattern.mem_variableSites.1 hs
  obtain ⟨v, hv⟩ := Term.isVariable_iff.1 hv
  exact ⟨ha, v, Term.toVariable?_eq_some.2 hv⟩

/-- Joining adds nothing to what is brought to a pattern. -/
theorem Brought.merge (hx : Brought rules p x) (hy : Brought rules p y) (h : x.conflicts y = false) :
    x.merge y = x := by
  obtain ⟨f, hfx, hfy, _⟩ := SiteBinding.exists_under hx.coherent hy.coherent h
  refine (hfx.merge hfy).coherent.ext hx.coherent fun s => Option.ext fun t => ?_
  rw [hfx.get?_merge_iff hfy]
  constructor
  · rintro (ht | ht)
    · exact ht
    · -- The site is bound in the first too, and both give the term of its variable.
      obtain ⟨u, hu⟩ := (hx.binds_iff s).2 ((hy.binds_iff s).1 ⟨t, ht⟩)
      obtain ⟨v, hv, hft⟩ := hfy.fits ht
      obtain ⟨w, hw, hfu⟩ := hfx.fits hu
      rw [hv] at hw
      cases hw
      rw [hft] at hfu
      cases hfu
      exact hu
  · exact .inl

end Lines

namespace Plan

variable {p q : Plan} {rules : List Rule} {root : RuleId} {c d : NodeId} {n m : Node} {bindings : BindingSet}

/-! ## Runs with full matches -/

/-- What the nodes give when every match is full. The goal gives what is brought to it. -/
def Given (rules : List Rule) (g : Graph) : Outputs := fun id =>
  {b | ∀ n, g.node? id = some n → (id ≠ start → Carried rules n.rule b) ∧
    (id = start → ∃ x, Brought rules n.rule.antecedent x ∧ x.toBinding = b)}

/-- What the handlers are given when every match is full: what is brought to them, if they need anything. -/
def Taken (rules : List Rule) (g : Graph) : Outputs := fun id =>
  {b | ∀ n, g.node? id = some n → n.rule.antecedent.isEmpty = true ∨
    ∃ x, Brought rules n.rule.antecedent x ∧ x.toBinding = b}

/-- When what has been given has come along full matches, so does what goes into an antecedent. -/
theorem brought_of_mem_gathered (hg : p.graph.Backward rules .full root) (hchosen : p.options.strategy = .full)
    (hn : p.graph.node? c = some n) (hstart : ∀ m, p.graph.node? start = some m → m.rule.consequent.isEmpty = true)
    (ho : ∀ id, p.outputs id ⊆ Given rules p.graph id) : ∀ x ∈ p.gathered c n, Brought rules n.rule.antecedent x := by
  refine gathered_induction (fun r hr x hx => ?_) fun x y hx hy hc => ?_
  · obtain ⟨m, hm, hconsequent, link, hlink, hinverse⟩ := hg.route_sound hn hr
    obtain ⟨b, hb, y, hy, rfl | ⟨hbiggest, _⟩⟩ := hx
    · have hinner : r.producer ≠ start := fun hs => by
        have hmatched := (isEmpty_of_mem_findMatches hlink).2
        rw [hstart m (hs ▸ hm)] at hmatched
        cases hmatched
      rw [hinverse, hconsequent] at hy
      exact ⟨m.rule, b, link, (ho r.producer hb m hm).1 hinner, hlink, hy⟩
    · rw [hchosen] at hbiggest
      cases hbiggest
  · rw [hx.merge hy hc]
    exact hx

/-- Nothing leads out of what has come along full matches. -/
theorem Posed.confines_given {s : RuleStore} {g : Rule} (h : Posed s root .full bindings p) (hr : s.get root = .ok g)
    (hgoal : g.consequent.isEmpty = true) (hs : s.Declarative) :
    p.Confines (Given s.rules p.graph) (Taken s.rules p.graph) := by
  have hstart : ∀ m, p.graph.node? start = some m → m.rule.consequent.isEmpty = true := fun m hm => by
    rw [start_rule h.graph (get_eq_ok.1 hr) hm]
    exact hgoal
  have hinput {m : Plan} {id : NodeId} {n : Node} {b : Binding} (hf : SameFrame p m)
      (hout : ∀ x, m.outputs x ⊆ Given s.rules p.graph x) (hn : p.graph.node? id = some n) (hb : b ∈ m.nodeInput id n)
      (hne : n.rule.antecedent.isEmpty = false) : ∃ x, Brought s.rules n.rule.antecedent x ∧ x.toBinding = b := by
    have hg := h.graph
    rw [← hf.graph] at hg hn hout hstart
    obtain ⟨x, hx, _, rfl⟩ := exists_of_mem_nodeInput hne hb
    exact ⟨x, brought_of_mem_gathered hg (by rw [hf.options, h.chosen]) hn hstart hout x hx, rfl⟩
  refine ⟨fun m hf hout id n _ hn _ b hb x hx => ?_, fun _ m hf hout n hn _ b hb x hx => ?_, fun hpremise => ?_,
    fun id n bs c hid hn hbs _ hc x hx => ?_⟩
  · obtain rfl := Option.some.inj (hn.symm.trans hx)
    cases hne : n.rule.antecedent.isEmpty with
    | true => exact .inl rfl
    | false => exact .inr (hinput hf hout hn hb hne)
  · obtain rfl := Option.some.inj (hn.symm.trans hx)
    exact ⟨fun hid => absurd rfl hid, fun _ => hinput hf hout hn hb (Rule.antecedent_nonempty (hstart n hn))⟩
  · rw [h.isBackward] at hpremise
    cases hpremise
  · obtain rfl := Option.some.inj (hn.symm.trans hx)
    refine ⟨fun _ => ?_, fun hstart => absurd hstart hid⟩
    have hmem := List.mem_of_getElem? (h.graph.rule id n hn)
    rcases hs n.rule hmem with hpro | hcopy | ⟨t, hdata⟩
    · rw [(h.graph.kind id n hn).2.2 hid] at hpro
      cases hpro
    · exact Carried.of_yields hmem hcopy (fun b hb => hbs b hb n hn) hc
    · exact .row hmem hdata (hdata.yields_iff.1 hc).1

/-- What a goal is answered with has been brought to it along full matches. -/
theorem brought_of_mem_results {s : RuleStore} {id : RuleId} {g : Rule} {o : PlanOptions} {input answers : BindingSet}
    (hs : s.Declarative) (hfull : o.strategy = .full) (hg : s.get id = .ok g) (hgoal : g.consequent.isEmpty = true)
    (hp : build s id o = .ok p) (hq : Runs input p q) (hanswers : q.results = .ok answers) :
    ∀ b ∈ answers, ∃ x, Brought s.rules g.antecedent x ∧ x.toBinding = b := by
  intro b hb
  obtain ⟨m, _, hposed, hsteps, hquiet⟩ := hq.posed hp hg hgoal
  rw [hfull] at hposed
  have hbound := hposed.mem_bound hs.pointwise (hposed.confines_given hg hgoal hs) hsteps hquiet hanswers hb
  obtain ⟨n, hn, rfl⟩ := exists_start hposed.graph (get_eq_ok.1 hg)
  exact (hbound n hn).2 rfl

/-! ## Runs with the biggest matches -/

section Biggest

variable {source : Rule} {γ δ : Binding} {y : SiteBinding} {link : Match}

/-- What has been given along a line of full matches goes into the antecedent at the next match of the line, where it
is asked for. -/
theorem Ended.mem_nodeInput_of_given (h : Ended rules .biggest root bindings q) (hn : q.graph.node? c = some n)
    (hgiven : Carried rules source γ) (hlink : link ∈ findMatches n.rule.antecedent source.consequent .full)
    (hy : SiteBinding.carryThrough link.inverse (.ofBinding source.consequent γ) = some y)
    (hδ : δ ∈ (q.progressOf c).demand) (hext : y.toBinding.Extends δ)
    (houtput : ∀ d m, q.graph.node? d = some m → m.rule = source → d ≠ start → ∀ δ' ∈ (q.progressOf d).demand,
      γ.Extends δ' → γ ∈ q.outputs d) :
    n.hasGap = false ∧ y.toBinding ∈ q.nodeInput c n := by
  obtain ⟨hne, hsource⟩ := isEmpty_of_mem_findMatches hlink
  obtain ⟨big, hbig, hsame⟩ := exists_biggest_of_full hlink
  obtain ⟨d, m, found, x, hm, rfl, hprod, hmem, hx, hxl⟩ := h.exists_linked hn hgiven.mem.1 hgiven.mem.2 hbig
  have htriples : x.triples = link.triples := hxl.trans hsame
  have hfaces {e : Triple × Triple} (he : e ∈ x.triples.entries) : e.1 ∈ n.rule.antecedent ∧
      e.2 ∈ m.rule.consequent ∧ e.1.instantiate y.toBinding = e.2.instantiate γ := by
    rw [htriples] at he
    obtain ⟨ha, hu, _⟩ := (findMatches_between link hlink).mem e he
    exact ⟨ha, hu, (SiteBinding.instance_of_carryThrough (findMatches_between link hlink) hgiven.isGround hy
      (Match.mem_inverse (findMatches_oneToOne link hlink) he)).2⟩
  have hd : d ≠ start := fun hd => by
    rw [h.goal m (hd ▸ hm)] at hsource
    cases hsource
  obtain ⟨δ', hδ', hext', _⟩ := h.exists_asked hn hm hmem hx hne (fun e he =>
    ⟨(hfaces he).2.1, (hfaces he).2.2, hgiven.isGround e.2 (hfaces he).2.1⟩) hδ hext
  have hγ : γ ∈ q.outputs d := houtput d m hm rfl hd δ' hδ' hext'
  obtain ⟨route, hroute, hproducer, hconsequent, hroutelink⟩ := h.graph.exists_route hn hprod hm hbig
  have hgives : y ∈ route.gives q.options.strategy q.outputs := by
    refine ⟨γ, by rw [hproducer]; exact hγ, y, ?_, .inl rfl⟩
    rw [hconsequent, SiteBinding.carryThrough_congr (hroutelink.trans (Match.inverse_congr hsame))]
    exact hy
  have hbrought : Brought rules n.rule.antecedent y := ⟨m.rule, γ, link, hgiven, hlink, hy⟩
  refine ⟨Node.hasGap_eq_false.2 fun a ha => ⟨(d, found), hmem, x, hx, ?_⟩, ?_⟩
  · rw [Match.sources, htriples]
    exact findMatches_full link hlink a ha
  · exact (mem_nodeInput hne (SortedSet.isEmpty_iff.2 (h.graph.kind c n hn).2.1)).2
      ⟨⟨y, mem_gathered_of_gives hroute hgives, hbrought.covers, rfl⟩, .inr ⟨δ, hδ, hext.compatible⟩⟩

/-- What comes along full matches is given wherever it is asked for. -/
theorem Ended.mem_outputs_of_carried (h : Ended rules .biggest root bindings q) (hgiven : Carried rules source γ) :
    ∀ d m, q.graph.node? d = some m → m.rule = source → d ≠ start → ∀ δ ∈ (q.progressOf d).demand, γ.Extends δ →
      γ ∈ q.outputs d := by
  -- On the line of matches.
  induction hgiven with
  | @row r tab b _ hdata hb =>
    rintro d m hm rfl hd δ hδ hext
    have hgap : m.hasGap = false := Node.hasGap_eq_false.2 fun a ha => by
      rw [hdata.antecedent] at ha
      exact absurd ha (SortedSet.not_mem_emptyCollection a)
    refine h.final.answered d m hd hm hgap δ ?_ b
      (hdata.yields_iff.2 ⟨hb, .inr ⟨δ, InsertionSet.mem_singleton.2 rfl, hext.compatible⟩⟩)
    rw [nodeInput_of_empty (by rw [hdata.antecedent]; rfl)]
    exact hδ
  | fact _ hcopy hempty =>
    rintro d m hm rfl hd δ hδ hext
    have hgap : m.hasGap = false := Node.hasGap_eq_false.2 fun a ha => by
      rw [SortedSet.isEmpty_iff.1 hempty] at ha
      exact absurd ha (SortedSet.not_mem_emptyCollection a)
    have hgives := h.mem_outputs_of_input hm hd hcopy hgap (b := δ) (by rwa [nodeInput_of_empty hempty])
    rwa [hcopy.restrict_of_empty hempty] at hgives
  | @copy r source γ link y hr hcopy hcarried hlink hy ih =>
    rintro d m hm rfl hd δ hδ hext
    have hwhole : y.toBinding.Extends δ := fun v t hv => by
      have hrestricted := hext v t hv
      rw [Binding.get?_restrict] at hrestricted
      split at hrestricted
      · exact hrestricted
      · cases hrestricted
    obtain ⟨hgap, hinput⟩ := h.mem_nodeInput_of_given hm hcarried hlink hy hδ hwhole ih
    exact h.mem_outputs_of_input hm hd hcopy hgap hinput

/-- What is brought to a goal along full matches answers it. -/
theorem Ended.mem_outputs_of_brought (h : Ended rules .biggest root bindings q) (hn : q.graph.node? start = some n)
    (hy : Brought rules n.rule.antecedent y) (hδ : δ ∈ (q.progressOf start).demand) (hext : y.toBinding.Extends δ) :
    y.toBinding ∈ q.outputs start := by
  obtain ⟨source, γ, link, hgiven, hlink, hcomes⟩ := hy
  exact (h.final.goal n hn _).2
    (h.mem_nodeInput_of_given hn hgiven hlink hcomes hδ hext (h.mem_outputs_of_carried hgiven))

end Biggest

end Plan

end TripleChain
