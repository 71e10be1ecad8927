import TripleChain.Proofs.Completeness
import TripleChain.Proofs.Termination
import Mathlib.Data.Set.Finite.Basic
/-!
# What answers are worth

An answer is put together from sites, and only sites that hold a variable are looked at. So a triple with
variables always follows from the rules as an answer makes it, but a ground triple next to others is never
compared with anything, unless every match has to cover the whole antecedent. `Pattern.Guarded` is the exact
condition under which answers can be trusted (`RuleStore.answersSoundly_iff_guarded`).

No run leads out of a set of triples that the rules sustain (`Plan.Laid.confines_warranted`); soundness is the case
of the triples that follow.
-/

open Std

namespace TripleChain

/-- A triple without variables has no other triple beside it. -/
def Pattern.GroundAlone (p : Pattern) : Prop := ∀ t ∈ p, t.hasVariables = false → ∀ u ∈ p, u = t

/-- Whatever makes the pattern an input has been compared with all its triples. -/
def Pattern.Guarded (p : Pattern) (strategy : Strategy) : Prop := strategy = .full ∨ p.GroundAlone

/-! ## Site bindings that are backed by a set of triples -/

namespace SiteBinding

variable {T : Triple → Prop} {strategy : Strategy} {p : Pattern} {x y : SiteBinding} {a : Triple}

/-- All variables of a triple are bound at its sites, and so bound it is in the set. -/
structure Shows (T : Triple → Prop) (x : SiteBinding) (a : Triple) : Prop where
  bound : ∀ i v, a.term i = .var v → ∃ t, x.get? (a.site i) = some t
  holds : T (a.instantiate x.toBinding)

/-- The triples with bound sites are shown, some triple is, and all are if every match covers all. -/
structure Backed (T : Triple → Prop) (strategy : Strategy) (p : Pattern) (x : SiteBinding) : Prop where
  coherent : x.Coherent
  touched : ∀ s t, x.get? s = some t → s.triple ∈ p ∧ x.Shows T s.triple
  anchored : ∃ a ∈ p, x.Shows T a
  full : strategy = .full → ∀ a ∈ p, x.Shows T a

theorem Coherent.valueOf?_site {i : Position} {v : Variable} {t : Term} (h : x.Coherent) (hv : a.term i = .var v)
    (ht : x.get? (a.site i) = some t) : x.valueOf? v = some t := by
  obtain ⟨w, hw, hval⟩ := h.site _ t ht
  rw [show (a.site i).toVariable? = some v from Term.toVariable?_eq_some.2 hv] at hw
  cases hw
  exact hval

/-- What is shown stays shown where more is bound. -/
theorem Shows.mono (h : x.Shows T a) (hx : x.Coherent) (hy : y.Coherent)
    (hxy : ∀ i t, x.get? (a.site i) = some t → y.get? (a.site i) = some t) : y.Shows T a := by
  refine ⟨fun i v hv => ?_, ?_⟩
  · obtain ⟨t, ht⟩ := h.bound i v hv
    exact ⟨t, hxy i t ht⟩
  · have heq : a.instantiate y.toBinding = a.instantiate x.toBinding := by
      refine Triple.instantiate_congr fun v hv => ?_
      obtain ⟨i, hi⟩ := Triple.mem_vars.1 hv
      obtain ⟨t, ht⟩ := h.bound i v hi
      rw [get?_toBinding, get?_toBinding, hx.valueOf?_site hi ht, hy.valueOf?_site hi (hxy i t ht)]
    rw [heq]
    exact h.holds

theorem Backed.merge (hx : x.Backed T strategy p) (hy : y.Backed T strategy p) (h : x.conflicts y = false) :
    (x.merge y).Backed T strategy p := by
  obtain ⟨f, hfx, hfy, _⟩ := exists_under hx.coherent hy.coherent h
  have hc := (hfx.merge hfy).coherent
  have hleft {a : Triple} (ha : x.Shows T a) : (x.merge y).Shows T a :=
    ha.mono hx.coherent hc fun _ _ ht => (hfx.get?_merge_iff hfy).2 (.inl ht)
  have hright {a : Triple} (ha : y.Shows T a) : (x.merge y).Shows T a :=
    ha.mono hy.coherent hc fun _ _ ht => (hfx.get?_merge_iff hfy).2 (.inr ht)
  refine ⟨hc, fun s t ht => ?_, ?_, fun hs a ha => hleft (hx.full hs a ha)⟩
  · rcases (hfx.get?_merge_iff hfy).1 ht with ht | ht
    · exact (hx.touched s t ht).imp_right hleft
    · exact (hy.touched s t ht).imp_right hright
  · obtain ⟨a, ha, hshown⟩ := hx.anchored
    exact ⟨a, ha, hleft hshown⟩

/-- A part of a backed binding is backed, where not every match has to cover all. -/
theorem Backed.restrict {ts : List Triple} (h : x.Backed T strategy p) (hs : strategy ≠ .full)
    (hne : (x.restrict ts).isEmpty = false) : (x.restrict ts).Backed T strategy p := by
  have hc : (x.restrict ts).Coherent := (Under.restrict h.coherent).coherent
  have htouched : ∀ s t, (x.restrict ts).get? s = some t → s.triple ∈ p ∧ (x.restrict ts).Shows T s.triple := by
    intro s t ht
    obtain ⟨ht, hmem⟩ := h.coherent.get?_restrict_iff.1 ht
    exact (h.touched s t ht).imp_right fun hshown =>
      hshown.mono h.coherent hc fun i t ht => h.coherent.get?_restrict_iff.2 ⟨ht, hmem⟩
  refine ⟨hc, htouched, ?_, fun hf => absurd hf hs⟩
  obtain ⟨s, t, ht⟩ := isEmpty_eq_false_iff.1 hne
  obtain ⟨hp, hshown⟩ := htouched s t ht
  exact ⟨s.triple, hp, hshown⟩

/-- A backed binding of all sites with variables binds the variables of the pattern and no others. -/
theorem Backed.binds (h : x.Backed T strategy p) (hcovers : x.covers p.variableSites = true) :
    x.toBinding.Over p.vars := by
  intro v
  rw [get?_toBinding]
  constructor
  · intro hv
    obtain ⟨t, ht⟩ := Option.isSome_iff_exists.1 hv
    obtain ⟨s, hs, hst⟩ := h.coherent.held v t ht
    exact Pattern.mem_vars.2 ⟨s.triple, (h.touched s t hst).1,
      Triple.mem_vars.2 ⟨s.position, Term.toVariable?_eq_some.1 hs⟩⟩
  · intro hv
    obtain ⟨t, ht⟩ := Plan.exists_valueOf? h.coherent hcovers hv
    exact Option.isSome_iff_exists.2 ⟨t, ht⟩

/-- A backed binding of all sites with variables makes enough of the pattern hold. -/
theorem Backed.enough (h : x.Backed T strategy p) (hcovers : x.covers p.variableSites = true) :
    p.Enough fun a => T (a.instantiate x.toBinding) := by
  refine ⟨fun a ha hv => ?_, ?_⟩
  · obtain ⟨_, hmem, hvar⟩ := List.any_eq_true.1 hv
    obtain ⟨i, rfl⟩ := Triple.mem_terms.1 hmem
    obtain ⟨t, ht⟩ := covers_iff.1 hcovers (a.site i) (Pattern.mem_variableSites.2 ⟨ha, hvar⟩)
    exact (h.touched _ t ht).2.holds
  · obtain ⟨a, ha, hshown⟩ := h.anchored
    exact .inr ⟨a, ha, hshown.holds⟩

end SiteBinding

/-! ## What comes along routes is backed -/

section Routes

variable {T : Triple → Prop} {strategy : Strategy} {p : Pattern} {O : Outputs} {x : SiteBinding}

/-- What comes through a match, turned around, makes each triple that the match lines up what it faces. -/
theorem SiteBinding.instance_of_carryThrough {q : Pattern} {m : Match} {b : Binding} {y : SiteBinding}
    (hm : m.Between p q)
    (hb : ∀ u ∈ q, (u.instantiate b).IsGround) (hy : carryThrough m.inverse (ofBinding q b) = some y)
    {e : Triple × Triple} (he : e ∈ m.inverse.triples.entries) :
    (∀ i v, e.2.term i = .var v → ∃ t, y.get? (e.2.site i) = some t) ∧
      e.2.instantiate y.toBinding = e.1.instantiate b := by
  obtain ⟨hc, hsites, hrespects⟩ := carryThrough_some hy
  obtain ⟨_, hu, hunify⟩ := hm.mem _ (Match.mem_of_mem_inverse he)
  have hunify : (e.1.unify? e.2).isSome = true := Triple.unify?_isSome_comm hunify
  have hsource (i : Position) : (ofBinding q b).termAt? (e.1.site i) = some ((e.1.instantiate b).term i) :=
    termAt?_ofBinding hu (hb e.1 hu) i
  have hbound {i : Position} {v : Variable} (hv : e.2.term i = .var v) :
      y.get? (e.2.site i) = some ((e.1.instantiate b).term i) := by
    have hvar : (e.2.site i).toVariable? = some v := Term.toVariable?_eq_some.2 hv
    exact (hsites _ _).2 ⟨e, he, hunify, i, rfl, by simp [hvar], hsource i⟩
  refine ⟨fun i v hv => ⟨_, hbound hv⟩, Triple.ext_term fun i => ?_⟩
  rw [Triple.term_instantiate]
  cases hn : (e.2.site i).toVariable? with
  | none =>
    have hg : (e.2.term i).isVariable = false := Term.toVariable?_eq_none.1 hn
    rw [Term.instantiate_of_ground _ hg]
    exact (hrespects e he hunify i hn _ (hsource i)).symm
  | some v =>
    have hv : e.2.term i = .var v := Term.toVariable?_eq_some.1 hn
    rw [hv, Term.instantiate_var (t := (e.1.instantiate b).term i)]
    rw [get?_toBinding, hc.valueOf?_site hv (hbound hv)]

/-- So it shows all triples that the match lines up. -/
theorem SiteBinding.shows_of_carryThrough {q : Pattern} {m : Match} {b : Binding} {y : SiteBinding} (hm : m.Between p q)
    (hT : ∀ t, T t → t.IsGround) (hb : ∀ u ∈ q, T (u.instantiate b))
    (hy : carryThrough m.inverse (ofBinding q b) = some y) : ∀ e ∈ m.inverse.triples.entries, y.Shows T e.2 := by
  intro e he
  obtain ⟨hbound, heq⟩ := instance_of_carryThrough hm (fun u hu => hT _ (hb u hu)) hy he
  refine ⟨hbound, ?_⟩
  rw [heq]
  exact hb e.1 (hm.mem _ (Match.mem_of_mem_inverse he)).2.1

/-- The match lines up triples of two patterns, each once, and all of the first if every match covers all. -/
structure Match.Covers (strategy : Strategy) (p q : Pattern) (m : Match) : Prop where
  between : m.Between p q
  oneToOne : m.OneToOne
  full : strategy = .full → ∀ a ∈ p, a ∈ m.sources

theorem covers_of_mem_findMatches {q : Pattern} {m : Match} (h : m ∈ findMatches p q strategy) :
    m.Covers strategy p q where
  between := findMatches_between m h
  oneToOne := findMatches_oneToOne m h
  full hfull := by
    subst hfull
    exact findMatches_full m h

/-- What a producer gives is backed when what it has given is in the set. -/
theorem Route.backed_of_gives {r : Route} {m : Match} (hm : m.Covers strategy p r.consequent)
    (hlink : r.link = m.inverse) (hT : ∀ t, T t → t.IsGround)
    (hO : ∀ b ∈ O r.producer, ∀ u ∈ r.consequent, T (u.instantiate b)) :
    ∀ x ∈ r.gives strategy O, x.Backed T strategy p := by
  rintro x ⟨b, hb, y, hy, hx⟩
  rw [hlink] at hy
  have hshows := SiteBinding.shows_of_carryThrough hm.between hT (hO b hb) hy
  obtain ⟨hc, hsites, _⟩ := SiteBinding.carryThrough_some hy
  have hbacked : y.Backed T strategy p := by
    refine ⟨hc, fun s t ht => ?_, ?_, fun hfull a ha => ?_⟩
    · obtain ⟨e, he, _, i, rfl, _⟩ := (hsites s t).1 ht
      exact ⟨(hm.between.mem _ (Match.mem_of_mem_inverse he)).1, hshows e he⟩
    · obtain ⟨e, he⟩ := List.exists_mem_of_ne_nil _ hm.between.nonempty
      exact ⟨e.1, (hm.between.mem e he).1, hshows _ (Match.mem_inverse hm.oneToOne he)⟩
    · obtain ⟨u, hu⟩ := Match.mem_sources.1 (hm.full hfull a ha)
      exact hshows _ (Match.mem_inverse hm.oneToOne (SortedMap.get?_eq_some_iff.1 hu))
  rcases hx with rfl | ⟨hbiggest, hpart⟩
  · exact hbacked
  · obtain ⟨ts, rfl⟩ := SiteBindingSet.exists_of_mem_parts hpart
    exact hbacked.restrict (by rw [hbiggest]; simp) (SiteBindingSet.isEmpty_of_mem_parts hpart)

end Routes

namespace Plan

variable {p q : Plan} {rules : List Rule} {strategy : Strategy} {root : RuleId} {c : NodeId} {n : Node}
  {T : Triple → Prop}

/-! ## Bounds on sound runs -/

/-- The bindings that make the consequent of a node hold. The goal gives what can go into its antecedent. -/
def Warranted (rules : List Rule) (strategy : Strategy) (T : Triple → Prop) (g : Graph) : Outputs := fun id =>
  {b | ∀ n, g.node? id = some n → (∀ u ∈ n.rule.consequent, T (u.instantiate b)) ∧
    (id = start → Admits rules strategy T n.rule.antecedent b)}

/-- The bindings that can go into the antecedent of a node. -/
def Admitted (rules : List Rule) (strategy : Strategy) (T : Triple → Prop) (g : Graph) : Outputs := fun id =>
  {b | ∀ n, g.node? id = some n → Admits rules strategy T n.rule.antecedent b}

/-- What comes into a node comes along a match with a producer, and where no triple of an antecedent is unmatched each
is one that some rule can give. -/
structure Sourced (rules : List Rule) (strategy : Strategy) (g : Graph) : Prop where
  route : ∀ c n, g.node? c = some n → ∀ r ∈ g.routes c n, ∃ m, g.node? r.producer = some m ∧
    r.consequent = m.rule.consequent ∧
      ∃ link : Match, link.Covers strategy n.rule.antecedent m.rule.consequent ∧ r.link = link.inverse
  covered : ∀ c n, g.node? c = some n → n.hasGap = false → ∀ a ∈ n.rule.antecedent, Coverable rules a

theorem sourced_of_backward {g : Graph} (hg : g.Backward rules strategy root)
    (hstart : ∀ m, g.node? start = some m → m.rule.consequent.isEmpty = true) : Sourced rules strategy g := by
  refine ⟨fun c n hn r hr => ?_, fun c n hn hgap a ha => ?_⟩
  · obtain ⟨m, hm, hconsequent, link, hlink, hinverse⟩ := hg.route_sound hn hr
    exact ⟨m, hm, hconsequent, link, covers_of_mem_findMatches hlink, hinverse⟩
  · obtain ⟨⟨d, found⟩, he, link, hlink, hal⟩ := Node.hasGap_eq_false.1 hgap a ha
    obtain ⟨loops, hfound⟩ := Node.mem_allProducers.1 he
    obtain ⟨m, hm, hfaith, _⟩ := hg.producer c n loops d found hn hfound
    obtain ⟨u, hu⟩ := Match.mem_sources.1 hal
    obtain ⟨_, hu, hunify⟩ :=
      (findMatches_between link (hfaith.sound link hlink)).mem _ (SortedMap.get?_eq_some_iff.1 hu)
    refine ⟨m.rule, List.mem_of_getElem? (hg.rule d m hm), (hg.kind d m hm).2.2 ?_, u, hu, hunify⟩
    rintro rfl
    rw [SortedSet.isEmpty_iff.1 (hstart m hm)] at hu
    exact absurd hu (SortedSet.not_mem_emptyCollection u)

/-- When all that has been given holds, enough holds of what goes into an antecedent. -/
theorem admits_of_mem_nodeInput (hg : Sourced rules p.options.strategy p.graph) (hn : p.graph.node? c = some n)
    (hgap : n.hasGap = false) (hT : ∀ t, T t → t.IsGround)
    (ho : ∀ id, p.outputs id ⊆ Warranted rules p.options.strategy T p.graph id) {b : Binding}
    (hb : b ∈ p.nodeInput c n) :
    Admits rules p.options.strategy T n.rule.antecedent b := by
  cases hne : n.rule.antecedent.isEmpty with
  | true => exact .of_isEmpty hne b
  | false =>
    obtain ⟨x, hx, hcovers, rfl⟩ := exists_of_mem_nodeInput hne hb
    -- What comes along one route is backed, and merging keeps it.
    have hbacked : ∀ x ∈ p.gathered c n, x.Backed T p.options.strategy n.rule.antecedent := by
      refine gathered_induction (fun r hr => ?_) fun _ _ hx hy hc => hx.merge hy hc
      obtain ⟨m, hm, hconsequent, link, hlink, hinverse⟩ := hg.route c n hn r hr
      rw [← hconsequent] at hlink
      refine Route.backed_of_gives hlink hinverse hT fun γ hγ u hu => ?_
      exact (ho r.producer hγ m hm).1 u (hconsequent ▸ hu)
    exact ⟨fun _ => (hbacked x hx).binds hcovers, hg.covered c n hn hgap, (hbacked x hx).enough hcovers,
      fun hf a ha => ((hbacked x hx).full hf a ha).holds⟩

/-- Rules do not lead out of a set that they sustain, whatever else they do. -/
theorem holds_of_yields {r : Rule} {bs : BindingSet} {c : Binding} (hr : r ∈ rules) (hkind : r.IsTransparent)
    (hT : Sustains rules strategy T) (hbs : ∀ b ∈ bs, Admits rules strategy T r.antecedent b) (hc : r.Yields bs c) :
    ∀ u ∈ r.consequent, T (u.instantiate c) := by
  intro u hu
  rcases hkind with hpro | hsink | hcopy | ⟨t, hdata⟩
  · exact absurd hc (Rule.not_yields_of_isProactive hpro)
  · exact absurd hc (Rule.not_yields_of_isSink hsink)
  · have hacc : r.Accepts bs := fun b hb v hv => by
      obtain ⟨a, ha, hva⟩ := Pattern.mem_vars.1 hv
      have hground := (hbs b hb).enough.isGround (b := b) (fun a _ hTa => hT.ground _ hTa) a ha
      obtain ⟨t, ht, _⟩ := Triple.get?_of_instantiate hground hva
      exact ⟨t, ht⟩
    obtain ⟨b, hb, rfl⟩ := (hcopy.yields_iff hacc).1 hc
    rw [Triple.instantiate_restrict fun v hv => Pattern.mem_vars.2 ⟨u, hu, hv⟩]
    exact hT.copy r hr hcopy b (hbs b hb) u hu
  · exact hT.row r hr t hdata c (hdata.yields_iff.1 hc).1 u hu

/-- A set that the rules sustain bounds every run that starts with what is in it. -/
theorem confines_warranted (hg : Sourced rules p.options.strategy p.graph)
    (hrules : ∀ id n, id ≠ start → p.graph.node? id = some n → n.rule ∈ rules ∧ n.rule.IsTransparent)
    (hT : Sustains rules p.options.strategy T)
    (hgoal : p.isBackward = true → ∀ n, p.graph.node? start = some n → n.rule.consequent.isEmpty = true)
    (hpremise : p.isBackward = false →
      ∀ b ∈ p.input.getD ∅, b ∈ Warranted rules p.options.strategy T p.graph start) :
    p.Confines (Warranted rules p.options.strategy T p.graph) (Admitted rules p.options.strategy T p.graph) := by
  have hinput {m : Plan} {id : NodeId} {n : Node} (hf : SameFrame p m)
      (hout : ∀ x, m.outputs x ⊆ Warranted rules p.options.strategy T p.graph x) (hn : p.graph.node? id = some n)
      (hgap : n.hasGap = false) : ∀ b ∈ m.nodeInput id n, Admits rules p.options.strategy T n.rule.antecedent b := by
    have hg := hg
    rw [← hf.graph] at hn hg hout
    rw [← hf.options] at hg hout ⊢
    exact fun b hb => admits_of_mem_nodeInput hg hn hgap hT.ground hout hb
  refine ⟨fun m hf hout id n hid hn hgap b hb x hx => ?_, fun hback m hf hout n hn hgap b hb x hx => ?_, hpremise,
    fun id n bs c hid hn hbs hall hc x hx => ?_⟩
  · obtain rfl := Option.some.inj (hn.symm.trans hx)
    exact hinput hf hout hn hgap b hb
  · obtain rfl := Option.some.inj (hn.symm.trans hx)
    refine ⟨fun u hu => ?_, fun _ => hinput hf hout hn hgap b hb⟩
    rw [SortedSet.isEmpty_iff.1 (hgoal hback n hn)] at hu
    exact absurd hu (SortedSet.not_mem_emptyCollection u)
  · obtain rfl : n = x := Option.some.inj (hn.symm.trans hx)
    obtain ⟨hmem, hkind⟩ := hrules id n hid hn
    exact ⟨holds_of_yields hmem hkind hT (fun b hb => hbs b hb n hn) hc, fun hstart => absurd hstart hid⟩

theorem Laid.confines_warranted {s : RuleStore} {g : Rule} (h : Laid s root strategy p) (hr : s.get root = .ok g)
    (hgoal : g.consequent.isEmpty = true) (hs : s.Declarative) (hT : Sustains s.rules strategy T) :
    p.Confines (Warranted s.rules strategy T p.graph) (Admitted s.rules strategy T p.graph) := by
  have hstart : ∀ m, p.graph.node? start = some m → m.rule.consequent.isEmpty = true := fun m hm => by
    rw [start_rule h.graph (get_eq_ok.1 hr) hm]
    exact hgoal
  have hchosen := h.chosen
  subst hchosen
  refine Plan.confines_warranted (sourced_of_backward h.graph hstart) (fun id n _ hn => ?_) hT (fun _ => hstart)
    fun hpremise => ?_
  · have hmem := List.mem_of_getElem? (h.graph.rule id n hn)
    exact ⟨hmem, (hs n.rule hmem).imp_right .inr⟩
  · rw [h.isBackward] at hpremise
    cases hpremise

/-- The progress of a plan holds, whatever the plan was asked: the accounts are kept, and what has been given seems to
follow from the rules. -/
structure Worthy (s : RuleStore) (strategy : Strategy) (p : Plan) : Prop where
  accounted : p.Accounted
  bounded : p.Bounded (Warranted s.rules strategy (Apparent s.rules) p.graph)
    (Admitted s.rules strategy (Apparent s.rules) p.graph)

theorem Untouched.worthy {s : RuleStore} (h : p.Untouched) : Worthy s strategy p := ⟨h.accounted, h.bounded⟩

theorem Worthy.steps {s : RuleStore} {g : Rule} (h : Worthy s strategy p) (hlaid : Laid s root strategy p)
    (hr : s.get root = .ok g) (hgoal : g.consequent.isEmpty = true) (hs : s.Declarative) (hsteps : Steps p q) :
    Worthy s strategy q := by
  refine ⟨hsteps.accounted h.accounted (hlaid.pointwise hs.pointwise), ?_⟩
  rw [hsteps.sameFrame.graph]
  exact hsteps.bounded (hlaid.confines_warranted hr hgoal hs (apparent_sustains s.rules strategy)) h.bounded

/-- Whatever set the rules sustain, of each answer to a goal it has enough of the goal. -/
theorem admits_of_mem_results {s : RuleStore} {id : RuleId} {g : Rule} {o : PlanOptions} {input answers : BindingSet}
    (hs : s.Declarative) (hT : Sustains s.rules o.strategy T) (hg : s.get id = .ok g)
    (hgoal : g.consequent.isEmpty = true)
    (hp : build s id o = .ok p) (hq : Runs input p q) (hanswers : q.results = .ok answers) :
    ∀ b ∈ answers, Admits s.rules o.strategy T g.antecedent b := by
  intro b hb
  obtain ⟨m, _, hposed, hsteps, hquiet⟩ := hq.posed hp hg hgoal
  have hbound := hposed.mem_bound hs.pointwise (hposed.confines_warranted hg hgoal hs hT) hsteps hquiet hanswers hb
  obtain ⟨n, hn, rfl⟩ := exists_start hposed.graph (get_eq_ok.1 hg)
  exact (hbound n hn).2 rfl

/-- A goal among rules that copy or hold data has a run to the end. -/
theorem exists_ended {s : RuleStore} {id : RuleId} {r : Rule} (hs : s.Declarative) (hr : s.get id = .ok r)
    (hgoal : r.consequent.isEmpty = true) (o : PlanOptions) :
    ∃ p q, build s id o = .ok p ∧ Runs ∅ p q ∧ Ended s.rules o.strategy id ∅ q := by
  obtain ⟨p, hp⟩ := exists_build s id o hr (by rw [hgoal, Bool.true_or])
  obtain ⟨enough, q, hrun⟩ := run_ends_known hs.plain hp (show p.checkInput (inputOf ∅) = .ok () from rfl)
  have hruns := runs_of_run (hrun enough (Nat.le_refl _))
  obtain ⟨m, _, hposed, hsteps, hquiet⟩ := hruns.posed hp hr hgoal
  exact ⟨p, q, hp, hruns, hposed.ended hr hgoal hs.pointwise hsteps hquiet⟩

end Plan

/-! ## Patterns that are guarded -/

/-- Of a guarded pattern enough is all. -/
theorem Admits.derivable {rules : List Rule} {strategy : Strategy} {p : Pattern} {b : Binding}
    (h : Admits rules strategy (Derivable rules) p b) (hp : p.Guarded strategy) :
    ∀ a ∈ p, Derivable rules (a.instantiate b) := by
  intro a ha
  rcases hp with hfull | halone
  · exact h.full hfull a ha
  · cases hv : a.hasVariables with
    | true => exact h.enough.vars a ha hv
    | false =>
      obtain ⟨a', ha', hd⟩ := h.enough.some.resolve_left (by simp [SortedSet.isEmpty_eq_false ha])
      rwa [← halone a ha hv a' ha']

/-- Rules with guarded antecedents do not lead out of what follows from them. -/
theorem derivable_sustains {rules : List Rule} {strategy : Strategy} (h : ∀ r ∈ rules, r.antecedent.Guarded strategy) :
    Sustains rules strategy (Derivable rules) where
  ground _ ht := ht.isGround
  copy r hr hc _ hb _ ht := .copy hr hc (hb.derivable (h r hr)) ht
  row _ hr _ hd _ hb _ ht := .row hr hd hb ht

/-- Every answer to a goal makes all triples of the goal follow from the rules. -/
def RuleStore.AnswersSoundly (s : RuleStore) (strategy : Strategy) : Prop :=
  ∀ (id : RuleId) (g : Rule) (o : PlanOptions) (input : BindingSet) (p q : Plan) (answers : BindingSet),
    s.get id = .ok g → g.consequent.isEmpty = true → o.strategy = strategy → Plan.build s id o = .ok p →
      Plan.Runs input p q → q.results = .ok answers →
        ∀ b ∈ answers, ∀ t ∈ g.antecedent, Derivable s.rules (t.instantiate b)

theorem RuleStore.answersSoundly_of_guarded {s : RuleStore} {strategy : Strategy} (hs : s.Declarative)
    (hguarded : ∀ r ∈ s.rules, r.antecedent.Guarded strategy) : s.AnswersSoundly strategy := by
  rintro id g o input p q answers hg hgoal rfl hp hq hanswers b hb
  refine (Plan.admits_of_mem_results hs (derivable_sustains hguarded) hg hgoal hp hq hanswers b hb).derivable ?_
  exact hguarded g (List.mem_of_getElem? (Plan.get_eq_ok.1 hg))

/-! ## Patterns that are not guarded -/

/-- A goal together with some triples. -/
def RuleStore.holding (p : Pattern) (h : p.isEmpty = false) (l : List Triple) : RuleStore :=
  ⟨[.asking p h, .holding l], [], by simp⟩

section Holding

variable {p : Pattern} {hne : p.isEmpty = false} {l : List Triple} {strategy : Strategy}

theorem RuleStore.holding_declarative (h : ∀ t ∈ l, t.IsGround) : (RuleStore.holding p hne l).Declarative := by
  intro r hr
  rcases List.mem_pair.1 hr with rfl | rfl
  · exact .inl rfl
  · exact .inr (.inr ⟨_, Rule.holding_isData h⟩)

/-- What follows from the rules is what is held. -/
theorem RuleStore.derivable_holding {t : Triple} (h : ∀ t ∈ l, t.IsGround) :
    Derivable (RuleStore.holding p hne l).rules t ↔ t ∈ l := by
  constructor
  · refine Derivable.least (S := (· ∈ l)) ⟨fun r hr hcopy => ?_, fun r hr tab hdata b hb u hu => ?_⟩
    · rcases List.mem_pair.1 hr with rfl | rfl
      · cases hcopy.role
      · cases hcopy.role
    · rcases List.mem_pair.1 hr with rfl | rfl
      · cases hdata.role
      · cases hdata.role
        obtain ⟨t, ht, rfl⟩ := List.mem_map.1 (InsertionSet.mem_ofList.1 hb)
        rw [SortedSet.mem_singleton.1 hu, t.instantiate_row]
        exact ht
  · exact Rule.derivable_of_holding (List.mem_pair.2 (.inr rfl)) h

/-- The goal has a run to the end. -/
theorem RuleStore.exists_ended (p : Pattern) (hne : p.isEmpty = false) (strategy : Strategy)
    (hl : ∀ t ∈ l, t.IsGround) :
    ∃ plan q answers, Plan.build (RuleStore.holding p hne l) 0 ⟨strategy, false, 0⟩ = .ok plan ∧
      Plan.Runs ∅ plan q ∧ q.results = .ok answers ∧ (∀ b, b ∈ answers ↔ b ∈ q.outputs Plan.start) ∧
        Plan.Ended (RuleStore.holding p hne l).rules strategy 0 ∅ q := by
  have hget : (RuleStore.holding p hne l).get 0 = .ok (.asking p hne) := rfl
  obtain ⟨plan, q, hplan, hruns, hended⟩ :=
    Plan.exists_ended (RuleStore.holding_declarative hl) hget rfl ⟨strategy, false, 0⟩
  obtain ⟨answers, hresults, hanswers⟩ := hended.results
  exact ⟨plan, q, answers, hplan, hruns, hresults, hanswers, hended⟩

theorem RuleStore.findsPairs_holding (hs : strategy ≠ .full) : ∀ r' ∈ (RuleStore.holding p hne l).rules,
    ∀ r ∈ (RuleStore.holding p hne l).rules, FindsPairs strategy r'.antecedent r.consequent := by
  intro r' _ r hr
  rcases List.mem_pair.1 hr with rfl | rfl
  · exact fun t _ u hu => absurd hu (SortedSet.not_mem_emptyCollection u)
  · cases strategy with
    | all => exact findsPairs_all _ _
    | biggest => exact findsPairs_singleton _ _
    | full => exact absurd rfl hs

end Holding

/-! ## A ground triple that is not compared with anything -/

/-- The binding that gives every one of some variables the same term. -/
def Binding.constant (vars : SortedSet Variable) (c : Term) : Binding := .ofList (vars.toList.map fun v => (v, c))

theorem Binding.get?_constant_cases (vars : SortedSet Variable) (c : Term) (v : Variable) :
    v ∈ vars ∧ (constant vars c).get? v = some c ∨ v ∉ vars ∧ (constant vars c).get? v = none := by
  rcases SortedMap.get?_insertAll (m := (∅ : SortedMap Variable Term)) (l := vars.toList.map fun v => (v, c))
    (g := fun _ => some c) (by simp) v with ⟨⟨e, he, rfl⟩, h⟩ | ⟨hno, h⟩
  · obtain ⟨w, hw, rfl⟩ := List.mem_map.1 he
    exact .inl ⟨hw, h⟩
  · exact .inr ⟨fun hv => hno (v, c) (List.mem_map.2 ⟨v, hv, rfl⟩) rfl, h⟩

theorem Binding.constant_over (vars : SortedSet Variable) (c : Term) : (constant vars c).Over vars := fun v => by
  rcases get?_constant_cases vars c v with ⟨hv, h⟩ | ⟨hv, h⟩ <;> simp [h, hv]

theorem Binding.get?_constant {vars : SortedSet Variable} {v : Variable} (hv : v ∈ vars) (c : Term) :
    (constant vars c).get? v = some c := ((get?_constant_cases vars c v).resolve_right fun h => h.1 hv).2

/-- One of infinitely many names. -/
def Term.numbered (n : Nat) : Term := .iri (String.ofList (List.replicate n 'x'))

theorem Term.numbered_injective : Function.Injective Term.numbered := fun n m h => by
  have hlength := congrArg (fun s : String => s.toList.length) (Term.iri.inj h)
  simpa using hlength

/-- A triple holds three terms only. -/
theorem Triple.exists_fresh (t : Triple) : ∃ c : Term, c.isVariable = false ∧ ∀ i, t.term i ≠ c := by
  have hinfinite := Set.infinite_range_of_injective Term.numbered_injective
  obtain ⟨_, ⟨n, rfl⟩, hn⟩ := hinfinite.exists_notMem_finset t.terms.toFinset
  exact ⟨.numbered n, rfl, fun i hi => hn (List.mem_toFinset.2 (Triple.mem_terms.2 ⟨i, hi⟩))⟩

/-- The other triples have instances that are not the triple. -/
theorem Pattern.exists_instances (p : Pattern) (t : Triple) :
    ∃ b : Binding, b.Over p.vars ∧ ∀ a ∈ p, (a.instantiate b).IsGround ∧ (a ≠ t → a.instantiate b ≠ t) := by
  obtain ⟨c, hc, hfresh⟩ := t.exists_fresh
  have hbound {a : Triple} (ha : a ∈ p) {v : Variable} (hv : v ∈ a.vars) :
      (Binding.constant p.vars c).get? v = some c :=
    Binding.get?_constant (mem_vars.2 ⟨a, ha, hv⟩) c
  refine ⟨.constant p.vars c, Binding.constant_over p.vars c, fun a ha =>
    ⟨Triple.isGround_instantiate fun v hv => ⟨c, hbound ha hv, hc⟩, fun hne heq => ?_⟩⟩
  cases hv : a.hasVariables with
  | false => exact hne ((Triple.instantiate_of_ground _ (Triple.isGround_iff.2 hv)).symm.trans heq)
  | true =>
    obtain ⟨_, hmem, hvar⟩ := List.any_eq_true.1 hv
    obtain ⟨i, rfl⟩ := Triple.mem_terms.1 hmem
    obtain ⟨v, hi⟩ := Term.isVariable_iff.1 hvar
    refine hfresh i ?_
    rw [← heq, Triple.term_instantiate, hi, Term.instantiate_var (hbound ha (Triple.mem_vars.2 ⟨i, hi⟩))]

/-- Whatever goal triples are held come in; each triple of the goal is covered, also those that are not held. -/
theorem Plan.Ended.mem_outputs_of_held {p : Pattern} {hne : p.isEmpty = false} {l : List Triple} {strategy : Strategy}
    {q : Plan} {t u : Triple} {b : Binding} (h : Plan.Ended (RuleStore.holding p hne l).rules strategy 0 ∅ q)
    (hs : strategy ≠ .full) (hground : t.hasVariables = false) (hu : u ∈ p) (hut : u ≠ t) (hover : b.Over p.vars)
    (hb : ∀ a ∈ p, (a.instantiate b).IsGround) (hlground : ∀ a ∈ l, a.IsGround)
    (hheld : ∀ a ∈ p, a ≠ t → a.instantiate b ∈ l) : b ∈ q.outputs Plan.start := by
  have hpairs : ∀ r' ∈ (RuleStore.holding p hne l).rules, ∀ r ∈ (RuleStore.holding p hne l).rules,
      FindsPairs strategy r'.antecedent r.consequent := RuleStore.findsPairs_holding hs
  obtain ⟨n, hn, hrule⟩ : ∃ n, q.graph.node? Plan.start = some n ∧ n.rule = .asking p hne :=
    Plan.exists_start h.graph rfl
  obtain rfl : n.rule.antecedent = p := by rw [hrule]; rfl
  obtain ⟨δ, hδ, hext⟩ := h.exists_demand hn hover (.inl rfl)
  have hcovers : ∀ a ∈ n.rule.antecedent, n.Covers a := fun a ha =>
    h.covers hn (hpairs _ (List.mem_of_getElem? (h.graph.rule Plan.start n hn))) ha <|
      .of_instance (b := b) (c := (a.instantiate b).row) (List.mem_pair.2 (.inr rfl)) rfl
        (SortedSet.mem_singleton.2 rfl) (Triple.instantiate_row _).symm
  refine h.mem_outputs (S := (· ≠ t)) hn hover hδ hext ⟨u, hu, hut⟩ (fun a _ hv hat => ?_) (fun a ha hat => ?_) hcovers
  · rw [hat, hground] at hv
    cases hv
  · exact h.supplied hpairs ((RuleStore.derivable_holding hlground).2 (hheld a ha hat)) hn ha rfl hδ hext

/-- What a binding makes of the triples of a pattern other than one. -/
def Pattern.instancesBut (p : Pattern) (t : Triple) (b : Binding) : List Triple :=
  (p.toList.filter (· ≠ t)).map (Triple.instantiate b)

theorem Pattern.mem_instancesBut {p : Pattern} {t a : Triple} {b : Binding} :
    a ∈ p.instancesBut t b ↔ ∃ x ∈ p, x ≠ t ∧ x.instantiate b = a := by
  simp only [instancesBut, List.mem_map, List.mem_filter, decide_eq_true_eq, and_assoc]
  rfl

/-- A goal with a ground triple next to others is answered although the ground triple does not follow. -/
theorem RuleStore.exists_answer_of_ground {p : Pattern} {t u : Triple} {strategy : Strategy} (hne : p.isEmpty = false)
    (hs : strategy ≠ .full) (ht : t ∈ p) (hground : t.hasVariables = false) (hu : u ∈ p) (hut : u ≠ t) :
    ∃ l : List Triple, (∀ a ∈ l, a.IsGround) ∧ ¬ (RuleStore.holding p hne l).AnswersSoundly strategy := by
  obtain ⟨b, hover, hb⟩ := p.exists_instances t
  -- Everything that the goal asks for is held, but not the ground triple.
  have hheld : ∀ a ∈ p.instancesBut t b, a.IsGround := fun a ha => by
    obtain ⟨x, hx, _, rfl⟩ := Pattern.mem_instancesBut.1 ha
    exact (hb x hx).1
  refine ⟨p.instancesBut t b, hheld, fun hsound => ?_⟩
  obtain ⟨plan, q, answers, hplan, hruns, hresults, hanswers, hended⟩ :=
    RuleStore.exists_ended p hne strategy hheld
  have hmem : b ∈ answers := (hanswers b).2 (hended.mem_outputs_of_held hs hground hu hut hover
    (fun a ha => (hb a ha).1) hheld fun a ha hat => Pattern.mem_instancesBut.2 ⟨a, ha, hat, rfl⟩)
  have hderivable := hsound 0 _ _ ∅ plan q answers rfl rfl rfl hplan hruns hresults b hmem t ht
  obtain ⟨x, hx, hxt, heq⟩ := Pattern.mem_instancesBut.1 ((RuleStore.derivable_holding hheld).1 hderivable)
  rw [Triple.instantiate_of_ground b (Triple.isGround_iff.2 hground)] at heq
  exact (hb x hx).2 hxt heq

/-- Answers can be trusted exactly where every antecedent is guarded: where every match covers all triples, or no
ground triple has others beside it. -/
theorem RuleStore.answersSoundly_iff_guarded (strategy : Strategy) (allowed : Pattern → Prop) :
    (∀ s : RuleStore, s.Declarative → (∀ r ∈ s.rules, r.antecedent.isEmpty = true ∨ allowed r.antecedent) →
      s.AnswersSoundly strategy) ↔ ∀ p, allowed p → p.Guarded strategy := by
  constructor
  · intro hsound p hp
    by_cases hs : strategy = .full
    · exact .inl hs
    · refine .inr fun t ht hground u hu => ?_
      by_contra hut
      have hne : p.isEmpty = false := SortedSet.isEmpty_eq_false ht
      obtain ⟨l, hl, hunsound⟩ := RuleStore.exists_answer_of_ground hne hs ht hground hu hut
      refine hunsound (hsound _ (RuleStore.holding_declarative hl) fun r hr => ?_)
      rcases List.mem_pair.1 hr with rfl | rfl
      · exact .inr hp
      · exact .inl rfl
  · intro hguarded s hs hallowed
    refine RuleStore.answersSoundly_of_guarded hs fun r hr => ?_
    rcases hallowed r hr with hempty | hr
    · refine .inr fun t ht => ?_
      rw [SortedSet.isEmpty_iff.1 hempty] at ht
      exact absurd ht (SortedSet.not_mem_emptyCollection t)
    · exact hguarded _ hr

/-- A goal of two triples, one of them ground, and a table with a row for the other only. -/
def RuleStore.stray : RuleStore :=
  .holding (.ofList [⟨.var ⟨"u"⟩, .iri "p", .var ⟨"v"⟩⟩, ⟨.iri "c", .iri "q", .iri "d"⟩]) rfl
    [⟨.iri "x", .iri "p", .iri "y"⟩]

/-- The goal is answered although its ground triple does not follow. -/
theorem RuleStore.stray_unsound : RuleStore.stray.Declarative ∧ ¬ RuleStore.stray.AnswersSoundly .biggest := by
  refine ⟨RuleStore.holding_declarative (by decide), fun hsound => ?_⟩
  obtain ⟨p, q, answers, hp, hq, hanswers, htest⟩ := Plan.exists_of_reaches .stray 0 .standard 50
    (fun answers => !answers.isEmpty) (by decide +kernel)
  obtain ⟨b, hb⟩ := InsertionSet.exists_mem (by simpa using htest)
  have h := hsound 0 _ .standard ∅ p q answers rfl rfl rfl hp hq hanswers b hb ⟨.iri "c", .iri "q", .iri "d"⟩
    (SortedSet.mem_ofList.2 (by simp))
  rw [Triple.instantiate_of_ground b (by decide)] at h
  exact absurd ((RuleStore.derivable_holding (by decide)).1 h) (by decide)

end TripleChain
