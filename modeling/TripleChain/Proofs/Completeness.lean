import TripleChain.Proofs.Appearance
import TripleChain.Proofs.Routes
import TripleChain.Proofs.Start
/-!
# Nothing that follows is missed

Where every pair of triples that unify is a match on its own, whatever seems to follow from the rules comes in
wherever it is asked for (`Plan.Ended.supplied_of_apparent`, by induction on why it seems to follow): the demand of
the consumer is carried to the producer, so that the producer is asked for what it has. Together the triples of an
antecedent that come in make its input (`Plan.exists_input`).
-/

open Std

namespace TripleChain

/-! ## What a binding puts at the sites of a triple -/

theorem SiteBinding.termAt?_ofBinding {p : Pattern} {b : Binding} {u : Triple} (hu : u ∈ p)
    (hg : (u.instantiate b).IsGround) (i : Position) :
    (ofBinding p b).termAt? (u.site i) = some ((u.instantiate b).term i) := by
  rw [Triple.term_instantiate]
  cases hv : (u.site i).toVariable? with
  | none =>
    rw [termAt?_of_none hv]
    exact congrArg some (Term.instantiate_of_ground b (Term.toVariable?_eq_none.1 hv)).symm
  | some v =>
    have hvar : u.term i = .var v := Term.toVariable?_eq_some.1 hv
    have hgi := hg i
    rw [Triple.term_instantiate, hvar] at hgi
    rw [termAt?_of_var hv, hvar]
    exact get?_ofBinding_iff.2 ⟨hu, v, hv, Term.get?_of_instantiate hgi⟩

theorem SiteBinding.Under.mono {f g : Variable → Option Term} {x : SiteBinding} (h : x.Under f)
    (hfg : ∀ v t, f v = some t → g v = some t) : x.Under g :=
  ⟨h.site, h.held, fun v t hv => hfg v t (h.var v t hv)⟩

/-- What lies below a binding of the variables of a pattern and binds the whole pattern collapses to the binding. -/
theorem SiteBinding.Under.toBinding_eq {x : SiteBinding} {p : Pattern} {b : Binding} (h : x.Under b.get?)
    (hcovers : x.covers p.variableSites = true) (hover : b.Over p.vars) : x.toBinding = b := by
  refine Binding.ext_get? fun v => ?_
  rw [SiteBinding.get?_toBinding]
  cases hv : x.valueOf? v with
  | some t => exact (h.var v t hv).symm
  | none =>
    cases hb : b.get? v with
    | none => rfl
    | some t =>
      obtain ⟨t', ht'⟩ := Plan.exists_valueOf? h.coherent hcovers ((hover v).1 (by rw [hb]; rfl))
      rw [hv] at ht'
      cases ht'

/-- Some match to a producer covers the triple. -/
def Node.Covers (n : Node) (a : Triple) : Prop := ∃ e ∈ n.allProducers, ∃ link ∈ e.2, a ∈ link.sources

/-- A node has no gap when all triples of its antecedent are covered. -/
theorem Node.hasGap_eq_false {n : Node} : n.hasGap = false ↔ ∀ a ∈ n.rule.antecedent, n.Covers a := by
  have hcovers (a : Triple) :
      (n.allProducers.flatMap fun e => e.2.toList.flatMap Match.sources).contains a = true ↔ n.Covers a := by
    simp only [List.contains_iff_mem, List.mem_flatMap, Node.Covers, SortedSet.mem_def]
  rw [Node.hasGap, ← Bool.not_eq_true, SortedSet.any_iff]
  constructor
  · intro hno a ha
    by_contra hcovered
    exact hno ⟨a, ha, by rwa [Bool.not_eq_true', ← Bool.not_eq_true, hcovers]⟩
  · rintro hall ⟨a, ha, hno⟩
    rw [Bool.not_eq_true', ← Bool.not_eq_true, hcovers] at hno
    exact hno (hall a ha)

namespace Plan

variable {q : Plan} {c d : NodeId} {n m : Node} {a t : Triple} {b : Binding}

/-! ## The triples of an antecedent -/

/-- A route brings a triple of an antecedent in, as the binding makes it. -/
def Brings (q : Plan) (r : Route) (a : Triple) (b : Binding) : Prop :=
  ∃ u ∈ r.consequent, r.link.triples.entries = [(u, a)] ∧ ∃ γ ∈ q.outputs r.producer, u.instantiate γ = a.instantiate b

/-- A triple of the antecedent of a node comes in, as the binding makes it. -/
structure Supplied (q : Plan) (c : NodeId) (n : Node) (a : Triple) (b : Binding) : Prop where
  covered : n.Covers a
  route : ∃ r ∈ q.graph.routes c n, q.Brings r a b
  ground : (a.instantiate b).IsGround

/-- What a route brings in binds the triple as wanted. -/
theorem Brings.exists_gives {r : Route} (h : q.Brings r a b) (strategy : Strategy) (hg : (a.instantiate b).IsGround) :
    ∃ x ∈ r.gives strategy q.outputs, x.Under b.get? ∧
      ∀ i v, a.term i = .var v → ∃ t, x.get? (a.site i) = some t := by
  obtain ⟨u, hu, hentries, γ, hγ, heq⟩ := h
  have hsuits : ∀ e ∈ r.link.triples.entries,
      SiteBinding.Suits b.get? (SiteBinding.ofBinding r.consequent γ) e := by
    intro e he
    rw [hentries, List.mem_singleton] at he
    subst he
    exact SiteBinding.suits_of_instance (SiteBinding.ofBinding_under _ γ) heq hg
  obtain ⟨x, hx, hunder⟩ := SiteBinding.exists_carryThrough hsuits
  refine ⟨x, ⟨γ, hγ, x, hx, .inl rfl⟩, hunder, fun i v hv => ⟨(u.instantiate γ).term i, ?_⟩⟩
  obtain ⟨sites, hsites⟩ := Triple.unify?_isSome heq
  refine ((SiteBinding.carryThrough_some hx).2.1 _ _).2 ⟨(u, a), by rw [hentries]; exact List.mem_singleton.2 rfl, ?_⟩
  have hvar : (a.site i).toVariable? = some v := Term.toVariable?_eq_some.2 hv
  exact ⟨by rw [hsites]; rfl, i, rfl, by simp [hvar], SiteBinding.termAt?_ofBinding hu (heq ▸ hg) i⟩

/-- The route brings in one of the triples of the antecedent that are meant. -/
def BringsSome (q : Plan) (n : Node) (S : Triple → Prop) (b : Binding) (r : Route) : Prop :=
  ∃ a ∈ n.rule.antecedent, S a ∧ q.Brings r a b

/-- The link of a route lines up one pair of triples, so there is only one triple that is brought in. -/
theorem BringsSome.exists_gives {S : Triple → Prop} {r : Route} (h : q.BringsSome n S b r) (strategy : Strategy)
    (hg : ∀ a ∈ n.rule.antecedent, S a → (a.instantiate b).IsGround) :
    ∃ x ∈ r.gives strategy q.outputs, x.Under b.get? ∧
      ∀ u a, r.link.triples.entries = [(u, a)] → ∀ i v, a.term i = .var v → ∃ t, x.get? (a.site i) = some t := by
  obtain ⟨a, ha, hSa, hbrings⟩ := h
  obtain ⟨x, hx, hunder, hsites⟩ := hbrings.exists_gives strategy (hg a ha hSa)
  refine ⟨x, hx, hunder, fun u a' hentries => ?_⟩
  obtain ⟨u', _, hentries', _⟩ := hbrings
  rw [hentries'] at hentries
  cases hentries
  exact hsites

/-- Triples of an antecedent that come in make its input, provided that all triples with variables are among
them. -/
theorem exists_input {S : Triple → Prop} (hne : n.rule.antecedent.isEmpty = false) (ht : n.triggers.isEmpty = true)
    (hover : b.Over (Pattern.vars n.rule.antecedent)) (hsome : ∃ a ∈ n.rule.antecedent, S a)
    (hvars : ∀ a ∈ n.rule.antecedent, a.hasVariables = true → S a)
    (hS : ∀ a ∈ n.rule.antecedent, S a → q.Supplied c n a b) (hpass : Passes (q.progressOf c).demand b) :
    b ∈ q.nodeInput c n := by
  -- One site binding is picked for each route that brings a triple; all lie below the binding, so they merge.
  have hgives (r : Route) (hr : q.BringsSome n S b r) :=
    hr.exists_gives q.options.strategy fun a ha hSa => (hS a ha hSa).ground
  choose! pick hpick hunder hsites using hgives
  have hcovers {x : SiteBinding}
      (hx : ∀ r ∈ q.graph.routes c n, q.BringsSome n S b r → ∀ s t, (pick r).get? s = some t → x.get? s = some t) :
      x.covers (Pattern.variableSites n.rule.antecedent) = true := by
    refine SiteBinding.covers_iff.2 fun s hs => ?_
    obtain ⟨hsa, hsv⟩ := Pattern.mem_variableSites.1 hs
    obtain ⟨v, hv⟩ := Term.isVariable_iff.1 hsv
    have hSa : S s.triple := hvars s.triple hsa
      (List.any_eq_true.2 ⟨_, Triple.mem_terms.2 ⟨s.position, rfl⟩, hsv⟩)
    obtain ⟨r, hr, hbrings⟩ := (hS s.triple hsa hSa).route
    have hbringsSome : q.BringsSome n S b r := ⟨s.triple, hsa, hSa, hbrings⟩
    obtain ⟨u, _, hentries, _⟩ := hbrings
    obtain ⟨t, ht⟩ := hsites r hbringsSome u s.triple hentries s.position v hv
    exact ⟨t, hx r hr hbringsSome _ t ht⟩
  rcases exists_gathered fun r _ hr => ⟨hpick r hr, hunder r hr⟩ with hno | ⟨x, hx, hxunder, hxsites⟩
  · obtain ⟨a, ha, hSa⟩ := hsome
    obtain ⟨r, hr, hbrings⟩ := (hS a ha hSa).route
    exact absurd ⟨a, ha, hSa, hbrings⟩ (hno r hr)
  · have hcovered := hcovers hxsites
    exact (mem_nodeInput hne ht).2 ⟨⟨x, hx, hcovered, hxunder.toBinding_eq hcovered hover⟩, hpass⟩

/-! ## Ends of runs -/

/-- A goal that has been run to the end with some bindings. -/
structure Ended (rules : List Rule) (strategy : Strategy) (root : RuleId) (bindings : BindingSet)
    (q : Plan) : Prop where
  graph : q.graph.Backward rules strategy root
  linked : ∀ i n, q.graph.node? i = some n → q.graph.Linked rules strategy n
  chosen : q.options.strategy = strategy
  goal : ∀ n, q.graph.node? start = some n → n.rule.consequent.isEmpty = true
  final : q.Complete
  asked : ∀ i n, q.graph.node? i = some n → ∀ x s, (x, s) ∈ q.graph.requests strategy n (q.progressOf i).demand →
    ∀ b ∈ s, b ∈ (q.progressOf x).demand
  given : ∀ b ∈ inputOf bindings, b ∈ (q.progressOf start).demand
  known : ∀ n, q.graph.node? start = some n → ∀ b ∈ inputOf bindings, ∀ v ∈ b.vars, v ∈ Pattern.vars n.rule.antecedent

theorem start_rule {g : Graph} {rules : List Rule} {strategy : Strategy}
    {root : RuleId} {r : Rule} (h : g.Backward rules strategy root) (hr : rules[root]? = some r)
    (hn : g.node? start = some n) : n.rule = r := by
  obtain ⟨n', hn', hid⟩ := h.root
  rw [show g.node? 0 = some n from hn] at hn'
  cases hn'
  have := h.rule start n hn
  rw [hid, hr] at this
  exact (Option.some.inj this).symm

theorem exists_start {g : Graph} {rules : List Rule} {strategy : Strategy} {root : RuleId} {r : Rule}
    (h : g.Backward rules strategy root) (hr : rules[root]? = some r) : ∃ n, g.node? start = some n ∧ n.rule = r := by
  obtain ⟨n, hn, _⟩ := h.root
  exact ⟨n, hn, start_rule h hr hn⟩

/-- What a goal can be asked is known from its antecedent. -/
theorem Laid.checkInput_eq_ok {s : RuleStore} {id : RuleId} {strategy : Strategy} {bindings : BindingSet} {p : Plan}
    {r : Rule} (h : Laid s id strategy p) (hr : s.get id = .ok r) :
    p.checkInput bindings = .ok () ↔ ∀ b ∈ bindings, ∀ v ∈ b.vars, v ∈ Pattern.vars r.antecedent := by
  obtain ⟨n, hn, rfl⟩ := exists_start h.graph (get_eq_ok.1 hr)
  exact Plan.checkInput_eq_ok h.isBackward hn

/-- A goal that has been asked comes to its end, whatever it was asked before. -/
theorem Asked.ended {s : RuleStore} {id : RuleId} {strategy : Strategy} {bindings : BindingSet} {p : Plan} {r : Rule}
    (h : Asked s id strategy bindings p) (hr : s.get id = .ok r) (hgoal : r.consequent.isEmpty = true)
    (hp : p.Pointwise) (haccounted : p.Accounted) (hsteps : Steps p q) (hquiet : q.Quiet) :
    Ended s.rules strategy id bindings q := by
  have hf := hsteps.sameFrame
  have hq := h.toLaid.of_sameFrame hf
  obtain ⟨rounds, d, hd, hdemand⟩ := h.settled
  have hsize {x : NodeId} {m : Node} (hm : p.graph.node? x = some m) : (p.progressOf x).demand = d.of x :=
    hdemand x (Graph.lt_size hm)
  refine ⟨hq.graph, hq.linked, hq.chosen, fun n hn => ?_,
    hquiet.complete (hsteps.accounted haccounted hp).ledger hq.graph hq.isBackward,
    fun i n hn x s hmem b hb => ?_, fun b hb => ?_, ?_⟩
  · rw [start_rule hq.graph (get_eq_ok.1 hr) hn]
    exact hgoal
  · rw [hf.graph] at hn hmem
    rw [hf.demand] at hmem ⊢
    rw [hsize hn] at hmem
    obtain ⟨_, _, _, producer, _, hp, _⟩ := Graph.mem_requests.1 hmem
    rw [hsize hp]
    exact Graph.settleDemand_closed hd i n hn _ hmem b hb
  · obtain ⟨n, hn, _⟩ := h.graph.root
    rw [hf.demand, hsize (x := start) hn]
    refine Graph.settleDemand_grows hd ?_
    rw [Demands.of_insert, if_pos rfl]
    exact hb
  · rw [hf.graph]
    exact h.known

theorem Posed.ended {s : RuleStore} {id : RuleId} {strategy : Strategy} {bindings : BindingSet} {p : Plan} {r : Rule}
    (h : Posed s id strategy bindings p) (hr : s.get id = .ok r) (hgoal : r.consequent.isEmpty = true)
    (hs : ∀ r ∈ s.rules, r.isProactive = false → r.Pointwise) (hsteps : Steps p q) (hquiet : q.Quiet) :
    Ended s.rules strategy id bindings q :=
  h.toAsked.ended hr hgoal (h.pointwise hs) h.untouched.accounted hsteps hquiet

/-! ## Whatever follows comes in -/

section Ended

variable {rules : List Rule} {strategy : Strategy} {root : RuleId} {bindings : BindingSet} {r : Rule} {u : Triple}
  {β δ : Binding}

/-- The node of a rule that an antecedent matches is a producer of the node with the antecedent. -/
theorem Ended.exists_linked {link : Match} (h : Ended rules strategy root bindings q) (hn : q.graph.node? c = some n)
    (hr : r ∈ rules) (hpro : r.isProactive = false) (hlink : link ∈ Facing strategy n.rule r) :
    ∃ d m found x, q.graph.node? d = some m ∧ m.rule = r ∧ n.HasProducer d ∧ (d, found) ∈ n.allProducers ∧ x ∈ found ∧
      x.triples = link.triples := by
  obtain ⟨i, hi⟩ := List.mem_iff_getElem?.1 hr
  obtain ⟨d, m, hm, hid, hprod⟩ := h.linked c n hn ⟨i, r, findMatches n.rule.antecedent r.consequent strategy⟩
    (mem_neighborsAmong.2 ⟨hi, hpro, rfl, SortedSet.isEmpty_eq_false hlink⟩)
  have hrule := h.graph.rule d m hm
  rw [hid, hi] at hrule
  obtain rfl : r = m.rule := Option.some.inj hrule
  have hwhole := hprod
  obtain ⟨cyclic, found, hfound⟩ := hprod
  obtain ⟨m', hm', hfaith, _⟩ := h.graph.producer c n cyclic d found hn hfound
  rw [hm] at hm'
  cases hm'
  obtain ⟨x, hx, hxl⟩ := hfaith.complete link hlink
  exact ⟨d, m, found, x, hm, rfl, hwhole, Node.mem_allProducers.2 ⟨cyclic, hfound⟩, hx, hxl⟩

/-- A triple that some rule can give is covered. -/
theorem Ended.covers (h : Ended rules strategy root bindings q) (hn : q.graph.node? c = some n)
    (hpairs : ∀ r ∈ rules, FindsPairs strategy n.rule.antecedent r.consequent) (ha : a ∈ n.rule.antecedent)
    (hcoverable : Coverable rules a) : n.Covers a := by
  obtain ⟨r, hr, hpro, u, hu, hunify⟩ := hcoverable
  obtain ⟨link, hlink, hentries⟩ := hpairs r hr a ha u hu hunify
  obtain ⟨d, _, found, x, _, _, _, hmem, hx, hxl⟩ := h.exists_linked hn hr hpro hlink
  refine ⟨(d, found), hmem, x, hx, Match.mem_sources.2 ⟨u, SortedMap.get?_eq_some_iff.2 ?_⟩⟩
  rw [hxl, hentries]
  exact List.mem_singleton.2 rfl

/-- Through a match that lines up equal instances a producer is asked for what it has to give. -/
theorem Ended.exists_asked {found : MatchSet} {x : Match} (h : Ended rules strategy root bindings q)
    (hn : q.graph.node? c = some n) (hm : q.graph.node? d = some m) (hmem : (d, found) ∈ n.allProducers)
    (hx : x ∈ found) (hne : n.rule.antecedent.isEmpty = false)
    (hinstance : ∀ e ∈ x.triples.entries, e.2 ∈ m.rule.consequent ∧ e.1.instantiate b = e.2.instantiate β ∧
      (e.2.instantiate β).IsGround)
    (hδ : δ ∈ (q.progressOf c).demand) (hext : b.Extends δ) :
    ∃ δ' ∈ (q.progressOf d).demand, β.Extends δ' ∧ ∀ v ∈ δ'.vars, v ∈ Pattern.vars m.rule.consequent := by
  have hsuits : ∀ e ∈ x.triples.entries,
      SiteBinding.Suits β.get? (SiteBinding.ofBinding n.rule.antecedent δ) e := by
    intro e he
    obtain ⟨_, heq, hg⟩ := hinstance e he
    exact SiteBinding.suits_of_instance ((SiteBinding.ofBinding_under _ δ).mono hext) heq hg
  obtain ⟨z, hz, hunder⟩ := SiteBinding.exists_carryThrough hsuits
  have hreq : (d, wantedThrough strategy (.ofBindings n.rule.antecedent (q.progressOf c).demand)
      m.rule.consequent found) ∈
      q.graph.requests strategy n (q.progressOf c).demand := Graph.mem_requests.2
    ⟨InsertionSet.isEmpty_eq_false hδ, hne, found, m, hmem, hm, rfl⟩
  have hwanted := mem_wantedThrough_of_carryThrough strategy m.rule.consequent hx
    (SiteBindingSet.mem_ofBindings.2 ⟨δ, hδ, rfl⟩) hz
  refine ⟨z.toBinding, h.asked c n hn d _ hreq _ hwanted, hunder.var, fun v hv => ?_⟩
  obtain ⟨t, ht⟩ := Binding.mem_vars.1 hv
  obtain ⟨s, hs, hst⟩ := hunder.held v t ht
  obtain ⟨e, he, _, j, rfl, _⟩ := ((SiteBinding.carryThrough_some hz).2.1 s t).1 hst
  exact Pattern.mem_vars.2 ⟨e.2, (hinstance e he).1, Triple.mem_vars.2 ⟨j, Term.toVariable?_eq_some.1 hs⟩⟩

/-- The rule behind a wanted triple feeds the node that wants it, is asked for what it has, and brings the triple in
once it has given it. -/
theorem Ended.exists_producer (h : Ended rules strategy root bindings q) (hn : q.graph.node? c = some n)
    (hpairs : ∀ r ∈ rules, FindsPairs strategy n.rule.antecedent r.consequent) (ha : a ∈ n.rule.antecedent)
    (hr : r ∈ rules) (hpro : r.isProactive = false) (hu : u ∈ r.consequent)
    (heq : a.instantiate b = u.instantiate β) (hg : (a.instantiate b).IsGround)
    (hδ : δ ∈ (q.progressOf c).demand) (hext : b.Extends δ) :
    ∃ d m, q.graph.node? d = some m ∧ m.rule = r ∧ d ≠ start ∧
      (∃ δ' ∈ (q.progressOf d).demand, β.Extends δ' ∧ ∀ v ∈ δ'.vars, v ∈ Pattern.vars r.consequent) ∧
      ∀ γ ∈ q.outputs d, u.instantiate γ = a.instantiate b → q.Supplied c n a b := by
  have hunify : (a.unify? u).isSome = true := Option.isSome_iff_exists.2 (Triple.unify?_isSome heq)
  obtain ⟨link, hlink, hpair⟩ := hpairs r hr a ha u hu hunify
  obtain ⟨d, m, found, x, hm, rfl, hprod, hmem, hx, hxl⟩ := h.exists_linked hn hr hpro hlink
  have hentries : x.triples.entries = [(a, u)] := by rw [hxl, hpair]
  have hcovers : n.Covers a := h.covers hn hpairs ha ⟨m.rule, hr, hpro, u, hu, hunify⟩
  have hasked := h.exists_asked hn hm hmem hx (SortedSet.isEmpty_eq_false ha) (b := b) (β := β) (fun e he => by
    rw [hentries, List.mem_singleton] at he
    subst he
    exact ⟨hu, heq, heq ▸ hg⟩) hδ hext
  refine ⟨d, m, hm, rfl, fun hd => ?_, hasked, fun γ hγ hγa => ⟨hcovers, ?_, hg⟩⟩
  · -- The goal is no producer: it has nothing to give.
    have := h.goal m (hd ▸ hm)
    rw [SortedSet.isEmpty_eq_false hu] at this
    cases this
  · obtain ⟨route, hroute, hp, hc, htriples⟩ := h.graph.exists_route hn hprod hm hlink
    refine ⟨route, hroute, u, by rw [hc]; exact hu, ?_, γ, by rw [hp]; exact hγ, hγa⟩
    rw [htriples, Match.inverse_pair hpair]

/-- What a rule that copies takes in, it gives. -/
theorem Ended.mem_outputs_of_input (h : Ended rules strategy root bindings q) (hm : q.graph.node? d = some m)
    (hd : d ≠ start) (hcopy : m.rule.IsCopy) (hgap : m.hasGap = false) (hb : b ∈ q.nodeInput d m) :
    b.restrict (Pattern.vars m.rule.consequent) ∈ q.outputs d := by
  have hacc : m.rule.Accepts (.singleton b) := fun b' hb' v hv => by
    rw [InsertionSet.mem_singleton.1 hb']
    exact bound_of_mem_nodeInput hb hv
  exact h.final.answered d m hd hm hgap b hb _ ((hcopy.yields_iff hacc).2 ⟨b, InsertionSet.mem_singleton.2 rfl, rfl⟩)

theorem Ended.exists_output (h : Ended rules strategy root bindings q) (hm : q.graph.node? d = some m) (hd : d ≠ start)
    (hcopy : m.rule.IsCopy) (hgap : m.hasGap = false) (hb : b ∈ q.nodeInput d m)
    (heq : ∀ u ∈ m.rule.consequent, u.instantiate b = u.instantiate β) :
    ∃ γ ∈ q.outputs d, ∀ u ∈ m.rule.consequent, u.instantiate γ = u.instantiate β := by
  refine ⟨_, h.mem_outputs_of_input hm hd hcopy hgap hb, fun u hu => ?_⟩
  rw [Triple.instantiate_restrict fun v hv => Pattern.mem_vars.2 ⟨u, hu, hv⟩, heq u hu]

/-- A node is asked for an instance of a rule that copies: if enough of what the instance needs comes in, it
is given. -/
theorem Ended.copies {comes : Triple → Prop} (h : Ended rules strategy root bindings q) (hm : q.graph.node? d = some m)
    (hd : d ≠ start) (hcopy : m.rule.IsCopy) (hδ : δ ∈ (q.progressOf d).demand) (hext : β.Extends δ)
    (hknown : ∀ v ∈ δ.vars, v ∈ Pattern.vars m.rule.consequent) (hcovers : ∀ a ∈ m.rule.antecedent, m.Covers a)
    (henough : m.rule.antecedent.Enough comes) (hground : ∀ a ∈ m.rule.antecedent, comes a → (a.instantiate β).IsGround)
    (hsupplied : ∀ a ∈ m.rule.antecedent, comes a → ∀ b : Binding, b.Extends δ → a.instantiate b = a.instantiate β →
      q.Supplied d m a b) :
    ∃ γ ∈ q.outputs d, ∀ u ∈ m.rule.consequent, u.instantiate γ = u.instantiate β := by
  cases hne : m.rule.antecedent.isEmpty with
  | true =>
    refine h.exists_output hm hd hcopy (Node.hasGap_eq_false.2 hcovers) (by rwa [nodeInput_of_empty hne]) fun u hu =>
      Triple.instantiate_congr fun v hv => ?_
    obtain ⟨a, ha, _⟩ := Pattern.mem_vars.1 (hcopy.vars v (Pattern.mem_vars.2 ⟨u, hu, hv⟩))
    rw [SortedSet.isEmpty_iff.1 hne] at ha
    exact absurd ha (SortedSet.not_mem_emptyCollection a)
  | false =>
    have hget {v : Variable} (hv : v ∈ Pattern.vars m.rule.antecedent) :
        (β.restrict (Pattern.vars m.rule.antecedent)).get? v = β.get? v := by
      rw [Binding.get?_restrict, if_pos hv]
    -- An input binds the variables of the antecedent only, the instance may bind more.
    have hext₀ : (β.restrict (Pattern.vars m.rule.antecedent)).Extends δ := fun v t hv => by
      rw [hget (hcopy.vars v (hknown v (Binding.mem_vars.2 ⟨t, hv⟩)))]
      exact hext v t hv
    have hinput : β.restrict (Pattern.vars m.rule.antecedent) ∈ q.nodeInput d m :=
      exists_input (S := comes) hne (SortedSet.isEmpty_iff.2 (h.graph.kind d m hm).2.1)
        (Pattern.over_restrict (henough.isGround hground)) (henough.some.resolve_left (by simp [hne])) henough.vars
        (fun a ha hc => hsupplied a ha hc _ hext₀
          (Triple.instantiate_restrict fun v hv => Pattern.mem_vars.2 ⟨a, ha, hv⟩))
        (.inr ⟨δ, hδ, hext₀.compatible⟩)
    exact h.exists_output hm hd hcopy (Node.hasGap_eq_false.2 hcovers) hinput fun u hu =>
      Triple.instantiate_congr fun v hv => hget (hcopy.vars v (Pattern.mem_vars.2 ⟨u, hu, hv⟩))

/-- A node of a rule that holds data gives the rows that extend what it is asked for. -/
theorem Ended.mem_outputs_of_row {tab : Table} (h : Ended rules strategy root bindings q)
    (hm : q.graph.node? d = some m)
    (hd : d ≠ start) (hdata : m.rule.IsData tab) (hβ : β ∈ tab.rows) (hδ : δ ∈ (q.progressOf d).demand)
    (hext : β.Extends δ) : β ∈ q.outputs d := by
  refine h.final.answered d m hd hm (Node.hasGap_eq_false.2 ?_) δ ?_ β
    (hdata.yields_iff.2 ⟨hβ, .inr ⟨δ, InsertionSet.mem_singleton.2 rfl, hext.compatible⟩⟩)
  · rw [hdata.antecedent]
    exact fun a ha => absurd ha (SortedSet.not_mem_emptyCollection a)
  · rw [nodeInput_of_empty (by rw [hdata.antecedent]; rfl)]
    exact hδ

/-- Whatever seems to follow from the rules comes in wherever it is asked for. -/
theorem Ended.supplied_of_apparent (h : Ended rules strategy root bindings q)
    (hpairs : ∀ r' ∈ rules, ∀ r ∈ rules, FindsPairs strategy r'.antecedent r.consequent) (ht : Apparent rules t) :
    ∀ {c n a b δ}, q.graph.node? c = some n → a ∈ n.rule.antecedent → a.instantiate b = t →
      δ ∈ (q.progressOf c).demand → b.Extends δ → q.Supplied c n a b := by
  have hrules {c : NodeId} {n : Node} (hn : q.graph.node? c = some n) := hpairs n.rule
    (List.mem_of_getElem? (h.graph.rule c n hn))
  -- On why it seems to follow, for all nodes at once: the premises are asked for at another node than the triple.
  induction ht with
  | @copy r β u comes hr hcopy hcovered henough hpremises hu ih =>
    intro c n a b δ hn ha heq hδ hext
    have hg : (a.instantiate b).IsGround := heq ▸ (Apparent.copy hr hcopy hcovered henough hpremises hu).isGround
    obtain ⟨d, m, hm, rfl, hd, ⟨δ', hδ', hext', hknown⟩, hbrings⟩ :=
      h.exists_producer hn (hrules hn) ha hr hcopy.isProactive hu heq hg hδ hext
    obtain ⟨γ, hγ, hgives⟩ := h.copies hm hd hcopy hδ' hext' hknown
      (fun a ha => h.covers hm (hrules hm) ha (hcovered a ha)) henough (fun a ha hc => (hpremises a ha hc).isGround)
      fun a ha hc b hb hab => ih a ha hc hm ha hab hδ' hb
    exact hbrings γ hγ ((hgives u hu).trans heq.symm)
  | @row r tab β u hr hdata hβ hu =>
    intro c n a b δ hn ha heq hδ hext
    have hg : (a.instantiate b).IsGround := heq ▸ (Apparent.row hr hdata hβ hu).isGround
    obtain ⟨d, m, hm, rfl, hd, ⟨δ', hδ', hext', _⟩, hbrings⟩ :=
      h.exists_producer hn (hrules hn) ha hr hdata.isProactive hu heq hg hδ hext
    exact hbrings β (h.mem_outputs_of_row hm hd hdata hβ hδ' hext') heq.symm

/-- Whatever follows from the rules comes in wherever it is asked for. -/
theorem Ended.supplied (h : Ended rules strategy root bindings q)
    (hpairs : ∀ r' ∈ rules, ∀ r ∈ rules, FindsPairs strategy r'.antecedent r.consequent) (ht : Derivable rules t)
    (hn : q.graph.node? c = some n) (ha : a ∈ n.rule.antecedent) (heq : a.instantiate b = t)
    (hδ : δ ∈ (q.progressOf c).demand) (hext : b.Extends δ) : q.Supplied c n a b :=
  h.supplied_of_apparent hpairs ht.apparent hn ha heq hδ hext

/-- A compatible binding of the input is demand that a solution extends. -/
theorem Ended.exists_demand (h : Ended rules strategy root bindings q) (hn : q.graph.node? start = some n)
    (hover : b.Over (Pattern.vars n.rule.antecedent))
    (hinput : bindings.isEmpty = true ∨ ∃ i ∈ bindings, b.compatible i = true) :
    ∃ δ ∈ (q.progressOf start).demand, b.Extends δ := by
  cases hempty : bindings.isEmpty with
  | true =>
    refine ⟨∅, h.given ∅ ?_, fun v t hv => by cases hv⟩
    rw [inputOf, if_pos hempty]
    exact InsertionSet.mem_singleton.2 rfl
  | false =>
    obtain ⟨i, hi, hcompatible⟩ := hinput.resolve_left (by simp [hempty])
    have hmem : i ∈ inputOf bindings := by rwa [inputOf, if_neg (by simp [hempty])]
    exact ⟨i, h.given i hmem, Binding.extends_of_compatible hover (h.known n hn i hmem) hcompatible⟩

/-- A binding of the goal is an answer when its triples come in, of those without variables only some. -/
theorem Ended.mem_outputs {S : Triple → Prop} (h : Ended rules strategy root bindings q)
    (hn : q.graph.node? start = some n) (hover : b.Over (Pattern.vars n.rule.antecedent))
    (hδ : δ ∈ (q.progressOf start).demand) (hext : b.Extends δ) (hsome : ∃ a ∈ n.rule.antecedent, S a)
    (hvars : ∀ a ∈ n.rule.antecedent, a.hasVariables = true → S a)
    (hS : ∀ a ∈ n.rule.antecedent, S a → q.Supplied start n a b)
    (hcovered : ∀ a ∈ n.rule.antecedent, n.Covers a) :
    b ∈ q.outputs start := by
  obtain ⟨a, ha, hSa⟩ := hsome
  refine (h.final.goal n hn b).2 ⟨Node.hasGap_eq_false.2 hcovered, exists_input (SortedSet.isEmpty_eq_false ha)
    (SortedSet.isEmpty_iff.2 (h.graph.kind start n hn).2.1) hover ⟨a, ha, hSa⟩ hvars hS (.inr ⟨δ, hδ, hext.compatible⟩)⟩

/-- A run that has ended has the input of its goal as results. -/
theorem Ended.results (h : Ended rules strategy root bindings q) :
    ∃ answers, q.results = .ok answers ∧ ∀ b, b ∈ answers ↔ b ∈ q.outputs start :=
  ⟨_, h.final.results, fun _ => Iff.rfl⟩

end Ended

/-- With all matches a goal is answered completely: whatever binding of its variables makes all its triples follow
from the rules is among the results, unless it contradicts all of the input. -/
theorem mem_results_of_derivable {s : RuleStore} {id : RuleId} {o : PlanOptions} {g : Rule} {input : BindingSet}
    {p q : Plan} (hs : s.Declarative) (hg : s.get id = .ok g) (hgoal : g.consequent.isEmpty = true)
    (ho : o.strategy = .all) (hp : build s id o = .ok p) (hq : Runs input p q) :
    ∃ answers, q.results = .ok answers ∧ ∀ b : Binding, b.Over (Pattern.vars g.antecedent) →
      (∀ t ∈ g.antecedent, Derivable s.rules (t.instantiate b)) →
      (input.isEmpty = true ∨ ∃ i ∈ input, b.compatible i = true) → b ∈ answers := by
  obtain ⟨m, _, hposed, hsteps, hquiet⟩ := hq.posed hp hg hgoal
  have hended := hposed.ended hg hgoal hs.pointwise hsteps hquiet
  obtain ⟨answers, hresults, hanswers⟩ := hended.results
  refine ⟨answers, hresults, fun b hover hderivable hinput => (hanswers b).2 ?_⟩
  obtain ⟨n, hn, _⟩ := hended.graph.root
  obtain rfl : n.rule = g := start_rule hended.graph (get_eq_ok.1 hg) hn
  obtain ⟨δ, hδ, hext⟩ := hended.exists_demand hn hover hinput
  have hsupplied : ∀ a ∈ n.rule.antecedent, q.Supplied start n a b := fun a ha =>
    hended.supplied (fun r' _ r _ => by rw [ho]; exact findsPairs_all _ _) (hderivable a ha) hn ha rfl hδ hext
  cases hne : n.rule.antecedent.isEmpty with
  | true =>
    have hno (v : Variable) : b.get? v = none := by
      rw [← Option.not_isSome_iff_eq_none, hover, SortedSet.isEmpty_iff.1 hne]
      exact SortedSet.not_mem_emptyCollection v
    have hδb : δ = b := Binding.ext_get? fun v => by
      rw [hno]
      cases hv : δ.get? v with
      | none => rfl
      | some t => rw [← hext v t hv, hno]
    refine (hended.final.goal n hn b).2 ⟨Node.hasGap_eq_false.2 fun a ha => (hsupplied a ha).covered, ?_⟩
    rwa [nodeInput_of_empty hne, ← hδb]
  | false =>
    obtain ⟨a, ha⟩ := SortedSet.exists_mem hne
    exact hended.mem_outputs (S := fun _ => True) hn hover hδ hext ⟨a, ha, trivial⟩ (fun _ _ _ => trivial)
      (fun a ha _ => hsupplied a ha) fun a ha => (hsupplied a ha).covered

/-- The joined path is found although the rule that joins paths feeds itself. -/
theorem joined_path_mem_results : ∃ p q answers, build .paths 2 ⟨.all, true, 0⟩ = .ok p ∧ Runs ∅ p q ∧
    q.results = .ok answers ∧ Binding.ofList [(⟨"u"⟩, .iri "a"), (⟨"v"⟩, .iri "c")] ∈ answers := by
  obtain ⟨p, q, _, hp, hq, _, _⟩ := exists_of_reaches .paths 2 ⟨.all, true, 0⟩ 50 (fun _ => true) (by decide +kernel)
  obtain ⟨answers, hresults, hall⟩ := mem_results_of_derivable RuleStore.paths_declarative rfl rfl rfl hp hq
  refine ⟨p, q, answers, hp, hq, hresults, hall _ ?_ (fun t ht => ?_) (.inl rfl)⟩
  · exact by decide
  · obtain rfl := SortedSet.mem_singleton.1 ht
    refine Derivable.copy (r := .joinPaths) (b := RuleStore.joinedPaths) (t := .path (.var ⟨"x"⟩) (.var ⟨"z"⟩))
      (by simp [RuleStore.paths]) ⟨rfl, by decide⟩ (fun a ha => ?_) (SortedSet.mem_singleton.2 rfl)
    refine Rule.derivable_of_holding List.mem_cons_self (by decide) ?_
    rcases List.mem_pair.1 (SortedSet.mem_ofList.1 ha) with rfl | rfl <;> decide

end Plan

end TripleChain
