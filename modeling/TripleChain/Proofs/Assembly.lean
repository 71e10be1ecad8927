import TripleChain.Plan.Input
import TripleChain.Proofs.Carry
import Mathlib.Data.List.Sublists
import Mathlib.Data.Set.Basic
/-!
# What the input of a node is made of

The input of a node is put together along routes: a match from the consequent of a producer to the
antecedent of the node. `Gathered` is the set of site bindings that the routes give together, as a function
of what the producers have given. `Plan.mem_nodeInput` ties the input to it.

What comes out is argued about in three ways: by what all gathered site bindings have in common
(`gathered_induction`), by comparing two sets of outputs (`gathered_mono`), and by following one instance
through the joins (`exists_gathered`).
-/

open Std

namespace TripleChain

/-! ## Sets of site bindings by their members -/

namespace SiteBindingSet

variable {s t : SiteBindingSet} {x : SiteBinding}

theorem mem_addAll {l : List SiteBinding} : x ∈ (s.addAll l).bindings ↔ x ∈ s.bindings ∨ x ∈ l :=
  InsertionSet.mem_insertAll

theorem mem_extend : x ∈ (s.extend t).bindings ↔ x ∈ s.bindings ∨ x ∈ t.bindings := mem_addAll

theorem not_mem_empty {p : Pattern} : x ∉ (empty p).bindings := InsertionSet.not_mem_empty x

theorem mem_ofBindings {p : Pattern} {bs : BindingSet} :
    x ∈ (ofBindings p bs).bindings ↔ ∃ b ∈ bs, SiteBinding.ofBinding p b = x := InsertionSet.mem_map

theorem mem_toBindings {b : Binding} : b ∈ s.toBindings ↔ ∃ x ∈ s.bindings, x.toBinding = b := InsertionSet.mem_map

theorem mem_carryThrough {p : Pattern} {ms : List Match} :
    x ∈ (s.carryThrough p ms).bindings ↔ ∃ m ∈ ms, ∃ y ∈ s.bindings, SiteBinding.carryThrough m y = some x := by
  rw [carryThrough, mem_addAll, List.mem_flatMap]
  simp only [List.mem_filterMap, not_mem_empty, false_or]
  rfl

theorem mem_withPartials : x ∈ s.withPartials.bindings ↔ x ∈ s.bindings ∨ ∃ y ∈ s.bindings, x ∈ parts y := by
  rw [withPartials, mem_addAll, List.mem_flatMap]
  rfl

/-- Doubling what is there for each element gives all sublists. -/
theorem subsets_eq_sublists {α : Type} (l : List α) : subsets l = l.sublists := by
  induction l using List.reverseRecOn with
  | nil => rfl
  | append_singleton l a ih =>
    rw [subsets, List.foldl_append, List.sublists_concat, ← ih]
    rfl

/-- All sets of the triples are tried, in whatever order they are listed. -/
theorem mem_map_restrict_subsets {y : SiteBinding} {triples : SortedSet Triple} :
    x ∈ (subsets triples.toList).map y.restrict ↔ ∃ ts : List Triple, (∀ t ∈ ts, t ∈ triples) ∧ y.restrict ts = x := by
  simp only [List.mem_map, subsets_eq_sublists, List.mem_sublists]
  constructor
  · rintro ⟨ts, hts, rfl⟩
    exact ⟨ts, fun t ht => hts.subset ht, rfl⟩
  · rintro ⟨ts, hts, rfl⟩
    refine ⟨triples.toList.filter (· ∈ ts), List.filter_sublist, SiteBinding.restrict_congr fun t => ?_⟩
    rw [List.mem_filter, decide_eq_true_iff]
    exact and_iff_right_of_imp (hts t)

theorem mem_restrictionsOver {triples : SortedSet Triple} :
    x ∈ (s.restrictionsOver triples).bindings ↔
      ∃ y ∈ s.bindings, ∃ ts : List Triple, (∀ t ∈ ts, t ∈ triples) ∧ y.restrict ts = x := by
  rw [restrictionsOver, mem_addAll, List.mem_flatMap]
  simp only [mem_map_restrict_subsets, not_mem_empty, false_or]
  rfl

theorem mem_parts {y : SiteBinding} :
    x ∈ parts y ↔ (∃ ts : List Triple, (∀ t ∈ ts, t ∈ y.touched) ∧ y.restrict ts = x) ∧ x.isEmpty = false := by
  rw [parts, List.mem_filter, mem_map_restrict_subsets, Bool.not_eq_true']

theorem exists_of_mem_parts {y : SiteBinding} (h : x ∈ parts y) : ∃ ts, y.restrict ts = x := by
  obtain ⟨⟨ts, _, heq⟩, _⟩ := mem_parts.1 h
  exact ⟨ts, heq⟩

theorem isEmpty_of_mem_parts {y : SiteBinding} (h : x ∈ parts y) : x.isEmpty = false := (mem_parts.1 h).2

theorem mem_full : x ∈ s.full.bindings ↔ x ∈ s.bindings ∧ x.covers s.pattern.variableSites = true :=
  InsertionSet.mem_filter

theorem mem_keepFullIncorporating_full {u : SiteBindingSet} (h : x ∈ (s.full.keepFullIncorporating u).bindings) :
    x ∈ s.full.bindings :=
  (InsertionSet.mem_filter.1 (InsertionSet.mem_filter.1 h).1).1

end SiteBindingSet

/-! ## Joining -/

/-- The site bindings of two sets and those joined of one of each. -/
def Joined (S T : Set SiteBinding) : Set SiteBinding :=
  {x | x ∈ S ∨ x ∈ T ∨ ∃ a ∈ S, ∃ b ∈ T, a.conflicts b = false ∧ a.merge b = x}

theorem SiteBindingSet.mem_combine {s t : SiteBindingSet} {x : SiteBinding} :
    x ∈ (s.combine t).bindings ↔ (s.isEmpty = true ∧ (x ∈ s.bindings ∨ x ∈ t.bindings)) ∨
      ∃ a ∈ s.bindings, ∃ b ∈ t.bindings, a.conflicts b = false ∧ a.merge b = x := by
  unfold SiteBindingSet.combine
  cases he : s.isEmpty with
  | true =>
    have hno := InsertionSet.isEmpty_iff.1 he
    simp only [if_true, mem_extend, true_and]
    constructor
    · exact .inl
    · rintro (h | ⟨a, ha, _⟩)
      · exact h
      · exact absurd ha (hno a)
  | false =>
    simp only [Bool.false_eq_true, if_false, false_and, false_or, mem_addAll, not_mem_empty, List.mem_flatMap,
      List.mem_filterMap]
    refine exists_congr fun a => and_congr_right fun _ => exists_congr fun b => and_congr_right fun _ => ?_
    cases a.conflicts b <;> simp

theorem SiteBindingSet.mem_merge {s t : SiteBindingSet} {x : SiteBinding} :
    x ∈ (s.merge t).bindings ↔ x ∈ Joined {y | y ∈ s.bindings} {y | y ∈ t.bindings} := by
  rw [SiteBindingSet.merge, mem_extend, mem_extend, mem_combine]
  constructor
  · rintro (((⟨_, h | h⟩ | h) | h) | h)
    · exact .inl h
    · exact .inr (.inl h)
    · exact .inr (.inr h)
    · exact .inr (.inl h)
    · exact .inl h
  · rintro (h | h | h)
    · exact .inr h
    · exact .inl (.inr h)
    · exact .inl (.inl (.inr h))

theorem joined_mono {S S' T T' : Set SiteBinding} (hS : S ⊆ S') (hT : T ⊆ T') : Joined S T ⊆ Joined S' T' := by
  rintro x (h | h | ⟨a, ha, b, hb, h⟩)
  · exact .inl (hS h)
  · exact .inr (.inl (hT h))
  · exact .inr (.inr ⟨a, hS ha, b, hT hb, h⟩)

theorem joined_empty (S : Set SiteBinding) : Joined S ∅ = S := by
  ext x
  simp [Joined]

/-- Joining keeps the terms of a variable the same at all sites. -/
theorem joined_coherent {S T : Set SiteBinding} (hS : ∀ x ∈ S, x.Coherent) (hT : ∀ x ∈ T, x.Coherent) :
    ∀ x ∈ Joined S T, x.Coherent := by
  rintro x (hx | hx | ⟨a, ha, b, hb, hc, rfl⟩)
  · exact hS x hx
  · exact hT x hx
  · exact (hS a ha).merge (hT b hb) hc

/-- What is joined last may be joined first. -/
theorem joined_right_comm_subset {S A B : Set SiteBinding} (hS : ∀ x ∈ S, x.Coherent) (hA : ∀ x ∈ A, x.Coherent)
    (hB : ∀ x ∈ B, x.Coherent) : Joined (Joined S A) B ⊆ Joined (Joined S B) A := by
  rintro x ((hs | ha | ⟨s, hs, a, ha, hc, rfl⟩) | hb | ⟨y, hs | ha | ⟨s, hs, a, ha, hsa, rfl⟩, b, hb, hc, rfl⟩)
  · exact .inl (.inl hs)
  · exact .inr (.inl ha)
  · exact .inr (.inr ⟨s, .inl hs, a, ha, hc, rfl⟩)
  · exact .inl (.inr (.inl hb))
  · exact .inl (.inr (.inr ⟨y, hs, b, hb, hc, rfl⟩))
  · obtain ⟨f, hfa, hfb, _⟩ := SiteBinding.exists_under (hA y ha) (hB b hb) hc
    exact .inr (.inr ⟨b, .inr (.inl hb), y, ha, hfb.not_conflicts hfa, hfb.merge_comm hfa⟩)
  · -- All three are under one `f`, so that any two of them can be joined first.
    obtain ⟨g, hgs, hga, _⟩ := SiteBinding.exists_under (hS s hs) (hA a ha) hsa
    obtain ⟨f, hfm, hfb, _⟩ := SiteBinding.exists_under (hgs.merge hga).coherent (hB b hb) hc
    obtain ⟨hfs, hfa⟩ := SiteBinding.Under.of_merge (hS s hs) (hA a ha) hsa hfm
    exact .inr (.inr ⟨s.merge b, .inr (.inr ⟨s, hs, b, hb, hfs.not_conflicts hfb, rfl⟩), a, ha,
      (hfs.merge hfb).not_conflicts hfa, hfs.merge_right_comm hfb hfa⟩)

/-! ## Routes -/

/-- A way into a node: a match from the consequent of a producer. -/
structure Route where
  producer : NodeId
  consequent : Pattern
  link : Match

/-- What the nodes have given. -/
abbrev Outputs := NodeId → Set Binding

/-- What comes along a route. -/
def Route.gives (r : Route) (strategy : Strategy) (O : Outputs) : Set SiteBinding :=
  {x | ∃ b ∈ O r.producer, ∃ y, SiteBinding.carryThrough r.link (.ofBinding r.consequent b) = some y ∧
    (x = y ∨ strategy = .biggest ∧ x ∈ SiteBindingSet.parts y)}

/-- What comes along routes, joined one after the other. -/
def Gathered (strategy : Strategy) (O : Outputs) (routes : List Route) : Set SiteBinding :=
  routes.foldl (fun S r => Joined S (r.gives strategy O)) ∅

theorem gathered_concat (strategy : Strategy) (O : Outputs) (routes : List Route) (r : Route) :
    Gathered strategy O (routes ++ [r]) = Joined (Gathered strategy O routes) (r.gives strategy O) := by
  simp [Gathered, List.foldl_append]

/-- The routes from one producer. -/
def Graph.routesFrom (g : Graph) (id producer : NodeId) : List Route :=
  match g.node? producer with
  | none => []
  | some source =>
    match source.matchesTo? id with
    | none => []
    | some found => found.toList.map fun m => ⟨producer, source.rule.consequent, m⟩

/-- The routes into a node. -/
def Graph.routes (g : Graph) (id : NodeId) (n : Node) : List Route :=
  (n.allProducers.map (·.1)).flatMap (g.routesFrom id)

/-- What the nodes of a plan have given. -/
def Plan.outputs (p : Plan) : Outputs := fun id => {b | b ∈ (p.progressOf id).output}

section Routes

variable {strategy : Strategy} {O O' : Outputs} {routes : List Route}

theorem Route.coherent_of_gives {r : Route} {x : SiteBinding} (h : x ∈ r.gives strategy O) : x.Coherent := by
  obtain ⟨b, _, y, hy, rfl | ⟨_, hx⟩⟩ := h
  · exact (SiteBinding.carryThrough_some hy).1
  · obtain ⟨ts, rfl⟩ := SiteBindingSet.exists_of_mem_parts hx
    exact (SiteBinding.carryThrough_some hy).1.restrict ts

/-- What holds of all that comes along the routes and is kept by joining holds of all that is gathered. -/
theorem gathered_induction {I : SiteBinding → Prop} (hgives : ∀ r ∈ routes, ∀ x ∈ r.gives strategy O, I x)
    (hmerge : ∀ a b, I a → I b → a.conflicts b = false → I (a.merge b)) : ∀ x ∈ Gathered strategy O routes, I x := by
  -- The last route joins what the routes before it have gathered, so the list is taken from its end.
  induction routes using List.reverseRecOn with
  | nil => exact fun x h => absurd h (Set.notMem_empty x)
  | append_singleton l r ih =>
    have hl := ih fun r' hr' => hgives r' (List.mem_append_left _ hr')
    have hr := hgives r (List.mem_append_right _ (List.mem_singleton.2 rfl))
    rw [gathered_concat]
    rintro x (h | h | ⟨a, ha, b, hb, hc, rfl⟩)
    · exact hl x h
    · exact hr x h
    · exact hmerge a b (hl a ha) (hr b hb) hc

/-- What comes along one of the routes is gathered. -/
theorem mem_gathered_of_gives {r : Route} {x : SiteBinding} (hr : r ∈ routes) (hx : x ∈ r.gives strategy O) :
    x ∈ Gathered strategy O routes := by
  induction routes using List.reverseRecOn with
  | nil => cases hr
  | append_singleton l r' ih =>
    rw [gathered_concat]
    rcases List.mem_append.1 hr with hr | hr
    · exact .inl (ih hr)
    · rw [← List.mem_singleton.1 hr]
      exact .inr (.inl hx)

theorem Route.gives_mono {r : Route} (h : O r.producer ⊆ O' r.producer) :
    r.gives strategy O ⊆ r.gives strategy O' := by
  rintro x ⟨b, hb, y, hy, hx⟩
  exact ⟨b, h hb, y, hy, hx⟩

theorem gathered_coherent : ∀ x ∈ Gathered strategy O routes, x.Coherent := by
  apply gathered_induction
  · intro r _ x hx
    exact r.coherent_of_gives hx
  · intro a b ha hb hc
    exact ha.merge hb hc

/-- The order of the routes does not matter. -/
theorem gathered_perm {routes' : List Route} (h : routes.Perm routes') :
    Gathered strategy O routes = Gathered strategy O routes' := by
  have hgives (r : Route) : ∀ x ∈ r.gives strategy O, x.Coherent := fun x hx => r.coherent_of_gives hx
  have hfold (S : Set SiteBinding) (hS : ∀ x ∈ S, x.Coherent) :
      routes.foldl (fun S r => Joined S (r.gives strategy O)) S =
        routes'.foldl (fun S r => Joined S (r.gives strategy O)) S := by
    induction h generalizing S with
    | nil => rfl
    | cons r _ ih => exact ih _ (joined_coherent hS (hgives r))
    | swap r r' l =>
      rw [List.foldl_cons, List.foldl_cons, List.foldl_cons, List.foldl_cons,
        (joined_right_comm_subset hS (hgives r') (hgives r)).antisymm
          (joined_right_comm_subset hS (hgives r) (hgives r'))]
    | trans _ _ ih ih' => exact (ih S hS).trans (ih' S hS)
  exact hfold ∅ fun x hx => absurd hx (Set.notMem_empty x)

/-- More outputs give more. -/
theorem gathered_mono (h : ∀ r ∈ routes, O r.producer ⊆ O' r.producer) :
    Gathered strategy O routes ⊆ Gathered strategy O' routes := by
  induction routes using List.reverseRecOn with
  | nil => exact fun x h => h
  | append_singleton l r ih =>
    rw [gathered_concat, gathered_concat]
    exact joined_mono (ih fun r' hr' => h r' (List.mem_append_left _ hr'))
      (Route.gives_mono (h r (List.mem_append_right _ (List.mem_singleton.2 rfl))))

/-- Of what comes along the routes one site binding may be picked for each wanted route. Picked under one
`f`, they come together. -/
theorem exists_gathered {f : Variable → Option Term} {wanted : Route → Prop} {pick : Route → SiteBinding}
    (h : ∀ r ∈ routes, wanted r → pick r ∈ r.gives strategy O ∧ (pick r).Under f) :
    (∀ r ∈ routes, ¬ wanted r) ∨ ∃ x ∈ Gathered strategy O routes, x.Under f ∧
      ∀ r ∈ routes, wanted r → ∀ s t, (pick r).get? s = some t → x.get? s = some t := by
  induction routes using List.reverseRecOn with
  | nil => exact .inl (by simp)
  | append_singleton l r ih =>
    rw [gathered_concat]
    have hl := ih fun r' hr' => h r' (List.mem_append_left _ hr')
    have hr := h r (List.mem_append_right _ (List.mem_singleton.2 rfl))
    simp only [List.forall_mem_append, List.forall_mem_singleton]
    by_cases hw : wanted r
    · obtain ⟨hg, hf⟩ := hr hw
      rcases hl with hno | ⟨x, hx, hxf, hxs⟩
      · exact .inr ⟨pick r, .inr (.inl hg), hf, fun r' hr' hw' => absurd hw' (hno r' hr'), fun _ _ _ hs => hs⟩
      · refine .inr ⟨x.merge (pick r), .inr (.inr ⟨x, hx, _, hg, hxf.not_conflicts hf, rfl⟩), hxf.merge hf,
          fun r' hr' hw' s t hs => ?_, fun _ s t hs => ?_⟩
        · exact (hxf.get?_merge_iff hf).2 (.inl (hxs r' hr' hw' s t hs))
        · exact (hxf.get?_merge_iff hf).2 (.inr hs)
    · rcases hl with hno | ⟨x, hx, hxf, hxs⟩
      · exact .inl ⟨hno, hw⟩
      · exact .inr ⟨x, .inl hx, hxf, hxs, fun hw' => absurd hw' hw⟩

end Routes

/-! ## The input of a node -/

theorem SiteBindingSet.pattern_combine (s t : SiteBindingSet) : (s.combine t).pattern = s.pattern := by
  unfold SiteBindingSet.combine
  split <;> rfl

theorem SiteBindingSet.pattern_merge (s t : SiteBindingSet) : (s.merge t).pattern = s.pattern := s.pattern_combine t

theorem mem_carryThrough_ofBindings {consequent target : Pattern} {output : BindingSet} {m : Match} {x : SiteBinding} :
    x ∈ ((SiteBindingSet.ofBindings consequent output).carryThrough target [m]).bindings ↔
      ∃ b ∈ output, SiteBinding.carryThrough m (.ofBinding consequent b) = some x := by
  rw [SiteBindingSet.mem_carryThrough]
  simp only [List.mem_singleton, exists_eq_left, SiteBindingSet.mem_ofBindings]
  constructor
  · rintro ⟨_, ⟨b, hb, rfl⟩, hx⟩
    exact ⟨b, hb, hx⟩
  · rintro ⟨b, hb, hx⟩
    exact ⟨_, ⟨b, hb, rfl⟩, hx⟩

/-- What the output of a producer becomes when it is carried through one match is what comes along the route. -/
theorem Route.gives_eq_carried {strategy : Strategy} {consequent target : Pattern} {output : BindingSet} {O : Outputs}
    {producer : NodeId} {m : Match} (hO : O producer = {b | b ∈ output}) :
    {y | y ∈ (if strategy == .biggest then
        ((SiteBindingSet.ofBindings consequent output).carryThrough target [m]).withPartials
      else (SiteBindingSet.ofBindings consequent output).carryThrough target [m]).bindings} =
      (Route.mk producer consequent m).gives strategy O := by
  have hout {b : Binding} : b ∈ O producer ↔ b ∈ output := by
    rw [hO]
    exact .rfl
  ext y
  show y ∈ (if strategy == .biggest then _ else _ : SiteBindingSet).bindings ↔ _
  cases hs : strategy == Strategy.biggest with
  | true =>
    rw [if_pos rfl, SiteBindingSet.mem_withPartials]
    simp only [mem_carryThrough_ofBindings, ← hout]
    constructor
    · rintro (⟨b, hb, hy⟩ | ⟨z, ⟨b, hb, hz⟩, hy⟩)
      · exact ⟨b, hb, y, hy, .inl rfl⟩
      · exact ⟨b, hb, z, hz, .inr ⟨by simpa using hs, hy⟩⟩
    · rintro ⟨b, hb, z, hz, rfl | ⟨_, hy⟩⟩
      · exact .inl ⟨b, hb, hz⟩
      · exact .inr ⟨z, ⟨b, hb, hz⟩, hy⟩
  | false =>
    rw [if_neg (by simp), mem_carryThrough_ofBindings]
    simp only [← hout]
    constructor
    · rintro ⟨b, hb, hy⟩
      exact ⟨b, hb, y, hy, .inl rfl⟩
    · rintro ⟨b, hb, z, hz, rfl | ⟨hb', _⟩⟩
      · exact ⟨b, hb, hz⟩
      · rw [hb'] at hs
        cases hs

/-- What a producer gives through one match is joined with what has come before. -/
theorem Assembly.joinThrough_combined {strategy : Strategy} {consequent : Pattern} {output : BindingSet}
    {isTrigger : Bool} {a : Assembly} {O : Outputs} {producer : NodeId} {m : Match}
    (hO : O producer = {b | b ∈ output}) :
    {x | x ∈ (a.joinThrough strategy (.ofBindings consequent output) isTrigger m).combined.bindings} =
      Joined {x | x ∈ a.combined.bindings} ((Route.mk producer consequent m).gives strategy O) := by
  ext x
  show x ∈ (SiteBindingSet.merge _ _).bindings ↔ _
  rw [SiteBindingSet.mem_merge, ← Route.gives_eq_carried hO]

theorem Route.gives_of_empty {r : Route} {strategy : Strategy} {O : Outputs} (h : O r.producer = ∅) :
    r.gives strategy O = ∅ := by
  ext x
  simp [Route.gives, h]

namespace Plan

variable {p : Plan} {id : NodeId} {n : Node}

theorem joinProducer_combined (a : Assembly) (producer : NodeId) :
    {x | x ∈ (p.joinProducer id n a producer).combined.bindings} =
      (p.graph.routesFrom id producer).foldl (fun S r => Joined S (r.gives p.options.strategy p.outputs))
        {x | x ∈ a.combined.bindings} := by
  unfold joinProducer Graph.routesFrom
  dsimp only
  cases hs : p.graph.node? producer with
  | none => rfl
  | some source =>
    dsimp only
    cases hm : source.matchesTo? id with
    | none => split <;> rfl
    | some found =>
      dsimp only
      rw [List.foldl_map]
      generalize found.toList = l
      split
      -- A producer that has given nothing is skipped; joining with nothing would change nothing either.
      · next he =>
        have hnone : p.outputs producer = ∅ := Set.ext fun b =>
          iff_of_false (InsertionSet.isEmpty_iff.1 he b) (Set.notMem_empty b)
        induction l with
        | nil => rfl
        | cons m l ih => rw [List.foldl_cons, Route.gives_of_empty hnone, joined_empty, ← ih]
      · induction l generalizing a with
        | nil => rfl
        | cons m l ih =>
          rw [List.foldl_cons, List.foldl_cons, ih, Assembly.joinThrough_combined (O := p.outputs) rfl]

theorem joinProducer_pattern (a : Assembly) (producer : NodeId) :
    (p.joinProducer id n a producer).combined.pattern = a.combined.pattern := by
  unfold joinProducer
  dsimp only
  split
  · rfl
  · split
    · rfl
    · split
      · rfl
      · next found _ =>
        generalize found.toList = l
        induction l generalizing a with
        | nil => rfl
        | cons m l ih =>
          rw [List.foldl_cons, ih]
          exact SiteBindingSet.pattern_merge _ _

/-- The site bindings that the input of a node is taken from. -/
def gathered (p : Plan) (id : NodeId) (n : Node) : Set SiteBinding :=
  Gathered p.options.strategy p.outputs (p.graph.routes id n)

theorem joinProducers_combined (l : List NodeId) (a : Assembly) :
    {x | x ∈ (l.foldl (p.joinProducer id n) a).combined.bindings} =
      (l.flatMap (p.graph.routesFrom id)).foldl (fun S r => Joined S (r.gives p.options.strategy p.outputs))
        {x | x ∈ a.combined.bindings} ∧
      (l.foldl (p.joinProducer id n) a).combined.pattern = a.combined.pattern := by
  induction l generalizing a with
  | nil => exact ⟨rfl, rfl⟩
  | cons d l ih =>
    obtain ⟨hset, hpat⟩ := ih (p.joinProducer id n a d)
    rw [List.foldl_cons, hset, hpat, List.flatMap_cons, List.foldl_append, joinProducer_combined, joinProducer_pattern]
    exact ⟨rfl, rfl⟩

/-- The bindings by name of those that bind the whole antecedent. -/
theorem mem_full_joined {b : Binding} :
    b ∈ ((n.allProducers.map (·.1)).foldl (p.joinProducer id n) (.empty n.rule.antecedent)).combined.full.toBindings ↔
      ∃ x ∈ p.gathered id n, x.covers (Pattern.variableSites n.rule.antecedent) = true ∧ x.toBinding = b := by
  obtain ⟨hset, hpat⟩ := @joinProducers_combined p id n (n.allProducers.map (·.1))
    (.empty n.rule.antecedent)
  have hmem (x : SiteBinding) : x ∈ ((n.allProducers.map (·.1)).foldl (p.joinProducer id n)
      (.empty n.rule.antecedent)).combined.bindings ↔ x ∈ p.gathered id n := by
    have hempty : {x | x ∈ (Assembly.empty n.rule.antecedent).combined.bindings} = (∅ : Set SiteBinding) :=
      Set.ext fun x => iff_of_false SiteBindingSet.not_mem_empty (Set.notMem_empty x)
    rw [hempty] at hset
    exact iff_of_eq (congrArg (x ∈ ·) hset)
  rw [SiteBindingSet.mem_toBindings]
  simp only [SiteBindingSet.mem_full, hmem, hpat, and_assoc]
  rfl

theorem nodeInput_of_empty (h : n.rule.antecedent.isEmpty = true) : p.nodeInput id n = (p.progressOf id).demand :=
  if_pos h

/-- Whatever a node with an antecedent takes in binds the whole of it. -/
theorem exists_of_mem_nodeInput (h : n.rule.antecedent.isEmpty = false) {b : Binding} (hb : b ∈ p.nodeInput id n) :
    ∃ x ∈ p.gathered id n, x.covers (Pattern.variableSites n.rule.antecedent) = true ∧ x.toBinding = b := by
  rw [← mem_full_joined]
  unfold nodeInput at hb
  dsimp only at hb
  rw [if_neg (by simp [h])] at hb
  split at hb
  · unfold BindingSet.keepCompatible at hb
    split at hb
    · exact hb
    · exact (InsertionSet.mem_filter.1 hb).1
  · obtain ⟨x, hx, rfl⟩ := SiteBindingSet.mem_toBindings.1 hb
    exact SiteBindingSet.mem_toBindings.2 ⟨x, SiteBindingSet.mem_keepFullIncorporating_full hx, rfl⟩

/-- A demand lets a binding pass. -/
def Passes (demand : BindingSet) (b : Binding) : Prop :=
  (demand.isEmpty || demand.any Binding.isEmpty) = true ∨ ∃ d ∈ demand, b.compatible d = true

theorem mem_keepCompatible {s demand : BindingSet} {b : Binding} :
    b ∈ s.keepCompatible demand ↔ b ∈ s ∧ Passes demand b := by
  unfold BindingSet.keepCompatible Passes
  split
  · next h => simp [h]
  · next h => simp [h, InsertionSet.mem_filter, InsertionSet.any_iff]

/-- The input of a node that continues no other. -/
theorem mem_nodeInput (h : n.rule.antecedent.isEmpty = false) (ht : n.triggers.isEmpty = true) {b : Binding} :
    b ∈ p.nodeInput id n ↔
      (∃ x ∈ p.gathered id n, x.covers (Pattern.variableSites n.rule.antecedent) = true ∧ x.toBinding = b) ∧
        Passes (p.progressOf id).demand b := by
  rw [← mem_full_joined, ← mem_keepCompatible]
  unfold nodeInput
  dsimp only
  rw [if_neg (by simp [h]), if_pos ht]

/-- A site binding that binds a whole pattern binds its variables. -/
theorem exists_valueOf? {x : SiteBinding} {pattern : Pattern} (hc : x.Coherent)
    (hcovers : x.covers (Pattern.variableSites pattern) = true) {v : Variable} (hv : v ∈ Pattern.vars pattern) :
    ∃ t, x.valueOf? v = some t := by
  obtain ⟨a, ha, hva⟩ := Pattern.mem_vars.1 hv
  obtain ⟨i, hi⟩ := Triple.mem_vars.1 hva
  have hsite : a.site i ∈ Pattern.variableSites pattern :=
    Pattern.mem_variableSites.2 ⟨ha, Term.isVariable_iff.2 ⟨v, hi⟩⟩
  obtain ⟨t, ht⟩ := SiteBinding.covers_iff.1 hcovers _ hsite
  obtain ⟨w, hw, hval⟩ := hc.site _ t ht
  have hvw : (a.site i).toVariable? = some v := Term.toVariable?_eq_some.2 hi
  rw [hw] at hvw
  cases hvw
  exact ⟨t, hval⟩

/-- The input of a node binds all variables of its antecedent. -/
theorem bound_of_mem_nodeInput {b : Binding} (hb : b ∈ p.nodeInput id n) {v : Variable}
    (hv : v ∈ Pattern.vars n.rule.antecedent) : ∃ t, b.get? v = some t := by
  have hne : n.rule.antecedent.isEmpty = false := by
    obtain ⟨a, ha, _⟩ := Pattern.mem_vars.1 hv
    exact SortedSet.isEmpty_eq_false ha
  obtain ⟨x, hx, hcovers, rfl⟩ := exists_of_mem_nodeInput hne hb
  obtain ⟨t, ht⟩ := exists_valueOf? (gathered_coherent x hx) hcovers hv
  exact ⟨t, by rw [SiteBinding.get?_toBinding, ht]⟩

/-- The more has been given along the routes, the more goes in. -/
theorem nodeInput_mono_of_routes {q : Plan} (hg : q.graph = p.graph) (hs : q.options.strategy = p.options.strategy)
    (hd : (q.progressOf id).demand = (p.progressOf id).demand) (ht : n.triggers.isEmpty = true)
    (ho : ∀ r ∈ q.graph.routes id n, q.outputs r.producer ⊆ p.outputs r.producer) {b : Binding}
    (hb : b ∈ q.nodeInput id n) : b ∈ p.nodeInput id n := by
  cases hne : n.rule.antecedent.isEmpty with
  | true =>
    rw [nodeInput_of_empty hne] at hb ⊢
    rwa [← hd]
  | false =>
    rw [mem_nodeInput hne ht] at hb ⊢
    rw [← hd]
    obtain ⟨⟨x, hx, hcovers⟩, hpass⟩ := hb
    refine ⟨⟨x, ?_, hcovers⟩, hpass⟩
    unfold gathered at hx ⊢
    rw [← hg, ← hs]
    exact gathered_mono ho hx

end Plan

end TripleChain
