import TripleChain.Proofs.Assertions
import TripleChain.Proofs.MatchSearch
/-!
# What site bindings keep to

Whatever is done with sets of site bindings, each of them stays faithful to the pattern of its set
(`SiteBinding.Faithful`): it binds only sites that hold a variable, the sites of one variable hold one term, and the
terms by name are those of the sites. A set is taken here together with the operations that it was put together by
(`SiteBindingSet.Recipe`), and the invariant is shown operation by operation (`Recipe.invariant`). With it the check in
`put` never fails, so that the operations under the assertion give what they give without it
(`Recipe.asserted?_faithful`).
-/

namespace TripleChain

namespace SiteBinding

variable {p : Pattern} {x y : SiteBinding}

/-- The sites are sites of the pattern that hold a variable, all sites of a variable have the same term, and the terms
by name are those of the sites, so that nothing is lost when the sites are forgotten. -/
structure Faithful (p : Pattern) (x : SiteBinding) : Prop where
  site : ∀ s t, x.get? s = some t → s ∈ p.variableSites
  alike : ∀ s s' t t', s.toVariable? = s'.toVariable? → x.get? s = some t → x.get? s' = some t' → t = t'
  projection : ∀ v t, x.valueOf? v = some t ↔ ∃ s, s.toVariable? = some v ∧ x.get? s = some t
  shown : ∀ s t, x.get? s = some t → ∃ v, s.toVariable? = some v ∧ x.toBinding.get? v = some t

/-- All bound sites are in triples of the pattern. -/
def Inside (p : Pattern) (x : SiteBinding) : Prop := ∀ s t, x.get? s = some t → s.triple ∈ p

theorem Coherent.faithful (h : x.Coherent) (hp : x.Inside p) : x.Faithful p where
  site s t hs := by
    obtain ⟨v, hv, _⟩ := h.site s t hs
    exact Pattern.mem_variableSites.2 ⟨hp s t hs, Term.isVariable_iff.2 ⟨v, Term.toVariable?_eq_some.1 hv⟩⟩
  alike s s' t t' heq hs hs' := by
    obtain ⟨v, hv, ht⟩ := h.site s t hs
    obtain ⟨v', hv', ht'⟩ := h.site s' t' hs'
    obtain rfl : v = v' := Option.some.inj (hv.symm.trans (heq.trans hv'))
    exact Option.some.inj (ht.symm.trans ht')
  projection _ _ := h.valueOf?_iff
  shown s t hs := h.site s t hs

theorem Faithful.coherent (h : x.Faithful p) : x.Coherent :=
  ⟨h.shown, fun v t ht => (h.projection v t).1 ht, fun _ _ ht => ht⟩

theorem Faithful.inside (h : x.Faithful p) : x.Inside p := fun s t hs => (Pattern.mem_variableSites.1 (h.site s t hs)).1

/-! ## What single operations keep -/

theorem inside_ofBinding (p : Pattern) (b : Binding) : (ofBinding p b).Inside p :=
  fun _ _ h => (get?_ofBinding_iff.1 h).1

theorem Inside.restrict (hx : x.Coherent) (hp : x.Inside p) (triples : List Triple) : (x.restrict triples).Inside p :=
  fun s t h => hp s t (hx.get?_restrict_iff.1 h).1

theorem Inside.merge (hx : x.Coherent) (hy : y.Coherent) (hc : x.conflicts y = false) (hpx : x.Inside p)
    (hpy : y.Inside p) : (x.merge y).Inside p := by
  obtain ⟨f, hfx, hfy, _⟩ := exists_under hx hy hc
  intro s t h
  rcases (hfx.get?_merge_iff hfy).1 h with h | h
  · exact hpx s t h
  · exact hpy s t h

/-- What comes through a match is in the triples that the match leads to. -/
theorem inside_carryThrough {target : Pattern} {m : Match} (hm : ∀ e ∈ m.triples.entries, e.2 ∈ target)
    (h : carryThrough m y = some x) : x.Inside target := by
  intro s t hs
  obtain ⟨e, he, _, i, rfl, _⟩ := ((carryThrough_some h).2.1 s t).1 hs
  exact hm e he

end SiteBinding

namespace SiteBindingSet

/-! ## Sets -/

/-- A set over the pattern in which every site binding is faithful to it. -/
structure Invariant (p : Pattern) (s : SiteBindingSet) : Prop where
  pattern : s.pattern = p
  coherent : ∀ x ∈ s.bindings, x.Coherent
  inside : ∀ x ∈ s.bindings, x.Inside p

variable {p : Pattern} {s t : SiteBindingSet}

theorem Invariant.of_forall (hp : s.pattern = p) (h : ∀ x ∈ s.bindings, x.Coherent ∧ x.Inside p) : s.Invariant p :=
  ⟨hp, fun x hx => (h x hx).1, fun x hx => (h x hx).2⟩

theorem invariant_iff : s.Invariant p ↔ s.pattern = p ∧ ∀ x ∈ s.bindings, x.Faithful p := by
  constructor
  · exact fun h => ⟨h.pattern, fun x hx => (h.coherent x hx).faithful (h.inside x hx)⟩
  · rintro ⟨hp, h⟩
    exact ⟨hp, fun x hx => (h x hx).coherent, fun x hx => (h x hx).inside⟩

theorem invariant_ofBindings (p : Pattern) (b : BindingSet) : (ofBindings p b).Invariant p := by
  refine Invariant.of_forall rfl fun x hx => ?_
  obtain ⟨b, _, rfl⟩ := mem_ofBindings.1 hx
  exact ⟨(SiteBinding.ofBinding_under p b).coherent, SiteBinding.inside_ofBinding p b⟩

theorem Invariant.extend (hs : s.Invariant p) (ht : t.Invariant p) : (s.extend t).Invariant p := by
  refine Invariant.of_forall hs.pattern fun x hx => ?_
  rcases mem_extend.1 hx with hx | hx
  · exact ⟨hs.coherent x hx, hs.inside x hx⟩
  · exact ⟨ht.coherent x hx, ht.inside x hx⟩

/-- Only what does not conflict is joined. -/
theorem Invariant.combine (hs : s.Invariant p) (ht : t.Invariant p) : (s.combine t).Invariant p := by
  refine Invariant.of_forall ((pattern_combine s t).trans hs.pattern) fun x hx => ?_
  rcases mem_combine.1 hx with ⟨_, hx | hx⟩ | ⟨a, ha, b, hb, hc, rfl⟩
  · exact ⟨hs.coherent x hx, hs.inside x hx⟩
  · exact ⟨ht.coherent x hx, ht.inside x hx⟩
  · have hca := hs.coherent a ha
    have hcb := ht.coherent b hb
    exact ⟨hca.merge hcb hc, .merge hca hcb hc (hs.inside a ha) (ht.inside b hb)⟩

theorem Invariant.merge (hs : s.Invariant p) (ht : t.Invariant p) : (s.merge t).Invariant p :=
  ((hs.combine ht).extend ht).extend hs

theorem invariant_carryThrough (s : SiteBindingSet) {target : Pattern} {ms : List Match}
    (hm : ∀ m ∈ ms, ∀ e ∈ m.triples.entries, e.2 ∈ target) : (s.carryThrough target ms).Invariant target := by
  refine Invariant.of_forall rfl fun x hx => ?_
  obtain ⟨m, hmem, y, _, hcarry⟩ := mem_carryThrough.1 hx
  exact ⟨(SiteBinding.carryThrough_some hcarry).1, SiteBinding.inside_carryThrough (hm m hmem) hcarry⟩

theorem Invariant.filter (hs : s.Invariant p) (f : SiteBinding → Bool) : (s.filter f).Invariant p := by
  refine Invariant.of_forall hs.pattern fun x hx => ?_
  have hmem : x ∈ s.bindings := (InsertionSet.mem_filter.1 hx).1
  exact ⟨hs.coherent x hmem, hs.inside x hmem⟩

theorem Invariant.keepCompatible (hs : s.Invariant p) (t : SiteBindingSet) : (s.keepCompatible t).Invariant p := by
  unfold SiteBindingSet.keepCompatible
  split
  · exact hs
  · exact hs.filter _

theorem Invariant.withPartials (hs : s.Invariant p) : s.withPartials.Invariant p := by
  refine Invariant.of_forall hs.pattern fun x hx => ?_
  rcases mem_withPartials.1 hx with hx | ⟨y, hy, hx⟩
  · exact ⟨hs.coherent x hx, hs.inside x hx⟩
  · obtain ⟨triples, rfl⟩ := exists_of_mem_parts hx
    exact ⟨(hs.coherent y hy).restrict triples, .restrict (hs.coherent y hy) (hs.inside y hy) triples⟩

theorem Invariant.restrictionsOver (hs : s.Invariant p) (triples : SortedSet Triple) :
    (s.restrictionsOver triples).Invariant p := by
  refine Invariant.of_forall hs.pattern fun x hx => ?_
  obtain ⟨y, hy, part, _, rfl⟩ := mem_restrictionsOver.1 hx
  exact ⟨(hs.coherent y hy).restrict part, .restrict (hs.coherent y hy) (hs.inside y hy) part⟩

/-! ## Sets as they are put together -/

/-- The operations by which a set over a pattern is put together. Two sets are only taken together if they are over the
same pattern, and a match only carries to triples of the pattern it is taken to. -/
inductive Recipe : Pattern → Type
  | spread (p : Pattern) (b : BindingSet) : Recipe p
  | extend {p : Pattern} (r u : Recipe p) : Recipe p
  | combine {p : Pattern} (r u : Recipe p) : Recipe p
  | merge {p : Pattern} (r u : Recipe p) : Recipe p
  | carryThrough {p : Pattern} (r : Recipe p) (target : Pattern) (ms : List Match)
      (h : ∀ m ∈ ms, ∀ e ∈ m.triples.entries, e.2 ∈ target) : Recipe target
  | keepCompatible {p : Pattern} (r u : Recipe p) : Recipe p
  | keepFullIncorporating {p : Pattern} (r triggers : Recipe p) : Recipe p
  | full {p : Pattern} (r : Recipe p) : Recipe p
  | partials {p : Pattern} (r : Recipe p) : Recipe p
  | withPartials {p : Pattern} (r : Recipe p) : Recipe p
  | restrictionsOver {p : Pattern} (r : Recipe p) (triples : SortedSet Triple) : Recipe p

namespace Recipe

/-- A set carried through all matches between its pattern and another. -/
def translate {p : Pattern} (r : Recipe p) (target : Pattern) (strategy : Strategy) : Recipe target :=
  r.carryThrough target (findMatches p target strategy).toList fun m hm e he =>
    ((findMatches_between m (SortedSet.mem_def.2 hm)).mem e he).2.1

/-- The set that comes of it. -/
def made {p : Pattern} : Recipe p → SiteBindingSet
  | spread p b => ofBindings p b
  | extend r u => r.made.extend u.made
  | combine r u => r.made.combine u.made
  | merge r u => r.made.merge u.made
  | carryThrough r target ms _ => r.made.carryThrough target ms
  | keepCompatible r u => r.made.keepCompatible u.made
  | keepFullIncorporating r triggers => r.made.keepFullIncorporating triggers.made
  | full r => r.made.full
  | partials r => r.made.partials
  | withPartials r => r.made.withPartials
  | restrictionsOver r triples => r.made.restrictionsOver triples

/-- The set that comes of it if the assertion in `put` never fails. -/
def asserted? {p : Pattern} : Recipe p → Option SiteBindingSet
  | spread p b => assertOfBindings? p b
  | extend r u => do return (← r.asserted?).extend (← u.asserted?)
  | combine r u => do (← r.asserted?).assertCombine? (← u.asserted?)
  | merge r u => do (← r.asserted?).assertMerge? (← u.asserted?)
  | carryThrough r target ms _ => do (← r.asserted?).assertCarryThrough? target ms
  | keepCompatible r u => do return (← r.asserted?).keepCompatible (← u.asserted?)
  | keepFullIncorporating r triggers => do return (← r.asserted?).keepFullIncorporating (← triggers.asserted?)
  | full r => do return (← r.asserted?).full
  | partials r => do return (← r.asserted?).partials
  | withPartials r => do (← r.asserted?).assertWithPartials?
  | restrictionsOver r triples => do (← r.asserted?).assertRestrictionsOver? triples

theorem invariant {p : Pattern} (r : Recipe p) : r.made.Invariant p := by
  induction r with
  | spread p b => exact invariant_ofBindings p b
  | extend r u hr hu => exact hr.extend hu
  | combine r u hr hu => exact hr.combine hu
  | merge r u hr hu => exact hr.merge hu
  | carryThrough r target ms h _ => exact invariant_carryThrough r.made h
  | keepCompatible r u hr hu => exact hr.keepCompatible _
  | keepFullIncorporating r triggers hr htriggers => exact (hr.filter _).filter _
  | full r hr => exact hr.filter _
  | partials r hr => exact hr.filter _
  | withPartials r hr => exact hr.withPartials
  | restrictionsOver r triples hr => exact hr.restrictionsOver triples

/-- The assertion never fails. -/
theorem asserted?_eq {p : Pattern} (r : Recipe p) : r.asserted? = some r.made := by
  induction r with
  | spread p b => exact assertOfBindings?_eq p b
  | extend r u hr hu => rw [asserted?, hr, hu]; rfl
  | combine r u hr hu =>
    rw [asserted?, hr, hu]
    exact assertCombine?_eq r.invariant.coherent u.invariant.coherent
  | merge r u hr hu =>
    rw [asserted?, hr, hu]
    exact assertMerge?_eq r.invariant.coherent u.invariant.coherent
  | carryThrough r target ms h hr =>
    rw [asserted?, hr]
    exact assertCarryThrough?_eq r.made target ms
  | keepCompatible r u hr hu => rw [asserted?, hr, hu]; rfl
  | keepFullIncorporating r triggers hr htriggers => rw [asserted?, hr, htriggers]; rfl
  | full r hr => rw [asserted?, hr]; rfl
  | partials r hr => rw [asserted?, hr]; rfl
  | withPartials r hr =>
    rw [asserted?, hr]
    exact assertWithPartials?_eq r.invariant.coherent
  | restrictionsOver r triples hr =>
    rw [asserted?, hr]
    exact assertRestrictionsOver?_eq r.invariant.coherent triples

/-- However a set over a pattern is put together, no assertion fails on the way and all its site bindings are faithful
to the pattern. -/
theorem asserted?_faithful {p : Pattern} (r : Recipe p) : r.asserted? = some r.made ∧ r.made.pattern = p ∧
    ∀ x ∈ r.made.bindings, x.Faithful p := by
  refine ⟨r.asserted?_eq, r.invariant.pattern, ?_⟩
  intro x hx
  exact (r.invariant.coherent x hx).faithful (r.invariant.inside x hx)

example :
    let known : Recipe (.singleton ⟨.var ⟨"x"⟩, .iri "knows", .var ⟨"y"⟩⟩) :=
      .spread _ (.singleton (.ofList [(⟨"x"⟩, .iri "ann")]))
    let carried := known.translate (.singleton ⟨.var ⟨"u"⟩, .iri "knows", .var ⟨"w"⟩⟩) .all
    carried.made.toBindings.toList = [.ofList [(⟨"u"⟩, .iri "ann")]] := by decide

end Recipe

end SiteBindingSet

end TripleChain
