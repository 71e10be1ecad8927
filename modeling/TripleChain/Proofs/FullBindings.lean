import TripleChain.Proofs.SiteInvariant
/-!
# Full bindings by name and by site

A binding by name is spread over the sites of a pattern and collapsed to names again. Of any binding there is left what
it gives to the variables of the pattern (`SiteBinding.toBinding_ofBinding`), and it fills all sites just when it binds
all these variables (`SiteBinding.covers_ofBinding_iff`). A site binding is made up of its names when it is full
(`SiteBinding.Coherent.ofBinding_toBinding`); one that is not full comes back larger when a variable has a bound site
and a free one. So sets of full bindings can be taken either way (`SiteBindingSet.names_and_sites_agree`).
-/

namespace TripleChain

namespace Pattern

/-- The variables of a pattern are those at its sites. -/
theorem mem_vars_iff_site {p : Pattern} {v : Variable} :
    v ∈ p.vars ↔ ∃ s ∈ p.variableSites, s.toVariable? = some v := by
  rw [mem_vars]
  constructor
  · rintro ⟨t, ht, hv⟩
    obtain ⟨i, hi⟩ := Triple.mem_vars.1 hv
    have hvar : (t.site i).toVariable? = some v := Term.toVariable?_eq_some.2 hi
    exact ⟨t.site i, mem_variableSites.2 ⟨ht, Term.isVariable_iff.2 ⟨v, hi⟩⟩, hvar⟩
  · rintro ⟨s, hs, hv⟩
    exact ⟨s.triple, (mem_variableSites.1 hs).1, Triple.mem_vars.2 ⟨s.position, Term.toVariable?_eq_some.1 hv⟩⟩

end Pattern

namespace SiteBinding

variable {p : Pattern} {b : Binding} {x : SiteBinding}

/-- A site of the pattern gets the term of its variable. -/
theorem get?_ofBinding {s : Site} {v : Variable} (hs : s ∈ p.variableSites) (hv : s.toVariable? = some v) :
    (ofBinding p b).get? s = b.get? v := by
  refine Option.ext fun t => ?_
  rw [get?_ofBinding_iff, and_iff_right (Pattern.mem_variableSites.1 hs).1]
  constructor
  · rintro ⟨w, hw, ht⟩
    obtain rfl : v = w := Option.some.inj (hv.symm.trans hw)
    exact ht
  · exact fun ht => ⟨v, hv, ht⟩

/-- Spread and collapsed, a binding keeps what it gives to the variables of the pattern. -/
theorem toBinding_ofBinding (p : Pattern) (b : Binding) : (ofBinding p b).toBinding = b.restrict p.vars := by
  have hcoherent := (ofBinding_under p b).coherent
  refine Binding.ext_get? fun v => ?_
  rw [get?_toBinding, Binding.get?_restrict]
  split
  · next hv =>
    obtain ⟨s, hs, hsv⟩ := Pattern.mem_vars_iff_site.1 hv
    refine Option.ext fun t => ?_
    rw [hcoherent.valueOf?_iff]
    constructor
    · rintro ⟨s', hs'v, ht⟩
      obtain ⟨w, hw, hb⟩ := (get?_ofBinding_iff.1 ht).2
      obtain rfl : v = w := Option.some.inj (hs'v.symm.trans hw)
      exact hb
    · intro ht
      exact ⟨s, hsv, (get?_ofBinding hs hsv).trans ht⟩
  · next hv =>
    refine Option.eq_none_iff_forall_ne_some.2 fun t ht => hv ?_
    obtain ⟨s, hsv, hs⟩ := hcoherent.held v t ht
    exact Pattern.mem_vars_iff_site.2 ⟨s, (hcoherent.faithful (inside_ofBinding p b)).site s t hs, hsv⟩

/-- All sites are filled just when all variables are bound. -/
theorem covers_ofBinding_iff :
    (ofBinding p b).covers p.variableSites = true ↔ ∀ v ∈ p.vars, ∃ t, b.get? v = some t := by
  rw [covers_iff]
  constructor
  · intro h v hv
    obtain ⟨s, hs, hsv⟩ := Pattern.mem_vars_iff_site.1 hv
    rw [← get?_ofBinding hs hsv]
    exact h s hs
  · intro h s hs
    obtain ⟨v, hv⟩ := Term.isVariable_iff.1 (Pattern.mem_variableSites.1 hs).2
    have hsv : s.toVariable? = some v := Term.toVariable?_eq_some.2 hv
    rw [get?_ofBinding hs hsv]
    exact h v (Pattern.mem_vars_iff_site.2 ⟨s, hs, hsv⟩)

/-- A full binding is its names spread over the pattern. -/
theorem Coherent.ofBinding_toBinding (hx : x.Coherent) (hin : x.Inside p) (hfull : x.covers p.variableSites = true) :
    ofBinding p x.toBinding = x := by
  refine (ofBinding_under p _).coherent.ext hx fun s => Option.ext fun t => ?_
  constructor
  · intro h
    obtain ⟨hs, v, hv, ht⟩ := get?_ofBinding_iff.1 h
    have hsite : s ∈ p.variableSites :=
      Pattern.mem_variableSites.2 ⟨hs, Term.isVariable_iff.2 ⟨v, Term.toVariable?_eq_some.1 hv⟩⟩
    -- The site holds something, and that can only be the term of its variable.
    obtain ⟨u, hu⟩ := covers_iff.1 hfull s hsite
    have hvu : x.valueOf? v = some u := hx.valueOf?_iff.2 ⟨s, hv, hu⟩
    rw [get?_toBinding, hvu] at ht
    exact ht ▸ hu
  · intro h
    exact get?_ofBinding_iff.2 ⟨hin s t h, hx.site s t h⟩

end SiteBinding

namespace SiteBindingSet

variable {p : Pattern} {s : SiteBindingSet}

/-- Full bindings are taken to names and back one by one. -/
theorem Invariant.full_toBindings (hs : s.Invariant p) :
    ofBindings p s.full.toBindings = s.full ∧ s.full.toBindings.size = s.full.size := by
  have hback : ∀ x ∈ s.full.bindings, SiteBinding.ofBinding p x.toBinding = x := by
    intro x hx
    obtain ⟨hmem, hcovers⟩ := mem_full.1 hx
    rw [hs.pattern] at hcovers
    exact (hs.coherent x hmem).ofBinding_toBinding (hs.inside x hmem) hcovers
  obtain ⟨hmap, hsize⟩ := InsertionSet.map_map_eq_self hback
  refine ⟨?_, hsize⟩
  calc ofBindings p s.full.toBindings = ⟨p, s.full.bindings⟩ := congrArg (SiteBindingSet.mk p) hmap
    _ = ⟨s.full.pattern, s.full.bindings⟩ := congrArg (SiteBindingSet.mk · s.full.bindings) hs.pattern.symm

/-- By name and by site full bindings are the same. A binding by name, spread over a pattern and collapsed again, is
what it gives to the variables of the pattern, and it is full when it binds them all. The full bindings of a set that
keeps to the pattern are taken to names and back without any two of them becoming one and without any changing. -/
theorem names_and_sites_agree (p : Pattern) :
    (∀ b : Binding, (SiteBinding.ofBinding p b).toBinding = b.restrict p.vars ∧
      ((empty p).isFull (.ofBinding p b) = true ↔ ∀ v ∈ p.vars, ∃ t, b.get? v = some t)) ∧
    ∀ s : SiteBindingSet, s.Invariant p →
      ofBindings p s.full.toBindings = s.full ∧ s.full.toBindings.size = s.full.size := by
  constructor
  · intro b
    exact ⟨SiteBinding.toBinding_ofBinding p b, SiteBinding.covers_ofBinding_iff⟩
  · intro s hs
    exact hs.full_toBindings

/-- Of those who know themselves two know someone too. With their parts added, these two are the full bindings and come
back from their names; the parts do not, since one name fills the sites of both triples. -/
theorem knowing_themselves_by_name :
    let pattern : Pattern := .ofList [⟨.var ⟨"x"⟩, .iri "knows", .var ⟨"x"⟩⟩, ⟨.var ⟨"x"⟩, .iri "knows", .var ⟨"y"⟩⟩]
    let known := (ofBindings pattern (.ofList [.ofList [(⟨"x"⟩, .iri "ann"), (⟨"y"⟩, .iri "bob")],
      .ofList [(⟨"x"⟩, .iri "bob"), (⟨"y"⟩, .iri "bob")], .ofList [(⟨"x"⟩, .iri "cas")]])).withPartials
    known.Invariant pattern ∧ known.full.size = 2 ∧ (ofBindings pattern known.toBindings).same known = false ∧
      ofBindings pattern known.full.toBindings = known.full ∧ known.full.toBindings.size = known.full.size := by
  intro pattern known
  have hknown : known.Invariant pattern := (invariant_ofBindings _ _).withPartials
  exact ⟨hknown, by decide, by decide, (names_and_sites_agree pattern).2 known hknown⟩

end SiteBindingSet

end TripleChain
