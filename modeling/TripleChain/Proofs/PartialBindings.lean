import TripleChain.Proofs.MergedSets
/-!
# Partial bindings

A consumer that matches only some triples of a producer needs the part of a binding in these triples. The parts of a
binding are its non-empty restrictions (`SiteBinding.Coherent.mem_parts_iff`), and a restriction of a restriction is a
restriction again. So the parts of a part are parts of the whole, and to add them is a closure
(`SiteBindingSet.withPartials_is_closure`).
-/

namespace TripleChain

namespace SiteBinding

variable {x y z : SiteBinding} {ts : SortedSet Triple}

/-- What `y` binds in the given triples: the sites there, and the variables that have a bound site there. -/
structure IsRestriction (x y : SiteBinding) (ts : SortedSet Triple) : Prop where
  sites : ∀ s t, x.get? s = some t ↔ y.get? s = some t ∧ s.triple ∈ ts
  vars : ∀ v t, x.valueOf? v = some t ↔ ∃ s, s.toVariable? = some v ∧ y.get? s = some t ∧ s.triple ∈ ts

/-- A binding has one restriction to a set of triples. -/
theorem IsRestriction.ext (hx : x.IsRestriction z ts) (hy : y.IsRestriction z ts) : x = y :=
  ext_get? (fun s => Option.ext fun t => (hx.sites s t).trans (hy.sites s t).symm)
    fun v => Option.ext fun t => (hx.vars v t).trans (hy.vars v t).symm

theorem Coherent.isRestriction_restrict (h : y.Coherent) (ts : SortedSet Triple) :
    (y.restrict ts.toList).IsRestriction y ts := by
  have hsites (s : Site) (t : Term) : (y.restrict ts.toList).get? s = some t ↔ y.get? s = some t ∧ s.triple ∈ ts :=
    h.get?_restrict_iff
  refine ⟨hsites, fun v t => ?_⟩
  rw [(h.restrict ts.toList).valueOf?_iff]
  simp only [hsites]

theorem Coherent.restrict_eq_iff (h : y.Coherent) : y.restrict ts.toList = x ↔ x.IsRestriction y ts := by
  constructor
  · rintro rfl
    exact h.isRestriction_restrict ts
  · exact fun hx => (h.isRestriction_restrict ts).ext hx

/-- Of the triples listed only the set counts. -/
theorem Coherent.exists_restrict_iff (h : y.Coherent) {P : Triple → Prop} :
    (∃ l : List Triple, (∀ t ∈ l, P t) ∧ y.restrict l = x) ↔
      ∃ ts : SortedSet Triple, (∀ t ∈ ts, P t) ∧ x.IsRestriction y ts := by
  constructor
  · rintro ⟨l, hl, rfl⟩
    refine ⟨.ofList l, fun t ht => hl t (SortedSet.mem_ofList.1 ht), h.restrict_eq_iff.1 ?_⟩
    exact restrict_congr fun t => SortedSet.mem_ofList
  · rintro ⟨ts, hts, hx⟩
    exact ⟨ts.toList, hts, h.restrict_eq_iff.2 hx⟩

/-- Restricting twice keeps the triples that both times are kept. -/
theorem Coherent.restrict_restrict (h : y.Coherent) (l l' : List Triple) :
    (y.restrict l).restrict l' = y.restrict (l.filter (· ∈ l')) := by
  refine ((h.restrict l).restrict l').ext (h.restrict _) fun s => Option.ext fun t => ?_
  rw [(h.restrict l).get?_restrict_iff, h.get?_restrict_iff, h.get?_restrict_iff, List.mem_filter, decide_eq_true_iff,
    and_assoc]

/-- Triples that a binding does not touch make no difference. -/
theorem Coherent.restrict_touched (h : y.Coherent) (l : List Triple) :
    y.restrict (l.filter (· ∈ y.touched)) = y.restrict l := by
  refine (h.restrict _).ext (h.restrict l) fun s => Option.ext fun t => ?_
  rw [h.get?_restrict_iff, h.get?_restrict_iff, List.mem_filter, decide_eq_true_iff]
  refine and_congr_right fun hs => and_iff_left ?_
  exact mem_touched.2 ⟨s, t, hs, rfl⟩

/-- In a triple that a binding touches something is bound. -/
theorem IsRestriction.isEmpty_eq_false_iff (h : x.IsRestriction y ts) (hts : ∀ t ∈ ts, t ∈ y.touched) :
    x.isEmpty = false ↔ ts.isEmpty = false := by
  constructor
  · intro hx
    obtain ⟨s, t, hs⟩ := SiteBinding.isEmpty_eq_false_iff.1 hx
    exact SortedSet.isEmpty_eq_false ((h.sites s t).1 hs).2
  · intro hne
    obtain ⟨t, ht⟩ := SortedSet.exists_mem hne
    obtain ⟨s, u, hs, rfl⟩ := mem_touched.1 (hts t ht)
    exact SiteBinding.isEmpty_eq_false_iff.2 ⟨s, u, (h.sites s u).2 ⟨hs, ht⟩⟩

/-! ## Parts -/

/-- The parts of a binding are its restrictions that bind something. -/
theorem Coherent.mem_parts_iff (h : y.Coherent) :
    x ∈ SiteBindingSet.parts y ↔ (∃ l, y.restrict l = x) ∧ x.isEmpty = false := by
  rw [SiteBindingSet.mem_parts]
  refine and_congr_left fun _ => ?_
  constructor
  · rintro ⟨l, _, hx⟩
    exact ⟨l, hx⟩
  · rintro ⟨l, hx⟩
    refine ⟨l.filter (· ∈ y.touched), fun t ht => ?_, (h.restrict_touched l).trans hx⟩
    simpa using (List.mem_filter.1 ht).2

theorem Coherent.mem_parts_iff_exists (h : y.Coherent) : x ∈ SiteBindingSet.parts y ↔
    ∃ ts : SortedSet Triple, ts.isEmpty = false ∧ (∀ t ∈ ts, t ∈ y.touched) ∧ x.IsRestriction y ts := by
  rw [SiteBindingSet.mem_parts, h.exists_restrict_iff]
  constructor
  · rintro ⟨⟨ts, hts, hx⟩, hne⟩
    exact ⟨ts, (hx.isEmpty_eq_false_iff hts).1 hne, hts, hx⟩
  · rintro ⟨ts, hne, hts, hx⟩
    exact ⟨⟨ts, hts, hx⟩, (hx.isEmpty_eq_false_iff hts).2 hne⟩

/-- The parts of a part are parts of the whole. -/
theorem Coherent.mem_parts_trans (h : z.Coherent) (hy : y ∈ SiteBindingSet.parts z) (hx : x ∈ SiteBindingSet.parts y) :
    x ∈ SiteBindingSet.parts z := by
  obtain ⟨⟨l, rfl⟩, _⟩ := h.mem_parts_iff.1 hy
  obtain ⟨⟨l', rfl⟩, hne⟩ := (h.restrict l).mem_parts_iff.1 hx
  exact h.mem_parts_iff.2 ⟨⟨_, (h.restrict_restrict l l').symm⟩, hne⟩

end SiteBinding

namespace SiteBindingSet

variable {p : Pattern} {s t : SiteBindingSet} {x : SiteBinding}

/-! ## Sets with all parts -/

theorem Invariant.mem_withPartials_iff (hs : s.Invariant p) : x ∈ s.withPartials.bindings ↔ x ∈ s.bindings ∨
    ∃ y ∈ s.bindings, ∃ ts : SortedSet Triple, ts.isEmpty = false ∧
      (∀ t ∈ ts, t ∈ y.touched) ∧ x.IsRestriction y ts := by
  rw [mem_withPartials]
  refine or_congr_right (exists_congr fun y => and_congr_right fun hy => ?_)
  exact (hs.coherent y hy).mem_parts_iff_exists

theorem Invariant.mem_restrictionsOver_iff (hs : s.Invariant p) {triples : SortedSet Triple} :
    x ∈ (s.restrictionsOver triples).bindings ↔
      ∃ y ∈ s.bindings, ∃ ts : SortedSet Triple, (∀ t ∈ ts, t ∈ triples) ∧ x.IsRestriction y ts := by
  rw [mem_restrictionsOver]
  exact exists_congr fun y => and_congr_right fun hy => (hs.coherent y hy).exists_restrict_iff

theorem withPartials_mono (h : ∀ x ∈ s.bindings, x ∈ t.bindings) :
    ∀ x ∈ s.withPartials.bindings, x ∈ t.withPartials.bindings := by
  intro x hx
  rcases mem_withPartials.1 hx with hx | ⟨y, hy, hx⟩
  · exact mem_withPartials.2 (.inl (h x hx))
  · exact mem_withPartials.2 (.inr ⟨y, h y hy, hx⟩)

/-- The second time nothing is added, not even to the order. -/
theorem Invariant.withPartials_withPartials (hs : s.Invariant p) : s.withPartials.withPartials = s.withPartials := by
  have hall : ∀ x ∈ s.withPartials.toList.flatMap parts, x ∈ s.withPartials.bindings := by
    intro x hx
    obtain ⟨y, hy, hx⟩ := List.mem_flatMap.1 hx
    rcases mem_withPartials.1 hy with hy | ⟨z, hz, hy⟩
    · exact mem_withPartials.2 (.inr ⟨y, hy, hx⟩)
    · exact mem_withPartials.2 (.inr ⟨z, hz, (hs.coherent z hz).mem_parts_trans hy hx⟩)
  rw [withPartials.eq_def s.withPartials, addAll, InsertionSet.insertAll_of_subset hall]

theorem withPartials_extend (s t : SiteBindingSet) :
    (s.extend t).withPartials.same (s.withPartials.extend t.withPartials) = true := by
  refine same_iff.2 ⟨rfl, fun x => ?_⟩
  simp only [mem_withPartials, mem_extend, or_and_right, exists_or]
  exact or_or_or_comm

/-- To add the parts of all bindings is a closure on the sets of faithful site bindings over a pattern. What is added
are the restrictions of the bindings to some of the triples that they touch, and nothing else; a larger set gives no
less; the second time nothing is added; and the parts of a union are those of the two sets. Restricted over some
triples, the bindings give their restrictions to all sets of these triples, the empty one among them. -/
theorem withPartials_is_closure (p : Pattern) :
    (∀ s : SiteBindingSet, s.Invariant p →
      (∀ x, x ∈ s.withPartials.bindings ↔ x ∈ s.bindings ∨ ∃ y ∈ s.bindings, ∃ ts : SortedSet Triple,
        ts.isEmpty = false ∧ (∀ t ∈ ts, t ∈ y.touched) ∧ x.IsRestriction y ts) ∧
      s.withPartials.withPartials = s.withPartials ∧
      ∀ triples x, x ∈ (s.restrictionsOver triples).bindings ↔
        ∃ y ∈ s.bindings, ∃ ts : SortedSet Triple, (∀ t ∈ ts, t ∈ triples) ∧ x.IsRestriction y ts) ∧
    ∀ s t : SiteBindingSet,
      ((∀ x ∈ s.bindings, x ∈ t.bindings) → ∀ x ∈ s.withPartials.bindings, x ∈ t.withPartials.bindings) ∧
      (s.extend t).withPartials.same (s.withPartials.extend t.withPartials) = true := by
  constructor
  · intro s hs
    refine ⟨fun x => hs.mem_withPartials_iff, hs.withPartials_withPartials, fun triples x => ?_⟩
    exact hs.mem_restrictionsOver_iff
  · intro s t
    exact ⟨withPartials_mono, withPartials_extend s t⟩

/-- Two lines of three generations end with the same parent and child. This pair is a part of both and is added once,
and to add the parts again changes nothing. -/
theorem generations_parts :
    let lines := ofBindings generations (.ofList [
      .ofList [(⟨"x"⟩, .iri "janny"), (⟨"y"⟩, .iri "barry"), (⟨"z"⟩, .iri "fenna")],
      .ofList [(⟨"x"⟩, .iri "frans"), (⟨"y"⟩, .iri "barry"), (⟨"z"⟩, .iri "fenna")]])
    let pair : SiteBinding := .ofBinding (.singleton ⟨.var ⟨"y"⟩, .iri "isParentOf", .var ⟨"z"⟩⟩)
      (.ofList [(⟨"y"⟩, .iri "barry"), (⟨"z"⟩, .iri "fenna")])
    lines.Invariant generations ∧ pair ∉ lines.bindings ∧ lines.withPartials.size = 5 ∧
      (∃ line ∈ lines.bindings, ∃ ts : SortedSet Triple, ts.isEmpty = false ∧ (∀ t ∈ ts, t ∈ line.touched) ∧
        pair.IsRestriction line ts) ∧
      lines.withPartials.withPartials = lines.withPartials := by
  intro lines pair
  have hlines : lines.Invariant generations := invariant_ofBindings _ _
  have hnew : pair ∉ lines.bindings := by decide
  have hadded : pair ∈ lines.withPartials.bindings := by decide
  obtain ⟨hmem, hagain, _⟩ := (withPartials_is_closure generations).1 lines hlines
  exact ⟨hlines, hnew, by decide, ((hmem pair).1 hadded).resolve_left hnew, hagain⟩

end SiteBindingSet

end TripleChain
