import TripleChain.SiteBindingSet
import TripleChain.Proofs.Instance
/-!
# Site bindings by their look-ups

In the site bindings that the chaining works with, every bound site holds the term of its variable. `Under f`
says so, and that the terms of the variables are those that `f` gives. All operations on site bindings
keep it, and under one `f` the terms of what they make are those of what they are made of.
-/

open Std

namespace TripleChain

namespace SiteBinding

variable {f : Variable → Option Term} {x y : SiteBinding}

@[simp] theorem get?_toBinding (x : SiteBinding) (v : Variable) : x.toBinding.get? v = x.valueOf? v := rfl

@[simp] theorem get?_emptyCollection (s : Site) : (∅ : SiteBinding).get? s = none := rfl

theorem mem_entries {s : Site} {t : Term} : (s, t) ∈ x.entries ↔ x.get? s = some t :=
  SortedMap.get?_eq_some_iff.symm

/-- Look-ups of sites and of variables determine a site binding. -/
theorem ext_get? (hs : ∀ s, x.get? s = y.get? s) (hv : ∀ v, x.valueOf? v = y.valueOf? v) : x = y := by
  have hsites : x.sites = y.sites := SortedMap.ext_get? hs
  have hvars : x.vars = y.vars := SortedMap.ext_get? hv
  cases x
  cases y
  simp_all

theorem binds_iff {s : Site} : x.binds s = true ↔ ∃ t, x.get? s = some t := SortedMap.contains_iff

theorem isEmpty_iff : x.isEmpty = true ↔ ∀ s, x.get? s = none := SortedMap.isEmpty_iff_get?

theorem isEmpty_eq_false_iff : x.isEmpty = false ↔ ∃ s t, x.get? s = some t := by
  rw [← Bool.not_eq_true, isEmpty_iff, not_forall]
  exact exists_congr fun s => Option.ne_none_iff_exists'

theorem mem_touched {t : Triple} : t ∈ x.touched ↔ ∃ s u, x.get? s = some u ∧ s.triple = t := by
  simp only [touched, SortedSet.mem_ofList, List.mem_map, SortedMap.mem_keys]
  exact exists_congr fun s => exists_and_right.symm

theorem covers_iff {sites : SortedSet Site} : x.covers sites = true ↔ ∀ s ∈ sites, ∃ t, x.get? s = some t := by
  simp only [covers, SortedSet.all_iff, binds_iff]

theorem conflicts_eq_false :
    x.conflicts y = false ↔ ∀ v t u, x.valueOf? v = some t → y.valueOf? v = some u → u = t := by
  rw [← Bool.not_eq_true, conflicts, SortedMap.any_iff]
  constructor
  · intro h v t u hx hy
    by_contra hn
    have hy' : y.vars.get? v = some u := hy
    exact h ⟨v, t, hx, by rw [hy']; simpa using hn⟩
  · rintro h ⟨v, t, hx, hy⟩
    split at hy
    · next u hu => exact absurd (h v t u hx hu) (by simpa using hy)
    · cases hy

theorem get?_put {s s' : Site} {t : Term} {v : Variable} (hv : s.toVariable? = some v) :
    (x.put s t).get? s' = if s = s' then some t else x.get? s' := by
  simp [put, hv, get?, SortedMap.get?_insert]

theorem valueOf?_put {s : Site} {t : Term} {v w : Variable} (hv : s.toVariable? = some v) :
    (x.put s t).valueOf? w = if v = w then some t else x.valueOf? w := by
  simp [put, hv, valueOf?, SortedMap.get?_insert]

/-- Bound sites hold the terms of their variables and the other way round, and `f` gives these terms. -/
structure Under (f : Variable → Option Term) (x : SiteBinding) : Prop where
  site : ∀ s t, x.get? s = some t → ∃ v, s.toVariable? = some v ∧ x.valueOf? v = some t
  held : ∀ v t, x.valueOf? v = some t → ∃ s, s.toVariable? = some v ∧ x.get? s = some t
  var : ∀ v t, x.valueOf? v = some t → f v = some t

/-- Bound sites hold the terms of their variables. -/
def Coherent (x : SiteBinding) : Prop := x.Under x.valueOf?

/-- The term goes to a site of a variable to which `f` gives it. -/
def Fits (f : Variable → Option Term) (e : Site × Term) : Prop := ∃ v, e.1.toVariable? = some v ∧ f v = some e.2

theorem Under.coherent (h : x.Under f) : x.Coherent := ⟨h.site, h.held, fun _ _ hv => hv⟩

theorem Coherent.under (h : x.Coherent) (hf : ∀ v t, x.valueOf? v = some t → f v = some t) : x.Under f :=
  ⟨h.site, h.held, hf⟩

theorem Under.fits (h : x.Under f) {s : Site} {t : Term} (hs : x.get? s = some t) : Fits f (s, t) := by
  obtain ⟨v, hv, ht⟩ := h.site s t hs
  exact ⟨v, hv, h.var v t ht⟩

theorem under_empty (f : Variable → Option Term) : Under f ∅ :=
  ⟨fun _ _ h => (nomatch h), fun _ _ h => (nomatch h), fun _ _ h => (nomatch h)⟩

/-- A variable has the term that any of its sites is bound to. -/
theorem Coherent.valueOf?_iff (h : x.Coherent) {v : Variable} {t : Term} :
    x.valueOf? v = some t ↔ ∃ s, s.toVariable? = some v ∧ x.get? s = some t := by
  constructor
  · exact h.held v t
  · rintro ⟨s, hs, hst⟩
    obtain ⟨w, hw, ht⟩ := h.site s t hst
    obtain rfl : v = w := Option.some.inj (hs.symm.trans hw)
    exact ht

/-- Site bindings that bind the same sites to the same terms are equal. -/
theorem Coherent.ext (hx : x.Coherent) (hy : y.Coherent) (h : ∀ s, x.get? s = y.get? s) : x = y :=
  ext_get? h fun v => Option.ext fun t => by simp only [hx.valueOf?_iff, hy.valueOf?_iff, h]

/-! ## Putting terms -/

theorem Under.put {s : Site} {t : Term} (h : x.Under f) (hf : Fits f (s, t)) : (x.put s t).Under f := by
  obtain ⟨v, hv, ht⟩ := hf
  refine ⟨fun s' t' hs' => ?_, fun w u hw => ?_, fun w u hw => ?_⟩
  · rw [get?_put hv] at hs'
    split at hs'
    · next heq =>
      cases hs'
      exact ⟨v, heq ▸ hv, by rw [valueOf?_put hv, if_pos rfl]⟩
    · obtain ⟨w, hw, ht'⟩ := h.site s' t' hs'
      refine ⟨w, hw, ?_⟩
      rw [valueOf?_put hv]
      split
      · next heq =>
        subst heq
        rw [← h.var _ _ ht', ht]
      · exact ht'
  -- A site that held the term of another variable is another site.
  · rw [valueOf?_put hv] at hw
    split at hw
    · next heq =>
      cases hw
      exact ⟨s, heq ▸ hv, by rw [get?_put hv, if_pos rfl]⟩
    · next hne =>
      obtain ⟨s', hs', hx⟩ := h.held w u hw
      refine ⟨s', hs', ?_⟩
      rw [get?_put hv, if_neg, hx]
      rintro rfl
      rw [hv] at hs'
      exact hne (Option.some.inj hs')
  · rw [valueOf?_put hv] at hw
    split at hw
    · next heq =>
      cases hw
      exact heq ▸ ht
    · exact h.var w u hw

theorem Under.get?_put_iff {s s' : Site} {t t' : Term} (h : x.Under f) (hf : Fits f (s, t)) :
    (x.put s t).get? s' = some t' ↔ x.get? s' = some t' ∨ (s', t') = (s, t) := by
  obtain ⟨v, hv, ht⟩ := hf
  rw [get?_put hv]
  split
  · next heq =>
    subst heq
    constructor
    · rintro ⟨⟩
      exact .inr rfl
    · rintro (hs | hs)
      · obtain ⟨w, hw, hx⟩ := h.site _ _ hs
        rw [hv] at hw
        cases hw
        rw [← ht, h.var v t' hx]
      · cases hs
        rfl
  · next hne =>
    constructor
    · exact .inl
    · rintro (hs | hs)
      · exact hs
      · cases hs
        exact absurd rfl hne

theorem putAll_cons (x : SiteBinding) (e : Site × Term) (l : List (Site × Term)) :
    x.putAll (e :: l) = (x.put e.1 e.2).putAll l := rfl

theorem Under.putAll {l : List (Site × Term)} (h : x.Under f) (hl : ∀ e ∈ l, Fits f e) : (x.putAll l).Under f := by
  induction l generalizing x with
  | nil => exact h
  | cons e l ih => exact ih (h.put (hl e List.mem_cons_self)) fun a ha => hl a (List.mem_cons_of_mem e ha)

theorem Under.get?_putAll_iff {l : List (Site × Term)} {s : Site} {t : Term} (h : x.Under f)
    (hl : ∀ e ∈ l, Fits f e) : (x.putAll l).get? s = some t ↔ x.get? s = some t ∨ (s, t) ∈ l := by
  induction l generalizing x with
  | nil => simp [SiteBinding.putAll]
  | cons e l ih =>
    have he := hl e List.mem_cons_self
    rw [putAll_cons, ih (h.put he) fun a ha => hl a (List.mem_cons_of_mem e ha), h.get?_put_iff he, List.mem_cons,
      or_assoc]

/-! ## Joining -/

theorem Under.not_conflicts (hx : x.Under f) (hy : y.Under f) : x.conflicts y = false :=
  conflicts_eq_false.2 fun v t u ht hu => by
    have := hx.var v t ht
    rw [hy.var v u hu] at this
    exact Option.some.inj this

/-- Site bindings without conflict are under one `f`. -/
theorem exists_under (hx : x.Coherent) (hy : y.Coherent) (h : x.conflicts y = false) :
    ∃ f, x.Under f ∧ y.Under f ∧ ∀ v t, f v = some t → x.valueOf? v = some t ∨ y.valueOf? v = some t := by
  refine ⟨fun v => (x.valueOf? v).or (y.valueOf? v), hx.under fun v t hv => by simp [hv], hy.under fun v t hv => ?_,
    fun v t hv => ?_⟩
  · cases hx' : x.valueOf? v with
    | none => simpa using hv
    | some u => simp [conflicts_eq_false.1 h v u t hx' hv]
  · rcases Option.or_eq_some_iff.1 hv with hv | ⟨_, hv⟩
    · exact .inl hv
    · exact .inr hv

theorem Under.entries_fit (h : x.Under f) : ∀ e ∈ x.entries, Fits f e := fun _ he => h.fits (mem_entries.1 he)

theorem Under.merge (hx : x.Under f) (hy : y.Under f) : (x.merge y).Under f := hx.putAll hy.entries_fit

theorem Coherent.merge (hx : x.Coherent) (hy : y.Coherent) (hc : x.conflicts y = false) : (x.merge y).Coherent := by
  obtain ⟨f, hfx, hfy, _⟩ := exists_under hx hy hc
  exact (hfx.merge hfy).coherent

theorem Under.get?_merge_iff {s : Site} {t : Term} (hx : x.Under f) (hy : y.Under f) :
    (x.merge y).get? s = some t ↔ x.get? s = some t ∨ y.get? s = some t := by
  rw [SiteBinding.merge, hx.get?_putAll_iff hy.entries_fit, mem_entries]

/-- What a joined site binding is under, its parts are under. -/
theorem Under.of_merge (hx : x.Coherent) (hy : y.Coherent) (hc : x.conflicts y = false) (h : (x.merge y).Under f) :
    x.Under f ∧ y.Under f := by
  obtain ⟨g, hxg, hyg, _⟩ := exists_under hx hy hc
  have hpart {z : SiteBinding} (hz : z.Coherent) (hmerge : ∀ s t, z.get? s = some t → (x.merge y).get? s = some t) :
      z.Under f := by
    refine hz.under fun v t ht => ?_
    obtain ⟨s, hs, hst⟩ := hz.held v t ht
    obtain ⟨w, hw, hf⟩ := h.fits (hmerge s t hst)
    obtain rfl : v = w := Option.some.inj (hs.symm.trans hw)
    exact hf
  exact ⟨hpart hx fun s t ht => (hxg.get?_merge_iff hyg).2 (.inl ht),
    hpart hy fun s t ht => (hxg.get?_merge_iff hyg).2 (.inr ht)⟩

theorem Under.merge_comm (hx : x.Under f) (hy : y.Under f) : x.merge y = y.merge x := by
  refine (hx.merge hy).coherent.ext (hy.merge hx).coherent fun s => Option.ext fun t => ?_
  rw [hx.get?_merge_iff hy, hy.get?_merge_iff hx, or_comm]

theorem Under.merge_right_comm {z : SiteBinding} (hx : x.Under f) (hy : y.Under f) (hz : z.Under f) :
    (x.merge y).merge z = (x.merge z).merge y := by
  refine ((hx.merge hy).merge hz).coherent.ext ((hx.merge hz).merge hy).coherent fun s => Option.ext fun t => ?_
  rw [(hx.merge hy).get?_merge_iff hz, hx.get?_merge_iff hy, (hx.merge hz).get?_merge_iff hy, hx.get?_merge_iff hz,
    or_right_comm]

/-! ## Restricting -/

theorem mem_restrict_entries {ts : List Triple} {s : Site} {t : Term} :
    (s, t) ∈ (x.entries.filter fun e => ts.contains e.1.triple) ↔ x.get? s = some t ∧ s.triple ∈ ts := by
  simp only [List.mem_filter, mem_entries, List.contains_iff_mem]

theorem Under.restrict_fits {ts : List Triple} (h : x.Under f) :
    ∀ e ∈ x.entries.filter fun e => ts.contains e.1.triple, Fits f e :=
  fun _ he => h.fits (mem_restrict_entries.1 he).1

theorem Under.restrict {ts : List Triple} (h : x.Under f) : (x.restrict ts).Under f :=
  (under_empty f).putAll h.restrict_fits

theorem Coherent.restrict (h : x.Coherent) (ts : List Triple) : (x.restrict ts).Coherent := (Under.restrict h).coherent

theorem Under.get?_restrict_iff {ts : List Triple} {s : Site} {t : Term} (h : x.Under f) :
    (x.restrict ts).get? s = some t ↔ x.get? s = some t ∧ s.triple ∈ ts := by
  rw [SiteBinding.restrict, (under_empty f).get?_putAll_iff h.restrict_fits, mem_restrict_entries]
  simp

/-- How a binding is restricted is a matter of which triples are kept. -/
theorem restrict_congr {ts us : List Triple} (h : ∀ t, t ∈ ts ↔ t ∈ us) : x.restrict ts = x.restrict us := by
  have hsame : (fun e : Site × Term => ts.contains e.1.triple) = fun e => us.contains e.1.triple := funext fun e => by
    rw [Bool.eq_iff_iff, List.contains_iff_mem, List.contains_iff_mem, h]
  rw [restrict, hsame, restrict]

/-- Nothing is lost where all triples are kept. -/
theorem Coherent.restrict_eq_self {ts : List Triple} (h : x.Coherent) (hts : ∀ s t, x.get? s = some t → s.triple ∈ ts) :
    x.restrict ts = x :=
  (h.restrict ts).ext h fun s => Option.ext fun t => by
    rw [Under.get?_restrict_iff h, and_iff_left_of_imp (hts s t)]

/-! ## Spreading a binding by name -/

theorem mem_ofBinding_entries {p : Pattern} {b : Binding} {s : Site} {t : Term} :
    (s, t) ∈ (p.toList.flatMap fun t => t.variableSites.filterMap fun s => do
      let v ← s.toVariable?
      let value ← b.get? v
      some (s, value)) ↔ s.triple ∈ p ∧ Fits b.get? (s, t) := by
  simp only [List.mem_flatMap, List.mem_filterMap, Triple.variableSites, Triple.variablePositions, List.mem_map,
    List.mem_filter, SortedSet.mem_def, Fits]
  constructor
  · rintro ⟨a, ha, _, ⟨i, _, rfl⟩, h⟩
    obtain ⟨v, hv, h⟩ := Option.bind_eq_some_iff.1 h
    obtain ⟨u, hu, h⟩ := Option.bind_eq_some_iff.1 h
    cases h
    exact ⟨ha, v, hv, hu⟩
  · rintro ⟨ha, v, hv, hu⟩
    refine ⟨s.triple, ha, s, ⟨s.position, ⟨Position.mem_all _, ?_⟩, rfl⟩, ?_⟩
    · rw [Term.isVariable_iff]
      exact ⟨v, Term.toVariable?_eq_some.1 hv⟩
    · rw [hv]
      simp only [Option.bind_eq_bind, Option.bind_some]
      rw [hu]
      rfl

theorem ofBinding_under (p : Pattern) (b : Binding) : (ofBinding p b).Under b.get? :=
  (under_empty _).putAll fun _ he => (mem_ofBinding_entries.1 he).2

theorem get?_ofBinding_iff {p : Pattern} {b : Binding} {s : Site} {t : Term} :
    (ofBinding p b).get? s = some t ↔ s.triple ∈ p ∧ Fits b.get? (s, t) := by
  rw [ofBinding, (under_empty b.get?).get?_putAll_iff fun _ he => (mem_ofBinding_entries.1 he).2,
    mem_ofBinding_entries]
  simp

end SiteBinding

end TripleChain
