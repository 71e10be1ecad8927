import TripleChain.Proofs.ExactMatches
import TripleChain.Proofs.SiteInvariant
/-!
# A pattern lined up with itself

Every triple unifies with itself, and sites that face themselves never disagree, so that a pattern can be lined up with
itself whatever variables and constants its triples share (`Match.aligned_identity`). Nothing is changed by being
carried through this match, not even a binding that has only some of the sites of a variable
(`SiteBinding.carryThrough_identity`).
-/

open Std

namespace TripleChain

/-- A map from each element of a list to itself. -/
theorem SortedMap.mem_ofList_diagonal {α : Type} [Ord α] [TransOrd α] [LawfulEqOrd α] {l : List α} {a b : α} :
    (a, b) ∈ (SortedMap.ofList (l.map fun a => (a, a))).entries ↔ a ∈ l ∧ b = a := by
  have honce : ∀ x ∈ l.map fun a => (a, a), ∀ y ∈ l.map fun a => (a, a), x.1 = y.1 → x = y := by
    intro x hx y hy heq
    obtain ⟨a, _, rfl⟩ := List.mem_map.1 hx
    obtain ⟨b, _, rfl⟩ := List.mem_map.1 hy
    rw [show a = b from heq]
  rw [SortedMap.mem_entries_ofList honce, List.mem_map]
  constructor
  · rintro ⟨_, ha, ⟨⟩⟩
    exact ⟨ha, rfl⟩
  · rintro ⟨ha, rfl⟩
    exact ⟨b, ha, rfl⟩

theorem Triple.unify?_self (t : Triple) : (t.unify? t).isSome = true :=
  Option.isSome_iff_exists.2 (unify?_isSome (b := ∅) (c := ∅) rfl)

/-- A triple faces itself at the places that hold a variable. -/
theorem Triple.pairs_self {t : Triple} {s s' : Site} : t.Pairs t (s, s') ↔ s ∈ t.variableSites ∧ s' = s := by
  rw [Triple.mem_variableSites]
  constructor
  · rintro ⟨i, hi, ⟨⟩⟩
    exact ⟨⟨rfl, hi.elim id id⟩, rfl⟩
  · rintro ⟨⟨rfl, hv⟩, rfl⟩
    exact ⟨s'.position, .inl hv, rfl⟩

namespace Match

variable {p : Pattern}

/-- Every triple of the pattern lined up with itself. -/
def identity (p : Pattern) : Match :=
  ⟨.ofList (p.toList.map fun t => (t, t)), .ofList (p.variableSites.toList.map fun s => (s, s))⟩

theorem mem_identity {t u : Triple} : (t, u) ∈ (identity p).triples.entries ↔ t ∈ p ∧ u = t :=
  SortedMap.mem_ofList_diagonal

theorem mem_identity_sites {s s' : Site} : (s, s') ∈ (identity p).sites.entries ↔ s ∈ p.variableSites ∧ s' = s :=
  SortedMap.mem_ofList_diagonal

theorem proper_identity (p : Pattern) : (identity p).Proper := by
  constructor
  · rintro ⟨t, u⟩ he ⟨t', u'⟩ he' heq
    obtain ⟨_, rfl⟩ := mem_identity.1 he
    obtain ⟨_, rfl⟩ := mem_identity.1 he'
    exact Prod.ext heq heq
  · rintro ⟨s, s'⟩
    rw [mem_identity_sites, Pattern.mem_variableSites]
    constructor
    · rintro ⟨⟨ht, hv⟩, rfl⟩
      exact ⟨(s'.triple, s'.triple), mem_identity.2 ⟨ht, rfl⟩,
        Triple.pairs_self.2 ⟨Triple.mem_variableSites.2 ⟨rfl, hv⟩, rfl⟩⟩
    · rintro ⟨⟨t, u⟩, he, hpairs⟩
      obtain ⟨ht, rfl⟩ := mem_identity.1 he
      obtain ⟨hsite, rfl⟩ := Triple.pairs_self.1 hpairs
      obtain ⟨rfl, hv⟩ := Triple.mem_variableSites.1 hsite
      exact ⟨⟨ht, hv⟩, rfl⟩

/-- Sites that face themselves hold the same terms on either side. -/
theorem aligned_identity (hp : ∃ t, t ∈ p) : Aligned p p (identity p).triples where
  nonempty := hp.imp' (fun t => (t, t)) fun _ ht => mem_identity.2 ⟨ht, rfl⟩
  mem := by
    rintro ⟨t, u⟩ he
    obtain ⟨ht, rfl⟩ := mem_identity.1 he
    exact ⟨ht, ht, u.unify?_self⟩
  injective := (proper_identity p).oneToOne
  fit := by
    rintro ⟨t, u⟩ he ⟨t', u'⟩ he' _
    obtain ⟨_, rfl⟩ := mem_identity.1 he
    obtain ⟨_, rfl⟩ := mem_identity.1 he'
    refine (fit_iff u.unify?_self u'.unify?_self).2 ?_
    rintro ⟨s, _⟩ hf ⟨s', _⟩ hf'
    obtain ⟨_, rfl⟩ := Triple.pairs_self.1 hf
    obtain ⟨_, rfl⟩ := Triple.pairs_self.1 hf'
    exact Iff.rfl

theorem identity_mem_full (hp : ∃ t, t ∈ p) : identity p ∈ findMatches p p .full := by
  refine mem_findMatches_full.2 ⟨⟨proper_identity p, aligned_identity hp⟩, fun t ht => ?_⟩
  exact Match.mem_sources.2 ⟨t, SortedMap.get?_eq_some_iff.2 (mem_identity.2 ⟨ht, rfl⟩)⟩

end Match

namespace SiteBinding

variable {p : Pattern} {b : SiteBinding} {t : Triple}

/-- The terms of a triple suit the triple itself. -/
theorem Coherent.suits_self (hb : b.Coherent) (t : Triple) : Suits b.valueOf? b (t, t) := by
  intro i u hu
  refine ⟨fun v hv => ?_, fun hn => ?_⟩
  · rw [termAt?_of_var (show (t.site i).toVariable? = some v from Term.toVariable?_eq_some.2 hv)] at hu
    obtain ⟨w, hw, hval⟩ := hb.site _ u hu
    obtain rfl : v = w := Option.some.inj ((Term.toVariable?_eq_some.2 hv).symm.trans hw)
    exact hval
  · rw [termAt?_of_none hn] at hu
    exact (Option.some.inj hu).symm

/-- A triple hands itself what it has. -/
theorem Coherent.hands_self (hb : b.Coherent) {s : Site} {u : Term} :
    Hands b (t, t) s u ↔ s.triple = t ∧ b.get? s = some u := by
  constructor
  · rintro ⟨_, i, rfl, hv, hu⟩
    obtain ⟨v, hv⟩ := Option.ne_none_iff_exists'.1 hv
    rw [termAt?_of_var hv] at hu
    exact ⟨rfl, hu⟩
  · rintro ⟨rfl, hu⟩
    obtain ⟨v, hv, _⟩ := hb.site s u hu
    refine ⟨s.triple.unify?_self, s.position, rfl, by rw [hv]; exact Option.some_ne_none v, ?_⟩
    rw [termAt?_of_var (show (s.triple.site s.position).toVariable? = some v from hv)]
    exact hu

/-- What is carried through the identity stays as it is. -/
theorem carryThrough_identity (hb : b.Coherent) (hp : b.Inside p) : carryThrough (.identity p) b = some b := by
  have hsuits : ∀ e ∈ (Match.identity p).triples.entries, Suits b.valueOf? b e := by
    rintro ⟨t, u⟩ he
    obtain ⟨_, rfl⟩ := Match.mem_identity.1 he
    exact hb.suits_self u
  obtain ⟨c, hc, _⟩ := exists_carryThrough hsuits
  obtain ⟨hcoherent, hsites, _⟩ := carryThrough_some hc
  have hsame : c = b := by
    refine hcoherent.ext hb fun s => Option.ext fun u => ?_
    rw [hsites]
    constructor
    · rintro ⟨⟨t, t'⟩, he, hands⟩
      obtain ⟨_, rfl⟩ := Match.mem_identity.1 he
      exact (hb.hands_self.1 hands).2
    · exact fun hu => ⟨(s.triple, s.triple), Match.mem_identity.2 ⟨hp s u hu, rfl⟩, hb.hands_self.2 ⟨rfl, hu⟩⟩
  rw [hc, hsame]

end SiteBinding

/-- A set of site bindings carried through the identity is the set itself, order included. -/
theorem SiteBindingSet.Invariant.carryThrough_identity {p : Pattern} {s : SiteBindingSet} (hs : s.Invariant p) :
    s.carryThrough p [.identity p] = s := by
  have hall : s.toList.filterMap (SiteBinding.carryThrough (.identity p)) = s.toList :=
    (List.filterMap_congr fun b hb => SiteBinding.carryThrough_identity (hs.coherent b hb) (hs.inside b hb)).trans
      List.filterMap_some
  have hbindings : (InsertionSet.empty : InsertionSet SiteBinding).insertAll s.toList = s.bindings :=
    InsertionSet.ext_toList (InsertionSet.toList_insertAll s.bindings.nodup fun b _ => InsertionSet.not_mem_empty b)
  rw [SiteBindingSet.carryThrough, List.flatMap_singleton, hall]
  show (⟨p, InsertionSet.insertAll InsertionSet.empty s.toList⟩ : SiteBindingSet) = s
  rw [hbindings, ← hs.pattern]

/-- A pattern that is not empty is lined up with itself by one of the full matches, triple by triple, and this match
carries any set of site bindings of the pattern to the set itself. -/
theorem identity_full_and_neutral {p : Pattern} (hp : p ≠ ∅) :
    (∀ t u, (t, u) ∈ (Match.identity p).triples.entries ↔ t ∈ p ∧ u = t) ∧
      Match.identity p ∈ findMatches p p .full ∧
      ∀ s : SiteBindingSet, s.pattern = p → (∀ b ∈ s.bindings, b.Faithful p) → s.carryThrough p [.identity p] = s := by
  have hsome : ∃ t, t ∈ p := SortedSet.exists_mem (by rw [← Bool.not_eq_true, SortedSet.isEmpty_iff]; exact hp)
  refine ⟨fun t u => Match.mem_identity, Match.identity_mem_full hsome, fun s hpattern hs => ?_⟩
  exact (SiteBindingSet.invariant_iff.2 ⟨hpattern, hs⟩).carryThrough_identity

/-- `?x <knows> ?y . ?y <knows> ?x . <ann> <trusts> ?z`, where the first two triples may change places. -/
def Pattern.friends : Pattern :=
  .ofList [⟨.var ⟨"x"⟩, .iri "knows", .var ⟨"y"⟩⟩, ⟨.var ⟨"y"⟩, .iri "knows", .var ⟨"x"⟩⟩,
    ⟨.iri "ann", .iri "trusts", .var ⟨"z"⟩⟩]

/-- With another full match beside it, the identity keeps a binding and all its parts. -/
theorem friends_kept :
    let known : Binding := .ofList [(⟨"x"⟩, .iri "bob"), (⟨"y"⟩, .iri "ann"), (⟨"z"⟩, .iri "bob")]
    let s := (SiteBindingSet.ofBindings .friends (.singleton known)).withPartials
    Pattern.friends ≠ ∅ ∧ s.size = 7 ∧ s.partials.size = 6 ∧ (findMatches .friends .friends .full).size = 2 ∧
      Match.identity .friends ∈ findMatches .friends .friends .full ∧
      (∀ b ∈ s.bindings, b.Faithful .friends) ∧ s.carryThrough .friends [.identity .friends] = s := by
  intro known s
  have hp : Pattern.friends ≠ ∅ := by decide
  obtain ⟨hpattern, hs⟩ := SiteBindingSet.invariant_iff.1
    (SiteBindingSet.invariant_ofBindings .friends (.singleton known)).withPartials
  obtain ⟨_, hfull, hkept⟩ := identity_full_and_neutral hp
  exact ⟨hp, by decide, by decide, by decide, hfull, hs, hkept s hpattern hs⟩

end TripleChain
