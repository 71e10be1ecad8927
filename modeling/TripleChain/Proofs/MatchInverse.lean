import TripleChain.Proofs.MatchSearch
import Mathlib.Data.Prod.Basic
/-!
# Matches seen from the other side

A match that was found lines up each triple of either pattern at most once, and its sites are those that its
triples give (`Match.Proper`). So it can be turned around and back again (`Match.Proper.inverse_inverse`), and so can
sets of such matches.
-/

open Std

namespace TripleChain

theorem Triple.Pairs.swap {p q : Triple} {e : Site × Site} (h : p.Pairs q e) : q.Pairs p e.swap := by
  obtain ⟨i, hi, rfl⟩ := h
  exact ⟨i, hi.symm, rfl⟩

namespace Match

variable {m n c : Match}

theorem mem_of_mem_inverse {e : Triple × Triple} (h : e ∈ m.inverse.triples.entries) : e.swap ∈ m.triples.entries := by
  obtain ⟨e', he', rfl⟩ := List.mem_map.1 (SortedMap.mem_of_mem_ofList h)
  exact he'

theorem mem_swapEntries {α : Type} {l : List (α × α)} {e : α × α} : e ∈ swapEntries l ↔ e.swap ∈ l := by
  rw [swapEntries, List.mem_map]
  constructor
  · rintro ⟨e', he', rfl⟩
    exact he'
  · exact fun h => ⟨e.swap, h, e.swap_swap⟩

/-- Swapped entries are all stored if no value occurs twice. -/
theorem mem_ofList_swapEntries {α : Type} [Ord α] [TransOrd α] [LawfulEqOrd α] {l : List (α × α)}
    (h : ∀ e ∈ l, ∀ e' ∈ l, e.2 = e'.2 → e = e') {e : α × α} :
    e ∈ (SortedMap.ofList (swapEntries l)).entries ↔ e.swap ∈ l := by
  have honce : ∀ e ∈ swapEntries l, ∀ e' ∈ swapEntries l, e.1 = e'.1 → e = e' := fun e he e' he' heq =>
    Prod.swap_injective (h _ (mem_swapEntries.1 he) _ (mem_swapEntries.1 he') heq)
  rw [SortedMap.mem_entries_ofList honce, mem_swapEntries]

theorem mem_inverse {e : Triple × Triple} (h : m.OneToOne) (he : e ∈ m.triples.entries) :
    e.swap ∈ m.inverse.triples.entries := (mem_ofList_swapEntries h).2 he

/-- A match that is turned around lies between the same patterns. -/
theorem Between.inverse {p q : Pattern} {m : Match} (h : m.Between p q) (hone : m.OneToOne) :
    m.inverse.Between q p := by
  refine ⟨fun hnil => ?_, fun e he => ?_⟩
  · obtain ⟨e, he⟩ := List.exists_mem_of_ne_nil _ h.nonempty
    have hmem := mem_inverse hone he
    rw [hnil] at hmem
    cases hmem
  · obtain ⟨ha, hu, hunify⟩ := h.mem _ (mem_of_mem_inverse he)
    exact ⟨hu, ha, Triple.unify?_isSome_comm hunify⟩

theorem inverse_pair {t u : Triple} (h : m.triples.entries = [(t, u)]) : m.inverse.triples.entries = [(u, t)] := by
  unfold inverse
  rw [h]
  rfl

theorem inverse_congr (h : m.triples = n.triples) : m.inverse.triples = n.inverse.triples := by
  unfold inverse
  rw [h]

/-! ## Proper matches -/

/-- No triple is lined up twice, and the sites that face each other are those of the triples that do. -/
structure Proper (m : Match) : Prop where
  oneToOne : m.OneToOne
  sites : ∀ e, e ∈ m.sites.entries ↔ ∃ p ∈ m.triples.entries, p.1.Pairs p.2 e

/-- Proper matches of the same triples are equal. -/
theorem Proper.ext (hm : m.Proper) (hn : n.Proper) (h : m.triples = n.triples) : m = n := by
  have hsites : m.sites = n.sites := SortedMap.ext_mem fun e => by rw [hm.sites, hn.sites, h]
  cases m
  cases n
  simp_all

/-- A facing site is found from either side. -/
theorem Proper.sites_oneToOne (h : m.Proper) : ∀ e ∈ m.sites.entries, ∀ e' ∈ m.sites.entries, e.2 = e'.2 → e = e' := by
  intro e he e' he' heq
  obtain ⟨p, hp, i, _, rfl⟩ := (h.sites e).1 he
  obtain ⟨p', hp', i', _, rfl⟩ := (h.sites e').1 he'
  obtain ⟨htriple, rfl⟩ := Site.mk.inj heq
  rw [h.oneToOne p hp p' hp' htriple]

theorem Proper.inverse (h : m.Proper) : m.inverse.Proper := by
  refine ⟨fun e he e' he' heq => ?_, fun e => ?_⟩
  · exact Prod.swap_injective (SortedMap.eq_of_key_eq (mem_of_mem_inverse he) (mem_of_mem_inverse he') heq)
  · have hentries : e ∈ m.inverse.sites.entries ↔ e.swap ∈ m.sites.entries := mem_ofList_swapEntries h.sites_oneToOne
    rw [hentries, h.sites]
    constructor
    · rintro ⟨p, hp, hpairs⟩
      exact ⟨p.swap, mem_inverse h.oneToOne hp, hpairs.swap⟩
    · rintro ⟨p, hp, hpairs⟩
      exact ⟨p.swap, mem_of_mem_inverse hp, hpairs.swap⟩

/-- Turned around twice a match is what it was. -/
theorem Proper.inverse_inverse (h : m.Proper) : m.inverse.inverse = m := by
  refine h.inverse.inverse.ext h (SortedMap.ext_mem fun e => ?_)
  constructor
  · exact fun he => mem_of_mem_inverse (mem_of_mem_inverse he)
  · exact fun he => mem_inverse h.inverse.oneToOne (mem_inverse h.oneToOne he)

theorem Proper.merge? (hm : m.Proper) (hn : n.Proper) (h : m.merge? n = some c) : c.Proper := by
  refine ⟨hm.oneToOne.merge? hn.oneToOne h, fun e => ?_⟩
  obtain ⟨_, hapart, hsites⟩ := merge?_eq_some h
  have hkeys {α β : Type} [Ord α] [TransOrd α] [LawfulEqOrd α] (l : SortedMap α β) :
      ∀ e ∈ l.entries, ∀ e' ∈ l.entries, e.1 = e'.1 → e = e' := fun _ he _ he' heq => SortedMap.eq_of_key_eq he he' heq
  rw [hsites, SortedMap.mem_entries_insertAll (hkeys _)]
  have hsource : e ∈ m.sites.entries → ∀ f ∈ n.sites.entries, f.1 ≠ e.1 := by
    intro he f hf heq
    obtain ⟨p, hp, i, _, rfl⟩ := (hm.sites e).1 he
    obtain ⟨q, hq, j, _, rfl⟩ := (hn.sites f).1 hf
    exact hapart p hp q hq (congrArg Site.triple heq).symm
  rw [and_iff_right_of_imp hsource, hm.sites, hn.sites, or_comm]
  simp only [mem_merge?_iff h, or_and_right, exists_or]

/-- A single pair of triples that unify is a proper match. -/
theorem proper_of_between? {t u : Triple} (h : between? t u = some m) : m.Proper := by
  obtain ⟨sites, hsites, rfl⟩ := Option.map_eq_some_iff.1 h
  have hentries : ∀ e ∈ ((∅ : SortedMap Triple Triple).insert t u).entries, e = (t, u) := fun e he =>
    List.mem_singleton.1 he
  refine ⟨fun e he e' he' _ => by rw [hentries e he, hentries e' he'], fun e => ?_⟩
  constructor
  · exact fun he => ⟨(t, u), List.mem_singleton.2 rfl, ((Triple.unify?_some hsites).1 e).1 he⟩
  · rintro ⟨p, hp, hpairs⟩
    rw [hentries p hp] at hpairs
    exact ((Triple.unify?_some hsites).1 e).2 hpairs

end Match

theorem proper_of_candidate {t : Triple} {q : Pattern} {m : Match} (h : m ∈ candidates t q) : m.Proper := by
  obtain ⟨u, _, hm⟩ := mem_candidates.1 h
  exact Match.proper_of_between? hm

/-- All matches that are found are proper. -/
theorem findMatches_proper {p q : Pattern} {strategy : Strategy} : ∀ m ∈ findMatches p q strategy, m.Proper :=
  findMatches_forall (fun _ _ _ ha hb hm => ha.merge? hb hm) fun _ _ _ hmc => proper_of_candidate hmc

/-! ## Sets of proper matches -/

namespace MatchSet

variable {s t : MatchSet} {m : Match}

def Proper (s : MatchSet) : Prop := ∀ m ∈ s, m.Proper

theorem proper_empty : (∅ : MatchSet).Proper := fun m hm => absurd hm (SortedSet.not_mem_emptyCollection m)

theorem eq_of_compare (a b : Match) (ha : a.Proper) (hb : b.Proper) (h : compare a b = .eq) : a = b :=
  ha.ext hb (Match.triples_eq h)

theorem Proper.mem_insertAll (hs : s.Proper) (ht : t.Proper) : m ∈ s.insertAll t.toList ↔ m ∈ s ∨ m ∈ t :=
  SortedSet.mem_insertAll_of_kind eq_of_compare hs ht

theorem Proper.insertAll (hs : s.Proper) (ht : t.Proper) : Proper (s.insertAll t.toList) :=
  fun m hm => (SortedSet.mem_of_mem_insertAll hm).elim (hs m) (ht m)

theorem mem_ofList {l : List Match} (hl : ∀ a ∈ l, a.Proper) : m ∈ SortedSet.ofList l ↔ m ∈ l :=
  (SortedSet.mem_insertAll_of_kind eq_of_compare proper_empty hl).trans
    (or_iff_right (SortedSet.not_mem_emptyCollection m))

theorem Proper.mem_inverse (hs : s.Proper) : m ∈ s.inverse ↔ ∃ n ∈ s, n.inverse = m := by
  have hl : ∀ a ∈ s.toList.map Match.inverse, a.Proper := fun a ha => by
    obtain ⟨n, hn, rfl⟩ := List.mem_map.1 ha
    exact (hs n hn).inverse
  rw [MatchSet.inverse, mem_ofList hl, List.mem_map]
  rfl

theorem Proper.inverse (hs : s.Proper) : s.inverse.Proper := fun m hm => by
  obtain ⟨n, hn, rfl⟩ := hs.mem_inverse.1 hm
  exact (hs n hn).inverse

/-- Turned around twice a set of matches is what it was. -/
theorem Proper.inverse_inverse (hs : s.Proper) : s.inverse.inverse = s := by
  refine SortedSet.ext_mem fun m => ?_
  rw [hs.inverse.mem_inverse]
  constructor
  · rintro ⟨n, hn, rfl⟩
    obtain ⟨k, hk, rfl⟩ := hs.mem_inverse.1 hn
    rwa [(hs k hk).inverse_inverse]
  · exact fun hm => ⟨m.inverse, hs.mem_inverse.2 ⟨m, hm, rfl⟩, (hs m hm).inverse_inverse⟩

/-- Turning around goes with adding. -/
theorem Proper.inverse_insertAll (hs : s.Proper) (ht : t.Proper) :
    MatchSet.inverse (s.insertAll t.toList) = s.inverse.insertAll t.inverse.toList := by
  refine SortedSet.ext_mem fun m => ?_
  rw [(hs.insertAll ht).mem_inverse, hs.inverse.mem_insertAll ht.inverse, hs.mem_inverse, ht.mem_inverse]
  simp only [hs.mem_insertAll ht, or_and_right, exists_or]

end MatchSet

end TripleChain
