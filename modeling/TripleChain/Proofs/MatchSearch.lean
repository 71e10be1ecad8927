import TripleChain.Match.Search
import TripleChain.Proofs.Unification
import Mathlib.Data.List.Nodup
/-!
# What the search for matches finds

All matches found line up triples of the one pattern with triples of the other that unify
(`findMatches_between`). The strategy `all` finds every single pair (`findsPairs_all`), and so does `biggest`
when the second pattern has one triple only (`findsPairs_singleton`). Under the strategy `full` no triple of
the first pattern is left out (`findMatches_full`).

Without the strategy `full` the search is made of rounds that are all alike, one for each triple (`Found.search`), and
a round adds to what there is the candidates of its triple, and their merges with what was found before
(`Found.has_step`).
-/

open Std

namespace TripleChain

namespace Match

theorem agree_iff {e f : Site × Site} : agree e f = true ↔ (e.1.term = f.1.term ↔ e.2.term = f.2.term) := by
  unfold agree
  rw [beq_iff_eq, Bool.eq_iff_iff, beq_iff_eq, beq_iff_eq]

theorem mergeTriples?_eq_some {a b c : SortedMap Triple Triple} : mergeTriples? a b = some c ↔
    (∀ e ∈ a.entries, ∀ e' ∈ b.entries, e.1 ≠ e'.1 ∧ e.2 ≠ e'.2) ∧ a.insertAll b.entries = c := by
  have hany : (b.any fun p q => a.contains p || a.values.contains q) = true ↔
      ∃ e ∈ a.entries, ∃ e' ∈ b.entries, e.1 = e'.1 ∨ e.2 = e'.2 := by
    simp only [SortedMap.any, List.any_eq_true, Bool.or_eq_true, SortedMap.contains, beq_iff_eq, Std.compare_eq_iff_eq,
      List.contains_iff_mem, SortedMap.values, List.mem_map]
    constructor
    · rintro ⟨e', he', ⟨e, he, heq⟩ | ⟨e, he, heq⟩⟩
      · exact ⟨e, he, e', he', .inl heq⟩
      · exact ⟨e, he, e', he', .inr heq⟩
    · rintro ⟨e, he, e', he', heq | heq⟩
      · exact ⟨e', he', .inl ⟨e, he, heq⟩⟩
      · exact ⟨e', he', .inr ⟨e, he, heq⟩⟩
  unfold mergeTriples?
  split
  · next h =>
    obtain ⟨e, he, e', he', heq⟩ := hany.1 h
    refine iff_of_false (by simp) fun hno => ?_
    obtain ⟨hsource, htarget⟩ := hno.1 e he e' he'
    exact heq.elim hsource htarget
  · next h =>
    rw [hany] at h
    rw [Option.some.injEq, iff_and_self]
    exact fun _ e he e' he' => ⟨fun heq => h ⟨e, he, e', he', .inl heq⟩, fun heq => h ⟨e, he, e', he', .inr heq⟩⟩

theorem mergeSites?_eq_some {a b c : SiteMap} : mergeSites? a b = some c ↔
    (∀ e ∈ a.entries, ∀ f ∈ b.entries, e.1.term = f.1.term ↔ e.2.term = f.2.term) ∧ a.insertAll b.entries = c := by
  have hall : (b.entries.all fun f => a.entries.all fun e => agree e f) = true ↔
      ∀ e ∈ a.entries, ∀ f ∈ b.entries, e.1.term = f.1.term ↔ e.2.term = f.2.term := by
    simp only [List.all_eq_true, agree_iff]
    exact ⟨fun h e he f hf => h f hf e he, fun h f hf e he => h e he f hf⟩
  unfold mergeSites?
  split
  · next h =>
    rw [Option.some.injEq, iff_and_self]
    exact fun _ => hall.1 h
  · next h => exact iff_of_false (by simp) fun hno => h (hall.2 hno.1)

/-- Matches merge when no triple is lined up in both and their sites agree. -/
theorem merge?_eq_some_iff {m n c : Match} : m.merge? n = some c ↔
    (∀ e ∈ m.triples.entries, ∀ e' ∈ n.triples.entries, e.1 ≠ e'.1 ∧ e.2 ≠ e'.2) ∧
      (∀ e ∈ m.sites.entries, ∀ f ∈ n.sites.entries, e.1.term = f.1.term ↔ e.2.term = f.2.term) ∧
        c = ⟨m.triples.insertAll n.triples.entries, m.sites.insertAll n.sites.entries⟩ := by
  unfold merge?
  constructor
  · intro h
    obtain ⟨triples, ht, h⟩ := Option.bind_eq_some_iff.1 h
    obtain ⟨sites, hs, h⟩ := Option.bind_eq_some_iff.1 h
    obtain ⟨hapart, rfl⟩ := mergeTriples?_eq_some.1 ht
    obtain ⟨hagree, rfl⟩ := mergeSites?_eq_some.1 hs
    exact ⟨hapart, hagree, (Option.some.inj h).symm⟩
  · rintro ⟨hapart, hagree, rfl⟩
    rw [mergeTriples?_eq_some.2 ⟨hapart, rfl⟩, mergeSites?_eq_some.2 ⟨hagree, rfl⟩]
    rfl

/-- What merging gives: all that is lined up in either match, where no triple is lined up in both. -/
theorem merge?_eq_some {m n c : Match} (h : m.merge? n = some c) :
    c.triples = m.triples.insertAll n.triples.entries ∧
      (∀ e ∈ m.triples.entries, ∀ e' ∈ n.triples.entries, e.1 ≠ e'.1) ∧
        c.sites = m.sites.insertAll n.sites.entries := by
  obtain ⟨hapart, _, rfl⟩ := merge?_eq_some_iff.1 h
  exact ⟨rfl, fun e he e' he' => (hapart e he e' he').1, rfl⟩

theorem merge?_triples {m n c : Match} (h : m.merge? n = some c) :
    c.triples = m.triples.insertAll n.triples.entries := (merge?_eq_some h).1

theorem mem_merge? {m n c : Match} (h : m.merge? n = some c) {e : Triple × Triple} (he : e ∈ c.triples.entries) :
    e ∈ m.triples.entries ∨ e ∈ n.triples.entries := by
  rw [merge?_triples h] at he
  exact SortedMap.mem_of_mem_insertAll he

/-- A merge lines up what either of the two lines up. -/
theorem mem_merge?_iff {m n c : Match} (h : m.merge? n = some c) {e : Triple × Triple} :
    e ∈ c.triples.entries ↔ e ∈ m.triples.entries ∨ e ∈ n.triples.entries := by
  obtain ⟨htriples, hapart, _⟩ := merge?_eq_some h
  rw [htriples, SortedMap.mem_entries_insertAll fun _ he _ he' heq => SortedMap.eq_of_key_eq he he' heq, or_comm]
  exact or_congr_left (and_iff_right_of_imp fun he e' he' heq => hapart e he e' he' heq.symm)

theorem between?_some {p q : Triple} {m : Match} (h : between? p q = some m) :
    m.triples.entries = [(p, q)] ∧ (p.unify? q).isSome = true := by
  obtain ⟨sites, hs, rfl⟩ := Option.map_eq_some_iff.1 h
  exact ⟨rfl, by rw [hs]; rfl⟩

/-- The match lines up some triples, each with one of the other pattern that it unifies with. -/
structure Between (p q : Pattern) (m : Match) : Prop where
  nonempty : m.triples.entries ≠ []
  mem : ∀ e ∈ m.triples.entries, e.1 ∈ p ∧ e.2 ∈ q ∧ (e.1.unify? e.2).isSome = true

end Match

theorem SortedMap.insertAll_entries_ne_nil {α β : Type} [Ord α] [TransOrd α] {m : SortedMap α β}
    {l : List (α × β)} (h : m.entries ≠ []) : (m.insertAll l).entries ≠ [] := by
  induction l generalizing m with
  | nil => exact h
  | cons a l ih =>
    apply ih (m := m.insert a.1 a.2)
    show SortedMap.insertEntry a.1 a.2 m.entries ≠ []
    unfold SortedMap.insertEntry
    split
    · simp
    · split <;> simp

theorem mem_candidates {p : Triple} {q : Pattern} {m : Match} :
    m ∈ candidates p q ↔ ∃ t ∈ q, Match.between? p t = some m := by
  rw [candidates, List.mem_filterMap]
  rfl

namespace Found.Round

/-- The candidate merged with the biggest matches. -/
def mergeBiggest (f : Found) (r : Round) (c : Match) : Round :=
  { r with
    merged := !(f.biggest.filterMap (·.merge? c)).isEmpty
    toBiggest := r.toBiggest ++ f.biggest.filterMap (·.merge? c) }

/-- The candidate merged with all matches before it. -/
def joined (fullOnly : Bool) (f : Found) (r : Round) (c : Match) : Round :=
  if fullOnly then mergeBiggest f r c else f.smaller.foldl (enlarge c) (mergeBiggest f r c)

/-- A smaller match that goes with the candidate makes one match, which is small only if the smaller match is part of
a big one already. -/
theorem enlarge_cases (c : Match) (r : Round) (a : Match) :
    a.merge? c = none ∧ enlarge c r a = r ∨
      ∃ n, a.merge? c = some n ∧
        (r.merged = true ∧ (∃ x ∈ r.toBiggest, a.isSubMatch x = true) ∧
            enlarge c r a = { r with toSmaller := r.toSmaller ++ [n] } ∨
          enlarge c r a = { r with merged := true, toBiggest := r.toBiggest ++ [n] }) := by
  unfold enlarge
  split
  · next h => exact .inl ⟨h, rfl⟩
  · next n h =>
    refine .inr ⟨n, h, ?_⟩
    split
    · next hpart =>
      rw [Bool.and_eq_true, List.any_eq_true] at hpart
      exact .inl ⟨hpart.1, hpart.2, rfl⟩
    · exact .inr rfl

/-- After its merges a candidate goes to one of the lists itself. -/
theorem add_cases (fullOnly : Bool) (f : Found) (r : Round) (c : Match) :
    fullOnly = false ∧ add fullOnly f r c =
        { joined fullOnly f r c with toBiggest := (joined fullOnly f r c).toBiggest ++ [c] } ∨
      add fullOnly f r c = { joined fullOnly f r c with toSmaller := (joined fullOnly f r c).toSmaller ++ [c] } := by
  have heq : add fullOnly f r c =
      if !(joined fullOnly f r c).merged && !fullOnly then
        { joined fullOnly f r c with toBiggest := (joined fullOnly f r c).toBiggest ++ [c] }
      else { joined fullOnly f r c with toSmaller := (joined fullOnly f r c).toSmaller ++ [c] } := rfl
  rw [heq]
  split
  · next h =>
    rw [Bool.and_eq_true, Bool.not_eq_true'] at h
    exact .inl ⟨by simpa using h.2, rfl⟩
  · exact .inr rfl

end Found.Round

/-! ## Whatever merging keeps -/

section Keeps

variable {R : Match → Prop} (hm : ∀ a b c, R a → R b → a.merge? b = some c → R c)

/-- All matches of a round. -/
def Found.Round.Forall (R : Match → Prop) (r : Found.Round) : Prop :=
  (∀ m ∈ r.toBiggest, R m) ∧ ∀ m ∈ r.toSmaller, R m

/-- All matches found. -/
def Found.Forall (R : Match → Prop) (f : Found) : Prop := (∀ m ∈ f.biggest, R m) ∧ ∀ m ∈ f.smaller, R m

include hm

theorem Found.Round.Forall.enlarge {r : Found.Round} {c m : Match} (hr : r.Forall R) (hc : R c) (h : R m) :
    (Found.Round.enlarge c r m).Forall R := by
  rcases Found.Round.enlarge_cases c r m with ⟨_, heq⟩ | ⟨n, hn, ⟨_, _, heq⟩ | heq⟩ <;> rw [heq]
  · exact hr
  · exact ⟨hr.1, List.forall_mem_append.2 ⟨hr.2, by simpa using hm m c n h hc hn⟩⟩
  · exact ⟨List.forall_mem_append.2 ⟨hr.1, by simpa using hm m c n h hc hn⟩, hr.2⟩

theorem Found.Round.Forall.enlargeAll {l : List Match} {r : Found.Round} {c : Match} (hr : r.Forall R) (hc : R c)
    (hl : ∀ m ∈ l, R m) : (l.foldl (Found.Round.enlarge c) r).Forall R := by
  induction l generalizing r with
  | nil => exact hr
  | cons a l ih =>
    exact ih (hr.enlarge hm hc (hl a List.mem_cons_self)) fun m h => hl m (List.mem_cons_of_mem a h)

theorem Found.Round.Forall.add {fullOnly : Bool} {f : Found} {r : Found.Round} {c : Match} (hf : f.Forall R)
    (hr : r.Forall R) (hc : R c) : (Found.Round.add fullOnly f r c).Forall R := by
  have hjoined : (Found.Round.joined fullOnly f r c).Forall R := by
    have hmerged : (Found.Round.mergeBiggest f r c).Forall R := by
      refine ⟨List.forall_mem_append.2 ⟨hr.1, fun m h => ?_⟩, hr.2⟩
      obtain ⟨a, ha, heq⟩ := List.mem_filterMap.1 h
      exact hm a c m (hf.1 a ha) hc heq
    unfold Found.Round.joined
    split
    · exact hmerged
    · exact hmerged.enlargeAll hm hc hf.2
  rcases Found.Round.add_cases fullOnly f r c with ⟨_, heq⟩ | heq
  · rw [heq]
    exact ⟨List.forall_mem_append.2 ⟨hjoined.1, by simpa using hc⟩, hjoined.2⟩
  · rw [heq]
    exact ⟨hjoined.1, List.forall_mem_append.2 ⟨hjoined.2, by simpa using hc⟩⟩

theorem Found.Round.Forall.addAll {fullOnly : Bool} {f : Found} {l : List Match} {r : Found.Round}
    (hf : f.Forall R) (hr : r.Forall R) (hl : ∀ m ∈ l, R m) :
    (l.foldl (Found.Round.add fullOnly f) r).Forall R := by
  induction l generalizing r with
  | nil => exact hr
  | cons a l ih =>
    exact ih (Found.Round.Forall.add hm hf hr (hl a List.mem_cons_self)) fun m h => hl m (List.mem_cons_of_mem a h)

theorem Found.Forall.step {fullOnly : Bool} {f : Found} {l : List Match} (hf : f.Forall R) (hl : ∀ m ∈ l, R m) :
    (f.step fullOnly l).Forall R := by
  have hround : (l.foldl (Found.Round.add fullOnly f) ⟨false, [], []⟩).Forall R :=
    Found.Round.Forall.addAll hm hf ⟨by simp, by simp⟩ hl
  obtain ⟨hb, hs⟩ := hround
  refine ⟨List.forall_mem_append.2 ⟨fun m h => hf.1 m (List.mem_filter.1 h).1, hb⟩,
    List.forall_mem_append.2 ⟨List.forall_mem_append.2 ⟨hf.2, fun m h => ?_⟩, hs⟩⟩
  exact hf.1 m (List.mem_filter.1 (List.mem_reverse.1 h)).1

theorem Found.Forall.steps {fullOnly : Bool} {f : Found} {ls : List (List Match)} (hf : f.Forall R)
    (hl : ∀ l ∈ ls, ∀ m ∈ l, R m) : (ls.foldl (Found.step fullOnly) f).Forall R := by
  induction ls generalizing f with
  | nil => exact hf
  | cons l ls ih =>
    exact ih (hf.step hm (hl l List.mem_cons_self)) fun a ha => hl a (List.mem_cons_of_mem l ha)

/-- What holds of single pairs and is kept by merging holds of all matches. -/
theorem findMatches_forall {p q : Pattern} {strategy : Strategy}
    (hc : ∀ t ∈ p, ∀ m ∈ candidates t q, R m) : ∀ m ∈ findMatches p q strategy, R m := by
  have hl : ∀ l ∈ (p.toList.map (candidates · q)).filter (!·.isEmpty), ∀ m ∈ l, R m := fun l h m hml => by
    obtain ⟨t, ht, rfl⟩ := List.mem_map.1 (List.mem_filter.1 h).1
    exact hc t ht m hml
  unfold findMatches
  dsimp only
  split
  · exact fun m h => absurd h (SortedSet.not_mem_emptyCollection m)
  · split
    · exact fun m h => absurd h (SortedSet.not_mem_emptyCollection m)
    · next first rest heq =>
      rw [heq] at hl
      have hf : Found.Forall R (rest.foldl (Found.step (strategy == .full)) ⟨first, []⟩) :=
        Found.Forall.steps hm ⟨hl first List.mem_cons_self, by simp⟩ fun l h => hl l (List.mem_cons_of_mem first h)
      intro m h
      split at h
      · rcases SortedSet.mem_of_mem_insertAll h with h | h
        · exact hf.1 m (SortedSet.mem_of_mem_ofList h)
        · exact hf.2 m h
      · exact hf.1 m (SortedSet.mem_of_mem_ofList h)

end Keeps

/-- Every match found lines up triples that unify. -/
theorem findMatches_between {p q : Pattern} {strategy : Strategy} :
    ∀ m ∈ findMatches p q strategy, m.Between p q := by
  refine findMatches_forall (R := Match.Between p q) (fun a b c ha hb hm => ⟨?_, fun e he => ?_⟩)
    fun t ht m hmc => ?_
  · rw [Match.merge?_triples hm]
    exact SortedMap.insertAll_entries_ne_nil ha.nonempty
  · rcases Match.mem_merge? hm he with he | he
    · exact ha.mem e he
    · exact hb.mem e he
  · obtain ⟨u, hu, heq⟩ := mem_candidates.1 hmc
    obtain ⟨hentries, hunify⟩ := Match.between?_some heq
    refine ⟨by rw [hentries]; simp, fun e he => ?_⟩
    rw [hentries, List.mem_singleton] at he
    subst he
    exact ⟨ht, hu, hunify⟩

/-- A match has something to lead to. -/
theorem isEmpty_of_mem_findMatches {p q : Pattern} {strategy : Strategy} {m : Match}
    (h : m ∈ findMatches p q strategy) :
    p.isEmpty = false ∧ q.isEmpty = false := by
  have hm := findMatches_between m h
  obtain ⟨e, he⟩ := List.exists_mem_of_ne_nil _ hm.nonempty
  obtain ⟨ht, hu, _⟩ := hm.mem e he
  exact ⟨SortedSet.isEmpty_eq_false ht, SortedSet.isEmpty_eq_false hu⟩

/-- No triple of the second pattern is lined up twice. -/
def Match.OneToOne (m : Match) : Prop :=
  ∀ e ∈ m.triples.entries, ∀ e' ∈ m.triples.entries, e.2 = e'.2 → e = e'

theorem Match.OneToOne.merge? {m n c : Match} (hm : m.OneToOne) (hn : n.OneToOne) (h : m.merge? n = some c) :
    c.OneToOne := by
  have hapart : ∀ e ∈ m.triples.entries, ∀ e' ∈ n.triples.entries, e.2 ≠ e'.2 := fun e he e' he' =>
    ((Match.merge?_eq_some_iff.1 h).1 e he e' he').2
  intro e he e' he' heq
  rcases Match.mem_merge? h he with he | he <;> rcases Match.mem_merge? h he' with he' | he'
  · exact hm e he e' he' heq
  · exact absurd heq (hapart e he e' he')
  · exact absurd heq.symm (hapart e' he' e he)
  · exact hn e he e' he' heq

theorem findMatches_oneToOne {p q : Pattern} {strategy : Strategy} : ∀ m ∈ findMatches p q strategy, m.OneToOne := by
  refine findMatches_forall (R := Match.OneToOne) (fun a b c ha hb hm => ha.merge? hb hm) fun t ht m hmc => ?_
  obtain ⟨u, hu, heq⟩ := mem_candidates.1 hmc
  obtain ⟨hentries, _⟩ := Match.between?_some heq
  intro e he e' he' _
  rw [hentries, List.mem_singleton] at he he'
  rw [he, he']

/-- A match pairs some triples, and no more than there are in the second pattern. -/
theorem size_le_of_mem_findMatches {p q : Pattern} {strategy : Strategy} {m : Match}
    (h : m ∈ findMatches p q strategy) :
    0 < m.size ∧ m.size ≤ q.size := by
  have hbetween := findMatches_between m h
  refine ⟨List.length_pos_iff.2 hbetween.nonempty, ?_⟩
  have hentries : m.triples.entries.Nodup := List.Nodup.of_map _ m.triples.nodup_keys
  have hnodup : (m.triples.entries.map Prod.snd).Nodup :=
    List.Nodup.map_on (fun e he e' he' heq => findMatches_oneToOne m h e he e' he' heq) hentries
  have hsub : m.triples.entries.map Prod.snd ⊆ q.toList := fun u hu => by
    obtain ⟨e, he, rfl⟩ := List.mem_map.1 hu
    exact (hbetween.mem e he).2.1
  have hle := (List.subperm_of_subset hnodup hsub).length_le
  rwa [List.length_map] at hle

/-! ## Single pairs -/

namespace Found

/-- The match is in one list or the other. -/
def Round.Has (r : Round) (m : Match) : Prop := m ∈ r.toBiggest ∨ m ∈ r.toSmaller

/-- The match is in one list or the other. -/
def Has (f : Found) (m : Match) : Prop := m ∈ f.biggest ∨ m ∈ f.smaller

variable {f : Found} {r : Round} {l : List Match} {c m : Match}

theorem Round.has_enlarge {a : Match} : (Round.enlarge c r a).Has m ↔ r.Has m ∨ a.merge? c = some m := by
  rcases Round.enlarge_cases c r a with ⟨hn, heq⟩ | ⟨n, hn, ⟨_, _, heq⟩ | heq⟩ <;> rw [heq, hn]
  · simp
  · show _ ∨ m ∈ r.toSmaller ++ [n] ↔ _
    rw [List.mem_append, List.mem_singleton, ← or_assoc, Option.some.injEq, eq_comm (a := n)]
    rfl
  · show m ∈ r.toBiggest ++ [n] ∨ _ ↔ _
    rw [List.mem_append, List.mem_singleton, or_right_comm, Option.some.injEq, eq_comm (a := n)]
    rfl

theorem Round.has_enlargeAll : (l.foldl (Round.enlarge c) r).Has m ↔ r.Has m ∨ ∃ a ∈ l, a.merge? c = some m := by
  induction l generalizing r with
  | nil => simp
  | cons a l ih => rw [List.foldl_cons, ih, has_enlarge, List.exists_mem_cons_iff, or_assoc]

theorem Round.has_mergeBiggest : (mergeBiggest f r c).Has m ↔ r.Has m ∨ ∃ a ∈ f.biggest, a.merge? c = some m := by
  show m ∈ r.toBiggest ++ _ ∨ _ ↔ _
  rw [List.mem_append, List.mem_filterMap, or_right_comm]
  rfl

/-- A candidate adds itself and all its merges. -/
theorem Round.has_add : (add false f r c).Has m ↔ r.Has m ∨ m = c ∨ ∃ a, f.Has a ∧ a.merge? c = some m := by
  have hself : (add false f r c).Has m ↔ (joined false f r c).Has m ∨ m = c := by
    rcases add_cases false f r c with ⟨_, heq⟩ | heq
    · rw [heq]
      show m ∈ (joined false f r c).toBiggest ++ [c] ∨ _ ↔ _
      rw [List.mem_append, List.mem_singleton, or_right_comm]
      rfl
    · rw [heq]
      show _ ∨ m ∈ (joined false f r c).toSmaller ++ [c] ↔ _
      rw [List.mem_append, List.mem_singleton, ← or_assoc]
      rfl
  have hjoined : (joined false f r c).Has m ↔ r.Has m ∨ ∃ a, f.Has a ∧ a.merge? c = some m := by
    show (f.smaller.foldl (enlarge c) (mergeBiggest f r c)).Has m ↔ _
    rw [has_enlargeAll, has_mergeBiggest, or_assoc]
    simp only [Found.Has, or_and_right, exists_or]
  rw [hself, hjoined, or_assoc, or_comm (b := m = c)]

theorem Round.has_addAll : (l.foldl (Round.add false f) r).Has m ↔
    r.Has m ∨ ∃ c ∈ l, m = c ∨ ∃ a, f.Has a ∧ a.merge? c = some m := by
  induction l generalizing r with
  | nil => simp
  | cons c l ih => rw [List.foldl_cons, ih, has_add, List.exists_mem_cons_iff, or_assoc]

/-- One more triple adds its candidates and all that they make of the matches before. -/
theorem has_step : (f.step false l).Has m ↔ f.Has m ∨ ∃ c ∈ l, m = c ∨ ∃ a, f.Has a ∧ a.merge? c = some m := by
  have hround := Round.has_addAll (f := f) (r := ⟨false, [], []⟩) (l := l) (m := m)
  rw [or_iff_right (by simp [Round.Has])] at hround
  rw [← hround]
  show m ∈ _ ++ _ ∨ m ∈ _ ++ _ ++ _ ↔ _
  simp only [List.mem_append, List.mem_reverse, List.mem_filter, Round.Has, Has]
  cases l.any fun c => false || (m.merge? c).isSome <;> simp <;> tauto

theorem has_steps {ls : List (List Match)} (h : (∃ l ∈ ls, m ∈ l) ∨ f.Has m) : (ls.foldl (step false) f).Has m := by
  induction ls generalizing f with
  | nil => exact h.resolve_left (by simp)
  | cons l ls ih =>
    apply ih
    rcases h with ⟨a, ha, hm⟩ | h
    · rcases List.mem_cons.1 ha with rfl | ha
      · exact .inr (has_step.2 (.inr ⟨m, hm, .inl rfl⟩))
      · exact .inl ⟨a, ha, hm⟩
    · exact .inr (has_step.2 (.inl h))

theorem Round.mem_toBiggest_enlargeAll (h : m ∈ r.toBiggest) : m ∈ (l.foldl (Round.enlarge c) r).toBiggest := by
  induction l generalizing r with
  | nil => exact h
  | cons a l ih =>
    apply ih
    rcases Round.enlarge_cases c r a with ⟨_, heq⟩ | ⟨n, _, ⟨_, _, heq⟩ | heq⟩ <;> rw [heq]
    · exact h
    · exact h
    · exact List.mem_append_left _ h

/-- What was big in a round, and what a candidate makes of the big matches before the round, is big. -/
theorem Round.mem_toBiggest_add {fullOnly : Bool} (h : m ∈ (Round.mergeBiggest f r c).toBiggest) :
    m ∈ (Round.add fullOnly f r c).toBiggest := by
  have hjoined : m ∈ (Round.joined fullOnly f r c).toBiggest := by
    unfold Round.joined
    split
    · exact h
    · exact mem_toBiggest_enlargeAll h
  rcases Round.add_cases fullOnly f r c with ⟨_, heq⟩ | heq
  · rw [heq]
    exact List.mem_append_left _ hjoined
  · rw [heq]
    exact hjoined

theorem Round.mem_toBiggest_addAll {fullOnly : Bool}
    (h : m ∈ r.toBiggest ∨ ∃ a ∈ f.biggest, ∃ c ∈ l, a.merge? c = some m) :
    m ∈ (l.foldl (Round.add fullOnly f) r).toBiggest := by
  induction l generalizing r with
  | nil => exact h.resolve_right (by simp)
  | cons c l ih =>
    apply ih
    rcases h with h | ⟨a, ha, c', hc, hm⟩
    · exact .inl (Round.mem_toBiggest_add (List.mem_append_left _ h))
    · rcases List.mem_cons.1 hc with rfl | hc
      · exact .inl (Round.mem_toBiggest_add (List.mem_append_right _ (List.mem_filterMap.2 ⟨a, ha, hm⟩)))
      · exact .inr ⟨a, ha, c', hc, hm⟩

/-! ## The lists after all triples -/

theorem Round.enlargeAll_of_no_merge (r : Round) (h : ∀ m ∈ l, m.merge? c = none) :
    l.foldl (Round.enlarge c) r = r := by
  induction l with
  | nil => rfl
  | cons a l ih =>
    have ha : Round.enlarge c r a = r := by rw [Round.enlarge, h a List.mem_cons_self]
    rw [List.foldl_cons, ha, ih fun m hm => h m (List.mem_cons_of_mem a hm)]

theorem Round.add_of_no_merge (h : ∀ m, f.Has m → m.merge? c = none) :
    Round.add false f r c = { r with merged := false, toBiggest := r.toBiggest ++ [c] } := by
  have hb : f.biggest.filterMap (·.merge? c) = [] := List.filterMap_eq_nil_iff.2 fun m hm => h m (.inl hm)
  have hs (r : Round) : f.smaller.foldl (Round.enlarge c) r = r :=
    Round.enlargeAll_of_no_merge r fun m hm => h m (.inr hm)
  simp [Round.add, hb, hs]

theorem Round.addAll_of_no_merge (h : ∀ m, f.Has m → ∀ c ∈ l, m.merge? c = none) :
    (l.foldl (Round.add false f) r).toBiggest = r.toBiggest ++ l ∧
      (l.foldl (Round.add false f) r).toSmaller = r.toSmaller := by
  induction l generalizing r with
  | nil => simp
  | cons c l ih =>
    rw [List.foldl_cons, Round.add_of_no_merge fun m hm => h m hm c List.mem_cons_self]
    obtain ⟨hb, hs⟩ := ih (r := { r with merged := false, toBiggest := r.toBiggest ++ [c] })
      fun m hm a ha => h m hm a (List.mem_cons_of_mem c ha)
    exact ⟨by rw [hb]; simp, hs⟩

theorem step_of_no_merge (h : ∀ m, f.Has m → ∀ c ∈ l, m.merge? c = none) :
    f.step false l = ⟨f.biggest ++ l, f.smaller⟩ := by
  obtain ⟨hb, hs⟩ := Round.addAll_of_no_merge (r := ⟨false, [], []⟩) h
  have hen : ∀ m ∈ f.biggest, (l.any fun c => false || (m.merge? c).isSome) = false := fun m hm => by
    rw [List.any_eq_false]
    intro c hc
    simp [h m (.inl hm) c hc]
  have h₁ : f.biggest.filter (fun m => !l.any fun c => false || (m.merge? c).isSome) = f.biggest :=
    List.filter_eq_self.2 fun m hm => by rw [hen m hm]; rfl
  have h₂ : f.biggest.filter (fun m => l.any fun c => false || (m.merge? c).isSome) = [] :=
    List.filter_eq_nil_iff.2 fun m hm => by rw [hen m hm]; simp
  unfold step
  simp only [h₁, h₂, hb, hs]
  simp

/-- What comes of the triples `ts`, one by one, when not only full matches are wanted. -/
def search (ts : List Triple) (q : Pattern) : Found := (ts.map (candidates · q)).foldl (step false) ⟨[], []⟩

theorem search_concat (ts : List Triple) (t : Triple) (q : Pattern) :
    search (ts ++ [t]) q = (search ts q).step false (candidates t q) := by
  simp [search]

theorem has_search {ts : List Triple} {t : Triple} {q : Pattern} (ht : t ∈ ts) (hm : m ∈ candidates t q) :
    (search ts q).Has m := has_steps (.inl ⟨_, List.mem_map.2 ⟨t, ht, rfl⟩, hm⟩)

theorem Forall.search {R : Match → Prop} {ts : List Triple} {q : Pattern}
    (hm : ∀ a b c, R a → R b → a.merge? b = some c → R c) (hc : ∀ t ∈ ts, ∀ m ∈ candidates t q, R m) :
    (search ts q).Forall R :=
  Forall.steps hm ⟨by simp, by simp⟩ fun l hl m hml => by
    obtain ⟨t, ht, rfl⟩ := List.mem_map.1 hl
    exact hc t ht m hml

theorem step_first (l : List Match) : (⟨[], []⟩ : Found).step false l = ⟨l, []⟩ := step_of_no_merge (by simp [Has])

/-- Triples without candidates, and that the first triple starts the lists, make no difference. -/
theorem search_rounds (ls : List (List Match)) : ls.foldl (step false) ⟨[], []⟩ =
    match ls.filter (!·.isEmpty) with
    | [] => ⟨[], []⟩
    | first :: rest => rest.foldl (step false) ⟨first, []⟩ := by
  have hnil (f : Found) : f.step false [] = f := by simpa using step_of_no_merge (f := f) (l := []) (by simp)
  have hfilter (ls : List (List Match)) (f : Found) :
      (ls.filter (!·.isEmpty)).foldl (step false) f = ls.foldl (step false) f := by
    induction ls generalizing f with
    | nil => rfl
    | cons l ls ih => cases l <;> simp [hnil, ih]
  rw [← hfilter]
  cases ls.filter (!·.isEmpty) with
  | nil => rfl
  | cons first rest => rw [List.foldl_cons, step_first]

end Found

theorem findMatches_all (p q : Pattern) : findMatches p q .all =
    (SortedSet.ofList (Found.search p.toList q).biggest).insertAll (Found.search p.toList q).smaller := by
  unfold findMatches Found.search
  rw [Found.search_rounds, if_neg (by simp)]
  cases (p.toList.map (candidates · q)).filter (!·.isEmpty) <;> rfl

theorem findMatches_biggest (p q : Pattern) :
    findMatches p q .biggest = SortedSet.ofList (Found.search p.toList q).biggest := by
  unfold findMatches Found.search
  rw [Found.search_rounds, if_neg (by simp)]
  cases (p.toList.map (candidates · q)).filter (!·.isEmpty) <;> rfl

/-- Every pair of triples that unify is a match on its own. -/
def FindsPairs (strategy : Strategy) (p q : Pattern) : Prop :=
  ∀ t ∈ p, ∀ u ∈ q, (t.unify? u).isSome = true →
    ∃ m ∈ findMatches p q strategy, m.triples.entries = [(t, u)]

theorem exists_candidate {t u : Triple} {q : Pattern} (hu : u ∈ q) (h : (t.unify? u).isSome = true) :
    ∃ m ∈ candidates t q, m.triples.entries = [(t, u)] := by
  obtain ⟨sites, hs⟩ := Option.isSome_iff_exists.1 h
  exact ⟨⟨_, sites⟩, mem_candidates.2 ⟨u, hu, by rw [Match.between?, hs]; rfl⟩, rfl⟩

theorem Match.triples_eq {m n : Match} (h : compare m n = .eq) : m.triples = n.triples :=
  Std.compare_eq_iff_eq.1 h

theorem findsPairs_all (p q : Pattern) : FindsPairs .all p q := by
  intro t ht u hu h
  obtain ⟨m, hm, hentries⟩ := exists_candidate hu h
  have hmem : ∃ x ∈ findMatches p q .all, compare m x = .eq := by
    have hhas : (Found.search p.toList q).Has m := Found.has_search ht hm
    rw [findMatches_all]
    rcases hhas with hb | hs
    · obtain ⟨x, hx, hc⟩ := SortedSet.exists_mem_ofList hb
      exact ⟨x, SortedSet.mem_insertAll_of_mem hx, hc⟩
    · exact SortedSet.exists_mem_insertAll hs
  obtain ⟨x, hx, hc⟩ := hmem
  exact ⟨x, hx, by rw [← Match.triples_eq hc, hentries]⟩

/-! ## Patterns of one triple -/

/-- Matches to one and the same triple do not merge. -/
theorem Match.merge?_eq_none {m n : Match} {t t' u : Triple} (hm : m.triples.entries = [(t, u)])
    (hn : n.triples.entries = [(t', u)]) : m.merge? n = none := by
  have ht : Match.mergeTriples? m.triples n.triples = none := by
    unfold Match.mergeTriples?
    rw [if_pos]
    simp [SortedMap.any, hn, SortedMap.values, hm]
  rw [Match.merge?, ht]
  rfl

theorem Found.steps_of_one_target {u : Triple} {ls : List (List Match)} {f : Found}
    (hf : f.Forall fun m => ∃ t, m.triples.entries = [(t, u)])
    (hl : ∀ l ∈ ls, ∀ m ∈ l, ∃ t, m.triples.entries = [(t, u)]) :
    (ls.foldl (Found.step false) f).biggest = f.biggest ++ ls.flatten := by
  -- All matches so far have the one target, and so do the candidates: nothing merges in any round.
  induction ls generalizing f with
  | nil => simp
  | cons l ls ih =>
    have hno : ∀ m, f.Has m → ∀ c ∈ l, m.merge? c = none := fun m hm c hc => by
      obtain ⟨t, ht⟩ := hm.elim (hf.1 m) (hf.2 m)
      obtain ⟨t', ht'⟩ := hl l List.mem_cons_self c hc
      exact Match.merge?_eq_none ht ht'
    rw [List.foldl_cons, Found.step_of_no_merge hno, ih]
    · simp
    · exact ⟨List.forall_mem_append.2 ⟨hf.1, hl l List.mem_cons_self⟩, hf.2⟩
    · exact fun a ha => hl a (List.mem_cons_of_mem l ha)

theorem findsPairs_singleton (p : Pattern) (u : Triple) : FindsPairs .biggest p (.singleton u) := by
  intro t ht v hv h
  rw [SortedSet.mem_singleton] at hv
  subst hv
  obtain ⟨m, hm, hentries⟩ := exists_candidate (SortedSet.mem_singleton.2 rfl) h
  have hone : ∀ l ∈ p.toList.map (candidates · (.singleton v)), ∀ m ∈ l, ∃ t, m.triples.entries = [(t, v)] :=
    fun l hl m hm => by
      obtain ⟨a, _, rfl⟩ := List.mem_map.1 hl
      obtain ⟨w, hw, hb⟩ := mem_candidates.1 hm
      rw [SortedSet.mem_singleton] at hw
      subst hw
      exact ⟨a, (Match.between?_some hb).1⟩
  have hmem : m ∈ (Found.search p.toList (.singleton v)).biggest := by
    rw [Found.search, Found.steps_of_one_target (f := ⟨[], []⟩) ⟨by simp, by simp⟩ hone]
    exact List.mem_append_right _ (List.mem_flatten.2 ⟨_, List.mem_map.2 ⟨t, ht, rfl⟩, hm⟩)
  obtain ⟨x, hx, hc⟩ := SortedSet.exists_mem_ofList hmem
  exact ⟨x, (findMatches_biggest p _).symm ▸ hx, by rw [← Match.triples_eq hc, hentries]⟩

/-! ## Full matches -/

theorem Match.mem_sources {m : Match} {t : Triple} : t ∈ m.sources ↔ ∃ u, m.triples.get? t = some u :=
  SortedMap.mem_keys

theorem SortedMap.mem_keys_insertAll {α β : Type} [Ord α] [TransOrd α] [LawfulEqOrd α] {m : SortedMap α β}
    {l : List (α × β)} {k : α} : k ∈ (m.insertAll l).keys ↔ k ∈ m.keys ∨ ∃ e ∈ l, e.1 = k := by
  induction l generalizing m with
  | nil => simp [insertAll]
  | cons e l ih =>
    have hstep : k ∈ (m.insert e.1 e.2).keys ↔ k ∈ m.keys ∨ e.1 = k := by
      rw [mem_keys, mem_keys, get?_insert]
      by_cases h : e.1 = k <;> simp [h]
    show k ∈ ((m.insert e.1 e.2).insertAll l).keys ↔ _
    rw [ih, hstep, List.exists_mem_cons_iff, or_assoc]

theorem Match.mem_sources_merge? {m n c : Match} (h : m.merge? n = some c) {t : Triple} :
    t ∈ c.sources ↔ t ∈ m.sources ∨ t ∈ n.sources := by
  have hn : t ∈ n.sources ↔ ∃ e ∈ n.triples.entries, e.1 = t := List.mem_map
  rw [Match.sources, merge?_triples h, SortedMap.mem_keys_insertAll, hn]
  rfl

theorem Found.Round.addAll_full {f : Found} {l : List Match} {r : Found.Round} {m : Match}
    (h : m ∈ (l.foldl (Found.Round.add true f) r).toBiggest) :
    m ∈ r.toBiggest ∨ ∃ a ∈ f.biggest, ∃ c ∈ l, a.merge? c = some m := by
  induction l generalizing r with
  | nil => exact .inl h
  | cons c l ih =>
    rcases ih h with h | ⟨a, ha, b, hb, heq⟩
    · rcases Found.Round.add_cases true f r c with ⟨ht, _⟩ | heq
      · cases ht
      · rw [heq] at h
        rcases List.mem_append.1 h with h | h
        · exact .inl h
        · obtain ⟨a, ha, hac⟩ := List.mem_filterMap.1 h
          exact .inr ⟨a, ha, c, List.mem_cons_self, hac⟩
    · exact .inr ⟨a, ha, b, List.mem_cons_of_mem c hb, heq⟩

theorem Found.step_full {f : Found} {l : List Match} {m : Match} (hl : l ≠ []) (h : m ∈ (f.step true l).biggest) :
    ∃ a ∈ f.biggest, ∃ c ∈ l, a.merge? c = some m := by
  rcases List.mem_append.1 h with h | h
  · obtain ⟨c, hc⟩ := List.exists_mem_of_ne_nil l hl
    have := (List.mem_filter.1 h).2
    rw [Bool.not_eq_true', List.any_eq_false] at this
    exact absurd (this c hc) (by simp)
  · exact (Found.Round.addAll_full h).resolve_left (by simp)

theorem sources_of_candidate {t : Triple} {q : Pattern} {m : Match} (h : m ∈ candidates t q) : t ∈ m.sources := by
  obtain ⟨u, _, hb⟩ := mem_candidates.1 h
  rw [Match.sources, SortedMap.keys, (Match.between?_some hb).1]
  simp

theorem Found.steps_full {q : Pattern} {ts done : List Triple} {f : Found}
    (hf : ∀ m ∈ f.biggest, ∀ t ∈ done, t ∈ m.sources) (hts : ∀ t ∈ ts, candidates t q ≠ []) :
    ∀ m ∈ ((ts.map (candidates · q)).foldl (Found.step true) f).biggest, ∀ t ∈ done ++ ts, t ∈ m.sources := by
  -- Each round leaves only matches that have merged with a candidate of its triple.
  induction ts generalizing done f with
  | nil => simpa using hf
  | cons a ts ih =>
    have hstep : ∀ m ∈ (f.step true (candidates a q)).biggest, ∀ t ∈ done ++ [a], t ∈ m.sources := by
      intro m hm t ht
      obtain ⟨b, hb, c, hc, heq⟩ := Found.step_full (hts a List.mem_cons_self) hm
      rw [Match.mem_sources_merge? heq]
      rcases List.mem_append.1 ht with ht | ht
      · exact .inl (hf b hb t ht)
      · rw [List.mem_singleton] at ht
        subst ht
        exact .inr (sources_of_candidate hc)
    have := ih hstep fun t ht => hts t (List.mem_cons_of_mem a ht)
    rwa [List.append_assoc] at this

/-- With candidates for every triple, the full matches are the big ones left after the last of them. -/
theorem findMatches_full_of_cons {p q : Pattern} {a : Triple} {ts : List Triple} (hp : p.toList = a :: ts)
    (hall : ∀ t ∈ p, candidates t q ≠ []) : findMatches p q .full =
      SortedSet.ofList ((ts.map (candidates · q)).foldl (Found.step true) ⟨candidates a q, []⟩).biggest := by
  have hsome : ∀ l ∈ p.toList.map (candidates · q), l.isEmpty = false := fun l hl => by
    obtain ⟨t, ht, rfl⟩ := List.mem_map.1 hl
    simpa using hall t ht
  have hfilter : (p.toList.map (candidates · q)).filter (!·.isEmpty) = p.toList.map (candidates · q) :=
    List.filter_eq_self.2 fun l hl => by rw [hsome l hl]; rfl
  unfold findMatches
  rw [if_neg, hfilter, hp]
  · rfl
  · rw [Bool.and_eq_true, List.any_eq_true]
    rintro ⟨_, l, hl, he⟩
    rw [hsome l hl] at he
    cases he

theorem candidates_ne_nil_of_full {p q : Pattern} {m : Match} {t : Triple} (h : m ∈ findMatches p q .full)
    (ht : t ∈ p) : candidates t q ≠ [] := by
  intro hc
  have hempty : findMatches p q .full = ∅ := by
    unfold findMatches
    rw [if_pos]
    rw [Bool.and_eq_true, List.any_eq_true]
    exact ⟨rfl, candidates t q, List.mem_map.2 ⟨t, ht, rfl⟩, by rw [hc]; rfl⟩
  rw [hempty] at h
  exact SortedSet.not_mem_emptyCollection m h

/-- A full match leaves no triple out. -/
theorem findMatches_full {p q : Pattern} : ∀ m ∈ findMatches p q .full, ∀ t ∈ p, t ∈ m.sources := by
  intro m h t ht
  have hall : ∀ t ∈ p, candidates t q ≠ [] := fun t ht => candidates_ne_nil_of_full h ht
  cases hp : p.toList with
  | nil =>
    rw [SortedSet.mem_def, hp] at ht
    cases ht
  | cons a ts =>
    have hstart : ∀ m ∈ (Found.mk (candidates a q) []).biggest, ∀ t ∈ [a], t ∈ m.sources := fun m hm t ht => by
      rw [List.mem_singleton.1 ht]
      exact sources_of_candidate hm
    have hts : ∀ t ∈ ts, candidates t q ≠ [] := fun t ht =>
      hall t (by rw [SortedSet.mem_def, hp]; exact List.mem_cons_of_mem a ht)
    rw [findMatches_full_of_cons hp hall] at h
    exact Found.steps_full hstart hts m (SortedSet.mem_of_mem_ofList h) t
      (by rw [SortedSet.mem_def, hp] at ht; exact ht)

end TripleChain
