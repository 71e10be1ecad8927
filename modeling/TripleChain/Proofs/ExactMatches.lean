import TripleChain.Proofs.MatchInverse
import Mathlib.Data.List.Induction
/-!
# Which matches there are

A way to line up two patterns is a map from triples of the one to triples of the other that unify, where no
triple is used twice and any two pairs fit (`Aligned`). The search with the strategy `all` finds exactly these
(`findMatches_exact`): merging keeps to them (`Aligned.merge?`), and each is found in the round of the last of its
triples, by a merge of what was found before with a candidate (`Aligned.exists_merge`).
-/

namespace TripleChain

/-- Two lined up pairs of triples fit: where each has two sites that face each other, the sites on one side hold
the same term exactly when those on the other side do. -/
def Fit (e e' : Triple × Triple) : Prop :=
  ∀ sites sites', e.1.unify? e.2 = some sites → e'.1.unify? e'.2 = some sites' →
    ∀ f ∈ sites.entries, ∀ f' ∈ sites'.entries, f.1.term = f'.1.term ↔ f.2.term = f'.2.term

/-- The map lines up some triples of `p` with triples of `q`, in a consistent way. -/
structure Aligned (p q : Pattern) (l : SortedMap Triple Triple) : Prop where
  nonempty : ∃ e, e ∈ l.entries
  mem : ∀ e ∈ l.entries, e.1 ∈ p ∧ e.2 ∈ q ∧ (e.1.unify? e.2).isSome = true
  injective : ∀ e ∈ l.entries, ∀ e' ∈ l.entries, e.2 = e'.2 → e = e'
  fit : ∀ e ∈ l.entries, ∀ e' ∈ l.entries, e ≠ e' → Fit e e'

theorem Fit.symm {e e' : Triple × Triple} (h : Fit e e') : Fit e' e := fun sites sites' hs hs' f hf f' hf' => by
  rw [@eq_comm _ f.1.term, @eq_comm _ f.2.term]
  exact h sites' sites hs' hs f' hf' f hf

/-- The sites that fit are those that the triples pair. -/
theorem fit_iff {e e' : Triple × Triple} (h : (e.1.unify? e.2).isSome = true) (h' : (e'.1.unify? e'.2).isSome = true) :
    Fit e e' ↔ ∀ f, e.1.Pairs e.2 f → ∀ f', e'.1.Pairs e'.2 f' → (f.1.term = f'.1.term ↔ f.2.term = f'.2.term) := by
  obtain ⟨sites, hs⟩ := Option.isSome_iff_exists.1 h
  obtain ⟨sites', hs'⟩ := Option.isSome_iff_exists.1 h'
  have hmem := (Triple.unify?_some hs).1
  have hmem' := (Triple.unify?_some hs').1
  constructor
  · exact fun hfit f hf f' hf' => hfit sites sites' hs hs' f ((hmem f).2 hf) f' ((hmem' f').2 hf')
  · intro hpairs s s' heq heq' f hf f' hf'
    rw [hs] at heq
    rw [hs'] at heq'
    cases heq
    cases heq'
    exact hpairs f ((hmem f).1 hf) f' ((hmem' f').1 hf')

section

variable {p q : Pattern} {l : SortedMap Triple Triple} {a b c m : Match} {t u : Triple}

theorem Aligned.mono (h : Aligned p q l) {k : SortedMap Triple Triple} (hne : ∃ e, e ∈ k.entries)
    (hk : ∀ e ∈ k.entries, e ∈ l.entries) : Aligned p q k where
  nonempty := hne
  mem e he := h.mem e (hk e he)
  injective e he e' he' := h.injective e (hk e he) e' (hk e' he')
  fit e he e' he' := h.fit e (hk e he) e' (hk e' he')

theorem aligned_of_candidate (ht : t ∈ p) (h : c ∈ candidates t q) : Aligned p q c.triples := by
  obtain ⟨u, hu, hb⟩ := mem_candidates.1 h
  obtain ⟨hentries, hunify⟩ := Match.between?_some hb
  have hone : ∀ e ∈ c.triples.entries, e = (t, u) := fun e he => List.mem_singleton.1 (hentries ▸ he)
  refine ⟨⟨(t, u), by rw [hentries]; exact List.mem_singleton.2 rfl⟩, fun e he => ?_, fun e he e' he' _ => ?_,
    fun e he e' he' hne => ?_⟩
  · rw [hone e he]
    exact ⟨ht, hu, hunify⟩
  · rw [hone e he, hone e' he']
  · exact absurd ((hone e he).trans (hone e' he').symm) hne

/-- What is merged is consistent. -/
theorem Aligned.merge? (ha : Aligned p q a.triples) (hb : Aligned p q b.triples) (hpa : a.Proper) (hpb : b.Proper)
    (h : a.merge? b = some c) : Aligned p q c.triples := by
  have hmem : ∀ e, e ∈ c.triples.entries ↔ e ∈ a.triples.entries ∨ e ∈ b.triples.entries := fun _ =>
    Match.mem_merge?_iff h
  have hacross : ∀ e ∈ a.triples.entries, ∀ e' ∈ b.triples.entries, Fit e e' := by
    intro e he e' he'
    rw [fit_iff (ha.mem e he).2.2 (hb.mem e' he').2.2]
    intro f hf f' hf'
    exact (Match.merge?_eq_some_iff.1 h).2.1 f ((hpa.sites f).2 ⟨e, he, hf⟩) f' ((hpb.sites f').2 ⟨e', he', hf'⟩)
  refine ⟨ha.nonempty.imp fun e he => (hmem e).2 (.inl he), fun e he => ?_, (hpa.merge? hpb h).oneToOne,
    fun e he e' he' hne => ?_⟩
  · exact ((hmem e).1 he).elim (ha.mem e) (hb.mem e)
  · rcases (hmem e).1 he with he | he <;> rcases (hmem e').1 he' with he' | he'
    · exact ha.fit e he e' he' hne
    · exact hacross e he e' he'
    · exact (hacross e' he' e he).symm
    · exact hb.fit e he e' he' hne

/-! ## One pair less -/

theorem mem_without {e : Triple × Triple} : e ∈ (l.filter fun k _ => k ≠ t).entries ↔ e ∈ l.entries ∧ e.1 ≠ t := by
  simp [SortedMap.filter]

theorem Aligned.without (h : Aligned p q l) (hrest : ∃ e ∈ l.entries, e.1 ≠ t) :
    Aligned p q (l.filter fun k _ => k ≠ t) :=
  h.mono (hrest.imp fun _ he => mem_without.2 he) fun _ he => (mem_without.1 he).1

/-- What lines up one triple only is a candidate. -/
theorem Aligned.exists_candidate (h : Aligned p q l) (ht : (t, u) ∈ l.entries) (hone : ∀ e ∈ l.entries, e.1 = t) :
    ∃ c ∈ candidates t q, c.Proper ∧ c.triples = l := by
  obtain ⟨c, hc, hct⟩ := TripleChain.exists_candidate (h.mem _ ht).2.1 (h.mem _ ht).2.2
  refine ⟨c, hc, proper_of_candidate hc, SortedMap.ext_mem fun e => ?_⟩
  rw [hct, List.mem_singleton]
  exact ⟨fun heq => heq ▸ ht, fun he => SortedMap.eq_of_key_eq he ht (hone e he)⟩

/-- What lines up more is what is left without one of its triples, merged with a candidate of this triple. -/
theorem Aligned.exists_merge (h : Aligned p q l) (ht : (t, u) ∈ l.entries) (ha : a.Proper)
    (hal : a.triples = l.filter fun k _ => k ≠ t) :
    ∃ c ∈ candidates t q, ∃ n, a.merge? c = some n ∧ n.Proper ∧ n.triples = l := by
  obtain ⟨c, hc, hct⟩ := TripleChain.exists_candidate (h.mem _ ht).2.1 (h.mem _ ht).2.2
  have hcp : c.Proper := proper_of_candidate hc
  have hone : ∀ e ∈ c.triples.entries, e = (t, u) := fun e he => List.mem_singleton.1 (hct ▸ he)
  have hother : ∀ e ∈ a.triples.entries, e ∈ l.entries ∧ e.1 ≠ t := fun e he => mem_without.1 (hal ▸ he)
  have hne : ∀ e ∈ a.triples.entries, e ≠ (t, u) := fun e he heq => (hother e he).2 (congrArg Prod.fst heq)
  have hmerge : a.merge? c = some ⟨a.triples.insertAll c.triples.entries, a.sites.insertAll c.sites.entries⟩ := by
    refine Match.merge?_eq_some_iff.2 ⟨fun e he e' he' => ?_, fun f hf f' hf' => ?_, rfl⟩
    · obtain ⟨hel, het⟩ := hother e he
      rw [hone e' he']
      exact ⟨het, fun heq => hne e he (h.injective e hel _ ht heq)⟩
    · obtain ⟨e, he, hpairs⟩ := (ha.sites f).1 hf
      obtain ⟨e', he', hpairs'⟩ := (hcp.sites f').1 hf'
      rw [hone e' he'] at hpairs'
      obtain ⟨hel, _⟩ := hother e he
      exact (fit_iff (h.mem e hel).2.2 (h.mem _ ht).2.2).1 (h.fit e hel _ ht (hne e he)) f hpairs f' hpairs'
  refine ⟨c, hc, _, hmerge, ha.merge? hcp hmerge, SortedMap.ext_mem fun e => ?_⟩
  rw [Match.mem_merge?_iff hmerge, hal, mem_without, hct, List.mem_singleton]
  constructor
  · rintro (he | rfl)
    · exact he.1
    · exact ht
  · intro he
    by_cases het : e.1 = t
    · exact .inr (SortedMap.eq_of_key_eq he ht het)
    · exact .inl ⟨he, het⟩

/-! ## The search -/

theorem search_proper (ts : List Triple) (q : Pattern) : (Found.search ts q).Forall Match.Proper :=
  Found.Forall.search (fun _ _ _ ha hb h => ha.merge? hb h) fun _ _ _ hm => proper_of_candidate hm

theorem findMatches_aligned {strategy : Strategy} : ∀ m ∈ findMatches p q strategy, m.Proper ∧ Aligned p q m.triples :=
  findMatches_forall (fun _ _ _ ha hb h => ⟨ha.1.merge? hb.1 h, ha.2.merge? hb.2 ha.1 hb.1 h⟩)
    fun _ ht _ hm => ⟨proper_of_candidate hm, aligned_of_candidate ht hm⟩

/-- Each consistent way is found in the round of the last of its triples. -/
theorem exists_search {ts : List Triple} (h : Aligned p q l) (hts : ∀ e ∈ l.entries, e.1 ∈ ts) :
    ∃ m, (Found.search ts q).Has m ∧ m.Proper ∧ m.triples = l := by
  induction ts using List.reverseRecOn generalizing l with
  | nil =>
    obtain ⟨e, he⟩ := h.nonempty
    exact absurd (hts e he) List.not_mem_nil
  | append_singleton ts t ih =>
    simp only [Found.search_concat, Found.has_step]
    simp only [List.mem_append, List.mem_singleton] at hts
    by_cases ht : ∃ u, (t, u) ∈ l.entries
    · obtain ⟨u, hu⟩ := ht
      by_cases hrest : ∃ e ∈ l.entries, e.1 ≠ t
      · obtain ⟨a, ha, hap, hal⟩ := ih (h.without hrest) fun e he =>
          (hts e (mem_without.1 he).1).resolve_right (mem_without.1 he).2
        obtain ⟨c, hc, n, hn, hnp, hnl⟩ := h.exists_merge hu hap hal
        exact ⟨n, .inr ⟨c, hc, .inr ⟨a, ha, hn⟩⟩, hnp, hnl⟩
      · have hone : ∀ e ∈ l.entries, e.1 = t := fun e he => by_contra fun hne => hrest ⟨e, he, hne⟩
        obtain ⟨c, hc, hcl⟩ := h.exists_candidate hu hone
        exact ⟨c, .inr ⟨c, hc, .inl rfl⟩, hcl⟩
    · obtain ⟨m, hm, hml⟩ := ih h fun e he => (hts e he).resolve_right fun heq => ht ⟨e.2, heq ▸ he⟩
      exact ⟨m, .inl hm, hml⟩

/-- With only full matches wanted, what lines up the triples so far is big. -/
theorem exists_big_of_full {ts : List Triple} {s : Triple} (hnodup : (s :: ts).Nodup) (h : Aligned p q l)
    (hts : ∀ t, (∃ u, (t, u) ∈ l.entries) ↔ t ∈ s :: ts) :
    ∃ m ∈ ((ts.map (candidates · q)).foldl (Found.step true) ⟨candidates s q, []⟩).biggest,
      m.Proper ∧ m.triples = l := by
  obtain ⟨v, hv⟩ := (hts s).2 List.mem_cons_self
  induction ts using List.reverseRecOn generalizing l with
  | nil => exact h.exists_candidate hv fun e he => List.mem_singleton.1 ((hts e.1).1 ⟨e.2, he⟩)
  | append_singleton ts t ih =>
    rw [← List.cons_append] at hnodup hts
    obtain ⟨hst, hdisjoint⟩ := List.nodup_append.1 hnodup |>.imp_right And.right
    have htnew : ∀ k ∈ s :: ts, k ≠ t := fun k hk => hdisjoint k hk t (List.mem_singleton.2 rfl)
    obtain ⟨u, hu⟩ := (hts t).2 (List.mem_append_right _ (List.mem_singleton.2 rfl))
    have hsv : (s, v) ∈ (l.filter fun k _ => k ≠ t).entries := mem_without.2 ⟨hv, htnew s List.mem_cons_self⟩
    have hkeys : ∀ k, (∃ w, (k, w) ∈ (l.filter fun k _ => k ≠ t).entries) ↔ k ∈ s :: ts := fun k => by
      simp only [mem_without, exists_and_right, hts, List.mem_append, List.mem_singleton]
      constructor
      · rintro ⟨hk, hne⟩
        exact hk.resolve_right hne
      · exact fun hk => ⟨.inl hk, htnew k hk⟩
    obtain ⟨a, ha, hap, hal⟩ := ih hst (h.without ⟨_, (mem_without.1 hsv).1, (mem_without.1 hsv).2⟩) hkeys hsv
    obtain ⟨c, hc, n, hn, hnp, hnl⟩ := h.exists_merge hu hap hal
    refine ⟨n, ?_, hnp, hnl⟩
    rw [List.map_append, List.foldl_append]
    exact List.mem_append_right _ (Found.Round.mem_toBiggest_addAll (.inr ⟨a, ha, c, hc, hn⟩))

theorem mem_findMatches_all_iff_has : m ∈ findMatches p q .all ↔ (Found.search p.toList q).Has m := by
  obtain ⟨hbig, hsmall⟩ := search_proper p.toList q
  have hset : MatchSet.Proper (SortedSet.ofList (Found.search p.toList q).biggest) := fun a ha =>
    hbig a (SortedSet.mem_of_mem_ofList ha)
  rw [findMatches_all, SortedSet.mem_insertAll_of_kind MatchSet.eq_of_compare hset hsmall, MatchSet.mem_ofList hbig]
  rfl

/-- With the strategy `all` the search finds the consistent ways and nothing else. -/
theorem mem_findMatches_all : m ∈ findMatches p q .all ↔ m.Proper ∧ Aligned p q m.triples := by
  refine ⟨findMatches_aligned m, fun ⟨hm, h⟩ => ?_⟩
  obtain ⟨n, hn, hnp, hnm⟩ := exists_search h fun e he => (h.mem e he).1
  obtain rfl : n = m := hnp.ext hm hnm
  exact mem_findMatches_all_iff_has.2 hn

/-- With the strategy `full` it finds those that leave no triple out. -/
theorem mem_findMatches_full : m ∈ findMatches p q .full ↔
    (m.Proper ∧ Aligned p q m.triples) ∧ ∀ t ∈ p, t ∈ m.sources := by
  refine ⟨fun h => ⟨findMatches_aligned m h, findMatches_full m h⟩, fun ⟨⟨hm, h⟩, hcovers⟩ => ?_⟩
  have hkeys : ∀ t, (∃ u, (t, u) ∈ m.triples.entries) ↔ t ∈ p.toList := fun t => by
    constructor
    · rintro ⟨u, hu⟩
      exact (h.mem _ hu).1
    · intro ht
      obtain ⟨u, hu⟩ := Match.mem_sources.1 (hcovers t ht)
      exact ⟨u, SortedMap.get?_eq_some_iff.1 hu⟩
  have hall : ∀ t ∈ p, candidates t q ≠ [] := fun t ht hnil => by
    obtain ⟨u, hu⟩ := (hkeys t).2 ht
    obtain ⟨c, hc, _⟩ := TripleChain.exists_candidate (h.mem _ hu).2.1 (h.mem _ hu).2.2
    rw [hnil] at hc
    cases hc
  cases hp : p.toList with
  | nil =>
    obtain ⟨e, he⟩ := h.nonempty
    have := (h.mem e he).1
    rw [SortedSet.mem_def, hp] at this
    cases this
  | cons s ts =>
    rw [hp] at hkeys
    have hbig : ∀ a ∈ ((ts.map (candidates · q)).foldl (Found.step true) ⟨candidates s q, []⟩).biggest, a.Proper :=
      (Found.Forall.steps (fun _ _ _ ha hb h => ha.merge? hb h) ⟨fun _ hc => proper_of_candidate hc, by simp⟩
        fun l hl a ha => by
          obtain ⟨t, _, rfl⟩ := List.mem_map.1 hl
          exact proper_of_candidate ha).1
    obtain ⟨n, hn, hnp, hnm⟩ := exists_big_of_full (hp ▸ SortedSet.nodup p) h hkeys
    obtain rfl : n = m := hnp.ext hm hnm
    rw [findMatches_full_of_cons hp hall]
    exact (MatchSet.mem_ofList hbig).2 hn

end

/-- The search finds each consistent way to line up two patterns, once, and nothing else; with the strategy `full`
it finds those of them that leave no triple of the first pattern out. -/
theorem findMatches_exact (p q : Pattern) :
    (∀ m, m ∈ findMatches p q .all ↔ m.Proper ∧ Aligned p q m.triples) ∧
      (∀ l, Aligned p q l → ∃ m ∈ findMatches p q .all, m.triples = l) ∧
        ∀ m, m ∈ findMatches p q .full ↔ m ∈ findMatches p q .all ∧ ∀ t ∈ p, t ∈ m.sources := by
  refine ⟨fun m => mem_findMatches_all, fun l h => ?_, fun m => ?_⟩
  · obtain ⟨m, _, hm, rfl⟩ := exists_search h fun e he => (h.mem e he).1
    exact ⟨m, mem_findMatches_all.2 ⟨hm, h⟩, rfl⟩
  · rw [mem_findMatches_full, mem_findMatches_all]

end TripleChain
