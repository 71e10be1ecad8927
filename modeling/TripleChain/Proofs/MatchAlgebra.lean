import TripleChain.Proofs.MatchInverse
/-!
# The algebra of matches

A match is made from single pairs of triples by merging and turning around (`Match.Made`). Whatever is made this way
is proper, so that it is known by its triples alone: equal triples mean equal matches, and sets of matches, which
compare triples only, never take two different ones for one (`made_known_by_triples`).

Two proper matches merge exactly when any pair of the one goes with any pair of the other (`Match.GoesWith`), and
then the merge is the proper match of the pairs of both (`Match.Proper.merge?_iff`). The conflicts are between pairs,
so that the order of merging does not matter, and neither does the side from which a match is seen (`made_merge_laws`).
-/

open Std

namespace TripleChain

/-- Two pairs of triples can stand in one match: they have no triple in common, and where each has two sites that face
each other, the sites on one side hold the same term exactly when those on the other side do. -/
def PairsGo (e e' : Triple × Triple) : Prop :=
  (e.1 ≠ e'.1 ∧ e.2 ≠ e'.2) ∧
    ∀ f, e.1.Pairs e.2 f → ∀ f', e'.1.Pairs e'.2 f' → (f.1.term = f'.1.term ↔ f.2.term = f'.2.term)

theorem PairsGo.symm {e e' : Triple × Triple} (h : PairsGo e e') : PairsGo e' e := by
  refine ⟨⟨h.1.1.symm, h.1.2.symm⟩, fun f hf f' hf' => ?_⟩
  rw [@eq_comm _ f.1.term, @eq_comm _ f.2.term]
  exact h.2 f' hf' f hf

theorem PairsGo.swap {e e' : Triple × Triple} (h : PairsGo e e') : PairsGo e.swap e'.swap :=
  ⟨⟨h.1.2, h.1.1⟩, fun f hf f' hf' => (h.2 f.swap hf.swap f'.swap hf'.swap).symm⟩

namespace Match

variable {a b c m n : Match}

/-! ## Merging pairs -/

/-- Any pair of the one match goes with any pair of the other. -/
def GoesWith (a b : Match) : Prop := ∀ e ∈ a.triples.entries, ∀ e' ∈ b.triples.entries, PairsGo e e'

theorem GoesWith.symm (h : a.GoesWith b) : b.GoesWith a := fun e he e' he' => (h e' he' e he).symm

/-- Matches that go together merge. -/
theorem Proper.exists_merge? (ha : a.Proper) (hb : b.Proper) (h : a.GoesWith b) : ∃ c, a.merge? b = some c := by
  refine ⟨_, merge?_eq_some_iff.2 ⟨fun e he e' he' => (h e he e' he').1, fun f hf f' hf' => ?_, rfl⟩⟩
  obtain ⟨e, he, hpairs⟩ := (ha.sites f).1 hf
  obtain ⟨e', he', hpairs'⟩ := (hb.sites f').1 hf'
  exact (h e he e' he').2 f hpairs f' hpairs'

/-- Matches that merge go together. -/
theorem Proper.goesWith_of_merge? (ha : a.Proper) (hb : b.Proper) (h : a.merge? b = some c) : a.GoesWith b := by
  obtain ⟨hapart, hagree, _⟩ := merge?_eq_some_iff.1 h
  intro e he e' he'
  exact ⟨hapart e he e' he',
    fun f hf f' hf' => hagree f ((ha.sites f).2 ⟨e, he, hf⟩) f' ((hb.sites f').2 ⟨e', he', hf'⟩)⟩

/-- The merge of two matches that go together is the proper match of the pairs of both. -/
theorem Proper.merge?_iff (ha : a.Proper) (hb : b.Proper) : a.merge? b = some c ↔
    a.GoesWith b ∧ c.Proper ∧ ∀ e, e ∈ c.triples.entries ↔ e ∈ a.triples.entries ∨ e ∈ b.triples.entries := by
  constructor
  · exact fun h => ⟨ha.goesWith_of_merge? hb h, ha.merge? hb h, fun _ => mem_merge?_iff h⟩
  · rintro ⟨hgoes, hc, hmem⟩
    obtain ⟨n, hn⟩ := ha.exists_merge? hb hgoes
    have htriples : n.triples = c.triples := SortedMap.ext_mem fun e => (mem_merge?_iff hn).trans (hmem e).symm
    rw [hn, (ha.merge? hb hn).ext hc htriples]

theorem Proper.merge?_comm (ha : a.Proper) (hb : b.Proper) : a.merge? b = b.merge? a := by
  refine Option.ext fun c => ?_
  rw [ha.merge?_iff hb, hb.merge?_iff ha]
  constructor
  · exact fun ⟨hgoes, hc, hmem⟩ => ⟨hgoes.symm, hc, fun e => (hmem e).trans or_comm⟩
  · exact fun ⟨hgoes, hc, hmem⟩ => ⟨hgoes.symm, hc, fun e => (hmem e).trans or_comm⟩

/-- Of three matches each has to go with the other two. -/
theorem Proper.merge?_merge?_iff (ha : a.Proper) (hb : b.Proper) (hc : c.Proper) :
    (a.merge? b).bind (·.merge? c) = some m ↔ (a.GoesWith b ∧ a.GoesWith c ∧ b.GoesWith c) ∧ m.Proper ∧
      ∀ e, e ∈ m.triples.entries ↔ e ∈ a.triples.entries ∨ e ∈ b.triples.entries ∨ e ∈ c.triples.entries := by
  rw [Option.bind_eq_some_iff]
  constructor
  · rintro ⟨n, hn, hm⟩
    obtain ⟨hab, hn, hnmem⟩ := (ha.merge?_iff hb).1 hn
    obtain ⟨hnc, hm, hmem⟩ := (hn.merge?_iff hc).1 hm
    refine ⟨⟨hab, fun e he => hnc e ((hnmem e).2 (.inl he)), fun e he => hnc e ((hnmem e).2 (.inr he))⟩, hm,
      fun e => ?_⟩
    rw [hmem, hnmem, or_assoc]
  · rintro ⟨⟨hab, hac, hbc⟩, hm, hmem⟩
    obtain ⟨n, hn⟩ := ha.exists_merge? hb hab
    have hnc : n.GoesWith c := fun e he => (mem_merge?_iff hn |>.1 he).elim (hac e) (hbc e)
    refine ⟨n, hn, ((ha.merge? hb hn).merge?_iff hc).2 ⟨hnc, hm, fun e => ?_⟩⟩
    rw [hmem, mem_merge?_iff hn, or_assoc]

/-- Three matches merge to the same from the left and from the right. -/
theorem Proper.merge?_assoc (ha : a.Proper) (hb : b.Proper) (hc : c.Proper) :
    (a.merge? b).bind (·.merge? c) = (b.merge? c).bind (a.merge? ·) := by
  have hlast : (b.merge? c).bind (a.merge? ·) = (b.merge? c).bind (·.merge? a) := by
    cases hn : b.merge? c with
    | none => rfl
    | some n => exact ha.merge?_comm (hb.merge? hc hn)
  rw [hlast]
  refine Option.ext fun m => ?_
  -- What is said of three matches is said of them in any order.
  rw [ha.merge?_merge?_iff hb hc, hb.merge?_merge?_iff hc ha]
  have hmem : ∀ e, (e ∈ a.triples.entries ∨ e ∈ b.triples.entries ∨ e ∈ c.triples.entries) ↔
      (e ∈ b.triples.entries ∨ e ∈ c.triples.entries ∨ e ∈ a.triples.entries) := fun e => or_rotate
  simp only [hmem]
  constructor
  · exact fun ⟨⟨hab, hac, hbc⟩, hm⟩ => ⟨⟨hbc, hab.symm, hac.symm⟩, hm⟩
  · exact fun ⟨⟨hbc, hba, hca⟩, hm⟩ => ⟨⟨hba.symm, hca.symm, hbc⟩, hm⟩

theorem Proper.mem_inverse_iff (h : m.Proper) {e : Triple × Triple} :
    e ∈ m.inverse.triples.entries ↔ e.swap ∈ m.triples.entries := mem_ofList_swapEntries h.oneToOne

/-- Turned around, two matches merge to their merge turned around. -/
theorem Proper.merge?_inverse (ha : a.Proper) (hb : b.Proper) (h : a.merge? b = some c) :
    a.inverse.merge? b.inverse = some c.inverse := by
  obtain ⟨hgoes, hc, hmem⟩ := (ha.merge?_iff hb).1 h
  refine (ha.inverse.merge?_iff hb.inverse).2 ⟨fun e he e' he' => ?_, hc.inverse, fun e => ?_⟩
  · exact (hgoes _ (ha.mem_inverse_iff.1 he) _ (hb.mem_inverse_iff.1 he')).swap
  · rw [hc.mem_inverse_iff, ha.mem_inverse_iff, hb.mem_inverse_iff, hmem]

theorem Proper.inverse_merge? (ha : a.Proper) (hb : b.Proper) :
    (a.merge? b).map Match.inverse = a.inverse.merge? b.inverse := by
  cases h : a.merge? b with
  | some c => exact (ha.merge?_inverse hb h).symm
  | none =>
    cases h' : a.inverse.merge? b.inverse with
    | none => rfl
    | some c =>
      -- Turned around once more they would merge after all.
      have hmerge := ha.inverse.merge?_inverse hb.inverse h'
      rw [ha.inverse_inverse, hb.inverse_inverse, h] at hmerge
      cases hmerge

/-! ## What is made by merging and turning around -/

/-- A match that comes from single pairs of triples, by merging and turning around. -/
inductive Made : Match → Prop where
  | pair {t u : Triple} {m : Match} : between? t u = some m → Made m
  | merge {a b c : Match} : Made a → Made b → a.merge? b = some c → Made c
  | inverse {m : Match} : Made m → Made m.inverse

theorem Made.proper (h : m.Made) : m.Proper := by
  induction h with
  | pair h => exact proper_of_between? h
  | merge _ _ h iha ihb => exact iha.merge? ihb h
  | inverse _ ih => exact ih.inverse

theorem Made.nonempty (h : m.Made) : m.triples.entries ≠ [] := by
  induction h with
  | pair h =>
    rw [(between?_some h).1]
    exact List.cons_ne_nil _ _
  | merge _ _ h iha _ =>
    rw [merge?_triples h]
    exact SortedMap.insertAll_entries_ne_nil iha
  | inverse hm ih =>
    obtain ⟨e, he⟩ := List.exists_mem_of_ne_nil _ ih
    exact List.ne_nil_of_mem (mem_inverse hm.proper.oneToOne he)

theorem Made.unify (h : m.Made) : ∀ e ∈ m.triples.entries, (e.1.unify? e.2).isSome = true := by
  induction h with
  | pair h =>
    obtain ⟨hentries, hunify⟩ := between?_some h
    intro e he
    rw [hentries, List.mem_singleton] at he
    rw [he]
    exact hunify
  | merge _ _ h iha ihb => exact fun e he => (mem_merge? h he).elim (iha e) (ihb e)
  | inverse _ ih => exact fun e he => Triple.unify?_isSome_comm (ih e.swap (mem_of_mem_inverse he))

/-- A match says nothing besides which triples are lined up: no triple is lined up twice, all of them unify, and
the sites that face each other are those of the unified triples. -/
structure KnownByTriples (m : Match) : Prop where
  nonempty : m.triples.entries ≠ []
  injective : ∀ e ∈ m.triples.entries, ∀ e' ∈ m.triples.entries, e.2 = e'.2 → e = e'
  unify : ∀ e ∈ m.triples.entries, (e.1.unify? e.2).isSome = true
  sites : ∀ f, f ∈ m.sites.entries ↔
    ∃ e ∈ m.triples.entries, ∃ sites, e.1.unify? e.2 = some sites ∧ f ∈ sites.entries
  sites_injective : ∀ f ∈ m.sites.entries, ∀ f' ∈ m.sites.entries, f.2 = f'.2 → f = f'

theorem Made.knownByTriples (h : m.Made) : m.KnownByTriples where
  nonempty := h.nonempty
  injective := h.proper.oneToOne
  unify := h.unify
  sites f := by
    rw [h.proper.sites]
    constructor
    · rintro ⟨e, he, hpairs⟩
      obtain ⟨sites, hsites⟩ := Option.isSome_iff_exists.1 (h.unify e he)
      exact ⟨e, he, sites, hsites, ((Triple.unify?_some hsites).1 f).2 hpairs⟩
    · rintro ⟨e, he, sites, hsites, hf⟩
      exact ⟨e, he, ((Triple.unify?_some hsites).1 f).1 hf⟩
  sites_injective := h.proper.sites_oneToOne

end Match

theorem made_of_findMatches {p q : Pattern} {strategy : Strategy} : ∀ m ∈ findMatches p q strategy, m.Made := by
  refine findMatches_forall (fun _ _ _ ha hb h => ha.merge hb h) fun t _ m hm => ?_
  obtain ⟨u, _, hb⟩ := mem_candidates.1 hm
  exact .pair hb

/-- Turning a set of proper matches around loses none. -/
theorem MatchSet.Proper.size_inverse {s : MatchSet} (hs : s.Proper) : s.inverse.size = s.size := by
  have hnodup : (s.toList.map Match.inverse).Nodup := by
    refine (SortedSet.nodup s).map_on fun m hm n hn heq => ?_
    rw [← (hs m hm).inverse_inverse, heq, (hs n hn).inverse_inverse]
  have hperm : s.inverse.toList.Perm (s.toList.map Match.inverse) := by
    refine (List.perm_ext_iff_of_nodup (SortedSet.nodup _) hnodup).2 fun m => ?_
    rw [List.mem_map]
    exact hs.mem_inverse
  exact hperm.length_eq.trans (List.length_map _)

/-- Whatever is made by merging and turning around, and so whatever is found, is known by its triples. Two such
matches compare equal when their triples are equal, and then their sites are. A set of such matches takes up every
match that is put in, and turned around it has every match turned around. -/
theorem made_known_by_triples :
    (∀ m : Match, m.Made → m.KnownByTriples) ∧
      (∀ (p q : Pattern) (strategy : Strategy), ∀ m ∈ findMatches p q strategy, m.Made) ∧
      (∀ m n : Match, m.Made → n.Made →
        (compare m n = .eq ↔ m.triples = n.triples) ∧ (compare m n = .eq → m.sites = n.sites)) ∧
      (∀ (s : MatchSet) (l : List Match), (∀ m ∈ s, m.Made) → (∀ m ∈ l, m.Made) →
        ∀ m, m ∈ s.insertAll l ↔ m ∈ s ∨ m ∈ l) ∧
      ∀ s : MatchSet, (∀ m ∈ s, m.Made) →
        (∀ m, m ∈ s.inverse ↔ ∃ n ∈ s, n.inverse = m) ∧ (∀ m ∈ s.inverse, m.Made) ∧ s.inverse.size = s.size := by
  have hproper {s : MatchSet} (hs : ∀ m ∈ s, m.Made) : s.Proper := fun m hm => (hs m hm).proper
  refine ⟨fun m hm => hm.knownByTriples, fun p q strategy => made_of_findMatches, fun m n hm hn => ⟨?_, ?_⟩,
    fun s l hs hl m => ?_, fun s hs => ⟨fun m => (hproper hs).mem_inverse, fun m hm => ?_, (hproper hs).size_inverse⟩⟩
  · exact ⟨Match.triples_eq, fun heq => show compare m.triples n.triples = .eq from compare_eq_iff_eq.2 heq⟩
  · exact fun heq => congrArg Match.sites (MatchSet.eq_of_compare m n hm.proper hn.proper heq)
  · exact SortedSet.mem_insertAll_of_kind MatchSet.eq_of_compare (hproper hs) fun m hm => (hl m hm).proper
  · obtain ⟨n, hn, rfl⟩ := (hproper hs).mem_inverse.1 hm
    exact (hs n hn).inverse

/-- Matches merge when their pairs go together, to the match of the pairs of both, and turning around swaps every pair.
So merging does not depend on the order, turning around twice changes nothing, and turning around goes with merging. -/
theorem made_merge_laws {a b c : Match} (ha : a.Made) (hb : b.Made) (hc : c.Made) :
    (∀ m, a.merge? b = some m ↔ a.GoesWith b ∧ m.Made ∧
      ∀ e, e ∈ m.triples.entries ↔ e ∈ a.triples.entries ∨ e ∈ b.triples.entries) ∧
    (∀ e, e ∈ a.inverse.triples.entries ↔ e.swap ∈ a.triples.entries) ∧
    a.merge? b = b.merge? a ∧ (a.merge? b).bind (·.merge? c) = (b.merge? c).bind (a.merge? ·) ∧
      a.inverse.inverse = a ∧ (a.merge? b).map Match.inverse = a.inverse.merge? b.inverse := by
  refine ⟨fun m => ?_, fun e => ha.proper.mem_inverse_iff, ha.proper.merge?_comm hb.proper,
    ha.proper.merge?_assoc hb.proper hc.proper, ha.proper.inverse_inverse, ha.proper.inverse_merge? hb.proper⟩
  constructor
  · exact fun h => ⟨ha.proper.goesWith_of_merge? hb.proper h, ha.merge hb h, fun _ => Match.mem_merge?_iff h⟩
  · rintro ⟨hgoes, hm, hmem⟩
    exact (ha.proper.merge?_iff hb.proper).2 ⟨hgoes, hm.proper, hmem⟩

/-! ## Two paths lined up -/

/-- `?s <p> ?o` lined up with `?x <p> ?y`. -/
def edges (s o x y : String) : Match :=
  let t : Triple := ⟨.var ⟨s⟩, .iri "p", .var ⟨o⟩⟩
  let u : Triple := ⟨.var ⟨x⟩, .iri "p", .var ⟨y⟩⟩
  ⟨.ofList [(t, u)], .ofList [(t.site .subject, u.site .subject), (t.site .object, u.site .object)]⟩

theorem edges_made : (edges "a" "b" "x" "y").Made ∧ (edges "b" "c" "y" "z").Made ∧ (edges "c" "d" "z" "w").Made :=
  ⟨.pair (t := ⟨.var ⟨"a"⟩, .iri "p", .var ⟨"b"⟩⟩) (u := ⟨.var ⟨"x"⟩, .iri "p", .var ⟨"y"⟩⟩) (by decide),
    .pair (t := ⟨.var ⟨"b"⟩, .iri "p", .var ⟨"c"⟩⟩) (u := ⟨.var ⟨"y"⟩, .iri "p", .var ⟨"z"⟩⟩) (by decide),
    .pair (t := ⟨.var ⟨"c"⟩, .iri "p", .var ⟨"d"⟩⟩) (u := ⟨.var ⟨"z"⟩, .iri "p", .var ⟨"w"⟩⟩) (by decide)⟩

/-- Two paths of three edges are lined up by merging from either end. -/
theorem edges_merge_laws :
    let a := edges "a" "b" "x" "y"
    let b := edges "b" "c" "y" "z"
    let c := edges "c" "d" "z" "w"
    (a.Made ∧ b.Made ∧ c.Made) ∧ ((a.merge? b).bind (·.merge? c)).isSome = true ∧
      a.merge? b = b.merge? a ∧ (a.merge? b).bind (·.merge? c) = (b.merge? c).bind (a.merge? ·) ∧
        a.inverse.inverse = a ∧ (a.merge? b).map Match.inverse = a.inverse.merge? b.inverse := by
  obtain ⟨ha, hb, hc⟩ := edges_made
  exact ⟨edges_made, by decide, (made_merge_laws ha hb hc).2.2⟩

/-- Two of the edges merged and turned around, and a set of two matches turned around. -/
theorem edges_known_by_triples :
    let a := edges "a" "b" "x" "y"
    let b := edges "b" "c" "y" "z"
    (∃ m, a.merge? b = some m ∧ m.inverse.KnownByTriples) ∧
      ∃ s : MatchSet, (∀ m ∈ s, m.Made) ∧ s.size = 2 ∧ s.inverse.size = 2 ∧ a.inverse ∈ s.inverse := by
  intro a b
  obtain ⟨ha, hb, _⟩ := edges_made
  obtain ⟨m, hm⟩ := Option.isSome_iff_exists.1 (show (a.merge? b).isSome = true by decide)
  refine ⟨⟨m, hm, made_known_by_triples.1 _ (ha.merge hb hm).inverse⟩, .ofList [a, b], ?_⟩
  have hmade : ∀ m ∈ (SortedSet.ofList [a, b] : MatchSet), m.Made := by
    intro m hm
    rcases List.mem_pair.1 (SortedSet.mem_of_mem_ofList hm) with rfl | rfl
    · exact ha
    · exact hb
  obtain ⟨hmem, _, hsize⟩ := made_known_by_triples.2.2.2.2 _ hmade
  exact ⟨hmade, by decide, hsize.trans (by decide), (hmem _).2 ⟨a, SortedSet.mem_def.2 (by decide), rfl⟩⟩

end TripleChain
