import TripleChain.Proofs.ExactMatches
/-!
# When the biggest matches are the maximal ones

The strategy `biggest` is meant to give the matches that are part of no other (`BiggestIsMaximal`). Every pair of
triples that unify is part of one that it gives (`exists_biggest_of_pair`). When one of the patterns has no more than
two triples, a round keeps its big matches to the maximal ones (`Found.Maximal.step`). With three triples in either
this fails (`lopsided_not_maximal`): a merge with a smaller match is set aside when the smaller match, not the merge,
is part of what another candidate has made in the same round.
-/

namespace TripleChain

/-- All that the first lines up is lined up in the second. -/
def Match.PartOf (m n : Match) : Prop := ∀ e ∈ m.triples.entries, e ∈ n.triples.entries

namespace Match

variable {a b c m n : Match}

theorem isSubMatch_iff (hm : m.Proper) (hn : n.Proper) : m.isSubMatch n = true ↔ m.PartOf n := by
  have htriples : (m.triples.all fun t u => n.triples.get? t == some u) = true ↔ m.PartOf n := by
    simp only [SortedMap.all, List.all_eq_true, beq_iff_eq, SortedMap.get?_eq_some_iff]
    rfl
  rw [isSubMatch, Bool.and_eq_true, htriples, and_iff_left_iff_imp]
  intro h
  rw [SortedMap.all, List.all_eq_true]
  intro f hf
  obtain ⟨e, he, hpairs⟩ := (hm.sites f).1 hf
  rw [SortedMap.get?_eq_some_iff.2 ((hn.sites f).2 ⟨e, h e he, hpairs⟩)]
  simp

theorem PartOf.refl (m : Match) : m.PartOf m := fun _ he => he

theorem PartOf.trans (h : m.PartOf n) (h' : n.PartOf c) : m.PartOf c := fun e he => h' e (h e he)

theorem PartOf.antisymm (hm : m.Proper) (hn : n.Proper) (h : m.PartOf n) (h' : n.PartOf m) : m = n :=
  hm.ext hn (SortedMap.ext_mem fun e => ⟨h e, h' e⟩)

theorem partOf_merge? (h : a.merge? b = some c) : a.PartOf c ∧ b.PartOf c :=
  ⟨fun _ he => (mem_merge?_iff h).2 (.inl he), fun _ he => (mem_merge?_iff h).2 (.inr he)⟩

/-- What is part of another match pairs fewer triples. -/
theorem PartOf.size_lt (h : m.PartOf n) (hn : ¬ n.PartOf m) : m.size < n.size := by
  have hnodup : m.triples.entries.Nodup := List.Nodup.of_map _ m.triples.nodup_keys
  have hsub : m.triples.entries.Subperm n.triples.entries := List.subperm_of_subset hnodup h
  refine Nat.lt_of_not_le fun hle => hn fun e he => ?_
  exact (hsub.perm_of_length_le hle).mem_iff.2 he

end Match

/-! ## Rounds -/

namespace Found

variable {f : Found} {r : Round} {l : List Match} {a c m n : Match}

theorem Round.merged_enlargeAll : (l.foldl (Round.enlarge c) r).merged = true ↔
    r.merged = true ∨ ∃ a ∈ l, (a.merge? c).isSome = true := by
  induction l generalizing r with
  | nil => simp
  | cons a l ih =>
    have hstep : (Round.enlarge c r a).merged = true ↔ r.merged = true ∨ (a.merge? c).isSome = true := by
      rcases Round.enlarge_cases c r a with ⟨hn, heq⟩ | ⟨n, hn, ⟨hmerged, _, heq⟩ | heq⟩ <;> rw [heq, hn]
      · simp
      · simp [hmerged]
      · simp
    rw [List.foldl_cons, ih, hstep, List.exists_mem_cons_iff, or_assoc]

/-- A candidate is said to be merged when it goes with a match before the round. -/
theorem Round.merged_joined : (joined false f r c).merged = true ↔ ∃ a, f.Has a ∧ (a.merge? c).isSome = true := by
  have hbig : (mergeBiggest f r c).merged = true ↔ ∃ a ∈ f.biggest, (a.merge? c).isSome = true := by
    simp only [mergeBiggest, Bool.not_eq_true', List.isEmpty_eq_false_iff_exists_mem, List.mem_filterMap,
      Option.isSome_iff_exists]
    rw [exists_comm]
    simp only [exists_and_left]
  show (f.smaller.foldl (enlarge c) (mergeBiggest f r c)).merged = true ↔ _
  rw [merged_enlargeAll, hbig]
  simp only [Found.Has, or_and_right, exists_or]

/-- A candidate is big itself when it goes with no match before the round. -/
theorem Round.mem_toBiggest_add_iff : m ∈ (add false f r c).toBiggest ↔
    m ∈ (joined false f r c).toBiggest ∨ m = c ∧ ∀ a, f.Has a → a.merge? c = none := by
  have hnone : (∀ a, f.Has a → a.merge? c = none) ↔ (joined false f r c).merged = false := by
    rw [← Bool.not_eq_true, merged_joined]
    simp
  have heq : add false f r c =
      if !(joined false f r c).merged then
        { joined false f r c with toBiggest := (joined false f r c).toBiggest ++ [c] }
      else { joined false f r c with toSmaller := (joined false f r c).toSmaller ++ [c] } := by
    simp [add, joined, mergeBiggest]
  rw [heq, hnone]
  cases (joined false f r c).merged <;> simp

theorem Round.mem_toBiggest_joined (h : m ∈ (joined false f r c).toBiggest) :
    m ∈ r.toBiggest ∨ ∃ a, f.Has a ∧ a.merge? c = some m := by
  have henlarge (l : List Match) (hl : ∀ a ∈ l, f.Has a) :
      ∀ r : Round, m ∈ (l.foldl (enlarge c) r).toBiggest → m ∈ r.toBiggest ∨ ∃ a, f.Has a ∧ a.merge? c = some m := by
    induction l with
    | nil => exact fun _ h => .inl h
    | cons a l ih =>
      obtain ⟨ha, hl⟩ := List.forall_mem_cons.1 hl
      intro r h
      refine (ih hl _ h).elim (fun h => ?_) .inr
      rcases enlarge_cases c r a with ⟨_, heq⟩ | ⟨n, hn, ⟨_, _, heq⟩ | heq⟩ <;> rw [heq] at h
      · exact .inl h
      · exact .inl h
      · refine (List.mem_append.1 h).imp_right fun hm => ⟨a, ha, ?_⟩
        rw [List.mem_singleton.1 hm, hn]
  refine (henlarge f.smaller (fun a ha => .inr ha) _ h).elim (fun h => ?_) .inr
  refine (List.mem_append.1 h).imp_right fun h => ?_
  obtain ⟨a, ha, hm⟩ := List.mem_filterMap.1 h
  exact ⟨a, .inl ha, hm⟩

/-- Some merge of a candidate that goes with a match before the round is big. -/
theorem Round.exists_mem_toBiggest (h : (joined false f r c).merged = true) :
    ∃ n ∈ (joined false f r c).toBiggest, c.PartOf n := by
  have henlarge (l : List Match) : ∀ r : Round, (r.merged = true → ∃ n ∈ r.toBiggest, c.PartOf n) →
      (l.foldl (enlarge c) r).merged = true → ∃ n ∈ (l.foldl (enlarge c) r).toBiggest, c.PartOf n := by
    induction l with
    | nil => exact fun _ hr h => hr h
    | cons a l ih =>
      refine fun r hr h => ih _ ?_ h
      rcases enlarge_cases c r a with ⟨_, heq⟩ | ⟨n, hn, ⟨_, _, heq⟩ | heq⟩ <;> rw [heq]
      · exact hr
      · exact hr
      · exact fun _ => ⟨n, List.mem_append_right _ (List.mem_singleton.2 rfl), (Match.partOf_merge? hn).2⟩
  refine henlarge f.smaller _ (fun hmerged => ?_) h
  rw [mergeBiggest, Bool.not_eq_true', List.isEmpty_eq_false_iff_exists_mem] at hmerged
  obtain ⟨n, hn⟩ := hmerged
  obtain ⟨a, _, hm⟩ := List.mem_filterMap.1 hn
  exact ⟨n, List.mem_append_right _ hn, (Match.partOf_merge? hm).2⟩

/-- A merge with a smaller match is big, unless something else is that the smaller match is part of. -/
theorem Round.merge_mem_enlargeAll (hl : ∀ a ∈ l, ∀ n, a.merge? c = some n →
      ∀ x ∈ (l.foldl (enlarge c) r).toBiggest, a.isSubMatch x = true → x = n)
    (ha : a ∈ l) (hm : a.merge? c = some n) : n ∈ (l.foldl (enlarge c) r).toBiggest := by
  induction l generalizing r with
  | nil => cases ha
  | cons b l ih =>
    rcases List.mem_cons.1 ha with rfl | ha
    · rw [List.foldl_cons] at hl ⊢
      rcases enlarge_cases c r a with ⟨hno, _⟩ | ⟨k, hk, ⟨_, ⟨x, hx, hsub⟩, heq⟩ | heq⟩
      · rw [hm] at hno
        cases hno
      · rw [heq] at hl ⊢
        have hbig : x ∈ (l.foldl (enlarge c) { r with toSmaller := r.toSmaller ++ [k] }).toBiggest :=
          mem_toBiggest_enlargeAll hx
        rwa [hl a List.mem_cons_self n hm x hbig hsub] at hbig
      · obtain rfl : n = k := Option.some.inj (hm.symm.trans hk)
        rw [heq]
        exact mem_toBiggest_enlargeAll (List.mem_append_right _ (List.mem_singleton.2 rfl))
    · exact ih (fun a ha => hl a (List.mem_cons_of_mem b ha)) ha

/-- What is big after a round: merges, and candidates that go with no match before it. -/
theorem Round.mem_toBiggest_addAll_cases (h : m ∈ (l.foldl (add false f) r).toBiggest) :
    m ∈ r.toBiggest ∨ (∃ c ∈ l, ∃ a, f.Has a ∧ a.merge? c = some m) ∨ m ∈ l ∧ ∀ a, f.Has a → a.merge? m = none := by
  induction l generalizing r with
  | nil => exact .inl h
  | cons c l ih =>
    rcases ih h with h | ⟨c', hc, h⟩ | ⟨hm, h⟩
    · rcases mem_toBiggest_add_iff.1 h with h | ⟨rfl, hno⟩
      · refine (mem_toBiggest_joined h).imp_right fun h => .inl ⟨c, List.mem_cons_self, h⟩
      · exact .inr (.inr ⟨List.mem_cons_self, hno⟩)
    · exact .inr (.inl ⟨c', List.mem_cons_of_mem c hc, h⟩)
    · exact .inr (.inr ⟨List.mem_cons_of_mem c hm, h⟩)

/-- What a candidate puts among the big matches stays there. -/
theorem Round.exists_mem_toBiggest_addAll {P : Match → Prop} (hc : c ∈ l)
    (h : ∀ r, ∃ n ∈ (add false f r c).toBiggest, P n) : ∃ n ∈ (l.foldl (add false f) r).toBiggest, P n := by
  induction l generalizing r with
  | nil => cases hc
  | cons b l ih =>
    rw [List.foldl_cons]
    rcases List.mem_cons.1 hc with rfl | hc
    · exact (h r).imp fun n hn => ⟨mem_toBiggest_addAll (.inl hn.1), hn.2⟩
    · exact ih hc

theorem Round.mem_toBiggest_of_no_merge (hc : c ∈ l) (h : ∀ a, f.Has a → a.merge? c = none) :
    c ∈ (l.foldl (add false f) r).toBiggest := by
  obtain ⟨n, hn, rfl⟩ := exists_mem_toBiggest_addAll (f := f) (r := r) (P := (· = c)) hc fun r =>
    ⟨c, mem_toBiggest_add_iff.2 (.inr ⟨rfl, h⟩), rfl⟩
  exact hn

/-- All merges are big if no smaller match is part of another one that is. -/
theorem Round.merge_mem_addAll (hsmall : ∀ a ∈ f.smaller, ∀ c ∈ l, ∀ n, a.merge? c = some n →
      ∀ x ∈ (l.foldl (add false f) r).toBiggest, a.isSubMatch x = true → x = n)
    (ha : f.Has a) (hc : c ∈ l) (hm : a.merge? c = some n) : n ∈ (l.foldl (add false f) r).toBiggest := by
  rcases ha with ha | ha
  · exact mem_toBiggest_addAll (.inr ⟨a, ha, c, hc, hm⟩)
  induction l generalizing r with
  | nil => cases hc
  | cons b l ih =>
    rw [List.foldl_cons] at hsmall ⊢
    rcases List.mem_cons.1 hc with rfl | hc
    · have hjoined : ∀ x ∈ (joined false f r c).toBiggest, x ∈ (l.foldl (add false f) (add false f r c)).toBiggest :=
        fun x hx => mem_toBiggest_addAll (.inl (mem_toBiggest_add_iff.2 (.inl hx)))
      refine hjoined n (merge_mem_enlargeAll (fun a ha n hn x hx => ?_) ha hm)
      exact hsmall a ha c List.mem_cons_self n hn x (hjoined x hx)
    · exact ih (fun a ha c hc => hsmall a ha c (List.mem_cons_of_mem b hc)) hc

theorem mem_step_biggest : m ∈ (f.step false l).biggest ↔
    (m ∈ f.biggest ∧ ∀ c ∈ l, m.merge? c = none) ∨ m ∈ (l.foldl (Round.add false f) ⟨false, [], []⟩).toBiggest := by
  simp [step]

end Found

/-! ## Single pairs -/

section

variable {p q : Pattern} {ts : List Triple} {t u : Triple} {a c m n : Match}

/-- What a round makes of a big match is big. -/
theorem Found.exists_biggest_step {f : Found} {l : List Match} (h : m ∈ f.biggest ∨ m ∈ l) :
    ∃ n ∈ (f.step false l).biggest, m.PartOf n := by
  rcases h with h | h
  · by_cases hno : ∀ c ∈ l, m.merge? c = none
    · exact ⟨m, mem_step_biggest.2 (.inl ⟨h, hno⟩), .refl m⟩
    · simp only [not_forall] at hno
      obtain ⟨c, hc, hm⟩ := hno
      obtain ⟨n, hn⟩ := Option.ne_none_iff_exists'.1 hm
      have hbig : n ∈ (l.foldl (Round.add false f) ⟨false, [], []⟩).toBiggest :=
        Round.mem_toBiggest_addAll (.inr ⟨m, h, c, hc, hn⟩)
      exact ⟨n, mem_step_biggest.2 (.inr hbig), (Match.partOf_merge? hn).1⟩
  · have hround : ∃ n ∈ (l.foldl (Round.add false f) ⟨false, [], []⟩).toBiggest, m.PartOf n := by
      refine Round.exists_mem_toBiggest_addAll h fun r => ?_
      by_cases hmerged : (Round.joined false f r m).merged = true
      · obtain ⟨n, hn, hpart⟩ := Round.exists_mem_toBiggest hmerged
        exact ⟨n, Round.mem_toBiggest_add_iff.2 (.inl hn), hpart⟩
      · refine ⟨m, Round.mem_toBiggest_add_iff.2 (.inr ⟨rfl, fun a ha => ?_⟩), .refl m⟩
        exact Option.not_isSome_iff_eq_none.1 fun hm => hmerged (Round.merged_joined.2 ⟨a, ha, hm⟩)
    obtain ⟨n, hn, hpart⟩ := hround
    exact ⟨n, mem_step_biggest.2 (.inr hn), hpart⟩

theorem exists_big_of_candidate (ht : t ∈ ts) (hc : c ∈ candidates t q) :
    ∃ n ∈ (Found.search ts q).biggest, c.PartOf n := by
  induction ts using List.reverseRecOn with
  | nil => cases ht
  | append_singleton ts s ih =>
    rw [Found.search_concat]
    rcases List.mem_append.1 ht with ht | ht
    · obtain ⟨m, hm, hcm⟩ := ih ht
      obtain ⟨n, hn, hmn⟩ := Found.exists_biggest_step (.inl hm)
      exact ⟨n, hn, hcm.trans hmn⟩
    · rw [List.mem_singleton.1 ht] at hc
      exact Found.exists_biggest_step (.inr hc)

theorem mem_findMatches_biggest : m ∈ findMatches p q .biggest ↔ m ∈ (Found.search p.toList q).biggest := by
  rw [findMatches_biggest]
  exact MatchSet.mem_ofList (search_proper p.toList q).1

/-- Triples that unify are lined up in one of the biggest matches. -/
theorem exists_biggest_of_pair (ht : t ∈ p) (hu : u ∈ q) (h : (t.unify? u).isSome = true) :
    ∃ m ∈ findMatches p q .biggest, (t, u) ∈ m.triples.entries := by
  obtain ⟨c, hc, hentries⟩ := exists_candidate hu h
  obtain ⟨n, hn, hpart⟩ := exists_big_of_candidate ht hc
  exact ⟨n, mem_findMatches_biggest.2 hn, hpart _ (hentries ▸ List.mem_singleton.2 rfl)⟩

/-! ## Maximal matches -/

/-- The matches of the first list are those that are part of no other. -/
def Found.Maximal (f : Found) : Prop := ∀ m, m ∈ f.biggest ↔ f.Has m ∧ ∀ n, f.Has n → m.PartOf n → n = m

theorem entries_of_candidate (hc : c ∈ candidates t q) : ∃ u, c.triples.entries = [(t, u)] := by
  obtain ⟨u, _, hb⟩ := mem_candidates.1 hc
  exact ⟨u, (Match.between?_some hb).1⟩

theorem search_keys (h : (Found.search ts q).Has m) : ∀ e ∈ m.triples.entries, e.1 ∈ ts := by
  have hall : (Found.search ts q).Forall fun m => ∀ e ∈ m.triples.entries, e.1 ∈ ts := by
    refine Found.Forall.search (fun a b c ha hb hm e he => ?_) fun t ht c hc e he => ?_
    · exact (Match.mem_merge? hm he).elim (ha e) (hb e)
    · obtain ⟨u, hentries⟩ := entries_of_candidate hc
      rw [hentries, List.mem_singleton] at he
      rw [he]
      exact ht
  exact h.elim (hall.1 m) (hall.2 m)

theorem search_aligned (hts : ∀ t ∈ ts, t ∈ p) (h : (Found.search ts q).Has m) : m.Proper ∧ Aligned p q m.triples := by
  have hall : (Found.search ts q).Forall fun m => m.Proper ∧ Aligned p q m.triples :=
    Found.Forall.search (fun _ _ _ ha hb hm => ⟨ha.1.merge? hb.1 hm, ha.2.merge? hb.2 ha.1 hb.1 hm⟩)
      fun t ht c hc => ⟨proper_of_candidate hc, aligned_of_candidate (hts t ht) hc⟩
  exact h.elim (hall.1 m) (hall.2 m)

section Round

variable (hts : ∀ s ∈ ts, s ∈ p) (ht : t ∉ ts) (ha : (Found.search ts q).Has a) (hc : c ∈ candidates t q)

include ht ha in
theorem not_mem_of_search : ∀ u, (t, u) ∉ a.triples.entries := fun u hu => ht (search_keys ha (t, u) hu)

include ht ha hc in
theorem candidate_not_partOf (hn : c.PartOf n) : ¬ n.PartOf a := fun hna => by
  obtain ⟨u, hentries⟩ := entries_of_candidate hc
  exact not_mem_of_search ht ha u (hna _ (hn _ (hentries ▸ List.mem_singleton.2 rfl)))

include hts ht ha hc in
theorem not_partOf_candidate (hn : a.PartOf n) : ¬ n.PartOf c := fun hnc => by
  obtain ⟨u, hentries⟩ := entries_of_candidate hc
  obtain ⟨e, he⟩ := (search_aligned hts ha).2.nonempty
  have heq : e = (t, u) := List.mem_singleton.1 (hentries ▸ hnc e (hn e he))
  exact not_mem_of_search ht ha u (heq ▸ he)

include ht ha hc in
/-- A match without the triple of the round that is part of a merge is part of what was merged. -/
theorem partOf_of_partOf_merge {b : Match} (hm : b.merge? c = some n) (h : a.PartOf n) : a.PartOf b := fun e he => by
  obtain ⟨u, hentries⟩ := entries_of_candidate hc
  refine (Match.mem_merge? hm (h e he)).resolve_right fun hec => ?_
  exact not_mem_of_search ht ha u (List.mem_singleton.1 (hentries ▸ hec) ▸ he)

theorem eq_of_partOf_candidate {c' : Match} (hc : c ∈ candidates t q) (hc' : c' ∈ candidates t q) (h : c.PartOf c') :
    c = c' := by
  obtain ⟨u, hentries⟩ := entries_of_candidate hc
  obtain ⟨u', hentries'⟩ := entries_of_candidate hc'
  have heq : (t, u) = (t, u') := List.mem_singleton.1 (hentries' ▸ h _ (hentries ▸ List.mem_singleton.2 rfl))
  refine (proper_of_candidate hc).ext (proper_of_candidate hc') (SortedMap.ext_mem fun e => ?_)
  rw [hentries, hentries', heq]

include ht ha in
/-- A candidate that is part of a merge is the one that was merged. -/
theorem eq_of_partOf_merge {c' : Match} (hc : c ∈ candidates t q) (hc' : c' ∈ candidates t q)
    (hm : a.merge? c' = some n) (h : c.PartOf n) : c = c' := by
  refine eq_of_partOf_candidate hc hc' fun e he => (Match.mem_merge? hm (h e he)).resolve_left fun hea => ?_
  obtain ⟨u, hentries⟩ := entries_of_candidate hc
  rw [hentries, List.mem_singleton] at he
  exact not_mem_of_search ht ha u (he ▸ hea)

end Round

variable (hts : ∀ s ∈ ts, s ∈ p) (ht : t ∉ ts) (hf : (Found.search ts q).Maximal)

include hts ht hf

/-- What is big after a round is part of nothing else, if the matches that were merged are not part of each other. -/
theorem eq_of_mem_step (hflat : ∀ a b, (Found.search ts q).Has a → (Found.search ts q).Has b → ∀ c ∈ candidates t q,
      (b.merge? c).isSome = true → a.PartOf b → a = b)
    (hm : m ∈ (Found.search (ts ++ [t]) q).biggest) (hn : (Found.search (ts ++ [t]) q).Has n) (hmn : m.PartOf n) :
    n = m := by
  rw [Found.search_concat] at hm hn
  rw [Found.has_step] at hn
  rcases Found.mem_step_biggest.1 hm with ⟨hm, hno⟩ | hm
  · -- A big match from before that no candidate goes with.
    obtain ⟨hm, hmax⟩ := (hf m).1 hm
    rcases hn with hn | ⟨c, hc, rfl | ⟨a, ha, hac⟩⟩
    · exact hmax n hn hmn
    · exact absurd hmn (not_partOf_candidate hts ht hm hc (.refl m))
    · obtain rfl : a = m := hmax a ha (partOf_of_partOf_merge ht hm hc hac hmn)
      rw [hno c hc] at hac
      cases hac
  rcases Found.Round.mem_toBiggest_addAll_cases hm with h | ⟨c, hc, a, ha, hac⟩ | ⟨hm, hno⟩
  · cases h
  · -- A merge with a candidate.
    obtain ⟨ham, hcm⟩ := Match.partOf_merge? hac
    rcases hn with hn | ⟨c', hc', rfl | ⟨b, hb, hbc⟩⟩
    · exact absurd hmn (candidate_not_partOf ht hn hc hcm)
    · exact absurd hmn (not_partOf_candidate hts ht ha hc' ham)
    · obtain rfl : c = c' := eq_of_partOf_merge ht hb hc hc' hbc (hcm.trans hmn)
      obtain rfl : a = b := hflat a b ha hb c hc (by rw [hbc]; rfl)
        (partOf_of_partOf_merge ht ha hc hbc (ham.trans hmn))
      exact Option.some.inj (hbc.symm.trans hac)
  · -- A candidate that goes with no match from before.
    rcases hn with hn | ⟨c, hc, rfl | ⟨a, ha, hac⟩⟩
    · exact absurd hmn (candidate_not_partOf ht hn hm (.refl m))
    · exact (eq_of_partOf_candidate hm hc hmn).symm
    · obtain rfl : m = c := eq_of_partOf_merge ht ha hm hc hac hmn
      rw [hno a ha] at hac
      cases hac

/-- What is part of nothing else is big after a round, if all merges are. -/
theorem mem_step_of_maximal (hbig : ∀ a, (Found.search ts q).Has a → ∀ c ∈ candidates t q, ∀ n, a.merge? c = some n →
      n ∈ (Found.search (ts ++ [t]) q).biggest)
    (hm : (Found.search (ts ++ [t]) q).Has m) (hmax : ∀ n, (Found.search (ts ++ [t]) q).Has n → m.PartOf n → n = m) :
    m ∈ (Found.search (ts ++ [t]) q).biggest := by
  rw [Found.search_concat] at hbig hm hmax ⊢
  have hmerge : ∀ a c n, (Found.search ts q).Has a → c ∈ candidates t q → a.merge? c = some n →
      ((Found.search ts q).step false (candidates t q)).Has n := fun a c n ha hc hac =>
    Found.has_step.2 (.inr ⟨c, hc, .inr ⟨a, ha, hac⟩⟩)
  rcases Found.has_step.1 hm with hm | ⟨c, hc, rfl | ⟨a, ha, hac⟩⟩
  · refine Found.mem_step_biggest.2 (.inl ⟨(hf m).2 ⟨hm, fun n hn => hmax n (Found.has_step.2 (.inl hn))⟩, ?_⟩)
    refine fun c hc => Option.eq_none_iff_forall_not_mem.2 fun n hn => ?_
    obtain ⟨hmn, hcn⟩ := Match.partOf_merge? hn
    exact candidate_not_partOf ht hm hc hcn (hmax n (hmerge m c n hm hc hn) hmn ▸ .refl n)
  · refine Found.mem_step_biggest.2 (.inr (Found.Round.mem_toBiggest_of_no_merge hc fun a ha => ?_))
    refine Option.eq_none_iff_forall_not_mem.2 fun n hn => ?_
    obtain ⟨han, hmn⟩ := Match.partOf_merge? hn
    exact not_partOf_candidate hts ht ha hc han (hmax n (hmerge a m n ha hc hn) hmn ▸ .refl n)
  · exact hbig a ha c hc m hac

end

/-! ## Patterns of two triples -/

section

variable {p q : Pattern} {ts : List Triple} {t : Triple} {a b c n x : Match} {l : SortedMap Triple Triple}

theorem Aligned.length_le (h : Aligned p q l) {es : List (Triple × Triple)} (hes : es.Nodup)
    (hmem : ∀ e ∈ es, e ∈ l.entries) : es.length ≤ p.size ∧ es.length ≤ q.size := by
  have hsources : (es.map Prod.fst).Nodup := List.Nodup.map_on
    (fun e he e' he' heq => SortedMap.eq_of_key_eq (hmem e he) (hmem e' he') heq) hes
  have htargets : (es.map Prod.snd).Nodup := List.Nodup.map_on
    (fun e he e' he' heq => h.injective e (hmem e he) e' (hmem e' he') heq) hes
  have hp : es.map Prod.fst ⊆ p.toList := fun s hs => by
    obtain ⟨e, he, rfl⟩ := List.mem_map.1 hs
    exact (h.mem e (hmem e he)).1
  have hq : es.map Prod.snd ⊆ q.toList := fun s hs => by
    obtain ⟨e, he, rfl⟩ := List.mem_map.1 hs
    exact (h.mem e (hmem e he)).2.1
  have hle := (List.subperm_of_subset hsources hp).length_le
  have hle' := (List.subperm_of_subset htargets hq).length_le
  rw [List.length_map] at hle hle'
  exact ⟨hle, hle'⟩

/-- There is no third pair. -/
theorem Aligned.eq_or_eq (h : Aligned p q l) (hsize : p.size ≤ 2 ∨ q.size ≤ 2) {e e' d : Triple × Triple}
    (he : e ∈ l.entries) (he' : e' ∈ l.entries) (hne : e ≠ e') (hd : d ∈ l.entries) : d = e ∨ d = e' := by
  by_contra hno
  rw [not_or] at hno
  have hnodup : [d, e, e'].Nodup := by simp [hno, hne]
  have hthree := h.length_le hnodup (by simp [he, he', hd])
  simp only [List.length_cons, List.length_nil] at hthree
  omega

/-- Beside a pair that two maps share, two triples leave one target for all others. -/
theorem Aligned.target_eq {l' : SortedMap Triple Triple} {u u' : Triple} {e : Triple × Triple} (h : Aligned p q l)
    (hq : q.size ≤ 2) (h' : Aligned p q l') (he : e ∈ l.entries) (he' : e ∈ l'.entries) (hu : (t, u) ∈ l.entries)
    (hu' : (t, u') ∈ l'.entries) (hne : e ≠ (t, u)) (hne' : e ≠ (t, u')) : u = u' := by
  by_contra huu
  have heu : e.2 ≠ u := fun heq => hne (h.injective e he _ hu heq)
  have heu' : e.2 ≠ u' := fun heq => hne' (h'.injective e he' _ hu' heq)
  have hnodup : [e.2, u, u'].Nodup := by simp [heu, heu', huu]
  have hthree : [e.2, u, u'] ⊆ q.toList := by
    simpa using ⟨(h.mem e he).2.1, (h.mem _ hu).2.1, (h'.mem _ hu').2.1⟩
  have hle : 3 ≤ q.size := (List.subperm_of_subset hnodup hthree).length_le
  omega

variable (hts : ∀ s ∈ ts ++ [t], s ∈ p) (ht : t ∉ ts) (hc : c ∈ candidates t q)

include hts in
theorem search_aligned_before (ha : (Found.search ts q).Has a) : a.Proper ∧ Aligned p q a.triples :=
  search_aligned (fun s hs => hts s (List.mem_append_left _ hs)) ha

include hts hc

theorem merge_aligned (ha : (Found.search ts q).Has a) (hm : a.merge? c = some n) :
    n.Proper ∧ Aligned p q n.triples := by
  obtain ⟨hap, hal⟩ := search_aligned_before hts ha
  have hcp : c.Proper := proper_of_candidate hc
  exact ⟨hap.merge? hcp hm, hal.merge? (aligned_of_candidate (hts t (by simp)) hc) hap hcp hm⟩

include ht

/-- A merge in a round has one pair from before, and that of the candidate. -/
theorem exists_pair_of_merge (hsize : p.size ≤ 2 ∨ q.size ≤ 2) (ha : (Found.search ts q).Has a)
    (hm : a.merge? c = some n) {e : Triple × Triple} (he : e ∈ a.triples.entries) :
    ∃ u, e ≠ (t, u) ∧ ∀ d, d ∈ n.triples.entries ↔ d = e ∨ d = (t, u) := by
  obtain ⟨_, hn⟩ := merge_aligned hts hc ha hm
  obtain ⟨u, hentries⟩ := entries_of_candidate hc
  have hen : e ∈ n.triples.entries := (Match.mem_merge?_iff hm).2 (.inl he)
  have hun : (t, u) ∈ n.triples.entries := (Match.mem_merge?_iff hm).2 (.inr (hentries ▸ List.mem_singleton.2 rfl))
  have hne : e ≠ (t, u) := fun heq => not_mem_of_search ht ha u (heq ▸ he)
  refine ⟨u, hne, fun d => ⟨hn.eq_or_eq hsize hen hun hne, ?_⟩⟩
  rintro (rfl | rfl)
  · exact hen
  · exact hun

theorem eq_of_partOf_of_merge (hsize : p.size ≤ 2 ∨ q.size ≤ 2) (ha : (Found.search ts q).Has a)
    (hb : (Found.search ts q).Has b) (hm : (b.merge? c).isSome = true) (hab : a.PartOf b) : a = b := by
  obtain ⟨n, hn⟩ := Option.isSome_iff_exists.1 hm
  obtain ⟨hap, hal⟩ := search_aligned_before hts ha
  obtain ⟨e, he⟩ := hal.nonempty
  obtain ⟨u, _, hpair⟩ := exists_pair_of_merge hts ht hc hsize hb hn (hab e he)
  refine Match.PartOf.antisymm hap (search_aligned_before hts hb).1 hab fun d hd => ?_
  rcases (hpair d).1 ((Match.mem_merge?_iff hn).2 (.inl hd)) with rfl | rfl
  · exact he
  · exact absurd hd (not_mem_of_search ht hb u)

/-- With two triples in the second pattern there is one way only to enlarge a match. -/
theorem eq_of_isSubMatch (hq : q.size ≤ 2) (ha : (Found.search ts q).Has a) (hm : a.merge? c = some n)
    (hx : x ∈ ((candidates t q).foldl (Found.Round.add false (Found.search ts q)) ⟨false, [], []⟩).toBiggest)
    (hsub : a.isSubMatch x = true) : x = n := by
  obtain ⟨hap, hal⟩ := search_aligned_before hts ha
  rcases Found.Round.mem_toBiggest_addAll_cases hx with h | ⟨c', hc', b, hb, hbx⟩ | ⟨hxc, _⟩
  · cases h
  · obtain ⟨hnp, hnl⟩ := merge_aligned hts hc ha hm
    obtain ⟨hxp, hxl⟩ := merge_aligned hts hc' hb hbx
    have hax : a.PartOf x := (Match.isSubMatch_iff hap hxp).1 hsub
    obtain ⟨e, he⟩ := hal.nonempty
    obtain ⟨u, hne, hpair⟩ := exists_pair_of_merge hts ht hc (.inr hq) ha hm he
    obtain ⟨u', hne', hpair'⟩ := exists_pair_of_merge hts ht hc' (.inr hq) hb hbx
      (partOf_of_partOf_merge ht ha hc' hbx hax e he)
    have hu : u = u' := hnl.target_eq hq hxl ((hpair e).2 (.inl rfl)) ((hpair' e).2 (.inl rfl))
      ((hpair _).2 (.inr rfl)) ((hpair' _).2 (.inr rfl)) hne hne'
    exact hxp.ext hnp (SortedMap.ext_mem fun d => by rw [hpair, hpair', hu])
  · have hax : a.PartOf x := (Match.isSubMatch_iff hap (proper_of_candidate hxc)).1 hsub
    exact absurd hax (not_partOf_candidate (fun s hs => hts s (List.mem_append_left _ hs)) ht ha hxc (.refl a))

omit hts ht hc

/-- With a pattern of one or two triples the matches of the first list are the maximal ones, all along. -/
theorem search_maximal (hsize : p.size ≤ 2 ∨ q.size ≤ 2) (hts : ∀ s ∈ ts, s ∈ p) (hnodup : ts.Nodup) :
    (Found.search ts q).Maximal := by
  induction ts using List.reverseRecOn with
  | nil => exact fun m => by simp [Found.search, Found.Has]
  | append_singleton ts t ih =>
    have hbefore : ∀ s ∈ ts, s ∈ p := fun s hs => hts s (List.mem_append_left _ hs)
    have hnodup' := List.nodup_append.1 hnodup
    have ht : t ∉ ts := fun h => hnodup'.2.2 t h t (List.mem_singleton.2 rfl) rfl
    have hf : (Found.search ts q).Maximal := ih hbefore hnodup'.1
    have hbig : ∀ a, (Found.search ts q).Has a → ∀ c ∈ candidates t q, ∀ n, a.merge? c = some n →
        n ∈ (Found.search (ts ++ [t]) q).biggest := by
      intro a ha c hc n hm
      rw [Found.search_concat, Found.mem_step_biggest]
      refine .inr (Found.Round.merge_mem_addAll (fun b hb c hc n hm x hx hsub => ?_) ha hc hm)
      rcases hsize with hp | hq
      · -- At the second triple nothing has been set aside.
        have hle : (ts ++ [t]).length ≤ p.size := (List.subperm_of_subset hnodup hts).length_le
        rw [List.length_append, List.length_singleton] at hle
        have hnil : (Found.search ts q).smaller = [] := by
          obtain rfl | ⟨s, rfl⟩ : ts = [] ∨ ∃ s, ts = [s] := by
            rw [← List.length_eq_zero_iff, ← List.length_eq_one_iff]
            omega
          · rfl
          · simp [Found.search, Found.step_first]
        rw [hnil] at hb
        cases hb
      · exact eq_of_isSubMatch hts ht hc hq (.inr hb) hm hx hsub
    intro m
    constructor
    · refine fun hm => ⟨.inl hm, fun n hn hmn => ?_⟩
      exact eq_of_mem_step hbefore ht hf (fun a b ha hb c hc => eq_of_partOf_of_merge hts ht hc hsize ha hb) hm hn hmn
    · rintro ⟨hm, hmax⟩
      exact mem_step_of_maximal hbefore ht hf hbig hm hmax

end

/-! ## The biggest matches -/

/-- The strategy `biggest` gives the matches that are part of no other, and every match is part of one of them. -/
structure BiggestIsMaximal (p q : Pattern) : Prop where
  mem_iff : ∀ m, m ∈ findMatches p q .biggest ↔
    m ∈ findMatches p q .all ∧ ∀ n ∈ findMatches p q .all, m.isSubMatch n = true → n = m
  covers : ∀ m ∈ findMatches p q .all, ∃ n ∈ findMatches p q .biggest, m.isSubMatch n = true

section

variable {p q : Pattern}

/-- A match is part of a maximal one. -/
theorem exists_maximal {m : Match} (hm : m ∈ findMatches p q .all) : ∃ n ∈ findMatches p q .all, m.PartOf n ∧
    ∀ k ∈ findMatches p q .all, n.PartOf k → k = n := by
  -- By the number of triples of the second pattern that are not lined up.
  induction hk : q.size - m.size using Nat.strongRecOn generalizing m with
  | ind k ih =>
    by_cases hmax : ∀ n ∈ findMatches p q .all, m.PartOf n → n = m
    · exact ⟨m, hm, .refl m, hmax⟩
    · simp only [not_forall] at hmax
      obtain ⟨n, hn, hmn, hne⟩ := hmax
      have hlt : m.size < n.size := hmn.size_lt fun hnm =>
        hne (Match.PartOf.antisymm (findMatches_proper n hn) (findMatches_proper m hm) hnm hmn)
      have hle := (size_le_of_mem_findMatches hn).2
      obtain ⟨x, hx, hnx, hxmax⟩ := ih (q.size - n.size) (by omega) hn rfl
      exact ⟨x, hx, hmn.trans hnx, hxmax⟩

theorem biggestIsMaximal_of_size_le (hsize : p.size ≤ 2 ∨ q.size ≤ 2) : BiggestIsMaximal p q := by
  have hmaximal := search_maximal hsize (fun s hs => hs) (SortedSet.nodup p)
  have hsub : ∀ m ∈ findMatches p q .all, ∀ n ∈ findMatches p q .all, (m.isSubMatch n = true ↔ m.PartOf n) :=
    fun m hm n hn => Match.isSubMatch_iff (findMatches_proper m hm) (findMatches_proper n hn)
  have hmem : ∀ m, m ∈ findMatches p q .biggest ↔
      m ∈ findMatches p q .all ∧ ∀ n ∈ findMatches p q .all, m.PartOf n → n = m := fun m => by
    simp only [mem_findMatches_biggest, mem_findMatches_all_iff_has]
    exact hmaximal m
  refine ⟨fun m => (hmem m).trans ?_, fun m hm => ?_⟩
  · exact and_congr_right fun hm => forall₂_congr fun n hn => by rw [hsub m hm n hn]
  · obtain ⟨n, hn, hmn, hmax⟩ := exists_maximal hm
    exact ⟨n, (hmem n).2 ⟨hn, hmax⟩, (hsub m hm n hn).2 hmn⟩

end

/-- Two patterns of three triples, and a match of two of them that no other goes with. -/
def lopsided : Pattern × Pattern :=
  (.ofList [⟨.iri "a", .iri "p", .iri "a"⟩, ⟨.iri "a", .iri "p", .var ⟨"x"⟩⟩, ⟨.iri "b", .iri "p", .iri "a"⟩],
    .ofList [⟨.iri "a", .iri "p", .iri "a"⟩, ⟨.var ⟨"y"⟩, .iri "p", .var ⟨"z"⟩⟩, ⟨.var ⟨"z"⟩, .iri "p", .iri "a"⟩])

theorem lopsided_not_maximal : ¬ BiggestIsMaximal lopsided.1 lopsided.2 := by
  have hlost : ((findMatches lopsided.1 lopsided.2 .all).any fun m =>
      !(findMatches lopsided.1 lopsided.2 .biggest).any m.isSubMatch) = true := by decide +kernel
  intro h
  obtain ⟨m, hm, hno⟩ := SortedSet.any_iff.1 hlost
  obtain ⟨n, hn, hsub⟩ := h.covers m hm
  rw [SortedSet.any_iff.2 ⟨n, hn, hsub⟩] at hno
  cases hno

/-- The biggest matches are consistent, and all triples that unify are lined up in one of them. That they are the
maximal ones holds for all patterns up to two sizes exactly when one of the sizes is two at most. -/
theorem biggest_isMaximal_iff (k l : Nat) :
    (∀ p q, ∀ m ∈ findMatches p q .biggest, m ∈ findMatches p q .all) ∧
      (∀ p q, ∀ t ∈ p, ∀ u ∈ q, (t.unify? u).isSome = true →
        ∃ m ∈ findMatches p q .biggest, (t, u) ∈ m.triples.entries) ∧
        ((∀ p q, p.size ≤ k → q.size ≤ l → BiggestIsMaximal p q) ↔ k ≤ 2 ∨ l ≤ 2) := by
  refine ⟨fun p q m hm => ?_, fun p q t ht u hu h => exists_biggest_of_pair ht hu h, fun hall => ?_, ?_⟩
  · exact mem_findMatches_all_iff_has.2 (.inl (mem_findMatches_biggest.1 hm))
  · by_contra hkl
    rw [not_or] at hkl
    have hthree : lopsided.1.size ≤ 3 ∧ lopsided.2.size ≤ 3 := by decide
    exact lopsided_not_maximal (hall _ _ (by omega) (by omega))
  · exact fun hkl p q hp hq => biggestIsMaximal_of_size_le (hkl.imp (Nat.le_trans hp) (Nat.le_trans hq))

/-- So there are patterns whose biggest matches are not the maximal ones. -/
theorem lopsided_loses : ¬ ∀ p q, BiggestIsMaximal p q := fun hall => lopsided_not_maximal (hall _ _)

end TripleChain
