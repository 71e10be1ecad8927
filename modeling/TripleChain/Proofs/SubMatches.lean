import TripleChain.Proofs.BiggestMatches
import TripleChain.Proofs.MatchAlgebra
/-!
# Parts of matches

What a match lines up besides one of its parts can be lined up on its own: any pairs of a match that is made by merging
and turning around go together (`Match.Made.goes`), so that any of them merge to a match again (`Match.exists_made`). A
match is therefore part of another just when the other comes of it by merging (`Match.isSubMatch_iff_merges`), and
"part of" is the order of merging.
-/

namespace TripleChain

namespace Match

variable {a b m : Match}

/-- Two pairs of a match that is made go together. -/
theorem Made.goes (h : m.Made) : ∀ e ∈ m.triples.entries, ∀ e' ∈ m.triples.entries, e ≠ e' → PairsGo e e' := by
  induction h with
  | pair h =>
    intro e he e' he' hne
    rw [(between?_some h).1, List.mem_singleton] at he he'
    exact absurd (he.trans he'.symm) hne
  | merge ha hb h iha ihb =>
    have hgoes := ha.proper.goesWith_of_merge? hb.proper h
    intro e he e' he' hne
    rcases mem_merge? h he with he | he <;> rcases mem_merge? h he' with he' | he'
    · exact iha e he e' he' hne
    · exact hgoes e he e' he'
    · exact (hgoes e' he' e he).symm
    · exact ihb e he e' he' hne
  | inverse _ ih =>
    intro e he e' he' hne
    have hne' : e.swap ≠ e'.swap := fun heq => hne (Prod.swap_injective heq)
    exact (ih _ (mem_of_mem_inverse he) _ (mem_of_mem_inverse he') hne').swap

/-- Pairs that unify and go together make a match. -/
theorem exists_made {l : List (Triple × Triple)} (hne : l ≠ []) (hunify : ∀ e ∈ l, (e.1.unify? e.2).isSome = true)
    (hgo : l.Pairwise PairsGo) : ∃ b, Made b ∧ ∀ e, e ∈ b.triples.entries ↔ e ∈ l := by
  induction l with
  | nil => exact absurd rfl hne
  | cons e l ih =>
    obtain ⟨he, hl⟩ := List.pairwise_cons.1 hgo
    obtain ⟨sites, hsites⟩ := Option.isSome_iff_exists.1 (hunify e List.mem_cons_self)
    obtain ⟨c, hc⟩ : ∃ c, between? e.1 e.2 = some c := ⟨_, Option.map_eq_some_iff.2 ⟨sites, hsites, rfl⟩⟩
    have hentries : c.triples.entries = [e] := (between?_some hc).1
    by_cases hnil : l = []
    · exact ⟨c, .pair hc, fun x => by rw [hentries, hnil]⟩
    · obtain ⟨b, hb, hmem⟩ := ih hnil (fun x hx => hunify x (List.mem_cons_of_mem e hx)) hl
      have hgoes : c.GoesWith b := fun x hx y hy => by
        rw [hentries, List.mem_singleton] at hx
        rw [hx]
        exact he y ((hmem y).1 hy)
      obtain ⟨n, hn⟩ := (Made.pair hc).proper.exists_merge? hb.proper hgoes
      refine ⟨n, (Made.pair hc).merge hb hn, fun x => ?_⟩
      rw [mem_merge?_iff hn, hentries, hmem, List.mem_singleton, List.mem_cons]

/-- The pairs that a match lines up besides those of another. -/
def pairsBeside (m a : Match) : List (Triple × Triple) := m.triples.entries.filter fun e => e ∉ a.triples.entries

theorem mem_pairsBeside {e : Triple × Triple} :
    e ∈ m.pairsBeside a ↔ e ∈ m.triples.entries ∧ e ∉ a.triples.entries := by
  simp only [pairsBeside, List.mem_filter, decide_eq_true_eq]

/-- A part that is not the whole leaves a match over, which the part merges with to the whole. -/
theorem Made.exists_rest (ha : a.Made) (hm : m.Made) (h : a.PartOf m) (hne : ¬ m.PartOf a) :
    ∃ b, b.Made ∧ a.merge? b = some m := by
  have hover : m.pairsBeside a ≠ [] := by
    obtain ⟨e, he⟩ := not_forall.1 hne
    exact List.ne_nil_of_mem (mem_pairsBeside.2 (Classical.not_imp.1 he))
  have hnodup : (m.pairsBeside a).Nodup := (List.Nodup.of_map _ m.triples.nodup_keys).filter _
  have hgo : (m.pairsBeside a).Pairwise PairsGo := hnodup.pairwise_of_forall_ne fun e he e' he' =>
    hm.goes e (mem_pairsBeside.1 he).1 e' (mem_pairsBeside.1 he').1
  obtain ⟨b, hb, hmem⟩ := exists_made hover (fun e he => hm.unify e (mem_pairsBeside.1 he).1) hgo
  refine ⟨b, hb, (ha.proper.merge?_iff hb.proper).2 ⟨fun e he e' he' => ?_, hm.proper, fun e => ?_⟩⟩
  · obtain ⟨hm', hnot⟩ := mem_pairsBeside.1 ((hmem e').1 he')
    exact hm.goes e (h e he) e' hm' fun heq => hnot (heq ▸ he)
  · rw [hmem, mem_pairsBeside]
    constructor
    · intro he
      by_cases hea : e ∈ a.triples.entries
      · exact .inl hea
      · exact .inr ⟨he, hea⟩
    · rintro (he | he)
      · exact h e he
      · exact he.1

theorem Made.isSubMatch_iff_merges (ha : a.Made) (hm : m.Made) :
    a.isSubMatch m = true ↔ a = m ∨ ∃ b, b.Made ∧ a.merge? b = some m := by
  rw [isSubMatch_iff ha.proper hm.proper]
  constructor
  · intro h
    by_cases hback : m.PartOf a
    · exact .inl (h.antisymm ha.proper hm.proper hback)
    · exact .inr (ha.exists_rest hm h hback)
  · rintro (rfl | ⟨b, _, hmerge⟩)
    · exact .refl a
    · exact (partOf_merge? hmerge).1

/-- Of matches that are made by merging and turning around, one is part of another when the two are the same or the
other comes of it by merging, and this is a partial order. Matches that compare equal are the same here. -/
theorem isSubMatch_is_merge_order :
    (∀ a m : Match, a.Made → m.Made → (a.isSubMatch m = true ↔ a = m ∨ ∃ b, b.Made ∧ a.merge? b = some m)) ∧
      (∀ a m : Match, a.Made → m.Made → (compare a m = .eq ↔ a = m)) ∧
      IsPartialOrder {m : Match // m.Made} fun a m => a.1.isSubMatch m.1 = true := by
  have hpart (a m : {m : Match // m.Made}) : a.1.isSubMatch m.1 = true ↔ a.1.PartOf m.1 :=
    isSubMatch_iff a.2.proper m.2.proper
  refine ⟨fun a m ha hm => ha.isSubMatch_iff_merges hm, fun a m ha hm => ⟨?_, ?_⟩, ?_⟩
  · exact MatchSet.eq_of_compare a m ha.proper hm.proper
  · rintro rfl
    exact Std.ReflCmp.compare_self
  · exact {
      refl := fun a => (hpart a a).2 (.refl a.1)
      trans := fun a b c hab hbc => (hpart a c).2 (((hpart a b).1 hab).trans ((hpart b c).1 hbc))
      antisymm := fun a m ham hma => Subtype.ext <|
        ((hpart a m).1 ham).antisymm a.2.proper m.2.proper ((hpart m a).1 hma) }

/-- Of a path of three edges lined up with another, the edge in the middle leaves the outer two over. -/
theorem middle_edge_leaves_rest :
    let b := edges "b" "c" "y" "z"
    ∃ m, ((edges "a" "b" "x" "y").merge? b).bind (·.merge? (edges "c" "d" "z" "w")) = some m ∧ m.Made ∧
      b.isSubMatch m = true ∧ b ≠ m ∧ ∃ r, r.Made ∧ b.merge? r = some m := by
  intro b
  obtain ⟨ha, hb, hc⟩ := edges_made
  obtain ⟨m, hm⟩ := Option.isSome_iff_exists.1
    (show (((edges "a" "b" "x" "y").merge? b).bind (·.merge? (edges "c" "d" "z" "w"))).isSome = true by decide)
  obtain ⟨n, hn, hnm⟩ := Option.bind_eq_some_iff.1 hm
  have hmade : m.Made := (ha.merge hb hn).merge hc hnm
  have hsize : m.size = 3 := by
    have hall : (((edges "a" "b" "x" "y").merge? b).bind (·.merge? (edges "c" "d" "z" "w"))).map size = some 3 := by
      decide
    rw [hm] at hall
    exact Option.some.inj hall
  have hne : b ≠ m := fun heq => by
    rw [← heq] at hsize
    exact absurd hsize (by decide)
  have hpart : b.isSubMatch m = true := (isSubMatch_iff hb.proper hmade.proper).2 fun e he =>
    (partOf_merge? hnm).1 e ((partOf_merge? hn).2 e he)
  exact ⟨m, hm, hmade, hpart, hne, ((isSubMatch_is_merge_order.1 b m hb hmade).1 hpart).resolve_left hne⟩

end Match

end TripleChain
