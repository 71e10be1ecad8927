import TripleChain.Proofs.ExactMatches
import TripleChain.Proofs.StoreHistory
import TripleChain.Proofs.Start
/-!
# Neighbours from either side

The search takes the triples of one pattern in rounds and those of the other as candidates, so that it goes another way
when the patterns change places. What lines up two patterns does not depend on the side: turned around it lines them up
the other way (`Match.Proper.aligned_inverse`). So with the strategy `all` the search finds the same matches from either
side, turned around (`inverse_findMatches`), and a rule that feeds another is given by the one store look-up with the
matches of the other (`RuleStore.lists_comm`).
-/

namespace TripleChain

/-! ## Matches -/

section

variable {p q : Pattern} {m : Match} {e e' : Triple × Triple}

theorem Fit.swap (h : Fit e e') (he : (e.1.unify? e.2).isSome = true) (he' : (e'.1.unify? e'.2).isSome = true) :
    Fit e.swap e'.swap := by
  apply (fit_iff (Triple.unify?_isSome_comm he) (Triple.unify?_isSome_comm he')).2
  intro f hf f' hf'
  exact ((fit_iff he he').1 h f.swap hf.swap f'.swap hf'.swap).symm

/-- What lines up `p` with `q` lines up `q` with `p` when it is turned around. -/
theorem Match.Proper.aligned_inverse (hm : m.Proper) (h : Aligned p q m.triples) : Aligned q p m.inverse.triples where
  nonempty := by
    obtain ⟨e, he⟩ := h.nonempty
    exact ⟨e.swap, Match.mem_inverse hm.oneToOne he⟩
  mem e he := by
    obtain ⟨ha, hu, hunify⟩ := h.mem _ (Match.mem_of_mem_inverse he)
    exact ⟨hu, ha, Triple.unify?_isSome_comm hunify⟩
  injective := hm.inverse.oneToOne
  fit e he e' he' hne := by
    have hmem := Match.mem_of_mem_inverse he
    have hmem' := Match.mem_of_mem_inverse he'
    have hfit := h.fit _ hmem _ hmem' fun heq => hne (Prod.swap_injective heq)
    exact hfit.swap (h.mem _ hmem).2.2 (h.mem _ hmem').2.2

theorem mem_findMatches_inverse (h : m ∈ findMatches p q .all) : m.inverse ∈ findMatches q p .all := by
  obtain ⟨hm, haligned⟩ := mem_findMatches_all.1 h
  exact mem_findMatches_all.2 ⟨hm.inverse, hm.aligned_inverse haligned⟩

end

/-- With the strategy `all` the search finds the same matches from either side, turned around. -/
theorem inverse_findMatches (p q : Pattern) : MatchSet.inverse (findMatches p q .all) = findMatches q p .all := by
  have hproper : MatchSet.Proper (findMatches p q .all) := findMatches_proper
  apply SortedSet.ext_mem
  intro m
  rw [hproper.mem_inverse]
  constructor
  · rintro ⟨n, hn, rfl⟩
    exact mem_findMatches_inverse hn
  · intro hm
    exact ⟨m.inverse, mem_findMatches_inverse hm, (findMatches_proper m hm).inverse_inverse⟩

/-- Nothing is found from the one side just when nothing is found from the other. -/
theorem isEmpty_findMatches_comm (p q : Pattern) :
    (findMatches p q .all).isEmpty = false ↔ (findMatches q p .all).isEmpty = false := by
  have hsome : ∀ a b : Pattern, (findMatches a b .all).isEmpty = false → (findMatches b a .all).isEmpty = false := by
    intro a b h
    obtain ⟨m, hm⟩ := SortedSet.exists_mem h
    exact SortedSet.isEmpty_eq_false (mem_findMatches_inverse hm)
  exact ⟨hsome p q, hsome q p⟩

/-! ## Neighbours -/

namespace RuleStore

variable {s : RuleStore} {strategy : Strategy} {side : Side} {i j : RuleId} {a b : Rule} {found : MatchSet}

/-- Asked for the neighbours of rule `i` on a side, the store gives rule `j`, with some matches. -/
def Lists (s : RuleStore) (strategy : Strategy) (side : Side) (i j : RuleId) (found : MatchSet) : Prop :=
  ∃ l s', s.neighbors ⟨i, side, strategy⟩ = .ok (l, s') ∧ ∃ n ∈ l, n.id = j ∧ n.found = found

/-- Between two rules that are not proactive, the matches of the facing sides are all that counts. -/
theorem lists_iff (hi : s.get i = .ok a) (hj : s.get j = .ok b) (hb : b.isProactive = false) :
    s.Lists strategy side i j found ↔ found = a.facing b side strategy ∧ found.isEmpty = false := by
  have hi := Plan.get_eq_ok.1 hi
  have hj := Plan.get_eq_ok.1 hj
  have hasked : s.neighbors ⟨i, side, strategy⟩ =
      .ok (neighborsAmong s.rules a side strategy, s.remember ⟨i, side, strategy⟩) := by
    rw [neighbors, neighbors?_eq, neighborsIn?, hi]
    rfl
  unfold Lists
  rw [hasked]
  constructor
  · rintro ⟨l, s', heq, n, hn, rfl, rfl⟩
    cases heq
    obtain ⟨hrule, _, hfound, hsome⟩ := mem_neighborsAmong.1 hn
    rw [hj] at hrule
    cases hrule
    exact ⟨hfound, hsome⟩
  · rintro ⟨hfound, hsome⟩
    exact ⟨_, _, rfl, ⟨j, b, found⟩, mem_neighborsAmong.2 ⟨hj, hb, hfound, hsome⟩, rfl, rfl⟩

/-- With the strategy `all`, matching gives the same from either side, turned around; and so do the two look-ups of a
store. Rule `j` is among those that can feed rule `i` just when rule `i` is among those that can use rule `j`, there
with the matches turned around. Of a set that no search can build, such as one with sites besides those of its triples,
some would be lost when it is turned around, so that this side has to ask for a proper one. -/
theorem lists_comm :
    (∀ p q : Pattern, MatchSet.inverse (findMatches p q .all) = findMatches q p .all) ∧
    ∀ (s : RuleStore) (i j : RuleId) (a b : Rule), s.get i = .ok a → s.get j = .ok b →
      a.isProactive = false → b.isProactive = false → ∀ found : MatchSet,
        s.Lists .all .antecedent i j found ↔ found.Proper ∧ s.Lists .all .consequent j i found.inverse := by
  refine ⟨inverse_findMatches, ?_⟩
  intro s i j a b hi hj ha hb found
  rw [lists_iff hi hj hb, lists_iff hj hi ha, Rule.facing, Rule.facing]
  constructor
  · rintro ⟨rfl, hsome⟩
    refine ⟨findMatches_proper, inverse_findMatches _ _, ?_⟩
    rw [inverse_findMatches]
    exact (isEmpty_findMatches_comm _ _).1 hsome
  · rintro ⟨hproper, hfound, hsome⟩
    have hback : found = findMatches a.antecedent b.consequent .all := by
      rw [← hproper.inverse_inverse, hfound, inverse_findMatches]
    refine ⟨hback, ?_⟩
    rw [hfound] at hsome
    rw [hback]
    exact (isEmpty_findMatches_comm _ _).1 hsome

/-- The rule that joins paths can take what some data give for either half, and the data can give to it. -/
theorem paths_lists_comm : ∃ found : MatchSet, found.size = 2 ∧ paths.Lists .all .antecedent 1 0 found ∧
    paths.Lists .all .consequent 0 1 found.inverse := by
  have hjoin : paths.get 1 = .ok .joinPaths := rfl
  have hdata : paths.get 0 = .ok (.holding [.path (.iri "a") (.iri "b"), .path (.iri "b") (.iri "c")]) := rfl
  have hlists : paths.Lists .all .antecedent 1 0 (findMatches Rule.joinPaths.antecedent (.singleton .any) .all) :=
    (lists_iff hjoin hdata rfl).2 ⟨rfl, by decide⟩
  exact ⟨_, by decide, hlists, ((lists_comm.2 paths 1 0 _ _ hjoin hdata rfl rfl _).1 hlists).2⟩

end RuleStore

end TripleChain
