import TripleChain.Unify
import TripleChain.Proofs.Instance
/-!
# Which triples unify

`Triple.unify?_some` says what a unification gives: the pairs of sites with a variable on one side or the
other, while constants are equal. Triples that have an instance in common unify (`Triple.unify?_isSome`), and
it does not matter which of the two comes first (`Triple.unify?_comm`).
-/

open Std

namespace TripleChain

/-- A variable stands at a place of one triple or the other. -/
def Triple.Faces (p q : Triple) (i : Position) : Prop :=
  (p.term i).isVariable = true ∨ (q.term i).isVariable = true

/-- A pair of sites with a variable on one side or the other. -/
def Triple.Pairs (p q : Triple) (e : Site × Site) : Prop := ∃ i, p.Faces q i ∧ e = (p.site i, q.site i)

theorem face?_eq_some {seen seen' : SortedMap Variable Term} {v : Variable} {t : Term}
    (h : face? seen v t = some seen') : seen'.get? v = some t ∧ ∀ w, w ≠ v → seen'.get? w = seen.get? w := by
  unfold face? at h
  split at h
  · next hu =>
    split at h
    · next heq =>
      cases h
      exact ⟨heq ▸ hu, fun _ _ => rfl⟩
    · cases h
  · cases h
    exact ⟨SortedMap.get?_insert_self .., fun w hw => SortedMap.get?_insert_of_ne _ _ (Ne.symm hw)⟩

theorem face?_of_agree {seen : SortedMap Variable Term} {v : Variable} {t : Term}
    (h : ∀ u, seen.get? v = some u → u = t) : ∃ seen', face? seen v t = some seen' := by
  unfold face?
  cases hv : seen.get? v with
  | none => exact ⟨_, rfl⟩
  | some u => exact ⟨_, if_pos (h u hv)⟩

/-- Notes that keep to a relation which allows one constant only take one more. -/
theorem face?_within {S : Variable → Term → Prop} {seen : SortedMap Variable Term} {v : Variable} {t : Term}
    (hs : ∀ w u, seen.get? w = some u → S w u) (hv : S v t) (honce : ∀ u, S v u → u = t) :
    ∃ seen', face? seen v t = some seen' ∧ ∀ w u, seen'.get? w = some u → S w u := by
  obtain ⟨seen', h⟩ := face?_of_agree fun u hu => honce u (hs v u hu)
  obtain ⟨hself, hother⟩ := face?_eq_some h
  refine ⟨seen', h, fun w u hu => ?_⟩
  by_cases hw : w = v
  · subst hw
    cases hself.symm.trans hu
    exact hv
  · exact hs w u (hother w hw ▸ hu)

namespace Unifier

/-- What a step does to the sites: constants are equal and add nothing, a variable adds its pair. -/
theorem step?_cases {p q : Triple} {u u' : Unifier} {i : Position} (h : step? p q u i = some u') :
    p.Faces q i ∧ u'.sites = u.sites.insert (p.site i) (q.site i) ∨
      ¬ p.Faces q i ∧ p.term i = q.term i ∧ u' = u := by
  unfold step? at h
  unfold Triple.Faces
  cases hp : p.term i <;> cases hq : q.term i <;> simp only [hp, hq] at h
  case var.var =>
    cases h
    exact .inl ⟨.inl rfl, rfl⟩
  case var.iri | var.literal =>
    obtain ⟨_, _, rfl⟩ := Option.map_eq_some_iff.1 h
    exact .inl ⟨.inl rfl, rfl⟩
  case iri.var | literal.var =>
    obtain ⟨_, _, rfl⟩ := Option.map_eq_some_iff.1 h
    exact .inl ⟨.inr rfl, rfl⟩
  all_goals
    split at h
    · next heq =>
      cases h
      exact .inr ⟨by simp [Term.isVariable], heq, rfl⟩
    · cases h

/-- Among pairs of sites of two triples, a site that is put again is put with the same site. -/
theorem mem_insert_pairs {p q : Triple} {sites : SortedMap Site Site} {i : Position} {e : Site × Site}
    (h : ∀ e ∈ sites.entries, p.Pairs q e) :
    e ∈ (sites.insert (p.site i) (q.site i)).entries ↔ e = (p.site i, q.site i) ∨ e ∈ sites.entries := by
  rw [SortedMap.mem_entries_insert]
  constructor
  · exact fun h => h.imp_right And.right
  · refine fun h' => h'.elim .inl fun he => ?_
    by_cases hk : e.1 = p.site i
    · obtain ⟨j, _, rfl⟩ := h e he
      cases hk
      exact .inl rfl
    · exact .inr ⟨hk, he⟩

/-- What the steps over some places give. -/
theorem steps_sites {p q : Triple} {l : List Position} {u u' : Unifier} (hu : ∀ e ∈ u.sites.entries, p.Pairs q e)
    (h : l.foldlM (step? p q) u = some u') :
    (∀ e, e ∈ u'.sites.entries ↔ e ∈ u.sites.entries ∨ ∃ i ∈ l, p.Faces q i ∧ e = (p.site i, q.site i)) ∧
      ∀ i ∈ l, ¬ p.Faces q i → p.term i = q.term i := by
  induction l generalizing u with
  | nil =>
    cases h
    simp
  | cons i l ih =>
    rw [List.foldlM_cons] at h
    obtain ⟨u₁, h₁, h₂⟩ := Option.bind_eq_some_iff.1 h
    rcases step?_cases h₁ with ⟨hf, hs⟩ | ⟨hf, ht, rfl⟩
    · have hmem (e : Site × Site) : e ∈ u₁.sites.entries ↔ e = (p.site i, q.site i) ∨ e ∈ u.sites.entries := by
        rw [hs]
        exact mem_insert_pairs hu
      have hu₁ : ∀ e ∈ u₁.sites.entries, p.Pairs q e := fun e he => by
        rcases (hmem e).1 he with rfl | he
        · exact ⟨i, hf, rfl⟩
        · exact hu e he
      obtain ⟨hes, hcs⟩ := ih hu₁ h₂
      refine ⟨fun e => ?_, fun j hj hn => ?_⟩
      · rw [hes, hmem]
        simp only [List.exists_mem_cons_iff, hf, true_and]
        rw [or_comm (a := e = _), or_assoc]
      · rcases List.mem_cons.1 hj with rfl | hj
        · exact absurd hf hn
        · exact hcs j hj hn
    · obtain ⟨hes, hcs⟩ := ih hu h₂
      refine ⟨fun e => ?_, fun j hj hn => ?_⟩
      · rw [hes]
        simp only [List.exists_mem_cons_iff, hf, false_and, false_or]
      · rcases List.mem_cons.1 hj with rfl | hj
        · exact ht
        · exact hcs j hj hn

/-- The two triples have changed sides. -/
structure Mirrors (u u' : Unifier) : Prop where
  ours : u'.ours = u.theirs
  theirs : u'.theirs = u.ours

theorem Mirrors.step? {p q : Triple} {u u' v : Unifier} {i : Position} (hm : Mirrors u u')
    (h : Unifier.step? p q u i = some v) : ∃ v', Unifier.step? q p u' i = some v' ∧ Mirrors v v' := by
  unfold Unifier.step? at h ⊢
  cases hp : p.term i <;> cases hq : q.term i <;> simp only [hp, hq] at h ⊢
  case var.var =>
    cases h
    exact ⟨_, rfl, hm.ours, hm.theirs⟩
  case var.iri | var.literal =>
    obtain ⟨seen, hs, rfl⟩ := Option.map_eq_some_iff.1 h
    exact ⟨_, Option.map_eq_some_iff.2 ⟨seen, hm.theirs ▸ hs, rfl⟩, hm.ours, rfl⟩
  case iri.var | literal.var =>
    obtain ⟨seen, hs, rfl⟩ := Option.map_eq_some_iff.1 h
    exact ⟨_, Option.map_eq_some_iff.2 ⟨seen, hm.ours ▸ hs, rfl⟩, rfl, hm.theirs⟩
  all_goals
    split at h
    · next heq =>
      cases h
      exact ⟨_, if_pos heq.symm, hm⟩
    · cases h

theorem Mirrors.steps {p q : Triple} {l : List Position} {u u' v : Unifier} (hm : Mirrors u u')
    (h : l.foldlM (Unifier.step? p q) u = some v) : ∃ v', l.foldlM (Unifier.step? q p) u' = some v' := by
  induction l generalizing u u' with
  | nil => exact ⟨u', rfl⟩
  | cons i l ih =>
    rw [List.foldlM_cons] at h
    obtain ⟨w, hw, h⟩ := Option.bind_eq_some_iff.1 h
    obtain ⟨w', hw', hm'⟩ := hm.step? hw
    obtain ⟨v', hv'⟩ := ih hm' h
    exact ⟨v', by rw [List.foldlM_cons, hw']; exact hv'⟩

/-- The constants faced so far are what two bindings make of the variables. -/
structure Agrees (b c : Binding) (u : Unifier) : Prop where
  ours : ∀ v t, u.ours.get? v = some t → b.get? v = some t
  theirs : ∀ v t, u.theirs.get? v = some t → c.get? v = some t

theorem Agrees.step? {b c : Binding} {p q : Triple} {u : Unifier} {i : Position} (ha : Agrees b c u)
    (heq : (p.term i).instantiate b = (q.term i).instantiate c) :
    ∃ u', Unifier.step? p q u i = some u' ∧ Agrees b c u' := by
  unfold Unifier.step?
  -- Only a variable that faces a constant is noted; two constants have to be equal.
  cases hp : p.term i <;> cases hq : q.term i <;> simp only [hp, hq] at heq ⊢
  case var.var => exact ⟨_, rfl, ha.ours, ha.theirs⟩
  case var.iri v t | var.literal v t =>
    have hv := Term.get?_of_instantiate (b := b) (v := v) (by rw [heq]; rfl)
    rw [heq] at hv
    obtain ⟨seen, hs, hseen⟩ := face?_within ha.ours hv fun u hu => Option.some.inj (hu.symm.trans hv)
    exact ⟨_, Option.map_eq_some_iff.2 ⟨seen, hs, rfl⟩, hseen, ha.theirs⟩
  case iri.var t v | literal.var t v =>
    have hv := Term.get?_of_instantiate (b := c) (v := v) (by rw [← heq]; rfl)
    rw [← heq] at hv
    obtain ⟨seen, hs, hseen⟩ := face?_within ha.theirs hv fun u hu => Option.some.inj (hu.symm.trans hv)
    exact ⟨_, Option.map_eq_some_iff.2 ⟨seen, hs, rfl⟩, ha.ours, hseen⟩
  all_goals exact ⟨u, if_pos heq, ha⟩

theorem Agrees.steps {b c : Binding} {p q : Triple} {l : List Position} {u : Unifier} (ha : Agrees b c u)
    (heq : p.instantiate b = q.instantiate c) : ∃ u', l.foldlM (Unifier.step? p q) u = some u' := by
  induction l generalizing u with
  | nil => exact ⟨u, rfl⟩
  | cons i l ih =>
    have hi := congrArg (Triple.term · i) heq
    simp only [Triple.term_instantiate] at hi
    obtain ⟨w, hw, ha'⟩ := ha.step? hi
    obtain ⟨u', hu'⟩ := ih ha'
    exact ⟨u', by rw [List.foldlM_cons, hw]; exact hu'⟩

end Unifier

namespace Triple

theorem unify?_some {p q : Triple} {sites : SiteMap} (h : p.unify? q = some sites) :
    (∀ e, e ∈ sites.entries ↔ p.Pairs q e) ∧ ∀ i, ¬ p.Faces q i → p.term i = q.term i := by
  obtain ⟨u, hu, rfl⟩ := Option.map_eq_some_iff.1 h
  obtain ⟨hes, hcs⟩ := Unifier.steps_sites (by intro e he; cases he) hu
  refine ⟨fun e => ?_, fun i => hcs i (Position.mem_all i)⟩
  rw [hes]
  constructor
  · rintro (he | ⟨i, _, hi⟩)
    · cases he
    · exact ⟨i, hi⟩
  · rintro ⟨i, hi⟩
    exact .inr ⟨i, Position.mem_all i, hi⟩

/-- Triples with a common instance unify. -/
theorem unify?_isSome {p q : Triple} {b c : Binding} (h : p.instantiate b = q.instantiate c) :
    ∃ sites, p.unify? q = some sites := by
  obtain ⟨u, hu⟩ := Unifier.Agrees.steps (l := Position.all) (u := ⟨∅, ∅, ∅⟩)
    ⟨fun _ _ h => (nomatch h), fun _ _ h => (nomatch h)⟩ h
  exact ⟨u.sites, by rw [unify?, hu]; rfl⟩

theorem unify?_comm {p q : Triple} {sites : SiteMap} (h : p.unify? q = some sites) :
    ∃ sites', q.unify? p = some sites' := by
  obtain ⟨u, hu, _⟩ := Option.map_eq_some_iff.1 h
  have hmirrors : Unifier.Mirrors ⟨∅, ∅, ∅⟩ ⟨∅, ∅, ∅⟩ := ⟨rfl, rfl⟩
  obtain ⟨v, hv⟩ := hmirrors.steps hu
  exact ⟨v.sites, by rw [unify?, hv]; rfl⟩

theorem unify?_isSome_comm {p q : Triple} (h : (p.unify? q).isSome = true) : (q.unify? p).isSome = true := by
  obtain ⟨sites, hsites⟩ := Option.isSome_iff_exists.1 h
  exact Option.isSome_iff_exists.2 (unify?_comm hsites)

end Triple

end TripleChain
