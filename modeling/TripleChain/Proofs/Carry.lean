import TripleChain.Proofs.SiteBindings
import TripleChain.Proofs.Unification
/-!
# Carrying site bindings through matches

`SiteBinding.carryThrough_some` says what a site binding that has come through a match binds: the variables
that face a term, each to the term that it faces. `SiteBinding.exists_carryThrough` says when one does come
through: when a common instance is in sight.
-/

open Std

namespace TripleChain

namespace SiteBinding

variable {f : Variable → Option Term} {source target target' : SiteBinding}

/-- The term at a site: a constant itself, or what the variable there is bound to. -/
def termAt? (x : SiteBinding) (s : Site) : Option Term := if s.term.isVariable then x.get? s else some s.term

/-- A site takes a term: a variable becomes bound to it, a constant has to be equal to it. -/
def meet? (target : SiteBinding) (s : Site) (t : Term) : Option SiteBinding :=
  match s.toVariable? with
  | none => if t = s.term then some target else none
  | some v =>
    match target.valueOf? v with
    | some current => if current = t then some (target.put s t) else none
    | none => some (target.put s t)

theorem termAt?_of_var {x : SiteBinding} {s : Site} {v : Variable} (h : s.toVariable? = some v) :
    x.termAt? s = x.get? s :=
  if_pos (Term.isVariable_iff.2 ⟨v, Term.toVariable?_eq_some.1 h⟩)

theorem termAt?_of_none {x : SiteBinding} {s : Site} (h : s.toVariable? = none) : x.termAt? s = some s.term :=
  if_neg (by rw [Term.toVariable?_eq_none.1 h]; simp)

/-- Carrying is meeting, except where constants face each other. -/
theorem carry?_eq {e : Site × Site} (h : e.1.toVariable? ≠ none ∨ e.2.toVariable? ≠ none) :
    carry? source target e = match source.termAt? e.1 with
      | none => some target
      | some t => meet? target e.2 t := by
  unfold carry? meet?
  cases h₁ : e.1.toVariable? with
  | some v₁ =>
    rw [termAt?_of_var h₁]
    cases h₂ : e.2.toVariable? <;> cases source.get? e.1 <;> rfl
  | none =>
    rw [termAt?_of_none h₁]
    cases h₂ : e.2.toVariable? with
    | some v₂ => rfl
    | none => exact absurd h (by simp [h₁, h₂])

/-- How a site can take a term. -/
theorem meet?_cases {s : Site} {t : Term} (h : meet? target s t = some target') :
    s.toVariable? = none ∧ t = s.term ∧ target' = target ∨
      ∃ v, s.toVariable? = some v ∧ (∀ u, target.valueOf? v = some u → u = t) ∧ target' = target.put s t := by
  unfold meet? at h
  split at h
  · next hs =>
    split at h
    · next heq =>
      cases h
      exact .inl ⟨hs, heq, rfl⟩
    · cases h
  · next v hs =>
    refine .inr ⟨v, hs, ?_⟩
    split at h
    · next u hu =>
      split at h
      · next heq =>
        cases h
        refine ⟨fun w hw => ?_, rfl⟩
        rw [hu] at hw
        cases hw
        exact heq
      · cases h
    · next hu =>
      cases h
      refine ⟨fun w hw => ?_, rfl⟩
      rw [hu] at hw
      cases hw

/-- Something that gives the terms of a site binding and one more. -/
theorem Coherent.exists_under_put {s : Site} {t : Term} {v : Variable} (h : target.Coherent)
    (hs : s.toVariable? = some v) (hv : ∀ u, target.valueOf? v = some u → u = t) :
    ∃ f, target.Under f ∧ Fits f (s, t) := by
  refine ⟨fun w => if w = v then some t else target.valueOf? w, h.under fun w u hw => ?_, v, hs, if_pos rfl⟩
  by_cases hwv : w = v
  · subst hwv
    rw [if_pos rfl, hv u hw]
  · rw [if_neg hwv, hw]

theorem meet?_sound {s : Site} {t : Term} (hc : target.Coherent) (h : meet? target s t = some target') :
    target'.Coherent ∧
      (∀ s' t', target'.get? s' = some t' ↔
        target.get? s' = some t' ∨ s.toVariable? ≠ none ∧ (s', t') = (s, t)) ∧
      (s.toVariable? = none → t = s.term) := by
  rcases meet?_cases h with ⟨hs, ht, rfl⟩ | ⟨v, hs, hv, rfl⟩
  · exact ⟨hc, fun s' t' => by simp [hs], fun _ => ht⟩
  · obtain ⟨f, hf, hst⟩ := hc.exists_under_put hs hv
    refine ⟨(hf.put hst).coherent, fun s' t' => ?_, fun hn => ?_⟩
    · rw [hf.get?_put_iff hst, hs]
      simp
    · rw [hs] at hn
      cases hn

theorem exists_meet? {s : Site} {t : Term} (h : target.Under f) (hv : ∀ v, s.toVariable? = some v → f v = some t)
    (hc : s.toVariable? = none → t = s.term) : ∃ target', meet? target s t = some target' ∧ target'.Under f := by
  unfold meet?
  cases hs : s.toVariable? with
  | none => exact ⟨target, if_pos (hc hs), h⟩
  | some v =>
    have hp := h.put ⟨v, hs, hv v hs⟩
    cases ht : target.valueOf? v with
    | none => exact ⟨target.put s t, by simp only [ht], hp⟩
    | some u =>
      have hu : u = t := by
        have := h.var v u ht
        rw [hv v hs] at this
        exact (Option.some.inj this).symm
      exact ⟨target.put s t, by simp only [ht, if_pos hu], hp⟩

/-! ## Pairs of sites -/

/-- The pair has a variable on one side or the other. -/
def Touching (e : Site × Site) : Prop := e.1.toVariable? ≠ none ∨ e.2.toVariable? ≠ none

theorem carry?_sound {e : Site × Site} (he : Touching e) (hc : target.Coherent)
    (h : carry? source target e = some target') :
    target'.Coherent ∧
      (∀ s t, target'.get? s = some t ↔
        target.get? s = some t ∨ e.2 = s ∧ s.toVariable? ≠ none ∧ source.termAt? e.1 = some t) ∧
      (e.2.toVariable? = none → ∀ t, source.termAt? e.1 = some t → t = e.2.term) := by
  rw [carry?_eq he] at h
  split at h
  · next hn =>
    cases h
    exact ⟨hc, fun s t => by simp [hn], fun _ t ht => by simp [hn] at ht⟩
  · next u hu =>
    obtain ⟨hc', hs, ht⟩ := meet?_sound hc h
    refine ⟨hc', fun s t => ?_, fun hn t ht' => ?_⟩
    · rw [hs]
      constructor
      · rintro (h | ⟨hv, heq⟩)
        · exact .inl h
        · cases heq
          exact .inr ⟨rfl, hv, hu⟩
      · rintro (h | ⟨rfl, hv, ht'⟩)
        · exact .inl h
        · rw [hu] at ht'
          cases ht'
          exact .inr ⟨hv, rfl⟩
    · rw [hu] at ht'
      cases ht'
      exact ht hn

theorem carryAll_sound {l : List (Site × Site)} (hl : ∀ e ∈ l, Touching e) (hc : target.Coherent)
    (h : l.foldlM (carry? source) target = some target') :
    target'.Coherent ∧
      (∀ s t, target'.get? s = some t ↔
        target.get? s = some t ∨ ∃ e ∈ l, e.2 = s ∧ s.toVariable? ≠ none ∧ source.termAt? e.1 = some t) ∧
      (∀ e ∈ l, e.2.toVariable? = none → ∀ t, source.termAt? e.1 = some t → t = e.2.term) := by
  induction l generalizing target with
  | nil =>
    cases h
    exact ⟨hc, by simp, by simp⟩
  | cons e l ih =>
    rw [List.foldlM_cons] at h
    obtain ⟨mid, h₁, h₂⟩ := Option.bind_eq_some_iff.1 h
    obtain ⟨hc₁, hs₁, ht₁⟩ := carry?_sound (hl e List.mem_cons_self) hc h₁
    obtain ⟨hc₂, hs₂, ht₂⟩ := ih (fun a ha => hl a (List.mem_cons_of_mem e ha)) hc₁ h₂
    refine ⟨hc₂, fun s t => ?_, fun a ha => ?_⟩
    · rw [hs₂, hs₁, List.exists_mem_cons_iff, or_assoc]
    · rcases List.mem_cons.1 ha with rfl | ha
      · exact ht₁
      · exact ht₂ a ha

/-- Every term that is carried fits: `f` gives it to the variable, or it is the constant there. -/
def Welcomes (f : Variable → Option Term) (source : SiteBinding) (e : Site × Site) : Prop :=
  ∀ t, source.termAt? e.1 = some t → (∀ v, e.2.toVariable? = some v → f v = some t) ∧
    (e.2.toVariable? = none → t = e.2.term)

theorem exists_carryAll {l : List (Site × Site)} (hl : ∀ e ∈ l, Touching e) (hw : ∀ e ∈ l, Welcomes f source e)
    (hf : target.Under f) : ∃ target', l.foldlM (carry? source) target = some target' ∧ target'.Under f := by
  induction l generalizing target with
  | nil => exact ⟨target, rfl, hf⟩
  | cons e l ih =>
    have hstep : ∃ mid, carry? source target e = some mid ∧ mid.Under f := by
      rw [carry?_eq (hl e List.mem_cons_self)]
      cases ht : source.termAt? e.1 with
      | none => exact ⟨target, rfl, hf⟩
      | some t =>
        obtain ⟨hv, hc⟩ := hw e List.mem_cons_self t ht
        exact exists_meet? hf hv hc
    obtain ⟨mid, hm, hmid⟩ := hstep
    obtain ⟨target', h, hf'⟩ := ih (fun a ha => hl a (List.mem_cons_of_mem e ha))
      (fun a ha => hw a (List.mem_cons_of_mem e ha)) hmid
    exact ⟨target', by rw [List.foldlM_cons, hm]; exact h, hf'⟩

/-! ## Pairs of triples -/

/-- A pair of triples hands a term to a site of the second. -/
def Hands (source : SiteBinding) (e : Triple × Triple) (s : Site) (t : Term) : Prop :=
  (e.1.unify? e.2).isSome = true ∧ ∃ i, e.2.site i = s ∧ s.toVariable? ≠ none ∧ source.termAt? (e.1.site i) = some t

/-- The constants of the second triple of a pair are what they face in the first. -/
def Respects (source : SiteBinding) (e : Triple × Triple) : Prop :=
  (e.1.unify? e.2).isSome = true → ∀ i, (e.2.site i).toVariable? = none →
    ∀ t, source.termAt? (e.1.site i) = some t → t = e.2.term i

/-- The terms that the first triple of a pair has fit the second. -/
def Suits (f : Variable → Option Term) (source : SiteBinding) (e : Triple × Triple) : Prop :=
  ∀ i t, source.termAt? (e.1.site i) = some t → (∀ v, e.2.term i = .var v → f v = some t) ∧
    ((e.2.site i).toVariable? = none → t = e.2.term i)

theorem touching_iff {p q : Triple} {i : Position} : Touching (p.site i, q.site i) ↔ p.Faces q i := by
  have h (t : Term) : t.toVariable? ≠ none ↔ t.isVariable = true := by
    rw [ne_eq, Term.toVariable?_eq_none, Bool.not_eq_false]
  exact or_congr (h (p.term i)) (h (q.term i))

theorem Pairs.touching {p q : Triple} {e : Site × Site} (h : p.Pairs q e) : Touching e := by
  obtain ⟨i, hi, rfl⟩ := h
  exact touching_iff.2 hi

theorem carryTriple?_sound {e : Triple × Triple} (hc : target.Coherent)
    (h : carryTriple? source target e = some target') :
    target'.Coherent ∧ (∀ s t, target'.get? s = some t ↔ target.get? s = some t ∨ Hands source e s t) ∧
      Respects source e := by
  unfold carryTriple? at h
  unfold Hands Respects
  split at h
  · next sites hu =>
    obtain ⟨hpairs, hconst⟩ := Triple.unify?_some hu
    obtain ⟨hc', hs, ht⟩ := carryAll_sound (fun a ha => Pairs.touching ((hpairs a).1 ha)) hc h
    refine ⟨hc', fun s t => ?_, fun _ i hn t hi => ?_⟩
    · rw [hs, hu]
      refine or_congr_right ?_
      constructor
      · rintro ⟨a, ha, rfl, hv, hat⟩
        obtain ⟨i, _, rfl⟩ := (hpairs a).1 ha
        exact ⟨rfl, i, rfl, hv, hat⟩
      · rintro ⟨_, i, rfl, hv, hat⟩
        exact ⟨_, (hpairs _).2 ⟨i, touching_iff.1 (.inr hv), rfl⟩, rfl, hv, hat⟩
    -- Where no variable takes part, unification has compared the constants already.
    · by_cases hf : e.1.Faces e.2 i
      · exact ht _ ((hpairs _).2 ⟨i, hf, rfl⟩) hn t hi
      · have h₁ : (e.1.site i).toVariable? = none := by
          by_contra hv
          exact hf (touching_iff.1 (.inl hv))
        rw [termAt?_of_none h₁] at hi
        cases hi
        exact hconst i hf
  · next hu =>
    cases h
    exact ⟨hc, fun s t => by simp [hu], by simp [hu]⟩

theorem exists_carryTriple? {e : Triple × Triple} (hs : Suits f source e) (hf : target.Under f) :
    ∃ target', carryTriple? source target e = some target' ∧ target'.Under f := by
  unfold carryTriple?
  cases hu : e.1.unify? e.2 with
  | none => exact ⟨target, rfl, hf⟩
  | some sites =>
    obtain ⟨hpairs, _⟩ := Triple.unify?_some hu
    refine exists_carryAll (fun a ha => Pairs.touching ((hpairs a).1 ha)) (fun a ha t ht => ?_) hf
    obtain ⟨i, _, rfl⟩ := (hpairs a).1 ha
    obtain ⟨hv, hc⟩ := hs i t ht
    exact ⟨fun v h => hv v (Term.toVariable?_eq_some.1 h), hc⟩

/-! ## Matches -/

theorem carryTriples_sound {l : List (Triple × Triple)} (hc : target.Coherent)
    (h : l.foldlM (carryTriple? source) target = some target') :
    target'.Coherent ∧
      (∀ s t, target'.get? s = some t ↔ target.get? s = some t ∨ ∃ e ∈ l, Hands source e s t) ∧
      ∀ e ∈ l, Respects source e := by
  induction l generalizing target with
  | nil =>
    cases h
    exact ⟨hc, by simp, by simp⟩
  | cons e l ih =>
    rw [List.foldlM_cons] at h
    obtain ⟨mid, h₁, h₂⟩ := Option.bind_eq_some_iff.1 h
    obtain ⟨hc₁, hs₁, hr₁⟩ := carryTriple?_sound hc h₁
    obtain ⟨hc₂, hs₂, hr₂⟩ := ih hc₁ h₂
    refine ⟨hc₂, fun s t => ?_, fun a ha => ?_⟩
    · rw [hs₂, hs₁, List.exists_mem_cons_iff, or_assoc]
    · rcases List.mem_cons.1 ha with rfl | ha
      · exact hr₁
      · exact hr₂ a ha

theorem exists_carryTriples {l : List (Triple × Triple)} (hs : ∀ e ∈ l, Suits f source e) (hf : target.Under f) :
    ∃ target', l.foldlM (carryTriple? source) target = some target' ∧ target'.Under f := by
  induction l generalizing target with
  | nil => exact ⟨target, rfl, hf⟩
  | cons e l ih =>
    obtain ⟨mid, hm, hmid⟩ := exists_carryTriple? (hs e List.mem_cons_self) hf
    obtain ⟨target', h, hf'⟩ := ih (fun a ha => hs a (List.mem_cons_of_mem e ha)) hmid
    exact ⟨target', by rw [List.foldlM_cons, hm]; exact h, hf'⟩

/-- What comes through a match binds what the match hands over and nothing else, and contradicts no constant. -/
theorem carryThrough_some {m : Match} {x : SiteBinding} (h : carryThrough m source = some x) :
    x.Coherent ∧ (∀ s t, x.get? s = some t ↔ ∃ e ∈ m.triples.entries, Hands source e s t) ∧
      ∀ e ∈ m.triples.entries, Respects source e := by
  obtain ⟨hc, hs, hr⟩ := carryTriples_sound (under_empty fun _ => none).coherent h
  exact ⟨hc, fun s t => by rw [hs]; simp, hr⟩

/-- How a match carries is a matter of its triples. -/
theorem carryThrough_congr {m n : Match} (h : m.triples = n.triples) :
    carryThrough m source = carryThrough n source := by
  unfold carryThrough
  rw [h]

/-- What comes through a match touches only triples that the match leads to. -/
theorem restrict_targets {m : Match} {x : SiteBinding} (h : carryThrough m source = some x) :
    x.restrict m.targets = x := by
  obtain ⟨hc, hs, _⟩ := carryThrough_some h
  refine hc.restrict_eq_self fun s t hst => ?_
  obtain ⟨e, he, _, i, rfl, _⟩ := (hs s t).1 hst
  exact List.mem_map.2 ⟨e, he, rfl⟩

/-- A site binding whose terms suit every pair of a match comes through it. -/
theorem exists_carryThrough {m : Match} (hs : ∀ e ∈ m.triples.entries, Suits f source e) :
    ∃ x, carryThrough m source = some x ∧ x.Under f :=
  exists_carryTriples hs (under_empty f)

/-- Terms that lead to a common ground instance suit a pair of triples. -/
theorem suits_of_instance {e : Triple × Triple} {b c : Binding} (hb : source.Under b.get?)
    (heq : e.1.instantiate b = e.2.instantiate c) (hg : (e.2.instantiate c).IsGround) : Suits c.get? source e := by
  intro i t ht
  have hterm : (e.2.term i).instantiate c = t := by
    rw [← Triple.term_instantiate, ← heq, Triple.term_instantiate]
    cases h₁ : (e.1.site i).toVariable? with
    | none =>
      rw [termAt?_of_none h₁] at ht
      cases ht
      exact Term.instantiate_of_ground b (Term.toVariable?_eq_none.1 h₁)
    | some v =>
      rw [termAt?_of_var h₁] at ht
      obtain ⟨w, hw, hbw⟩ := hb.fits ht
      have hvar : e.1.term i = .var w := Term.toVariable?_eq_some.1 hw
      rw [hvar, Term.instantiate_var hbw]
  refine ⟨fun v hv => ?_, fun hn => ?_⟩
  · have hgi := hg i
    rw [Triple.term_instantiate, hv] at hgi
    rw [← hterm, hv]
    exact Term.get?_of_instantiate hgi
  · rw [← hterm]
    exact Term.instantiate_of_ground c (Term.toVariable?_eq_none.1 hn)

end SiteBinding

end TripleChain
