import TripleChain.Proofs.CommonInstances
import TripleChain.Proofs.SiteInvariant
/-!
# What comes through a match

A match says which triples of two patterns are to be the same. Carrying a site binding through it keeps to this: if
terms for the variables of both patterns make the triples the same, what is carried agrees with them, and a binding of
all the sites that the match starts from comes through just when there are such terms for the other side
(`SiteBinding.carryThrough_exact`). Then all sites on the other side are bound, and the triples have become the same.

The terms are carried as they are. If they are ground, so are those they are carried to; a site that is bound to a
variable is carried like any other (`SiteBinding.variable_carried`).
-/

open Std

namespace TripleChain

/-- The match was found between two patterns, from one side or the other. -/
def Match.Found (p q : Pattern) (m : Match) : Prop :=
  (∃ strategy, m ∈ findMatches p q strategy) ∨ ∃ strategy, ∃ n ∈ findMatches q p strategy, m = n.inverse

theorem Match.Found.between {p q : Pattern} {m : Match} (h : m.Found p q) : m.Between p q := by
  rcases h with ⟨_, h⟩ | ⟨_, n, h, rfl⟩
  · exact findMatches_between m h
  · exact (findMatches_between n h).inverse (findMatches_oneToOne n h)

namespace SiteBinding

variable {p q : Pattern} {b c : SiteBinding} {m : Match} {u : Triple} {i : Position} {t : Term} {f g : Assignment}

/-- The sites are bound to what the assignment gives their variables. -/
def Agrees (b : SiteBinding) (f : Assignment) : Prop := ∀ s t, b.get? s = some t → s.term.fill f = t

/-- No site is bound to a variable. -/
def Ground (b : SiteBinding) : Prop := ∀ s t, b.get? s = some t → t.isVariable = false

/-- All places of the triple that hold a variable are bound. -/
def BindsAll (b : SiteBinding) (u : Triple) : Prop := ∀ s ∈ u.variableSites, b.binds s = true

/-- The triple with its bound places replaced. -/
def image (b : SiteBinding) (u : Triple) : Triple :=
  ⟨(b.get? (u.site .subject)).getD u.subject, (b.get? (u.site .predicate)).getD u.predicate,
    (b.get? (u.site .object)).getD u.object⟩

@[simp] theorem term_image (b : SiteBinding) (u : Triple) (i : Position) :
    (b.image u).term i = (b.get? (u.site i)).getD (u.term i) := by
  cases i <;> rfl

theorem Faithful.ofBinding (p : Pattern) (β : Binding) : (ofBinding p β).Faithful p :=
  (ofBinding_under p β).coherent.faithful (inside_ofBinding p β)

/-- Where a place has a term, bound or constant, the image has it. -/
theorem Coherent.term_image (hb : b.Coherent) (h : b.termAt? (u.site i) = some t) : (b.image u).term i = t := by
  rw [SiteBinding.term_image]
  cases hv : (u.site i).toVariable? with
  | some v =>
    rw [termAt?_of_var hv] at h
    rw [h, Option.getD_some]
  | none =>
    rw [termAt?_of_none hv] at h
    cases hs : b.get? (u.site i) with
    | none => exact Option.some.inj h
    | some t' =>
      obtain ⟨v, hv', _⟩ := hb.site _ _ hs
      rw [hv] at hv'
      cases hv'

theorem BindsAll.exists_termAt? (hu : b.BindsAll u) (i : Position) : ∃ t, b.termAt? (u.site i) = some t := by
  cases hv : (u.site i).toVariable? with
  | none => exact ⟨_, termAt?_of_none hv⟩
  | some v =>
    have hs : u.site i ∈ u.variableSites :=
      Triple.mem_variableSites.2 ⟨rfl, Term.isVariable_iff.2 ⟨v, Term.toVariable?_eq_some.1 hv⟩⟩
    rw [termAt?_of_var hv]
    exact binds_iff.1 (hu _ hs)

theorem Coherent.termAt?_eq (hb : b.Coherent) (hu : b.BindsAll u) (i : Position) :
    b.termAt? (u.site i) = some ((b.image u).term i) := by
  obtain ⟨t, ht⟩ := hu.exists_termAt? i
  rw [ht, hb.term_image ht]

/-- Under a binding that agrees with it, an assignment gives every place its term. -/
theorem Agrees.fill_term (h : b.Agrees f) (ht : b.termAt? (u.site i) = some t) : (u.term i).fill f = t := by
  cases hv : (u.site i).toVariable? with
  | some v =>
    rw [termAt?_of_var hv] at ht
    exact h _ t ht
  | none =>
    rw [termAt?_of_none hv] at ht
    cases ht
    exact Term.fill_of_ground f (Term.toVariable?_eq_none.1 hv)

/-- What a binding of all variables of a triple makes of it is what any assignment does that agrees with the binding. -/
theorem Agrees.fill_eq_image (h : b.Agrees f) (hb : b.Coherent) (hu : b.BindsAll u) : u.fill f = b.image u :=
  Triple.ext_term fun i => (Triple.term_fill f u i).trans (h.fill_term (hb.termAt?_eq hu i))

/-- A binding agrees with some assignment, which is ground if the binding is. -/
theorem Coherent.exists_agrees (hb : b.Coherent) : ∃ f : Assignment, b.Agrees f ∧ (b.Ground → f.Ground) := by
  refine ⟨fun v => (b.valueOf? v).getD (.iri ""), fun s t hs => ?_, fun hg v => ?_⟩
  · obtain ⟨v, hv, ht⟩ := hb.site s t hs
    rw [Term.toVariable?_eq_some.1 hv, Term.fill, ht, Option.getD_some]
  · dsimp only
    cases hv : b.valueOf? v with
    | none => rfl
    | some t =>
      obtain ⟨s, _, hs⟩ := hb.held v t hv
      exact hg s t hs

/-! ## Both directions -/

/-- Terms that the assignment gives to the second triple of a pair suit the pair. -/
theorem suits_of_fill {e : Triple × Triple} (h : ∀ i t, b.termAt? (e.1.site i) = some t → (e.2.term i).fill g = t) :
    Suits (fun v => some (g v)) b e := by
  refine fun i t ht => ⟨fun v hv => ?_, fun hn => ?_⟩
  · rw [← h i t ht, hv]
    rfl
  · rw [← h i t ht]
    exact Term.fill_of_ground g (Term.toVariable?_eq_none.1 hn)

/-- What suits every pair of a match comes through it, and agrees with the assignment. -/
theorem exists_carryThrough_agrees
    (h : ∀ e ∈ m.triples.entries, ∀ i t, b.termAt? (e.1.site i) = some t → (e.2.term i).fill g = t) :
    ∃ c, carryThrough m b = some c ∧ c.Agrees g := by
  obtain ⟨c, hc, hunder⟩ := exists_carryThrough fun e he => suits_of_fill (h e he)
  refine ⟨c, hc, fun s t hs => ?_⟩
  obtain ⟨v, hv, ht⟩ := hunder.fits hs
  rw [Term.toVariable?_eq_some.1 hv]
  exact Option.some.inj ht

section Whole

variable (hm : m.Between p q) (hb : b.Coherent) (hall : ∀ e ∈ m.triples.entries, b.BindsAll e.1)
  (h : carryThrough m b = some c)
include hm hb hall h

/-- Every place on the other side has the term of the place that it faces. -/
theorem termAt?_carryThrough {e : Triple × Triple} (he : e ∈ m.triples.entries) (i : Position) :
    c.termAt? (e.2.site i) = some ((b.image e.1).term i) := by
  obtain ⟨-, hsites, hrespects⟩ := carryThrough_some h
  have hterm := hb.termAt?_eq (hall e he) i
  cases hv : (e.2.site i).toVariable? with
  | none =>
    rw [termAt?_of_none hv]
    exact congrArg some (hrespects e he (hm.mem e he).2.2 i hv _ hterm).symm
  | some v =>
    rw [termAt?_of_var hv, hsites]
    exact ⟨e, he, (hm.mem e he).2.2, i, rfl, by rw [hv]; exact Option.some_ne_none v, hterm⟩

theorem image_carryThrough {e : Triple × Triple} (he : e ∈ m.triples.entries) : b.image e.1 = c.image e.2 :=
  Triple.ext_term fun i =>
    ((carryThrough_some h).1.term_image (termAt?_carryThrough hm hb hall h he i)).symm

theorem bindsAll_carryThrough {e : Triple × Triple} (he : e ∈ m.triples.entries) : c.BindsAll e.2 := by
  intro s hs
  obtain ⟨htriple, hv⟩ := Triple.mem_variableSites.1 hs
  have hterm := termAt?_carryThrough hm hb hall h he s.position
  rw [show e.2.site s.position = s from htriple ▸ rfl, termAt?, if_pos hv] at hterm
  exact binds_iff.2 ⟨_, hterm⟩

/-- The sites that become bound are the variable sites on the other side. -/
theorem binds_carryThrough {s : Site} : c.binds s = true ↔ ∃ e ∈ m.triples.entries, s ∈ e.2.variableSites := by
  constructor
  · intro hs
    obtain ⟨t, ht⟩ := binds_iff.1 hs
    obtain ⟨e, he, _, i, rfl, hv, _⟩ := ((carryThrough_some h).2.1 s t).1 ht
    refine ⟨e, he, Triple.mem_variableSites.2 ⟨rfl, ?_⟩⟩
    rwa [ne_eq, Site.toVariable?, Term.toVariable?_eq_none, Bool.not_eq_false] at hv
  · rintro ⟨e, he, hs⟩
    exact bindsAll_carryThrough hm hb hall h he s hs

/-- The terms that are carried make the triples the same; if they are ground, so are the terms on the other side. -/
theorem exists_fill_carryThrough : ∃ g : Assignment, (b.Ground → g.Ground) ∧
    ∀ e ∈ m.triples.entries, b.image e.1 = e.2.fill g := by
  obtain ⟨g, hg, hground⟩ := (carryThrough_some h).1.exists_agrees
  refine ⟨g, fun hbg => hground fun s t hs => ?_, fun e he => ?_⟩
  · obtain ⟨e, he, _, i, _, _, ht⟩ := ((carryThrough_some h).2.1 s t).1 hs
    unfold termAt? at ht
    split at ht
    · exact hbg _ t ht
    · next hn =>
      cases ht
      exact Bool.not_eq_true _ ▸ hn
  · rw [image_carryThrough hm hb hall h he]
    exact (hg.fill_eq_image (carryThrough_some h).1 (bindsAll_carryThrough hm hb hall h he)).symm

end Whole

/-- A match carries what agrees with terms for both sides to what agrees with them. A binding of all sites that it
starts from comes through just when there are terms for the other side that make the triples the same, ground ones if
the binding is ground; then just the sites on the other side are bound, and the triples are the same. -/
theorem carryThrough_exact (hm : m.Found p q) (hb : b.Faithful p) :
    (∀ f g : Assignment, b.Agrees f → (∀ e ∈ m.triples.entries, e.1.fill f = e.2.fill g) →
        ∃ c, carryThrough m b = some c ∧ c.Agrees g) ∧
      ((∀ e ∈ m.triples.entries, b.BindsAll e.1) →
        ((carryThrough m b).isSome = true ↔ ∃ g : Assignment, ∀ e ∈ m.triples.entries, b.image e.1 = e.2.fill g) ∧
        (b.Ground → ((carryThrough m b).isSome = true ↔ ∃ f g : Assignment, f.Ground ∧ g.Ground ∧ b.Agrees f ∧
          ∀ e ∈ m.triples.entries, e.1.fill f = e.2.fill g)) ∧
        ∀ c, carryThrough m b = some c →
          (∀ s, c.binds s = true ↔ ∃ e ∈ m.triples.entries, s ∈ e.2.variableSites) ∧
            ∀ e ∈ m.triples.entries, b.image e.1 = c.image e.2) := by
  have hm := hm.between
  have hb := hb.coherent
  have hcomes : ∀ f g : Assignment, b.Agrees f → (∀ e ∈ m.triples.entries, e.1.fill f = e.2.fill g) →
      ∃ c, carryThrough m b = some c ∧ c.Agrees g := fun f g hf heq =>
    exists_carryThrough_agrees fun e he i t ht => by
      rw [← Triple.term_fill, ← heq e he, Triple.term_fill]
      exact hf.fill_term ht
  obtain ⟨f, hf, hground⟩ := hb.exists_agrees
  refine ⟨hcomes, fun hall => ?_⟩
  have hfill : ∀ e ∈ m.triples.entries, e.1.fill f = b.image e.1 := fun e he => hf.fill_eq_image hb (hall e he)
  refine ⟨⟨fun h => ?_, ?_⟩, fun hbg => ⟨fun h => ?_, ?_⟩, fun c hc => ⟨fun s => ?_, fun e he => ?_⟩⟩
  · obtain ⟨c, hc⟩ := Option.isSome_iff_exists.1 h
    obtain ⟨g, -, hg⟩ := exists_fill_carryThrough hm hb hall hc
    exact ⟨g, hg⟩
  · rintro ⟨g, hg⟩
    obtain ⟨c, hc, -⟩ := hcomes f g hf fun e he => (hfill e he).trans (hg e he)
    exact Option.isSome_iff_exists.2 ⟨c, hc⟩
  · obtain ⟨c, hc⟩ := Option.isSome_iff_exists.1 h
    obtain ⟨g, hgg, hg⟩ := exists_fill_carryThrough hm hb hall hc
    exact ⟨f, g, hground hbg, hgg hbg, hf, fun e he => (hfill e he).trans (hg e he)⟩
  · rintro ⟨f', g, -, -, hf', hg⟩
    obtain ⟨c, hc, -⟩ := hcomes f' g hf' hg
    exact Option.isSome_iff_exists.2 ⟨c, hc⟩
  · exact binds_carryThrough hm hb hall hc
  · exact image_carryThrough hm hb hall hc he

/-! ## A match at work -/

/-- `?s <p> ?o`. -/
def told : Triple := ⟨.var ⟨"s"⟩, .iri "p", .var ⟨"o"⟩⟩

/-- `?x <p> ?y`. -/
def asked : Triple := ⟨.var ⟨"x"⟩, .iri "p", .var ⟨"y"⟩⟩

/-- The only match between the two. -/
def toldAsked : Match :=
  ⟨.ofList [(told, asked)],
    .ofList [(told.site .subject, asked.site .subject), (told.site .object, asked.site .object)]⟩

theorem found_toldAsked : toldAsked.Found (.singleton told) (.singleton asked) :=
  .inl ⟨.all, SortedSet.mem_def.2 (by decide)⟩

theorem bindsAll_told {β : Binding} (h : ∀ s ∈ told.variableSites, (ofBinding (.singleton told) β).binds s = true) :
    ∀ e ∈ toldAsked.triples.entries, (ofBinding (.singleton told) β).BindsAll e.1 := by
  intro e he
  obtain rfl : e = (told, asked) := List.mem_singleton.1 he
  exact h

/-- What is told of `<a>` and `<b>` comes through, and there are ground terms for both sides. -/
theorem told_carried :
    let b := ofBinding (.singleton told) (.ofList [(⟨"s"⟩, .iri "a"), (⟨"o"⟩, .iri "b")])
    toldAsked.Found (.singleton told) (.singleton asked) ∧ b.Faithful (.singleton told) ∧
      (carryThrough toldAsked b).isSome = true ∧ ∃ f g : Assignment, f.Ground ∧ g.Ground ∧ b.Agrees f ∧
        ∀ e ∈ toldAsked.triples.entries, e.1.fill f = e.2.fill g := by
  intro b
  have hground : b.Ground := fun s t hs => by
    have hentries : ∀ e ∈ b.entries, e.2.isVariable = false := by decide
    exact hentries _ (mem_entries.2 hs)
  have hcarried : (carryThrough toldAsked b).isSome = true := by decide
  have hall : ∀ e ∈ toldAsked.triples.entries, b.BindsAll e.1 := bindsAll_told (by decide)
  have hexact := (carryThrough_exact found_toldAsked (Faithful.ofBinding _ _)).2 hall
  exact ⟨found_toldAsked, .ofBinding _ _, hcarried, (hexact.2.1 hground).1 hcarried⟩

/-- What is told of a variable comes through as well, though no ground term agrees with it. -/
theorem variable_carried :
    let b := ofBinding (.singleton told) (.ofList [(⟨"s"⟩, .var ⟨"v"⟩), (⟨"o"⟩, .iri "b")])
    toldAsked.Found (.singleton told) (.singleton asked) ∧ b.Faithful (.singleton told) ∧
      (∀ e ∈ toldAsked.triples.entries, b.BindsAll e.1) ∧ (carryThrough toldAsked b).isSome = true ∧
      ¬ ∃ f g : Assignment, f.Ground ∧ g.Ground ∧ b.Agrees f ∧
        ∀ e ∈ toldAsked.triples.entries, e.1.fill f = e.2.fill g := by
  intro b
  refine ⟨found_toldAsked, .ofBinding _ _, bindsAll_told (by decide), by decide, ?_⟩
  rintro ⟨f, -, hf, -, hagrees, -⟩
  have hs : f ⟨"s"⟩ = .var ⟨"v"⟩ := hagrees (told.site .subject) _ (by decide)
  have hground := hf ⟨"s"⟩
  rw [hs] at hground
  cases hground

end SiteBinding

end TripleChain
