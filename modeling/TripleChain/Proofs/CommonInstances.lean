import TripleChain.Proofs.MatchInverse
import Mathlib.Logic.Relation
/-!
# Unification and common instances

Two triples have a common instance when ground terms for the variables of the one, and others for the variables of
the other, make them the same triple. Places where one of the two triples repeats a term hold equal terms in a common
instance, so terms travel from place to place through repeated variables of either triple, and there is a common
instance just when no two constants come together on such a way (`Triple.hasCommonInstance_iff`). Unification follows
a way for one step only (`Triple.unify?_isSome_iff`). In three places a way has two steps at most, so what
unification overlooks is one shape: two triples that are tangled (`Triple.Tangled`).
-/

open Std

namespace TripleChain

/-! ## Filling in variables -/

/-- A term for every variable. -/
abbrev Assignment := Variable → Term

/-- No variable is given for another. -/
def Assignment.Ground (f : Assignment) : Prop := ∀ v, (f v).isVariable = false

/-- The term with a variable replaced. -/
def Term.fill (f : Assignment) : Term → Term
  | .var v => f v
  | t => t

/-- The triple with all variables replaced. -/
def Triple.fill (f : Assignment) (t : Triple) : Triple :=
  ⟨t.subject.fill f, t.predicate.fill f, t.object.fill f⟩

theorem Term.fill_of_ground {t : Term} (f : Assignment) (h : t.isVariable = false) : t.fill f = t := by
  cases t with
  | iri | literal => rfl
  | var v => cases h

theorem Term.isVariable_fill {f : Assignment} (hf : f.Ground) (t : Term) : (t.fill f).isVariable = false := by
  cases t with
  | iri | literal => rfl
  | var v => exact hf v

namespace Triple

@[simp] theorem term_fill (f : Assignment) (t : Triple) (i : Position) : (t.fill f).term i = (t.term i).fill f := by
  cases i <;> rfl

/-- Ground terms for the variables of both triples make them the same triple. -/
def HasCommonInstance (p q : Triple) : Prop := ∃ f g : Assignment, f.Ground ∧ g.Ground ∧ p.fill f = q.fill g

variable {p q r : Triple} {i j k : Position} {v : Variable} {c d : Term}

open Classical in
/-- A variable of the triple is given what the other triple has at one of its places. -/
noncomputable def assignmentTo (p r : Triple) : Assignment := fun v =>
  if h : ∃ i, p.term i = .var v then r.term h.choose else r.subject

theorem ground_assignmentTo (hr : r.IsGround) : (p.assignmentTo r).Ground := fun v => by
  unfold assignmentTo
  split
  · exact hr _
  · exact hr .subject

/-- The places of a variable do not disagree. -/
theorem assignmentTo_of_term (hrep : ∀ i j, p.term i = p.term j → r.term i = r.term j) (hi : p.term i = .var v) :
    p.assignmentTo r v = r.term i := by
  have h : ∃ j, p.term j = .var v := ⟨i, hi⟩
  rw [assignmentTo, dif_pos h]
  exact hrep _ _ (h.choose_spec.trans hi.symm)

/-- A ground triple is an instance of another if it has its constants, and repeats a term where the other does. -/
theorem exists_fill_iff (hr : r.IsGround) :
    (∃ f : Assignment, f.Ground ∧ p.fill f = r) ↔
      (∀ i, (p.term i).isVariable = false → p.term i = r.term i) ∧
        ∀ i j, p.term i = p.term j → r.term i = r.term j := by
  constructor
  · rintro ⟨f, hf, rfl⟩
    refine ⟨fun i hi => ?_, fun i j hij => ?_⟩
    · rw [term_fill, Term.fill_of_ground f hi]
    · rw [term_fill, term_fill, hij]
  · rintro ⟨hconst, hrep⟩
    refine ⟨p.assignmentTo r, ground_assignmentTo hr, ext_term fun i => ?_⟩
    rw [term_fill]
    cases hi : p.term i with
    | iri | literal =>
      rw [← hconst i (by rw [hi]; rfl), hi]
      rfl
    | var v => exact assignmentTo_of_term hrep hi

/-! ## Places that hold one term -/

/-- One of the triples has the same term at both places. -/
def Together (p q : Triple) (i j : Position) : Prop := p.term i = p.term j ∨ q.term i = q.term j

/-- One of the triples has this constant at the place. -/
def Holds (p q : Triple) (i : Position) (c : Term) : Prop :=
  c.isVariable = false ∧ (p.term i = c ∨ q.term i = c)

theorem Together.symm (h : p.Together q i j) : p.Together q j i := h.imp Eq.symm Eq.symm

theorem holds_left (h : (p.term i).isVariable = false) : p.Holds q i (p.term i) := ⟨h, .inl rfl⟩

theorem holds_right (h : (q.term i).isVariable = false) : p.Holds q i (q.term i) := ⟨h, .inr rfl⟩

theorem Holds.right (h : p.Holds q i c) (hp : (p.term i).isVariable = true) : q.term i = c :=
  h.2.resolve_left fun hc => Bool.noConfusion (hp.symm.trans (hc ▸ h.1))

theorem Holds.left (h : p.Holds q i c) (hq : (q.term i).isVariable = true) : p.term i = c :=
  h.2.resolve_right fun hc => Bool.noConfusion (hq.symm.trans (hc ▸ h.1))

/-- A way through three places has two steps at most. -/
theorem two_steps (h : Relation.ReflTransGen (p.Together q) i j) : ∃ k, p.Together q i k ∧ p.Together q k j := by
  induction h with
  | refl => exact ⟨i, .inl rfl, .inl rfl⟩
  | @tail j l _ hjl ih =>
    obtain ⟨k, hik, hkj⟩ := ih
    -- Of the four places on the way two are the same, and the way can be cut short there.
    have hcut : i = k ∨ i = j ∨ i = l ∨ k = j ∨ k = l ∨ j = l := by
      cases i <;> cases k <;> cases j <;> cases l <;> decide
    rcases hcut with rfl | rfl | rfl | rfl | rfl | rfl
    · exact ⟨j, hkj, hjl⟩
    · exact ⟨i, .inl rfl, hjl⟩
    · exact ⟨i, .inl rfl, .inl rfl⟩
    · exact ⟨k, hik, hjl⟩
    · exact ⟨k, hik, .inl rfl⟩
    · exact ⟨k, hik, hkj⟩

theorem together_of_way (h : ∀ i j, p.Together q i j → r.term i = r.term j)
    (hij : Relation.ReflTransGen (p.Together q) i j) : r.term i = r.term j := by
  obtain ⟨k, hik, hkj⟩ := two_steps hij
  exact (h i k hik).trans (h k j hkj)

/-- A triple with the constants of both, and with a repeated term wherever one of them repeats a term. -/
theorem hasCommonInstance_iff_exists : p.HasCommonInstance q ↔
    ∃ r : Triple, r.IsGround ∧ (∀ i c, p.Holds q i c → r.term i = c) ∧
      ∀ i j, p.Together q i j → r.term i = r.term j := by
  constructor
  · rintro ⟨f, g, hf, hg, heq⟩
    have hr : (p.fill f).IsGround := fun i => by
      rw [term_fill]
      exact Term.isVariable_fill hf _
    obtain ⟨hp, hp'⟩ := (exists_fill_iff hr).1 ⟨f, hf, rfl⟩
    obtain ⟨hq, hq'⟩ := (exists_fill_iff hr).1 ⟨g, hg, heq.symm⟩
    refine ⟨p.fill f, hr, ?_, fun i j => Or.rec (hp' i j) (hq' i j)⟩
    rintro i c ⟨hc, rfl | rfl⟩
    · exact (hp i hc).symm
    · exact (hq i hc).symm
  · rintro ⟨r, hr, hholds, htogether⟩
    obtain ⟨f, hf, hp⟩ := (exists_fill_iff hr).2
      ⟨fun i hi => (hholds i _ (holds_left hi)).symm, fun i j h => htogether i j (.inl h)⟩
    obtain ⟨g, hg, hq⟩ := (exists_fill_iff hr).2
      ⟨fun i hi => (hholds i _ (holds_right hi)).symm, fun i j h => htogether i j (.inr h)⟩
    exact ⟨f, g, hf, hg, hp.trans hq.symm⟩

/-- Some way from the place ends at this constant. -/
def Reaches (p q : Triple) (i : Position) (c : Term) : Prop :=
  ∃ j, Relation.ReflTransGen (p.Together q) i j ∧ p.Holds q j c

theorem Holds.reaches (h : p.Holds q i c) : p.Reaches q i c := ⟨i, .refl, h⟩

theorem Reaches.isVariable_eq (h : p.Reaches q i c) : c.isVariable = false := by
  obtain ⟨_, -, hc, -⟩ := h
  exact hc

theorem Together.reaches_same (h : p.Together q i j) : p.Reaches q i c ↔ p.Reaches q j c :=
  ⟨fun ⟨k, hk, hc⟩ => ⟨k, .head h.symm hk, hc⟩, fun ⟨k, hk, hc⟩ => ⟨k, .head h hk, hc⟩⟩

open Classical in
/-- A constant that the place reaches, if there is one. -/
noncomputable def reached (p q : Triple) (i : Position) : Term :=
  if h : ∃ c, p.Reaches q i c then h.choose else .iri ""

theorem Reaches.reached (h : p.Reaches q i c) : p.Reaches q i (p.reached q i) := by
  have hi : ∃ c, p.Reaches q i c := ⟨c, h⟩
  rw [Triple.reached, dif_pos hi]
  exact hi.choose_spec

theorem isVariable_reached (i : Position) : (p.reached q i).isVariable = false := by
  unfold reached
  split
  · next h => exact h.choose_spec.isVariable_eq
  · rfl

theorem Together.reached_eq (h : p.Together q i j) : p.reached q i = p.reached q j := by
  have hreaches : p.Reaches q i = p.Reaches q j := funext fun c => propext h.reaches_same
  rw [reached, reached, hreaches]

/-- The triple with what is reached at each of its places. -/
noncomputable def reachedTriple (p q : Triple) : Triple :=
  ⟨p.reached q .subject, p.reached q .predicate, p.reached q .object⟩

@[simp] theorem term_reachedTriple (i : Position) : (p.reachedTriple q).term i = p.reached q i := by
  cases i <;> rfl

/-- There is a common instance if no way from place to place joins two different constants. -/
theorem hasCommonInstance_iff : p.HasCommonInstance q ↔
    ∀ i j c d, Relation.ReflTransGen (p.Together q) i j → p.Holds q i c → p.Holds q j d → c = d := by
  rw [hasCommonInstance_iff_exists]
  constructor
  · rintro ⟨r, -, hholds, htogether⟩ i j c d hij hc hd
    rw [← hholds i c hc, ← hholds j d hd]
    exact together_of_way htogether hij
  · intro h
    -- Every place takes a constant it reaches; one that holds a constant reaches no other.
    refine ⟨p.reachedTriple q, fun i => ?_, fun i c hc => ?_, fun i j hij => ?_⟩
    · rw [term_reachedTriple]
      exact isVariable_reached i
    · obtain ⟨j, hij, hj⟩ := hc.reaches.reached
      rw [term_reachedTriple]
      exact (h i j c _ hij hc hj).symm
    · rw [term_reachedTriple, term_reachedTriple]
      exact hij.reached_eq

/-! ## What unification compares -/

/-- No step from place to place joins two different constants. -/
def Consistent (p q : Triple) : Prop := ∀ i j c d, p.Together q i j → p.Holds q i c → p.Holds q j d → c = d

end Triple

theorem face?_keeps {seen seen' : SortedMap Variable Term} {v w : Variable} {t u : Term}
    (h : face? seen v t = some seen') (hw : seen.get? w = some u) : seen'.get? w = some u := by
  unfold face? at h
  split at h
  · split at h
    · cases h
      exact hw
    · cases h
  · next hv =>
    cases h
    have hne : v ≠ w := by
      rintro rfl
      rw [hv] at hw
      cases hw
    rw [SortedMap.get?_insert_of_ne _ _ hne, hw]

namespace Unifier

variable {p q : Triple} {u u' : Unifier} {i j : Position}

/-- A variable that faces a constant at the place is noted with it. -/
structure Noted (p q : Triple) (u : Unifier) (i : Position) : Prop where
  ours : ∀ v, p.term i = .var v → (q.term i).isVariable = false → u.ours.get? v = some (q.term i)
  theirs : ∀ v, q.term i = .var v → (p.term i).isVariable = false → u.theirs.get? v = some (p.term i)

theorem noted_of_step? (h : step? p q u i = some u') : Noted p q u' i := by
  unfold step? at h
  cases hp : p.term i <;> cases hq : q.term i <;> simp only [hp, hq] at h
  case var.iri | var.literal =>
    obtain ⟨seen, hs, rfl⟩ := Option.map_eq_some_iff.1 h
    refine ⟨fun w hw _ => ?_, fun w hw _ => ?_⟩
    · cases hp.symm.trans hw
      rw [hq]
      exact (face?_eq_some hs).1
    · cases hq.symm.trans hw
  case iri.var | literal.var =>
    obtain ⟨seen, hs, rfl⟩ := Option.map_eq_some_iff.1 h
    refine ⟨fun w hw _ => ?_, fun w hw _ => ?_⟩
    · cases hp.symm.trans hw
    · cases hq.symm.trans hw
      rw [hp]
      exact (face?_eq_some hs).1
  all_goals exact ⟨by simp [hp, hq, Term.isVariable], by simp [hp, hq, Term.isVariable]⟩

/-- Nothing noted is given up. -/
theorem Noted.step? (hn : Noted p q u j) (h : step? p q u i = some u') : Noted p q u' j := by
  unfold Unifier.step? at h
  cases hp : p.term i <;> cases hq : q.term i <;> simp only [hp, hq] at h
  case var.var =>
    cases h
    exact ⟨hn.ours, hn.theirs⟩
  case var.iri | var.literal =>
    obtain ⟨seen, hs, rfl⟩ := Option.map_eq_some_iff.1 h
    exact ⟨fun v hv hc => face?_keeps hs (hn.ours v hv hc), hn.theirs⟩
  case iri.var | literal.var =>
    obtain ⟨seen, hs, rfl⟩ := Option.map_eq_some_iff.1 h
    exact ⟨hn.ours, fun v hv hc => face?_keeps hs (hn.theirs v hv hc)⟩
  all_goals
    split at h
    · cases h
      exact hn
    · cases h

theorem noted_of_steps {l : List Position} (h : l.foldlM (Unifier.step? p q) u = some u')
    (hj : Noted p q u j ∨ j ∈ l) : Noted p q u' j := by
  induction l generalizing u with
  | nil =>
    cases h
    exact hj.resolve_right List.not_mem_nil
  | cons i l ih =>
    rw [List.foldlM_cons] at h
    obtain ⟨u₁, h₁, h₂⟩ := Option.bind_eq_some_iff.1 h
    rcases hj with hj | hj
    · exact ih h₂ (.inl (hj.step? h₁))
    · rcases List.mem_cons.1 hj with rfl | hj
      · exact ih h₂ (.inl (noted_of_step? h₁))
      · exact ih h₂ (.inr hj)

/-- A constant is noted only if a variable faces it. -/
structure Grounded (p q : Triple) (u : Unifier) : Prop where
  ours : ∀ v t, u.ours.get? v = some t → ∃ i, p.term i = .var v ∧ q.term i = t ∧ t.isVariable = false
  theirs : ∀ v t, u.theirs.get? v = some t → ∃ i, q.term i = .var v ∧ p.term i = t ∧ t.isVariable = false

theorem Grounded.step? (hc : p.Consistent q) (hu : Grounded p q u) (i : Position) :
    ∃ u', Unifier.step? p q u i = some u' ∧ Grounded p q u' := by
  unfold Unifier.step?
  cases hp : p.term i <;> cases hq : q.term i <;> dsimp only
  case var.var => exact ⟨_, rfl, hu.ours, hu.theirs⟩
  case var.iri v t | var.literal v t =>
    obtain ⟨seen, hs, hseen⟩ := face?_within hu.ours ⟨i, hp, hq, rfl⟩ fun _ ⟨j, hj, hjq, hg⟩ =>
      hc j i _ _ (.inl (hj.trans hp.symm)) ⟨hg, .inr hjq⟩ ⟨rfl, .inr hq⟩
    exact ⟨_, Option.map_eq_some_iff.2 ⟨seen, hs, rfl⟩, hseen, hu.theirs⟩
  case iri.var t v | literal.var t v =>
    obtain ⟨seen, hs, hseen⟩ := face?_within hu.theirs ⟨i, hq, hp, rfl⟩ fun _ ⟨j, hj, hjp, hg⟩ =>
      hc j i _ _ (.inr (hj.trans hq.symm)) ⟨hg, .inl hjp⟩ ⟨rfl, .inl hp⟩
    exact ⟨_, Option.map_eq_some_iff.2 ⟨seen, hs, rfl⟩, hu.ours, hseen⟩
  all_goals
    exact ⟨u, if_pos (hc i i _ _ (.inl rfl) ⟨rfl, .inl hp⟩ ⟨rfl, .inr hq⟩), hu⟩

theorem Grounded.steps (hc : p.Consistent q) (hu : Grounded p q u) (l : List Position) :
    ∃ u', l.foldlM (Unifier.step? p q) u = some u' := by
  induction l generalizing u with
  | nil => exact ⟨u, rfl⟩
  | cons i l ih =>
    obtain ⟨w, hw, hg⟩ := hu.step? hc i
    obtain ⟨u', hu'⟩ := ih hg
    exact ⟨u', by rw [List.foldlM_cons, hw]; exact hu'⟩

end Unifier

namespace Triple

variable {p q : Triple} {i j : Position} {c d : Term} {sites : SiteMap}

/-- Constants face equal constants, and a variable faces one constant only. -/
theorem consistent_of_faces (hconst : ∀ i, ¬ p.Faces q i → p.term i = q.term i)
    (hours : ∀ i j, p.term i = p.term j → (p.term i).isVariable = true →
      (q.term i).isVariable = false → (q.term j).isVariable = false → q.term i = q.term j)
    (htheirs : ∀ i j, q.term i = q.term j → (q.term i).isVariable = true →
      (p.term i).isVariable = false → (p.term j).isVariable = false → p.term i = p.term j) : p.Consistent q := by
  have hface : ∀ i, (p.term i).isVariable = false → (q.term i).isVariable = false → p.term i = q.term i :=
    fun i hp hq => hconst i (by simp [Faces, hp, hq])
  have hsame : ∀ i c, p.Holds q i c → (p.term i).isVariable = false → c = p.term i := by
    rintro i c ⟨hc, rfl | rfl⟩ hi
    · rfl
    · exact (hface i hi hc).symm
  have hsame' : ∀ i c, p.Holds q i c → (q.term i).isVariable = false → c = q.term i := by
    rintro i c ⟨hc, rfl | rfl⟩ hi
    · exact hface i hc hi
    · rfl
  rintro i j c d (hij | hij) hc hd
  · cases hi : (p.term i).isVariable with
    | false => rw [hsame i c hc hi, hsame j d hd (hij ▸ hi), hij]
    | true =>
      have hci := hc.right hi
      have hdj := hd.right (hij ▸ hi)
      exact hci ▸ hdj ▸ hours i j hij hi (hci ▸ hc.1) (hdj ▸ hd.1)
  · cases hi : (q.term i).isVariable with
    | false => rw [hsame' i c hc hi, hsame' j d hd (hij ▸ hi), hij]
    | true =>
      have hci := hc.left hi
      have hdj := hd.left (hij ▸ hi)
      exact hci ▸ hdj ▸ htheirs i j hij hi (hci ▸ hc.1) (hdj ▸ hd.1)

/-- Triples unify if no step from place to place joins two different constants. -/
theorem unify?_isSome_iff : (p.unify? q).isSome = true ↔ p.Consistent q := by
  constructor
  · intro h
    obtain ⟨sites, hsites⟩ := Option.isSome_iff_exists.1 h
    obtain ⟨u, hu, -⟩ := Option.map_eq_some_iff.1 hsites
    have hnoted : ∀ i, Unifier.Noted p q u i := fun i => Unifier.noted_of_steps hu (.inr (Position.mem_all i))
    refine consistent_of_faces (unify?_some hsites).2 (fun i j hij hv hi hj => ?_) fun i j hij hv hi hj => ?_
    · obtain ⟨v, hv⟩ := Term.isVariable_iff.1 hv
      have hvj := (hnoted j).ours v (hij.symm.trans hv) hj
      exact Option.some.inj (((hnoted i).ours v hv hi).symm.trans hvj)
    · obtain ⟨v, hv⟩ := Term.isVariable_iff.1 hv
      have hvj := (hnoted j).theirs v (hij.symm.trans hv) hj
      exact Option.some.inj (((hnoted i).theirs v hv hi).symm.trans hvj)
  · intro hc
    have hu : Unifier.Grounded p q ⟨∅, ∅, ∅⟩ := ⟨fun _ _ h => (nomatch h), fun _ _ h => (nomatch h)⟩
    obtain ⟨u, hu⟩ := hu.steps hc Position.all
    rw [unify?, hu]
    rfl

/-! ## What unification overlooks -/

/-- A variable of each triple face each other, each faces a constant at another place, and the constants differ. -/
def Tangled (p q : Triple) : Prop :=
  ∃ i j k, p.term i = p.term j ∧ (p.term i).isVariable = true ∧ q.term j = q.term k ∧ (q.term j).isVariable = true ∧
    (q.term i).isVariable = false ∧ (p.term k).isVariable = false ∧ q.term i ≠ p.term k

/-- Two steps that join different constants, one through each triple, are a tangle or the first of them does so. -/
theorem eq_of_two_steps {k : Position} (hc : p.Consistent q) (ht : ¬ p.Tangled q) (hik : p.term i = p.term k)
    (hkj : q.term k = q.term j) (hi : p.Holds q i c) (hj : p.Holds q j d) : c = d := by
  cases hp : (p.term k).isVariable with
  | false =>
    have hk : p.Holds q k (p.term k) := holds_left hp
    exact (hc i k _ _ (.inl hik) hi hk).trans (hc k j _ _ (.inr hkj) hk hj)
  | true =>
    cases hq : (q.term k).isVariable with
    | false =>
      have hk : p.Holds q k (q.term k) := holds_right hq
      exact (hc i k _ _ (.inl hik) hi hk).trans (hc k j _ _ (.inr hkj) hk hj)
    | true =>
      have hci := hi.right (hik ▸ hp)
      have hdj := hj.left (hkj ▸ hq)
      rw [← hci, ← hdj]
      by_contra hne
      exact ht ⟨i, k, j, hik, hik ▸ hp, hkj, hq, hci ▸ hi.1, hdj ▸ hj.1, hne⟩

theorem consistent_of_hasCommonInstance (h : p.HasCommonInstance q) : p.Consistent q :=
  fun i j c d hij => hasCommonInstance_iff.1 h i j c d (.single hij)

theorem hasCommonInstance_of_consistent (hc : p.Consistent q) (ht : ¬ p.Tangled q) : p.HasCommonInstance q := by
  refine hasCommonInstance_iff.2 fun i j c d hij hi hj => ?_
  obtain ⟨k, hik | hik, hkj | hkj⟩ := two_steps hij
  · exact hc i j c d (.inl (hik.trans hkj)) hi hj
  · exact eq_of_two_steps hc ht hik hkj hi hj
  · exact (eq_of_two_steps hc ht hkj.symm hik.symm hj hi).symm
  · exact hc i j c d (.inr (hik.trans hkj)) hi hj

theorem Tangled.not_hasCommonInstance (h : p.Tangled q) : ¬ p.HasCommonInstance q := by
  obtain ⟨i, j, k, hij, -, hjk, -, hi, hk, hne⟩ := h
  exact fun hcommon => hne (hasCommonInstance_iff.1 hcommon i k _ _ (.tail (.single (.inl hij)) (.inr hjk))
    (holds_right hi) (holds_left hk))

/-- Two of the three places of a tangle hold variables in one of the triples, so that only one place is left for a
constant to face a variable of either triple. -/
theorem Tangled.consistent (h : p.Tangled q) : p.Consistent q := by
  obtain ⟨i, j, k, hij, hpi, hjk, hqj, hqi, hpk, -⟩ := h
  have hpj : (p.term j).isVariable = true := hij ▸ hpi
  have hqk : (q.term k).isVariable = true := hjk ▸ hqj
  have hne : i ≠ j := by rintro rfl; rw [hqi] at hqj; cases hqj
  have hne' : i ≠ k := by rintro rfl; rw [hqi] at hqk; cases hqk
  have hne'' : j ≠ k := by rintro rfl; rw [hpk] at hpj; cases hpj
  have hthree : ∀ l, l = i ∨ l = j ∨ l = k := by
    intro l
    cases i <;> cases j <;> cases k <;> cases l <;> simp_all
  have hours : ∀ l, (q.term l).isVariable = false → l = i := fun l hl => by
    rcases hthree l with rfl | rfl | rfl
    · rfl
    · rw [hqj] at hl; cases hl
    · rw [hqk] at hl; cases hl
  have htheirs : ∀ l, (p.term l).isVariable = false → l = k := fun l hl => by
    rcases hthree l with rfl | rfl | rfl
    · rw [hpi] at hl; cases hl
    · rw [hpj] at hl; cases hl
    · rfl
  refine consistent_of_faces (fun l hl => ?_) (fun l m _ _ hl hm => ?_) fun l m _ _ hl hm => ?_
  · obtain ⟨hl, hl'⟩ := not_or.1 hl
    exact absurd ((hours l (by simpa using hl')).symm.trans (htheirs l (by simpa using hl))) hne'
  · rw [hours l hl, hours m hm]
  · rw [htheirs l hl, htheirs m hm]

theorem unify?_inverse (h : p.unify? q = some sites) :
    q.unify? p = some (.ofList (Match.swapEntries sites.entries)) := by
  obtain ⟨sites', h'⟩ := unify?_comm h
  have honce : ∀ e ∈ sites.entries, ∀ e' ∈ sites.entries, e.2 = e'.2 → e = e' := fun e he e' he' heq => by
    obtain ⟨i, -, rfl⟩ := ((unify?_some h).1 e).1 he
    obtain ⟨i', -, rfl⟩ := ((unify?_some h).1 e').1 he'
    cases heq
    rfl
  rw [h']
  refine congrArg some (SortedMap.ext_mem fun e => ?_)
  rw [(unify?_some h').1, Match.mem_ofList_swapEntries honce, (unify?_some h).1]
  exact ⟨Pairs.swap, Pairs.swap⟩

/-- Triples unify if they have a common instance or are tangled, never both; from the other side they unify to the
inverse pairs. -/
theorem unify?_common_or_tangled (p q : Triple) :
    ((p.unify? q).isSome = true ↔ p.HasCommonInstance q ∨ p.Tangled q) ∧
      ¬ (p.HasCommonInstance q ∧ p.Tangled q) ∧
      ∀ sites, p.unify? q = some sites → q.unify? p = some (.ofList (Match.swapEntries sites.entries)) := by
  refine ⟨unify?_isSome_iff.trans ⟨fun h => ?_, ?_⟩, fun h => h.2.not_hasCommonInstance h.1, fun _ => unify?_inverse⟩
  · by_cases ht : p.Tangled q
    · exact .inr ht
    · exact .inl (hasCommonInstance_of_consistent h ht)
  · rintro (h | h)
    · exact consistent_of_hasCommonInstance h
    · exact h.consistent

/-- Unification alone passes over a tangle: `?x ?x <b>` and `<a> ?y ?y` unify, but no ground triple is an instance of
both. -/
theorem tangled_unify :
    ((Triple.mk (.var ⟨"x"⟩) (.var ⟨"x"⟩) (.iri "b")).unify?
        (Triple.mk (.iri "a") (.var ⟨"y"⟩) (.var ⟨"y"⟩))).isSome = true ∧
      ¬ (Triple.mk (.var ⟨"x"⟩) (.var ⟨"x"⟩) (.iri "b")).HasCommonInstance
        (Triple.mk (.iri "a") (.var ⟨"y"⟩) (.var ⟨"y"⟩)) := by
  refine ⟨by decide, Tangled.not_hasCommonInstance ?_⟩
  exact ⟨.subject, .predicate, .object, by decide⟩

end Triple

end TripleChain
