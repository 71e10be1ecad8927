import TripleChain.Proofs.SiteInvariant
/-!
# Merging sets of site bindings

A merge holds what either set holds and every pair without conflict, joined. Bindings that keep to the sites of their
pattern conflict with a joined pair just when they conflict with one of the two (`SiteBinding.conflicts_merge`), so
that neither the order of merging nor its brackets matter. Merging a list of sets one after the other gives the unions
of the selections without conflict, with one binding at most of each set (`SiteBindingSet.mem_foldl_merge`).
-/

namespace TripleChain

namespace SiteBinding

variable {a b c x y : SiteBinding} {l : List SiteBinding}

/-- All that some of the parts bind is bound, and nothing else. -/
structure IsUnion (x : SiteBinding) (parts : List SiteBinding) : Prop where
  sites : ∀ s t, x.get? s = some t ↔ ∃ b ∈ parts, b.get? s = some t
  vars : ∀ v t, x.valueOf? v = some t ↔ ∃ b ∈ parts, b.valueOf? v = some t

/-- The parts have one union. -/
theorem IsUnion.ext (hx : x.IsUnion l) (hy : y.IsUnion l) : x = y :=
  ext_get? (fun s => Option.ext fun t => (hx.sites s t).trans (hy.sites s t).symm)
    fun v => Option.ext fun t => (hx.vars v t).trans (hy.vars v t).symm

theorem isUnion_singleton : x.IsUnion [y] ↔ x = y := by
  have hself : y.IsUnion [y] := ⟨fun s t => by simp, fun v t => by simp⟩
  constructor
  · exact fun h => h.ext hself
  · rintro rfl
    exact hself

section Joined

variable (ha : a.Coherent) (hb : b.Coherent) (hab : a.conflicts b = false)
include ha hb hab

/-- What is joined without conflict is the union. -/
theorem Coherent.isUnion_merge : (a.merge b).IsUnion [a, b] := by
  obtain ⟨f, hfa, hfb, _⟩ := exists_under ha hb hab
  have hsites (s : Site) (t : Term) : (a.merge b).get? s = some t ↔ a.get? s = some t ∨ b.get? s = some t :=
    hfa.get?_merge_iff hfb
  refine ⟨fun s t => by simp [hsites], fun v t => ?_⟩
  rw [(hfa.merge hfb).coherent.valueOf?_iff]
  simp [hsites, ha.valueOf?_iff, hb.valueOf?_iff, and_or_left, exists_or]

theorem isUnion_merge_cons : x.IsUnion (a.merge b :: l) ↔ x.IsUnion (a :: b :: l) := by
  have hunion := ha.isUnion_merge hb hab
  have hsites (s : Site) (t : Term) :
      (∃ y ∈ a.merge b :: l, y.get? s = some t) ↔ ∃ y ∈ a :: b :: l, y.get? s = some t := by
    simp [hunion.sites, or_assoc]
  have hvars (v : Variable) (t : Term) :
      (∃ y ∈ a.merge b :: l, y.valueOf? v = some t) ↔ ∃ y ∈ a :: b :: l, y.valueOf? v = some t := by
    simp [hunion.vars, or_assoc]
  constructor
  · exact fun h => ⟨fun s t => (h.sites s t).trans (hsites s t), fun v t => (h.vars v t).trans (hvars v t)⟩
  · exact fun h => ⟨fun s t => (h.sites s t).trans (hsites s t).symm, fun v t => (h.vars v t).trans (hvars v t).symm⟩

/-- Joining makes no conflict and hides none. -/
theorem conflicts_merge : (a.merge b).conflicts c = false ↔ a.conflicts c = false ∧ b.conflicts c = false := by
  have hvars (v : Variable) (t : Term) : (a.merge b).valueOf? v = some t ↔
      a.valueOf? v = some t ∨ b.valueOf? v = some t := by
    simp [(ha.isUnion_merge hb hab).vars]
  simp only [conflicts_eq_false, hvars]
  constructor
  · exact fun h => ⟨fun v t u ht => h v t u (.inl ht), fun v t u ht => h v t u (.inr ht)⟩
  · rintro ⟨hac, hbc⟩ v t u (ht | ht)
    · exact hac v t u ht
    · exact hbc v t u ht

theorem pairwise_merge_cons : (a.merge b :: l).Pairwise (fun y z => y.conflicts z = false) ↔
    (a :: b :: l).Pairwise (fun y z => y.conflicts z = false) := by
  simp only [List.pairwise_cons, List.forall_mem_cons, conflicts_merge ha hb hab]
  constructor
  · rintro ⟨hl, hrest⟩
    exact ⟨⟨hab, fun y hy => (hl y hy).1⟩, fun y hy => (hl y hy).2, hrest⟩
  · rintro ⟨⟨_, hal⟩, hbl, hrest⟩
    exact ⟨fun y hy => ⟨hal y hy, hbl y hy⟩, hrest⟩

end Joined

end SiteBinding

/-! ## Two or three sets -/

section

variable {S T U : Set SiteBinding} (hS : ∀ x ∈ S, x.Coherent) (hT : ∀ x ∈ T, x.Coherent) (hU : ∀ x ∈ U, x.Coherent)
include hS hT

theorem joined_comm : Joined S T = Joined T S := by
  have hsub {S T : Set SiteBinding} (hS : ∀ x ∈ S, x.Coherent) (hT : ∀ x ∈ T, x.Coherent) :
      Joined S T ⊆ Joined T S := by
    rintro x (hx | hx | ⟨a, ha, b, hb, hc, rfl⟩)
    · exact .inr (.inl hx)
    · exact .inl hx
    · obtain ⟨f, hfa, hfb, _⟩ := SiteBinding.exists_under (hS a ha) (hT b hb) hc
      exact .inr (.inr ⟨b, hb, a, ha, hfb.not_conflicts hfa, hfb.merge_comm hfa⟩)
  exact (hsub hS hT).antisymm (hsub hT hS)

include hU

/-- The set in the middle is joined last, from either side. -/
theorem joined_assoc : Joined (Joined S T) U = Joined S (Joined T U) := by
  rw [joined_comm hS hT, joined_comm hS (joined_coherent hT hU)]
  exact (joined_right_comm_subset hT hS hU).antisymm (joined_right_comm_subset hT hU hS)

end

namespace SiteBindingSet

variable {p : Pattern} {s t u : SiteBindingSet} {sets : List SiteBindingSet} {x : SiteBinding}

theorem same_iff : s.same t = true ↔ s.pattern = t.pattern ∧ ∀ x, x ∈ s.bindings ↔ x ∈ t.bindings := by
  rw [same, Bool.and_eq_true, beq_iff_eq, InsertionSet.sameElements_iff]
  rfl

theorem members_merge (s t : SiteBindingSet) :
    {x | x ∈ (s.merge t).bindings} = Joined {x | x ∈ s.bindings} {x | x ∈ t.bindings} :=
  Set.ext fun _ => mem_merge

theorem Invariant.merge_comm (hs : s.Invariant p) (ht : t.Invariant p) : (s.merge t).same (t.merge s) = true := by
  have hmembers : {x | x ∈ (s.merge t).bindings} = {x | x ∈ (t.merge s).bindings} := by
    rw [members_merge, members_merge]
    exact joined_comm hs.coherent ht.coherent
  exact same_iff.2 ⟨(hs.merge ht).pattern.trans (ht.merge hs).pattern.symm, Set.ext_iff.1 hmembers⟩

theorem Invariant.merge_assoc (hs : s.Invariant p) (ht : t.Invariant p) (hu : u.Invariant p) :
    ((s.merge t).merge u).same (s.merge (t.merge u)) = true := by
  have hmembers : {x | x ∈ ((s.merge t).merge u).bindings} = {x | x ∈ (s.merge (t.merge u)).bindings} := by
    rw [members_merge, members_merge, members_merge, members_merge]
    exact joined_assoc hs.coherent ht.coherent hu.coherent
  exact same_iff.2 ⟨((hs.merge ht).merge hu).pattern.trans (hs.merge (ht.merge hu)).pattern.symm,
    Set.ext_iff.1 hmembers⟩

theorem invariant_empty (p : Pattern) : (empty p).Invariant p :=
  .of_forall rfl fun _ hx => absurd hx not_mem_empty

theorem Invariant.merge_empty (hs : s.Invariant p) : (s.merge (empty p)).same s = true := by
  have hnone : {x | x ∈ (empty p).bindings} = (∅ : Set SiteBinding) :=
    Set.eq_empty_of_forall_notMem fun _ => not_mem_empty
  have hmembers : {x | x ∈ (s.merge (empty p)).bindings} = {x | x ∈ s.bindings} := by
    rw [members_merge, hnone, joined_empty]
  exact same_iff.2 ⟨(hs.merge (invariant_empty p)).pattern.trans hs.pattern.symm, Set.ext_iff.1 hmembers⟩

theorem Invariant.empty_merge (hs : s.Invariant p) : ((empty p).merge s).same s = true := by
  obtain ⟨hpattern, hmem⟩ := same_iff.1 ((invariant_empty p).merge_comm hs)
  obtain ⟨hpattern', hmem'⟩ := same_iff.1 hs.merge_empty
  exact same_iff.2 ⟨hpattern.trans hpattern', fun x => (hmem x).trans (hmem' x)⟩

/-! ## A list of sets -/

/-- Of each set one binding is taken, or none. -/
inductive Selects : List SiteBindingSet → List SiteBinding → Prop
  | nil : Selects [] []
  | skip {s : SiteBindingSet} {sets : List SiteBindingSet} {chosen : List SiteBinding} :
      Selects sets chosen → Selects (s :: sets) chosen
  | take {s : SiteBindingSet} {sets : List SiteBindingSet} {x : SiteBinding} {chosen : List SiteBinding} :
      x ∈ s.bindings → Selects sets chosen → Selects (s :: sets) (x :: chosen)

/-- The union of a selection that is not empty and in which no two bindings conflict. -/
def Selected (sets : List SiteBindingSet) (x : SiteBinding) : Prop :=
  ∃ chosen, chosen ≠ [] ∧ Selects sets chosen ∧ chosen.Pairwise (fun a b => a.conflicts b = false) ∧ x.IsUnion chosen

theorem selected_singleton : Selected [s] x ↔ x ∈ s.bindings := by
  constructor
  · rintro ⟨chosen, hne, hsel, _, hx⟩
    cases hsel with
    | skip hrest =>
      cases hrest
      exact absurd rfl hne
    | take hmem hrest =>
      cases hrest
      exact SiteBinding.isUnion_singleton.1 hx ▸ hmem
  · exact fun hx => ⟨[x], List.cons_ne_nil x [], .take hx .nil, List.pairwise_singleton ..,
      SiteBinding.isUnion_singleton.2 rfl⟩

/-- Nothing is selected from a set that is empty. -/
theorem selected_empty_cons : Selected (empty p :: sets) x ↔ Selected sets x := by
  constructor
  · rintro ⟨chosen, hne, hsel, hrest⟩
    cases hsel with
    | skip hsel => exact ⟨chosen, hne, hsel, hrest⟩
    | take hmem => exact absurd hmem not_mem_empty
  · rintro ⟨chosen, hne, hsel, hrest⟩
    exact ⟨chosen, hne, .skip hsel, hrest⟩

/-- To select from a merge is to select from the two sets: a joined pair stands for a binding of each. -/
theorem selected_merge_cons (hs : ∀ x ∈ s.bindings, x.Coherent) (ht : ∀ x ∈ t.bindings, x.Coherent) :
    Selected (s.merge t :: sets) x ↔ Selected (s :: t :: sets) x := by
  constructor
  · rintro ⟨chosen, hne, hsel, hpair, hx⟩
    cases hsel with
    | skip hrest => exact ⟨chosen, hne, .skip (.skip hrest), hpair, hx⟩
    | take hmem hrest =>
      rcases mem_merge.1 hmem with hmem | hmem | ⟨a, ha, b, hb, hab, rfl⟩
      · exact ⟨_, hne, .take hmem (.skip hrest), hpair, hx⟩
      · exact ⟨_, hne, .skip (.take hmem hrest), hpair, hx⟩
      · exact ⟨_, List.cons_ne_nil _ _, .take ha (.take hb hrest),
          (SiteBinding.pairwise_merge_cons (hs a ha) (ht b hb) hab).1 hpair,
          (SiteBinding.isUnion_merge_cons (hs a ha) (ht b hb) hab).1 hx⟩
  · rintro ⟨chosen, hne, hsel, hpair, hx⟩
    cases hsel with
    | skip hrest =>
      cases hrest with
      | skip hrest => exact ⟨chosen, hne, .skip hrest, hpair, hx⟩
      | take hb hrest => exact ⟨_, hne, .take (mem_merge.2 (.inr (.inl hb))) hrest, hpair, hx⟩
    | @take _ _ a _ ha hrest =>
      cases hrest with
      | skip hrest => exact ⟨_, hne, .take (mem_merge.2 (.inl ha)) hrest, hpair, hx⟩
      | @take _ _ b _ hb hrest =>
        have hab : a.conflicts b = false := (List.pairwise_cons.1 hpair).1 b List.mem_cons_self
        exact ⟨_, List.cons_ne_nil _ _, .take (mem_merge.2 (.inr (.inr ⟨a, ha, b, hb, hab, rfl⟩))) hrest,
          (SiteBinding.pairwise_merge_cons (hs a ha) (ht b hb) hab).2 hpair,
          (SiteBinding.isUnion_merge_cons (hs a ha) (ht b hb) hab).2 hx⟩

/-- Merging one after the other gives the unions of the selections from all sets, the one begun with included. -/
theorem mem_foldl_merge (hs : s.Invariant p) (hsets : ∀ t ∈ sets, t.Invariant p) :
    x ∈ (sets.foldl merge s).bindings ↔ Selected (s :: sets) x := by
  induction sets generalizing s with
  | nil => exact selected_singleton.symm
  | cons t sets ih =>
    have ht := hsets t List.mem_cons_self
    rw [List.foldl_cons, ih (hs.merge ht) fun u hu => hsets u (List.mem_cons_of_mem t hu),
      selected_merge_cons hs.coherent ht.coherent]

theorem invariant_foldl_merge (hs : s.Invariant p) (hsets : ∀ t ∈ sets, t.Invariant p) :
    (sets.foldl merge s).Invariant p := by
  induction sets generalizing s with
  | nil => exact hs
  | cons t sets ih =>
    exact ih (hs.merge (hsets t List.mem_cons_self)) fun u hu => hsets u (List.mem_cons_of_mem t hu)

/-- The sets of faithful site bindings over a pattern are a commutative monoid under merging, with the empty set as
its neutral element. What a list of them merges to are the unions of the selections from the list, with one binding at
most of each set, without conflicts and not empty. -/
theorem merge_is_commutative_monoid (p : Pattern) :
    (∀ a b c : SiteBindingSet, a.Invariant p → b.Invariant p → c.Invariant p →
      (a.merge b).same (b.merge a) = true ∧ ((a.merge b).merge c).same (a.merge (b.merge c)) = true ∧
        (a.merge (empty p)).same a = true ∧ ((empty p).merge a).same a = true) ∧
    ∀ sets : List SiteBindingSet, (∀ s ∈ sets, s.Invariant p) →
      (sets.foldl merge (empty p)).Invariant p ∧
        ∀ x, x ∈ (sets.foldl merge (empty p)).bindings ↔ ∃ chosen, chosen ≠ [] ∧ Selects sets chosen ∧
          chosen.Pairwise (fun a b => a.conflicts b = false) ∧ x.IsUnion chosen := by
  refine ⟨fun a b c ha hb hc => ⟨ha.merge_comm hb, ha.merge_assoc hb hc, ha.merge_empty, ha.empty_merge⟩,
    fun sets hsets => ⟨invariant_foldl_merge (invariant_empty p) hsets, fun x => ?_⟩⟩
  rw [mem_foldl_merge (invariant_empty p) hsets, selected_empty_cons]
  rfl

/-- `?x <isParentOf> ?y . ?y <isParentOf> ?z`. -/
def generations : Pattern :=
  .ofList [⟨.var ⟨"x"⟩, .iri "isParentOf", .var ⟨"y"⟩⟩, ⟨.var ⟨"y"⟩, .iri "isParentOf", .var ⟨"z"⟩⟩]

/-- A line of three generations that none of three sets holds is selected from them, however they are merged. -/
theorem generations_merged :
    let parents := ofBindings generations (.singleton (.ofList [(⟨"x"⟩, .iri "janny"), (⟨"y"⟩, .iri "barry")]))
    let children := ofBindings generations
      (.ofList [.ofList [(⟨"y"⟩, .iri "barry"), (⟨"z"⟩, .iri "fenna")],
        .ofList [(⟨"y"⟩, .iri "fenna"), (⟨"z"⟩, .iri "benno")]])
    let youngest := ofBindings generations (.ofList [.ofList [(⟨"z"⟩, .iri "fenna")], ∅])
    let line : SiteBinding :=
      .ofBinding generations (.ofList [(⟨"x"⟩, .iri "janny"), (⟨"y"⟩, .iri "barry"), (⟨"z"⟩, .iri "fenna")])
    (∀ s ∈ [parents, children, youngest], s.Invariant generations ∧ line ∉ s.bindings) ∧
      ((parents.merge children).merge youngest).same (parents.merge (children.merge youngest)) = true ∧
      ∃ chosen, chosen ≠ [] ∧ Selects [parents, children, youngest] chosen ∧
        chosen.Pairwise (fun a b => a.conflicts b = false) ∧ line.IsUnion chosen := by
  intro parents children youngest line
  have hparents : parents.Invariant generations := invariant_ofBindings _ _
  have hchildren : children.Invariant generations := invariant_ofBindings _ _
  have hyoungest : youngest.Invariant generations := invariant_ofBindings _ _
  have hsets : ∀ s ∈ [parents, children, youngest], s.Invariant generations := by
    simp only [List.forall_mem_cons, hparents, hchildren, hyoungest, List.not_mem_nil, false_imp_iff,
      implies_true, and_self]
  have hnew : ∀ s ∈ [parents, children, youngest], line ∉ s.bindings := by decide
  obtain ⟨hlaws, hselected⟩ := merge_is_commutative_monoid generations
  exact ⟨fun s hs => ⟨hsets s hs, hnew s hs⟩, (hlaws _ _ _ hparents hchildren hyoungest).2.1,
    ((hselected _ hsets).2 line).1 (by decide)⟩

end SiteBindingSet

end TripleChain
