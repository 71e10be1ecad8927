import TripleChain.Plan.Demand
import TripleChain.Proofs.Assembly
import Mathlib.Algebra.Order.BigOperators.Group.List
import Mathlib.Algebra.Order.Ring.Nat
/-!
# How demand settles

Every round in which demand is carried on adds to the number of bindings asked for or leaves all demand as it
is (`Demands.of_of_total_eq`). So demand that has settled is closed: whatever a node asks of a producer, the
producer is asked for (`Graph.settleDemand_closed`). Demand within a finite set of bindings does settle
(`Graph.exists_settleDemand`), and how many rounds are allowed makes no other difference
(`Graph.settleDemand_mono`).
-/

open Std

namespace TripleChain

/-! ## Counting demand -/

namespace Demands

variable {d d' : Demands} {id x : NodeId} {s : BindingSet}

theorem get?_insert (d : Demands) (id x : NodeId) (s : BindingSet) :
    SortedMap.get? (SortedMap.insert d id s) x = if id = x then some s else d.get? x := by
  have h : compare id x = .eq ↔ id = x := Std.compare_eq_iff_eq
  by_cases hx : id = x <;> simp [SortedMap.get?_insert, h, hx]

theorem of_insert (d : Demands) (id x : NodeId) (s : BindingSet) :
    Demands.of (SortedMap.insert d id s) x = if id = x then s else d.of x := by
  rw [Demands.of, get?_insert]
  split <;> rfl

theorem of_add (d : Demands) (id x : NodeId) (s : BindingSet) :
    (d.add id s).of x = if id = x then (d.of id).union s else d.of x := of_insert ..

theorem total_eq_sum (d : Demands) : d.total = (d.entries.map fun e => e.2.size).sum := by
  have hfold (l : List BindingSet) (n : Nat) : l.foldl (fun n s => n + s.size) n = n + (l.map (·.size)).sum := by
    induction l generalizing n with
    | nil => rfl
    | cons s l ih => rw [List.foldl_cons, ih, List.map_cons, List.sum_cons, Nat.add_assoc]
  rw [total, hfold, Nat.zero_add, SortedMap.values, List.map_map]
  rfl

/-- Entries that all stand behind a key do not have it. -/
theorem find?_eq_none_of_lt {l : List (NodeId × BindingSet)} {id : NodeId} (h : ∀ e ∈ l, compare id e.1 = .lt) :
    l.find? (fun e => compare e.1 id == Ordering.eq) = none := by
  refine List.find?_eq_none.2 fun e he hc => ?_
  have hlt := h e he
  rw [OrientedCmp.eq_symm (beq_iff_eq.1 hc)] at hlt
  cases hlt

theorem sum_insertEntry {l : List (NodeId × BindingSet)} (hl : l.Pairwise fun a b => compare a.1 b.1 = .lt)
    (id : NodeId) (s : BindingSet) :
    ((SortedMap.insertEntry id s l).map fun e => e.2.size).sum +
        (((l.find? fun e => compare e.1 id == Ordering.eq).map Prod.snd).getD (∅ : BindingSet)).size =
      (l.map fun e => e.2.size).sum + s.size := by
  induction l with
  | nil => simp [SortedMap.insertEntry, InsertionSet.size]; rfl
  | cons e l ih =>
    obtain ⟨he, hl'⟩ := List.pairwise_cons.1 hl
    rw [SortedMap.insertEntry]
    split
    · next hlt =>
      rw [find?_eq_none_of_lt (List.forall_mem_cons.2 ⟨hlt, fun a ha => TransCmp.lt_trans hlt (he a ha)⟩)]
      have hzero : (∅ : BindingSet).size = 0 := rfl
      simp only [List.map_cons, List.sum_cons, Option.map_none, Option.getD_none, hzero]
      omega
    · next heq =>
      rw [List.find?_cons, OrientedCmp.eq_symm heq]
      simp only [List.map_cons, List.sum_cons, beq_self_eq_true, Option.map_some, Option.getD_some]
      omega
    · next hgt =>
      have hne : (compare e.1 id == Ordering.eq) = false := by
        rw [OrientedCmp.lt_of_gt hgt]
        rfl
      rw [List.find?_cons, hne]
      simp only [List.map_cons, List.sum_cons]
      have := ih hl'
      omega

theorem total_add (d : Demands) (id : NodeId) (s : BindingSet) :
    (d.add id s).total + (d.of id).size = d.total + ((d.of id).union s).size := by
  rw [total_eq_sum, total_eq_sum]
  exact sum_insertEntry d.ascending id _

theorem size_le_union (s t : BindingSet) : s.size ≤ (s.union t).size :=
  InsertionSet.size_le_of_subset fun _ h => InsertionSet.mem_union.2 (.inl h)

theorem total_le_add (d : Demands) (id : NodeId) (s : BindingSet) : d.total ≤ (d.add id s).total := by
  have := total_add d id s
  have := size_le_union (d.of id) s
  omega

/-- When the number of bindings stays the same, nothing was added. -/
theorem of_add_of_total_eq (h : (d.add id s).total = d.total) :
    (∀ x, (d.add id s).of x = d.of x) ∧ ∀ b ∈ s, b ∈ d.of id := by
  have hsub : ∀ b ∈ s, b ∈ d.of id := by
    have hle : ((d.of id).union s).size ≤ (d.of id).size := by
      have := total_add d id s
      omega
    exact fun b hb => InsertionSet.subset_of_size_le (fun _ h => InsertionSet.mem_union.2 (.inl h)) hle b
      (InsertionSet.mem_union.2 (.inr hb))
  refine ⟨fun x => ?_, hsub⟩
  rw [of_add, InsertionSet.union_of_subset hsub]
  split
  · next hx => rw [hx]
  · rfl

theorem total_le_addAll (d : Demands) (l : List (NodeId × BindingSet)) :
    d.total ≤ (l.foldl (fun d r => d.add r.1 r.2) d).total := by
  induction l generalizing d with
  | nil => exact Nat.le_refl _
  | cons r l ih => exact Nat.le_trans (total_le_add d r.1 r.2) (ih _)

theorem of_addAll_of_total_eq {l : List (NodeId × BindingSet)}
    (h : (l.foldl (fun d r => d.add r.1 r.2) d).total = d.total) :
    (∀ x, (l.foldl (fun d r => d.add r.1 r.2) d).of x = d.of x) ∧ ∀ r ∈ l, ∀ b ∈ r.2, b ∈ d.of r.1 := by
  induction l generalizing d with
  | nil => exact ⟨fun _ => rfl, by simp⟩
  | cons r l ih =>
    have h₁ := total_le_add d r.1 r.2
    have h₂ := total_le_addAll (d.add r.1 r.2) l
    rw [List.foldl_cons] at h ⊢
    have htotal : (d.add r.1 r.2).total = d.total := by omega
    obtain ⟨hof, hsub⟩ := of_add_of_total_eq htotal
    obtain ⟨hof', hsub'⟩ := ih (d := d.add r.1 r.2) (by omega)
    refine ⟨fun x => (hof' x).trans (hof x), fun a ha b hb => ?_⟩
    rcases List.mem_cons.1 ha with rfl | ha
    · exact hsub b hb
    · rw [← hof]
      exact hsub' a ha b hb

end Demands

/-! ## Carrying demand on -/

namespace Graph

variable {g : Graph} {strategy : Strategy} {d d' : Demands}

/-- Whatever the node asks of its producers, they are asked for. -/
def Meets (g : Graph) (strategy : Strategy) (d : Demands) (id : NodeId) : Prop :=
  ∀ n, g.node? id = some n → ∀ r ∈ g.requests strategy n (d.of id), ∀ b ∈ r.2, b ∈ d.of r.1

theorem Meets.congr {id : NodeId} (h : g.Meets strategy d id) (hd : ∀ x, d'.of x = d.of x) :
    g.Meets strategy d' id := by
  intro n hn r hr b hb
  rw [hd] at hr ⊢
  exact h n hn r hr b hb

theorem total_le_passDemand (d : Demands) (id : NodeId) : d.total ≤ (g.passDemand strategy d id).total := by
  unfold passDemand
  split
  · exact Nat.le_refl _
  · exact Demands.total_le_addAll d _

theorem of_passDemand_of_total_eq {id : NodeId} (h : (g.passDemand strategy d id).total = d.total) :
    (∀ x, (g.passDemand strategy d id).of x = d.of x) ∧ g.Meets strategy d id := by
  unfold passDemand at h ⊢
  split at h
  · next hnone => exact ⟨fun _ => rfl, fun n hn => by rw [hnone] at hn; cases hn⟩
  · next n hn =>
    obtain ⟨hof, hsub⟩ := Demands.of_addAll_of_total_eq h
    refine ⟨hof, fun m hm => ?_⟩
    rw [hn] at hm
    cases hm
    exact hsub

theorem total_le_passAll (l : List NodeId) (d : Demands) : d.total ≤ (l.foldl (g.passDemand strategy) d).total := by
  induction l generalizing d with
  | nil => exact Nat.le_refl _
  | cons id l ih => exact Nat.le_trans (total_le_passDemand d id) (ih _)

theorem of_passAll_of_total_eq {l : List NodeId} (h : (l.foldl (g.passDemand strategy) d).total = d.total) :
    (∀ x, (l.foldl (g.passDemand strategy) d).of x = d.of x) ∧ ∀ id ∈ l, g.Meets strategy d id := by
  induction l generalizing d with
  | nil => exact ⟨fun _ => rfl, by simp⟩
  | cons id l ih =>
    have h₁ : d.total ≤ (g.passDemand strategy d id).total := total_le_passDemand d id
    have h₂ : (g.passDemand strategy d id).total ≤
        (l.foldl (g.passDemand strategy) (g.passDemand strategy d id)).total :=
      total_le_passAll l _
    rw [List.foldl_cons] at h ⊢
    have htotal : (g.passDemand strategy d id).total = d.total := by omega
    obtain ⟨hof, hmeets⟩ := of_passDemand_of_total_eq htotal
    obtain ⟨hof', hmeets'⟩ := ih (d := g.passDemand strategy d id) (by omega)
    refine ⟨fun x => (hof' x).trans (hof x), fun x hx => ?_⟩
    rcases List.mem_cons.1 hx with rfl | hx
    · exact hmeets
    · exact (hmeets' x hx).congr fun x => (hof x).symm

/-- A round of carrying demand on. -/
def passRound (g : Graph) (strategy : Strategy) (d : Demands) : Demands :=
  (List.range g.size).foldl (g.passDemand strategy) d

theorem settleDemand_succ (rounds : Nat) (d : Demands) :
    g.settleDemand strategy (rounds + 1) d =
      if (g.passRound strategy d).total = d.total then some (g.passRound strategy d)
      else g.settleDemand strategy rounds (g.passRound strategy d) := rfl

/-- What asking for more keeps, a round keeps. -/
theorem passRound_induction {I : Demands → Prop} (hd : I d)
    (hstep : ∀ d id n, I d → g.node? id = some n → ∀ r ∈ g.requests strategy n (d.of id),
      ∀ d₁, I d₁ → I (d₁.add r.1 r.2)) :
    I (g.passRound strategy d) := by
  have hadds {d₀ : Demands} {id : NodeId} {n : Node} (h₀ : I d₀) (hn : g.node? id = some n)
      (l : List (NodeId × BindingSet)) (hl : ∀ r ∈ l, r ∈ g.requests strategy n (d₀.of id)) :
      ∀ d₁, I d₁ → I (l.foldl (fun d r => d.add r.1 r.2) d₁) := by
    induction l with
    | nil => exact fun _ h => h
    | cons r l ih =>
      exact fun d₁ h₁ => ih (fun a ha => hl a (List.mem_cons_of_mem r ha)) _
        (hstep d₀ id n h₀ hn r (hl r List.mem_cons_self) d₁ h₁)
  have hround (l : List NodeId) : ∀ d, I d → I (l.foldl (g.passDemand strategy) d) := by
    induction l with
    | nil => exact fun _ h => h
    | cons id l ih =>
      refine fun d hd => ih _ ?_
      unfold passDemand
      split
      · exact hd
      · next n hn => exact hadds hd hn _ (fun _ h => h) d hd
  exact hround _ d hd

/-- What asking for more keeps is kept until demand has settled. -/
theorem settleDemand_induction {I : Demands → Prop} {rounds : Nat} (h : g.settleDemand strategy rounds d = some d')
    (hd : I d)
    (hstep : ∀ d id n, I d → g.node? id = some n → ∀ r ∈ g.requests strategy n (d.of id),
      ∀ d₁, I d₁ → I (d₁.add r.1 r.2)) :
    I d' := by
  induction rounds generalizing d with
  | zero => cases h
  | succ rounds ih =>
    rw [settleDemand_succ] at h
    split at h
    · cases h
      exact passRound_induction hd hstep
    · exact ih h (passRound_induction hd hstep)

/-- Demand that has settled is closed. -/
theorem settleDemand_closed {rounds : Nat} (h : g.settleDemand strategy rounds d = some d') (id : NodeId) :
    g.Meets strategy d' id := by
  induction rounds generalizing d with
  | zero => cases h
  | succ rounds ih =>
    rw [settleDemand_succ] at h
    split at h
    · next ht =>
      cases h
      obtain ⟨hof, hmeets⟩ := of_passAll_of_total_eq ht
      intro n hn
      exact ((hmeets id (List.mem_range.2 (List.getElem?_eq_some_iff.1 hn).1)).congr hof) n hn
    · exact ih h

/-- Demand only grows. -/
theorem settleDemand_grows {rounds : Nat} (h : g.settleDemand strategy rounds d = some d') {id : NodeId} {b : Binding}
    (hb : b ∈ d.of id) : b ∈ d'.of id := by
  refine settleDemand_induction (I := fun d => b ∈ d.of id) h hb fun _ _ _ _ _ r _ d₁ hd₁ => ?_
  rw [Demands.of_add]
  split
  · next heq => exact InsertionSet.mem_union.2 (.inl (heq ▸ hd₁))
  · exact hd₁

theorem settleDemand_mono {rounds more : Nat} (h : g.settleDemand strategy rounds d = some d') (hle : rounds ≤ more) :
    g.settleDemand strategy more d = some d' := by
  induction rounds generalizing d more with
  | zero => cases h
  | succ rounds ih =>
    obtain ⟨more, rfl⟩ : ∃ m, more = m + 1 := ⟨more - 1, by omega⟩
    rw [settleDemand_succ] at h ⊢
    split at h
    · next ht => rw [if_pos ht, h]
    · next ht =>
      rw [if_neg ht]
      exact ih h (by omega)

/-- Demand whose size is bounded settles. -/
theorem exists_settleDemand {I : Demands → Prop} {bound : Nat} (hbound : ∀ d, I d → d.total ≤ bound)
    (hround : ∀ d, I d → I (g.passRound strategy d)) (hd : I d) :
    ∃ rounds d', g.settleDemand strategy rounds d = some d' := by
  have hgrows (d : Demands) : d.total ≤ (g.passRound strategy d).total := total_le_passAll _ d
  -- A round that adds nothing is the last one, and rounds that add something are limited by the bound.
  have hmeasure (k : Nat) : ∀ d, I d → bound - d.total ≤ k → ∃ d', g.settleDemand strategy (k + 1) d = some d' := by
    induction k with
    | zero =>
      intro d hd hk
      have := hbound _ (hround d hd)
      have := hgrows d
      have heq : (g.passRound strategy d).total = d.total := by omega
      exact ⟨_, by rw [settleDemand_succ, if_pos heq]⟩
    | succ k ih =>
      intro d hd hk
      rw [settleDemand_succ]
      split
      · exact ⟨_, rfl⟩
      · next hne =>
        refine ih _ (hround d hd) ?_
        have := hgrows d
        omega
  obtain ⟨d', h⟩ := hmeasure _ d hd (Nat.le_refl _)
  exact ⟨_, d', h⟩

end Graph

/-! ## What a producer is asked for -/

section Wanted

variable {strategy : Strategy} {demand : SiteBindingSet} {consequent : Pattern} {found : MatchSet} {b : Binding}

/-- What is asked for through one match. -/
def wantedThroughMatch (strategy : Strategy) (demand : SiteBindingSet) (consequent : Pattern) (m : Match) :
    SiteBindingSet :=
  let carried := demand.carryThrough consequent [m]
  if strategy == .biggest && m.size > 1 then carried.restrictionsOver (.ofList m.targets) else carried

theorem mem_wantedThrough : b ∈ wantedThrough strategy demand consequent found ↔
    ∃ m ∈ found, b ∈ (wantedThroughMatch strategy demand consequent m).toBindings := by
  have hfold (l : List Match) (wanted : BindingSet) :
      b ∈ l.foldl (fun wanted m => wanted.union (wantedThroughMatch strategy demand consequent m).toBindings) wanted ↔
        b ∈ wanted ∨ ∃ m ∈ l, b ∈ (wantedThroughMatch strategy demand consequent m).toBindings := by
    induction l generalizing wanted with
    | nil => simp
    | cons m l ih => rw [List.foldl_cons, ih, InsertionSet.mem_union, List.exists_mem_cons_iff, or_assoc]
  refine (hfold found.toList ∅).trans ?_
  simp only [InsertionSet.not_mem_emptyCollection, false_or]
  rfl

/-- Through a match a demand is carried over whole. Through a biggest match of several triples its parts are carried
over too, one for each set of triples that the match leads to. -/
theorem mem_wantedThroughMatch {m : Match} {x : SiteBinding} :
    x ∈ (wantedThroughMatch strategy demand consequent m).bindings ↔
      ∃ y ∈ demand.bindings, ∃ z, SiteBinding.carryThrough m y = some z ∧
        (x = z ∨ strategy = .biggest ∧ 1 < m.size ∧
          ∃ ts : List Triple, (∀ t ∈ ts, t ∈ m.targets) ∧ x = z.restrict ts) := by
  have hcarried {z : SiteBinding} : z ∈ (demand.carryThrough consequent [m]).bindings ↔
      ∃ y ∈ demand.bindings, SiteBinding.carryThrough m y = some z := by
    rw [SiteBindingSet.mem_carryThrough]
    simp
  have hparts : (strategy == .biggest && decide (m.size > 1)) = true ↔ strategy = .biggest ∧ 1 < m.size := by
    rw [Bool.and_eq_true, beq_iff_eq, decide_eq_true_iff]
  unfold wantedThroughMatch
  dsimp only
  split
  · next hs =>
    obtain ⟨hbiggest, hsize⟩ := hparts.1 hs
    rw [SiteBindingSet.mem_restrictionsOver]
    simp only [SortedSet.mem_ofList]
    constructor
    · rintro ⟨z, hz, ts, hts, rfl⟩
      obtain ⟨y, hy, hyz⟩ := hcarried.1 hz
      exact ⟨y, hy, z, hyz, .inr ⟨hbiggest, hsize, ts, hts, rfl⟩⟩
    · -- The whole is the part over all triples.
      rintro ⟨y, hy, z, hyz, rfl | ⟨_, _, ts, hts, rfl⟩⟩
      · exact ⟨x, hcarried.2 ⟨y, hy, hyz⟩, m.targets, fun _ ht => ht, SiteBinding.restrict_targets hyz⟩
      · exact ⟨z, hcarried.2 ⟨y, hy, hyz⟩, ts, hts, rfl⟩
  · next hs =>
    rw [hcarried]
    constructor
    · rintro ⟨y, hy, hyx⟩
      exact ⟨y, hy, x, hyx, .inl rfl⟩
    · rintro ⟨y, hy, z, hyz, rfl | ⟨hbiggest, hsize, _⟩⟩
      · exact ⟨y, hy, hyz⟩
      · exact absurd (hparts.2 ⟨hbiggest, hsize⟩) hs

/-- Whatever is asked for is a demand carried over, or a part of one. -/
theorem exists_of_mem_wantedThrough (h : b ∈ wantedThrough strategy demand consequent found) :
    ∃ m ∈ found, ∃ y ∈ demand.bindings, ∃ x, SiteBinding.carryThrough m y = some x ∧
      (b = x.toBinding ∨ ∃ ts, b = (x.restrict ts).toBinding) := by
  obtain ⟨m, hm, h⟩ := mem_wantedThrough.1 h
  obtain ⟨x, hx, rfl⟩ := SiteBindingSet.mem_toBindings.1 h
  obtain ⟨y, hy, z, hyz, rfl | ⟨_, _, ts, _, rfl⟩⟩ := mem_wantedThroughMatch.1 hx
  · exact ⟨m, hm, y, hy, x, hyz, .inl rfl⟩
  · exact ⟨m, hm, y, hy, z, hyz, .inr ⟨ts, rfl⟩⟩

variable (strategy consequent) in
/-- Through any match a demand is carried over whole. -/
theorem mem_wantedThrough_of_carryThrough {m : Match} {x y : SiteBinding} (hm : m ∈ found) (hy : y ∈ demand.bindings)
    (hx : SiteBinding.carryThrough m y = some x) : x.toBinding ∈ wantedThrough strategy demand consequent found :=
  mem_wantedThrough.2 ⟨m, hm, SiteBindingSet.mem_toBindings.2
    ⟨x, mem_wantedThroughMatch.2 ⟨y, hy, x, hx, .inl rfl⟩, rfl⟩⟩

/-- What is asked for through a match is a matter of its triples. -/
theorem wantedThroughMatch_congr {m m' : Match} (h : m.triples = m'.triples) :
    wantedThroughMatch strategy demand consequent m = wantedThroughMatch strategy demand consequent m' := by
  have hcarry : SiteBinding.carryThrough m = SiteBinding.carryThrough m' :=
    funext fun _ => SiteBinding.carryThrough_congr h
  unfold wantedThroughMatch SiteBindingSet.carryThrough Match.size Match.targets
  rw [List.flatMap_singleton, List.flatMap_singleton, hcarry, h]

/-- The more is asked of an antecedent, the more it asks of its producers. -/
theorem wantedThrough_mono {demand' : SiteBindingSet} {found' : MatchSet}
    (hd : ∀ y ∈ demand.bindings, y ∈ demand'.bindings)
    (hf : ∀ m ∈ found, ∃ m' ∈ found', m'.triples = m.triples) (h : b ∈ wantedThrough strategy demand consequent found) :
    b ∈ wantedThrough strategy demand' consequent found' := by
  obtain ⟨m, hm, hb⟩ := mem_wantedThrough.1 h
  obtain ⟨m', hm', htriples⟩ := hf m hm
  rw [← wantedThroughMatch_congr htriples] at hb
  obtain ⟨x, hx, rfl⟩ := SiteBindingSet.mem_toBindings.1 hb
  obtain ⟨y, hy, hcarried⟩ := mem_wantedThroughMatch.1 hx
  exact mem_wantedThrough.2 ⟨m', hm',
    SiteBindingSet.mem_toBindings.2 ⟨x, mem_wantedThroughMatch.2 ⟨y, hd y hy, hcarried⟩, rfl⟩⟩

end Wanted

namespace Graph

variable {g : Graph} {strategy : Strategy}

/-- What a node asks of its producers. -/
theorem mem_requests {n : Node} {demand : BindingSet} {x : NodeId} {s : BindingSet} :
    (x, s) ∈ g.requests strategy n demand ↔
      demand.isEmpty = false ∧ n.rule.antecedent.isEmpty = false ∧ ∃ found producer, (x, found) ∈ n.allProducers ∧
        g.node? x = some producer ∧
        s = wantedThrough strategy (.ofBindings n.rule.antecedent demand) producer.rule.consequent found := by
  unfold requests
  split
  · next h =>
    rw [Bool.or_eq_true] at h
    constructor
    · intro hmem
      cases hmem
    · rintro ⟨hd, ha, _⟩
      rw [hd, ha] at h
      simp at h
  · next h =>
    rw [Bool.or_eq_true, not_or, Bool.not_eq_true, Bool.not_eq_true] at h
    rw [List.mem_filterMap]
    constructor
    · rintro ⟨⟨d, found⟩, hd, heq⟩
      obtain ⟨producer, hp, hs⟩ := Option.map_eq_some_iff.1 heq
      cases hs
      exact ⟨h.1, h.2, found, producer, hd, hp, rfl⟩
    · rintro ⟨_, _, found, producer, hd, hp, rfl⟩
      exact ⟨(x, found), hd, Option.map_eq_some_iff.2 ⟨producer, hp, rfl⟩⟩

end Graph

/-! ## Demand on the nodes of a plan -/

namespace Plan

/-- New demands change nothing but the demands. -/
theorem withDemands_spec (p : Plan) (d : Demands) :
    (∃ progress, p.withDemands d = { p with progress }) ∧
      ∀ x, (p.withDemands d).progressOf x =
        if x < p.size then { p.progressOf x with demand := d.of x } else p.progressOf x := by
  have hfold (l : List NodeId) (p : Plan) :
      (∃ progress, l.foldl (fun p id => p.update id fun s => { s with demand := d.of id }) p = { p with progress }) ∧
        ∀ x, (l.foldl (fun p id => p.update id fun s => { s with demand := d.of id }) p).progressOf x =
          if x ∈ l then { p.progressOf x with demand := d.of x } else p.progressOf x := by
    induction l generalizing p with
    | nil => exact ⟨⟨p.progress, rfl⟩, fun x => by simp⟩
    | cons id l ih =>
      obtain ⟨⟨progress, heq⟩, hx⟩ := ih (p.update id fun s => { s with demand := d.of id })
      refine ⟨⟨progress, heq⟩, fun x => ?_⟩
      rw [List.foldl_cons, hx, progressOf_update]
      by_cases hid : id = x
      · subst hid
        simp
      · simp [hid, Ne.symm hid]
  obtain ⟨hfields, hx⟩ := hfold p.nodeIds p
  refine ⟨hfields, fun x => (hx x).trans ?_⟩
  simp only [nodeIds, List.mem_range]

variable {p : Plan} {rounds : Nat} {bindings : BindingSet} {d : Demands} {x : NodeId} {b : Binding}

theorem demandsFor_backward (h : p.isBackward = true) : p.demandsFor rounds bindings =
    p.graph.settleDemand p.options.strategy rounds ((∅ : Demands).insert start bindings) := if_pos h

/-- A plan for a premise asks for nothing in particular. -/
theorem eq_empty_of_forward (h : p.isBackward = false) (hd : p.demandsFor rounds bindings = some d) (hb : b ∈ d.of x) :
    b = ∅ := by
  have heq : SortedMap.ofList (p.nodeIds.map fun id => (id, BindingSet.unconstrained)) = d :=
    Option.some.inj ((if_neg (by simp [h])).symm.trans hd)
  subst heq
  unfold Demands.of at hb
  cases hget : SortedMap.get? (SortedMap.ofList (p.nodeIds.map fun id => (id, BindingSet.unconstrained))) x with
  | none =>
    rw [hget] at hb
    exact absurd hb (InsertionSet.not_mem_emptyCollection b)
  | some s =>
    rw [hget] at hb
    obtain ⟨_, _, heq⟩ := List.mem_map.1 (SortedMap.mem_of_mem_ofList (SortedMap.get?_eq_some_iff.1 hget))
    cases heq
    exact InsertionSet.mem_singleton.1 hb

end Plan

end TripleChain
