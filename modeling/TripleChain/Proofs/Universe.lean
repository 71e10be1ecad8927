import TripleChain.Proofs.Laws
import Mathlib.Algebra.Order.BigOperators.Group.List
import Mathlib.Data.List.ProdSigma
import Mathlib.Algebra.Order.Ring.Nat
import Mathlib.Data.List.Sublists
/-!
# Finitely many bindings

Chaining makes up no terms: to be made of the variables and terms that the matches, the tables and the input hold is a
law that every run keeps (`Plan.confines_within`). Over finitely many variables and terms there are
finitely many bindings (`mem_allBindings`).
-/

open Std

namespace TripleChain

variable {V : List Variable} {T : List Term}

/-- The binding is made of the given variables and terms. -/
def Binding.Within (V : List Variable) (T : List Term) (b : Binding) : Prop := ∀ v t, b.get? v = some t → v ∈ V ∧ t ∈ T

/-- All bindings made of the given variables and terms. -/
def allBindings (V : List Variable) (T : List Term) : BindingSet := .ofList ((V.product T).sublists.map Binding.ofList)

theorem mem_allBindings {b : Binding} (h : b.Within V T) : b ∈ allBindings V T := by
  -- The pairs that the binding holds are one of the sublists of all pairs.
  refine InsertionSet.mem_ofList.2 (List.mem_map.2
    ⟨(V.product T).filter fun e => b.get? e.1 == some e.2, List.mem_sublists.2 List.filter_sublist, ?_⟩)
  have hmem (e : Variable × Term) :
      e ∈ ((V.product T).filter fun e => b.get? e.1 == some e.2) ↔ b.get? e.1 = some e.2 := by
    rw [List.mem_filter, beq_iff_eq, and_iff_right_iff_imp]
    exact fun he => List.mem_product.2 (h e.1 e.2 he)
  refine Binding.ext_get? fun v => ?_
  rcases SortedMap.get?_insertAll (m := (∅ : SortedMap Variable Term)) (g := b.get?) (fun e he => (hmem e).1 he) v with
    ⟨_, hg⟩ | ⟨hno, hg⟩
  · exact hg
  · cases hv : b.get? v with
    | none => exact hg
    | some t => exact absurd rfl (hno (v, t) ((hmem (v, t)).2 hv))

/-! ## Matches -/

/-- The triple is made of the given variables and terms. -/
def Triple.Within (V : List Variable) (T : List Term) (t : Triple) : Prop :=
  ∀ i, t.term i ∈ T ∧ ∀ v, t.term i = .var v → v ∈ V

/-- The match lines up triples made of the given variables and terms. -/
def Match.Within (V : List Variable) (T : List Term) (m : Match) : Prop :=
  ∀ e ∈ m.triples.entries, e.1.Within V T ∧ e.2.Within V T

/-- To be bound to given terms, and only given variables at all. -/
abbrev withinLaw (V : List Variable) (T : List Term) : Law := fun v t => v ∈ V ∧ t ∈ T

theorem Match.Within.upholds {m : Match} (h : m.Within V T) : m.Upholds (withinLaw V T) where
  rename e he i _ w _ hw _ ht := ⟨((h e he).2 i).2 w hw, ht.2⟩
  fill e he i w _ hw := ⟨((h e he).2 i).2 w hw, ((h e he).1 i).1⟩

/-! ## Graphs -/

/-- The matches and tables of the graph are made of the given variables and terms. -/
structure Graph.Within (V : List Variable) (T : List Term) (g : Graph) : Prop where
  link : ∀ id n, g.node? id = some n → ∀ m ∈ n.linkMatches, m.Within V T
  row : ∀ id n, g.node? id = some n → ∀ b ∈ n.rule.rows, b.Within V T

/-- The variables of some triples and some bindings. -/
def variablesOf (triples : List Triple) (bs : List Binding) : List Variable :=
  (triples.flatMap fun t => t.vars.toList) ++ bs.flatMap Binding.vars

/-- The terms of some triples and some bindings. -/
def termsOf (triples : List Triple) (bs : List Binding) : List Term :=
  triples.flatMap Triple.terms ++ bs.flatMap fun b => b.entries.map Prod.snd

theorem Triple.within_of_mem {triples : List Triple} {bs : List Binding} {t : Triple} (h : t ∈ triples) :
    t.Within (variablesOf triples bs) (termsOf triples bs) := fun i =>
  ⟨List.mem_append_left _ (List.mem_flatMap.2 ⟨t, h, mem_terms.2 ⟨i, rfl⟩⟩), fun _ hv =>
    List.mem_append_left _ (List.mem_flatMap.2 ⟨t, h, mem_vars.2 ⟨i, hv⟩⟩)⟩

theorem Binding.within_of_mem {triples : List Triple} {bs : List Binding} {b : Binding} (h : b ∈ bs) :
    b.Within (variablesOf triples bs) (termsOf triples bs) := fun v t hv =>
  ⟨List.mem_append_right _ (List.mem_flatMap.2 ⟨b, h, mem_vars.2 ⟨t, hv⟩⟩),
    List.mem_append_right _ (List.mem_flatMap.2 ⟨b, h, List.mem_map.2 ⟨(v, t), mem_entries.2 hv, rfl⟩⟩)⟩

namespace Graph

/-- The triples that the links of the graph line up. -/
def linkedTriples (g : Graph) : List Triple :=
  g.nodes.flatMap fun n => n.linkMatches.flatMap fun m => m.triples.entries.flatMap fun e => [e.1, e.2]

/-- The rows of the tables of the graph. -/
def rows (g : Graph) : List Binding := g.nodes.flatMap fun n => n.rule.rows

variable {g : Graph} {id : NodeId} {n : Node}

theorem mem_linkedTriples {m : Match} {e : Triple × Triple} (hn : g.node? id = some n) (hm : m ∈ n.linkMatches)
    (he : e ∈ m.triples.entries) : e.1 ∈ g.linkedTriples ∧ e.2 ∈ g.linkedTriples := by
  have hmem {t : Triple} (ht : t ∈ [e.1, e.2]) : t ∈ g.linkedTriples :=
    List.mem_flatMap.2 ⟨n, List.mem_of_getElem? hn, List.mem_flatMap.2 ⟨m, hm, List.mem_flatMap.2 ⟨e, he, ht⟩⟩⟩
  exact ⟨hmem (by simp), hmem (by simp)⟩

theorem mem_rows {b : Binding} (hn : g.node? id = some n) (hb : b ∈ n.rule.rows) : b ∈ g.rows :=
  List.mem_flatMap.2 ⟨n, List.mem_of_getElem? hn, hb⟩

end Graph

/-- A graph and some bindings are made of finitely many variables and terms. -/
theorem Graph.exists_within (g : Graph) (bs : List Binding) :
    ∃ V T, g.Within V T ∧ ∀ b ∈ bs, b.Within V T := by
  refine ⟨variablesOf g.linkedTriples (g.rows ++ bs), termsOf g.linkedTriples (g.rows ++ bs),
    ⟨fun id n hn m hm e he => ?_, fun id n hn b hb => ?_⟩, fun b hb => ?_⟩
  · obtain ⟨hleft, hright⟩ := mem_linkedTriples hn hm he
    exact ⟨Triple.within_of_mem hleft, Triple.within_of_mem hright⟩
  · exact Binding.within_of_mem (List.mem_append_left _ (mem_rows hn hb))
  · exact Binding.within_of_mem (List.mem_append_right _ hb)

theorem Graph.Within.upholds {g : Graph} (h : g.Within V T) (hplain : ∀ id n, g.node? id = some n → n.rule.IsPlain) :
    g.Upholds (withinLaw V T) where
  link id n hn m hm := (h.link id n hn m hm).upholds
  rule id n hn := ⟨hplain id n hn, h.row id n hn⟩

/-! ## Demand -/

/-- The demands are made of the given variables and terms, and only on nodes of the graph. -/
structure Demands.Within (V : List Variable) (T : List Term) (size : Nat) (d : Demands) : Prop where
  node : ∀ id s, d.get? id = some s → id < size
  demand : ∀ id, ∀ b ∈ d.of id, b.Within V T

theorem Demands.Within.add {size : Nat} {d : Demands} {id : NodeId} {s : BindingSet} (h : d.Within V T size)
    (hid : id < size) (hs : ∀ b ∈ s, b.Within V T) : (d.add id s).Within V T size := by
  refine ⟨fun x s' hx => ?_, fun x b hb => ?_⟩
  · rw [Demands.add, Demands.get?_insert] at hx
    split at hx
    · next heq => exact heq ▸ hid
    · exact h.node x s' hx
  · rw [Demands.of_add] at hb
    split at hb
    · exact (InsertionSet.mem_union.1 hb).elim (h.demand id b) (hs b)
    · exact h.demand x b hb

theorem Demands.Within.total_le {size : Nat} {d : Demands} (h : d.Within V T size) :
    d.total ≤ size * (allBindings V T).size := by
  rw [Demands.total_eq_sum]
  have hle : ∀ n ∈ d.entries.map fun e => e.2.size, n ≤ (allBindings V T).size := by
    intro n hn
    obtain ⟨⟨id, s⟩, he, rfl⟩ := List.mem_map.1 hn
    refine InsertionSet.size_le_of_subset fun b hb => mem_allBindings (h.demand id b ?_)
    rw [Demands.of, SortedMap.get?_eq_some_iff.2 he]
    exact hb
  have hlen : d.entries.length ≤ size := by
    have hsub : d.keys ⊆ List.range size := fun x hx => by
      obtain ⟨s, hs⟩ := SortedMap.mem_keys.1 hx
      exact List.mem_range.2 (h.node x s hs)
    have := (List.subperm_of_subset d.nodup_keys hsub).length_le
    rwa [SortedMap.keys, List.length_map, List.length_range] at this
  refine (List.sum_le_card_nsmul _ _ hle).trans ?_
  rw [List.length_map]
  exact Nat.mul_le_mul_right _ hlen

namespace Graph

variable {g : Graph} {strategy : Strategy} {d d' : Demands}

theorem Within.add {id : NodeId} {n : Node} (h : g.Within V T) (hd : d.Within V T g.size) (hn : g.node? id = some n) :
    ∀ r ∈ g.requests strategy n (d.of id), ∀ d₁ : Demands, d₁.Within V T g.size →
      (d₁.add r.1 r.2).Within V T g.size := by
  rintro ⟨x, s⟩ hr d₁ hd₁
  obtain ⟨_, _, found, producer, hfound, hp, rfl⟩ := mem_requests.1 hr
  exact hd₁.add (lt_size hp) (wantedThrough_obeys
    (fun m hm => (producers_induction h.link hn hfound m hm).upholds) (hd.demand id))

/-- Demand settles, and is made of what the graph and the input are made of. -/
theorem Within.exists_settleDemand {bindings : BindingSet} (h : g.Within V T) (strategy : Strategy)
    (hsize : Plan.start < g.size) (hb : ∀ b ∈ bindings, b.Within V T) :
    ∃ rounds d, g.settleDemand strategy rounds ((∅ : Demands).insert Plan.start bindings) = some d ∧
      d.Within V T g.size := by
  have hinitial : Demands.Within V T g.size ((∅ : Demands).insert Plan.start bindings) := by
    refine ⟨fun id s hs => ?_, fun id b hbm => ?_⟩
    · rw [Demands.get?_insert] at hs
      split at hs
      · next heq => exact heq ▸ hsize
      · cases hs
    · rw [Demands.of_insert] at hbm
      split at hbm
      · exact hb b hbm
      · exact absurd hbm (InsertionSet.not_mem_emptyCollection b)
  obtain ⟨rounds, d, hsettled⟩ := Graph.exists_settleDemand (I := Demands.Within V T g.size)
    (fun d hd => hd.total_le) (fun d hd => passRound_induction hd fun _ _ _ hd hn => h.add hd hn) hinitial
  exact ⟨rounds, d, hsettled, settleDemand_induction hsettled hinitial fun _ _ _ hd hn => h.add hd hn⟩

end Graph

/-! ## Plans -/

/-- The bounds that hold bindings made of the given variables and terms. -/
def withinBounds (V : List Variable) (T : List Term) : Outputs := fun _ => {b | b.Within V T}

namespace Plan

variable {p : Plan}

/-- No run makes terms up. -/
theorem confines_within (hg : p.graph.Within V T) (hplain : ∀ id n, p.graph.node? id = some n → n.rule.IsPlain)
    (hd : ∀ id, ∀ b ∈ (p.progressOf id).demand, b.Within V T) (hi : ∀ b ∈ p.input.getD ∅, b.Within V T) :
    p.Confines (withinBounds V T) (withinBounds V T) := by
  have hupholds := hg.upholds hplain
  have hinput {q : Plan} {id : NodeId} {n : Node} (hf : SameFrame p q) (hout : ∀ x, q.outputs x ⊆ withinBounds V T x) :
      ∀ b ∈ q.nodeInput id n, b.Within V T :=
    nodeInput_obeys (by rwa [hf.graph]) (by rw [hf.demand]; exact hd id) fun x b hb => hout x hb
  exact ⟨fun q hf hout id n _ _ _ => hinput hf hout, fun _ q hf hout n _ _ => hinput hf hout, fun _ => hi,
    fun id n s c _ hn hs _ hc => (hupholds.rule id n hn).yields hs hc⟩

end Plan

end TripleChain
