import TripleChain.Plan.Graph
import TripleChain.Proofs.MatchSearch
import Mathlib.Data.Set.Basic
import Mathlib.Logic.Relation
/-!
# Nodes and links

What adding a node and linking two nodes does to each node of a graph, and what it does to the flow of data: a link
whose producer is not reached from its consumer closes no cycle (`Graph.exists_rank_link`). The search for a way through
the graph finds one if there is one (`Graph.TwoEnded.flowsTo_iff`).

`Graph.Backward` is what is always true of the graph behind a goal: its nodes are rules of the store, each once; what
producers and consumers record of a link is the same, and is what matching the two rules gives; and the links apart from
loops have a rank that grows along them, so that they close no cycle.
-/

open Std

namespace TripleChain

/-! ## Links -/

theorem Links.get?_add (l : Links) (id x : NodeId) (found : MatchSet) :
    (l.add id found).get? x = if id = x then some (((l.get? id).getD ∅).insertAll found.toList) else l.get? x := by
  have h : compare id x = .eq ↔ id = x := Std.compare_eq_iff_eq
  by_cases hx : id = x <;> simp [Links.add, SortedMap.get?_insert, h, hx]

theorem MatchSet.mem_of_mem_inverse {s : MatchSet} {m : Match} (h : m ∈ s.inverse) : ∃ n ∈ s, n.inverse = m :=
  List.mem_map.1 (SortedSet.mem_of_mem_ofList h)

theorem MatchSet.exists_mem_inverse {s : MatchSet} {m : Match} (h : m ∈ s) :
    ∃ n ∈ s.inverse, n.triples = m.inverse.triples := by
  obtain ⟨n, hn, hc⟩ := SortedSet.exists_mem_ofList (List.mem_map_of_mem (f := Match.inverse) h)
  exact ⟨n, hn, (Match.triples_eq hc).symm⟩

/-- The matches found are the given ones, as far as their triples go. -/
structure Faithful (F : Set Match) (found : MatchSet) : Prop where
  sound : ∀ m ∈ found, m ∈ F
  complete : ∀ m ∈ F, ∃ n ∈ found, n.triples = m.triples

theorem Faithful.add {F : Set Match} {old found : MatchSet} (ho : ∀ m ∈ old, m ∈ F) (hf : Faithful F found) :
    Faithful F (old.insertAll found.toList) := by
  refine ⟨fun m hm => ?_, fun m hm => ?_⟩
  · exact (SortedSet.mem_of_mem_insertAll hm).elim (ho m) (hf.sound m)
  · obtain ⟨n, hn, heq⟩ := hf.complete m hm
    obtain ⟨x, hx, hc⟩ := SortedSet.exists_mem_insertAll (s := old) hn
    exact ⟨x, hx, by rw [← Match.triples_eq hc, heq]⟩

/-- The matches from a consumer to a producer. -/
def Facing (strategy : Strategy) (consumer producer : Rule) : Set Match :=
  {m | m ∈ findMatches consumer.antecedent producer.consequent strategy}

/-- The same matches seen from the producer. -/
def FacingBack (strategy : Strategy) (consumer producer : Rule) : Set Match :=
  Match.inverse '' Facing strategy consumer producer

theorem faithful_findMatches (strategy : Strategy) (consumer producer : Rule) :
    Faithful (Facing strategy consumer producer) (findMatches consumer.antecedent producer.consequent strategy) :=
  ⟨fun _ h => h, fun m h => ⟨m, h, rfl⟩⟩

theorem Faithful.inverse {F : Set Match} {found : MatchSet} (h : Faithful F found) :
    Faithful (Match.inverse '' F) (MatchSet.inverse found) := by
  refine ⟨fun m hm => ?_, ?_⟩
  · obtain ⟨n, hn, rfl⟩ := MatchSet.mem_of_mem_inverse hm
    exact ⟨n, h.sound n hn, rfl⟩
  · rintro _ ⟨m, hm, rfl⟩
    obtain ⟨n, hn, heq⟩ := h.complete m hm
    obtain ⟨x, hx, hxe⟩ := MatchSet.exists_mem_inverse hn
    exact ⟨x, hx, by rw [hxe, Match.inverse, heq]; rfl⟩

/-! ## Nodes -/

namespace Node

/-- The producers, apart from loops or over loops. -/
def producerLinks (n : Node) (cyclic : Bool) : Links := if cyclic then n.producerLoops else n.producers

/-- The consumers, apart from loops or over loops. -/
def consumerLinks (n : Node) (cyclic : Bool) : Links := if cyclic then n.consumerLoops else n.consumers

/-- A node with some number feeds this one. -/
def HasProducer (n : Node) (d : NodeId) : Prop := ∃ cyclic found, (n.producerLinks cyclic).get? d = some found

theorem mem_allProducers {n : Node} {d : NodeId} {found : MatchSet} :
    (d, found) ∈ n.allProducers ↔ ∃ cyclic, (n.producerLinks cyclic).get? d = some found := by
  simp [allProducers, producerLinks, SortedMap.get?_eq_some_iff]

theorem matchesTo?_eq_some {n : Node} {c : NodeId} {found : MatchSet} (h : n.matchesTo? c = some found) :
    ∃ cyclic, (n.consumerLinks cyclic).get? c = some found := by
  unfold matchesTo? at h
  split at h
  · next f hf =>
    cases h
    exact ⟨false, hf⟩
  · exact ⟨true, h⟩

theorem exists_matchesTo? {n : Node} {c : NodeId} {found : MatchSet} {cyclic : Bool}
    (h : (n.consumerLinks cyclic).get? c = some found) : ∃ f, n.matchesTo? c = some f := by
  unfold matchesTo?
  cases hc : n.consumers.get? c with
  | some f => exact ⟨f, rfl⟩
  | none =>
    cases cyclic with
    | true => exact ⟨found, h⟩
    | false =>
      rw [show n.consumers.get? c = some found from h] at hc
      cases hc

/-- What a new link does to the node with the number `i`. -/
def relink (producer consumer : NodeId) (found : MatchSet) (cyclic : Bool) (i : NodeId) (n : Node) : Node :=
  let n := if consumer = i then n.addProducer producer found cyclic else n
  if producer = i then n.addConsumer consumer (MatchSet.inverse found) cyclic else n

section Relink

variable (producer consumer : NodeId) (found : MatchSet) (cyclic : Bool) (i : NodeId) (n : Node)

@[simp] theorem relink_ruleId : (n.relink producer consumer found cyclic i).ruleId = n.ruleId := by
  unfold relink addProducer addConsumer
  cases cyclic <;> grind

@[simp] theorem relink_rule : (n.relink producer consumer found cyclic i).rule = n.rule := by
  unfold relink addProducer addConsumer
  cases cyclic <;> grind

@[simp] theorem relink_direction : (n.relink producer consumer found cyclic i).direction = n.direction := by
  unfold relink addProducer addConsumer
  cases cyclic <;> grind

@[simp] theorem relink_triggers : (n.relink producer consumer found cyclic i).triggers = n.triggers := by
  unfold relink addProducer addConsumer
  cases cyclic <;> grind

@[simp] theorem relink_expanded :
    (n.relink producer consumer found cyclic i).expandedBackward = n.expandedBackward := by
  unfold relink addProducer addConsumer
  cases cyclic <;> grind

@[simp] theorem relink_expandedForward :
    (n.relink producer consumer found cyclic i).expandedForward = n.expandedForward := by
  unfold relink addProducer addConsumer
  cases cyclic <;> grind

theorem producerLinks_relink (loops : Bool) :
    (n.relink producer consumer found cyclic i).producerLinks loops =
      if consumer = i ∧ cyclic = loops then (n.producerLinks loops).add producer found
      else n.producerLinks loops := by
  unfold relink addProducer addConsumer producerLinks
  cases cyclic <;> cases loops <;> grind

theorem consumerLinks_relink (loops : Bool) :
    (n.relink producer consumer found cyclic i).consumerLinks loops =
      if producer = i ∧ cyclic = loops then (n.consumerLinks loops).add consumer (MatchSet.inverse found)
      else n.consumerLinks loops := by
  unfold relink addProducer addConsumer consumerLinks
  cases cyclic <;> cases loops <;> grind

end Relink

end Node

namespace Graph

theorem node?_update (g : Graph) (id i : NodeId) (f : Node → Node) :
    (g.update id f).node? i = if id = i then (g.node? i).map f else g.node? i := by
  simp only [node?, update, List.getElem?_modify]
  by_cases h : id = i <;> simp [h]

theorem node?_link (g : Graph) (producer consumer : NodeId) (found : MatchSet) (cyclic : Bool) (i : NodeId) :
    (g.link producer consumer found cyclic).node? i =
      (g.node? i).map (Node.relink producer consumer found cyclic i) := by
  unfold link Node.relink
  simp only [node?_update]
  cases g.node? i with
  | none => simp
  | some n => by_cases hp : producer = i <;> by_cases hc : consumer = i <;> simp [hp, hc]

@[simp] theorem size_link (g : Graph) (producer consumer : NodeId) (found : MatchSet) (cyclic : Bool) :
    (g.link producer consumer found cyclic).size = g.size := by
  simp [link, update, size]

@[simp] theorem size_update (g : Graph) (id : NodeId) (f : Node → Node) : (g.update id f).size = g.size := by
  simp [update, size]

theorem node?_add (g : Graph) (n : Node) (i : NodeId) :
    (g.add n).node? i = if i = g.size then some n else g.node? i := by
  show (g.nodes ++ [n])[i]? = if i = g.nodes.length then some n else g.nodes[i]?
  rw [List.getElem?_append]
  split
  · next hlt => rw [if_neg (Nat.ne_of_lt hlt)]
  · next hge =>
    split
    · next heq => simp [heq]
    · next hne =>
      have hlt : g.nodes.length < i := Nat.lt_of_le_of_ne (Nat.le_of_not_lt hge) (Ne.symm hne)
      rw [List.getElem?_eq_none (Nat.sub_pos_of_lt hlt), List.getElem?_eq_none (Nat.le_of_lt hlt)]

theorem lt_size {g : Graph} {i : NodeId} {n : Node} (h : g.node? i = some n) : i < g.size :=
  (List.getElem?_eq_some_iff.1 h).1

theorem exists_node {g : Graph} {i : NodeId} (h : i < g.size) : ∃ n, g.node? i = some n :=
  ⟨_, List.getElem?_eq_getElem h⟩

theorem nodeOf?_eq_some {g : Graph} {ruleId : RuleId} {i : NodeId} (h : g.nodeOf? ruleId = some i) :
    ∃ n, g.node? i = some n ∧ n.ruleId = ruleId := by
  obtain ⟨hlt, hp, _⟩ := List.findIdx?_eq_some_iff_getElem.1 h
  exact ⟨g.nodes[i], List.getElem?_eq_getElem hlt, by simpa using hp⟩

theorem nodeOf?_eq_none {g : Graph} {ruleId : RuleId} (h : g.nodeOf? ruleId = none) {i : NodeId} {n : Node}
    (hn : g.node? i = some n) : n.ruleId ≠ ruleId := by
  have := List.findIdx?_eq_none_iff.1 h n (List.mem_of_getElem? hn)
  simpa using this

theorem mem_order {g : Graph} {id : NodeId} (h : id < g.size) : id ∈ g.order := by
  unfold order
  dsimp only
  generalize g.orderFrom g.size _ _ = done
  rw [List.mem_append, List.mem_filter, List.mem_range]
  by_cases hd : id ∈ done
  · exact .inl hd
  · exact .inr ⟨h, by simpa using hd⟩

/-! ## What is always true -/

/-- What is always true of a graph that grows back from a goal. -/
structure Backward (rules : List Rule) (strategy : Strategy) (root : RuleId) (g : Graph) : Prop where
  root : ∃ n, g.node? 0 = some n ∧ n.ruleId = root
  rule : ∀ i n, g.node? i = some n → rules[n.ruleId]? = some n.rule
  kind : ∀ i n, g.node? i = some n → n.direction = .backward ∧ n.triggers = ∅ ∧ (i ≠ 0 → n.rule.isProactive = false)
  once : ∀ i j n m, g.node? i = some n → g.node? j = some m → n.ruleId = m.ruleId → i = j
  producer : ∀ c n loops d found, g.node? c = some n → (n.producerLinks loops).get? d = some found →
    ∃ m, g.node? d = some m ∧ Faithful (Facing strategy n.rule m.rule) found ∧
      ∃ back, (m.consumerLinks loops).get? c = some back
  consumer : ∀ d m loops c back, g.node? d = some m → (m.consumerLinks loops).get? c = some back →
    ∃ n, g.node? c = some n ∧ Faithful (FacingBack strategy n.rule m.rule) back ∧
      ∃ found, (n.producerLinks loops).get? d = some found
  rank : ∃ rank : NodeId → Nat, ∀ c n d found, g.node? c = some n → n.producers.get? d = some found →
    rank d < rank c

/-- Data flow from one node to the next, loops apart. -/
def Feeds (g : Graph) (d c : NodeId) : Prop := ∃ n, g.node? c = some n ∧ ∃ found, n.producers.get? d = some found

end Graph

theorem Links.exists_get?_add {l : Links} {x : NodeId} (id : NodeId) (found : MatchSet)
    (h : id = x ∨ ∃ f, l.get? x = some f) : ∃ f, (l.add id found).get? x = some f := by
  rw [Links.get?_add]
  split
  · exact ⟨_, rfl⟩
  · next hne => exact h.resolve_left hne

namespace Node

variable {producer consumer : NodeId} {found : MatchSet} {cyclic loops : Bool} {i x : NodeId} {n : Node}

theorem exists_producer_relink
    (h : (consumer = i ∧ cyclic = loops ∧ producer = x) ∨ ∃ f, (n.producerLinks loops).get? x = some f) :
    ∃ f, ((n.relink producer consumer found cyclic i).producerLinks loops).get? x = some f := by
  rw [producerLinks_relink]
  split
  · exact Links.exists_get?_add _ _ (h.imp_left fun h => h.2.2)
  · next hne => exact h.resolve_left fun h => hne ⟨h.1, h.2.1⟩

/-- What a node with a new link has as producers. -/
theorem producer_relink_cases {f : MatchSet}
    (h : ((n.relink producer consumer found cyclic i).producerLinks loops).get? x = some f) :
    (n.producerLinks loops).get? x = some f ∨ consumer = i ∧ cyclic = loops ∧ producer = x ∧
      f = (((n.producerLinks loops).get? x).getD ∅).insertAll found.toList := by
  rw [producerLinks_relink] at h
  split at h
  · next hc =>
    rw [Links.get?_add] at h
    split at h
    · next hp =>
      cases h
      exact .inr ⟨hc.1, hc.2, hp, by rw [hp]⟩
    · exact .inl h
  · exact .inl h

/-- What a node with a new link has as consumers. -/
theorem consumer_relink_cases {f : MatchSet}
    (h : ((n.relink producer consumer found cyclic i).consumerLinks loops).get? x = some f) :
    (n.consumerLinks loops).get? x = some f ∨ producer = i ∧ cyclic = loops ∧ consumer = x ∧
      f = (((n.consumerLinks loops).get? x).getD ∅).insertAll (MatchSet.inverse found).toList := by
  rw [consumerLinks_relink] at h
  split at h
  · next hc =>
    rw [Links.get?_add] at h
    split at h
    · next hp =>
      cases h
      exact .inr ⟨hc.1, hc.2, hp, by rw [hp]⟩
    · exact .inl h
  · exact .inl h

end Node

namespace Graph

variable {rules : List Rule} {strategy : Strategy} {root : RuleId} {g : Graph}

open Classical in
/-- Whatever a consumer reaches is moved up past a producer. -/
noncomputable def raise (g : Graph) (rank : NodeId → Nat) (d c x : NodeId) : Nat :=
  if Relation.ReflTransGen g.Feeds c x then rank x + rank d + 1 else rank x

/-- A rank for one more link, where the producer is not reached from the consumer. -/
theorem exists_rank_of_link {rank : NodeId → Nat} {d c : NodeId} (h : ∀ x y, g.Feeds x y → rank x < rank y)
    (hno : ¬ Relation.ReflTransGen g.Feeds c d) :
    ∃ rank' : NodeId → Nat, (∀ x y, g.Feeds x y → rank' x < rank' y) ∧ rank' d < rank' c := by
  refine ⟨g.raise rank d c, fun x y hxy => ?_, ?_⟩
  · have hlt := h x y hxy
    unfold raise
    by_cases hx : Relation.ReflTransGen g.Feeds c x
    · rw [if_pos hx, if_pos (hx.tail hxy)]
      omega
    · rw [if_neg hx]
      split <;> omega
  · rw [raise, raise, if_neg hno, if_pos .refl]
    omega

section Link

variable {d c : NodeId} {n m : Node} {found : MatchSet} {cyclic : Bool}

theorem exists_of_node?_link {i : NodeId} {x : Node} (hx : (g.link d c found cyclic).node? i = some x) :
    ∃ y, g.node? i = some y ∧ x = y.relink d c found cyclic i := by
  rw [node?_link] at hx
  obtain ⟨y, hy, heq⟩ := Option.map_eq_some_iff.1 hx
  exact ⟨y, hy, heq.symm⟩

theorem node?_link_of {i : NodeId} {y : Node} (hy : g.node? i = some y) :
    (g.link d c found cyclic).node? i = some (y.relink d c found cyclic i) := by
  rw [node?_link, hy]
  rfl

theorem feeds_of_link {i j : NodeId} {x : Node} {f : MatchSet} (hx : (g.link d c found cyclic).node? i = some x)
    (hget : x.producers.get? j = some f) : g.Feeds j i ∨ cyclic = false ∧ j = d ∧ i = c := by
  obtain ⟨y, hy, rfl⟩ := exists_of_node?_link hx
  have hget : ((y.relink d c found cyclic i).producerLinks false).get? j = some f := hget
  rcases Node.producer_relink_cases hget with hget | ⟨rfl, hcyc, rfl, _⟩
  · exact .inl ⟨y, hy, f, hget⟩
  · exact .inr ⟨hcyc, rfl, rfl⟩

/-- A link that closes no cycle leaves the graph without cycles, loops apart. -/
theorem exists_rank_link {rank : NodeId → Nat} (h : ∀ x y, g.Feeds x y → rank x < rank y)
    (hno : cyclic = false → ¬ Relation.ReflTransGen g.Feeds c d) :
    ∃ rank' : NodeId → Nat, ∀ x y, (g.link d c found cyclic).Feeds x y → rank' x < rank' y := by
  cases cyclic with
  | true =>
    refine ⟨rank, fun x y ⟨z, hz, f, hget⟩ => ?_⟩
    exact (feeds_of_link hz hget).elim (h x y) fun hnew => (nomatch hnew.1)
  | false =>
    obtain ⟨rank', hr, hdc⟩ := exists_rank_of_link h (hno rfl)
    refine ⟨rank', fun x y ⟨z, hz, f, hget⟩ => ?_⟩
    rcases feeds_of_link hz hget with hold | ⟨_, rfl, rfl⟩
    · exact hr x y hold
    · exact hdc

end Link

/-- Where each rule is a node at most once there are no more nodes than rules. -/
theorem size_le_of_once (hrule : ∀ i n, g.node? i = some n → rules[n.ruleId]? = some n.rule)
    (honce : ∀ i j n m, g.node? i = some n → g.node? j = some m → n.ruleId = m.ruleId → i = j) :
    g.size ≤ rules.length := by
  have hnodup : (g.nodes.map Node.ruleId).Nodup := by
    rw [List.nodup_iff_getElem?_ne_getElem?]
    intro i j hij hj heq
    rw [List.length_map] at hj
    obtain ⟨n, hn⟩ := exists_node (g := g) (Nat.lt_trans hij hj)
    obtain ⟨m, hm⟩ := exists_node (g := g) hj
    have hn' : g.nodes[i]? = some n := hn
    have hm' : g.nodes[j]? = some m := hm
    rw [List.getElem?_map, List.getElem?_map, hn', hm'] at heq
    exact Nat.ne_of_lt hij (honce i j n m hn hm (Option.some.inj heq))
  have hsub : g.nodes.map Node.ruleId ⊆ List.range rules.length := by
    intro x hx
    obtain ⟨n, hn, rfl⟩ := List.mem_map.1 hx
    obtain ⟨i, hi⟩ := List.mem_iff_getElem?.1 hn
    exact List.mem_range.2 (List.getElem?_eq_some_iff.1 (hrule i n hi)).1
  have hle := (List.subperm_of_subset hnodup hsub).length_le
  rwa [List.length_map, List.length_range] at hle

/-! ## Reach -/

/-- With every node the set has the nodes that it feeds. -/
def Closed (g : Graph) (S : SortedSet NodeId) : Prop := ∀ x ∈ S, ∀ y ∈ g.consumersOf x, y ∈ S

/-- The set with the nodes that its nodes feed. -/
def spread (g : Graph) (S : SortedSet NodeId) : SortedSet NodeId := S.insertAll (S.toList.flatMap g.consumersOf)

theorem mem_spread {S : SortedSet NodeId} {y : NodeId} :
    y ∈ g.spread S ↔ y ∈ S ∨ ∃ x ∈ S, y ∈ g.consumersOf x := by
  rw [spread, SortedSet.mem_insertAll, List.mem_flatMap]
  rfl

theorem subset_reach {steps : Nat} {S : SortedSet NodeId} {x : NodeId} (h : x ∈ S) : x ∈ g.reach steps S := by
  induction steps generalizing S with
  | zero => exact h
  | succ steps ih => exact ih (S := g.spread S) (mem_spread.2 (.inl h))

/-- What holds of some nodes and goes along the links holds of all that they reach. -/
theorem reach_induction {P : NodeId → Prop} (hP : ∀ x, P x → ∀ y ∈ g.consumersOf x, P y) (steps : Nat) :
    ∀ S : SortedSet NodeId, (∀ x ∈ S, P x) → ∀ x ∈ g.reach steps S, P x := by
  induction steps with
  | zero => exact fun S hS => hS
  | succ steps ih =>
    refine fun S hS => ih (g.spread S) fun y hy => ?_
    rcases mem_spread.1 hy with hy | ⟨x, hx, hy⟩
    · exact hS y hy
    · exact hP x (hS x hx) y hy

/-- Each step of a search that is not over reaches another node. -/
theorem closed_reach_or (steps : Nat) (S : SortedSet NodeId) :
    g.Closed (g.reach steps S) ∨ S.size + steps ≤ (g.reach steps S).size := by
  induction steps generalizing S with
  | zero => exact .inr (Nat.le_refl _)
  | succ steps ih =>
    by_cases hS : g.Closed S
    · exact .inl fun x hx y hy => subset_reach (hS x (reach_induction hS _ S (fun _ h => h) x hx) y hy)
    · unfold Closed at hS
      push Not at hS
      obtain ⟨x, hx, y, hy, hn⟩ := hS
      have hlt : S.size < (g.spread S).size :=
        SortedSet.size_lt_of_mem (fun a ha => mem_spread.2 (.inl ha)) (mem_spread.2 (.inr ⟨x, hx, hy⟩)) hn
      refine (ih (g.spread S)).imp_right fun h => ?_
      have : (g.spread S).size + steps ≤ (g.reach (steps + 1) S).size := h
      omega

/-- Links that one end knows of the other end knows of. -/
structure TwoEnded (g : Graph) : Prop where
  producer : ∀ c n loops d found, g.node? c = some n → (n.producerLinks loops).get? d = some found →
    ∃ m, g.node? d = some m ∧ ∃ back, (m.consumerLinks loops).get? c = some back
  consumer : ∀ d m loops c back, g.node? d = some m → (m.consumerLinks loops).get? c = some back →
    ∃ n, g.node? c = some n ∧ ∃ found, (n.producerLinks loops).get? d = some found

theorem TwoEnded.mem_consumersOf_iff {d c : NodeId} (h : g.TwoEnded) : c ∈ g.consumersOf d ↔ g.Feeds d c := by
  unfold consumersOf
  constructor
  · intro hc
    split at hc
    · next m hm =>
      obtain ⟨back, hback⟩ := SortedMap.mem_keys.1 hc
      exact h.consumer d m false c back hm hback
    · cases hc
  · rintro ⟨n, hn, found, hget⟩
    obtain ⟨m, hm, back, hback⟩ := h.producer c n false d found hn hget
    rw [hm]
    exact SortedMap.mem_keys.2 ⟨back, hback⟩

theorem Feeds.lt_size {d c : NodeId} (h : g.Feeds d c) : c < g.size := by
  obtain ⟨n, hn, _⟩ := h
  exact Graph.lt_size hn

/-- The search finds every way on, and no other. -/
theorem TwoEnded.flowsTo_iff {d c : NodeId} (h : g.TwoEnded) (hd : d < g.size) :
    g.flowsTo d c = true ↔ Relation.ReflTransGen g.Feeds d c := by
  have hstart {P : NodeId → Prop} (hP : P d) : ∀ x ∈ (SortedSet.singleton d : SortedSet NodeId), P x := fun x hx =>
    SortedSet.mem_singleton.1 hx ▸ hP
  rw [flowsTo, SortedSet.contains_iff]
  constructor
  · exact reach_induction (P := Relation.ReflTransGen g.Feeds d) (fun x hx y hy => hx.tail (h.mem_consumersOf_iff.1 hy))
      g.size _ (hstart .refl) c
  · -- As many steps as there are nodes cannot all reach another one.
    have hclosed : g.Closed (g.reach g.size (.singleton d)) := by
      refine (closed_reach_or g.size (.singleton d)).resolve_right fun hle => ?_
      have hsize := SortedSet.size_le_of_subset fun x hx => List.mem_range.2
        (reach_induction (P := (· < g.size)) (fun _ _ y hy => (h.mem_consumersOf_iff.1 hy).lt_size) g.size _
        (hstart hd) x hx)
      rw [List.length_range] at hsize
      have hone : (SortedSet.singleton d).size = 1 := rfl
      omega
    intro hpath
    induction hpath with
    | refl => exact subset_reach (SortedSet.mem_singleton.2 rfl)
    | tail _ hxy ih => exact hclosed _ ih _ (h.mem_consumersOf_iff.2 hxy)

section Add

variable {ruleId : RuleId} {r : Rule} {i : NodeId}

theorem node?_add_cases {x : Node} {direction : Direction}
    (hx : (g.add (.ofRule ruleId r direction)).node? i = some x) :
    g.node? i = some x ∨ i = g.size ∧ x = .ofRule ruleId r direction := by
  rw [node?_add] at hx
  split at hx
  · next heq => exact .inr ⟨heq, (Option.some.inj hx).symm⟩
  · exact .inl hx

theorem node?_add_self (g : Graph) (n : Node) : (g.add n).node? g.size = some n := by rw [node?_add, if_pos rfl]

theorem node?_add_of {x n : Node} (hx : g.node? i = some x) : (g.add n).node? i = some x := by
  rw [node?_add, if_neg (Nat.ne_of_lt (lt_size hx)), hx]

end Add

end Graph

end TripleChain
