import TripleChain.Proofs.Graph
import TripleChain.Proofs.MatchInverse
/-!
# The shape of the graph of a plan

`Graph.Regular` is what is always true of the graph of a plan, whether it has grown back from a goal or on from a
premise: each rule is a node once; what the two ends of a link record are the same matches, turned around; links apart
from loops close no cycle, and a loop is a link that would.

The graph is changed in three ways: a mark is set on a node (`Regular.update`), a node is added (`Regular.add`), two
nodes are linked (`Regular.link`).
-/

open Std

namespace TripleChain

namespace Node

/-- The same node, with more links and more marks. -/
structure Kept (n m : Node) : Prop where
  ruleId : m.ruleId = n.ruleId
  rule : m.rule = n.rule
  direction : m.direction = n.direction
  expanded : n.expandedBackward = true → m.expandedBackward = true
  producer : ∀ loops d, (∃ found, (n.producerLinks loops).get? d = some found) →
    ∃ found, (m.producerLinks loops).get? d = some found

theorem Kept.refl (n : Node) : n.Kept n := ⟨rfl, rfl, rfl, id, fun _ _ h => h⟩

theorem Kept.trans {n m k : Node} (h : n.Kept m) (h' : m.Kept k) : n.Kept k :=
  ⟨h'.ruleId.trans h.ruleId, h'.rule.trans h.rule, h'.direction.trans h.direction,
    fun he => h'.expanded (h.expanded he), fun loops d hd => h'.producer loops d (h.producer loops d hd)⟩

theorem Kept.hasProducer {n m : Node} {d : NodeId} (h : n.Kept m) : n.HasProducer d → m.HasProducer d := by
  rintro ⟨loops, hd⟩
  exact ⟨loops, h.producer loops d hd⟩

/-- The same node with the same links and more marks. -/
structure Alike (n m : Node) : Prop where
  ruleId : m.ruleId = n.ruleId
  rule : m.rule = n.rule
  direction : m.direction = n.direction
  expanded : n.expandedBackward = true → m.expandedBackward = true
  producerLinks : ∀ loops, m.producerLinks loops = n.producerLinks loops
  consumerLinks : ∀ loops, m.consumerLinks loops = n.consumerLinks loops

theorem Alike.refl (n : Node) : n.Alike n := ⟨rfl, rfl, rfl, id, fun _ => rfl, fun _ => rfl⟩

theorem Alike.kept {n m : Node} (h : n.Alike m) : n.Kept m :=
  ⟨h.ruleId, h.rule, h.direction, h.expanded, fun loops d hd => by rwa [h.producerLinks loops]⟩

theorem alike_expandedBackward (n : Node) : n.Alike { n with expandedBackward := true } :=
  ⟨rfl, rfl, rfl, fun _ => rfl, fun _ => rfl, fun _ => rfl⟩

theorem alike_expandedForward (n : Node) : n.Alike { n with expandedForward := true } :=
  ⟨rfl, rfl, rfl, id, fun _ => rfl, fun _ => rfl⟩

theorem alike_addTrigger (id : NodeId) (n : Node) : n.Alike (n.addTrigger id) :=
  ⟨rfl, rfl, rfl, fun h => h, fun _ => rfl, fun _ => rfl⟩

theorem kept_relink (producer consumer : NodeId) (found : MatchSet) (cyclic : Bool) (i : NodeId) (n : Node) :
    n.Kept (n.relink producer consumer found cyclic i) :=
  ⟨by simp, by simp, by simp, by simp, fun _ _ hd => exists_producer_relink (.inr hd)⟩

end Node

namespace Graph

variable {rules : List Rule} {g g' : Graph}

/-- What is always true of the graph of a plan. -/
structure Regular (rules : List Rule) (g : Graph) : Prop where
  rule : ∀ i n, g.node? i = some n → rules[n.ruleId]? = some n.rule
  once : ∀ i j n m, g.node? i = some n → g.node? j = some m → n.ruleId = m.ruleId → i = j
  producer : ∀ c n loops d found, g.node? c = some n → (n.producerLinks loops).get? d = some found →
    found.Proper ∧ d < g.size
  consumer : ∀ d m loops c back, g.node? d = some m → (m.consumerLinks loops).get? c = some back → c < g.size
  /-- What a producer records is what the consumer records, turned around. -/
  mirrored : ∀ c n d m loops, g.node? c = some n → g.node? d = some m →
    (m.consumerLinks loops).get? c = ((n.producerLinks loops).get? d).map MatchSet.inverse
  rank : ∃ rank : NodeId → Nat, ∀ d c, g.Feeds d c → rank d < rank c
  /-- A loop is where data already flow the other way. -/
  loop : ∀ c n d found, g.node? c = some n → n.producerLoops.get? d = some found → Relation.ReflTransGen g.Feeds c d

theorem Regular.twoEnded (h : g.Regular rules) : g.TwoEnded where
  producer c n loops d found hn hget := by
    obtain ⟨m, hm⟩ := exists_node (h.producer c n loops d found hn hget).2
    exact ⟨m, hm, _, by rw [h.mirrored c n d m loops hn hm, hget]; rfl⟩
  consumer d m loops c back hm hget := by
    obtain ⟨n, hn⟩ := exists_node (h.consumer d m loops c back hm hget)
    rw [h.mirrored c n d m loops hn hm] at hget
    obtain ⟨found, hfound, _⟩ := Option.map_eq_some_iff.1 hget
    exact ⟨n, hn, found, hfound⟩

theorem Regular.size_le (h : g.Regular rules) : g.size ≤ rules.length := size_le_of_once h.rule h.once

theorem Regular.feeds_lt_size {d c : NodeId} (h : g.Regular rules) (hf : g.Feeds d c) : d < g.size := by
  obtain ⟨n, hn, found, hget⟩ := hf
  exact (h.producer c n false d found hn hget).2

/-- Nothing flows to a node that is yet to come, and nothing from it. -/
theorem Regular.apart_of_size (h : g.Regular rules) {id : NodeId} (hid : id < g.size) :
    ¬ Relation.ReflTransGen g.Feeds id g.size ∧ ¬ Relation.ReflTransGen g.Feeds g.size id := by
  constructor <;> intro hpath
  · rcases Relation.ReflTransGen.cases_tail hpath with heq | ⟨_, _, hlast⟩
    · exact Nat.ne_of_gt hid heq
    · exact Nat.lt_irrefl _ hlast.lt_size
  · rcases Relation.ReflTransGen.cases_head hpath with heq | ⟨_, hfirst, _⟩
    · exact Nat.ne_of_gt hid heq
    · exact Nat.lt_irrefl _ (h.feeds_lt_size hfirst)

/-- All nodes stay, and so do their links. -/
def Extends (g g' : Graph) : Prop := ∀ i n, g.node? i = some n → ∃ m, g'.node? i = some m ∧ n.Kept m

theorem Extends.refl (g : Graph) : g.Extends g := fun _ n hn => ⟨n, hn, Node.Kept.refl n⟩

theorem Extends.trans {g₁ g₂ g₃ : Graph} (h : g₁.Extends g₂) (h' : g₂.Extends g₃) : g₁.Extends g₃ := by
  intro i n hn
  obtain ⟨m, hm, hkept⟩ := h i n hn
  obtain ⟨k, hk, hkept'⟩ := h' i m hm
  exact ⟨k, hk, hkept.trans hkept'⟩

theorem Extends.size_le (h : g.Extends g') : g.size ≤ g'.size := by
  refine Nat.le_of_not_lt fun hlt => ?_
  obtain ⟨n, hn⟩ := exists_node hlt
  obtain ⟨m, hm, _⟩ := h _ n hn
  exact Nat.lt_irrefl _ (lt_size hm)

theorem Extends.feeds (h : g.Extends g') {d c : NodeId} (hf : g.Feeds d c) : g'.Feeds d c := by
  obtain ⟨n, hn, hget⟩ := hf
  obtain ⟨m, hm, hkept⟩ := h c n hn
  exact ⟨m, hm, hkept.producer false d hget⟩

theorem Extends.reaches {d c : NodeId} (h : g.Extends g') (hpath : Relation.ReflTransGen g.Feeds d c) :
    Relation.ReflTransGen g'.Feeds d c := Relation.ReflTransGen.mono (fun _ _ => h.feeds) _ _ hpath

/-! ## Marks -/

section Update

variable {id : NodeId} {f : Node → Node} (hf : ∀ n : Node, n.Alike (f n))

include hf

theorem exists_of_node?_update {i : NodeId} {x : Node} (hx : (g.update id f).node? i = some x) :
    ∃ y, g.node? i = some y ∧ y.Alike x := by
  rw [node?_update] at hx
  split at hx
  · obtain ⟨y, hy, rfl⟩ := Option.map_eq_some_iff.1 hx
    exact ⟨y, hy, hf y⟩
  · exact ⟨x, hx, Node.Alike.refl x⟩

theorem exists_node?_update {i : NodeId} {y : Node} (hy : g.node? i = some y) :
    ∃ x, (g.update id f).node? i = some x ∧ y.Alike x := by
  rw [node?_update, hy]
  split
  · exact ⟨f y, rfl, hf y⟩
  · exact ⟨y, rfl, Node.Alike.refl y⟩

theorem feeds_update {d c : NodeId} : (g.update id f).Feeds d c ↔ g.Feeds d c := by
  constructor
  · rintro ⟨x, hx, found, hget⟩
    obtain ⟨y, hy, halike⟩ := exists_of_node?_update hf hx
    have hlinks : x.producers = y.producers := halike.producerLinks false
    exact ⟨y, hy, found, hlinks ▸ hget⟩
  · rintro ⟨y, hy, found, hget⟩
    obtain ⟨x, hx, halike⟩ := exists_node?_update hf hy
    have hlinks : x.producers = y.producers := halike.producerLinks false
    exact ⟨x, hx, found, hlinks ▸ hget⟩

theorem extends_update : g.Extends (g.update id f) := by
  intro i n hn
  obtain ⟨x, hx, halike⟩ := exists_node?_update hf hn
  exact ⟨x, hx, halike.kept⟩

theorem Regular.update (h : g.Regular rules) : (g.update id f).Regular rules where
  rule i x hx := by
    obtain ⟨y, hy, halike⟩ := exists_of_node?_update hf hx
    rw [halike.ruleId, halike.rule]
    exact h.rule i y hy
  once i j x x' hx hx' heq := by
    obtain ⟨y, hy, halike⟩ := exists_of_node?_update hf hx
    obtain ⟨y', hy', halike'⟩ := exists_of_node?_update hf hx'
    rw [halike.ruleId, halike'.ruleId] at heq
    exact h.once i j y y' hy hy' heq
  producer c x loops d found hx hget := by
    obtain ⟨y, hy, halike⟩ := exists_of_node?_update hf hx
    rw [halike.producerLinks] at hget
    rw [size_update]
    exact h.producer c y loops d found hy hget
  consumer d x loops c back hx hget := by
    obtain ⟨y, hy, halike⟩ := exists_of_node?_update hf hx
    rw [halike.consumerLinks] at hget
    rw [size_update]
    exact h.consumer d y loops c back hy hget
  mirrored c x d x' loops hx hx' := by
    obtain ⟨y, hy, halike⟩ := exists_of_node?_update hf hx
    obtain ⟨y', hy', halike'⟩ := exists_of_node?_update hf hx'
    rw [halike.producerLinks, halike'.consumerLinks]
    exact h.mirrored c y d y' loops hy hy'
  rank := by
    obtain ⟨rank, hrank⟩ := h.rank
    exact ⟨rank, fun d c hdc => hrank d c ((feeds_update hf).1 hdc)⟩
  loop c x d found hx hget := by
    obtain ⟨y, hy, halike⟩ := exists_of_node?_update hf hx
    have hlinks : x.producerLoops = y.producerLoops := halike.producerLinks true
    exact (extends_update hf).reaches (h.loop c y d found hy (hlinks ▸ hget))

end Update

/-! ## Nodes -/

section Add

variable {ruleId : RuleId} {r : Rule} {direction : Direction}

/-- A new node has no links. -/
theorem ofRule_links (loops : Bool) (x : NodeId) :
    ((Node.ofRule ruleId r direction).producerLinks loops).get? x = none ∧
      ((Node.ofRule ruleId r direction).consumerLinks loops).get? x = none := by
  cases loops <;> exact ⟨rfl, rfl⟩

theorem size_add (g : Graph) (n : Node) : (g.add n).size = g.size + 1 := by
  simp [add, size]

theorem feeds_add {d c : NodeId} : (g.add (.ofRule ruleId r direction)).Feeds d c ↔ g.Feeds d c := by
  constructor
  · rintro ⟨x, hx, found, hget⟩
    rcases node?_add_cases hx with hx | ⟨_, rfl⟩
    · exact ⟨x, hx, found, hget⟩
    · cases hget
  · rintro ⟨y, hy, found, hget⟩
    exact ⟨y, node?_add_of hy, found, hget⟩

theorem extends_add (g : Graph) (n : Node) : g.Extends (g.add n) :=
  fun _ m hm => ⟨m, node?_add_of hm, Node.Kept.refl m⟩

/-- Another node, of a rule that has none. -/
theorem Regular.add (direction : Direction) (h : g.Regular rules) (hr : rules[ruleId]? = some r)
    (hno : ∀ i n, g.node? i = some n → n.ruleId ≠ ruleId) :
    (g.add (.ofRule ruleId r direction)).Regular rules where
  rule i x hx := by
    rcases node?_add_cases hx with hx | ⟨_, rfl⟩
    · exact h.rule i x hx
    · exact hr
  once i j x y hx hy heq := by
    rcases node?_add_cases hx with hx | ⟨rfl, rfl⟩ <;> rcases node?_add_cases hy with hy | ⟨rfl, rfl⟩
    · exact h.once i j x y hx hy heq
    · exact absurd heq (hno i x hx)
    · exact absurd heq.symm (hno j y hy)
    · rfl
  producer c x loops d found hx hget := by
    rw [size_add]
    rcases node?_add_cases hx with hx | ⟨_, rfl⟩
    · exact (h.producer c x loops d found hx hget).imp_right Nat.lt_succ_of_lt
    · rw [(ofRule_links loops d).1] at hget
      cases hget
  consumer d x loops c back hx hget := by
    rw [size_add]
    rcases node?_add_cases hx with hx | ⟨_, rfl⟩
    · exact Nat.lt_succ_of_lt (h.consumer d x loops c back hx hget)
    · rw [(ofRule_links loops c).2] at hget
      cases hget
  -- No node is linked with the new one, which is not there yet.
  mirrored c x d y loops hx hy := by
    rcases node?_add_cases hx with hx | ⟨rfl, rfl⟩ <;> rcases node?_add_cases hy with hy | ⟨rfl, rfl⟩
    · exact h.mirrored c x d y loops hx hy
    · rw [(ofRule_links loops c).2, Option.eq_none_iff_forall_ne_some.2 fun f hf =>
        Nat.lt_irrefl _ (h.producer c x loops g.size f hx hf).2]
      rfl
    · rw [(ofRule_links loops d).1]
      exact Option.eq_none_iff_forall_ne_some.2 fun f hf => Nat.lt_irrefl _ (h.consumer d y loops g.size f hy hf)
    · rw [(ofRule_links loops g.size).1, (ofRule_links loops g.size).2]
      rfl
  rank := by
    obtain ⟨rank, hrank⟩ := h.rank
    exact ⟨rank, fun d c hdc => hrank d c (feeds_add.1 hdc)⟩
  loop c x d found hx hget := by
    rcases node?_add_cases hx with hx | ⟨_, rfl⟩
    · exact (extends_add g _).reaches (h.loop c x d found hx hget)
    · cases hget

end Add

/-! ## Links -/

section Link

variable {d c : NodeId} {found : MatchSet} {cyclic : Bool}

theorem extends_link : g.Extends (g.link d c found cyclic) := fun i n hn =>
  ⟨_, node?_link_of hn, n.kept_relink d c found cyclic i⟩

theorem feeds_link {n : Node} (hn : g.node? c = some n) : (g.link d c found false).Feeds d c := by
  have hlinked : ∃ f, ((n.relink d c found false c).producerLinks false).get? d = some f :=
    Node.exists_producer_relink (.inl ⟨rfl, rfl, rfl⟩)
  exact ⟨_, node?_link_of hn, hlinked⟩

/-- A link is entered with both of its ends. -/
theorem Regular.mirrored_link {i j : NodeId} {x y : Node} {loops : Bool} (h : g.Regular rules) (hfound : found.Proper)
    (hx : (g.link d c found cyclic).node? i = some x) (hy : (g.link d c found cyclic).node? j = some y) :
    (y.consumerLinks loops).get? i = ((x.producerLinks loops).get? j).map MatchSet.inverse := by
  obtain ⟨x', hx', rfl⟩ := exists_of_node?_link hx
  obtain ⟨y', hy', rfl⟩ := exists_of_node?_link hy
  have hold := h.mirrored i x' j y' loops hx' hy'
  rw [Node.producerLinks_relink, Node.consumerLinks_relink]
  by_cases hends : d = j ∧ c = i ∧ cyclic = loops
  · obtain ⟨rfl, rfl, rfl⟩ := hends
    rw [if_pos ⟨rfl, rfl⟩, if_pos ⟨rfl, rfl⟩, Links.get?_add, Links.get?_add, if_pos rfl, if_pos rfl, hold]
    cases hprev : (x'.producerLinks cyclic).get? d with
    | none => exact congrArg some (MatchSet.proper_empty.inverse_insertAll hfound).symm
    | some old => exact congrArg some ((h.producer c x' cyclic d old hx' hprev).1.inverse_insertAll hfound).symm
  · -- Neither end has changed, or it has changed towards another node.
    have hconsumers : (if d = j ∧ cyclic = loops then (y'.consumerLinks loops).add c (MatchSet.inverse found)
        else y'.consumerLinks loops).get? i = (y'.consumerLinks loops).get? i := by
      split
      · next hj => rw [Links.get?_add, if_neg fun hi => hends ⟨hj.1, hi, hj.2⟩]
      · rfl
    have hproducers : (if c = i ∧ cyclic = loops then (x'.producerLinks loops).add d found
        else x'.producerLinks loops).get? j = (x'.producerLinks loops).get? j := by
      split
      · next hi => rw [Links.get?_add, if_neg fun hj => hends ⟨hj, hi.1, hi.2⟩]
      · rfl
    rw [hconsumers, hproducers, hold]

/-- A link over a loop just where data already flow the other way. -/
theorem Regular.link (h : g.Regular rules) (hd : d < g.size) (hc : c < g.size) (hfound : found.Proper)
    (hcyclic : cyclic = true ↔ Relation.ReflTransGen g.Feeds c d) : (g.link d c found cyclic).Regular rules where
  rule i x hx := by
    obtain ⟨y, hy, rfl⟩ := exists_of_node?_link hx
    simpa using h.rule i y hy
  once i j x y hx hy heq := by
    obtain ⟨x', hx', rfl⟩ := exists_of_node?_link hx
    obtain ⟨y', hy', rfl⟩ := exists_of_node?_link hy
    exact h.once i j x' y' hx' hy' (by simpa using heq)
  producer i x loops j f hx hget := by
    obtain ⟨y, hy, rfl⟩ := exists_of_node?_link hx
    rw [size_link]
    rcases Node.producer_relink_cases hget with hget | ⟨_, _, rfl, rfl⟩
    · exact h.producer i y loops j f hy hget
    · refine ⟨MatchSet.Proper.insertAll ?_ hfound, hd⟩
      cases hold : (y.producerLinks loops).get? d with
      | none => exact MatchSet.proper_empty
      | some old => exact (h.producer i y loops d old hy hold).1
  consumer i x loops j f hx hget := by
    obtain ⟨y, hy, rfl⟩ := exists_of_node?_link hx
    rw [size_link]
    rcases Node.consumer_relink_cases hget with hget | ⟨_, _, rfl, rfl⟩
    · exact h.consumer i y loops j f hy hget
    · exact hc
  mirrored _ _ _ _ _ hx hy := h.mirrored_link hfound hx hy
  rank := by
    obtain ⟨rank, hrank⟩ := h.rank
    exact exists_rank_link hrank fun hfalse hpath => by
      rw [hcyclic.2 hpath] at hfalse
      cases hfalse
  loop i x j f hx hget := by
    obtain ⟨y, hy, rfl⟩ := exists_of_node?_link hx
    have hget : ((y.relink d c found cyclic i).producerLinks true).get? j = some f := hget
    rcases Node.producer_relink_cases hget with hget | ⟨rfl, hloop, rfl, _⟩
    · exact extends_link.reaches (h.loop i y j f hy hget)
    · exact extends_link.reaches (hcyclic.1 hloop)

/-- Another node and a link with it, where data do not yet flow the other way. -/
theorem Regular.addLinked {ruleId : RuleId} {r : Rule} (direction : Direction) (h : g.Regular rules)
    (hr : rules[ruleId]? = some r) (hfound : found.Proper) (hnone : g.nodeOf? ruleId = none) (hd : d < g.size + 1)
    (hc : c < g.size + 1) (hapart : ¬ Relation.ReflTransGen g.Feeds c d) :
    ((g.add (.ofRule ruleId r direction)).link d c found false).Regular rules := by
  have hadd := h.add direction hr fun i n hn => nodeOf?_eq_none hnone hn
  have hapart' : ¬ Relation.ReflTransGen (g.add (.ofRule ruleId r direction)).Feeds c d := fun hpath =>
    hapart (Relation.ReflTransGen.mono (fun _ _ => feeds_add.1) _ _ hpath)
  refine hadd.link ?_ ?_ hfound (iff_of_false Bool.false_ne_true hapart') <;> rwa [size_add]

/-- The link from a new producer closes no cycle. -/
theorem Regular.addProducer {ruleId : RuleId} {r : Rule} {id : NodeId} (direction : Direction)
    (h : g.Regular rules) (hid : id < g.size) (hr : rules[ruleId]? = some r) (hfound : found.Proper)
    (hnone : g.nodeOf? ruleId = none) :
    ((g.add (.ofRule ruleId r direction)).link g.size id found false).Regular rules :=
  h.addLinked direction hr hfound hnone (Nat.lt_succ_self _) (Nat.lt_succ_of_lt hid) (h.apart_of_size hid).1

/-- The link to a new consumer closes no cycle. -/
theorem Regular.addConsumer {ruleId : RuleId} {r : Rule} {id : NodeId} (direction : Direction)
    (h : g.Regular rules) (hid : id < g.size) (hr : rules[ruleId]? = some r) (hfound : found.Proper)
    (hnone : g.nodeOf? ruleId = none) :
    ((g.add (.ofRule ruleId r direction)).link id g.size found false).Regular rules :=
  h.addLinked direction hr hfound hnone (Nat.lt_succ_of_lt hid) (Nat.lt_succ_self _) (h.apart_of_size hid).2

end Link

/-- A link is over a loop if the other end is on the way here, or data flow from there by another way. -/
theorem Regular.cyclic_iff {chain : List NodeId} {d c : NodeId} (h : g.Regular rules) (hc : c < g.size)
    {other : NodeId} (hchain : other ∈ chain → Relation.ReflTransGen g.Feeds c d) :
    (chain.contains other || g.flowsTo c d) = true ↔ Relation.ReflTransGen g.Feeds c d := by
  rw [Bool.or_eq_true, List.contains_iff_mem, h.twoEnded.flowsTo_iff hc]
  exact or_iff_right_of_imp hchain

theorem regular_nil : (⟨[]⟩ : Graph).Regular rules where
  rule _ _ hn := nomatch hn
  once _ _ _ _ hn := nomatch hn
  producer _ _ _ _ _ hn := nomatch hn
  consumer _ _ _ _ _ hm := nomatch hm
  mirrored _ _ _ _ _ hn := nomatch hn
  rank := ⟨fun _ => 0, fun _ _ h => nomatch h.choose_spec.1⟩
  loop _ _ _ _ hn := nomatch hn

/-- A start on its own. -/
theorem regular_ofStart {ruleId : RuleId} {r : Rule} (direction : Direction) (hr : rules[ruleId]? = some r) :
    (ofStart ruleId r direction).Regular rules :=
  regular_nil.add direction hr fun _ _ hn => nomatch hn

end Graph

end TripleChain
