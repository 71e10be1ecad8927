import TripleChain.Proofs.RegularGrowth
/-!
# Growing a graph behind a goal

`Graph.growBackward` goes depth first through the rules that can answer a node. What comes out is again a graph
behind a goal, and the nodes that it has gone through are linked: they have every neighbour of their rule as a producer
(`Graph.goesBack`). `Graph.ofGoal_backward` is the result for the whole graph.
-/

open Std

namespace TripleChain

namespace Graph

variable {rules : List Rule} {strategy : Strategy} {root : RuleId} {g : Graph}

/-- The node has every neighbour of its rule as a producer. -/
def Linked (rules : List Rule) (strategy : Strategy) (g : Graph) (n : Node) : Prop :=
  ∀ p ∈ neighborsAmong rules n.rule .antecedent strategy,
    ∃ d m, g.node? d = some m ∧ m.ruleId = p.id ∧ n.HasProducer d

theorem Linked.kept {g' : Graph} {n n' : Node} (h : g.Linked rules strategy n) (hg : g.Extends g') (hn : n.Kept n') :
    g'.Linked rules strategy n' := by
  intro p hmem
  rw [hn.rule] at hmem
  obtain ⟨d, m, hm, hid, hd⟩ := h p hmem
  obtain ⟨m', hm', hkept⟩ := hg d m hm
  exact ⟨d, m', hm', hkept.ruleId.trans hid, hn.hasProducer hd⟩

/-- All nodes are expanded and linked, apart from open ones. -/
def Settled (rules : List Rule) (strategy : Strategy) (g : Graph) (isOpen : NodeId → Prop) : Prop :=
  ∀ i n, g.node? i = some n → isOpen i ∨ n.expandedBackward = true ∧ g.Linked rules strategy n

theorem Settled.kept {g' : Graph} {isOpen isOpen' : NodeId → Prop} (h : g.Settled rules strategy isOpen)
    (hg : g.Extends g') (ho : ∀ i, isOpen i → isOpen' i)
    (hnew : ∀ i, i < g'.size → i < g.size ∨ isOpen' i) : g'.Settled rules strategy isOpen' := by
  intro i n' hn'
  rcases hnew i (lt_size hn') with hi | hopen
  · obtain ⟨n, hn⟩ := exists_node hi
    rcases h i n hn with hopen | ⟨he, hl⟩
    · exact .inl (ho i hopen)
    · obtain ⟨m, hm, hkept⟩ := hg i n hn
      rw [hn'] at hm
      cases hm
      exact .inr ⟨hkept.expanded he, hl.kept hg hkept⟩
  · exact .inl hopen

/-! ## Matches and kinds -/

/-- What is true besides of a regular graph that grows back from a goal: its nodes are of the backward direction and,
but for the goal, of rules that can be asked, and matching the rules at its ends gives what is recorded of a link. -/
structure Behind (strategy : Strategy) (root : RuleId) (g : Graph) : Prop where
  root : ∃ n, g.node? 0 = some n ∧ n.ruleId = root
  kind : ∀ i n, g.node? i = some n → n.direction = .backward ∧ n.triggers = ∅ ∧ (i ≠ 0 → n.rule.isProactive = false)
  faithful : ∀ c n d m loops found, g.node? c = some n → g.node? d = some m →
    (n.producerLinks loops).get? d = some found → Faithful (Facing strategy n.rule m.rule) found

theorem Behind.mark (h : g.Behind strategy root) (id : NodeId) :
    (g.update id fun n => { n with expandedBackward := true }).Behind strategy root := by
  have hold {i : NodeId} {x : Node} (hx : (g.update id fun n => { n with expandedBackward := true }).node? i = some x) :
      ∃ y b, g.node? i = some y ∧ x = { y with expandedBackward := b } := by
    rw [node?_update] at hx
    split at hx
    · obtain ⟨y, hy, rfl⟩ := Option.map_eq_some_iff.1 hx
      exact ⟨y, true, hy, rfl⟩
    · exact ⟨x, x.expandedBackward, hx, rfl⟩
  refine ⟨?_, fun i x hx => ?_, fun c x d x' loops found hx hx' hget => ?_⟩
  · obtain ⟨n, hn, hid⟩ := h.root
    rw [node?_update, hn]
    split <;> exact ⟨_, rfl, hid⟩
  · obtain ⟨y, b, hy, rfl⟩ := hold hx
    exact h.kind i y hy
  · obtain ⟨y, b, hy, rfl⟩ := hold hx
    obtain ⟨y', b', hy', rfl⟩ := hold hx'
    exact h.faithful c y d y' loops found hy hy' hget

theorem Behind.add {ruleId : RuleId} {r : Rule} (h : g.Behind strategy root) (hg : g.Regular rules)
    (hr : r.isProactive = false) : (g.add (.ofRule ruleId r .backward)).Behind strategy root := by
  refine ⟨?_, fun i x hx => ?_, fun c x d y loops found hx hy hget => ?_⟩
  · obtain ⟨n, hn, hid⟩ := h.root
    exact ⟨n, node?_add_of hn, hid⟩
  · rcases node?_add_cases hx with hx | ⟨_, rfl⟩
    · exact h.kind i x hx
    · exact ⟨rfl, rfl, fun _ => hr⟩
  · rcases node?_add_cases hx with hx | ⟨_, rfl⟩
    · obtain ⟨m, hm⟩ := exists_node (hg.producer c x loops d found hx hget).2
      rw [node?_add_of hm] at hy
      cases hy
      exact h.faithful c x d y loops found hx hm hget
    · rw [(ofRule_links loops d).1] at hget
      cases hget

theorem Behind.link {d c : NodeId} {n m : Node} {found : MatchSet} (h : g.Behind strategy root)
    (hn : g.node? c = some n) (hm : g.node? d = some m) (hf : Faithful (Facing strategy n.rule m.rule) found)
    (cyclic : Bool) : (g.link d c found cyclic).Behind strategy root := by
  refine ⟨?_, fun i x hx => ?_, fun i x j y loops f hx hy hget => ?_⟩
  · obtain ⟨x, hx, hid⟩ := h.root
    exact ⟨_, node?_link_of hx, by simpa using hid⟩
  · obtain ⟨x', hx', rfl⟩ := exists_of_node?_link hx
    simpa using h.kind i x' hx'
  · obtain ⟨x', hx', rfl⟩ := exists_of_node?_link hx
    obtain ⟨y', hy', rfl⟩ := exists_of_node?_link hy
    rw [Node.relink_rule, Node.relink_rule]
    rcases Node.producer_relink_cases hget with hold | ⟨rfl, rfl, rfl, rfl⟩
    · exact h.faithful i x' j y' loops f hx' hy' hold
    · obtain rfl : n = x' := Option.some.inj (hn.symm.trans hx')
      obtain rfl : m = y' := Option.some.inj (hm.symm.trans hy')
      refine hf.add fun a ha => ?_
      cases hold : (n.producerLinks cyclic).get? d with
      | none =>
        rw [hold] at ha
        exact absurd ha (SortedSet.not_mem_emptyCollection a)
      | some old =>
        rw [hold] at ha
        exact (h.faithful c n d m cyclic old hn hm hold).sound a ha

/-- What one end of a link records is told from what the other end records. -/
theorem Regular.backward (h : g.Regular rules) (hb : g.Behind strategy root) : g.Backward rules strategy root where
  root := hb.root
  rule := h.rule
  kind := hb.kind
  once := h.once
  producer c n loops d found hn hget := by
    obtain ⟨m, hm⟩ := exists_node (h.producer c n loops d found hn hget).2
    exact ⟨m, hm, hb.faithful c n d m loops found hn hm hget, _, by rw [h.mirrored c n d m loops hn hm, hget]; rfl⟩
  consumer d m loops c back hm hget := by
    obtain ⟨n, hn⟩ := exists_node (h.consumer d m loops c back hm hget)
    rw [h.mirrored c n d m loops hn hm] at hget
    obtain ⟨found, hfound, rfl⟩ := Option.map_eq_some_iff.1 hget
    exact ⟨n, hn, (hb.faithful c n d m loops found hn hm hfound).inverse, found, hfound⟩
  rank := by
    obtain ⟨rank, hrank⟩ := h.rank
    exact ⟨rank, fun c n d found hn hget => hrank d c ⟨n, hn, found, hget⟩⟩

/-! ## Growth -/

/-- The node has a producer of the rule. -/
def FedBy (g : Graph) (id : NodeId) (x : RuleId) : Prop :=
  ∃ n, g.node? id = some n ∧ ∃ d m, g.node? d = some m ∧ m.ruleId = x ∧ n.HasProducer d

theorem FedBy.kept {g' : Graph} {id : NodeId} {x : RuleId} (h : g.FedBy id x) (hg : g.Extends g') : g'.FedBy id x := by
  obtain ⟨n, hn, d, m, hm, hid, hd⟩ := h
  obtain ⟨n', hn', hkept⟩ := hg id n hn
  obtain ⟨m', hm', hkept'⟩ := hg d m hm
  exact ⟨n', hn', d, m', hm', hkept'.ruleId.trans hid, hkept.hasProducer hd⟩

theorem fedBy_link {d c : NodeId} {n m : Node} {x : RuleId} (hn : g.node? c = some n) (hm : g.node? d = some m)
    (hid : m.ruleId = x) (found : MatchSet) (cyclic : Bool) : (g.link d c found cyclic).FedBy c x :=
  ⟨_, node?_link_of hn, d, _, node?_link_of hm, by simpa using hid,
    cyclic, Node.exists_producer_relink (.inl ⟨rfl, rfl, rfl⟩)⟩

/-- What going back from a node through some of its neighbours comes to. -/
structure GoneBack (rules : List Rule) (strategy : Strategy) (root : RuleId) (isOpen : NodeId → Prop) (id : NodeId)
    (l : List Neighbor) (g g' : Graph) : Prop where
  grew : Grew rules g g'
  behind : g'.Behind strategy root
  settled : g'.Settled rules strategy isOpen
  fed : ∀ p ∈ l, g'.FedBy id p.id

/-- Growing back to a depth from a node whose producers have not been looked for. -/
def GoesBack (rules : List Rule) (strategy : Strategy) (root : RuleId) (near : Neighborhood) (depth : Nat) : Prop :=
  ∀ (g : Graph) (id : NodeId) (n : Node) (chain : List NodeId) (isOpen : NodeId → Prop),
    g.Regular rules → g.Behind strategy root → g.node? id = some n → n.expandedBackward = false →
    (∀ x ∈ chain, Relation.ReflTransGen g.Feeds id x) → rules.length + 1 ≤ depth + g.size →
    (g.Settled rules strategy fun i => isOpen i ∨ i = id) →
    GoneBack rules strategy root isOpen id [] g (growBackward near depth g id chain none)

section GoesBack

variable {near : Neighborhood} {depth : Nat} {isOpen : NodeId → Prop} {id : NodeId} {chain : List NodeId} {n : Node}
  {p : Neighbor}

theorem GoesBack.growStep (hgoes : GoesBack rules strategy root near depth) (hnear : near.Sound rules)
    (hp : p ∈ neighborsAmong rules n.rule .antecedent strategy) (h : g.Regular rules) (hb : g.Behind strategy root)
    (hn : g.node? id = some n) (hchain : ∀ x ∈ chain, Relation.ReflTransGen g.Feeds id x)
    (hsize : rules.length ≤ depth + g.size) (hs : g.Settled rules strategy isOpen) :
    GoneBack rules strategy root isOpen id [p] g (Graph.growStep near depth id chain none g p) := by
  obtain ⟨hrule, hpro, hfound, _⟩ := mem_neighborsAmong.1 hp
  have hsound : p.Sound rules := Neighbor.sound_of_mem hp
  have hfaithful {m : Node} (hm : m.rule = p.rule) : Faithful (Facing strategy n.rule m.rule) p.found := by
    rw [hm, hfound]
    exact faithful_findMatches strategy n.rule p.rule
  have hgrew := ((growsBack hnear depth).growStep none 0 hsound h (lt_size hn) hchain hsize).2.toGrew
  unfold Graph.growStep at hgrew ⊢
  rw [if_neg (by simp)] at hgrew ⊢
  split at hgrew
  · next d hd =>
    obtain ⟨m, hm, hid⟩ := nodeOf?_eq_some hd
    have hmr : m.rule = p.rule := by
      have hm' := h.rule d m hm
      rw [hid, hrule] at hm'
      exact (Option.some.inj hm').symm
    refine ⟨hgrew, hb.link hn hm (hfaithful hmr) _, ?_, List.forall_mem_singleton.2 (fedBy_link hn hm hid _ _)⟩
    exact hs.kept hgrew.kept (fun _ h => h) fun i hi => .inl (by rwa [size_link] at hi)
  · next hnone =>
    obtain ⟨hnew, _, hpath⟩ := h.withProducer (lt_size hn) hsound hnone hchain
    have hsize' := g.size_withProducer id p
    have hadded := node?_add_self g (.ofRule p.id p.rule .backward)
    have hbehind : (g.withProducer id p).Behind strategy root :=
      (hb.add h hpro).link (node?_add_of hn) hadded (hfaithful rfl) false
    -- The new node is open until growth has gone back from it.
    have hopen : (g.withProducer id p).Settled rules strategy fun i => isOpen i ∨ i = g.size := by
      refine hs.kept hnew.kept (fun _ => .inl) fun i hi => ?_
      rw [hsize'] at hi
      exact (Nat.lt_succ_iff_lt_or_eq.1 hi).imp_right .inr
    have hgone :=
      hgoes (g.withProducer id p) g.size _ (g.size :: chain) isOpen hnew.regular hbehind (node?_link_of hadded)
      (by simp [Node.ofRule]) hpath (by rw [hsize']; exact Nat.succ_le_succ hsize) hopen
    refine ⟨hgrew, hgone.behind, hgone.settled, List.forall_mem_singleton.2 (FedBy.kept ?_ hgone.grew.kept)⟩
    exact fedBy_link (node?_add_of hn) hadded rfl _ _

theorem GoesBack.growSteps {l : List Neighbor} (hgoes : GoesBack rules strategy root near depth)
    (hnear : near.Sound rules) (hl : ∀ p ∈ l, p ∈ neighborsAmong rules n.rule .antecedent strategy)
    (h : g.Regular rules) (hb : g.Behind strategy root) (hn : g.node? id = some n)
    (hchain : ∀ x ∈ chain, Relation.ReflTransGen g.Feeds id x) (hsize : rules.length ≤ depth + g.size)
    (hs : g.Settled rules strategy isOpen) :
    GoneBack rules strategy root isOpen id l g (l.foldl (Graph.growStep near depth id chain none) g) := by
  induction l generalizing g n with
  | nil => exact ⟨⟨h, Extends.refl g⟩, hb, hs, by simp⟩
  | cons p l ih =>
    have hstep : GoneBack rules strategy root isOpen id [p] g (Graph.growStep near depth id chain none g p) :=
      hgoes.growStep hnear (hl p List.mem_cons_self) h hb hn hchain hsize hs
    have hle := hstep.grew.kept.size_le
    obtain ⟨n', hn', hkept⟩ := hstep.grew.kept id n hn
    have hrest :=
      ih (n := n') (fun q hq => hkept.rule ▸ hl q (List.mem_cons_of_mem p hq)) hstep.grew.regular hstep.behind
      hn' (fun x hx => hstep.grew.kept.reaches (hchain x hx)) (by omega) hstep.settled
    refine ⟨hstep.grew.trans hrest.grew, hrest.behind, hrest.settled, List.forall_mem_cons.2 ⟨?_, hrest.fed⟩⟩
    exact (hstep.fed p List.mem_cons_self).kept hrest.grew.kept

theorem goesBack (hsound : near.Sound rules)
    (hnear : ∀ i r, rules[i]? = some r → near .antecedent i = neighborsAmong rules r .antecedent strategy)
    (depth : Nat) :
    GoesBack rules strategy root near depth := by
  induction depth with
  | zero =>
    intro g id n chain isOpen h _ _ _ _ hsize _
    have := h.size_le
    omega
  | succ depth ih =>
    intro g id n chain isOpen h hb hn he hchain hsize hs
    rw [growBackward_succ hn he, hnear n.ruleId n.rule (h.rule id n hn)]
    have hmark : Grew rules g (g.update id fun n => { n with expandedBackward := true }) :=
      ⟨h.update Node.alike_expandedBackward, extends_update Node.alike_expandedBackward⟩
    have hstart : (g.update id fun n => { n with expandedBackward := true }).Settled rules strategy
        fun i => isOpen i ∨ i = id :=
      hs.kept hmark.kept (fun _ h => h) fun i hi => .inl (by rwa [size_update] at hi)
    have hmarked : (g.update id fun n => { n with expandedBackward := true }).node? id =
        some { n with expandedBackward := true } := by
      rw [node?_update, if_pos rfl, hn]
      rfl
    have hgone := ih.growSteps (n := { n with expandedBackward := true }) hsound (fun _ h => h) hmark.regular
      (hb.mark id) hmarked (fun x hx => hmark.kept.reaches (hchain x hx)) (by rw [size_update]; omega) hstart
    refine ⟨hmark.trans hgone.grew, hgone.behind, fun i m hm => ?_, by simp⟩
    rcases hgone.settled i m hm with (hopen | rfl) | hdone
    · exact .inl hopen
    · -- By now the node itself has all its producers.
      obtain ⟨n', hn', hkept⟩ := hgone.grew.kept i _ hmarked
      rw [hm] at hn'
      cases hn'
      refine .inr ⟨hkept.expanded rfl, fun p hp => ?_⟩
      rw [hkept.rule] at hp
      obtain ⟨n', hn', hfed⟩ := hgone.fed p hp
      rw [hm] at hn'
      cases hn'
      exact hfed
    · exact .inr hdone

end GoesBack

/-- The graph behind a goal is what it should be, and each of its nodes has every producer it can have. -/
theorem ofGoal_backward {near : Neighborhood} {r : Rule} (hsound : near.Sound rules)
    (hnear : ∀ i r, rules[i]? = some r → near .antecedent i = neighborsAmong rules r .antecedent strategy)
    (hr : rules[root]? = some r) :
    (ofGoal near (rules.length + 1) root r).Backward rules strategy root ∧
      ∀ i n, (ofGoal near (rules.length + 1) root r).node? i = some n →
        (ofGoal near (rules.length + 1) root r).Linked rules strategy n := by
  have honly {i : NodeId} {n : Node} (h : (ofStart root r .backward).node? i = some n) :
      i = 0 ∧ n = .ofRule root r .backward := by
    obtain rfl : i = 0 := Nat.lt_one_iff.1 (lt_size h)
    exact ⟨rfl, (Option.some.inj h).symm⟩
  have hb : (ofStart root r .backward).Behind strategy root := by
    refine ⟨⟨_, rfl, rfl⟩, fun i n hn => ?_, fun c n d m loops found hn _ hget => ?_⟩
    · obtain ⟨rfl, rfl⟩ := honly hn
      exact ⟨rfl, rfl, fun h => absurd rfl h⟩
    · rw [(honly hn).2, (ofRule_links loops d).1] at hget
      cases hget
  have hchain : ∀ x ∈ [0], Relation.ReflTransGen (ofStart root r .backward).Feeds 0 x :=
    List.forall_mem_singleton.2 .refl
  have hgone := goesBack hsound hnear (rules.length + 1) (ofStart root r .backward) 0 _ [0] (fun _ => False)
    (regular_ofStart .backward hr) hb rfl rfl hchain (Nat.le_add_right _ _) fun i n hn => .inl (.inr (honly hn).1)
  refine ⟨hgone.grew.regular.backward hgone.behind, fun i n hn => ?_⟩
  exact ((hgone.settled i n hn).resolve_left id).2


/-! ## What lasts while a graph grows -/

/-- What growing back keeps: marks, new producers and links with them. -/
structure LastsBack (near : Neighborhood) (P : Graph → Prop) : Prop where
  mark : ∀ g id, P g → P (g.update id fun n => { n with expandedBackward := true })
  add : ∀ g i p, p ∈ near .antecedent i → P g → P (g.add (.ofRule p.id p.rule .backward))
  link : ∀ g c n d m p cyclic, g.node? c = some n → g.node? d = some m → p ∈ near .antecedent n.ruleId →
    m.ruleId = p.id → P g → P (g.link d c p.found cyclic)

/-- What growing on keeps too: marks, new consumers and links with them. -/
structure LastsOn (near : Neighborhood) (P : Graph → Prop) : Prop extends LastsBack near P where
  markOn : ∀ g id, P g → P (g.update id fun n => { n with expandedForward := true })
  addOn : ∀ g i p, p ∈ near .consequent i → P g → P (g.add (.ofRule p.id p.rule .forward))
  linkOn : ∀ g c n d m p cyclic, g.node? c = some n → g.node? d = some m → p ∈ near .consequent m.ruleId →
    n.ruleId = p.id → P g → P ((g.link d c (MatchSet.inverse p.found) cyclic).update c (·.addTrigger d))

section Lasts

variable {near : Neighborhood} {P : Graph → Prop}

/-- A node of the graph stays one of its rule. -/
theorem Extends.exists_node {g' : Graph} {id : NodeId} {n : Node} (h : g.Extends g') (hn : g.node? id = some n) :
    ∃ n', g'.node? id = some n' ∧ n'.ruleId = n.ruleId := by
  obtain ⟨n', hn', hkept⟩ := h id n hn
  exact ⟨n', hn', hkept.ruleId⟩

theorem LastsBack.growStep {depth : Nat} {id : NodeId} {n : Node} {p : Neighbor} (h : LastsBack near P)
    (hgrow : ∀ (g : Graph) (id : NodeId) (chain : List NodeId) (skip : Option RuleId), P g →
      P (growBackward near depth g id chain skip) ∧ g.Extends (growBackward near depth g id chain skip))
    (chain : List NodeId) (skip : Option RuleId) (hn : g.node? id = some n) (hp : p ∈ near .antecedent n.ruleId)
    (hP : P g) :
    P (growStep near depth id chain skip g p) ∧ g.Extends (growStep near depth id chain skip g p) := by
  unfold Graph.growStep
  split
  · exact ⟨hP, Extends.refl g⟩
  · split
    · next d hd =>
      obtain ⟨m, hm, hmid⟩ := nodeOf?_eq_some hd
      exact ⟨h.link _ _ _ _ m p _ hn hm hp hmid hP, extends_link⟩
    · have hlinked : P (g.withProducer id p) :=
        h.link _ _ _ _ _ p false (node?_add_of hn) (node?_add_self g _) hp rfl (h.add g _ p hp hP)
      have hext : g.Extends (g.withProducer id p) := (extends_add g _).trans extends_link
      obtain ⟨hgrown, hext'⟩ := hgrow _ g.size (g.size :: chain) none hlinked
      exact ⟨hgrown, hext.trans hext'⟩

theorem LastsBack.growBackward (h : LastsBack near P) (depth : Nat) :
    ∀ (g : Graph) (id : NodeId) (chain : List NodeId) (skip : Option RuleId), P g →
      P (growBackward near depth g id chain skip) ∧ g.Extends (growBackward near depth g id chain skip) := by
  induction depth with
  | zero => exact fun g _ _ _ hP => ⟨hP, Extends.refl g⟩
  | succ depth ih =>
    intro g id chain skip hP
    cases hn : g.node? id with
    | none =>
      rw [Graph.growBackward, hn]
      exact ⟨hP, Extends.refl g⟩
    | some n =>
      cases he : n.expandedBackward with
      | true =>
        rw [Graph.growBackward, hn]
        simp only [he, if_true]
        exact ⟨hP, Extends.refl g⟩
      | false =>
        rw [growBackward_succ hn he]
        refine List.foldlRecOn (motive := fun g₁ => P g₁ ∧ g.Extends g₁) _ _
          ⟨h.mark g id hP, extends_update Node.alike_expandedBackward⟩ ?_
        rintro g₁ ⟨hP₁, hext⟩ p hp
        obtain ⟨n₁, hn₁, hid⟩ := hext.exists_node hn
        obtain ⟨hP₂, hext₂⟩ := h.growStep ih chain skip hn₁ (by rwa [hid]) hP₁
        exact ⟨hP₂, hext.trans hext₂⟩

theorem LastsOn.withHelpers (h : LastsOn near P) (limit : Nat) (ruleId : RuleId) (c : NodeId) (p : Neighbor)
    (hP : P g) :
    P (withHelpers near limit ruleId g c p) ∧ g.Extends (withHelpers near limit ruleId g c p) := by
  unfold Graph.withHelpers
  split
  · exact ⟨hP, Extends.refl g⟩
  · exact h.toLastsBack.growBackward limit _ _ _ _ hP

theorem LastsOn.growOnStep {limit depth : Nat} {id : NodeId} {n : Node} {p : Neighbor} (h : LastsOn near P)
    (hgrow : ∀ (g : Graph) (id : NodeId) (chain : List NodeId), P g →
      P (growForward near limit depth g id chain) ∧ g.Extends (growForward near limit depth g id chain))
    (chain : List NodeId) (ruleId : RuleId) (hn : g.node? id = some n) (hp : p ∈ near .consequent n.ruleId) (hP : P g) :
    P (growOnStep near limit depth id chain ruleId g p) ∧
      g.Extends (growOnStep near limit depth id chain ruleId g p) := by
  unfold Graph.growOnStep
  split
  · next c hc =>
    obtain ⟨m, hm, hmid⟩ := nodeOf?_eq_some hc
    exact ⟨h.linkOn _ _ m _ _ p _ hm hn hp hmid hP, extends_link.trans (extends_update (Node.alike_addTrigger id))⟩
  · have hlinked : P (g.withConsumer id p) :=
      h.linkOn _ _ _ _ _ p false (node?_add_self g _) (node?_add_of hn) hp rfl (h.addOn g _ p hp hP)
    have hext : g.Extends (g.withConsumer id p) :=
      ((extends_add g _).trans extends_link).trans (extends_update (Node.alike_addTrigger id))
    obtain ⟨hhelped, hext'⟩ := h.withHelpers limit ruleId g.size p hlinked
    obtain ⟨hgrown, hext''⟩ := hgrow _ g.size (g.size :: chain) hhelped
    exact ⟨hgrown, (hext.trans hext').trans hext''⟩

theorem LastsOn.growForward (h : LastsOn near P) (limit depth : Nat) :
    ∀ (g : Graph) (id : NodeId) (chain : List NodeId), P g →
      P (growForward near limit depth g id chain) ∧ g.Extends (growForward near limit depth g id chain) := by
  induction depth with
  | zero => exact fun g _ _ hP => ⟨hP, Extends.refl g⟩
  | succ depth ih =>
    intro g id chain hP
    cases hn : g.node? id with
    | none =>
      rw [Graph.growForward, hn]
      exact ⟨hP, Extends.refl g⟩
    | some n =>
      cases he : n.expandedForward with
      | true =>
        rw [Graph.growForward, hn]
        simp only [he, if_true]
        exact ⟨hP, Extends.refl g⟩
      | false =>
        rw [growForward_succ hn he]
        refine List.foldlRecOn (motive := fun g₁ => P g₁ ∧ g.Extends g₁) _ _
          ⟨h.markOn g id hP, extends_update Node.alike_expandedForward⟩ ?_
        rintro g₁ ⟨hP₁, hext⟩ p hp
        obtain ⟨n₁, hn₁, hid⟩ := hext.exists_node hn
        obtain ⟨hP₂, hext₂⟩ := h.growOnStep ih chain n.ruleId hn₁ (by rwa [hid]) hP₁
        exact ⟨hP₂, hext.trans hext₂⟩

end Lasts

/-! ## The rules of a graph -/

/-- All rules that take part satisfy `P`, each as the node that it is. -/
def RulesIn (P : NodeId → RuleId → Rule → Prop) (g : Graph) : Prop := ∀ i n, g.node? i = some n → P i n.ruleId n.rule

section RulesIn

variable {P : NodeId → RuleId → Rule → Prop} {near : Neighborhood}

theorem RulesIn.update {id : NodeId} {f : Node → Node} (h : g.RulesIn P) (hf : ∀ n : Node, n.Alike (f n)) :
    (g.update id f).RulesIn P := by
  intro i n hn
  obtain ⟨m, hm, halike⟩ := exists_of_node?_update hf hn
  rw [halike.ruleId, halike.rule]
  exact h i m hm

theorem RulesIn.add {ruleId : RuleId} {r : Rule} {d : Direction} (h : g.RulesIn P) (hr : P g.size ruleId r) :
    (g.add (.ofRule ruleId r d)).RulesIn P := by
  intro i n hn
  rcases node?_add_cases hn with hn | ⟨rfl, rfl⟩
  · exact h i n hn
  · exact hr

theorem RulesIn.link {d c : NodeId} {found : MatchSet} {cyclic : Bool} (h : g.RulesIn P) :
    (g.link d c found cyclic).RulesIn P := by
  intro i n hn
  obtain ⟨m, hm, rfl⟩ := exists_of_node?_link hn
  rw [Node.relink_ruleId, Node.relink_rule]
  exact h i m hm

theorem rulesIn_ofStart {root : RuleId} {r : Rule} (d : Direction) (h : P 0 root r) : (ofStart root r d).RulesIn P := by
  intro i n hn
  obtain rfl : i = 0 := Nat.lt_one_iff.1 (lt_size hn)
  cases hn
  exact h

theorem rulesIn_lastsBack (hnear : ∀ i, ∀ p ∈ near .antecedent i, ∀ x, P x p.id p.rule) :
    LastsBack near (RulesIn P) where
  mark _ _ h := h.update Node.alike_expandedBackward
  add _ _ p hp h := h.add (hnear _ p hp _)
  link _ _ _ _ _ _ _ _ _ _ _ h := h.link

theorem rulesIn_lastsOn (hnear : ∀ side i, ∀ p ∈ near side i, ∀ x, P x p.id p.rule) : LastsOn near (RulesIn P) where
  toLastsBack := rulesIn_lastsBack (hnear .antecedent)
  markOn _ _ h := h.update Node.alike_expandedForward
  addOn _ _ p hp h := h.add (hnear _ _ p hp _)
  linkOn _ _ _ d _ _ _ _ _ _ _ h := RulesIn.update h.link (Node.alike_addTrigger d)

end RulesIn

end Graph

end TripleChain
