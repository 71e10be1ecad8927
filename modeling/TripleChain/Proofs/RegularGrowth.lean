import TripleChain.Proofs.GraphShape
/-!
# Growth keeps the shape

Both ways to grow a graph are made of marks, new nodes and links, so that they keep it regular (`Graph.growsBack`,
`Graph.growsOn`). What decides on loops is right each time: the nodes on the way from the start are some of those that
data flow to or from.

The depth that growth is allowed is never used up, since there are no more nodes than rules: more depth makes no
difference.
-/

namespace TripleChain

theorem mem_neighborsAmong {rules : List Rule} {r : Rule} {side : Side} {strategy : Strategy} {p : Neighbor} :
    p ∈ neighborsAmong rules r side strategy ↔
      rules[p.id]? = some p.rule ∧ p.rule.isProactive = false ∧ p.found = r.facing p.rule side strategy ∧
        p.found.isEmpty = false := by
  rw [neighborsAmong, List.mem_filterMap]
  constructor
  · rintro ⟨⟨q, i⟩, hmem, heq⟩
    have hget := List.mem_zipIdx_iff_getElem?.1 hmem
    unfold neighborOf? at heq
    dsimp only at heq
    split at heq
    · cases heq
    · next hp =>
      split at heq
      · cases heq
      · next hf =>
        cases heq
        exact ⟨hget, by simpa using hp, rfl, by simpa using hf⟩
  · rintro ⟨hget, hp, hf, he⟩
    refine ⟨(p.rule, p.id), List.mem_zipIdx_iff_getElem?.2 hget, ?_⟩
    simp only [neighborOf?, hp, Bool.false_eq_true, if_false, ← hf, he]

/-- The neighbours of a rule of a store are those among its rules. -/
theorem RuleStore.mem_neighbors {s : RuleStore} {x : RuleId} {side : Side} {strategy : Strategy} {y : Neighbor} :
    y ∈ (s.neighbors? ⟨x, side, strategy⟩).getD [] ↔
      ∃ r, s.rules[x]? = some r ∧ y ∈ neighborsAmong s.rules r side strategy := by
  rw [s.neighbors?_eq, neighborsIn?]
  cases s.rules[x]? <;> simp

/-- The neighbour is a rule of the store, and the matches with it are proper. -/
structure Neighbor.Sound (rules : List Rule) (p : Neighbor) : Prop where
  rule : rules[p.id]? = some p.rule
  proper : p.found.Proper

theorem Neighbor.sound_of_mem {rules : List Rule} {r : Rule} {side : Side} {strategy : Strategy} {p : Neighbor}
    (h : p ∈ neighborsAmong rules r side strategy) : p.Sound rules := by
  obtain ⟨hrule, _, hfound, _⟩ := mem_neighborsAmong.1 h
  refine ⟨hrule, ?_⟩
  rw [hfound]
  cases side <;> exact findMatches_proper

/-- All neighbours are sound. -/
def Graph.Neighborhood.Sound (rules : List Rule) (near : Graph.Neighborhood) : Prop :=
  ∀ side i, ∀ p ∈ near side i, p.Sound rules

/-- The neighbours of the rules of a store under a strategy. -/
def RuleStore.near (s : RuleStore) (strategy : Strategy) : Graph.Neighborhood := fun side x =>
  (s.neighbors? ⟨x, side, strategy⟩).getD []

theorem RuleStore.sound_near (s : RuleStore) (strategy : Strategy) : (s.near strategy).Sound s.rules := by
  intro side x p hp
  obtain ⟨_, _, hmem⟩ := RuleStore.mem_neighbors.1 hp
  exact Neighbor.sound_of_mem hmem

/-- One match covers the whole antecedent of a consumer. -/
def Neighbor.covered (c : Neighbor) : Bool := c.found.any fun m => m.size == c.rule.antecedent.size

/-- Two folds that take the same steps from wherever the one gets to. -/
theorem foldl_agree {α β : Type} {P : α → Prop} {f f' : α → β → α} {l : List β}
    (h : ∀ a, P a → ∀ b ∈ l, f' a b = f a b ∧ P (f a b)) {a : α} (ha : P a) :
    l.foldl f' a = l.foldl f a ∧ P (l.foldl f a) := by
  induction l generalizing a with
  | nil => exact ⟨rfl, ha⟩
  | cons b l ih =>
    obtain ⟨heq, hb⟩ := h a ha b List.mem_cons_self
    rw [List.foldl_cons, List.foldl_cons, heq]
    exact ih (fun a ha b hb => h a ha b (List.mem_cons_of_mem _ hb)) hb

namespace Graph

variable {rules : List Rule} {near : Neighborhood} {g g' g'' : Graph} {id : NodeId}

/-- A regular graph that has kept what another one had. -/
structure Grew (rules : List Rule) (g g' : Graph) : Prop where
  regular : g'.Regular rules
  kept : g.Extends g'

theorem Grew.trans (h : Grew rules g g') (h' : Grew rules g' g'') : Grew rules g g'' :=
  ⟨h'.regular, h.kept.trans h'.kept⟩

/-- All that is new feeds the node that it has grown from. -/
structure GrewBack (rules : List Rule) (id : NodeId) (g g' : Graph) : Prop extends Grew rules g g' where
  reaching : ∀ i, i < g'.size → i < g.size ∨ Relation.ReflTransGen g'.Feeds i id

theorem GrewBack.trans (h : GrewBack rules id g g') (h' : GrewBack rules id g' g'') : GrewBack rules id g g'' := by
  refine ⟨h.toGrew.trans h'.toGrew, fun i hi => ?_⟩
  rcases h'.reaching i hi with hi | hpath
  · exact (h.reaching i hi).imp_right h'.kept.reaches
  · exact .inr hpath

/-- The graph with a new producer of a node. -/
def withProducer (g : Graph) (id : NodeId) (p : Neighbor) : Graph :=
  (g.add (.ofRule p.id p.rule .backward)).link g.size id p.found false

theorem size_withProducer (g : Graph) (id : NodeId) (p : Neighbor) : (g.withProducer id p).size = g.size + 1 := by
  rw [withProducer, size_link, size_add]

/-- What looking for the producers of a node does with one neighbour. -/
def growStep (near : Neighborhood) (depth : Nat) (id : NodeId) (chain : List NodeId) (skip : Option RuleId) (g : Graph)
    (p : Neighbor) : Graph :=
  if some p.id = skip then g
  else
    match g.nodeOf? p.id with
    | some producer => g.link producer id p.found (chain.contains producer || g.flowsTo id producer)
    | none => growBackward near depth (g.withProducer id p) g.size (g.size :: chain) none

theorem growBackward_succ {near : Neighborhood} {depth : Nat} {id : NodeId} {n : Node} {chain : List NodeId}
    {skip : Option RuleId} (hn : g.node? id = some n) (he : n.expandedBackward = false) :
    growBackward near (depth + 1) g id chain skip =
      (near .antecedent n.ruleId).foldl (growStep near depth id chain skip)
        (g.update id fun n => { n with expandedBackward := true }) := by
  rw [growBackward, hn]
  simp only [he, Bool.false_eq_true, if_false]
  rfl

/-- Growing back to a depth does what it should, and would do the same to any greater depth. -/
def GrowsBack (rules : List Rule) (near : Neighborhood) (depth : Nat) : Prop :=
  ∀ (g : Graph) (id : NodeId) (chain : List NodeId) (skip : Option RuleId) (more : Nat),
    g.Regular rules → id < g.size → (∀ x ∈ chain, Relation.ReflTransGen g.Feeds id x) →
    rules.length + 1 ≤ depth + g.size →
    growBackward near (depth + more) g id chain skip = growBackward near depth g id chain skip ∧
      GrewBack rules id g (growBackward near depth g id chain skip)

/-- A new producer is a step further from the start: it feeds whatever is on the way there. -/
theorem Regular.withProducer {chain : List NodeId} {p : Neighbor} (h : g.Regular rules) (hid : id < g.size)
    (hp : p.Sound rules) (hnone : g.nodeOf? p.id = none)
    (hchain : ∀ x ∈ chain, Relation.ReflTransGen g.Feeds id x) :
    Grew rules g (g.withProducer id p) ∧ (g.withProducer id p).Feeds g.size id ∧
      ∀ x ∈ g.size :: chain, Relation.ReflTransGen (g.withProducer id p).Feeds g.size x := by
  have hkept : g.Extends (g.withProducer id p) := (extends_add g _).trans extends_link
  obtain ⟨n, hn⟩ := exists_node hid
  have hfeeds : (g.withProducer id p).Feeds g.size id := feeds_link (node?_add_of hn)
  refine ⟨⟨h.addProducer .backward hid hp.rule hp.proper hnone, hkept⟩, hfeeds, ?_⟩
  refine List.forall_mem_cons.2 ⟨.refl, fun x hx => ?_⟩
  exact .head hfeeds (hkept.reaches (hchain x hx))

theorem GrowsBack.growStep {depth : Nat} {chain : List NodeId} {p : Neighbor} (hgrows : GrowsBack rules near depth)
    (skip : Option RuleId) (more : Nat) (hp : p.Sound rules) (h : g.Regular rules) (hid : id < g.size)
    (hchain : ∀ x ∈ chain, Relation.ReflTransGen g.Feeds id x) (hsize : rules.length ≤ depth + g.size) :
    growStep near (depth + more) id chain skip g p = growStep near depth id chain skip g p ∧
      GrewBack rules id g (growStep near depth id chain skip g p) := by
  unfold Graph.growStep
  split
  · exact ⟨rfl, ⟨h, Extends.refl g⟩, fun i hi => .inl hi⟩
  · split
    · next d hd =>
      obtain ⟨m, hm, _⟩ := nodeOf?_eq_some hd
      refine ⟨rfl, ⟨h.link (lt_size hm) hid hp.proper (h.cyclic_iff hid (hchain d)), extends_link⟩, fun i hi => ?_⟩
      rw [size_link] at hi
      exact .inl hi
    · next hnone =>
      obtain ⟨hnew, hfeeds, hpath⟩ := h.withProducer hid hp hnone hchain
      have hsize' := g.size_withProducer id p
      obtain ⟨hsame, hgrew⟩ := hgrows _ g.size (g.size :: chain) none more hnew.regular
        (by rw [hsize']; exact Nat.lt_succ_self _) hpath (by rw [hsize']; exact Nat.succ_le_succ hsize)
      refine ⟨hsame, ⟨hgrew.regular, hnew.kept.trans hgrew.kept⟩, fun i hi => ?_⟩
      have hlast := hgrew.kept.feeds hfeeds
      rcases hgrew.reaching i hi with hi | hpath
      · rw [hsize'] at hi
        rcases Nat.lt_succ_iff_lt_or_eq.1 hi with hi | rfl
        · exact .inl hi
        · exact .inr (.single hlast)
      · exact .inr (hpath.tail hlast)

theorem growsBack (hnear : near.Sound rules) (depth : Nat) : GrowsBack rules near depth := by
  induction depth with
  | zero =>
    -- There are no more nodes than rules, so that the depth cannot have been used up.
    intro g id chain skip more h _ _ hsize
    have := h.size_le
    omega
  | succ depth ih =>
    intro g id chain skip more h hid hchain hsize
    obtain ⟨n, hn⟩ := exists_node hid
    rw [Nat.add_right_comm]
    by_cases he : n.expandedBackward = true
    · have hdone (d : Nat) : growBackward near (d + 1) g id chain skip = g := by
        rw [growBackward, hn]
        simp only [he, if_true]
      rw [hdone, hdone]
      exact ⟨rfl, ⟨h, Extends.refl g⟩, fun i hi => .inl hi⟩
    · rw [growBackward_succ hn (by simpa using he), growBackward_succ hn (by simpa using he)]
      have hmark : GrewBack rules id g (g.update id fun n => { n with expandedBackward := true }) := by
        refine ⟨⟨h.update Node.alike_expandedBackward, extends_update Node.alike_expandedBackward⟩, fun i hi => ?_⟩
        rw [size_update] at hi
        exact .inl hi
      refine foldl_agree (P := GrewBack rules id g) (fun g₁ h₁ p hp => ?_) hmark
      have hle := h₁.kept.size_le
      obtain ⟨hsame, hgrew⟩ := ih.growStep skip more (hnear _ _ p hp) h₁.regular (Nat.lt_of_lt_of_le hid hle)
        (fun x hx => h₁.kept.reaches (hchain x hx)) (by omega)
      exact ⟨hsame, h₁.trans hgrew⟩

/-- The graph with a new consumer of a node. -/
def withConsumer (g : Graph) (id : NodeId) (c : Neighbor) : Graph :=
  ((g.add (.ofRule c.id c.rule .forward)).link id g.size (MatchSet.inverse c.found) false).update
    g.size (·.addTrigger id)

theorem size_withConsumer (g : Graph) (id : NodeId) (c : Neighbor) : (g.withConsumer id c).size = g.size + 1 := by
  rw [withConsumer, size_update, size_link, size_add]

/-- The graph in which a new consumer has got its other producers, if it needs any. -/
def withHelpers (near : Neighborhood) (limit : Nat) (ruleId : RuleId) (g : Graph) (consumer : NodeId) (c : Neighbor) :
    Graph :=
  if c.covered then g else growBackward near limit g consumer [consumer] (some ruleId)

/-- What looking for the consumers of a node does with one neighbour. -/
def growOnStep (near : Neighborhood) (limit depth : Nat) (id : NodeId) (chain : List NodeId) (ruleId : RuleId)
    (g : Graph) (c : Neighbor) : Graph :=
  match g.nodeOf? c.id with
  | some consumer =>
    (g.link id consumer (MatchSet.inverse c.found) (chain.contains consumer || g.flowsTo consumer id)).update consumer
      (·.addTrigger id)
  | none =>
    growForward near limit depth (withHelpers near limit ruleId (g.withConsumer id c) g.size c) g.size (g.size :: chain)

theorem growForward_succ {limit depth : Nat} {n : Node} {chain : List NodeId} (hn : g.node? id = some n)
    (he : n.expandedForward = false) :
    growForward near limit (depth + 1) g id chain =
      (near .consequent n.ruleId).foldl (growOnStep near limit depth id chain n.ruleId)
        (g.update id fun n => { n with expandedForward := true }) := by
  rw [growForward, hn]
  simp only [he, Bool.false_eq_true, if_false]
  rfl

/-- Growing on to a depth does what it should, and would do the same to any greater depth. -/
def GrowsOn (rules : List Rule) (near : Neighborhood) (limit depth : Nat) : Prop :=
  ∀ (g : Graph) (id : NodeId) (chain : List NodeId) (more : Nat),
    g.Regular rules → id < g.size → (∀ x ∈ chain, Relation.ReflTransGen g.Feeds x id) →
    rules.length + 1 ≤ depth + g.size →
    growForward near (limit + more) (depth + more) g id chain = growForward near limit depth g id chain ∧
      Grew rules g (growForward near limit depth g id chain)

section GrowOnStep

variable {limit depth : Nat} {c : Neighbor}

/-- A new consumer is fed by the node that it was found from. -/
theorem Regular.withConsumer (h : g.Regular rules) (hid : id < g.size) (hc : c.Sound rules)
    (hnone : g.nodeOf? c.id = none) : Grew rules g (g.withConsumer id c) ∧ (g.withConsumer id c).Feeds id g.size := by
  have hadd := h.addConsumer .forward hid hc.rule hc.proper.inverse hnone
  have hmark := Node.alike_addTrigger id
  refine ⟨⟨hadd.update hmark, ?_⟩, (feeds_update hmark).2 (feeds_link (node?_add_self g _))⟩
  exact ((extends_add g _).trans extends_link).trans (extends_update hmark)

theorem grew_withHelpers (hnear : near.Sound rules) {consumer : NodeId} (ruleId : RuleId) (c : Neighbor) (more : Nat)
    (hlimit : rules.length < limit) (h : g.Regular rules) (hc : consumer < g.size) :
    withHelpers near (limit + more) ruleId g consumer c = withHelpers near limit ruleId g consumer c ∧
      Grew rules g (withHelpers near limit ruleId g consumer c) := by
  unfold withHelpers
  split
  · exact ⟨rfl, h, Extends.refl g⟩
  · have hchain : ∀ x ∈ [consumer], Relation.ReflTransGen g.Feeds consumer x := List.forall_mem_singleton.2 .refl
    obtain ⟨hsame, hgrew⟩ := growsBack hnear limit g consumer [consumer] (some ruleId) more h hc hchain (by omega)
    exact ⟨hsame, hgrew.toGrew⟩

/-- A new consumer with its helpers: the way there is a step longer. -/
theorem Regular.withHelpers {chain : List NodeId} (ruleId : RuleId) (more : Nat) (h : g.Regular rules)
    (hnear : near.Sound rules) (hlimit : rules.length < limit) (hid : id < g.size) (hc : c.Sound rules)
    (hnone : g.nodeOf? c.id = none) (hchain : ∀ x ∈ chain, Relation.ReflTransGen g.Feeds x id) :
    withHelpers near (limit + more) ruleId (g.withConsumer id c) g.size c =
        withHelpers near limit ruleId (g.withConsumer id c) g.size c ∧
      Grew rules g (withHelpers near limit ruleId (g.withConsumer id c) g.size c) ∧
      g.size < (withHelpers near limit ruleId (g.withConsumer id c) g.size c).size ∧
      ∀ x ∈ g.size :: chain,
        Relation.ReflTransGen (withHelpers near limit ruleId (g.withConsumer id c) g.size c).Feeds x g.size := by
  obtain ⟨hnew, hfeeds⟩ := h.withConsumer hid hc hnone
  have hlt : g.size < (g.withConsumer id c).size := by rw [size_withConsumer]; exact Nat.lt_succ_self _
  obtain ⟨hsame, hgrew⟩ := grew_withHelpers hnear ruleId c more hlimit hnew.regular hlt
  refine ⟨hsame, hnew.trans hgrew, Nat.lt_of_lt_of_le hlt hgrew.kept.size_le, ?_⟩
  refine List.forall_mem_cons.2 ⟨.refl, fun x hx => ?_⟩
  exact ((hnew.kept.trans hgrew.kept).reaches (hchain x hx)).tail (hgrew.kept.feeds hfeeds)

theorem GrowsOn.growOnStep {chain : List NodeId} (hgrows : GrowsOn rules near limit depth) (ruleId : RuleId)
    (more : Nat) (hnear : near.Sound rules) (hlimit : rules.length < limit) (hc : c.Sound rules) (h : g.Regular rules)
    (hid : id < g.size) (hchain : ∀ x ∈ chain, Relation.ReflTransGen g.Feeds x id)
    (hsize : rules.length ≤ depth + g.size) :
    growOnStep near (limit + more) (depth + more) id chain ruleId g c =
        growOnStep near limit depth id chain ruleId g c ∧
      Grew rules g (growOnStep near limit depth id chain ruleId g c) := by
  unfold Graph.growOnStep
  split
  · next d hd =>
    obtain ⟨m, hm, _⟩ := nodeOf?_eq_some hd
    have hlink := h.link hid (lt_size hm) hc.proper.inverse (h.cyclic_iff (lt_size hm) (hchain d))
    exact ⟨rfl, hlink.update (Node.alike_addTrigger id), extends_link.trans (extends_update (Node.alike_addTrigger id))⟩
  · next hnone =>
    obtain ⟨hhelp, hgrew, hlt, hpath⟩ := h.withHelpers ruleId more hnear hlimit hid hc hnone hchain
    rw [hhelp]
    obtain ⟨hsame, hon⟩ := hgrows _ g.size (g.size :: chain) more hgrew.regular hlt hpath (by omega)
    exact ⟨hsame, hon.regular, hgrew.kept.trans hon.kept⟩

end GrowOnStep

theorem growsOn (hnear : near.Sound rules) {limit : Nat} (hlimit : rules.length < limit) (depth : Nat) :
    GrowsOn rules near limit depth := by
  induction depth with
  | zero =>
    intro g id chain more h _ _ hsize
    have := h.size_le
    omega
  | succ depth ih =>
    intro g id chain more h hid hchain hsize
    obtain ⟨n, hn⟩ := exists_node hid
    rw [Nat.add_right_comm]
    by_cases he : n.expandedForward = true
    · have hdone (l d : Nat) : growForward near l (d + 1) g id chain = g := by
        rw [growForward, hn]
        simp only [he, if_true]
      rw [hdone, hdone]
      exact ⟨rfl, h, Extends.refl g⟩
    · rw [growForward_succ hn (by simpa using he), growForward_succ hn (by simpa using he)]
      have hmark : Grew rules g (g.update id fun n => { n with expandedForward := true }) :=
        ⟨h.update Node.alike_expandedForward, extends_update Node.alike_expandedForward⟩
      refine foldl_agree (P := Grew rules g) (fun g₁ h₁ c hc => ?_) hmark
      have hle := h₁.kept.size_le
      obtain ⟨hsame, hgrew⟩ := ih.growOnStep n.ruleId more hnear hlimit (hnear _ _ c hc) h₁.regular
        (Nat.lt_of_lt_of_le hid hle) (fun x hx => h₁.kept.reaches (hchain x hx)) (by omega)
      exact ⟨hsame, h₁.trans hgrew⟩

/-- The graph behind a goal: all of it leads to the goal, and nothing would be added at a greater depth. -/
theorem ofGoal_regular {root : RuleId} {r : Rule} (hnear : near.Sound rules) (hr : rules[root]? = some r) :
    Grew rules (ofStart root r .backward) (ofGoal near (rules.length + 1) root r) ∧
      (∀ i < (ofGoal near (rules.length + 1) root r).size,
        Relation.ReflTransGen (ofGoal near (rules.length + 1) root r).Feeds i 0) ∧
      ∀ more, ofGoal near (rules.length + 1 + more) root r = ofGoal near (rules.length + 1) root r := by
  have hchain : ∀ x ∈ [0], Relation.ReflTransGen (ofStart root r .backward).Feeds 0 x :=
    List.forall_mem_singleton.2 .refl
  have hgrows (more : Nat) := growsBack hnear (rules.length + 1) (ofStart root r .backward) 0 [0] none more
    (regular_ofStart .backward hr) Nat.zero_lt_one hchain (Nat.le_add_right _ _)
  obtain ⟨hgrew, hreaching⟩ := (hgrows 0).2
  refine ⟨hgrew, fun i hi => ?_, fun more => (hgrows more).1⟩
  rcases hreaching i hi with hstart | hpath
  · rw [Nat.lt_one_iff.1 hstart]
  · exact hpath

/-- The graph that follows from a premise: nothing would be added at a greater depth. -/
theorem ofPremise_regular {root : RuleId} {r : Rule} (hnear : near.Sound rules) (hr : rules[root]? = some r) :
    Grew rules (ofStart root r .forward) (ofPremise near (rules.length + 1) root r) ∧
      ∀ more, ofPremise near (rules.length + 1 + more) root r = ofPremise near (rules.length + 1) root r := by
  have hchain : ∀ x ∈ [0], Relation.ReflTransGen (ofStart root r .forward).Feeds x 0 :=
    List.forall_mem_singleton.2 .refl
  have hgrows (more : Nat) := growsOn hnear (Nat.lt_succ_self _) (rules.length + 1) (ofStart root r .forward) 0 [0] more
    (regular_ofStart .forward hr) Nat.zero_lt_one hchain (Nat.le_add_right _ _)
  exact ⟨(hgrows 0).2, fun more => (hgrows more).1⟩

end Graph

end TripleChain
