import TripleChain.Proofs.Sessions
/-!
# How far forward chaining reaches

Growth from a premise goes on from each new consumer, so that every node of the forward direction has all consumers of
its rule in the graph (`Graph.ofPremise_onward`). Helpers are of the other direction, and nothing goes on from them, not
even where a helper turns out to be a consumer later. So all rules that the premise leads to take part if no helpers are
needed (`Plan.reaches_of_covered`), and otherwise it depends on the order of the rules whether they do
(`Session.reaches_iff`).
-/

namespace TripleChain

namespace Graph

variable {rules : List Rule} {near : Neighborhood} {g g' g'' : Graph} {id : NodeId}

/-- The rule has a node. -/
def Has (g : Graph) (x : RuleId) : Prop := ∃ i n, g.node? i = some n ∧ n.ruleId = x

theorem Has.kept {x : RuleId} (h : g.Has x) (hg : g.Extends g') : g'.Has x := by
  obtain ⟨i, n, hn, rfl⟩ := h
  obtain ⟨n', hn', hkept⟩ := hg i n hn
  exact ⟨i, n', hn', hkept.ruleId⟩

/-! ## Helpers -/

/-- Only nodes of the backward direction are new, and nothing has gone on from the old ones meanwhile. -/
structure Aside (g g' : Graph) : Prop where
  kept : g.Extends g'
  untouched : ∀ i n n', g.node? i = some n → g'.node? i = some n' → n'.expandedForward = n.expandedForward
  fresh : ∀ i n', g'.node? i = some n' → i < g.size ∨ n'.direction = .backward

theorem Aside.refl (g : Graph) : g.Aside g := by
  refine ⟨Extends.refl g, fun i n n' hn hn' => ?_, fun i n' hn' => .inl (lt_size hn')⟩
  rw [hn] at hn'
  cases hn'
  rfl

theorem Aside.trans (h : g.Aside g') (h' : g'.Aside g'') : g.Aside g'' := by
  refine ⟨h.kept.trans h'.kept, fun i n k hn hk => ?_, fun i k hk => ?_⟩
  · obtain ⟨m, hm, _⟩ := h.kept i n hn
    exact (h'.untouched i m k hm hk).trans (h.untouched i n m hn hm)
  · rcases h'.fresh i k hk with hi | hback
    · obtain ⟨m, hm⟩ := exists_node hi
      obtain ⟨k', hk', hkept⟩ := h'.kept i m hm
      rw [hk] at hk'
      cases hk'
      rw [hkept.direction]
      exact h.fresh i m hm
    · exact .inr hback

theorem aside_mark (g : Graph) (id : NodeId) : g.Aside (g.update id fun n => { n with expandedBackward := true }) := by
  refine ⟨extends_update Node.alike_expandedBackward, fun i n n' hn hn' => ?_, fun i n' hn' => .inl ?_⟩
  · rw [node?_update, hn] at hn'
    split at hn' <;> cases hn' <;> rfl
  · have hlt := lt_size hn'
    rwa [size_update] at hlt

theorem aside_link (g : Graph) (d c : NodeId) (found : MatchSet) (cyclic : Bool) :
    g.Aside (g.link d c found cyclic) := by
  refine ⟨extends_link, fun i n n' hn hn' => ?_, fun i n' hn' => .inl ?_⟩
  · rw [node?_link_of hn] at hn'
    cases hn'
    exact Node.relink_expandedForward ..
  · have hlt := lt_size hn'
    rwa [size_link] at hlt

theorem aside_add (g : Graph) (ruleId : RuleId) (r : Rule) : g.Aside (g.add (.ofRule ruleId r .backward)) := by
  refine ⟨extends_add g _, fun i n n' hn hn' => ?_, fun i n' hn' => ?_⟩
  · rw [node?_add_of hn] at hn'
    cases hn'
    rfl
  · rcases node?_add_cases hn' with hn' | ⟨_, rfl⟩
    · exact .inl (lt_size hn')
    · exact .inr rfl

theorem aside_lastsBack (near : Neighborhood) (g : Graph) : LastsBack near g.Aside where
  mark _ _ h := h.trans (aside_mark _ _)
  add _ _ _ _ h := h.trans (aside_add _ _ _)
  link _ _ _ _ _ _ _ _ _ _ _ h := h.trans (aside_link _ _ _ _ _)

/-! ## Going on -/

/-- Every node of the forward direction has all consumers of its rule in the graph, apart from open ones. -/
def Onward (near : Neighborhood) (isOpen : NodeId → Prop) (g : Graph) : Prop :=
  ∀ i n, g.node? i = some n → n.direction = .forward → isOpen i ∨ ∀ c ∈ near .consequent n.ruleId, g.Has c.id

theorem Onward.kept {isOpen isOpen' : NodeId → Prop} (h : Onward near isOpen g) (hg : g.Extends g')
    (hopen : ∀ i, isOpen i → isOpen' i)
    (hnew : ∀ i n', g'.node? i = some n' → n'.direction = .forward → isOpen' i ∨ i < g.size) :
    Onward near isOpen' g' := by
  intro i n' hn' hforward
  rcases hnew i n' hn' hforward with hi | hi
  · exact .inl hi
  · obtain ⟨n, hn⟩ := exists_node hi
    obtain ⟨m, hm, hkept⟩ := hg i n hn
    rw [hn'] at hm
    cases hm
    rw [hkept.ruleId]
    exact (h i n hn (hkept.direction.symm.trans hforward)).imp (hopen i) fun hall c hc => (hall c hc).kept hg

/-- What going on from a node through some of its neighbours comes to. -/
structure GoneOn (rules : List Rule) (near : Neighborhood) (isOpen : NodeId → Prop) (l : List Neighbor) (g g' : Graph) :
    Prop where
  grew : Grew rules g g'
  onward : Onward near isOpen g'
  has : ∀ c ∈ l, g'.Has c.id

/-- Growing on to a depth from a node that nothing has gone on from yet. -/
def GoesOn (rules : List Rule) (near : Neighborhood) (limit depth : Nat) : Prop :=
  ∀ (g : Graph) (id : NodeId) (n : Node) (chain : List NodeId) (isOpen : NodeId → Prop),
    g.Regular rules → g.node? id = some n → n.expandedForward = false →
    (∀ x ∈ chain, Relation.ReflTransGen g.Feeds x id) → rules.length + 1 ≤ depth + g.size →
    Onward near (fun i => isOpen i ∨ i = id) g → Onward near isOpen (growForward near limit depth g id chain)

section GoesOn

variable {limit depth : Nat} {chain : List NodeId} {ruleId : RuleId} {isOpen : NodeId → Prop} {c : Neighbor}

theorem exists_withConsumer (g : Graph) (id : NodeId) (c : Neighbor) :
    ∃ n, (g.withConsumer id c).node? g.size = some n ∧ n.ruleId = c.id ∧ n.expandedForward = false := by
  unfold withConsumer
  rw [node?_update, if_pos rfl, node?_link_of (node?_add_self g _)]
  exact ⟨_, rfl, Node.relink_ruleId .., Node.relink_expandedForward ..⟩

theorem aside_withHelpers (near : Neighborhood) (limit : Nat) (ruleId : RuleId) (g : Graph) (consumer : NodeId)
    (c : Neighbor) : g.Aside (withHelpers near limit ruleId g consumer c) := by
  unfold withHelpers
  split
  · exact Aside.refl _
  · exact ((aside_lastsBack near _).growBackward limit _ _ _ _ (Aside.refl _)).1

/-- Growth does not have to go on from the helpers of a new consumer, only from the consumer. -/
theorem Onward.withHelpers (h : Onward near isOpen g)
    (hg : g.Extends (withHelpers near limit ruleId (g.withConsumer id c) g.size c)) :
    Onward near (fun i => isOpen i ∨ i = g.size) (withHelpers near limit ruleId (g.withConsumer id c) g.size c) := by
  refine h.kept hg (fun _ => .inl) fun i n' hn' hforward => ?_
  rcases (aside_withHelpers near limit ruleId _ g.size c).fresh i n' hn' with hi | hback
  · rw [size_withConsumer] at hi
    rcases Nat.lt_succ_iff_lt_or_eq.1 hi with hi | hi
    · exact .inr hi
    · exact .inl (.inr hi)
  · rw [hforward] at hback
    cases hback

theorem GoesOn.growOnStep (hgoes : GoesOn rules near limit depth) (ruleId : RuleId) (hnear : near.Sound rules)
    (hlimit : rules.length < limit) (hc : c.Sound rules) (h : g.Regular rules) (hid : id < g.size)
    (hchain : ∀ x ∈ chain, Relation.ReflTransGen g.Feeds x id) (hsize : rules.length ≤ depth + g.size)
    (hopen : Onward near isOpen g) :
    GoneOn rules near isOpen [c] g (Graph.growOnStep near limit depth id chain ruleId g c) := by
  have hgrew : Grew rules g (Graph.growOnStep near limit depth id chain ruleId g c) :=
    ((growsOn hnear hlimit depth).growOnStep ruleId 0 hnear hlimit hc h hid hchain hsize).2
  unfold Graph.growOnStep at hgrew ⊢
  split at hgrew
  · next d hd =>
    obtain ⟨m, hm, hrid⟩ := nodeOf?_eq_some hd
    refine ⟨hgrew, ?_, List.forall_mem_singleton.2 (Has.kept ⟨d, m, hm, hrid⟩ hgrew.kept)⟩
    refine hopen.kept hgrew.kept (fun _ hi => hi) fun i n' hn' _ => .inr ?_
    have hlt := lt_size hn'
    rwa [size_update, size_link] at hlt
  · next hnone =>
    obtain ⟨_, hhelp, hlt, hpath⟩ := h.withHelpers ruleId 0 hnear hlimit hid hc hnone hchain
    obtain ⟨n₀, hn₀, hrid, he⟩ := exists_withConsumer g id c
    have haside := aside_withHelpers near limit ruleId (g.withConsumer id c) g.size c
    obtain ⟨n, hn, hkept⟩ := haside.kept g.size n₀ hn₀
    have he' := haside.untouched g.size n₀ n hn₀ hn
    have hon := (growsOn hnear hlimit depth _ g.size (g.size :: chain) 0 hhelp.regular hlt hpath (by omega)).2
    refine ⟨hgrew, ?_, List.forall_mem_singleton.2 (Has.kept ⟨g.size, n, hn, hkept.ruleId.trans hrid⟩ hon.kept)⟩
    exact hgoes _ g.size n (g.size :: chain) isOpen hhelp.regular hn (he'.trans he) hpath (by omega)
      (hopen.withHelpers hhelp.kept)

theorem GoesOn.growOnSteps {l : List Neighbor} (hgoes : GoesOn rules near limit depth) (ruleId : RuleId)
    (hnear : near.Sound rules) (hlimit : rules.length < limit) (hl : ∀ c ∈ l, c.Sound rules) (h : g.Regular rules)
    (hid : id < g.size) (hchain : ∀ x ∈ chain, Relation.ReflTransGen g.Feeds x id)
    (hsize : rules.length ≤ depth + g.size) (hopen : Onward near isOpen g) :
    GoneOn rules near isOpen l g (l.foldl (Graph.growOnStep near limit depth id chain ruleId) g) := by
  induction l generalizing g with
  | nil => exact ⟨⟨h, Extends.refl g⟩, hopen, by simp⟩
  | cons c l ih =>
    have hstep : GoneOn rules near isOpen [c] g (Graph.growOnStep near limit depth id chain ruleId g c) :=
      hgoes.growOnStep ruleId hnear hlimit (hl c List.mem_cons_self) h hid hchain hsize hopen
    have hle := hstep.grew.kept.size_le
    have hrest := ih (fun x hx => hl x (List.mem_cons_of_mem c hx)) hstep.grew.regular (Nat.lt_of_lt_of_le hid hle)
      (fun x hx => hstep.grew.kept.reaches (hchain x hx)) (by omega) hstep.onward
    refine ⟨hstep.grew.trans hrest.grew, hrest.onward, List.forall_mem_cons.2 ⟨?_, hrest.has⟩⟩
    exact (hstep.has c List.mem_cons_self).kept hrest.grew.kept

theorem goesOn (hnear : near.Sound rules) (hlimit : rules.length < limit) (depth : Nat) :
    GoesOn rules near limit depth := by
  induction depth with
  | zero =>
    intro g id n chain isOpen h _ _ _ hsize _
    have := h.size_le
    omega
  | succ depth ih =>
    intro g id n chain isOpen h hn he hchain hsize hopen
    rw [growForward_succ hn he]
    have hmark : Grew rules g (g.update id fun n => { n with expandedForward := true }) :=
      ⟨h.update Node.alike_expandedForward, extends_update Node.alike_expandedForward⟩
    have hstart : Onward near (fun i => isOpen i ∨ i = id)
        (g.update id fun n => { n with expandedForward := true }) := by
      refine hopen.kept hmark.kept (fun _ h => h) fun i n' hn' _ => .inr ?_
      have hlt := lt_size hn'
      rwa [size_update] at hlt
    have hgone := ih.growOnSteps n.ruleId hnear hlimit (hnear .consequent n.ruleId) hmark.regular
      (by rw [size_update]; exact lt_size hn)
      (fun x hx => hmark.kept.reaches (hchain x hx)) (by rw [size_update]; omega) hstart
    -- By now the node itself has all its consumers.
    intro i m hm hforward
    rcases hgone.onward i m hm hforward with (hi | rfl) | hall
    · exact .inl hi
    · obtain ⟨n', hn', hkept⟩ := (hmark.trans hgone.grew).kept i n hn
      rw [hm] at hn'
      cases hn'
      rw [hkept.ruleId]
      exact .inr hgone.has
    · exact .inr hall

end GoesOn

/-- From a premise growth goes on from every node of the forward direction. -/
theorem ofPremise_onward {root : RuleId} {r : Rule} (hnear : near.Sound rules) (hr : rules[root]? = some r) {i : NodeId}
    {n : Node} (hn : (ofPremise near (rules.length + 1) root r).node? i = some n) (hforward : n.direction = .forward) :
    ∀ c ∈ near .consequent n.ruleId, (ofPremise near (rules.length + 1) root r).Has c.id := by
  have hchain : ∀ x ∈ [0], Relation.ReflTransGen (ofStart root r .forward).Feeds x 0 :=
    List.forall_mem_singleton.2 .refl
  have honly : Onward near (fun i => False ∨ i = 0) (ofStart root r .forward) := fun i n hn _ =>
    .inl (.inr (Nat.lt_one_iff.1 (lt_size hn)))
  have hall := goesOn hnear (Nat.lt_succ_self _) (rules.length + 1) (ofStart root r .forward) 0 _ [0] (fun _ => False)
    (regular_ofStart .forward hr) rfl rfl hchain (Nat.le_add_right _ _) honly
  exact (hall i n hn hforward).resolve_left id

/-! ## No helpers -/

/-- All nodes are of the forward direction, and their rules satisfy `P`. -/
def Straight (P : RuleId → Prop) (g : Graph) : Prop := ∀ i n, g.node? i = some n → P n.ruleId ∧ n.direction = .forward

theorem Straight.update {P : RuleId → Prop} {f : Node → Node} (h : g.Straight P) (hf : ∀ n : Node, n.Alike (f n)) :
    (g.update id f).Straight P := by
  intro i x hx
  obtain ⟨y, hy, halike⟩ := exists_of_node?_update hf hx
  rw [halike.ruleId, halike.direction]
  exact h i y hy

theorem Straight.link {P : RuleId → Prop} {d c : NodeId} {found : MatchSet} {cyclic : Bool} (h : g.Straight P) :
    (g.link d c found cyclic).Straight P := by
  intro i x hx
  obtain ⟨y, hy, rfl⟩ := exists_of_node?_link hx
  rw [Node.relink_ruleId, Node.relink_direction]
  exact h i y hy

theorem Straight.withConsumer {P : RuleId → Prop} {c : Neighbor} (h : g.Straight P) (hc : P c.id) :
    (g.withConsumer id c).Straight P := by
  refine Straight.update (Straight.link fun i x hx => ?_) (Node.alike_addTrigger id)
  rcases node?_add_cases hx with hx | ⟨_, rfl⟩
  · exact h i x hx
  · exact ⟨hc, rfl⟩

/-- Where each consumer is covered by one match, no helpers are looked for. -/
theorem straight_growForward {P : RuleId → Prop}
    (hP : ∀ x, P x → ∀ c ∈ near .consequent x, P c.id ∧ c.covered = true) (limit depth : Nat) :
    ∀ (g : Graph) (id : NodeId) (chain : List NodeId), g.Straight P →
      (growForward near limit depth g id chain).Straight P := by
  induction depth with
  | zero => exact fun g _ _ h => h
  | succ depth ih =>
    intro g id chain h
    cases hn : g.node? id with
    | none =>
      rw [growForward, hn]
      exact h
    | some n =>
      cases he : n.expandedForward with
      | true =>
        rw [growForward, hn]
        simpa only [he, if_true] using h
      | false =>
        rw [growForward_succ hn he]
        refine List.foldlRecOn _ _ (h.update Node.alike_expandedForward) fun g₁ h₁ c hc => ?_
        obtain ⟨hPc, hcovered⟩ := hP n.ruleId (h id n hn).1 c hc
        unfold growOnStep
        split
        · exact h₁.link.update (Node.alike_addTrigger id)
        · refine ih _ _ _ ?_
          rw [withHelpers, if_pos hcovered]
          exact h₁.withConsumer hPc

end Graph

/-! ## One match covers -/

/-- An antecedent of one triple is covered by each match. -/
theorem Neighbor.covered_of_size_le {rules : List Rule} {r : Rule} {strategy : Strategy} {c : Neighbor}
    (hc : c ∈ neighborsAmong rules r .consequent strategy) (hsize : c.rule.antecedent.size ≤ 1) : c.covered = true := by
  obtain ⟨_, _, hfound, hsome⟩ := mem_neighborsAmong.1 hc
  obtain ⟨m, hm⟩ : ∃ m, m ∈ c.found := List.exists_mem_of_ne_nil _ (by simpa [SortedSet.isEmpty] using hsome)
  have hmem : m ∈ findMatches r.consequent c.rule.antecedent strategy := by rwa [hfound] at hm
  obtain ⟨hpos, hle⟩ := size_le_of_mem_findMatches hmem
  refine List.any_eq_true.2 ⟨m, hm, ?_⟩
  rw [beq_iff_eq]
  omega

/-! ## Plans of a premise -/

/-- One rule leads to another that can consume what it gives. -/
def RuleStore.Leads (s : RuleStore) (strategy : Strategy) (x y : RuleId) : Prop :=
  y ∈ (s.near strategy .consequent x).map Neighbor.id

namespace Plan

variable {s : RuleStore} {id : RuleId} {r : Rule} {o : PlanOptions}

/-- All rules that the start leads to take part in its plan if no consumer among them needs helpers. -/
theorem reaches_of_covered (hr : s.get id = .ok r) (hpremise : r.consequent.isEmpty = false)
    (hsource : r.antecedent.isEmpty = true)
    (hcovered : ∀ x, Relation.ReflTransGen (s.Leads o.strategy) id x →
      ∀ c ∈ s.near o.strategy .consequent x, c.covered = true) :
    ∃ p, build s id o = .ok p ∧ ∀ y, Relation.ReflTransGen (s.Leads o.strategy) id y → p.graph.Has y := by
  obtain ⟨p, hp⟩ := exists_build s id o hr (by rw [hsource, Bool.or_true])
  obtain ⟨r', hr', _, _, _, _, _, _, hgraph⟩ := build_eq_ok hp
  rw [hr] at hr'
  cases hr'
  rw [if_neg (by rw [hpremise]; exact Bool.false_ne_true)] at hgraph
  have hrule := get_eq_ok.1 hr
  have hsame : p.graph = Graph.ofPremise (s.near o.strategy) (s.rules.length + 1) id r := hgraph
  have hstart : (Graph.ofStart id r .forward).Straight (Relation.ReflTransGen (s.Leads o.strategy) id) := by
    intro i n hn
    obtain rfl : i = 0 := Nat.lt_one_iff.1 (Graph.lt_size hn)
    cases hn
    exact ⟨.refl, rfl⟩
  have hstraight : p.graph.Straight (Relation.ReflTransGen (s.Leads o.strategy) id) := by
    rw [hsame]
    refine Graph.straight_growForward (fun x hx c hc => ⟨hx.tail ?_, hcovered x hx c hc⟩) _ _ _ _ _ hstart
    exact List.mem_map_of_mem hc
  refine ⟨p, hp, fun y hy => ?_⟩
  induction hy with
  | refl =>
    rw [hsame]
    exact Graph.Has.kept ⟨0, _, rfl, rfl⟩ (Graph.ofPremise_regular (s.sound_near o.strategy) hrule).1.kept
  | tail _ hlead ih =>
    obtain ⟨c, hc, rfl⟩ := List.mem_map.1 hlead
    obtain ⟨i, n, hn, rfl⟩ := ih
    have hforward := (hstraight i n hn).2
    rw [hsame] at hn ⊢
    exact Graph.ofPremise_onward (s.sound_near o.strategy) hrule hn hforward c hc

end Plan

/-! ## Premises -/

/-- Every rule that a premise leads to takes part in its plan. -/
def Session.Reaches (s : Session) (premise : Pattern) : Prop :=
  ∃ s' p, s.forwardPlan premise = (s', .ok p) ∧
    ∀ y, Relation.ReflTransGen (s'.store.Leads s.settings.strategy) s.store.size y → p.graph.Has y

namespace Session

/-- With antecedents of one triple all rules take part. -/
theorem reaches_of_size_le {s : Session} {premise : Pattern} (h : premise.isEmpty = false)
    (hsize : ∀ r ∈ s.store.rules, r.antecedent.size ≤ 1) : s.Reaches premise := by
  obtain ⟨p, hp, hall⟩ := Plan.reaches_of_covered (o := s.settings.planOptions) (s.get_add (.premise premise h)) h rfl
    fun x _ c hc => by
    obtain ⟨r, _, hmem⟩ := RuleStore.mem_neighbors.1 hc
    refine Neighbor.covered_of_size_le hmem ?_
    rcases s.mem_rules_add.1 (List.mem_of_getElem? (mem_neighborsAmong.1 hmem).1) with hrule | hrule
    · exact hsize _ hrule
    · rw [hrule]
      exact Nat.zero_le 1
  exact ⟨_, p, (s.forwardPlan_eq h).trans (congrArg _ hp), hall⟩

end Session

/-! ## A consumer that is a helper first -/

/-- The rule that gives its consequent whenever its antecedent holds. -/
def Rule.inferring (antecedent consequent : Pattern) (h : consequent.isEmpty = false) : Rule :=
  ⟨none, antecedent, consequent, .transform (.copy (Pattern.vars consequent)), by simp [Role.admits, h]⟩

/-- The rule that hears of its antecedent. -/
def Rule.hearing (antecedent : Pattern) (h : antecedent.isEmpty = false) : Rule :=
  ⟨none, antecedent, ∅, .sink fun _ => .ok (), by simp [Role.admits, h]; rfl⟩

/-- Something holds of two things that are not known yet. -/
def Triple.linking (p : Term) : Triple := ⟨.var ⟨"x"⟩, p, .var ⟨"y"⟩⟩

/-- The first rule can use a premise about `p` with the help of the second. The second can use it on its own, and
what it gives is for the third. -/
def RuleStore.detour : RuleStore :=
  ⟨[.inferring (.ofList [.linking (.var ⟨"k"⟩), .linking (.iri "q")]) (.singleton (.linking (.iri "t"))) rfl,
    .inferring (.singleton (.linking (.iri "p"))) (.ofList [.linking (.iri "r"), .linking (.iri "q")]) rfl,
    .hearing (.ofList [.linking (.iri "r"), .linking (.iri "q")]) rfl], [], by simp⟩

namespace Session

/-- A session with the rules of `RuleStore.detour`. -/
def detour (strategy : Strategy) : Session := ⟨.detour, { Settings.standard with strategy }, .standard⟩

/-- The premise is used by the first rule and by the second, whose node is there by then: it has been made to help the
first. So nothing goes on from it to the third. -/
theorem detour_not_reaches (strategy : Strategy) : ¬ (detour strategy).Reaches (.singleton (.linking (.iri "p"))) := by
  rintro ⟨s', p, hp, hall⟩
  rw [(detour strategy).forwardPlan_eq rfl] at hp
  obtain ⟨rfl, hbuild⟩ := Prod.mk.inj hp
  obtain ⟨r, hr, _, _, _, _, _, _, hgraph⟩ := Plan.build_eq_ok hbuild
  cases hr
  have hpath : Relation.ReflTransGen
      (((detour strategy).add (.premise (.singleton (.linking (.iri "p"))) rfl)).store.Leads strategy) 3 2 := by
    refine .head (b := 1) ?_ (.single ?_) <;> unfold RuleStore.Leads <;> cases strategy <;> decide +kernel
  obtain ⟨i, n, hn, hid⟩ := hall 2 hpath
  have hnone : 2 ∉ p.graph.nodes.map Node.ruleId := by
    rw [hgraph]
    cases strategy <;> decide +kernel
  exact hnone (List.mem_map.2 ⟨n, List.mem_of_getElem? hn, hid⟩)

/-- Under each strategy all rules that a premise leads to take part exactly when no antecedent has more than
one triple. -/
theorem reaches_iff (strategy : Strategy) (k : Nat) :
    (∀ s : Session, s.settings.strategy = strategy → (∀ r ∈ s.store.rules, r.antecedent.size ≤ k) →
      ∀ premise : Pattern, premise.isEmpty = false → s.Reaches premise) ↔ k ≤ 1 := by
  constructor
  · intro hall
    by_contra hk
    have htwo : ∀ r ∈ RuleStore.detour.rules, r.antecedent.size ≤ 2 := by decide
    refine detour_not_reaches strategy (hall (detour strategy) rfl (fun r hr => ?_) _ rfl)
    exact Nat.le_trans (htwo r hr) (Nat.lt_of_not_le hk)
  · exact fun hk s _ hsize premise h => reaches_of_size_le h fun r hr => Nat.le_trans (hsize r hr) hk

/-- So not all rules that a premise leads to take part in every plan. -/
theorem detour_misses : ¬ ∀ (s : Session) (premise : Pattern), premise.isEmpty = false → s.Reaches premise :=
  fun hall => detour_not_reaches .biggest (hall _ _ rfl)

end Session

end TripleChain
