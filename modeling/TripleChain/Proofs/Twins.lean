import TripleChain.Proofs.Completeness
import Mathlib.Logic.Equiv.Basic
/-!
# Graphs behind the same goal

Which nodes the graph behind a goal has and which of them are linked is a matter of the rules alone: two nodes are
linked just when the rules match (`Graph.Whole.hasProducer_iff`), and every node leads to the goal. So the same rules
under other numbers have the same graph with other numbers (`Graph.Whole.exists_twin`). Along twins the nodes have the
same routes, in another order (`Graph.Twin.routes_perm`), and the same gaps (`Graph.Twin.hasGap_eq`).
-/

open Std

namespace TripleChain

/-! ## The same rules under other numbers -/

/-- The rules have been given other numbers. -/
def Renumbers (σ : Equiv.Perm RuleId) (rules rules' : List Rule) : Prop := ∀ i : RuleId, rules'[σ i]? = rules[i]?

theorem Renumbers.symm {σ : Equiv.Perm RuleId} {rules rules' : List Rule} (h : Renumbers σ rules rules') :
    Renumbers σ.symm rules' rules := by
  intro i
  rw [← h, Equiv.apply_symm_apply]

theorem Renumbers.subset {σ : Equiv.Perm RuleId} {rules rules' : List Rule} (h : Renumbers σ rules rules') :
    rules ⊆ rules' := by
  intro r hr
  obtain ⟨i, hi⟩ := List.mem_iff_getElem?.1 hr
  exact List.mem_of_getElem? ((h i).trans hi)

/-- Numbers that are not given may stay as they are; then rules can be added at the end. -/
theorem Renumbers.append {σ : Equiv.Perm RuleId} {rules rules' : List Rule} (h : Renumbers σ rules rules')
    (hbeyond : ∀ i, rules.length ≤ i → σ i = i) (hlength : rules.length = rules'.length) (more : List Rule) :
    Renumbers σ (rules ++ more) (rules' ++ more) := by
  intro i
  by_cases hi : i < rules.length
  · have hi' : σ i < rules'.length := by
      have hsome := h i
      rw [List.getElem?_eq_getElem hi] at hsome
      exact (List.getElem?_eq_some_iff.1 hsome).1
    rw [List.getElem?_append_left hi, List.getElem?_append_left hi', h]
  · have hi := Nat.le_of_not_lt hi
    rw [hbeyond i hi, List.getElem?_append_right hi, List.getElem?_append_right (hlength ▸ hi), hlength]

theorem Renumbers.mem_neighborsAmong {σ : Equiv.Perm RuleId} {rules rules' : List Rule} {r : Rule} {side : Side}
    {strategy : Strategy} {y : Neighbor} (h : Renumbers σ rules rules')
    (hy : y ∈ neighborsAmong rules r side strategy) :
    { y with id := σ y.id } ∈ neighborsAmong rules' r side strategy := by
  obtain ⟨hrule, hrest⟩ := TripleChain.mem_neighborsAmong.1 hy
  exact TripleChain.mem_neighborsAmong.2 ⟨(h y.id).trans hrule, hrest⟩

/-- Zero stays, and the others are shifted. -/
def shifted (σ : Equiv.Perm Nat) : Equiv.Perm Nat where
  toFun
    | 0 => 0
    | i + 1 => σ i + 1
  invFun
    | 0 => 0
    | i + 1 => σ.symm i + 1
  left_inv i := by cases i <;> simp
  right_inv i := by cases i <;> simp

/-- What is in another order has other numbers, and numbers that are not given stay. -/
theorem exists_renumbers {rules rules' : List Rule} (h : rules.Perm rules') :
    ∃ σ, Renumbers σ rules rules' ∧ ∀ i, rules.length ≤ i → σ i = i := by
  induction h with
  | nil => exact ⟨Equiv.refl _, fun _ => rfl, fun _ _ => rfl⟩
  | cons r _ ih =>
    obtain ⟨σ, hσ, hbeyond⟩ := ih
    refine ⟨shifted σ, fun i => ?_, fun i hi => ?_⟩
    · cases i with
      | zero => rfl
      | succ i => exact hσ i
    · cases i with
      | zero => rfl
      | succ i => exact congrArg Nat.succ (hbeyond i (Nat.le_of_succ_le_succ hi))
  | swap r r' l =>
    refine ⟨Equiv.swap 0 1, fun i => ?_, fun i hi => ?_⟩
    · match i with
      | 0 => rfl
      | 1 => rfl
      | i + 2 =>
        have hfixed : Equiv.swap 0 1 (i + 2) = i + 2 := Equiv.swap_apply_of_ne_of_ne (by simp) (by simp)
        rw [hfixed]
        rfl
    · obtain ⟨i, rfl⟩ : ∃ k, i = k + 2 := ⟨i - 2, by rw [List.length_cons, List.length_cons] at hi; omega⟩
      exact Equiv.swap_apply_of_ne_of_ne (by simp) (by simp)
  | trans h₁ _ ih ih' =>
    obtain ⟨σ, hσ, hbeyond⟩ := ih
    obtain ⟨σ', hσ', hbeyond'⟩ := ih'
    refine ⟨σ.trans σ', fun i => (hσ' (σ i)).trans (hσ i), fun i hi => ?_⟩
    rw [Equiv.trans_apply, hbeyond i hi, hbeyond' i (h₁.length_eq ▸ hi)]

/-! ## Routes from other nodes -/

/-- The route as far as it makes a difference, from the node that goes under another number. -/
def Route.along (τ : NodeId → NodeId) (r : Route) : Route := ⟨τ r.producer, r.consequent, ⟨r.link.triples, ∅⟩⟩

theorem Route.gives_along (τ : NodeId → NodeId) (r : Route) (strategy : Strategy) (O : Outputs) :
    (r.along τ).gives strategy O = r.gives strategy (O ∘ τ) := by
  have hcarry : SiteBinding.carryThrough (r.along τ).link = SiteBinding.carryThrough r.link :=
    funext fun _ => SiteBinding.carryThrough_congr rfl
  unfold Route.gives
  rw [hcarry]
  rfl

theorem gathered_along (τ : NodeId → NodeId) (strategy : Strategy) (O : Outputs) (routes : List Route) :
    Gathered strategy O (routes.map (Route.along τ)) = Gathered strategy (O ∘ τ) routes := by
  unfold Gathered
  rw [List.foldl_map]
  simp only [Route.gives_along]

namespace Graph

variable {rules rules' : List Rule} {strategy : Strategy} {root : RuleId} {g g' : Graph} {c d : NodeId} {n m : Node}
  {τ : NodeId → NodeId}

/-! ## The graph behind a goal -/

/-- Every link records some match. -/
def Matched (g : Graph) : Prop :=
  ∀ c n loops d found, g.node? c = some n → (n.producerLinks loops).get? d = some found → found.isEmpty = false

theorem matched_lastsBack (s : RuleStore) (strategy : Strategy) : LastsBack (s.near strategy) Matched where
  mark g id h c x loops d found hx hget := by
    obtain ⟨y, hy, halike⟩ := exists_of_node?_update Node.alike_expandedBackward hx
    rw [halike.producerLinks] at hget
    exact h c y loops d found hy hget
  add g i p _ h c x loops d found hx hget := by
    rcases node?_add_cases hx with hx | ⟨_, rfl⟩
    · exact h c x loops d found hx hget
    · rw [(ofRule_links loops d).1] at hget
      cases hget
  link g c n d m p cyclic _ _ hp _ h i x loops j found hx hget := by
    obtain ⟨y, hy, rfl⟩ := exists_of_node?_link hx
    rcases Node.producer_relink_cases hget with hget | ⟨_, _, _, rfl⟩
    · exact h i y loops j found hy hget
    · obtain ⟨_, _, hmem⟩ := RuleStore.mem_neighbors.1 hp
      obtain ⟨_, _, _, hsome⟩ := mem_neighborsAmong.1 hmem
      obtain ⟨link, hlink⟩ := SortedSet.exists_mem hsome
      obtain ⟨link', hlink', _⟩ := SortedSet.exists_mem_insertAll hlink
      exact SortedSet.isEmpty_eq_false hlink'

/-- The graph behind a goal, with nothing missing and nothing besides. -/
structure Whole (rules : List Rule) (strategy : Strategy) (root : RuleId) (g : Graph) : Prop where
  backward : g.Backward rules strategy root
  regular : g.Regular rules
  linked : ∀ i n, g.node? i = some n → g.Linked rules strategy n
  reaching : ∀ i < g.size, Relation.ReflTransGen g.Feeds i 0
  matched : g.Matched
  goal : ∀ n, g.node? 0 = some n → n.rule.consequent.isEmpty = true

/-- The rule of a node that an antecedent matches is a neighbour of the rule with the antecedent. -/
theorem Whole.mem_neighborsAmong {r : Rule} {link : Match} (h : g.Whole rules strategy root) (hm : g.node? d = some m)
    (hlink : link ∈ Facing strategy r m.rule) :
    ⟨m.ruleId, m.rule, findMatches r.antecedent m.rule.consequent strategy⟩ ∈
      neighborsAmong rules r .antecedent strategy := by
  have hd : d ≠ 0 := by
    rintro rfl
    have hmatched := (isEmpty_of_mem_findMatches hlink).2
    rw [h.goal m hm] at hmatched
    cases hmatched
  exact TripleChain.mem_neighborsAmong.2 ⟨h.backward.rule d m hm, (h.backward.kind d m hm).2.2 hd, rfl,
    SortedSet.isEmpty_eq_false hlink⟩

/-- What feeds a node is what its antecedent matches. -/
theorem Whole.hasProducer_iff (h : g.Whole rules strategy root) (hn : g.node? c = some n) (hm : g.node? d = some m) :
    n.HasProducer d ↔ ∃ link, link ∈ Facing strategy n.rule m.rule := by
  constructor
  · rintro ⟨loops, found, hget⟩
    obtain ⟨m', hm', hfaith, _⟩ := h.backward.producer c n loops d found hn hget
    obtain rfl : m = m' := Option.some.inj (hm.symm.trans hm')
    obtain ⟨link, hlink⟩ := SortedSet.exists_mem (h.matched c n loops d found hn hget)
    exact ⟨link, hfaith.sound link hlink⟩
  · rintro ⟨link, hlink⟩
    obtain ⟨e, m', hm', hid, hproducer⟩ := h.linked c n hn _ (h.mem_neighborsAmong hm hlink)
    obtain rfl : e = d := h.backward.once e d m' m hm' hm hid
    exact hproducer

theorem Whole.covers_iff {a : Triple} (h : g.Whole rules strategy root) (hn : g.node? c = some n) :
    n.Covers a ↔ ∃ d m, g.node? d = some m ∧ ∃ link ∈ Facing strategy n.rule m.rule, a ∈ link.sources := by
  constructor
  · rintro ⟨⟨d, found⟩, he, link, hlink, ha⟩
    obtain ⟨loops, hget⟩ := Node.mem_allProducers.1 he
    obtain ⟨m, hm, hfaith, _⟩ := h.backward.producer c n loops d found hn hget
    exact ⟨d, m, hm, link, hfaith.sound link hlink, ha⟩
  · rintro ⟨d, m, hm, link, hlink, ha⟩
    obtain ⟨loops, found, hget⟩ := (h.hasProducer_iff hn hm).2 ⟨link, hlink⟩
    obtain ⟨m', hm', hfaith, _⟩ := h.backward.producer c n loops d found hn hget
    obtain rfl : m = m' := Option.some.inj (hm.symm.trans hm')
    obtain ⟨link', hlink', htriples⟩ := hfaith.complete link hlink
    refine ⟨(d, found), Node.mem_allProducers.2 ⟨loops, hget⟩, link', hlink', ?_⟩
    rwa [Match.sources, htriples]

/-- No node feeds another both over a loop and apart from loops. -/
theorem Whole.nodup_producers (h : g.Whole rules strategy root) (hn : g.node? c = some n) :
    (n.allProducers.map Prod.fst).Nodup := by
  have hkeys : n.allProducers.map Prod.fst = n.producers.keys ++ n.producerLoops.keys := List.map_append
  rw [hkeys, List.nodup_append']
  refine ⟨SortedMap.nodup_keys _, SortedMap.nodup_keys _, fun d hd hloop => ?_⟩
  obtain ⟨found, hget⟩ := SortedMap.mem_keys.1 hd
  obtain ⟨found', hget'⟩ := SortedMap.mem_keys.1 hloop
  obtain ⟨rank, hrank⟩ := h.regular.rank
  -- Data would flow from the consumer to the producer and back.
  have hup {e : NodeId} (hpath : Relation.ReflTransGen g.Feeds c e) : rank c ≤ rank e := by
    induction hpath with
    | refl => exact Nat.le_refl _
    | tail _ hstep ih => exact Nat.le_trans ih (Nat.le_of_lt (hrank _ _ hstep))
  exact Nat.not_lt.2 (hup (h.regular.loop c n d found' hn hget')) (hrank d c ⟨n, hn, found, hget⟩)

/-! ## Routes -/

/-- There is a route for each match of the antecedent. -/
theorem Whole.mem_routes_along {x : Route} (h : g.Whole rules strategy root) (hn : g.node? c = some n) :
    x ∈ (g.routes c n).map (Route.along τ) ↔ ∃ d m, g.node? d = some m ∧ ∃ link ∈ Facing strategy n.rule m.rule,
      x = ⟨τ d, m.rule.consequent, ⟨link.inverse.triples, ∅⟩⟩ := by
  rw [List.mem_map]
  constructor
  · rintro ⟨r, hr, rfl⟩
    obtain ⟨m, hm, hconsequent, link, hlink, hinverse⟩ := h.backward.route_sound hn hr
    exact ⟨r.producer, m, hm, link, hlink, by rw [Route.along, hconsequent, hinverse]⟩
  · rintro ⟨d, m, hm, link, hlink, rfl⟩
    obtain ⟨r, hr, rfl, hconsequent, htriples⟩ :=
      h.backward.exists_route hn ((h.hasProducer_iff hn hm).2 ⟨link, hlink⟩) hm hlink
    exact ⟨r, hr, by rw [Route.along, hconsequent, htriples]⟩

theorem producer_of_mem_routesFrom {r : Route} (hr : r ∈ g.routesFrom c d) : r.producer = d := by
  unfold routesFrom at hr
  split at hr
  · cases hr
  · split at hr
    · cases hr
    · obtain ⟨m, _, rfl⟩ := List.mem_map.1 hr
      rfl

/-- There is one route only for each match. -/
theorem Whole.nodup_routes_along (h : g.Whole rules strategy root) (hn : g.node? c = some n)
    (hτ : ∀ d e, d < g.size → e < g.size → τ d = τ e → d = e) : ((g.routes c n).map (Route.along τ)).Nodup := by
  have hfrom {d : NodeId} {r : Route} (hr : r ∈ (g.routesFrom c d).map (Route.along τ)) : r.producer = τ d := by
    obtain ⟨r, hmem, rfl⟩ := List.mem_map.1 hr
    exact congrArg τ (producer_of_mem_routesFrom hmem)
  unfold routes
  rw [List.map_flatMap, List.nodup_flatMap]
  constructor
  · intro d _
    unfold routesFrom
    split
    · exact List.nodup_nil
    · split
      · exact List.nodup_nil
      · next found _ =>
        rw [List.map_map]
        -- Of two matches of a set the triples are not the same.
        refine List.pairwise_map.2 (found.ascending.imp fun {a b} hlt heq => ?_)
        have htriples : a.triples = b.triples := congrArg (fun r : Route => r.link.triples) heq
        have hsame : compare a.triples b.triples = .eq := Std.compare_eq_iff_eq.2 htriples
        have hlt : compare a.triples b.triples = .lt := hlt
        rw [hsame] at hlt
        cases hlt
  · refine List.Pairwise.imp_of_mem ?_ (h.nodup_producers hn)
    intro d e hd he hne r hrd hre
    obtain ⟨⟨d', found⟩, hmem, rfl⟩ := List.mem_map.1 hd
    obtain ⟨⟨e', found'⟩, hmem', rfl⟩ := List.mem_map.1 he
    obtain ⟨loops, hget⟩ := Node.mem_allProducers.1 hmem
    obtain ⟨loops', hget'⟩ := Node.mem_allProducers.1 hmem'
    exact hne (hτ _ _ (h.regular.producer c n loops d' found hn hget).2
      (h.regular.producer c n loops' e' found' hn hget').2
      ((hfrom hrd).symm.trans (hfrom hre)))

/-! ## Twins -/

/-- The nodes of two graphs correspond, each to one of the same rule. -/
structure Twin (τ : NodeId → NodeId) (g g' : Graph) : Prop where
  start : τ 0 = 0
  node : ∀ d m, g.node? d = some m → ∃ m', g'.node? (τ d) = some m' ∧ m'.rule = m.rule
  inj : ∀ d e, d < g.size → e < g.size → τ d = τ e → d = e
  onto : ∀ e < g'.size, ∃ d < g.size, τ d = e

theorem Twin.lt_size (h : Twin τ g g') (hd : d < g.size) : τ d < g'.size := by
  obtain ⟨m, hm⟩ := exists_node hd
  obtain ⟨m', hm', _⟩ := h.node d m hm
  exact Graph.lt_size hm'

/-- And so the other way round. -/
theorem Twin.symm (h : Twin τ g g') (hsome : 0 < g.size) : ∃ τ', Twin τ' g' g ∧ ∀ d < g.size, τ' (τ d) = d := by
  have hback (e : NodeId) : ∃ d, e < g'.size → d < g.size ∧ τ d = e := by
    by_cases he : e < g'.size
    · obtain ⟨d, hd, heq⟩ := h.onto e he
      exact ⟨d, fun _ => ⟨hd, heq⟩⟩
    · exact ⟨0, fun he' => absurd he' he⟩
  choose τ' hτ' using hback
  have hinverse {d : NodeId} (hd : d < g.size) : τ' (τ d) = d := by
    obtain ⟨hlt, heq⟩ := hτ' (τ d) (h.lt_size hd)
    exact h.inj _ d hlt hd heq
  refine ⟨τ', ⟨?_, fun e m' hm' => ?_, fun e e' he he' heq => ?_, fun d hd => ⟨τ d, h.lt_size hd, hinverse hd⟩⟩,
    fun d hd => hinverse hd⟩
  · rw [← h.start]
    exact (hinverse hsome).trans h.start.symm
  · obtain ⟨hlt, heq⟩ := hτ' e (Graph.lt_size hm')
    obtain ⟨m, hm⟩ := exists_node hlt
    obtain ⟨m'', hm'', hrule⟩ := h.node _ m hm
    rw [heq, hm'] at hm''
    exact ⟨m, hm, by rw [← hrule, Option.some.inj hm'']⟩
  · rw [← (hτ' e he).2, ← (hτ' e' he').2, heq]

/-- Each rule that has a node under one number has one under the other. -/
theorem Whole.exists_node_of_renumbers {σ : Equiv.Perm RuleId} (h : g.Whole rules strategy root)
    (h' : g'.Whole rules' strategy (σ root)) (hσ : Renumbers σ rules rules') (hm : g.node? d = some m) :
    ∃ e m', g'.node? e = some m' ∧ m'.ruleId = σ m.ruleId := by
  -- On the way back from the goal each node has the next one as a neighbour.
  induction h.reaching d (lt_size hm) using Relation.ReflTransGen.head_induction_on generalizing m with
  | refl =>
    obtain ⟨n, hn, hroot⟩ := h.backward.root
    obtain rfl : m = n := Option.some.inj (hm.symm.trans hn)
    obtain ⟨n', hn', hroot'⟩ := h'.backward.root
    exact ⟨0, n', hn', by rw [hroot', hroot]⟩
  | head hstep _ ih =>
    obtain ⟨n, hn, found, hget⟩ := hstep
    obtain ⟨c', n', hn', hid⟩ := ih hn
    obtain ⟨link, hlink⟩ := (h.hasProducer_iff hn hm).1 ⟨false, found, hget⟩
    have hrule : n'.rule = n.rule := by
      have hat := h'.backward.rule c' n' hn'
      rw [hid, hσ, h.backward.rule _ n hn] at hat
      exact (Option.some.inj hat).symm
    have hnear := hσ.mem_neighborsAmong (h.mem_neighborsAmong hm hlink)
    rw [← hrule] at hnear
    obtain ⟨e, m', hm', hid', _⟩ := h'.linked c' n' hn' _ hnear
    exact ⟨e, m', hm', hid'⟩

/-- The same rules under other numbers have the same graph with other numbers. -/
theorem Whole.exists_twin {σ : Equiv.Perm RuleId} (h : g.Whole rules strategy root)
    (h' : g'.Whole rules' strategy (σ root)) (hσ : Renumbers σ rules rules') : ∃ τ, Twin τ g g' := by
  have hnode (d : NodeId) : ∃ e, ∀ m, g.node? d = some m → ∃ m', g'.node? e = some m' ∧ m'.ruleId = σ m.ruleId := by
    cases hm : g.node? d with
    | none => exact ⟨0, fun _ h => nomatch h⟩
    | some m =>
      obtain ⟨e, m', hm', hid⟩ := h.exists_node_of_renumbers h' hσ hm
      refine ⟨e, fun x hx => ?_⟩
      cases hx
      exact ⟨m', hm', hid⟩
  choose τ hτ using hnode
  refine ⟨τ, ⟨?_, fun d m hm => ?_, fun d e hd he heq => ?_, fun e he => ?_⟩⟩
  · obtain ⟨n, hn, hroot⟩ := h.backward.root
    obtain ⟨n', hn', hroot'⟩ := h'.backward.root
    obtain ⟨m', hm', hid⟩ := hτ 0 n hn
    exact h'.backward.once _ 0 m' n' hm' hn' (by rw [hid, hroot, hroot'])
  · obtain ⟨m', hm', hid⟩ := hτ d m hm
    have hat := h'.backward.rule _ m' hm'
    rw [hid, hσ, h.backward.rule d m hm] at hat
    exact ⟨m', hm', (Option.some.inj hat).symm⟩
  · obtain ⟨m, hm⟩ := exists_node hd
    obtain ⟨n, hn⟩ := exists_node he
    obtain ⟨m', hm', hid⟩ := hτ d m hm
    obtain ⟨n', hn', hid'⟩ := hτ e n hn
    obtain rfl : m' = n' := Option.some.inj (hm'.symm.trans (heq ▸ hn'))
    exact h.backward.once d e m n hm hn (σ.injective (hid.symm.trans hid'))
  · obtain ⟨m', hm'⟩ := exists_node he
    have hroot : g.Whole rules strategy (σ.symm (σ root)) := by rwa [Equiv.symm_apply_apply]
    obtain ⟨d, m, hm, hid⟩ := h'.exists_node_of_renumbers hroot hσ.symm hm'
    obtain ⟨m'', hm'', hid'⟩ := hτ d m hm
    exact ⟨d, lt_size hm, h'.backward.once _ e m'' m' hm'' hm' (by rw [hid', hid, Equiv.apply_symm_apply])⟩

/-- What there is a node for in the one graph, there is a node for in the other. -/
theorem Twin.exists_node_iff {P : NodeId → Rule → Prop} (h : Twin τ g g') :
    (∃ e m', g'.node? e = some m' ∧ P e m'.rule) ↔ ∃ d m, g.node? d = some m ∧ P (τ d) m.rule := by
  constructor
  · rintro ⟨e, m', hm', hP⟩
    obtain ⟨d, hd, rfl⟩ := h.onto e (Graph.lt_size hm')
    obtain ⟨m, hm⟩ := exists_node hd
    obtain ⟨m'', hm'', hrule⟩ := h.node d m hm
    obtain rfl : m' = m'' := Option.some.inj (hm'.symm.trans hm'')
    exact ⟨d, m, hm, hrule ▸ hP⟩
  · rintro ⟨d, m, hm, hP⟩
    obtain ⟨m', hm', hrule⟩ := h.node d m hm
    exact ⟨τ d, m', hm', by rwa [hrule]⟩

section Twin

variable {n' : Node} {root' : RuleId} (h : g.Whole rules strategy root) (h' : g'.Whole rules' strategy root')
  (ht : Twin τ g g') (hn : g.node? c = some n) (hn' : g'.node? (τ c) = some n')

include ht hn hn'

theorem Twin.rule_eq : n'.rule = n.rule := by
  obtain ⟨n'', hn'', hrule⟩ := ht.node c n hn
  rwa [Option.some.inj (hn'.symm.trans hn'')]

include h h'

theorem Twin.hasGap_eq : n'.hasGap = n.hasGap := by
  have hcovers (a : Triple) : n'.Covers a ↔ n.Covers a := by
    rw [h.covers_iff hn, h'.covers_iff hn', ht.rule_eq hn hn']
    exact ht.exists_node_iff (P := fun _ r => ∃ link ∈ Facing strategy n.rule r, a ∈ link.sources)
  have hgap : n'.hasGap = false ↔ n.hasGap = false := by
    rw [Node.hasGap_eq_false, Node.hasGap_eq_false, ht.rule_eq hn hn']
    exact forall₂_congr fun a _ => hcovers a
  exact Bool.eq_iff_iff.2 (by simpa using not_congr hgap)

/-- Twins have the same routes from twins. -/
theorem Twin.routes_perm : ((g.routes c n).map (Route.along τ)).Perm ((g'.routes (τ c) n').map (Route.along id)) := by
  refine (List.perm_ext_iff_of_nodup (h.nodup_routes_along hn ht.inj)
    (h'.nodup_routes_along hn' fun _ _ _ _ heq => heq)).2 fun x => ?_
  rw [h.mem_routes_along hn, h'.mem_routes_along hn', ht.rule_eq hn hn']
  exact (ht.exists_node_iff (P := fun e r => ∃ link ∈ Facing strategy n.rule r,
    x = ⟨e, r.consequent, ⟨link.inverse.triples, ∅⟩⟩)).symm

end Twin

theorem twin_refl (g : Graph) : Twin (fun x => x) g g :=
  ⟨rfl, fun _ m hm => ⟨m, hm, rfl⟩, fun _ _ _ _ h => h, fun e he => ⟨e, he, rfl⟩⟩

section Demand

variable {root' : RuleId} {bindings : BindingSet} {rounds rounds' : Nat} {e e' : Demands}
  (h : g.Whole rules strategy root) (h' : g'.Whole rules' strategy root') (ht : Twin τ g g')

include h h' ht

/-- The twin of a producer is a producer of the twin, through the same matches. -/
theorem Twin.exists_producer {n' : Node} {found : MatchSet} (hn : g.node? c = some n) (hn' : g'.node? (τ c) = some n')
    (hm : g.node? d = some m) (hmem : (d, found) ∈ n.allProducers) :
    ∃ found', (τ d, found') ∈ n'.allProducers ∧ ∀ link ∈ found, ∃ link' ∈ found', link'.triples = link.triples := by
  obtain ⟨loops, hget⟩ := Node.mem_allProducers.1 hmem
  obtain ⟨m₁, hm₁, hfaith, _⟩ := h.backward.producer c n loops d found hn hget
  obtain rfl : m = m₁ := Option.some.inj (hm.symm.trans hm₁)
  obtain ⟨m', hm', hrule⟩ := ht.node d m hm
  have hfacing : Facing strategy n'.rule m'.rule = Facing strategy n.rule m.rule := by rw [ht.rule_eq hn hn', hrule]
  obtain ⟨loops', found', hget'⟩ :=
    (h'.hasProducer_iff hn' hm').2 (hfacing ▸ (h.hasProducer_iff hn hm).1 ⟨loops, found, hget⟩)
  obtain ⟨m₂, hm₂, hfaith', _⟩ := h'.backward.producer (τ c) n' loops' (τ d) found' hn' hget'
  obtain rfl : m' = m₂ := Option.some.inj (hm'.symm.trans hm₂)
  exact ⟨found', Node.mem_allProducers.2 ⟨loops', hget'⟩, fun link hlink =>
    hfaith'.complete link (hfacing ▸ hfaith.sound link hlink)⟩

/-- The more its twin is asked for, the more the twin asks of the twin of a producer. -/
theorem Twin.exists_request {n' : Node} {demand demand' wanted : BindingSet} {b : Binding} (hn : g.node? c = some n)
    (hn' : g'.node? (τ c) = some n') (hsub : ∀ δ ∈ demand, δ ∈ demand')
    (hr : (d, wanted) ∈ g.requests strategy n demand)
    (hb : b ∈ wanted) : ∃ wanted', (τ d, wanted') ∈ g'.requests strategy n' demand' ∧ b ∈ wanted' := by
  obtain ⟨hsome, hne, found, m, hmem, hm, rfl⟩ := mem_requests.1 hr
  have hrule := ht.rule_eq hn hn'
  obtain ⟨m', hm', hrule'⟩ := ht.node d m hm
  obtain ⟨found', hmem', hlinks⟩ := ht.exists_producer h h' hn hn' hm hmem
  have hwider : ∀ z ∈ (SiteBindingSet.ofBindings n.rule.antecedent demand).bindings,
      z ∈ (SiteBindingSet.ofBindings n'.rule.antecedent demand').bindings := by
    intro z hz
    obtain ⟨δ, hδ, rfl⟩ := SiteBindingSet.mem_ofBindings.1 hz
    exact SiteBindingSet.mem_ofBindings.2 ⟨δ, hsub δ hδ, by rw [hrule]⟩
  obtain ⟨δ, hδ⟩ := InsertionSet.exists_mem hsome
  refine ⟨_, mem_requests.2 ⟨InsertionSet.isEmpty_eq_false (hsub δ hδ), hrule ▸ hne, found', m', hmem', hm', rfl⟩, ?_⟩
  rw [hrule']
  exact wantedThrough_mono hwider hlinks hb

/-- Twins are asked for the same, once demand has settled. -/
theorem Twin.demand_subset (he : g.settleDemand strategy rounds ((∅ : Demands).insert 0 bindings) = some e)
    (he' : g'.settleDemand strategy rounds' ((∅ : Demands).insert 0 bindings) = some e') :
    ∀ x < g.size, ∀ b ∈ e.of x, b ∈ e'.of (τ x) := by
  refine settleDemand_induction (I := fun e => ∀ x < g.size, ∀ b ∈ e.of x, b ∈ e'.of (τ x)) he (fun x _ b hb => ?_)
    fun e c n hI hn r hr e₁ hI₁ x hx b hb => ?_
  · rw [Demands.of_insert] at hb
    split at hb
    · next hstart =>
      rw [← hstart, ht.start]
      exact settleDemand_grows he' (by rwa [Demands.of_insert, if_pos rfl])
    · exact absurd hb (InsertionSet.not_mem_emptyCollection b)
  · rw [Demands.of_add] at hb
    split at hb
    · next hproducer =>
      subst hproducer
      rcases InsertionSet.mem_union.1 hb with hb | hb
      · exact hI₁ _ hx b hb
      -- Whatever is asked for on the way has been asked for in the end.
      · obtain ⟨n', hn', _⟩ := ht.node c n hn
        obtain ⟨wanted', hr', hb'⟩ := ht.exists_request h h' hn hn' (hI c (Graph.lt_size hn)) hr hb
        exact settleDemand_closed he' (τ c) n' hn' _ hr' b hb'
    · exact hI₁ x hx b hb

end Demand

end Graph

namespace Plan

variable {s : RuleStore} {id : RuleId} {o : PlanOptions} {r : Rule} {p : Plan}

/-- The graph of the plan of a goal. -/
theorem build_whole (h : build s id o = .ok p) (hr : s.get id = .ok r) (hgoal : r.consequent.isEmpty = true) :
    p.graph.Whole s.rules o.strategy id := by
  obtain ⟨hbackward, hlinked⟩ := build_graph h hr hgoal
  obtain ⟨r', hr', _, _, _, _, _, _, hgraph⟩ := build_eq_ok h
  rw [hr] at hr'
  cases hr'
  rw [if_pos hgoal] at hgraph
  refine ⟨hbackward, (build_regular h).1, hlinked, ?_, ?_, fun n hn => ?_⟩
  · rw [hgraph]
    exact (Graph.ofGoal_regular (s.sound_near o.strategy) (get_eq_ok.1 hr)).2.1
  · rw [hgraph]
    refine ((Graph.matched_lastsBack s o.strategy).growBackward _ _ _ _ _ fun c n loops d found hn hget => ?_).1
    obtain rfl : c = 0 := Nat.lt_one_iff.1 (Graph.lt_size hn)
    cases hn
    rw [(Graph.ofRule_links loops d).1] at hget
    cases hget
  · rw [start_rule hbackward (get_eq_ok.1 hr) hn]
    exact hgoal

end Plan

end TripleChain
