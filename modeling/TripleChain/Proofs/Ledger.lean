import TripleChain.Proofs.Bounds
import TripleChain.Proofs.Graph
/-!
# What is outstanding

For rules that work binding by binding the board is a ledger: a node waits exactly when one call for it is on
the board, and whatever its handler has been given is answered in its output or is in that call
(`Plan.Ledger`). So when a run of a backward plan has ended, every node is available, every handler has been
given its whole input, and all answers are there: the plan is `Plan.Final`.
-/

namespace TripleChain

namespace Progress

variable {r : Progress} {d d' : Direction}

theorem isPending_iff : r.isPending = true ↔ ∃ d, r.pendingDirection? = some d := by
  unfold isPending pendingDirection?
  cases r.backward <;> cases r.forward <;> simp

theorem isPending_settled (h : r.isPending = false) : (r.withStage d .available).isPending = false := by
  unfold isPending withStage at *
  cases d <;> simp_all

theorem isPending_conclude {s : BindingSet} (h : r.isPending = false) : (r.conclude d s).isPending = false :=
  isPending_settled (r := { r with output := s }) h

theorem isPending_give (r : Progress) (d : Direction) (s : BindingSet) : (r.give d s).isPending = true := by
  unfold isPending give withStage
  cases d <;> simp

/-- Only what has just been requested is outstanding. -/
theorem isPending_answered {s : BindingSet} (h : r.isPending = false) (hp : (r.give d s).pendingDirection? = some d') :
    ((r.give d s).withStage d' .available).isPending = false := by
  unfold isPending give withStage pendingDirection? at *
  cases d <;> cases d' <;> simp_all

theorem isPending_take {s : BindingSet} (h : (r.withStage d .available).isPending = false) :
    (r.take d s).isPending = false := by
  cases d <;> exact h

theorem isAvailable_of (hi : r.isPending = false) (hs : r.stage d ≠ .notRequested) : r.isAvailable d = true := by
  obtain ⟨b, f, _, _, _, _⟩ := r
  unfold isAvailable isPending stage at *
  cases d <;> cases b <;> cases f <;> simp_all

end Progress

namespace Plan

variable {p q : Plan} {id : NodeId} {n : Node}

/-! ## The ledger -/

/-- The bindings that the rule of a node can be given. -/
def Accepted (g : Graph) : Outputs := fun id =>
  {b | ∀ n, g.node? id = some n → ∀ v ∈ Pattern.vars n.rule.antecedent, ∃ t, b.get? v = some t}

theorem confines_accepted (p : Plan) : p.Confines (fun _ => Set.univ) (Accepted p.graph) where
  input q hf _ id n _ hn _ b hb m hm v hv := by
    rw [hn] at hm
    cases hm
    exact bound_of_mem_nodeInput hb hv
  goal _ _ _ _ _ _ _ _ _ := Set.mem_univ _
  premise _ _ _ := Set.mem_univ _
  call _ _ _ _ _ _ _ _ _ := Set.mem_univ _

/-- The calls made and the calls that wait answer for all that the handlers have been given. -/
structure Ledger (p : Plan) : Prop where
  sound : ∀ id, (p.progressOf id).failed = false
  single : ∀ id d, (p.progressOf id).pendingDirection? = some d →
    ((p.progressOf id).withStage d .available).isPending = false
  startIdle : (p.progressOf start).isPending = false
  once : (p.board.map Task.node).Nodup
  waits : ∀ t ∈ p.board, (p.progressOf t.node).isPending = true
  begun : ∀ t ∈ p.board, ∀ n, p.graph.node? t.node = some n → ¬ p.IsFirst t.node n
  called : ∀ id, (p.progressOf id).isPending = true → ∃ t ∈ p.board, t.node = id
  answered : ∀ id n, id ≠ start → p.graph.node? id = some n → ∀ b ∈ (p.progressOf id).handled, ∀ c,
    n.rule.Yields (.singleton b) c → c ∈ (p.progressOf id).output ∨ ∃ t ∈ p.board, t.node = id ∧ b ∈ t.bindings

/-- Nodes that ask for everything have been answered, or their call waits. -/
def AnswersAll (p : Plan) : Prop :=
  ∀ id n, id ≠ start → p.graph.node? id = some n → p.AsksForAll id n → ¬ p.IsFirst id n → ∀ c,
    n.rule.Yields ∅ c → c ∈ (p.progressOf id).output ∨ ∃ t ∈ p.board, t.node = id ∧ t.bindings.isEmpty = true

/-- The rules apart from the start work binding by binding. -/
def Pointwise (p : Plan) : Prop := ∀ id n, id ≠ start → p.graph.node? id = some n → n.rule.Pointwise

/-- Nothing has happened yet. -/
structure Untouched (p : Plan) : Prop where
  board : p.board = []
  progress : ∀ id, ∃ demand, p.progressOf id = { Progress.initial with demand }

theorem Untouched.not_mem_outputs (h : p.Untouched) (id : NodeId) (b : Binding) : b ∉ p.outputs id := by
  obtain ⟨demand, heq⟩ := h.progress id
  rw [outputs, heq]
  exact InsertionSet.not_mem_emptyCollection b

theorem Untouched.not_mem_handled (h : p.Untouched) (id : NodeId) (b : Binding) : b ∉ (p.progressOf id).handled := by
  obtain ⟨demand, heq⟩ := h.progress id
  rw [heq]
  exact InsertionSet.not_mem_emptyCollection b

theorem Untouched.bounded {X Y : Outputs} (h : p.Untouched) : p.Bounded X Y where
  output id b hb := absurd hb (h.not_mem_outputs id b)
  handled id _ b hb := absurd hb (h.not_mem_handled id b)
  fresh id _ _ _ _ := h.not_mem_handled id
  board t ht := by
    rw [h.board] at ht
    cases ht

/-- Where no call waits, the ledger says that all that has been handled has been answered. -/
theorem ledger_of_idle (hboard : p.board = []) (hidle : ∀ x, (p.progressOf x).isPending = false)
    (hsound : ∀ x, (p.progressOf x).failed = false)
    (hanswered : ∀ x n, x ≠ start → p.graph.node? x = some n → ∀ b ∈ (p.progressOf x).handled, ∀ c,
      n.rule.Yields (.singleton b) c → c ∈ (p.progressOf x).output) : p.Ledger := by
  refine ⟨hsound, fun x d hd => ?_, hidle _, ?_, fun t ht => ?_, fun t ht => ?_, fun x hx => ?_,
    fun x n hx hn b hb c hc => .inl (hanswered x n hx hn b hb c hc)⟩
  · have hpending := Progress.isPending_iff.2 ⟨d, hd⟩
    rw [hidle x] at hpending
    cases hpending
  · rw [hboard]
    exact List.nodup_nil
  · rw [hboard] at ht
    cases ht
  · rw [hboard] at ht
    cases ht
  · rw [hidle x] at hx
    cases hx

theorem Ledger.idle_of_board (h : p.Ledger) (hboard : p.board = []) (x : NodeId) :
    (p.progressOf x).isPending = false := by
  rw [← Bool.not_eq_true]
  intro hpending
  obtain ⟨t, ht, _⟩ := h.called x hpending
  rw [hboard] at ht
  cases ht

theorem Ledger.output_of_board {x : NodeId} {b c : Binding} (h : p.Ledger) (hboard : p.board = []) (hx : x ≠ start)
    (hn : p.graph.node? x = some n) (hb : b ∈ (p.progressOf x).handled) (hc : n.rule.Yields (.singleton b) c) :
    c ∈ (p.progressOf x).output := by
  refine (h.answered x n hx hn b hb c hc).resolve_right fun ⟨t, ht, _⟩ => ?_
  rw [hboard] at ht
  cases ht

theorem Untouched.ledger (h : p.Untouched) : p.Ledger := by
  refine ledger_of_idle h.board (fun x => ?_) (fun x => ?_) fun x n _ _ b hb => absurd hb (h.not_mem_handled x b)
  · obtain ⟨demand, heq⟩ := h.progress x
    rw [heq]
    rfl
  · obtain ⟨demand, heq⟩ := h.progress x
    rw [heq]
    rfl

theorem Untouched.answersAll (h : p.Untouched) : p.AnswersAll := by
  refine fun id n _ _ _ hfirst => absurd ?_ hfirst
  obtain ⟨demand, heq⟩ := h.progress id
  unfold IsFirst
  rw [heq]
  cases n.direction <;> rfl

/-! ## One node at a time -/

/-- What the ledger says of one node. -/
structure Account (p : Plan) (x : NodeId) : Prop where
  sound : (p.progressOf x).failed = false
  single : ∀ d, (p.progressOf x).pendingDirection? = some d →
    ((p.progressOf x).withStage d .available).isPending = false
  waits : ∀ t ∈ p.board, t.node = x → (p.progressOf x).isPending = true
  begun : ∀ t ∈ p.board, t.node = x → ∀ n, p.graph.node? x = some n → ¬ p.IsFirst x n
  called : (p.progressOf x).isPending = true → ∃ t ∈ p.board, t.node = x
  answered : x ≠ start → ∀ n, p.graph.node? x = some n → ∀ b ∈ (p.progressOf x).handled, ∀ c,
    n.rule.Yields (.singleton b) c → c ∈ (p.progressOf x).output ∨ ∃ t ∈ p.board, t.node = x ∧ b ∈ t.bindings

theorem Ledger.account (h : p.Ledger) (x : NodeId) : p.Account x where
  sound := h.sound x
  single := h.single x
  waits t ht hx := hx ▸ h.waits t ht
  begun t ht hx := by
    subst hx
    exact h.begun t ht
  called := h.called x
  answered hx n hn := h.answered x n hx hn

theorem ledger_of_accounts (h : ∀ x, p.Account x) (startIdle : (p.progressOf start).isPending = false)
    (once : (p.board.map Task.node).Nodup) : p.Ledger where
  sound x := (h x).sound
  single x := (h x).single
  startIdle := startIdle
  once := once
  waits t ht := (h t.node).waits t ht rfl
  begun t ht := (h t.node).begun t ht rfl
  called x := (h x).called
  answered x n hx hn := (h x).answered hx n hn

/-- The account of a node is kept by whatever does not touch its progress and its calls. -/
theorem Account.of_same {x : NodeId} (h : p.Account x) (hf : SameFrame p q) (hp : q.progressOf x = p.progressOf x)
    (hb : ∀ t : Task, t.node = x → (t ∈ q.board ↔ t ∈ p.board)) : q.Account x := by
  have hcalls {P : Task → Prop} (hc : ∃ t ∈ p.board, t.node = x ∧ P t) : ∃ t ∈ q.board, t.node = x ∧ P t := by
    obtain ⟨t, ht, hx, hP⟩ := hc
    exact ⟨t, (hb t hx).2 ht, hx, hP⟩
  have hfirst {n : Node} : q.IsFirst x n ↔ p.IsFirst x n := by
    unfold IsFirst
    rw [hp]
  refine ⟨by rw [hp]; exact h.sound, by rw [hp]; exact h.single, fun t ht hx => ?_, fun t ht hx n hn => ?_,
    fun hpending => ?_, fun hx n hn b hbmem c hc => ?_⟩
  · rw [hp]
    exact h.waits t ((hb t hx).1 ht) hx
  · rw [hf.graph] at hn
    rw [hfirst]
    exact h.begun t ((hb t hx).1 ht) hx n hn
  · rw [hp] at hpending
    obtain ⟨t, ht, hx⟩ := h.called hpending
    exact ⟨t, (hb t hx).2 ht, hx⟩
  · rw [hf.graph] at hn
    rw [hp] at hbmem ⊢
    exact (h.answered hx n hn b hbmem c hc).imp_right hcalls

/-! ## Steps -/

theorem idle_of_not_pending {r : Progress} (h : r.isPending = false) (d : Direction) :
    r.pendingDirection? ≠ some d := by
  intro hd
  have := Progress.isPending_iff.2 ⟨d, hd⟩
  rw [h] at this
  cases this

theorem not_isPending_of_mem {t : Task} (h : p.Ledger) (hidle : (p.progressOf id).isPending = false)
    (ht : t ∈ p.board) :
    t.node ≠ id := by
  rintro rfl
  rw [h.waits t ht] at hidle
  cases hidle

/-- Progress of a node for which nothing is outstanding, before or after. -/
theorem Ledger.update {f : Progress → Progress} (h : p.Ledger) (hd : ∀ r, (f r).demand = r.demand)
    (hbefore : (p.progressOf id).isPending = false) (hafter : (f (p.progressOf id)).isPending = false)
    (hsound : (f (p.progressOf id)).failed = false)
    (hsame : id ≠ start → (f (p.progressOf id)).handled = (p.progressOf id).handled ∧
      (f (p.progressOf id)).output = (p.progressOf id).output) : (p.update id f).Ledger := by
  have hf : SameFrame p (p.update id f) := sameFrame_update p id hd
  have hself : (p.update id f).progressOf id = f (p.progressOf id) := by rw [progressOf_update, if_pos rfl]
  have hother {x : NodeId} (hx : id ≠ x) : (p.update id f).progressOf x = p.progressOf x := by
    rw [progressOf_update, if_neg hx]
  have hnone {t : Task} (ht : t ∈ p.board) : t.node ≠ id := not_isPending_of_mem h hbefore ht
  refine ledger_of_accounts (fun x => ?_) ?_ h.once
  · by_cases hx : id = x
    · subst hx
      refine ⟨by rw [hself]; exact hsound, fun d hp => ?_, fun t ht hid => absurd hid (hnone ht),
        fun t ht hid => absurd hid (hnone ht), fun hp => ?_, fun hs n hn b hb c hc => ?_⟩
      · rw [hself] at hp
        exact absurd hp (idle_of_not_pending hafter d)
      · rw [hself, hafter] at hp
        cases hp
      · rw [hself, (hsame hs).1] at hb
        rw [hself, (hsame hs).2]
        exact h.answered id n hs hn b hb c hc
    · exact (h.account x).of_same hf (hother hx) fun _ _ => .rfl
  · by_cases hs : id = start
    · rw [← hs, hself]
      exact hafter
    · rw [hother hs]
      exact h.startIdle

/-- A node gives its handler what it has not had. -/
theorem Ledger.dispatch {d : Direction} (h : p.Ledger) (ready : p.Ready id n)
    (way : p.IsFirst id n ∧ d = n.direction ∨ ¬ p.IsFirst id n) :
    (p.post id n d).Ledger := by
  have hself := (p.progressOf_post id id n d).trans (if_pos rfl)
  have hold {t : Task} (ht : t ∈ p.board) : t.node ≠ id := not_isPending_of_mem h ready.idle ht
  have hnode {m : Node} (hm : p.graph.node? id = some m) : n = m := Option.some.inj (ready.node.symm.trans hm)
  refine ledger_of_accounts (fun x => ?_) ?_ ?_
  · by_cases hx : id = x
    · subst hx
      refine ⟨by rw [hself]; exact (Progress.failed_give ..).trans (h.sound id), fun e he => ?_, fun _ _ _ => ?_,
        fun t _ _ m hm hfirst => ?_, fun _ => ⟨_, List.mem_append_right _ (List.mem_singleton.2 rfl), rfl⟩,
        fun hs m hm b hb c hc => ?_⟩
      · rw [hself] at he ⊢
        exact Progress.isPending_answered ready.idle he
      · rw [hself]
        exact Progress.isPending_give ..
      · obtain rfl := hnode hm
        unfold IsFirst at hfirst
        rw [hself, Progress.stage_give] at hfirst
        split at hfirst
        · cases hfirst
        · next hne => exact absurd hfirst (way.resolve_left fun hw => hne hw.2)
      -- What had been handled is accounted for as before, what is new stands in the new call.
      · rw [hself, Progress.handled_give] at hb
        rw [hself, Progress.output_give]
        rcases InsertionSet.mem_union.1 hb with hb | hb
        · exact (h.answered id m hs hm b hb c hc).imp_right fun ⟨t, ht, hrest⟩ => ⟨t, List.mem_append_left _ ht, hrest⟩
        · exact .inr ⟨_, List.mem_append_right _ (List.mem_singleton.2 rfl), rfl, hb⟩
    · refine (h.account x).of_same (p.sameFrame_post id n d) ((p.progressOf_post id x n d).trans (if_neg hx))
        fun t ht => ?_
      have hnew : t ≠ p.nextTask id n := by
        rintro rfl
        exact hx ht
      rw [board_post, List.mem_append, List.mem_singleton, or_iff_left hnew]
  · rw [progressOf_post, if_neg ready.inner]
    exact h.startIdle
  · rw [board_post, List.map_append, List.nodup_append]
    refine ⟨h.once, List.nodup_singleton _, fun a ha b hb => ?_⟩
    obtain ⟨t, ht, rfl⟩ := List.mem_map.1 ha
    rw [List.mem_singleton.1 hb]
    exact hold ht

/-- No two calls of a node wait. -/
theorem Ledger.eq_of_node {t t' : Task} (h : p.Ledger) (ht : t ∈ p.board) (ht' : t' ∈ p.board)
    (heq : t.node = t'.node) : t = t' := List.inj_on_of_nodup_map h.once ht ht' heq

/-- A call on the board is answered, as long as the rules work binding by binding. -/
theorem exists_answer {t : Task} (h : p.Ledger) (hb : p.Bounded (fun _ => Set.univ) (Accepted p.graph))
    (hp : p.Pointwise) (ht : t ∈ p.board) (board : List Task) :
    ∃ n d s, p.graph.node? t.node = some n ∧ (p.progressOf t.node).pendingDirection? = some d ∧
      n.rule.invoke t.bindings = .ok s ∧ n.rule.Accepts t.bindings ∧
      (p.withCalls board p.invoked).answer t.node (t.rule.invoke t.bindings) =
        (p.withCalls board p.invoked).update t.node (·.take d s) := by
  obtain ⟨hinner, ⟨n, hn, hr, _⟩, hbind⟩ := hb.board t ht
  have hacc : n.rule.Accepts t.bindings := fun b hb v hv => hbind b hb n hn v hv
  obtain ⟨s, hs⟩ := (hp t.node n hinner hn).total _ hacc
  obtain ⟨d, hd⟩ := Progress.isPending_iff.1 (h.waits t ht)
  refine ⟨n, d, s, hn, hd, hs, hacc, ?_⟩
  have hlt : t.node < (p.withCalls board p.invoked).size := Graph.lt_size hn
  rw [answer_of_pending hlt hd, hr, hs]

/-- What a rule makes of a call that waits covers what it makes of each binding of the call. -/
theorem mem_answer {s bindings : BindingSet} {c : Binding} (hp : n.rule.Pointwise) (hacc : n.rule.Accepts bindings)
    (hs : n.rule.invoke bindings = .ok s) (h : (∃ b ∈ bindings, n.rule.Yields (.singleton b) c) ∨
      bindings.isEmpty = true ∧ n.rule.Yields ∅ c) : c ∈ s := by
  have hyields : n.rule.Yields bindings c := by
    rcases h with ⟨b, hb, hc⟩ | ⟨he, hc⟩
    · exact (hp.yields_iff hacc (InsertionSet.isEmpty_eq_false hb)).2 ⟨b, hb, hc⟩
    · have heq : bindings = ∅ := InsertionSet.ext_toList (List.isEmpty_iff.1 he)
      rwa [heq]
  obtain ⟨out, hout, hc⟩ := hyields
  rw [hs] at hout
  cases hout
  exact hc

/-- A call on the board is answered. -/
theorem Ledger.answer {t : Task} {rest : List Task} (h : p.Ledger)
    (hb : p.Bounded (fun _ => Set.univ) (Accepted p.graph)) (hp : p.Pointwise) (waits : p.board.Perm (t :: rest)) :
    ((p.withCalls rest p.invoked).answer t.node (t.rule.invoke t.bindings)).Ledger := by
  have ht : t ∈ p.board := waits.mem_iff.2 List.mem_cons_self
  obtain ⟨hno, honce⟩ := List.nodup_cons.1 ((waits.map Task.node).nodup_iff.1 h.once)
  have hnone {a : Task} (ha : a ∈ rest) : a.node ≠ t.node := fun heq => hno (heq ▸ List.mem_map_of_mem ha)
  -- No other call of the node waits, so what the ledger finds on the board is this call.
  have hsame {a : Task} (ha : a ∈ p.board) (heq : a.node = t.node) : a = t :=
    (List.mem_cons.1 (waits.mem_iff.1 ha)).resolve_right fun ha => hnone ha heq
  obtain ⟨n, d, s, hn, hd, hs, hacc, heq⟩ := exists_answer h hb hp ht rest
  have hinner := (hb.board t ht).inner
  have hidle : ((p.progressOf t.node).take d s).isPending = false := Progress.isPending_take (h.single t.node d hd)
  have hframe := p.sameFrame_take rest t.node d s
  have hprogress (x : NodeId) := p.progressOf_take rest t.node x d s
  have hself := (hprogress t.node).trans (if_pos rfl)
  have hnode {m : Node} (hm : p.graph.node? t.node = some m) : n = m := Option.some.inj (hn.symm.trans hm)
  rw [heq]
  refine ledger_of_accounts (fun x => ?_) (by rw [hprogress, if_neg hinner]; exact h.startIdle) honce
  by_cases hx : t.node = x
  · subst hx
    refine ⟨by rw [hself]; exact (Progress.failed_take ..).trans (h.sound t.node), fun e he => ?_,
      fun a ha ha' => absurd ha' (hnone ha), fun a ha ha' => absurd ha' (hnone ha), fun hpending => ?_,
      fun hs' m hm b hb' c hc => ?_⟩
    · rw [hself] at he
      exact absurd he (idle_of_not_pending hidle e)
    · rw [hself, hidle] at hpending
      cases hpending
    · obtain rfl := hnode hm
      rw [hself, Progress.handled_take] at hb'
      rw [hself, Progress.output_take]
      refine .inl (InsertionSet.mem_union.2 ?_)
      refine (h.answered _ n hs' hn b hb' c hc).imp_right fun ⟨a, ha, ha', hba⟩ => ?_
      rw [hsame ha ha'] at hba
      exact mem_answer (hp _ n hs' hn) hacc hs (.inl ⟨b, hba, hc⟩)
  · refine (h.account x).of_same hframe ((hprogress x).trans (if_neg hx)) fun a ha => ?_
    show a ∈ rest ↔ a ∈ p.board
    rw [waits.mem_iff, List.mem_cons, or_iff_right]
    rintro rfl
    exact hx ha

/-- Every step keeps the ledger. -/
theorem Step.ledger (hs : Step p q) (h : p.Ledger) (hb : p.Bounded (fun _ => Set.univ) (Accepted p.graph))
    (hp : p.Pointwise) : q.Ledger := by
  cases hs with
  | record => exact ⟨h.sound, h.single, h.startIdle, h.once, h.waits, h.begun, h.called, h.answered⟩
  | goal =>
    exact h.update (fun r => r.demand_conclude ..) h.startIdle (Progress.isPending_conclude h.startIdle)
      ((Progress.failed_conclude ..).trans (h.sound start)) fun hid => absurd rfl hid
  | premise =>
    exact h.update (fun r => r.demand_conclude ..) h.startIdle (Progress.isPending_conclude h.startIdle)
      ((Progress.failed_conclude ..).trans (h.sound start)) fun hid => absurd rfl hid
  | @settle id n ready first idle =>
    exact h.update (fun r => r.demand_withStage ..) ready.idle (Progress.isPending_settled ready.idle)
      ((Progress.failed_withStage ..).trans ready.sound)
      fun _ => ⟨Progress.handled_withStage .., Progress.output_withStage ..⟩
  | dispatch d ready _ _ way => exact h.dispatch ready way
  | answer waits => exact h.answer hb hp waits

/-- A node whose progress is not touched goes on being answered. -/
theorem AnswersAll.of_same {m : Node} {x : NodeId} (h : p.AnswersAll) (hf : SameFrame p q)
    (hprogress : q.progressOf x = p.progressOf x) (hboard : ∀ t : Task, t.node = x → t ∈ p.board → t ∈ q.board)
    (hx : x ≠ start) (hm : q.graph.node? x = some m) (hasks : q.AsksForAll x m) (hno : ¬ q.IsFirst x m) {c : Binding}
    (hc : m.rule.Yields ∅ c) : c ∈ (q.progressOf x).output ∨ ∃ t ∈ q.board, t.node = x ∧ t.bindings.isEmpty = true := by
  rw [hf.graph] at hm
  unfold AsksForAll at hasks
  unfold IsFirst at hno
  rw [hprogress] at hno hasks ⊢
  exact (h x m hx hm hasks hno c hc).imp_right fun ⟨t, ht, heq, hempty⟩ => ⟨t, hboard t heq ht, heq, hempty⟩

/-- Where a node gives its handler what it has not had, those that ask for everything are answered as before. -/
theorem AnswersAll.dispatch {d : Direction} (h : p.AnswersAll) (ready : p.Ready id n) :
    (p.post id n d).AnswersAll := by
  have hf := p.sameFrame_post id n d
  intro x m hx hm hasks hno c hc
  by_cases hid : id = x
  · subst hid
    obtain rfl : n = m := Option.some.inj (ready.node.symm.trans (hf.graph ▸ hm))
    unfold AsksForAll at hasks
    rw [hf.demand] at hasks
    rw [progressOf_post, if_pos rfl, Progress.output_give]
    -- If all is asked for there is no input, so the first call is the one without bindings.
    by_cases hfirst : p.IsFirst id n
    · refine .inr ⟨_, List.mem_append_right _ (List.mem_singleton.2 rfl), rfl,
        InsertionSet.isEmpty_iff.2 fun b hb => ?_⟩
      have hin := (mem_delta.1 hb).1
      rw [nodeInput_of_empty hasks.1] at hin
      exact InsertionSet.isEmpty_iff.1 hasks.2 b hin
    · exact (h id n hx ready.node hasks hfirst c hc).imp_right fun ⟨t, ht, hrest⟩ =>
        ⟨t, List.mem_append_left _ ht, hrest⟩
  · exact h.of_same hf ((p.progressOf_post id x n d).trans (if_neg hid)) (fun _ _ ht => List.mem_append_left _ ht) hx hm
      hasks hno hc

/-- Where a call is answered, those that ask for everything are answered as before. -/
theorem AnswersAll.answer {t : Task} {rest : List Task} (h : p.AnswersAll) (hl : p.Ledger)
    (hb : p.Bounded (fun _ => Set.univ) (Accepted p.graph)) (hp : p.Pointwise) (waits : p.board.Perm (t :: rest)) :
    ((p.withCalls rest p.invoked).answer t.node (t.rule.invoke t.bindings)).AnswersAll := by
  have ht : t ∈ p.board := waits.mem_iff.2 List.mem_cons_self
  obtain ⟨n, d, s, hn, _, hs, hacc, heq⟩ := exists_answer hl hb hp ht rest
  have hframe := p.sameFrame_take rest t.node d s
  have hprogress (x : NodeId) := p.progressOf_take rest t.node x d s
  rw [heq]
  intro x m hx hm hasks hno c hc
  by_cases hid : t.node = x
  · subst hid
    obtain rfl : n = m := Option.some.inj (hn.symm.trans (hframe.graph ▸ hm))
    unfold AsksForAll at hasks
    rw [hframe.demand] at hasks
    rw [hprogress, if_pos rfl, Progress.output_take]
    refine .inl (InsertionSet.mem_union.2 ?_)
    refine (h _ n hx hn hasks (hl.begun t ht n hn) c hc).imp_right fun ⟨a, ha, ha', hempty⟩ => ?_
    rw [hl.eq_of_node ha ht ha'] at hempty
    exact mem_answer (hp _ n hx hn) hacc hs (.inr ⟨hempty, hc⟩)
  · refine h.of_same hframe ((hprogress x).trans (if_neg hid)) (fun a ha hmem => ?_) hx hm hasks hno hc
    refine (List.mem_cons.1 (waits.mem_iff.1 hmem)).resolve_left ?_
    rintro rfl
    exact hid ha

/-- Every step keeps those answered that ask for everything. -/
theorem Step.answersAll (hs : Step p q) (h : p.AnswersAll) (hl : p.Ledger)
    (hb : p.Bounded (fun _ => Set.univ) (Accepted p.graph)) (hp : p.Pointwise) : q.AnswersAll := by
  have hf := hs.sameFrame
  have hstart {f : Progress → Progress} {x : NodeId} (hx : x ≠ start) :
      (p.update start f).progressOf x = p.progressOf x := by
    rw [progressOf_update, if_neg (Ne.symm hx)]
  cases hs with
  | record => exact h
  | goal => exact fun x m hx hm hasks hno c hc => h.of_same hf (hstart hx) (fun _ _ ht => ht) hx hm hasks hno hc
  | premise => exact fun x m hx hm hasks hno c hc => h.of_same hf (hstart hx) (fun _ _ ht => ht) hx hm hasks hno hc
  | @settle id n ready first idle =>
    intro x m hx hm hasks hno c hc
    by_cases hid : id = x
    · subst hid
      obtain rfl : n = m := Option.some.inj (ready.node.symm.trans (hf.graph ▸ hm))
      -- A rule without antecedent has no gap and is always called.
      rcases idle with hgap | ⟨hne, _⟩
      · unfold Node.hasGap at hgap
        rw [SortedSet.isEmpty_iff.1 hasks.1] at hgap
        cases hgap
      · rw [hasks.1] at hne
        cases hne
    · refine h.of_same hf ?_ (fun _ _ ht => ht) hx hm hasks hno hc
      rw [progressOf_update, if_neg hid]
  | dispatch d ready => exact h.dispatch ready
  | answer waits => exact h.answer hl hb hp waits

/-! ## Runs -/

/-- All that the handlers have been given is on the ledger, and they take it. -/
structure Accounted (p : Plan) : Prop where
  ledger : p.Ledger
  bounded : p.Bounded (fun _ => Set.univ) (Accepted p.graph)

theorem Untouched.accounted (h : p.Untouched) : p.Accounted := ⟨h.ledger, h.bounded⟩

theorem Step.accounted (hs : Step p q) (h : p.Accounted) (hp : p.Pointwise) : q.Accounted := by
  refine ⟨hs.ledger h.ledger h.bounded hp, ?_⟩
  rw [hs.sameFrame.graph]
  exact hs.bounded (confines_accepted p) h.bounded

theorem Pointwise.of_sameFrame (h : p.Pointwise) (hf : SameFrame p q) : q.Pointwise := by
  unfold Pointwise
  rw [hf.graph]
  exact h

/-- Every run keeps the accounts. -/
theorem Steps.accounted (hs : Steps p q) (h : p.Accounted) (hp : p.Pointwise) : q.Accounted :=
  (Steps.induction (I := fun r => r.Pointwise ∧ r.Accounted) hs ⟨hp, h⟩ fun _ _ hs ⟨hp, h⟩ =>
    ⟨hp.of_sameFrame hs.sameFrame, hs.accounted h hp⟩).2

/-- Every run keeps those answered that ask for everything. -/
theorem Steps.answersAll (hs : Steps p q) (h : p.Accounted) (hall : p.AnswersAll) (hp : p.Pointwise) : q.AnswersAll :=
  (Steps.induction (I := fun r => r.Pointwise ∧ r.Accounted ∧ r.AnswersAll) hs ⟨hp, h, hall⟩ fun _ _ hs ⟨hp, h, hall⟩ =>
    ⟨hp.of_sameFrame hs.sameFrame, hs.accounted h hp, hs.answersAll hall h.ledger h.bounded hp⟩).2.2

/-! ## Ends of runs -/

/-- All that the rules make of the inputs of the nodes has been given, and the plan has the input of its goal as
results. -/
structure Complete (p : Plan) : Prop where
  answered : ∀ id n, id ≠ start → p.graph.node? id = some n → n.hasGap = false → ∀ b ∈ p.nodeInput id n, ∀ c,
    n.rule.Yields (.singleton b) c → c ∈ p.outputs id
  goal : ∀ n, p.graph.node? start = some n → ∀ b, b ∈ p.outputs start ↔ n.hasGap = false ∧ b ∈ p.nodeInput start n
  results : p.results = .ok (p.progressOf start).output

/-- And all that the rules make of nothing has been given where everything is asked for. -/
structure Final (p : Plan) : Prop extends Complete p where
  all : ∀ id n, id ≠ start → p.graph.node? id = some n → p.AsksForAll id n → ∀ c, n.rule.Yields ∅ c → c ∈ p.outputs id

theorem advanceInner_still (ready : p.Ready id n) (h : (p.advanceInner id n).2 = false) :
    ¬ p.IsFirst id n ∧ (n.hasGap = false → (p.delta id n).isEmpty = true) := by
  have hcases := advanceInner_cases ready.node ready.inner
  generalize p.advanceInner id n = r at hcases h
  cases hcases with
  | waits hno => exact absurd ready hno
  | idle _ later had => exact ⟨later, fun whole => had.resolve_left (by simp [whole])⟩
  | settle => cases h
  | evaluate => cases h
  | resume => cases h

theorem advanceStart_still (hb : p.isBackward = true) (ha : p.producersAvailable n = true)
    (h : (p.advanceStart n).2 = false) : (p.progressOf start).backward = .available ∧
      ∀ b, b ∈ p.outputs start ↔ n.hasGap = false ∧ b ∈ p.nodeInput start n := by
  have hcases := p.advanceStart_cases n
  generalize p.advanceStart n = r at hcases h
  cases hcases with
  | waits _ hno =>
    rw [ha] at hno
    cases hno
  | taken _ _ same =>
    obtain ⟨hsame, havail⟩ := Bool.and_eq_true_iff.1 same
    exact ⟨beq_iff_eq.1 havail, fun b => (InsertionSet.sameElements_iff.1 hsame b).trans mem_due⟩
  | goal => cases h
  | premise isPremise =>
    rw [hb] at isPremise
    cases isPremise

/-- When nothing goes on any more, the start would not advance. -/
theorem Quiet.start_still (hq : p.Quiet) (hn : p.graph.node? start = some n) : (p.advanceStart n).2 = false := by
  rw [← advanceNode_start hn, hq.still start (Graph.lt_size hn)]

/-- When nothing goes on any more, no other node would advance. -/
theorem Quiet.inner_still (hq : p.Quiet) (hn : p.graph.node? id = some n) (hid : id ≠ start) :
    (p.advanceInner id n).2 = false := by
  rw [← advanceNode_inner hn hid, hq.still id (Graph.lt_size hn)]

section Quiet

variable {rules : List Rule} {strategy : Strategy} {root : RuleId}

theorem producersAvailable_of (hg : p.graph.Backward rules strategy root) (hn : p.graph.node? id = some n)
    (h : ∀ d m, p.graph.Feeds d id → p.graph.node? d = some m → p.isAvailable d = true) :
    p.producersAvailable n = true := by
  unfold producersAvailable
  rw [List.all_eq_true]
  intro d hd
  obtain ⟨found, hfound⟩ := SortedMap.mem_keys.1 hd
  obtain ⟨m, hm, _⟩ := hg.producer id n false d found hn hfound
  exact h d m ⟨n, hn, found, hfound⟩ hm

/-- Nothing is outstanding, and nothing has failed. -/
def Clear (p : Plan) : Prop :=
  ∀ id n, p.graph.node? id = some n → (p.progressOf id).isPending = false ∧ (p.progressOf id).failed = false

theorem Quiet.clear (hq : p.Quiet) (hl : p.Ledger) : p.Clear :=
  fun id _ _ => ⟨hl.idle_of_board hq.board id, hl.sound id⟩

section Clear

variable (hq : p.Quiet) (hc : p.Clear) (hg : p.graph.Backward rules strategy root) (hb : p.isBackward = true)

include hq hc hg hb

/-- When nothing goes on any more, every node is available: nobody waits over a loop. -/
theorem Quiet.available (hn : p.graph.node? id = some n) : p.isAvailable id = true := by
  obtain ⟨rank, hrank⟩ := hg.rank
  -- By rank: the producers that a node waits for, loops apart, rank below it.
  induction hk : rank id using Nat.strong_induction_on generalizing id n with
  | _ k ih =>
    have hproducers : p.producersAvailable n = true := by
      refine producersAvailable_of hg hn fun d m ⟨n', hn', found, hfound⟩ hm => ?_
      exact ih (rank d) (hk ▸ hrank id n' d found hn' hfound) hm rfl
    have hdir := (hg.kind id n hn).1
    obtain ⟨hidle, hsound⟩ := hc id n hn
    unfold isAvailable
    rw [hn]
    refine Progress.isAvailable_of hidle ?_
    by_cases hid : id = start
    · subst hid
      rw [hdir, Progress.stage, (advanceStart_still hb hproducers (hq.start_still hn)).1]
      simp
    · exact (advanceInner_still ⟨hn, hid, hidle, hsound, hproducers⟩ (hq.inner_still hn hid)).1

theorem Quiet.producersAvailable (hn : p.graph.node? id = some n) : p.producersAvailable n = true :=
  producersAvailable_of hg hn fun _ _ _ hm => hq.available hc hg hb hm

/-- When nothing goes on any more, all nodes but the start have been evaluated and have handled their inputs. -/
theorem Quiet.inner (hid : id ≠ start) (hn : p.graph.node? id = some n) :
    ¬ p.IsFirst id n ∧ (n.hasGap = false → ∀ b ∈ p.nodeInput id n, b ∈ (p.progressOf id).handled) := by
  obtain ⟨hidle, hsound⟩ := hc id n hn
  obtain ⟨hfirst, hdelta⟩ :=
    advanceInner_still ⟨hn, hid, hidle, hsound, hq.producersAvailable hc hg hb hn⟩ (hq.inner_still hn hid)
  refine ⟨hfirst, fun hgap b hbin => ?_⟩
  by_contra hno
  exact InsertionSet.isEmpty_iff.1 (hdelta hgap) b (mem_delta.2 ⟨hbin, hno⟩)

/-- When nothing goes on any more, the goal has its results. -/
theorem Quiet.results : p.results = .ok (p.progressOf start).output := by
  have hnode {id : NodeId} (hid : id ∈ p.nodeIds) : ∃ n, p.graph.node? id = some n :=
    Graph.exists_node (List.mem_range.1 hid)
  have hfailed : (p.nodeIds.filter fun id => (p.progressOf id).failed) = [] :=
    List.filter_eq_nil_iff.2 fun id hid => by
      obtain ⟨n, hn⟩ := hnode hid
      simp [(hc id n hn).2]
  have hidle : (p.nodeIds.any fun id => (p.progressOf id).isPending) = false :=
    List.any_eq_false.2 fun id hid => by
      obtain ⟨n, hn⟩ := hnode hid
      simp [(hc id n hn).1]
  have hdone : p.isDone = true := by
    obtain ⟨n, hn, _⟩ := hg.root
    have havailable : p.isAvailable start = true := hq.available hc hg hb hn
    unfold isDone
    rw [hq.board, hidle, havailable]
    rfl
  unfold Plan.results
  rw [hb, hfailed, hdone]
  rfl

end Clear

/-- When nothing goes on any more, nothing is missing. -/
theorem Quiet.complete (hq : p.Quiet) (hl : p.Ledger) (hg : p.graph.Backward rules strategy root)
    (hb : p.isBackward = true) : p.Complete := by
  have hc := hq.clear hl
  refine ⟨fun id n hid hn hgap b hbin c hyields => ?_, fun n hn => ?_, hq.results hc hg hb⟩
  · have hhandled := (hq.inner hc hg hb hid hn).2 hgap b hbin
    exact hl.output_of_board hq.board hid hn hhandled hyields
  · exact (advanceStart_still hb (hq.producersAvailable hc hg hb hn) (hq.start_still hn)).2

theorem Quiet.final (hq : p.Quiet) (hl : p.Ledger) (hall : p.AnswersAll) (hg : p.graph.Backward rules strategy root)
    (hb : p.isBackward = true) : p.Final := by
  refine ⟨hq.complete hl hg hb, fun id n hid hn hasks c hyields => ?_⟩
  refine (hall id n hid hn hasks (hq.inner (hq.clear hl) hg hb hid hn).1 c hyields).resolve_right fun ⟨t, ht, _⟩ => ?_
  rw [hq.board] at ht
  cases ht

end Quiet

end Plan

end TripleChain
