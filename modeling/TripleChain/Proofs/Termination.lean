import TripleChain.Proofs.Routes
import TripleChain.Proofs.Universe
import Mathlib.Algebra.Order.BigOperators.Group.Finset
/-!
# Every run ends

With rules that copy, look up or only take, a run meets finitely many bindings. `Plan.weight` counts what may still
happen to each node: a first evaluation, and handler calls on bindings that the handler has not had. Every pass
that changes something lowers it (`Plan.advance_lowers`), so passes and drained boards come to an end
(`Plan.run_ends`), whatever loops the rules make.
-/

namespace TripleChain

namespace Plan

variable {V : List Variable} {T : List Term} {K : Nat} {p q : Plan} {id : NodeId} {n : Node}

/-! ## What is kept -/

/-- The plan is made of the given variables and terms, its rules make no terms up, and a goal gives nothing to
itself. -/
structure Tame (V : List Variable) (T : List Term) (p : Plan) : Prop where
  graph : p.graph.Within V T
  rules : ∀ id n, p.graph.node? id = some n → n.rule.IsPlain
  demand : ∀ id, ∀ b ∈ (p.progressOf id).demand, b.Within V T
  input : ∀ b ∈ p.input.getD ∅, b.Within V T
  bounded : p.Bounded (withinBounds V T) (withinBounds V T)
  plain : p.isBackward = true → ∀ n, p.graph.node? start = some n → n.triggers.isEmpty = true
  apart : p.isBackward = true → ∀ n, p.graph.node? start = some n → ∀ r ∈ p.graph.routes start n, r.producer ≠ start

theorem Tame.confined (h : p.Tame V T) : p.Confines (withinBounds V T) (withinBounds V T) :=
  confines_within h.graph h.rules h.demand h.input

theorem Tame.of_sameFrame (h : p.Tame V T) (hf : SameFrame p q) (hb : q.Bounded (withinBounds V T) (withinBounds V T)) :
    q.Tame V T where
  graph := by rw [hf.graph]; exact h.graph
  rules := by rw [hf.graph]; exact h.rules
  demand id := by rw [hf.demand]; exact h.demand id
  input := by rw [hf.input]; exact h.input
  bounded := hb
  plain := by rw [hf.isBackward, hf.graph]; exact h.plain
  apart := by rw [hf.isBackward, hf.graph]; exact h.apart

theorem Tame.step (h : p.Tame V T) (hs : Step p q) : q.Tame V T :=
  h.of_sameFrame hs.sameFrame (hs.bounded h.confined h.bounded)

theorem Tame.steps (h : p.Tame V T) (hs : Steps p q) : q.Tame V T :=
  Steps.induction (I := Tame V T) hs h fun _ _ hs hi => hi.step hs

theorem Tame.withCalls {board : List Task} {invoked : List Invocation} (h : p.Tame V T)
    (hb : ∀ t ∈ board, CallBounded p (withinBounds V T) t) : (p.withCalls board invoked).Tame V T :=
  h.of_sameFrame (sameFrame_withCalls ..) (h.bounded.withCalls hb)

theorem Tame.answer {t : Task} (h : p.Tame V T) (ht : CallBounded p (withinBounds V T) t) :
    (p.answer t.node (t.rule.invoke t.bindings)).Tame V T :=
  h.of_sameFrame (sameFrame_answer ..) (h.bounded.answer h.confined ht)

/-- The number of bindings made of the given variables and terms. -/
def room (V : List Variable) (T : List Term) : Nat := (allBindings V T).size

theorem size_le_room {s : BindingSet} (h : ∀ b ∈ s, b.Within V T) : s.size ≤ room V T :=
  InsertionSet.size_le_of_subset fun b hb => mem_allBindings (h b hb)

theorem Tame.size_due_le (h : p.Tame V T) (hb : p.isBackward = true) (hn : p.graph.node? start = some n) :
    (p.due n).size ≤ room V T := by
  refine size_le_room fun b hmem => ?_
  obtain ⟨hgap, hin⟩ := mem_due.1 hmem
  exact h.confined.goal hb p (.refl p) h.bounded.output n hn hgap b hin

/-! ## The weight of a plan -/

/-- What may still happen to a node other than the start, if its handler may be given `K` bindings. -/
def innerWeight (K : Nat) (n : Node) (r : Progress) : Nat :=
  (if r.stage n.direction = .notRequested then 1 else 0) + (K - r.handled.size)

/-- What may still happen to the start, if a goal may have `K` answers: answers may be added, and those that there are
may have to be taken over. -/
def startWeight (K : Nat) (p : Plan) (n : Node) : Nat :=
  let r := p.progressOf start
  if p.isBackward then
    (K - (p.due n).size) + if r.output.sameElements (p.due n) && r.backward == .available then 0 else 1
  else if r.output.sameElements (p.input.getD ∅) && r.forward == .available then 0 else 1

/-- What may still happen to a node. -/
def nodeWeight (K : Nat) (p : Plan) (id : NodeId) : Nat :=
  match p.graph.node? id with
  | none => 0
  | some n => if id = start then p.startWeight K n else innerWeight K n (p.progressOf id)

/-- What may still happen to a plan. -/
def weight (K : Nat) (p : Plan) : Nat := ∑ id ∈ Finset.range p.size, p.nodeWeight K id

theorem nodeWeight_inner (hn : p.graph.node? id = some n) (hid : id ≠ start) :
    p.nodeWeight K id = innerWeight K n (p.progressOf id) := by
  unfold nodeWeight
  rw [hn]
  exact if_neg hid

theorem nodeWeight_start (hn : p.graph.node? start = some n) : p.nodeWeight K start = p.startWeight K n := by
  unfold nodeWeight
  rw [hn]
  exact if_pos rfl

/-- Nothing that the nodes other than the start have given is taken back. -/
def Gives (p q : Plan) : Prop := ∀ x, x ≠ start → p.outputs x ⊆ q.outputs x

theorem Tame.due_mono (h : p.Tame V T) (hf : SameFrame p q) (hb : p.isBackward = true)
    (hn : p.graph.node? start = some n) (hgives : p.Gives q) : ∀ b ∈ p.due n, b ∈ q.due n := by
  intro b hmem
  rw [mem_due] at hmem ⊢
  refine hmem.imp_right fun hin => ?_
  exact nodeInput_mono_of_routes hf.graph.symm (by rw [hf.options]) (hf.demand start).symm (h.plain hb n hn)
    (fun r hr => hgives r.producer (h.apart hb n hn r hr)) hin

/-- Whatever more is given, no more may happen to a start that is left as it is: an answer that it has yet to take over
was one that it might still have got. -/
theorem startWeight_le (hp : p.Tame V T) (hf : SameFrame p q) (hn : p.graph.node? start = some n)
    (hroom : q.isBackward = true → (q.due n).size ≤ K) (hsame : q.progressOf start = p.progressOf start)
    (hgives : p.Gives q) : q.startWeight K n ≤ p.startWeight K n := by
  unfold startWeight
  rw [hf.isBackward, hf.input, hsame]
  dsimp only
  cases hb : p.isBackward with
  | false => rw [if_neg Bool.false_ne_true, if_neg Bool.false_ne_true]
  | true =>
    rw [if_pos rfl, if_pos rfl]
    have hsub := hp.due_mono hf hb hn hgives
    have hroom := hroom (hf.isBackward.trans hb)
    by_cases hback : ∀ b ∈ q.due n, b ∈ p.due n
    · have hsize : (q.due n).size = (p.due n).size :=
        Nat.le_antisymm (InsertionSet.size_le_of_subset hback) (InsertionSet.size_le_of_subset hsub)
      have helements : (p.progressOf start).output.sameElements (q.due n) =
          (p.progressOf start).output.sameElements (p.due n) := by
        rw [Bool.eq_iff_iff, InsertionSet.sameElements_iff, InsertionSet.sameElements_iff]
        exact forall_congr' fun b => iff_congr .rfl ⟨hback b, hsub b⟩
      rw [hsize, helements]
    · push Not at hback
      obtain ⟨b, hin, hno⟩ := hback
      have hlt : (p.due n).size < (q.due n).size := InsertionSet.size_lt_of_not_subset hsub hin hno
      have hone (c : Bool) : (if c then 0 else 1) ≤ 1 := by cases c <;> simp
      have hle :=
        hone ((p.progressOf start).output.sameElements (q.due n) && (p.progressOf start).backward == .available)
      omega

theorem nodeWeight_le_of_same (hp : p.Tame V T) (hq : q.Tame V T) (hf : SameFrame p q) (hgives : p.Gives q)
    (h : q.progressOf id = p.progressOf id) : q.nodeWeight (room V T) id ≤ p.nodeWeight (room V T) id := by
  cases hn : p.graph.node? id with
  | none =>
    unfold nodeWeight
    rw [hf.graph, hn]
  | some n =>
    by_cases hid : id = start
    · subst hid
      rw [nodeWeight_start hn, nodeWeight_start (hf.graph ▸ hn)]
      exact startWeight_le hp hf hn (fun hb => hq.size_due_le hb (hf.graph ▸ hn)) h hgives
    · rw [nodeWeight_inner hn hid, nodeWeight_inner (hf.graph ▸ hn) hid, h]

theorem weight_le (hf : SameFrame p q) (h : ∀ x, q.nodeWeight K x ≤ p.nodeWeight K x) : q.weight K ≤ p.weight K := by
  unfold weight size
  rw [hf.graph]
  exact Finset.sum_le_sum fun x _ => h x

theorem weight_le_of_same (hp : p.Tame V T) (hq : q.Tame V T) (hf : SameFrame p q)
    (h : ∀ x, q.progressOf x = p.progressOf x) : q.weight (room V T) ≤ p.weight (room V T) := by
  refine weight_le hf fun x => nodeWeight_le_of_same hp hq hf (fun x _ b hb => ?_) (h x)
  rwa [outputs, h x]

/-- What lowers the weight of one node and leaves the others as they are lowers the weight. -/
theorem weight_lt (hp : p.Tame V T) (hq : q.Tame V T) (hf : SameFrame p q) (hgives : p.Gives q)
    (hn : p.graph.node? id = some n) (h : ∀ x ≠ id, q.progressOf x = p.progressOf x)
    (hlt : q.nodeWeight (room V T) id < p.nodeWeight (room V T) id) : q.weight (room V T) < p.weight (room V T) := by
  unfold weight size
  rw [hf.graph]
  refine Finset.sum_lt_sum (fun x _ => ?_) ⟨id, Finset.mem_range.2 (Graph.lt_size hn), hlt⟩
  by_cases hx : x = id
  · rw [hx]
    exact Nat.le_of_lt hlt
  · exact nodeWeight_le_of_same hp hq hf hgives (h x hx)

theorem progressOf_update_ne {f : Progress → Progress} {x : NodeId} (h : x ≠ id) :
    (p.update id f).progressOf x = p.progressOf x := by
  rw [progressOf_update, if_neg (Ne.symm h)]

theorem progressOf_update_self {f : Progress → Progress} : (p.update id f).progressOf id = f (p.progressOf id) := by
  rw [progressOf_update, if_pos rfl]

theorem gives_update {f : Progress → Progress}
    (h : id ≠ start → ∀ b ∈ (p.progressOf id).output, b ∈ (f (p.progressOf id)).output) : p.Gives (p.update id f) := by
  intro x hx b hb
  show b ∈ ((p.update id f).progressOf x).output
  rw [progressOf_update]
  split
  · next heq =>
    subst heq
    exact h hx b hb
  · exact hb

theorem innerWeight_take (K : Nat) (n : Node) (r : Progress) (d : Direction) (s : BindingSet) :
    innerWeight K n (r.take d s) ≤ innerWeight K n r := by
  unfold innerWeight
  rw [Progress.handled_take, Progress.stage_take]
  refine Nat.add_le_add_right ?_ _
  by_cases h : d = n.direction
  · rw [if_pos h]
    exact Nat.zero_le _
  · rw [if_neg h]

/-- An answer to a call does not add to what may still happen. -/
theorem answer_weight {t : Task} (h : p.Tame V T) (ht : CallBounded p (withinBounds V T) t) :
    (p.answer t.node (t.rule.invoke t.bindings)).weight (room V T) ≤ p.weight (room V T) := by
  have hq := h.answer ht
  refine weight_le (sameFrame_answer ..) fun x => ?_
  obtain ⟨n, hn, _⟩ := ht.node
  rcases p.answer_cases t.node (t.rule.invoke t.bindings) with heq | ⟨d, _, _, ⟨s, _, heq⟩ | ⟨f, _, heq⟩⟩
  · rw [heq]
  · rw [heq] at hq ⊢
    by_cases hx : x = t.node
    · subst hx
      rw [nodeWeight_inner hn ht.inner, nodeWeight_inner (p := p.update t.node (·.take d s)) hn ht.inner,
        progressOf_update_self]
      exact innerWeight_take ..
    · refine nodeWeight_le_of_same h hq (sameFrame_update _ _ fun r => r.demand_take d s)
        (gives_update fun _ b hb => ?_) (progressOf_update_ne hx)
      rw [Progress.output_take]
      exact InsertionSet.mem_union.2 (.inl hb)
  · rw [heq] at hq ⊢
    by_cases hx : x = t.node
    · subst hx
      rw [nodeWeight_inner hn ht.inner, nodeWeight_inner (p := p.update t.node _) hn ht.inner, progressOf_update_self]
      exact Nat.le_refl _
    · exact nodeWeight_le_of_same h hq (sameFrame_update _ _ (by intro r; rfl)) (gives_update fun _ _ hb => hb)
        (progressOf_update_ne hx)

/-! ## Passes -/

/-- The outcome of a node in a pass: it changes something and lowers the weight, or leaves the board as it is. -/
structure Lowers (V : List Variable) (T : List Term) (p : Plan) (r : Plan × Bool) : Prop where
  le : r.1.weight (room V T) ≤ p.weight (room V T)
  lt : r.2 = true → r.1.weight (room V T) < p.weight (room V T)
  board : r.2 = false → r.1.board = p.board

theorem Lowers.changed {r : Plan × Bool} (h : r.1.weight (room V T) < p.weight (room V T)) (hr : r.2 = true) :
    Lowers V T p r :=
  ⟨Nat.le_of_lt h, fun _ => h, fun hf => absurd (hr.symm.trans hf) (by simp)⟩

theorem Lowers.same : Lowers V T p (p, false) := ⟨Nat.le_refl _, fun h => (nomatch h), fun _ => rfl⟩

/-- The first call counts by its stage alone; later ones have something new to hand over. -/
theorem innerWeight_give {d : Direction} (hroom : ((p.progressOf id).handled.union (p.delta id n)).size ≤ K)
    (way : p.IsFirst id n ∧ d = n.direction ∨ ¬ p.IsFirst id n ∧ (p.delta id n).isEmpty = false) :
    innerWeight K n ((p.progressOf id).give d (p.delta id n)) < innerWeight K n (p.progressOf id) := by
  have hle := Demands.size_le_union (p.progressOf id).handled (p.delta id n)
  unfold innerWeight
  unfold IsFirst at way
  rw [Progress.handled_give, Progress.stage_give]
  rcases way with ⟨hfirst, rfl⟩ | ⟨hno, hdelta⟩
  · rw [if_pos rfl, if_pos hfirst, if_neg (by simp)]
    omega
  · have hlt : (p.progressOf id).handled.size < ((p.progressOf id).handled.union (p.delta id n)).size := by
      obtain ⟨b, hb⟩ := InsertionSet.exists_mem hdelta
      exact InsertionSet.size_lt_of_not_subset (fun _ h => InsertionSet.mem_union.2 (.inl h))
        (InsertionSet.mem_union.2 (.inr hb)) (mem_delta.1 hb).2
    have hstage : ¬ (if d = n.direction then Stage.requested else (p.progressOf id).stage n.direction) =
        .notRequested := by
      split
      · simp
      · exact hno
    rw [if_neg hstage, if_neg hno]
    omega

/-- A call that is put on the board lowers the weight. -/
theorem post_lowers {d : Direction} (h : p.Tame V T) (ready : p.Ready id n) (whole : n.hasGap = false)
    (hstep : Step p (p.post id n d))
    (way : p.IsFirst id n ∧ d = n.direction ∨ ¬ p.IsFirst id n ∧ (p.delta id n).isEmpty = false) :
    (p.post id n d).weight (room V T) < p.weight (room V T) := by
  have hroom : ((p.progressOf id).handled.union (p.delta id n)).size ≤ room V T := by
    refine size_le_room fun b hb => (InsertionSet.mem_union.1 hb).elim (h.bounded.handled id ready.inner b) fun hb => ?_
    exact h.confined.input p (.refl p) h.bounded.output id n ready.inner ready.node whole b (mem_delta.1 hb).1
  have hgives : p.Gives (p.update id (·.give d (p.delta id n))) := gives_update fun _ b hb => by
    rwa [Progress.output_give]
  refine weight_lt h (h.step hstep) hstep.sameFrame hgives ready.node
    (fun x hx => progressOf_update_ne (f := (·.give d (p.delta id n))) hx) ?_
  rw [nodeWeight_inner ready.node ready.inner, nodeWeight_inner (hstep.sameFrame.graph ▸ ready.node) ready.inner,
    progressOf_post, if_pos rfl]
  exact innerWeight_give hroom way

theorem dispatch_lowers {d : Direction} (h : p.Tame V T) (ready : p.Ready id n) (whole : n.hasGap = false)
    (due : (p.delta id n).isEmpty = false ∨ p.IsFirst id n ∧ n.rule.antecedent.isEmpty = true)
    (way : p.IsFirst id n ∧ d = n.direction ∨ ¬ p.IsFirst id n ∧ (p.delta id n).isEmpty = false) :
    (p.dispatch id n d (p.delta id n)).weight (room V T) < p.weight (room V T) := by
  have hstep := Step.dispatch d ready whole due (way.imp_right And.left)
  have hlt := post_lowers h ready whole hstep way
  show (if p.options.useTaskBoard then _ else _ : Plan).weight _ < _
  split
  · exact hlt
  · -- The call that is made at once is one that could have waited.
    have hq := h.step hstep
    have hcall := hq.bounded.board _ (List.mem_append_right _ (List.mem_singleton.2 rfl))
    have hmade : ((p.post id n d).record [p.nextTask id n] p.board).Tame V T :=
      hq.withCalls fun t ht => hq.bounded.board t (List.mem_append_left _ ht)
    have hf : SameFrame (p.post id n d) ((p.post id n d).record [p.nextTask id n] p.board) := sameFrame_withCalls ..
    have hanswer := answer_weight hmade (hcall.of_sameFrame hf)
    have hsame := weight_le_of_same hq hmade hf fun _ => rfl
    exact Nat.lt_of_le_of_lt (hanswer.trans hsame) hlt

theorem settleNode_lowers (h : p.Tame V T) (ready : p.Ready id n) (first : p.IsFirst id n)
    (idle : n.hasGap = true ∨ n.rule.antecedent.isEmpty = false ∧ (p.delta id n).isEmpty = true) :
    (p.update id (·.withStage n.direction .available)).weight (room V T) < p.weight (room V T) := by
  have hgives : p.Gives (p.update id (·.withStage n.direction .available)) := gives_update fun _ b hb => by
    rwa [Progress.output_withStage]
  refine weight_lt h (h.step (.settle ready first idle)) (sameFrame_update _ _ fun r => r.demand_withStage ..) hgives
    ready.node (fun x hx => progressOf_update_ne hx) ?_
  rw [nodeWeight_inner ready.node ready.inner,
    nodeWeight_inner (p := p.update id (·.withStage n.direction .available)) ready.node ready.inner,
    progressOf_update_self]
  unfold innerWeight
  unfold IsFirst at first
  rw [Progress.handled_withStage, Progress.stage_withStage, if_pos rfl, if_pos first, if_neg (by simp)]
  omega

theorem advanceInner_lowers (h : p.Tame V T) (hn : p.graph.node? id = some n) (hid : id ≠ start) :
    Lowers V T p (p.advanceInner id n) := by
  have hcases := advanceInner_cases hn hid
  generalize p.advanceInner id n = r at hcases ⊢
  cases hcases with
  | waits => exact .same
  | idle => exact .same
  | settle ready first idle => exact .changed (settleNode_lowers h ready first idle) rfl
  | evaluate ready whole first due =>
    exact .changed (dispatch_lowers h ready whole (due.symm.imp_right fun he => ⟨first, he⟩) (.inl ⟨first, rfl⟩)) rfl
  | resume ready whole later due => exact .changed (dispatch_lowers h ready whole (.inl due) (.inr ⟨later, due⟩)) rfl

theorem sameElements_refl (s : BindingSet) : s.sameElements s = true := InsertionSet.sameElements_iff.2 fun _ => .rfl

/-- A goal does not give itself anything, so taking over its answers leaves it with nothing more to take over. -/
theorem Tame.due_update (h : p.Tame V T) (hb : p.isBackward = true) (hn : p.graph.node? start = some n)
    {f : Progress → Progress} (hd : ∀ r, (f r).demand = r.demand) (b : Binding) :
    b ∈ (p.update start f).due n ↔ b ∈ p.due n := by
  have hf : SameFrame p (p.update start f) := sameFrame_update p start hd
  have hsame {x : NodeId} (hx : x ≠ start) : (p.update start f).outputs x = p.outputs x := by
    unfold outputs
    rw [progressOf_update_ne hx]
  rw [mem_due, mem_due]
  refine and_congr_right fun _ => ⟨fun hin => ?_, fun hin => ?_⟩
  · refine nodeInput_mono_of_routes hf.graph (by rw [hf.options]) (hf.demand start) (h.plain hb n hn)
      (fun r hr => ?_) hin
    rw [hsame (h.apart hb n hn r hr)]
  · refine nodeInput_mono_of_routes hf.graph.symm (by rw [hf.options]) (hf.demand start).symm (h.plain hb n hn)
      (fun r hr => ?_) hin
    rw [hsame (h.apart hb n hn r hr)]

theorem advanceGoal_lowers (h : p.Tame V T) (hb : p.isBackward = true) (hn : p.graph.node? start = some n)
    (ready : p.producersAvailable n = true)
    (hnew : ((p.progressOf start).output.sameElements (p.due n) &&
      (p.progressOf start).backward == .available) = false) :
    (p.update start (·.conclude .backward (p.due n))).weight (room V T) < p.weight (room V T) := by
  have hstep : Step p (p.update start (·.conclude .backward (p.due n))) := .goal hb hn ready
  refine weight_lt h (h.step hstep) hstep.sameFrame (gives_update fun hid => absurd rfl hid) hn
    (fun x hx => progressOf_update_ne hx) ?_
  rw [nodeWeight_start hn, nodeWeight_start (p := p.update start _) hn]
  have hdue := h.due_update hb hn (f := (·.conclude .backward (p.due n))) fun r => r.demand_conclude ..
  have hsize := Nat.le_antisymm (InsertionSet.size_le_of_subset fun b => (hdue b).1)
    (InsertionSet.size_le_of_subset fun b => (hdue b).2)
  have hback : (p.update start (·.conclude .backward (p.due n))).isBackward = true := hb
  unfold startWeight
  rw [if_pos hb, if_pos hback, progressOf_update_self, hsize, hnew]
  have htaken : (p.due n).sameElements ((p.update start (·.conclude .backward (p.due n))).due n) = true :=
    InsertionSet.sameElements_iff.2 fun b => (hdue b).symm
  have hstage : ((p.progressOf start).conclude .backward (p.due n)).backward = .available := rfl
  rw [Progress.output_conclude, htaken, hstage]
  simp

/-- A premise takes the input of the plan over and then stays as it is. -/
theorem advancePremise_lowers (h : p.Tame V T) (hb : p.isBackward = false) (hn : p.graph.node? start = some n) :
    Lowers V T p (p.update start (·.conclude .forward (p.input.getD ∅)),
      !((p.progressOf start).output.sameElements (p.input.getD ∅) && (p.progressOf start).forward == .available)) := by
  have hstep : Step p (p.update start (·.conclude .forward (p.input.getD ∅))) := .premise hb
  have hf := hstep.sameFrame
  have hq := h.step hstep
  have hgives : p.Gives (p.update start (·.conclude .forward (p.input.getD ∅))) :=
    gives_update fun hid => absurd rfl hid
  have hback : (p.update start (·.conclude .forward (p.input.getD ∅))).isBackward = false := hb
  have hzero : (p.update start (·.conclude .forward (p.input.getD ∅))).nodeWeight (room V T) start = 0 := by
    rw [nodeWeight_start (p := p.update start _) hn]
    unfold startWeight
    rw [if_neg (by simp [hback]), progressOf_update_self]
    exact if_pos (by rw [Bool.and_eq_true]; exact ⟨sameElements_refl _, rfl⟩)
  cases hsame : ((p.progressOf start).output.sameElements (p.input.getD ∅) &&
      (p.progressOf start).forward == .available) with
  | false =>
    refine .changed (weight_lt h hq hf hgives hn (fun x hx => progressOf_update_ne hx) ?_) rfl
    rw [hzero, nodeWeight_start hn]
    unfold startWeight
    rw [if_neg (by simp [hb]), hsame]
    exact Nat.one_pos
  | true =>
    refine ⟨weight_le hf fun x => ?_, by simp, fun _ => rfl⟩
    by_cases hx : x = start
    · subst hx
      rw [hzero]
      exact Nat.zero_le _
    · exact nodeWeight_le_of_same h hq hf hgives (progressOf_update_ne hx)

theorem advanceStart_lowers (h : p.Tame V T) (hn : p.graph.node? start = some n) :
    Lowers V T p (p.advanceStart n) := by
  have hcases := p.advanceStart_cases n
  generalize p.advanceStart n = r at hcases ⊢
  cases hcases with
  | waits => exact .same
  | taken => exact .same
  | goal isGoal producers new => exact .changed (advanceGoal_lowers h isGoal hn producers new) rfl
  | premise isPremise => exact advancePremise_lowers h isPremise hn

theorem advanceNode_lowers (h : p.Tame V T) (id : NodeId) : Lowers V T p (p.advanceNode id) := by
  rcases advanceNode_cases p id with heq | ⟨n, rfl, hn, heq⟩ | ⟨n, hid, hn, heq⟩
  · rw [heq]
    exact .same
  · rw [heq]
    exact advanceStart_lowers h hn
  · rw [heq]
    exact advanceInner_lowers h hn hid

theorem advanceOver_lowers {l : List NodeId} (h : p.Tame V T) : Lowers V T p (advanceOver l p false) := by
  -- Once a node has changed something the rest of the pass may only lower the weight further.
  have hchanged (l : List NodeId) : ∀ p : Plan, p.Tame V T → (advanceOver l p true).2 = true ∧
      (advanceOver l p true).1.weight (room V T) ≤ p.weight (room V T) := by
    induction l with
    | nil => exact fun p _ => ⟨rfl, Nat.le_refl _⟩
    | cons id l ih =>
      intro p h
      rw [advanceOver_cons, Bool.true_or]
      obtain ⟨htrue, hle⟩ := ih _ (h.steps (advanceNode_steps p id))
      exact ⟨htrue, hle.trans (advanceNode_lowers h id).le⟩
  induction l generalizing p with
  | nil => exact .same
  | cons id l ih =>
    have hone := advanceNode_lowers h id
    have htame := h.steps (advanceNode_steps p id)
    rw [advanceOver_cons, Bool.false_or]
    cases hc : (p.advanceNode id).2 with
    | true =>
      obtain ⟨htrue, hle⟩ := hchanged l _ htame
      exact .changed (Nat.lt_of_le_of_lt hle (hone.lt hc)) htrue
    | false =>
      have hrest := ih htame
      exact ⟨hrest.le.trans hone.le, fun ht => Nat.lt_of_lt_of_le (hrest.lt ht) hone.le,
        fun hf => (hrest.board hf).trans (hone.board hc)⟩

/-- Every pass that changes something lowers the weight. -/
theorem advance_lowers (h : p.Tame V T) : Lowers V T p p.advance := advanceOver_lowers h

/-! ## Runs -/

/-- Passes come to an end. -/
theorem settle_ends (h : p.Tame V T) : ∃ q waits,
    (∀ rounds, p.weight (room V T) < rounds → settle rounds p = .ok (q, waits)) ∧
      q.weight (room V T) ≤ p.weight (room V T) ∧
      (p.board = [] → waits = true → q.weight (room V T) < p.weight (room V T)) := by
  -- The induction is on the weight: a pass that changes something lowers it, another ends the passes.
  induction hk : p.weight (room V T) using Nat.strong_induction_on generalizing p with
  | _ k ih =>
    subst hk
    have hlowers := advance_lowers h
    have hsettle (rounds : Nat) : settle (rounds + 1) p =
        if !p.advance.1.board.isEmpty then .ok (p.advance.1, true)
        else if p.advance.2 then settle rounds p.advance.1 else .ok (p.advance.1, false) := rfl
    have hpos {rounds : Nat} (hr : p.weight (room V T) < rounds) : ∃ r, rounds = r + 1 := ⟨rounds - 1, by omega⟩
    by_cases hboard : p.advance.1.board.isEmpty = true
    · cases hc : p.advance.2 with
      | true =>
        have hlt := hlowers.lt hc
        obtain ⟨q, waits, hrest, hle, hwait⟩ := ih _ hlt (h.steps (advance_steps p)) rfl
        refine ⟨q, waits, fun rounds hr => ?_, by omega, fun _ _ => by omega⟩
        obtain ⟨rounds, rfl⟩ := hpos hr
        rw [hsettle, if_neg (by simp [hboard]), if_pos hc]
        exact hrest rounds (by omega)
      | false =>
        refine ⟨p.advance.1, false, fun rounds hr => ?_, hlowers.le, fun _ h => (nomatch h)⟩
        obtain ⟨rounds, rfl⟩ := hpos hr
        rw [hsettle, if_neg (by simp [hboard]), if_neg (by simp [hc])]
    · refine ⟨p.advance.1, true, fun rounds hr => ?_, hlowers.le, fun hempty _ => hlowers.lt ?_⟩
      · obtain ⟨rounds, rfl⟩ := hpos hr
        rw [hsettle, if_pos (by simpa using hboard)]
      · rw [← Bool.not_eq_false]
        intro hc
        rw [hlowers.board hc, hempty] at hboard
        exact hboard rfl

theorem answerAll_weight (l : List Task) :
    ∀ p : Plan, p.Tame V T → (∀ t ∈ l, CallBounded p (withinBounds V T) t) →
      (p.answerAll (l.map Task.outcome)).weight (room V T) ≤ p.weight (room V T) ∧
        (p.answerAll (l.map Task.outcome)).board = p.board := by
  induction l with
  | nil => exact fun p _ _ => ⟨Nat.le_refl _, rfl⟩
  | cons t l ih =>
    intro p h hl
    obtain ⟨ht, hl⟩ := List.forall_mem_cons.1 hl
    obtain ⟨hle, hboard⟩ := ih (p.answer t.node (t.rule.invoke t.bindings)) (h.answer ht) fun a ha =>
      (hl a ha).of_sameFrame (sameFrame_answer ..)
    rw [List.map_cons, answerAll_cons]
    exact ⟨hle.trans (answer_weight h ht), hboard.trans (answer_board ..)⟩

/-- Draining the board does not add to what may still happen. -/
theorem drain_weight (h : p.Tame V T) : p.drain.weight (room V T) ≤ p.weight (room V T) ∧ p.drain.board = [] := by
  unfold drain
  rw [callAll_eq]
  dsimp only
  have hcalled : (p.record p.board []).Tame V T := h.withCalls fun t ht => (nomatch ht)
  have hf : SameFrame p (p.record p.board []) := sameFrame_withCalls ..
  obtain ⟨hle, hboard⟩ := answerAll_weight p.board _ hcalled fun t ht => (h.bounded.board t ht).of_sameFrame hf
  exact ⟨hle.trans (weight_le_of_same h hcalled hf fun _ => rfl), hboard⟩

/-- A plan that has been given its input comes to an end. -/
theorem run_ends_given {bindings : BindingSet} (h : p.Tame V T) (hboard : p.board = []) (hi : p.HasInput bindings) :
    ∃ q, ∀ rounds, p.weight (room V T) + 1 ≤ rounds → p.run rounds bindings = .ok q := by
  -- A round that leaves calls on the board has lowered the weight, and draining the board does not raise it.
  induction hk : p.weight (room V T) using Nat.strong_induction_on generalizing p with
  | _ k ih =>
    subst hk
    obtain ⟨q, waits, hsettle, hle, hwait⟩ := settle_ends h
    have hexecute {rounds : Nat} (hr : p.weight (room V T) < rounds) : p.execute rounds bindings = .ok (q, waits) :=
      execute_eq_ok.2 ⟨p, withInput_same hi, hsettle rounds hr⟩
    have hpos {rounds : Nat} (hr : p.weight (room V T) < rounds) : ∃ r, rounds = r + 1 := ⟨rounds - 1, by omega⟩
    cases waits with
    | false =>
      refine ⟨q, fun rounds hr => ?_⟩
      have hex := hexecute hr
      obtain ⟨rounds, rfl⟩ := hpos hr
      rw [run, hex]
    | true =>
      have hlt := hwait hboard rfl
      have hsteps := settle_steps (hsettle _ (Nat.lt_succ_self _))
      have htame := h.steps hsteps
      obtain ⟨hdrain, hempty⟩ := drain_weight htame
      have hdrained : Steps q q.drain := drain_steps (.refl _)
      have hinput : q.drain.HasInput bindings := (hi.of_sameFrame hsteps.sameFrame).of_sameFrame hdrained.sameFrame
      obtain ⟨q', hrest⟩ := ih _ (by omega) (htame.steps hdrained) hempty hinput rfl
      refine ⟨q', fun rounds hr => ?_⟩
      have hex := hexecute hr
      obtain ⟨rounds, rfl⟩ := hpos hr
      rw [run, hex]
      exact hrest rounds (by omega)

/-- What a new plan asks of its nodes is known after finitely many rounds, and makes no terms up. -/
theorem demandsFor_ends {bindings : BindingSet} (hg : p.graph.Within V T) (hsize : p.isBackward = true → start < p.size)
    (hb : ∀ b ∈ bindings, b.Within V T) :
    ∃ enough d, (∀ rounds, enough ≤ rounds → p.demandsFor rounds bindings = some d) ∧
      ∀ id, ∀ b ∈ d.of id, b.Within V T := by
  cases hback : p.isBackward with
  | true =>
    obtain ⟨enough, d, hd, hwithin⟩ := hg.exists_settleDemand p.options.strategy (hsize hback) hb
    exact ⟨enough, d, fun rounds hr => (demandsFor_backward hback).trans (Graph.settleDemand_mono hd hr),
      hwithin.demand⟩
  | false =>
    have hforward (rounds : Nat) : p.demandsFor rounds bindings = _ := if_neg (by simp [hback])
    refine ⟨0, _, fun rounds _ => hforward rounds, fun id b hbm => ?_⟩
    rw [eq_empty_of_forward hback (hforward 0) hbm]
    exact fun v t hv => (nomatch hv)

theorem demandsFor_mono {rounds rounds' : Nat} {bindings : BindingSet} {d : Demands}
    (h : p.demandsFor rounds bindings = some d) (hle : rounds ≤ rounds') : p.demandsFor rounds' bindings = some d := by
  unfold demandsFor at h ⊢
  split
  · next hback =>
    rw [if_pos hback] at h
    exact Graph.settleDemand_mono h hle
  · next hback => rwa [if_neg hback] at h

/-- A plan for which nothing is outstanding is given another input. -/
theorem Tame.withInputAs {d : Demands} {bindings : BindingSet} (h : p.Tame V T) (hboard : p.board = [])
    (hd : ∀ x, ∀ b ∈ d.of x, b.Within V T) (hb : ∀ b ∈ inputOf bindings, b.Within V T) :
    (p.withInputAs d bindings).Tame V T := by
  obtain ⟨⟨progress, heq⟩, hx⟩ := p.withInputAs_spec d bindings
  have hgraph : (p.withInputAs d bindings).graph = p.graph := by rw [heq]
  have hbackward : (p.withInputAs d bindings).isBackward = p.isBackward := by rw [heq]
  refine ⟨by rw [hgraph]; exact h.graph, by rw [hgraph]; exact h.rules, fun x b hmem => ?_, ?_,
    h.bounded.withInputAs hboard, by rw [hbackward, hgraph]; exact h.plain, by rw [hbackward, hgraph]; exact h.apart⟩
  · rw [hx] at hmem
    split at hmem
    · exact hd x b hmem
    · exact h.demand x b hmem
  · rw [show (p.withInputAs d bindings).input = some (inputOf bindings) by rw [heq]]
    exact hb

theorem tame_build {s : RuleStore} {o : PlanOptions} (hplain : ∀ r ∈ s.rules, r.IsPlain)
    (hbuild : Plan.build s id o = .ok p) (hg : p.graph.Within V T) : p.Tame V T := by
  obtain ⟨r, hr, hback, _⟩ := build_eq_ok hbuild
  obtain ⟨_, _, _, hinput⟩ := build_new hbuild
  have huntouched := build_untouched hbuild
  refine ⟨hg, fun i n hn => hplain n.rule (build_rulesIn hbuild i n hn), fun x b hb => ?_, ?_, huntouched.bounded,
    fun hgoal n hn => ?_, fun hgoal n hn route hroute hstart => ?_⟩
  · rw [build_progressOf hbuild] at hb
    exact absurd hb (InsertionSet.not_mem_emptyCollection b)
  · rw [hinput]
    exact fun b hb => absurd hb (InsertionSet.not_mem_emptyCollection b)
  · exact SortedSet.isEmpty_iff.2 ((build_graph hbuild hr (hback ▸ hgoal)).1.kind start n hn).2.1
  · -- A route from the goal would come through a match to its consequent, which is empty.
    have hbackward := (build_graph hbuild hr (hback ▸ hgoal)).1
    obtain ⟨m, hm, _, link, hlink, _⟩ := hbackward.route_sound hn hroute
    rw [hstart] at hm
    have hrule := hbackward.rule start m hm
    obtain ⟨n', hn', hroot⟩ := hbackward.root
    obtain rfl : n' = m := Option.some.inj (hn'.symm.trans hm)
    rw [hroot, get_eq_ok.1 hr] at hrule
    have hmatched := (isEmpty_of_mem_findMatches hlink).2
    rw [← Option.some.inj hrule, ← hback, hgoal] at hmatched
    cases hmatched

/-- A plan for which nothing is outstanding comes to an end with every input that is not refused. -/
theorem Tame.completes {bindings : BindingSet} (h : p.Tame V T) (hboard : p.board = []) (hsize : start < p.size)
    (hb : ∀ b ∈ inputOf bindings, b.Within V T) (hcheck : p.checkInput (inputOf bindings) = .ok ()) :
    ∃ enough q, ∀ rounds, enough ≤ rounds → p.run rounds bindings = .ok q := by
  by_cases hsame : p.HasInput bindings
  · obtain ⟨q, hq⟩ := run_ends_given h hboard hsame
    exact ⟨_, q, hq⟩
  · obtain ⟨enough, d, hd, hwithin⟩ := demandsFor_ends h.graph (fun _ => hsize) hb
    have hgiven := p.hasInput_withInputAs d bindings
    have hempty : (p.withInputAs d bindings).board = [] := by
      obtain ⟨⟨progress, heq⟩, _⟩ := p.withInputAs_spec d bindings
      rw [heq, hboard]
    obtain ⟨q, hq⟩ := run_ends_given (h.withInputAs hboard hwithin hb) hempty hgiven
    refine ⟨enough + (p.withInputAs d bindings).weight (room V T) + 1, q, fun rounds hrounds => ?_⟩
    rw [← hq rounds (by omega)]
    obtain ⟨rounds, rfl⟩ : ∃ r, rounds = r + 1 := ⟨rounds - 1, by omega⟩
    have hex : p.execute (rounds + 1) bindings = (p.withInputAs d bindings).execute (rounds + 1) bindings := by
      unfold execute
      rw [withInput_new hsame, hcheck, withInput_same hgiven, hd _ (by omega)]
    rw [run_succ, run_succ, hex]

/-- A run makes no terms up either. -/
theorem Tame.runs {bindings : BindingSet} (h : p.Tame V T) (hboard : p.board = []) (hsize : start < p.size)
    (hb : ∀ b ∈ inputOf bindings, b.Within V T) (hruns : Runs bindings p q) : q.Tame V T := by
  by_cases hsame : p.HasInput bindings
  · exact h.steps (hruns.steps hsame).1
  · obtain ⟨rounds, d, hd, _, hrest⟩ := hruns.exists_demands hsame
    obtain ⟨enough, d', hd', hwithin⟩ := demandsFor_ends h.graph (fun _ => hsize) hb
    obtain rfl : d = d' := Option.some.inj
      ((demandsFor_mono hd (Nat.le_max_left rounds enough)).symm.trans (hd' _ (Nat.le_max_right rounds enough)))
    exact (h.withInputAs hboard hwithin hb).steps (hrest.steps (p.hasInput_withInputAs d bindings)).1

/-- An input that is not refused leads to results after finitely many rounds. -/
theorem run_ends_known {s : RuleStore} {o : PlanOptions} {bindings : BindingSet} (hplain : ∀ r ∈ s.rules, r.IsPlain)
    (hbuild : Plan.build s id o = .ok p) (hcheck : p.checkInput (inputOf bindings) = .ok ()) :
    ∃ enough q, ∀ rounds, enough ≤ rounds → p.run rounds bindings = .ok q := by
  obtain ⟨V, T, hg, hb⟩ := p.graph.exists_within (inputOf bindings).toList
  exact (tame_build hplain hbuild hg).completes (build_new hbuild).2.1 (build_regular hbuild).2 hb hcheck

/-- With rules that copy, look up or only take, every run comes to an end, whatever the rules are linked like: from
some number of rounds on, more rounds make no difference. -/
theorem run_ends {s : RuleStore} {o : PlanOptions} (hplain : ∀ r ∈ s.rules, r.IsPlain)
    (hbuild : Plan.build s id o = .ok p) (bindings : BindingSet) :
    ∃ enough result, result ≠ .error .outOfRounds ∧ ∀ rounds, enough ≤ rounds → p.run rounds bindings = result := by
  cases hcheck : p.checkInput (inputOf bindings) with
  | error f =>
    refine ⟨1, .error (.refused f), by simp, fun rounds hrounds => ?_⟩
    obtain ⟨rounds, rfl⟩ : ∃ r, rounds = r + 1 := ⟨rounds - 1, by omega⟩
    obtain ⟨_, _, _, _, _, _, _, hnone, _⟩ := build_eq_ok hbuild
    have hex : p.execute (rounds + 1) bindings = .error (.refused f) := by
      unfold execute
      rw [withInput_fresh hnone, hcheck]
      rfl
    rw [run_succ, hex]
  | ok _ =>
    obtain ⟨enough, q, hq⟩ := run_ends_known hplain hbuild hcheck
    exact ⟨enough, .ok q, by simp, hq⟩

theorem paths_run_ends : ∃ p, Plan.build .paths 2 .standard = .ok p ∧ ∃ enough result, result ≠ .error .outOfRounds ∧
    ∀ rounds, enough ≤ rounds → p.run rounds ∅ = result := by
  obtain ⟨p, hp⟩ := exists_build .paths 2 .standard rfl rfl
  refine ⟨p, hp, run_ends (fun r hr f => ?_) hp ∅⟩
  simp only [RuleStore.paths, List.mem_cons, List.not_mem_nil, or_false] at hr
  rcases hr with rfl | rfl | rfl <;> simp [Rule.holding, Rule.joinPaths, Rule.findPaths]

end Plan

end TripleChain
