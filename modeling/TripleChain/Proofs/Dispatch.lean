import TripleChain.Proofs.Start
/-!
# What handlers are given

`Docket` is what holds of one node at all times: it waits for one answer at most, in one direction; while it waits its
call is the one on the board; and the calls made for it, with that one, have no binding in common and together give the
handler what the node has handled. A node that has failed waits for ever.

A move changes the docket of one node (`Move.orderly`), and so the dockets of a plan are in order whatever is done
with it (`Reached.orderly`).
-/

namespace TripleChain

/-- The sets have no binding in common. -/
def BindingSet.Apart (s t : BindingSet) : Prop := ∀ b ∈ s, b ∉ t

/-! ## One node -/

/-- The progress of a node, the bindings of the calls that have been made for it, and the calls that wait are
in order. -/
structure Docket (id : NodeId) (n : Node) (r : Progress) (made : List BindingSet) (calls : List Task) : Prop where
  single : ¬ (r.backward = .requested ∧ r.forward = .requested)
  waits : calls = [] ∧ (r.isPending = true → r.failed = true) ∨
    ∃ s, calls = [⟨id, n.ruleId, n.rule, s⟩] ∧ r.isPending = true ∧ r.failed = false
  failed : r.failed = true ↔ ∃ s ∈ made, ∃ f, n.rule.invoke s = .error f
  apart : (made ++ calls.map (·.bindings)).Pairwise BindingSet.Apart
  handled : ∀ b, b ∈ r.handled ↔ ∃ s ∈ made ++ calls.map (·.bindings), b ∈ s

namespace Docket

variable {id : NodeId} {n : Node} {r r' : Progress} {made : List BindingSet} {calls : List Task} {d : Direction}
  {s : BindingSet}

theorem fresh (id : NodeId) (n : Node) (demand : BindingSet) : Docket id n { Progress.initial with demand } [] [] where
  single := by simp [Progress.initial]
  waits := .inl ⟨rfl, fun h => by cases h⟩
  failed := by simp [Progress.initial]
  apart := .nil
  handled b := by
    refine iff_of_false (InsertionSet.not_mem_emptyCollection b) ?_
    simp

theorem single_of_idle (h : r.isPending = false) : ¬ (r.backward = .requested ∧ r.forward = .requested) := by
  rintro ⟨hb, _⟩
  rw [Progress.isPending, hb] at h
  cases h

theorem calls_eq_nil (h : Docket id n r made calls) (hidle : r.isPending = false) : calls = [] := by
  rcases h.waits with ⟨hnil, _⟩ | ⟨s, _, hpending, _⟩
  · exact hnil
  · rw [hidle] at hpending
    cases hpending

/-- Whatever a node does without a call. -/
theorem idle (h : Docket id n r made calls) (hidle : r.isPending = false) (hidle' : r'.isPending = false)
    (hfailed : r'.failed = r.failed) (hhandled : r'.handled = r.handled) : Docket id n r' made calls where
  single := single_of_idle hidle'
  waits := .inl ⟨h.calls_eq_nil hidle, fun hp => by rw [hidle'] at hp; cases hp⟩
  failed := hfailed ▸ h.failed
  apart := h.apart
  handled := hhandled ▸ h.handled

/-- A node gives its handler what it has not had. -/
theorem give (h : Docket id n r made calls) (hidle : r.isPending = false) (hsound : r.failed = false)
    (hnew : ∀ b ∈ s, b ∉ r.handled) : Docket id n (r.give d s) made [⟨id, n.ruleId, n.rule, s⟩] := by
  have hnil := h.calls_eq_nil hidle
  subst hnil
  have hapart := h.apart
  have hhandled := h.handled
  rw [List.map_nil, List.append_nil] at hapart hhandled
  refine ⟨fun ⟨hb, hf⟩ => ?_, .inr ⟨s, rfl, r.isPending_give d s, by rw [r.failed_give, hsound]⟩, ?_, ?_, fun b => ?_⟩
  · -- The other direction is as it was.
    cases d with
    | backward =>
      have hforward : r.forward = .requested := hf
      rw [Progress.isPending, hforward] at hidle
      simp at hidle
    | forward =>
      have hbackward : r.backward = .requested := hb
      rw [Progress.isPending, hbackward] at hidle
      cases hidle
  · rw [r.failed_give]
    exact h.failed
  · rw [List.map_singleton, List.pairwise_append]
    refine ⟨hapart, List.pairwise_singleton .., fun a ha t ht b hb => ?_⟩
    rw [List.mem_singleton.1 ht]
    exact fun hbs => hnew b hbs ((hhandled b).2 ⟨a, ha, hb⟩)
  · rw [r.handled_give, InsertionSet.mem_union, hhandled, List.map_singleton]
    simp only [List.mem_append, List.mem_singleton, or_and_right, exists_or, exists_eq_left]

/-- A call that is answered goes from those that wait to those that have been made. -/
theorem answered (h : Docket id n r made [⟨id, n.ruleId, n.rule, s⟩])
    (hsingle : ¬ (r'.backward = .requested ∧ r'.forward = .requested))
    (hpending : r'.isPending = true → r'.failed = true) (hfailed : r'.failed = true ↔ ∃ f, n.rule.invoke s = .error f)
    (hhandled : r'.handled = r.handled) : Docket id n r' (made ++ [s]) [] where
  single := hsingle
  waits := .inl ⟨rfl, hpending⟩
  failed := by
    have hno : ¬ ∃ t ∈ made, ∃ f, n.rule.invoke t = .error f := by
      rw [← h.failed]
      rcases h.waits with ⟨hnil, _⟩ | ⟨_, _, _, hsound⟩
      · cases hnil
      · simp [hsound]
    simp only [hfailed, List.mem_append, List.mem_singleton, or_and_right, exists_or, exists_eq_left]
    rw [or_iff_right hno]
  apart := by simpa using h.apart
  handled b := by
    rw [hhandled, h.handled]
    simp

theorem not_pending_of_single (h : ¬ (r.backward = .requested ∧ r.forward = .requested))
    (hd : r.pendingDirection? = some d) : (r.withStage d .available).isPending = false := by
  obtain ⟨b, f, _, _, _, _⟩ := r
  unfold Progress.pendingDirection? at hd
  cases d <;> cases b <;> cases f <;> simp_all [Progress.isPending, Progress.withStage]

theorem take {out : BindingSet} (h : Docket id n r made [⟨id, n.ruleId, n.rule, s⟩]) (hd : r.pendingDirection? = some d)
    (hs : n.rule.invoke s = .ok out) : Docket id n (r.take d out) (made ++ [s]) [] := by
  have hidle : (r.take d out).isPending = false := Progress.isPending_take (not_pending_of_single h.single hd)
  have hsound : r.failed = false := by
    rcases h.waits with ⟨hnil, _⟩ | ⟨_, _, _, hsound⟩
    · cases hnil
    · exact hsound
  refine h.answered (single_of_idle hidle) (fun hp => by rw [hidle] at hp; cases hp) ?_ (r.handled_take d out)
  rw [r.failed_take, hsound, hs]
  simp

theorem fail {f : Failure} (h : Docket id n r made [⟨id, n.ruleId, n.rule, s⟩]) (hs : n.rule.invoke s = .error f) :
    Docket id n { r with failed := true } (made ++ [s]) [] :=
  h.answered h.single (fun _ => rfl) (iff_of_true rfl ⟨f, hs⟩) rfl

end Docket

namespace Plan

variable {p q r : Plan} {id x : NodeId} {n m : Node} {rules : List Rule}

/-! ## All nodes -/

/-- The bindings of the calls that have been made for a node. A rule takes part as one node. -/
def made (p : Plan) (n : Node) : List BindingSet := (p.invoked.filter (·.ruleId == n.ruleId)).map (·.bindings)

/-- The calls of a node that wait on the board. -/
def calls (p : Plan) (id : NodeId) : List Task := p.board.filter (·.node == id)

/-- All bindings that a node has had a call put on the board for, or made at once. -/
def given (p : Plan) (id : NodeId) (n : Node) : List BindingSet := p.made n ++ (p.calls id).map (·.bindings)

/-- The dockets of all nodes are in order, and every call has one. -/
structure Orderly (p : Plan) : Prop where
  docket : ∀ x n, p.graph.node? x = some n → Docket x n (p.progressOf x) (p.made n) (p.calls x)
  startIdle : (p.progressOf start).isPending = false
  board : ∀ t ∈ p.board, ∃ n, p.graph.node? t.node = some n
  record : ∀ i ∈ p.invoked, ∃ x n, p.graph.node? x = some n ∧ n.ruleId = i.ruleId

theorem mem_calls {t : Task} : t ∈ p.calls id ↔ t ∈ p.board ∧ t.node = id := by
  rw [calls, List.mem_filter, beq_iff_eq]

theorem mem_made {s : BindingSet} : s ∈ p.made n ↔ ∃ i ∈ p.invoked, i.ruleId = n.ruleId ∧ i.bindings = s := by
  simp only [made, List.mem_map, List.mem_filter, beq_iff_eq, and_assoc]

/-- What changes the docket of one node leaves the others in order. -/
theorem Orderly.of_node (h : p.Orderly) (hg : q.graph = p.graph)
    (hself : ∀ n, p.graph.node? id = some n → Docket id n (q.progressOf id) (q.made n) (q.calls id))
    (hprogress : ∀ x, x ≠ id → q.progressOf x = p.progressOf x)
    (hmade : ∀ x m, x ≠ id → p.graph.node? x = some m → q.made m = p.made m)
    (hcalls : ∀ x, x ≠ id → q.calls x = p.calls x) (hstart : (q.progressOf start).isPending = false)
    (hboard : ∀ t ∈ q.board, ∃ n, p.graph.node? t.node = some n)
    (hrecord : ∀ i ∈ q.invoked, ∃ x n, p.graph.node? x = some n ∧ n.ruleId = i.ruleId) : q.Orderly := by
  refine ⟨fun x m hm => ?_, hstart, by rwa [hg], by rwa [hg]⟩
  rw [hg] at hm
  by_cases hx : x = id
  · subst hx
    exact hself m hm
  · rw [hprogress x hx, hmade x m hx hm, hcalls x hx]
    exact h.docket x m hm

/-- A node that makes no call. -/
theorem Orderly.update {f : Progress → Progress} (h : p.Orderly) (hidle : (p.progressOf id).isPending = false)
    (hidle' : (f (p.progressOf id)).isPending = false)
    (hfailed : (f (p.progressOf id)).failed = (p.progressOf id).failed)
    (hhandled : (f (p.progressOf id)).handled = (p.progressOf id).handled) : (p.update id f).Orderly := by
  have hprogress (x : NodeId) : (p.update id f).progressOf x = if id = x then f (p.progressOf id) else p.progressOf x :=
    progressOf_update p id x f
  refine h.of_node rfl (fun n hn => ?_) (fun x hx => by rw [hprogress, if_neg (Ne.symm hx)]) (fun _ _ _ _ => rfl)
    (fun _ _ => rfl) ?_ h.board h.record
  · rw [hprogress, if_pos rfl]
    exact (h.docket id n hn).idle hidle hidle' hfailed hhandled
  · rw [hprogress]
    split
    · exact hidle'
    · exact h.startIdle

theorem calls_post (p : Plan) (id x : NodeId) (n : Node) (d : Direction) :
    (p.post id n d).calls x = if id = x then p.calls x ++ [p.nextTask id n] else p.calls x := by
  rw [calls, board_post, List.filter_append]
  split
  · next h => rw [List.filter_cons_of_pos (by simpa [nextTask] using h), List.filter_nil, calls]
  · next h => rw [List.filter_cons_of_neg (by simpa [nextTask] using h), List.filter_nil, List.append_nil, calls]

theorem Orderly.dispatch {d : Direction} (h : p.Orderly) (ready : p.Ready id n) : (p.post id n d).Orderly := by
  refine h.of_node rfl (fun m hm => ?_) (fun x hx => by rw [progressOf_post, if_neg (Ne.symm hx)]) (fun _ _ _ _ => rfl)
    (fun x hx => by rw [calls_post, if_neg (Ne.symm hx)]) ?_ (fun t ht => ?_) h.record
  · obtain rfl : n = m := Option.some.inj (ready.node.symm.trans hm)
    have hdocket := h.docket id n hm
    rw [progressOf_post, if_pos rfl, calls_post, if_pos rfl, hdocket.calls_eq_nil ready.idle]
    exact hdocket.give ready.idle ready.sound fun b hb => (mem_delta.1 hb).2
  · rw [progressOf_post, if_neg ready.inner]
    exact h.startIdle
  · rcases List.mem_append.1 ht with ht | ht
    · exact h.board t ht
    · rw [List.mem_singleton.1 ht]
      exact ⟨n, ready.node⟩

/-- A call that waits is the only one of its node. -/
theorem Orderly.exists_call {t : Task} (h : p.Orderly) (ht : t ∈ p.board) :
    ∃ n, p.graph.node? t.node = some n ∧ t = ⟨t.node, n.ruleId, n.rule, t.bindings⟩ ∧ p.calls t.node = [t] ∧
      (p.progressOf t.node).isPending = true := by
  obtain ⟨n, hn⟩ := h.board t ht
  have hmem : t ∈ p.calls t.node := mem_calls.2 ⟨ht, rfl⟩
  rcases (h.docket t.node n hn).waits with ⟨hnil, _⟩ | ⟨s, hcalls, hpending, _⟩
  · rw [hnil] at hmem
    cases hmem
  · rw [hcalls, List.mem_singleton] at hmem
    exact ⟨n, hn, by rw [hmem], by rw [hcalls, ← hmem], hpending⟩

theorem made_record (p : Plan) (t : Task) (others : List Task) (n : Node) :
    (p.record [t] others).made n = if t.ruleId = n.ruleId then p.made n ++ [t.bindings] else p.made n := by
  unfold made
  rw [invoked_record, List.filter_append, List.map_append]
  split
  · next h => simp [Task.invocation, h]
  · next h => simp [Task.invocation, h]

theorem calls_record {before after : List Task} {t : Task} (waits : p.board = before ++ t :: after)
    (hone : p.calls t.node = [t]) (x : NodeId) :
    (p.record [t] (before ++ after)).calls x = if t.node = x then [] else p.calls x := by
  have hsplit : p.calls x = before.filter (·.node == x) ++ (t :: after).filter (·.node == x) := by
    rw [calls, waits, List.filter_append]
  rw [calls, board_record, List.filter_append]
  split
  · next hx =>
    have hlen := congrArg List.length (hsplit.symm.trans (hx ▸ hone))
    rw [List.filter_cons_of_pos (by simpa using hx), List.length_append, List.length_cons,
      List.length_singleton] at hlen
    exact List.eq_nil_of_length_eq_zero (by rw [List.length_append]; omega)
  · next hx => rw [hsplit, List.filter_cons_of_neg (by simpa using hx)]

/-- A call is put on record: one call more of the node has been made and none of it waits. -/
theorem Orderly.putOnRecord {before after : List Task} {t : Task} {f : Progress → Progress} (h : p.Orderly)
    (hg : p.graph.Regular rules) (waits : p.board = before ++ t :: after) (hn : p.graph.node? t.node = some n)
    (hf : Docket t.node n (f (p.progressOf t.node)) (p.made n ++ [t.bindings]) []) :
    ((p.record [t] (before ++ after)).update t.node f).Orderly := by
  obtain ⟨n', hn', heq, hone, hpending⟩ := h.exists_call (t := t) (by simp [waits])
  obtain rfl : n = n' := Option.some.inj (hn.symm.trans hn')
  have hruleId : t.ruleId = n.ruleId := congrArg Task.ruleId heq
  have hinner : t.node ≠ start := fun hs => by
    rw [hs, h.startIdle] at hpending
    cases hpending
  have hprogress (x : NodeId) : ((p.record [t] (before ++ after)).update t.node f).progressOf x =
      if t.node = x then f (p.progressOf t.node) else p.progressOf x := by
    rw [progressOf_update, progressOf_record, progressOf_record]
  have hmade (k : Node) : ((p.record [t] (before ++ after)).update t.node f).made k =
      if t.ruleId = k.ruleId then p.made k ++ [t.bindings] else p.made k :=
    made_record p t (before ++ after) k
  have hcalls (x : NodeId) : ((p.record [t] (before ++ after)).update t.node f).calls x =
      if t.node = x then [] else p.calls x := calls_record waits hone x
  refine h.of_node rfl (fun k hk => ?_) (fun x hx => by rw [hprogress, if_neg (Ne.symm hx)]) (fun x k hx hk => ?_)
    (fun x hx => by rw [hcalls, if_neg (Ne.symm hx)]) ?_ (fun a ha => h.board a ?_) fun i hi => ?_
  · obtain rfl : n = k := Option.some.inj (hn.symm.trans hk)
    rw [hprogress, if_pos rfl, hmade, if_pos hruleId, hcalls, if_pos rfl]
    exact hf
  · rw [hmade, if_neg fun hk' => hx (hg.once x t.node k n hk hn (hk'.symm.trans hruleId))]
  · rw [hprogress, if_neg hinner]
    exact h.startIdle
  · rw [waits]
    exact List.mem_append.2 ((List.mem_append.1 ha).imp_right (List.mem_cons_of_mem t))
  · rcases List.mem_append.1 hi with hi | hi
    · exact h.record i hi
    · rw [List.mem_singleton.1 hi]
      exact ⟨t.node, n, hn, hruleId.symm⟩

/-- A call is made: what has waited is on record. -/
theorem Orderly.call {before after : List Task} {t : Task} (h : p.Orderly)
    (hg : p.graph.Regular rules) (waits : p.board = before ++ t :: after) :
    ((p.record [t] (before ++ after)).answer t.node (t.rule.invoke t.bindings)).Orderly := by
  obtain ⟨n, hn, heq, hone, hpending⟩ := h.exists_call (t := t) (by simp [waits])
  obtain ⟨d, hd⟩ := Progress.isPending_iff.1 hpending
  have hdocket := h.docket t.node n hn
  rw [hone, heq] at hdocket
  have hrule : t.rule = n.rule := congrArg Task.rule heq
  have hlt : t.node < (p.record [t] (before ++ after)).size := by
    rw [size_record]
    exact Graph.lt_size hn
  rw [answer_of_pending (d := d) hlt (by rwa [progressOf_record]), hrule]
  cases hs : n.rule.invoke t.bindings with
  | ok s => exact h.putOnRecord hg waits hn (hdocket.take hd hs)
  | error f => exact h.putOnRecord hg waits hn (hdocket.fail hs)

/-- Every move keeps the dockets in order. -/
theorem Move.orderly (hm : Move p q) (h : p.Orderly) (hg : p.graph.Regular rules) : q.Orderly := by
  cases hm with
  | call waits => exact h.call hg waits
  | advance step kept waits =>
    cases step with
    | record invoked =>
      have heq : invoked = p.invoked := kept
      subst heq
      exact h
    | goal =>
      exact h.update h.startIdle (Progress.isPending_conclude h.startIdle) (Progress.failed_conclude ..)
        (Progress.handled_conclude ..)
    | premise =>
      exact h.update h.startIdle (Progress.isPending_conclude h.startIdle) (Progress.failed_conclude ..)
        (Progress.handled_conclude ..)
    | settle ready =>
      exact h.update ready.idle (Progress.isPending_settled ready.idle) (Progress.failed_withStage ..)
        (Progress.handled_withStage ..)
    | dispatch _ ready => exact h.dispatch ready
    | answer hperm => exact absurd waits (not_prefix_of_answer hperm _)

/-! ## Nothing is forgotten -/

/-- What the handlers have been given and have answered is still there. -/
structure Grows (p q : Plan) : Prop where
  handled : ∀ x, ∀ b ∈ (p.progressOf x).handled, b ∈ (q.progressOf x).handled
  output : ∀ x, x ≠ start → ∀ b ∈ (p.progressOf x).output, b ∈ (q.progressOf x).output
  given : ∀ x n, p.graph.node? x = some n → ∀ s ∈ p.given x n, s ∈ q.given x n

theorem Grows.refl (p : Plan) : p.Grows p := ⟨fun _ _ h => h, fun _ _ _ h => h, fun _ _ _ _ h => h⟩

theorem Grows.trans (h : p.Grows q) (hg : q.graph = p.graph) (h' : q.Grows r) : p.Grows r where
  handled x b hb := h'.handled x b (h.handled x b hb)
  output x hx b hb := h'.output x hx b (h.output x hx b hb)
  given x n hn s hs := h'.given x n (by rwa [hg]) s (h.given x n hn s hs)

theorem grows_update {f : Progress → Progress}
    (hhandled : ∀ b ∈ (p.progressOf id).handled, b ∈ (f (p.progressOf id)).handled)
    (houtput : id ≠ start → ∀ b ∈ (p.progressOf id).output, b ∈ (f (p.progressOf id)).output) :
    p.Grows (p.update id f) := by
  refine ⟨fun x b hb => ?_, fun x hx b hb => ?_, fun _ _ _ _ h => h⟩
  · rw [progressOf_update]
    split
    · next heq => exact hhandled b (heq ▸ hb)
    · exact hb
  · rw [progressOf_update]
    split
    · next heq => exact houtput (heq ▸ hx) b (heq ▸ hb)
    · exact hb

theorem grows_answer (p : Plan) (id : NodeId) (result : Except Failure BindingSet) : p.Grows (p.answer id result) := by
  rcases p.answer_cases id result with heq | ⟨d, _, _, ⟨s, _, heq⟩ | ⟨f, _, heq⟩⟩
  · rw [heq]
    exact .refl p
  · rw [heq]
    refine grows_update (fun b hb => by rwa [Progress.handled_take]) fun _ b hb => ?_
    rw [Progress.output_take]
    exact InsertionSet.mem_union.2 (.inl hb)
  · rw [heq]
    exact grows_update (fun _ hb => hb) fun _ _ hb => hb

/-- A call that is taken off the board and put on record is still one that the handler has been given. -/
theorem grows_record {before after : List Task} {t : Task} (h : p.Orderly) (waits : p.board = before ++ t :: after) :
    p.Grows (p.record [t] (before ++ after)) := by
  obtain ⟨k, hk, heq, _, _⟩ := h.exists_call (t := t) (by simp [waits])
  refine ⟨fun _ _ h => h, fun _ _ _ h => h, fun x n hn s hs => List.mem_append.2 ?_⟩
  rw [made_record]
  rcases List.mem_append.1 hs with hs | hs
  · left
    split
    · exact List.mem_append_left _ hs
    · exact hs
  · obtain ⟨a, ha, rfl⟩ := List.mem_map.1 hs
    obtain ⟨hmem, rfl⟩ := mem_calls.1 ha
    rw [waits, List.mem_append, List.mem_cons, or_left_comm, ← List.mem_append] at hmem
    rcases hmem with rfl | hmem
    · obtain rfl : k = n := Option.some.inj (hk.symm.trans hn)
      left
      rw [if_pos (congrArg Task.ruleId heq)]
      exact List.mem_append_right _ (List.mem_singleton.2 rfl)
    · exact .inr (List.mem_map.2 ⟨a, mem_calls.2 ⟨hmem, rfl⟩, rfl⟩)

theorem grows_addTask (p : Plan) (t : Task) : p.Grows (p.addTask t) := by
  refine ⟨fun _ _ h => h, fun _ _ _ h => h, fun x m _ s hs => ?_⟩
  refine List.mem_append.2 ((List.mem_append.1 hs).imp_right fun hs => ?_)
  obtain ⟨a, ha, rfl⟩ := List.mem_map.1 hs
  obtain ⟨ha, hx⟩ := mem_calls.1 ha
  exact List.mem_map.2 ⟨a, mem_calls.2 ⟨List.mem_append_left _ ha, hx⟩, rfl⟩

theorem grows_give (p : Plan) (id : NodeId) (d : Direction) (s : BindingSet) : p.Grows (p.update id (·.give d s)) := by
  refine grows_update (fun b hb => ?_) fun _ b hb => ?_
  · rw [Progress.handled_give]
    exact InsertionSet.mem_union.2 (.inl hb)
  · rwa [Progress.output_give]

/-- No move forgets anything. -/
theorem Move.grows (hm : Move p q) (h : p.Orderly) : p.Grows q := by
  cases hm with
  | call waits => exact (grows_record h waits).trans rfl (grows_answer _ _ _)
  | advance step kept waits =>
    cases step with
    | record invoked =>
      have heq : invoked = p.invoked := kept
      subst heq
      exact .refl p
    | goal => exact grows_update (fun b hb => by rwa [Progress.handled_conclude]) fun hs => absurd rfl hs
    | premise => exact grows_update (fun b hb => by rwa [Progress.handled_conclude]) fun hs => absurd rfl hs
    | settle =>
      exact grows_update (fun b hb => by rwa [Progress.handled_withStage])
        fun _ b hb => by rwa [Progress.output_withStage]
    | dispatch => exact (grows_give ..).trans rfl (grows_addTask ..)
    | answer hperm => exact absurd waits (not_prefix_of_answer hperm _)

/-! ## All that can be done with a plan -/

/-- What becomes of a plan that is executed with any inputs, drained and run, in any order. -/
inductive Reached (p : Plan) : Plan → Prop
  | refl : Reached p p
  | execute {q r : Plan} {rounds : Nat} {bindings : BindingSet} {waits : Bool} (h : Reached p q)
      (executed : q.execute rounds bindings = .ok (r, waits)) : Reached p r
  | drain {q : Plan} (h : Reached p q) : Reached p q.drain
  | run {q r : Plan} {rounds : Nat} {bindings : BindingSet} (h : Reached p q) (ran : q.run rounds bindings = .ok r) :
      Reached p r

/-- What moves keep, and taking over an input, is kept whatever is done. -/
theorem Reached.induction {I : Plan → Prop} (h : Reached p q) (hp : I p)
    (hask : ∀ q d bindings, I q → I (q.withInputAs d bindings)) (hmove : ∀ q r, Move q r → I q → I r) : I q := by
  have hmoves : ∀ {q r}, Moves q r → I q → I r := fun hm hq => by
    induction hm with
    | refl => exact hq
    | tail _ hm ih => exact hmove _ _ hm ih
  have hexecute : ∀ {q r rounds bindings waits}, q.execute rounds bindings = .ok (r, waits) → I q → I r := by
    intro q r rounds bindings waits hex hq
    obtain ⟨m, hm, hs⟩ := execute_eq_ok.1 hex
    rcases withInput_eq_ok hm with ⟨_, rfl⟩ | ⟨d, _, _, rfl⟩
    · exact hmoves (settle_moves hs) hq
    · exact hmoves (settle_moves hs) (hask q d bindings hq)
  have hrun : ∀ {rounds q r bindings}, q.run rounds bindings = .ok r → I q → I r := by
    intro rounds
    induction rounds with
    | zero => exact fun h => by cases h
    | succ rounds ih =>
      intro q r bindings h hq
      rw [Plan.run] at h
      split at h
      · cases h
      · next m hm => exact ih h (hmoves (drain_moves m) (hexecute hm hq))
      · next m hm =>
        cases h
        exact hexecute hm hq
  induction h with
  | refl => exact hp
  | execute _ hex ih => exact hexecute hex ih
  | drain _ ih => exact hmoves (drain_moves _) ih
  | run _ hr ih => exact hrun hr ih

/-- What a plan has in common with what becomes of it. -/
structure Descends (p q : Plan) : Prop where
  graph : q.graph = p.graph
  isBackward : q.isBackward = p.isBackward
  order : q.order = p.order
  orderly : q.Orderly
  grows : p.Grows q

theorem Orderly.withInputAs (h : p.Orderly) (d : Demands) (bindings : BindingSet) :
    Descends p (p.withInputAs d bindings) := by
  obtain ⟨⟨progress, heq⟩, hprogress⟩ := p.withInputAs_spec d bindings
  have hdemand (x : NodeId) : ∃ demand, (p.withInputAs d bindings).progressOf x = { p.progressOf x with demand } := by
    rw [hprogress]
    split
    · exact ⟨_, rfl⟩
    · exact ⟨(p.progressOf x).demand, rfl⟩
  have hboard : (p.withInputAs d bindings).board = p.board := by rw [heq]
  have hinvoked : (p.withInputAs d bindings).invoked = p.invoked := by rw [heq]
  have hmade (n : Node) : (p.withInputAs d bindings).made n = p.made n := by rw [made, hinvoked]; rfl
  have hcalls (x : NodeId) : (p.withInputAs d bindings).calls x = p.calls x := by rw [calls, hboard]; rfl
  have hg : (p.withInputAs d bindings).graph = p.graph := by rw [heq]
  refine ⟨hg, by rw [heq], by rw [heq], ⟨fun x n hn => ?_, ?_, by rw [hboard, hg]; exact h.board,
    by rw [hinvoked, hg]; exact h.record⟩, ⟨fun x b hb => ?_, fun x _ b hb => ?_, fun x n _ s hs => ?_⟩⟩
  · rw [hg] at hn
    obtain ⟨demand, hx⟩ := hdemand x
    have hdocket := h.docket x n hn
    rw [hx, hmade, hcalls]
    exact ⟨hdocket.single, hdocket.waits, hdocket.failed, hdocket.apart, hdocket.handled⟩
  · obtain ⟨demand, hx⟩ := hdemand start
    rw [hx]
    exact h.startIdle
  · obtain ⟨demand, hx⟩ := hdemand x
    rwa [hx]
  · obtain ⟨demand, hx⟩ := hdemand x
    rwa [hx]
  · rwa [given, hmade, hcalls]

theorem Reached.descends (h : Reached p q) (ho : p.Orderly) (hg : p.graph.Regular rules) : Descends p q := by
  refine h.induction ⟨rfl, rfl, rfl, ho, .refl p⟩ (fun q d bindings hq => ?_) fun q r hm hq => ?_
  · have hnext := hq.orderly.withInputAs d bindings
    exact ⟨hnext.graph.trans hq.graph, hnext.isBackward.trans hq.isBackward, hnext.order.trans hq.order, hnext.orderly,
      hq.grows.trans hq.graph hnext.grows⟩
  · have hframe := Moves.sameFrame (.single hm)
    exact ⟨hframe.graph.trans hq.graph, hframe.isBackward.trans hq.isBackward, hframe.order.trans hq.order,
      hm.orderly hq.orderly (by rwa [hq.graph]), hq.grows.trans hq.graph (hm.grows hq.orderly)⟩

variable {s : RuleStore} {o : PlanOptions}

theorem build_orderly {id : RuleId} (h : Plan.build s id o = .ok p) : p.Orderly := by
  obtain ⟨hprogress, hboard, hinvoked, _⟩ := build_new h
  have hinitial (x : NodeId) : p.progressOf x = { Progress.initial with demand := ∅ } := by
    rw [progressOf, hprogress]
    rfl
  refine ⟨fun x n _ => ?_, by rw [hinitial]; rfl, by rw [hboard]; simp, by rw [hinvoked]; simp⟩
  rw [hinitial, made, hinvoked, calls, hboard]
  exact .fresh x n ∅

theorem Orderly.nodup (h : p.Orderly) : (p.board.map Task.node).Nodup := by
  refine List.nodup_iff_count_le_one.2 fun x => ?_
  have hcount : (p.board.map Task.node).count x = (p.calls x).length := by
    rw [List.count, List.countP_map, List.countP_eq_length_filter]
    rfl
  rw [hcount]
  cases hcalls : p.calls x with
  | nil => simp
  | cons t l =>
    obtain ⟨ht, rfl⟩ := mem_calls.1 (hcalls ▸ List.mem_cons_self : t ∈ p.calls x)
    obtain ⟨_, _, _, hone, _⟩ := h.exists_call ht
    rw [← hcalls, hone]
    simp

/-- Handlers are given everything once. Whatever has been done with a plan, no node waits in both directions; the calls
on the board are of different nodes that wait; and the bindings that a node has had calls for, on the board or made,
share no binding and are those that it has handled. Nothing of this is ever taken back, and neither is what the nodes
other than the start have given. -/
theorem given_once {id : RuleId} (hbuild : Plan.build s id o = .ok p) (h : Reached p q) :
    (∀ x n, q.graph.node? x = some n →
      ¬ ((q.progressOf x).backward = .requested ∧ (q.progressOf x).forward = .requested)) ∧
    (q.board.map Task.node).Nodup ∧
    (∀ t ∈ q.board, (q.progressOf t.node).isPending = true ∧
      ∃ n, q.graph.node? t.node = some n ∧ t = ⟨t.node, n.ruleId, n.rule, t.bindings⟩) ∧
    (∀ x n, q.graph.node? x = some n → (q.given x n).Pairwise BindingSet.Apart ∧
      ∀ b, b ∈ (q.progressOf x).handled ↔ ∃ s ∈ q.given x n, b ∈ s) ∧
    ∀ r, Reached q r → q.Grows r := by
  have hg := (build_regular hbuild).1
  have hq := h.descends (build_orderly hbuild) hg
  refine ⟨fun x n hn => (hq.orderly.docket x n hn).single, hq.orderly.nodup, fun t ht => ?_, fun x n hn => ?_,
    fun r hr => (hr.descends hq.orderly (hq.graph ▸ hg)).grows⟩
  · obtain ⟨n, hn, heq, _, hpending⟩ := hq.orderly.exists_call ht
    exact ⟨hpending, n, hn, heq⟩
  · exact ⟨(hq.orderly.docket x n hn).apart, (hq.orderly.docket x n hn).handled⟩

/-- All three paths are found, and on the way no rule is given a path twice, though the rule that joins paths feeds
itself. -/
theorem paths_given_once : ∃ p q answers, Plan.build .paths 2 .standard = .ok p ∧ Reached p q ∧
    q.results = .ok answers ∧ answers.size = 3 ∧
      ∀ x n, q.graph.node? x = some n → (q.given x n).Pairwise BindingSet.Apart ∧
        ∀ b, b ∈ (q.progressOf x).handled ↔ ∃ s ∈ q.given x n, b ∈ s := by
  have hreaches : reaches .paths 2 .standard 50 (fun answers => answers.size == 3) = true := by decide +kernel
  obtain ⟨p, q, answers, hp, hq, hanswers, hsize⟩ := exists_run_of_reaches hreaches
  obtain ⟨_, _, _, hgiven, _⟩ := given_once hp (.run .refl hq)
  exact ⟨p, q, answers, hp, .run .refl hq, hanswers, beq_iff_eq.1 hsize, hgiven⟩

end Plan

end TripleChain
