import TripleChain.Proofs.Dispatch
/-!
# The verdict on a run

A run of a goal that comes to an end has come to rest (`Plan.quiet_of_run`): no call waits, so that a node is pending
only if its handler has failed. Without such a node all nodes are available, lowest first, and have handled their
inputs, and there are results; with one the plan is stalled, and this is how it is reported (`Plan.run_verdict`).
-/

namespace TripleChain

namespace Plan

variable {p q r : Plan} {s : RuleStore} {o : PlanOptions} {bindings : BindingSet}

/-- A handler that the plan has called has failed. -/
def CallFailed (s : RuleStore) (p : Plan) : Prop :=
  ∃ i ∈ p.invoked, ∃ rule f, s.rules[i.ruleId]? = some rule ∧ rule.invoke i.bindings = .error f

/-- The plan is reported as stalled. -/
def Stalled (p : Plan) : Prop := ∃ f, p.results = .error f ∧ f.code = .planStalled

/-! ## At rest -/

theorem exists_last_turn {rounds : Nat} (h : q.run rounds bindings = .ok r) :
    ∃ m rounds, Reached q m ∧ m.execute rounds bindings = .ok (r, false) := by
  have hall : ∀ {m}, Reached q m → m.run rounds bindings = .ok r →
      ∃ m rounds, Reached q m ∧ m.execute rounds bindings = .ok (r, false) := by
    clear h
    induction rounds with
    | zero => exact fun _ h => by cases h
    | succ rounds ih =>
      intro m hm h
      rw [Plan.run] at h
      split at h
      · cases h
      · next k hk => exact ih (.drain (.execute hm hk)) h
      · next k hk =>
        cases h
        exact ⟨m, rounds + 1, hm, hk⟩
  exact hall .refl h

/-- A goal whose run has ended is at rest. -/
theorem quiet_of_run {id : RuleId} {rounds : Nat} (hbuild : Plan.build s id o = .ok p) (hb : p.isBackward = true)
    (h : Reached p q) (hrun : q.run rounds bindings = .ok r) : r.Quiet := by
  have ho := build_orderly hbuild
  have hg := (build_regular hbuild).1
  obtain ⟨m, rounds, hm, hex⟩ := exists_last_turn hrun
  obtain ⟨k, hk, hs⟩ := execute_eq_ok.1 hex
  have hq := h.descends ho hg
  have hmq := hm.descends hq.orderly (hq.graph ▸ hg)
  have hkm : k.graph = m.graph ∧ k.isBackward = m.isBackward ∧ k.order = m.order := by
    rcases withInput_eq_ok hk with ⟨_, rfl⟩ | ⟨d, _, _, rfl⟩
    · exact ⟨rfl, rfl, rfl⟩
    · have hd := hmq.orderly.withInputAs d bindings
      exact ⟨hd.graph, hd.isBackward, hd.order⟩
  refine settle_quiet (by rw [hkm.2.1, hmq.isBackward, hq.isBackward, hb]) (fun x hx => ?_) hs
  obtain ⟨_, _, _, _, horder, _⟩ := build_eq_ok hbuild
  rw [size, hkm.1, hmq.graph, hq.graph] at hx
  rw [hkm.2.2, hmq.order, hq.order, horder]
  exact Graph.mem_order hx

/-- When no call waits, only failed nodes are pending. -/
theorem Orderly.clear (h : p.Orderly) (hboard : p.board = [])
    (hsound : ∀ x n, p.graph.node? x = some n → (p.progressOf x).failed = false) : p.Clear := by
  refine fun x n hn => ⟨?_, hsound x n hn⟩
  have hcalls : p.calls x = [] := by rw [calls, hboard]; rfl
  rcases (h.docket x n hn).waits with ⟨_, hfailed⟩ | ⟨t, ht, _⟩
  · rw [hsound x n hn] at hfailed
    simpa using hfailed
  · rw [hcalls] at ht
    cases ht

/-- The nodes that have failed are those whose handlers have. -/
theorem Orderly.callFailed_iff (h : p.Orderly)
    (hrule : ∀ x n, p.graph.node? x = some n → s.rules[n.ruleId]? = some n.rule) :
    CallFailed s p ↔ ∃ x n, p.graph.node? x = some n ∧ (p.progressOf x).failed = true := by
  constructor
  · rintro ⟨i, hi, rule, f, hget, hf⟩
    obtain ⟨x, n, hn, hid⟩ := h.record i hi
    rw [← hid, hrule x n hn, Option.some.injEq] at hget
    subst hget
    exact ⟨x, n, hn, (h.docket x n hn).failed.2 ⟨i.bindings, mem_made.2 ⟨i, hi, hid.symm, rfl⟩, f, hf⟩⟩
  · rintro ⟨x, n, hn, hfailed⟩
    obtain ⟨t, ht, f, hf⟩ := (h.docket x n hn).failed.1 hfailed
    obtain ⟨i, hi, hid, rfl⟩ := mem_made.1 ht
    exact ⟨i, hi, n.rule, f, hid ▸ hrule x n hn, hf⟩

theorem stalled_of_failed {x : NodeId} {n : Node} (hb : p.isBackward = true) (hn : p.graph.node? x = some n)
    (hfailed : (p.progressOf x).failed = true) : p.Stalled := by
  have hmem : x ∈ p.nodeIds.filter fun id => (p.progressOf id).failed :=
    List.mem_filter.2 ⟨List.mem_range.2 (Graph.lt_size hn), hfailed⟩
  unfold Stalled results
  rw [hb]
  cases hl : p.nodeIds.filter fun id => (p.progressOf id).failed with
  | nil =>
    rw [hl] at hmem
    cases hmem
  | cons y l =>
    have hy : y ∈ p.nodeIds := List.mem_of_mem_filter (hl ▸ List.mem_cons_self)
    obtain ⟨m, hm⟩ := Graph.exists_node (List.mem_range.1 hy)
    rw [List.head?_cons, Option.bind_some, hm]
    exact ⟨_, rfl, rfl⟩

/-! ## The verdict -/

/-- A goal whose run has ended has results or is stalled, and it is stalled exactly if a handler has failed. With
results nothing is left to do: every node is available, no call waits, and whatever is now the input of a node its
handler has been given, knowledge gaps apart. -/
theorem run_verdict {id : RuleId} {rounds : Nat} (hbuild : Plan.build s id o = .ok p) (hb : p.isBackward = true)
    (h : Reached p q) (hrun : q.run rounds bindings = .ok r) :
    ((∃ answers, r.results = .ok answers) ∨ r.Stalled) ∧
    (r.Stalled ↔ CallFailed s r) ∧
    ((∃ answers, r.results = .ok answers) →
      (∀ x < r.size, r.isAvailable x = true) ∧ r.board = [] ∧
      ∀ x n, x ≠ start → r.graph.node? x = some n → n.hasGap = false →
        ∀ b ∈ r.nodeInput x n, ∃ i ∈ r.invoked, i.ruleId = n.ruleId ∧ b ∈ i.bindings) := by
  have hregular := (build_regular hbuild).1
  have hr := (Reached.run h hrun).descends (build_orderly hbuild) hregular
  have hquiet := quiet_of_run hbuild hb h hrun
  have hback : r.isBackward = true := hr.isBackward.trans hb
  have hrule : ∀ x n, r.graph.node? x = some n → s.rules[n.ruleId]? = some n.rule := by
    rw [hr.graph]
    exact hregular.rule
  have hgraph : r.graph.Backward s.rules o.strategy id := by
    obtain ⟨rule, hget, hside, _⟩ := build_eq_ok hbuild
    rw [hr.graph]
    exact (build_graph hbuild hget (hside ▸ hb)).1
  have hfailed := hr.orderly.callFailed_iff hrule
  by_cases hf : ∃ x n, r.graph.node? x = some n ∧ (r.progressOf x).failed = true
  · obtain ⟨x, n, hn, hx⟩ := hf
    have hstalled := stalled_of_failed hback hn hx
    refine ⟨.inr hstalled, iff_of_true hstalled (hfailed.2 ⟨x, n, hn, hx⟩), fun ⟨answers, hanswers⟩ => ?_⟩
    obtain ⟨f, hresults, _⟩ := hstalled
    rw [hanswers] at hresults
    cases hresults
  · have hsound : ∀ x n, r.graph.node? x = some n → (r.progressOf x).failed = false := fun x n hn =>
      Bool.eq_false_iff.2 fun hx => hf ⟨x, n, hn, hx⟩
    have hclear := hr.orderly.clear hquiet.board hsound
    have hresults := hquiet.results hclear hgraph hback
    refine ⟨.inl ⟨_, hresults⟩, iff_of_false ?_ fun hcall => hf (hfailed.1 hcall), fun _ =>
      ⟨fun x hx => ?_, hquiet.board, fun x n hx hn hgap b hbin => ?_⟩⟩
    · rintro ⟨f, hstalled, _⟩
      rw [hresults] at hstalled
      cases hstalled
    · obtain ⟨n, hn⟩ := Graph.exists_node hx
      exact hquiet.available hclear hgraph hback hn
    · have hhandled := (hquiet.inner hclear hgraph hback hx hn).2 hgap b hbin
      have hcalls : r.calls x = [] := by rw [calls, hquiet.board]; rfl
      obtain ⟨t, ht, hbt⟩ := ((hr.orderly.docket x n hn).handled b).1 hhandled
      rw [hcalls, List.map_nil, List.append_nil] at ht
      obtain ⟨i, hi, hid, rfl⟩ := mem_made.1 ht
      exact ⟨i, hi, hid, hbt⟩

/-- The run that finds all paths: with results, and without a failed handler. -/
theorem paths_verdict : ∃ p q answers, Plan.build .paths 2 .standard = .ok p ∧ p.run 50 ∅ = .ok q ∧
    q.results = .ok answers ∧ answers.size = 3 ∧ ¬ CallFailed .paths q ∧ ∀ x < q.size, q.isAvailable x = true := by
  have hreaches : reaches .paths 2 .standard 50 (fun answers => answers.size == 3) = true := by decide +kernel
  obtain ⟨p, q, answers, hp, hq, hanswers, hsize⟩ := exists_run_of_reaches hreaches
  have hb : p.isBackward = true := by
    obtain ⟨rule, hget, hside, _⟩ := build_eq_ok hp
    cases hget
    exact hside
  obtain ⟨_, hstalled, hrest⟩ := run_verdict hp hb .refl hq
  refine ⟨p, q, answers, hp, hq, hanswers, beq_iff_eq.1 hsize, fun hcall => ?_, (hrest ⟨answers, hanswers⟩).1⟩
  obtain ⟨f, hf, _⟩ := hstalled.2 hcall
  rw [hanswers] at hf
  cases hf

end Plan

end TripleChain
