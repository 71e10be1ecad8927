import TripleChain.Proofs.GraphShape
/-!
# The order of a plan

`Graph.orderFrom` takes nodes off a queue. What it keeps is `Graph.Sorting`: a node is in the queue or has been taken
off once all its producers have been, and not before. In a regular graph no node is left out (`Regular.sorted`), so that
`Graph.order` never has to fall back on the order of the numbers.
-/

namespace TripleChain

namespace Graph

variable {rules : List Rule} {g : Graph} {queue done : List NodeId} {id : NodeId}

theorem mem_producersOf {d c : NodeId} : d ∈ g.producersOf c ↔ g.Feeds d c := by
  unfold producersOf Feeds
  cases g.node? c with
  | none => simp
  | some n => simp [SortedMap.mem_keys]

theorem nodup_consumersOf (g : Graph) (id : NodeId) : (g.consumersOf id).Nodup := by
  unfold consumersOf
  split
  · exact SortedMap.nodup_keys _
  · exact List.nodup_nil

/-- A queue of nodes, and those that have been taken off it. -/
structure Sorting (g : Graph) (queue done : List NodeId) : Prop where
  once : (done ++ queue).Nodup
  ready : ∀ c ∈ done ++ queue, c < g.size ∧ ∀ d, g.Feeds d c → d ∈ done
  complete : ∀ c < g.size, (∀ d, g.Feeds d c → d ∈ done) → c ∈ done ++ queue
  /-- What has been taken off later does not feed what has been taken off earlier. -/
  sorted : done.Pairwise fun c d => ¬ g.Feeds d c

/-- The nodes that join the queue when one is taken off. -/
def freed (g : Graph) (done : List NodeId) (id : NodeId) : List NodeId :=
  (g.consumersOf id).filter fun c => (g.producersOf c).all (done ++ [id]).contains

theorem mem_freed (h : g.TwoEnded) {c : NodeId} :
    c ∈ g.freed done id ↔ g.Feeds id c ∧ ∀ d, g.Feeds d c → d ∈ done ++ [id] := by
  simp only [freed, List.mem_filter, h.mem_consumersOf_iff, List.all_eq_true, List.contains_iff_mem, mem_producersOf]

theorem Sorting.not_mem_done (h : g.Sorting (id :: queue) done) : id ∉ done := fun hmem =>
  (List.nodup_append.1 h.once).2.2 id hmem id List.mem_cons_self rfl

/-- A node that is freed has not been in the queue before. -/
theorem Sorting.freed_disjoint (h : g.Sorting (id :: queue) done) (htwo : g.TwoEnded) :
    ∀ c ∈ g.freed done id, c ∉ done ++ id :: queue := by
  intro c hc hmem
  have hid : id ∈ done := (h.ready c hmem).2 id ((mem_freed htwo).1 hc).1
  exact h.not_mem_done hid

theorem Sorting.step (h : g.Sorting (id :: queue) done) (htwo : g.TwoEnded) :
    g.Sorting (queue ++ g.freed done id) (done ++ [id]) := by
  have hall : done ++ [id] ++ (queue ++ g.freed done id) = (done ++ id :: queue) ++ g.freed done id := by simp
  refine ⟨?_, ?_, ?_, ?_⟩
  · rw [hall, List.nodup_append]
    refine ⟨h.once, (g.nodup_consumersOf id).filter _, fun c hc c' hc' heq => ?_⟩
    exact h.freed_disjoint htwo c' hc' (heq ▸ hc)
  · intro c hc
    rw [hall, List.mem_append] at hc
    rcases hc with hc | hc
    · obtain ⟨hlt, hdone⟩ := h.ready c hc
      exact ⟨hlt, fun d hd => List.mem_append_left _ (hdone d hd)⟩
    · obtain ⟨hfeeds, hdone⟩ := (mem_freed htwo).1 hc
      exact ⟨hfeeds.lt_size, hdone⟩
  · intro c hlt hdone
    rw [hall, List.mem_append]
    by_cases hfeeds : g.Feeds id c
    · exact .inr ((mem_freed htwo).2 ⟨hfeeds, hdone⟩)
    · -- Nothing that this node waits for has been taken off now.
      refine .inl (h.complete c hlt fun d hd => ?_)
      rcases List.mem_append.1 (hdone d hd) with hd' | hd'
      · exact hd'
      · exact absurd (List.mem_singleton.1 hd' ▸ hd) hfeeds
  · rw [List.pairwise_append]
    refine ⟨h.sorted, List.pairwise_singleton _ _, fun c hc d hd hfeeds => ?_⟩
    rw [List.mem_singleton.1 hd] at hfeeds
    exact h.not_mem_done ((h.ready c (List.mem_append_left _ hc)).2 id hfeeds)

theorem Sorting.length_le (h : g.Sorting queue done) : done.length + queue.length ≤ g.size := by
  have hsub : done ++ queue ⊆ List.range g.size := fun c hc => List.mem_range.2 (h.ready c hc).1
  have hle := (List.subperm_of_subset h.once hsub).length_le
  rwa [List.length_append, List.length_range] at hle

/-- With as many steps as there are nodes left the queue runs empty, and more steps make no difference. -/
theorem Sorting.run (h : g.Sorting queue done) (htwo : g.TwoEnded) {steps : Nat} (hsteps : g.size ≤ done.length + steps)
    (more : Nat) : g.orderFrom (steps + more) queue done = g.orderFrom steps queue done ∧
      g.Sorting [] (g.orderFrom steps queue done) := by
  have hempty (n : Nat) (done : List NodeId) : g.orderFrom n [] done = done := by cases n <;> rfl
  induction steps generalizing queue done with
  | zero =>
    have hle := h.length_le
    obtain rfl : queue = [] := List.length_eq_zero_iff.1 (by omega)
    exact ⟨by rw [hempty, hempty], by rwa [hempty]⟩
  | succ steps ih =>
    cases queue with
    | nil => exact ⟨by rw [hempty, hempty], by rwa [hempty]⟩
    | cons id queue =>
      rw [Nat.add_right_comm]
      exact ih (h.step htwo) (by rw [List.length_append, List.length_singleton]; omega)

/-- The nodes that the queue begins with. -/
def sources (g : Graph) : List NodeId := (List.range g.size).filter fun id => (g.producersOf id).isEmpty

theorem order_eq (g : Graph) : g.order = g.orderFrom g.size g.sources [] ++
    (List.range g.size).filter fun id => !(g.orderFrom g.size g.sources []).contains id := rfl

theorem sorting_sources (g : Graph) : g.Sorting g.sources [] := by
  have hmem (c : NodeId) : c ∈ [] ++ g.sources ↔ c < g.size ∧ ∀ d, ¬ g.Feeds d c := by
    rw [List.nil_append, sources, List.mem_filter, List.mem_range, List.isEmpty_iff, List.eq_nil_iff_forall_not_mem]
    simp only [mem_producersOf]
  refine ⟨?_, fun c hc => ?_, fun c hlt hdone => ?_, List.Pairwise.nil⟩
  · exact List.nodup_range.filter _
  · obtain ⟨hlt, hno⟩ := (hmem c).1 hc
    exact ⟨hlt, fun d hd => absurd hd (hno d)⟩
  · exact (hmem c).2 ⟨hlt, fun d hd => List.not_mem_nil (hdone d hd)⟩

/-- Where no cycle is closed, every node has its turn. -/
theorem Sorting.mem_done (h : g.Sorting [] done) (hg : g.Regular rules) {c : NodeId} (hc : c < g.size) : c ∈ done := by
  obtain ⟨rank, hrank⟩ := hg.rank
  induction hn : rank c using Nat.strong_induction_on generalizing c with
  | _ n ih =>
    subst hn
    have hmem := h.complete c hc fun d hd => ih (rank d) (hrank d c hd) (hg.feeds_lt_size hd) rfl
    rwa [List.append_nil] at hmem

theorem Sorting.perm (h : g.Sorting [] done) (hg : g.Regular rules) : done.Perm (List.range g.size) := by
  have hnodup : done.Nodup := by simpa using h.once
  refine (List.perm_ext_iff_of_nodup hnodup List.nodup_range).2 fun c => ?_
  rw [List.mem_range]
  exact ⟨fun hc => (h.ready c (by simpa using hc)).1, h.mem_done hg⟩

/-! ## Regular graphs -/

/-- All nodes are taken off the queue, in an order in which producers come before consumers. -/
theorem Regular.sorting_order (hg : g.Regular rules) :
    g.Sorting [] g.order ∧ ∀ more, g.orderFrom (g.size + more) g.sources [] = g.order := by
  have hrun (more : Nat) := g.sorting_sources.run hg.twoEnded (Nat.le_add_left g.size 0) more
  have hsorting := (hrun 0).2
  have hnone : (List.range g.size).filter (fun id => !(g.orderFrom g.size g.sources []).contains id) = [] := by
    refine List.filter_eq_nil_iff.2 fun id hid => ?_
    simp [hsorting.mem_done hg (List.mem_range.1 hid)]
  have horder : g.order = g.orderFrom g.size g.sources [] := by rw [order_eq, hnone, List.append_nil]
  rw [horder]
  exact ⟨hsorting, fun more => (hrun more).1⟩

theorem Regular.order_perm (hg : g.Regular rules) : g.order.Perm (List.range g.size) := hg.sorting_order.1.perm hg

/-- A producer is visited before its consumer. -/
theorem Regular.idxOf_lt {d c : NodeId} (hg : g.Regular rules) (hf : g.Feeds d c) :
    g.order.idxOf d < g.order.idxOf c := by
  have hmem {x : NodeId} (hx : x < g.size) : g.order.idxOf x < g.order.length :=
    List.idxOf_lt_length_iff.2 (hg.sorting_order.1.mem_done hg hx)
  have hd := hmem (hg.feeds_lt_size hf)
  have hc := hmem hf.lt_size
  obtain ⟨rank, hrank⟩ := hg.rank
  rcases Nat.lt_trichotomy (g.order.idxOf d) (g.order.idxOf c) with hlt | heq | hgt
  · exact hlt
  · have hself : d = c := by rw [← List.getElem_idxOf hd, ← List.getElem_idxOf hc]; simp only [heq]
    subst hself
    exact absurd (hrank d d hf) (Nat.lt_irrefl _)
  · have hlate := List.pairwise_iff_getElem.1 hg.sorting_order.1.sorted _ _ hc hd hgt
    rw [List.getElem_idxOf, List.getElem_idxOf] at hlate
    exact absurd hf hlate

/-- What all nodes feed in the end is visited last. -/
theorem Regular.getLast?_order (hg : g.Regular rules) (hall : ∀ i < g.size, Relation.ReflTransGen g.Feeds i id)
    (hid : id < g.size) : g.order.getLast? = some id := by
  obtain ⟨front, last, horder⟩ : ∃ front last, g.order = front ++ [last] :=
    (List.eq_nil_or_concat' g.order).resolve_left (List.ne_nil_of_mem (hg.sorting_order.1.mem_done hg hid))
  have hsorted := hg.sorting_order.1.sorted
  have hlast : last < g.size := List.mem_range.1 (hg.order_perm.mem_iff.1 (by simp [horder]))
  rw [horder] at hsorted ⊢
  rw [List.getLast?_concat]
  rcases Relation.ReflTransGen.cases_head (hall last hlast) with rfl | ⟨x, hx, _⟩
  · rfl
  · -- What the last node feeds would have to come after it.
    have hfront : x ∈ front := by
      have hmem : x ∈ front ++ [last] := horder ▸ hg.sorting_order.1.mem_done hg hx.lt_size
      refine (List.mem_append.1 hmem).resolve_right fun heq => ?_
      obtain ⟨rank, hrank⟩ := hg.rank
      have hlt := hrank last x hx
      rw [List.mem_singleton.1 heq] at hlt
      exact Nat.lt_irrefl _ hlt
    exact absurd hx ((List.pairwise_append.1 hsorted).2.2 x hfront last List.mem_cons_self)

end Graph

end TripleChain
