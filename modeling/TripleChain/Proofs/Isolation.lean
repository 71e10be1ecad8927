import TripleChain.Proofs.Renumbering
import TripleChain.Proofs.Sessions
/-!
# Queries in isolation

Every goal and every premise stays in the store as a proactive rule. It takes a number, and neighbours that have been
worked out stay remembered beside it. Later queries see nothing of this. A proactive rule is nobody's neighbour, so that
without it the other rules have the same neighbours under other numbers (`neighborsAmong_insert_proactive`); then the
same plan grows with other numbers, and it is run to the same end (`Session.result_of_renumbered`). So all proactive
rules may be taken out, one after the other (`Session.result_of_standing`), and a question adds no others
(`Session.query_history_isolated`).
-/

namespace TripleChain

/-- The numbers with room made for one rule. -/
def RuleId.past (k i : Nat) : Nat := if i < k then i else i + 1

namespace RuleId

variable {k i : Nat}

theorem past_of_lt (h : i < k) : past k i = i := if_pos h

theorem past_of_le (h : k ≤ i) : past k i = i + 1 := if_neg (Nat.not_lt.2 h)

theorem past_injective (k : Nat) : Function.Injective (past k) := by
  intro (i : Nat) (j : Nat) h
  unfold past at h
  split at h <;> split at h <;> omega

end RuleId

section Neighbors

variable {xs ys : List Rule} {p r : Rule}

/-- The rules behind a rule are found under the next number. -/
theorem getElem?_past (i : RuleId) : (xs ++ p :: ys)[RuleId.past xs.length i]? = (xs ++ ys)[i]? := by
  by_cases h : i < xs.length
  · rw [RuleId.past_of_lt h, List.getElem?_append_left h, List.getElem?_append_left h]
  · have h := Nat.le_of_not_lt h
    rw [RuleId.past_of_le h, List.getElem?_append_right h, List.getElem?_append_right (Nat.le_succ_of_le h),
      Nat.succ_sub h, List.getElem?_cons_succ]

/-- A proactive rule is nobody's neighbour, wherever it stands: the others only get other numbers. -/
theorem neighborsAmong_insert_proactive (hp : p.isProactive = true) (side : Side) (strategy : Strategy) :
    neighborsAmong (xs ++ p :: ys) r side strategy =
      (neighborsAmong (xs ++ ys) r side strategy).map (Neighbor.renumber (RuleId.past xs.length)) := by
  have hbefore : ∀ e ∈ xs.zipIdx, neighborOf? r side strategy e =
      (neighborOf? r side strategy e).map (Neighbor.renumber (RuleId.past xs.length)) := by
    intro e he
    have hlt : e.2 < xs.length := by simpa using List.snd_lt_of_mem_zipIdx he
    rw [← neighborOf?_renumber, RuleId.past_of_lt hlt]
  have hafter : ∀ e ∈ ys.zipIdx xs.length, neighborOf? r side strategy (e.1, e.2 + 1) =
      (neighborOf? r side strategy e).map (Neighbor.renumber (RuleId.past xs.length)) := by
    intro e he
    have hle : xs.length ≤ e.2 := List.le_snd_of_mem_zipIdx he
    rw [← neighborOf?_renumber, RuleId.past_of_le hle]
  have hnone (i : Nat) : neighborOf? r side strategy (p, i) = none := by simp [neighborOf?, hp]
  unfold neighborsAmong
  rw [List.zipIdx_append, List.zipIdx_append, List.filterMap_append, List.filterMap_append, List.map_append,
    List.zipIdx_cons, List.filterMap_cons, hnone, List.map_filterMap, List.map_filterMap]
  congr 1
  · exact List.filterMap_congr hbefore
  · rw [Nat.zero_add, List.zipIdx_succ, List.filterMap_map]
    exact List.filterMap_congr hafter

variable {s s' : RuleStore}

/-- Stores with the same rules have the same neighbours, whatever they remember. -/
theorem RuleStore.near_congr (h : s'.rules = s.rules) (strategy : Strategy) :
    (s.near strategy).Renumbered id (s'.near strategy) := by
  intro side i
  have hid : Neighbor.renumber id = id := rfl
  rw [RuleStore.near, RuleStore.near, s.neighbors?_eq, s'.neighbors?_eq, h, hid, List.map_id]
  rfl

/-- Without one proactive rule the neighbours are the same under other numbers. -/
theorem RuleStore.near_insert_proactive (hp : p.isProactive = true) (h : s.rules = xs ++ ys)
    (h' : s'.rules = xs ++ p :: ys) (strategy : Strategy) :
    (s.near strategy).Renumbered (RuleId.past xs.length) (s'.near strategy) := by
  intro side i
  rw [RuleStore.near, RuleStore.near, s.neighbors?_eq, s'.neighbors?_eq, h, h', neighborsIn?, neighborsIn?,
    getElem?_past]
  cases (xs ++ ys)[i]? with
  | none => rfl
  | some r => exact neighborsAmong_insert_proactive hp side strategy

end Neighbors

namespace Plan

/-- The plan of a goal as it is built. -/
theorem build_goal {s : RuleStore} {id : RuleId} {r : Rule} (o : PlanOptions) (hr : s.get id = .ok r)
    (hgoal : r.consequent.isEmpty = true) :
    Plan.build s id o = .ok ⟨Graph.ofGoal (s.near o.strategy) (s.size + 1) id r, true,
      (Graph.ofGoal (s.near o.strategy) (s.size + 1) id r).order, o, ∅, [], none, []⟩ := by
  unfold build
  rw [hr]
  show (if _ then _ else _) = _
  rw [if_pos (by rw [hgoal]; rfl), hgoal]
  rfl

/-- With other numbers for the rules the same plan is built. More rules only mean that more depth is allowed. -/
theorem build_renumber {σ : RuleId → RuleId} {s s' : RuleStore} {id : RuleId} {r : Rule} {o : PlanOptions} {p : Plan}
    (hσ : Function.Injective σ) (hnear : (s.near o.strategy).Renumbered σ (s'.near o.strategy))
    (hsize : s.size ≤ s'.size)
    (hr : s.get id = .ok r) (hr' : s'.get (σ id) = .ok r) (hgoal : r.consequent.isEmpty = true)
    (hp : Plan.build s id o = .ok p) : Plan.build s' (σ id) o = .ok (p.renumber σ) := by
  have hgraph : Graph.ofGoal (s'.near o.strategy) (s'.size + 1) (σ id) r =
      (Graph.ofGoal (s.near o.strategy) (s.size + 1) id r).renumber σ := by
    obtain ⟨more, hmore⟩ := Nat.exists_eq_add_of_le hsize
    have hdeep := (Graph.ofGoal_regular (s.sound_near o.strategy) (get_eq_ok.1 hr)).2.2 more
    rw [Graph.ofGoal_renumber hσ hnear, hmore, Nat.add_right_comm]
    exact congrArg (Graph.renumber σ) hdeep
  rw [build_goal o hr hgoal] at hp
  cases hp
  rw [build_goal o hr' hgoal, hgraph, Graph.order_renumber]
  rfl

end Plan

namespace Session

variable {s s' : Session} {goal : Pattern}

/-- A goal has the same result where the rules have the same neighbours under other numbers. -/
theorem result_of_renumbered {σ : RuleId → RuleId} (hσ : Function.Injective σ) (hset : s'.settings = s.settings)
    (hgoal : goal.isEmpty = false)
    (hnear : ((s.add (.goal goal hgoal)).store.near s.settings.planOptions.strategy).Renumbered σ
      ((s'.add (.goal goal hgoal)).store.near s.settings.planOptions.strategy))
    (hroot : σ s.store.size = s'.store.size) (hsize : s.store.size ≤ s'.store.size) (rounds : Nat)
    (bindings : BindingSet) :
    (s'.query rounds goal bindings).result = (s.query rounds goal bindings).result := by
  obtain ⟨p, hp, hquery⟩ := s.exists_query_eq hgoal
  obtain ⟨p', hp', hquery'⟩ := s'.exists_query_eq hgoal
  have hsize' : (s.add (.goal goal hgoal)).store.size ≤ (s'.add (.goal goal hgoal)).store.size := by
    rw [RuleStore.size, RuleStore.size, rules_add, rules_add, List.length_append, List.length_append]
    exact Nat.add_le_add_right hsize _
  have hsame : p' = p.renumber σ := by
    have hbuild := Plan.build_renumber hσ hnear hsize' (s.get_add _) (hroot ▸ s'.get_add _) rfl hp
    rw [hroot] at hbuild
    rw [plan, show (s'.add (.goal goal hgoal)).settings = s.settings from hset] at hp'
    exact Except.ok.inj (hp'.symm.trans hbuild)
  rw [hquery, hquery', hsame, Plan.run_renumber]
  cases p.run rounds bindings with
  | error e => rfl
  | ok q =>
    show (q.renumber σ).results.mapError RunError.refused = q.results.mapError RunError.refused
    rw [Plan.results_renumber]

/-- Without a goal there is nothing to answer. -/
theorem query_of_empty (hgoal : goal.isEmpty = true) (rounds : Nat) (bindings : BindingSet) :
    (s'.query rounds goal bindings).result = (s.query rounds goal bindings).result := by
  simp [query, backwardPlan, hgoal]

/-- What the store remembers makes no difference. -/
theorem result_congr (hset : s'.settings = s.settings) (hrules : s'.store.rules = s.store.rules) (rounds : Nat)
    (goal : Pattern) (bindings : BindingSet) :
    (s'.query rounds goal bindings).result = (s.query rounds goal bindings).result := by
  cases hgoal : goal.isEmpty with
  | true => exact query_of_empty hgoal rounds bindings
  | false =>
    have hsize : s'.store.size = s.store.size := congrArg List.length hrules
    apply result_of_renumbered Function.injective_id hset hgoal
    · apply RuleStore.near_congr
      rw [rules_add, rules_add, hrules]
    · exact hsize.symm
    · exact Nat.le_of_eq hsize.symm

/-- One proactive rule makes no difference. -/
theorem result_insert_proactive {xs ys : List Rule} {p : Rule} (hset : s'.settings = s.settings)
    (hp : p.isProactive = true) (h : s.store.rules = xs ++ ys) (h' : s'.store.rules = xs ++ p :: ys) (rounds : Nat)
    (goal : Pattern) (bindings : BindingSet) :
    (s'.query rounds goal bindings).result = (s.query rounds goal bindings).result := by
  cases hgoal : goal.isEmpty with
  | true => exact query_of_empty hgoal rounds bindings
  | false =>
    have hlength : s.store.size = xs.length + ys.length := by rw [RuleStore.size, h, List.length_append]
    have hlength' : s'.store.size = s.store.size + 1 := by
      rw [hlength, RuleStore.size, h', List.length_append, List.length_cons, Nat.add_assoc]
    apply result_of_renumbered (RuleId.past_injective xs.length) hset hgoal
    · apply RuleStore.near_insert_proactive hp
      · rw [rules_add, h, List.append_assoc]
      · rw [rules_add, h', List.append_assoc, List.cons_append]
    · rw [RuleId.past_of_le (by omega), hlength']
    · omega

/-! ## Standing rules -/

/-- The rules that do more than start a plan. -/
def standing (rules : List Rule) : List Rule := rules.filter (!·.isProactive)

/-- The session with other rules and nothing remembered. -/
def withRules (s : Session) (rules : List Rule) : Session := { s with store := .ofRules rules }

/-- The proactive rules, taken out one after the other, make no difference. -/
theorem result_of_standing (hset : s'.settings = s.settings) (xs l : List Rule) (h' : s'.store.rules = xs ++ l)
    (h : s.store.rules = xs ++ standing l) (rounds : Nat) (goal : Pattern) (bindings : BindingSet) :
    (s'.query rounds goal bindings).result = (s.query rounds goal bindings).result := by
  induction l generalizing s' xs with
  | nil => exact result_congr hset (h'.trans h.symm) rounds goal bindings
  | cons r l ih =>
    cases hr : r.isProactive with
    | false =>
      apply ih hset (xs ++ [r])
      · rw [h', List.append_assoc, List.singleton_append]
      · rw [h, standing, List.filter_cons_of_pos (by simp [hr]), List.append_assoc, List.singleton_append]
        rfl
    | true =>
      have hkept : s'.settings = (s'.withRules (xs ++ l)).settings := rfl
      calc (s'.query rounds goal bindings).result
          = ((s'.withRules (xs ++ l)).query rounds goal bindings).result :=
            result_insert_proactive hkept hr rfl h' rounds goal bindings
        _ = (s.query rounds goal bindings).result := by
            refine ih hset xs rfl ?_
            rw [h, standing, List.filter_cons_of_neg (by simp [hr])]
            rfl

/-! ## Earlier questions -/

end Session

/-- A question to a session. -/
inductive SessionCall where
  | backwardPlan (goal : Pattern)
  | forwardPlan (premise : Pattern)
  | query (rounds : Nat) (goal : Pattern) (bindings : BindingSet)
  | publish (rounds : Nat) (premise : Pattern) (bindings : BindingSet)
  /-- The neighbours of a rule are worked out and remembered. -/
  | remember (q : NeighborQuery)

namespace Session

/-- The session after a call, whether or not the call has failed. -/
def after (s : Session) : SessionCall → Session
  | .backwardPlan goal => (s.backwardPlan goal).1
  | .forwardPlan premise => (s.forwardPlan premise).1
  | .query rounds goal bindings => (s.query rounds goal bindings).session
  | .publish rounds premise bindings => (s.publish rounds premise bindings).session
  | .remember q => { s with store := s.store.remember q }

/-- The session after some calls, the first of the list first. -/
def history (s : Session) (calls : List SessionCall) : Session := calls.foldl after s

/-- The same settings, and no other rules but proactive ones at the end. -/
structure Questioned (s s' : Session) : Prop where
  settings : s'.settings = s.settings
  rules : ∃ added, s'.store.rules = s.store.rules ++ added ∧ ∀ r ∈ added, r.isProactive = true

theorem Questioned.refl (s : Session) : s.Questioned s := ⟨rfl, [], by simp⟩

theorem Questioned.trans {s₁ s₂ s₃ : Session} (h : s₁.Questioned s₂) (h' : s₂.Questioned s₃) : s₁.Questioned s₃ := by
  obtain ⟨l, hl, hpro⟩ := h.rules
  obtain ⟨l', hl', hpro'⟩ := h'.rules
  refine ⟨h'.settings.trans h.settings, l ++ l', ?_, ?_⟩
  · rw [hl', hl, List.append_assoc]
  · intro r hr
    rcases List.mem_append.1 hr with hr | hr
    · exact hpro r hr
    · exact hpro' r hr

theorem Questioned.standing {s s' : Session} (h : s.Questioned s') :
    standing s'.store.rules = standing s.store.rules := by
  obtain ⟨l, hl, hpro⟩ := h.rules
  have hnone : l.filter (!·.isProactive) = [] := by
    rw [List.filter_eq_nil_iff]
    intro r hr
    simp [hpro r hr]
  rw [Session.standing, hl, List.filter_append, hnone, List.append_nil]
  rfl

variable (s : Session)

theorem questioned_add {r : Rule} (h : r.isProactive = true) : s.Questioned (s.add r) :=
  ⟨rfl, [r], s.rules_add r, by simpa using h⟩

/-- Whatever a plan is made for, only a proactive rule is added, if any. -/
theorem questioned_planFor (antecedent consequent : Pattern) (name : String) :
    s.Questioned (s.planFor antecedent consequent name).1 := by
  unfold planFor Rule.proactive
  split
  · exact .refl s
  · next r hr =>
    split at hr
    · cases hr
    · cases hr
      exact s.questioned_add rfl

theorem questioned_backwardPlan (goal : Pattern) : s.Questioned (s.backwardPlan goal).1 := by
  unfold backwardPlan
  split
  · exact .refl s
  · exact s.questioned_planFor goal ∅ "goal"

theorem questioned_forwardPlan (premise : Pattern) : s.Questioned (s.forwardPlan premise).1 := by
  unfold forwardPlan
  split
  · exact .refl s
  · exact s.questioned_planFor ∅ premise "premise"

/-- A query leaves the session that planning its goal leaves, and so does publishing. -/
theorem session_query (rounds : Nat) (goal : Pattern) (bindings : BindingSet) :
    (s.query rounds goal bindings).session = (s.backwardPlan goal).1 := by
  unfold query
  rcases s.backwardPlan goal with ⟨s', f | p⟩
  · rfl
  · dsimp only
    cases p.run rounds bindings <;> rfl

theorem session_publish (rounds : Nat) (premise : Pattern) (bindings : BindingSet) :
    (s.publish rounds premise bindings).session = (s.forwardPlan premise).1 := by
  unfold publish
  rcases s.forwardPlan premise with ⟨s', f | p⟩
  · rfl
  · dsimp only
    cases p.run rounds bindings <;> rfl

/-- What a call leaves behind. -/
theorem questioned_after (c : SessionCall) : s.Questioned (s.after c) := by
  cases c with
  | backwardPlan goal => exact s.questioned_backwardPlan goal
  | forwardPlan premise => exact s.questioned_forwardPlan premise
  | query rounds goal bindings =>
    rw [after, session_query]
    exact s.questioned_backwardPlan goal
  | publish rounds premise bindings =>
    rw [after, session_publish]
    exact s.questioned_forwardPlan premise
  | remember q => exact ⟨rfl, [], by rw [List.append_nil]; exact s.store.rules_remember q, by simp⟩

theorem questioned_history (calls : List SessionCall) : s.Questioned (s.history calls) := by
  induction calls generalizing s with
  | nil => exact .refl s
  | cons c calls ih => exact (s.questioned_after c).trans (ih (s.after c))

/-- Whatever has been asked before, failed calls included, a query has the result that it has in a session with the
standing rules alone and with nothing remembered. -/
theorem query_history_isolated (calls : List SessionCall) (rounds : Nat) (goal : Pattern) (bindings : BindingSet) :
    ((s.history calls).query rounds goal bindings).result =
      ((s.withRules (standing s.store.rules)).query rounds goal bindings).result := by
  have hhistory := s.questioned_history calls
  have hset : (s.history calls).settings = (s.withRules (standing s.store.rules)).settings := hhistory.settings
  have hrules : (s.withRules (standing s.store.rules)).store.rules = standing (s.history calls).store.rules :=
    hhistory.standing.symm
  exact result_of_standing hset [] (s.history calls).store.rules rfl hrules rounds goal bindings

end Session

end TripleChain
