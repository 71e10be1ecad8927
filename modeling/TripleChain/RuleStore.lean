import TripleChain.Rule
import TripleChain.Match.Search
import TripleChain.Grammar.RuleFile
/-!
# The rule store

Rules by number, in order of arrival. Two rules are neighbours when the consequent of one matches the
antecedent of the other. Neighbours that have been worked out are remembered; what is remembered is
always what working it out again would give, and that is part of the type.

`neighborsAmong_append_proactive` is the reason why remembered neighbours outlive a proactive rule.
-/

namespace TripleChain

abbrev RuleId := Nat

def RuleId.label (id : RuleId) : String := "#" ++ toString id

/-- A side of a rule. -/
inductive Side where
  | antecedent
  | consequent
  deriving DecidableEq, Inhabited

/-- A rule that can feed or consume a side of another. -/
structure Neighbor where
  id : RuleId
  rule : Rule
  /-- The matches from that side to the facing side of the neighbour. -/
  found : MatchSet

/-- A question about neighbours. -/
structure NeighborQuery where
  rule : RuleId
  side : Side
  strategy : Strategy
  deriving DecidableEq

/-- The matches from one side of a rule to the facing side of another. -/
def Rule.facing (r other : Rule) (side : Side) (strategy : Strategy) : MatchSet :=
  match side with
  | .antecedent => findMatches r.antecedent other.consequent strategy
  | .consequent => findMatches r.consequent other.antecedent strategy

/-- One of the rules as a neighbour of `r`, if it is one. Proactive rules only ever start a plan. -/
def neighborOf? (r : Rule) (side : Side) (strategy : Strategy) (e : Rule × RuleId) : Option Neighbor :=
  if e.1.isProactive then none
  else
    let found := r.facing e.1 side strategy
    if found.isEmpty then none else some ⟨e.2, e.1, found⟩

/-- The neighbours of `r` among some rules, in the order of these. -/
def neighborsAmong (rules : List Rule) (r : Rule) (side : Side) (strategy : Strategy) : List Neighbor :=
  rules.zipIdx.filterMap (neighborOf? r side strategy)

/-- A proactive rule at the end is nobody's neighbour. -/
theorem neighborsAmong_append_proactive {rules : List Rule} {p r : Rule} {side : Side} {strategy : Strategy}
    (h : p.isProactive = true) :
    neighborsAmong (rules ++ [p]) r side strategy = neighborsAmong rules r side strategy := by
  simp [neighborsAmong, List.zipIdx_append, List.filterMap_append, neighborOf?, h]

/-- The answer to a question about neighbours among some rules, if the rule exists. -/
def neighborsIn? (rules : List Rule) (q : NeighborQuery) : Option (List Neighbor) :=
  (rules[q.rule]?).map fun r => neighborsAmong rules r q.side q.strategy

theorem neighborsIn?_append_proactive {rules : List Rule} {p : Rule} {q : NeighborQuery} {l : List Neighbor}
    (hp : p.isProactive = true) (h : neighborsIn? rules q = some l) :
    neighborsIn? (rules ++ [p]) q = some l := by
  unfold neighborsIn? at h ⊢
  cases hr : rules[q.rule]? with
  | none => simp [hr] at h
  | some r =>
    have hlt : q.rule < rules.length := (List.getElem?_eq_some_iff.1 hr).1
    simpa [List.getElem?_append_left hlt, hr, neighborsAmong_append_proactive hp] using h

/-- Rules with the neighbours that have been worked out. -/
structure RuleStore where
  /-- The rules, first arrival first. -/
  rules : List Rule
  /-- Answers to questions about neighbours. -/
  memo : List (NeighborQuery × List Neighbor)
  /-- Each remembered answer is the right one. -/
  coherent : ∀ e ∈ memo, neighborsIn? rules e.1 = some e.2

namespace RuleStore

def empty : RuleStore := ⟨[], [], by simp⟩

instance : EmptyCollection RuleStore := ⟨empty⟩

instance : Inhabited RuleStore := ⟨empty⟩

def size (s : RuleStore) : Nat := s.rules.length

def isEmpty (s : RuleStore) : Bool := s.rules.isEmpty

/-- The rule with a number. -/
def get (s : RuleStore) (id : RuleId) : Except Failure Rule :=
  match s.rules[id]? with
  | some r => .ok r
  | none => .error (.unknownRule id)

/-- Adds a rule under the next number. What is remembered stays if no rule can be a neighbour of the
new one. -/
def add (s : RuleStore) (r : Rule) : RuleStore :=
  if hr : r.isProactive = true then
    ⟨s.rules ++ [r], s.memo, fun e he => neighborsIn?_append_proactive hr (s.coherent e he)⟩
  else ⟨s.rules ++ [r], [], by simp⟩

def addAll (s : RuleStore) (l : List Rule) : RuleStore := l.foldl add s

def reset (s : RuleStore) : RuleStore := ⟨s.rules, [], by simp⟩

/-- The remembered answer to a question. -/
def remembered? (s : RuleStore) (q : NeighborQuery) : Option (List Neighbor) :=
  (s.memo.find? fun e => e.1 == q).map (·.2)

theorem remembered?_coherent {s : RuleStore} {q : NeighborQuery} {l : List Neighbor} (h : s.remembered? q = some l) :
    neighborsIn? s.rules q = some l := by
  unfold remembered? at h
  obtain ⟨e, he, rfl⟩ := Option.map_eq_some_iff.1 h
  have hq : e.1 = q := by simpa using List.find?_some he
  exact hq ▸ s.coherent e (List.mem_of_find?_eq_some he)

/-- The answer to a question, remembered or worked out. -/
def neighbors? (s : RuleStore) (q : NeighborQuery) : Option (List Neighbor) :=
  match s.remembered? q with
  | some l => some l
  | none => neighborsIn? s.rules q

/-- Remembering makes no difference. -/
theorem neighbors?_eq (s : RuleStore) (q : NeighborQuery) : s.neighbors? q = neighborsIn? s.rules q := by
  unfold neighbors?
  split
  · next h => exact (remembered?_coherent h).symm
  · rfl

/-- Remembers the answer to a question about a rule that exists. -/
def remember (s : RuleStore) (q : NeighborQuery) : RuleStore :=
  match h : s.neighbors? q with
  | none => s
  | some l =>
    ⟨s.rules, (q, l) :: s.memo.filter (·.1 != q), fun e he => by
      rcases List.mem_cons.1 he with rfl | he
      · rw [← neighbors?_eq]; exact h
      · exact s.coherent e (List.mem_filter.1 he).1⟩

/-- The neighbours of a rule, remembered from then on. -/
def neighbors (s : RuleStore) (q : NeighborQuery) : Except Failure (List Neighbor × RuleStore) :=
  match s.neighbors? q with
  | some l => .ok (l, s.remember q)
  | none => .error (.unknownRule q.rule)

/-! ## Rule files -/

/-- Adds rules as they stand in a file, up to the first that is no rule. That one is reported with its
line; the rules before it stay. -/
def addSources (s : RuleStore) : List Grammar.SourceRule → RuleStore × Except Failure (List RuleId)
  | [] => (s, .ok [])
  | source :: rest =>
    match Rule.ofPatterns source.antecedent source.consequent with
    | .error f => (s, .error (f.withField "line" (toString source.line)))
    | .ok r =>
      -- The rules after it may still fail; this one stays.
      let (s', ids) := (s.add r).addSources rest
      (s', ids.map (s.size :: ·))

/-- Adds the rules of a rule file and gives their numbers. -/
def load (s : RuleStore) (p : Prefixes) (text : String) :
    RuleStore × Except (Grammar.Halt Failure) (List RuleId) :=
  match Grammar.parseRules p text with
  | .error e => (s, .error (e.map Failure.ofRuleFileError))
  | .ok file =>
    let (s', ids) := s.addSources file.rules
    (s', ids.mapError .report)

end RuleStore

end TripleChain
