import TripleChain.Settings
import TripleChain.Plan.Execution
import TripleChain.Grammar.Binding
/-!
# Sessions

A session holds rules and settings and answers questions with them. Asking for a goal or publishing a premise
adds a rule for it to the store; such a rule is nobody's neighbour, so later plans are not affected.
-/

namespace TripleChain

/-- Rules, settings and the prefixes that texts may use. -/
structure Session where
  store : RuleStore
  settings : Settings
  prefixes : Prefixes

/-- How a question ended: the session after it, the handler calls made and the answer. -/
structure Answer (α : Type) where
  session : Session
  invoked : List Invocation
  result : Except RunError α

namespace Session

def ofSettings (settings : Settings) : Session := ⟨∅, settings, settings.prefixTable⟩

instance : Inhabited Session := ⟨ofSettings .standard⟩

def add (s : Session) (r : Rule) : Session := { s with store := s.store.add r }

/-- Adds the rules of a rule file and gives their numbers. -/
def load (s : Session) (text : String) : Session × Except (Grammar.Halt Failure) (List RuleId) :=
  let (store, ids) := s.store.load s.prefixes text
  ({ s with store }, ids)

/-- Reads a pattern. -/
def parsePattern (s : Session) (text : String) : Except (Grammar.Halt Failure) Pattern :=
  (Grammar.parsePattern s.prefixes text).mapError (·.map .ofTextError)

/-- Reads a binding set. -/
def parseBindings (s : Session) (text : String) : Except (Grammar.Halt Failure) BindingSet :=
  (Grammar.parseBindings s.prefixes text).mapError (·.map .ofTextError)

def plan (s : Session) (id : RuleId) : Except Failure Plan := Plan.build s.store id s.settings.planOptions

/-- Adds a rule that starts a plan, and plans it. -/
def planFor (s : Session) (antecedent consequent : Pattern) (name : String) : Session × Except Failure Plan :=
  match Rule.proactive antecedent consequent with
  | .error f => (s, .error f)
  | .ok r =>
    let id := s.store.size
    let s := s.add (r.named name)
    (s, s.plan id)

/-- The plan that collects the bindings of a goal. -/
def backwardPlan (s : Session) (goal : Pattern) : Session × Except Failure Plan :=
  if goal.isEmpty then (s, .error (.ofCode .emptyInput "A goal needs at least one triple pattern"))
  else s.planFor goal ∅ "goal"

/-- The plan that carries the bindings of a premise to every rule that can use them. -/
def forwardPlan (s : Session) (premise : Pattern) : Session × Except Failure Plan :=
  if premise.isEmpty then (s, .error (.ofCode .emptyInput "A premise needs at least one triple pattern"))
  else s.planFor ∅ premise "premise"

/-- Answers a goal: plans it, runs the plan and collects its results. -/
def query (s : Session) (rounds : Nat) (goal : Pattern) (bindings : BindingSet) : Answer BindingSet :=
  match s.backwardPlan goal with
  | (s, .error f) => ⟨s, [], .error (.refused f)⟩
  | (s, .ok p) =>
    match p.run rounds bindings with
    | .error e => ⟨s, [], .error e⟩
    | .ok p => ⟨s, p.invoked, p.results.mapError .refused⟩

/-- Publishes bindings of a premise: plans it and runs the plan. -/
def publish (s : Session) (rounds : Nat) (premise : Pattern) (bindings : BindingSet) : Answer Plan :=
  match s.forwardPlan premise with
  | (s, .error f) => ⟨s, [], .error (.refused f)⟩
  | (s, .ok p) =>
    match p.run rounds bindings with
    | .error e => ⟨s, [], .error e⟩
    | .ok p => ⟨s, p.invoked, .ok p⟩

end Session

end TripleChain
