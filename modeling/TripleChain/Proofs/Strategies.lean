import TripleChain.Proofs.FullMatches
/-!
# How the strategies compare

What is answered with full matches only is answered with the biggest ones, and what is answered with those is
answered with all matches (`Plan.answers_chain`).

The biggest matches do not find all answers. A match that covers more than one triple of a producer is carried over
in one piece, and a row that contradicts the consumer in one of the triples is lost for the others too.
`RuleStore.losesNothing_iff` gives the size of consequents up to which no answer is lost.
-/

namespace TripleChain

namespace Plan

/-- A goal that is run with each strategy has more answers the more matches are looked for. -/
theorem answers_chain {s : RuleStore} {id : RuleId} {g : Rule} {input : BindingSet} {o₁ o₂ o₃ : PlanOptions}
    {p₁ q₁ p₂ q₂ p₃ q₃ : Plan} (hs : s.Declarative) (hg : s.get id = .ok g) (hgoal : g.consequent.isEmpty = true)
    (hfull : o₁.strategy = .full) (hbiggest : o₂.strategy = .biggest) (hall : o₃.strategy = .all)
    (hp₁ : build s id o₁ = .ok p₁) (hq₁ : Runs input p₁ q₁) (hp₂ : build s id o₂ = .ok p₂) (hq₂ : Runs input p₂ q₂)
    (hp₃ : build s id o₃ = .ok p₃) (hq₃ : Runs input p₃ q₃) :
    ∃ a₁ a₂ a₃, q₁.results = .ok a₁ ∧ q₂.results = .ok a₂ ∧ q₃.results = .ok a₃ ∧
      (∀ b ∈ a₁, b ∈ a₂) ∧ ∀ b ∈ a₂, b ∈ a₃ := by
  obtain ⟨m₁, _, hposed₁, hsteps₁, hquiet₁⟩ := hq₁.posed hp₁ hg hgoal
  obtain ⟨m₂, _, hposed₂, hsteps₂, hquiet₂⟩ := hq₂.posed hp₂ hg hgoal
  obtain ⟨a₁, hresults₁, _⟩ := (hposed₁.ended hg hgoal hs.pointwise hsteps₁ hquiet₁).results
  rw [hbiggest] at hposed₂
  have hended₂ := hposed₂.ended hg hgoal hs.pointwise hsteps₂ hquiet₂
  obtain ⟨a₂, hresults₂, hmem₂⟩ := hended₂.results
  obtain ⟨a₃, hresults₃, hsolved⟩ := mem_results_of_solution hs hg hgoal hp₃ hq₃ fun r' _ r _ => by
    rw [hall]
    exact findsPairs_all _ _
  refine ⟨a₁, a₂, a₃, hresults₁, hresults₂, hresults₃, fun b hb => (hmem₂ b).2 ?_, fun b hb => hsolved b ?_⟩
  · have hsolution := solution_of_mem_results hs hg hgoal hp₁ hq₁ hresults₁ hb
    obtain ⟨x, hx, rfl⟩ := brought_of_mem_results hs hfull hg hgoal hp₁ hq₁ hresults₁ b hb
    obtain ⟨n, hn, _⟩ := hended₂.graph.root
    obtain rfl := start_rule hended₂.graph (get_eq_ok.1 hg) hn
    obtain ⟨δ, hδ, hext⟩ := hended₂.exists_demand hn hsolution.binds hsolution.allowed
    exact hended₂.mem_outputs_of_brought hn hx hδ hext
  · exact solution_of_mem_results hs hg hgoal hp₂ hq₂ hresults₂ hb

/-- The goal of the two paths and the rule that joins paths, run with each strategy. -/
theorem paths_answers_chain : ∃ p₁ q₁ p₂ q₂ p₃ q₃ a₁ a₂ a₃, build .paths 2 ⟨.full, true, 0⟩ = .ok p₁ ∧ Runs ∅ p₁ q₁ ∧
    build .paths 2 ⟨.biggest, true, 0⟩ = .ok p₂ ∧ Runs ∅ p₂ q₂ ∧ build .paths 2 ⟨.all, true, 0⟩ = .ok p₃ ∧
    Runs ∅ p₃ q₃ ∧
      q₁.results = .ok a₁ ∧ q₂.results = .ok a₂ ∧ q₃.results = .ok a₃ ∧ a₁.isEmpty = false ∧ (∀ b ∈ a₁, b ∈ a₂) ∧
        ∀ b ∈ a₂, b ∈ a₃ := by
  obtain ⟨p₁, q₁, a, hp₁, hq₁, ha, hsome⟩ := exists_of_reaches .paths 2 ⟨.full, true, 0⟩ 50 (fun a => !a.isEmpty)
    (by decide +kernel)
  obtain ⟨p₂, q₂, _, hp₂, hq₂, _, _⟩ :=
    exists_of_reaches .paths 2 ⟨.biggest, true, 0⟩ 50 (fun _ => true) (by decide +kernel)
  obtain ⟨p₃, q₃, _, hp₃, hq₃, _, _⟩ :=
    exists_of_reaches .paths 2 ⟨.all, true, 0⟩ 50 (fun _ => true) (by decide +kernel)
  obtain ⟨a₁, a₂, a₃, h₁, h₂, h₃, h₁₂, h₂₃⟩ :=
    answers_chain RuleStore.paths_declarative rfl rfl rfl rfl rfl hp₁ hq₁ hp₂ hq₂ hp₃ hq₃
  obtain rfl : a = a₁ := Except.ok.inj (ha.symm.trans h₁)
  exact ⟨p₁, q₁, p₂, q₂, p₃, q₃, a, a₂, a₃, hp₁, hq₁, hp₂, hq₂, hp₃, hq₃, h₁, h₂, h₃, by simpa using hsome, h₁₂, h₂₃⟩

end Plan

/-! ## What the biggest matches lose -/

/-- In a consequent of at most one triple a biggest match is a single pair, like every other match. -/
theorem findsPairs_of_size_le {p q : Pattern} (h : q.size ≤ 1) : FindsPairs .biggest p q := by
  intro t ht u hu hunify
  obtain rfl : q = .singleton u := SortedSet.eq_singleton_of_size_le h hu
  exact findsPairs_singleton p u t ht u hu hunify

/-- Every answer that is found with all matches is found with the biggest ones. -/
def RuleStore.LosesNothing (s : RuleStore) : Prop :=
  ∀ (id : RuleId) (g : Rule) (o₂ o₃ : PlanOptions) (input : BindingSet) (p₂ q₂ p₃ q₃ : Plan) (a₃ : BindingSet),
    s.get id = .ok g → g.consequent.isEmpty = true → o₂.strategy = .biggest → o₃.strategy = .all →
      Plan.build s id o₂ = .ok p₂ → Plan.Runs input p₂ q₂ → Plan.build s id o₃ = .ok p₃ → Plan.Runs input p₃ q₃ →
        q₃.results = .ok a₃ → ∃ a₂, q₂.results = .ok a₂ ∧ ∀ b ∈ a₃, b ∈ a₂

theorem RuleStore.losesNothing_of_size_le {s : RuleStore} (hs : s.Declarative)
    (hsize : ∀ r ∈ s.rules, r.consequent.size ≤ 1) : s.LosesNothing := by
  intro id g o₂ o₃ input p₂ q₂ p₃ q₃ a₃ hg hgoal hbiggest _ hp₂ hq₂ hp₃ hq₃ hresults₃
  obtain ⟨a₂, hresults₂, hsolved⟩ := Plan.mem_results_of_solution hs hg hgoal hp₂ hq₂ fun r' _ r hr => by
    rw [hbiggest]
    exact findsPairs_of_size_le (hsize r hr)
  exact ⟨a₂, hresults₂, fun b hb => hsolved b (Plan.solution_of_mem_results hs hg hgoal hp₃ hq₃ hresults₃ hb)⟩

/-- The rule that gives some rows. -/
def Rule.listing (consequent : Pattern) (h : consequent.isEmpty = false) (rows : List Binding) : Rule :=
  ⟨none, ∅, consequent, .transform (.lookUp ⟨[], .ofList rows⟩), by simp [Role.admits, h]⟩

theorem Rule.listing_isData {consequent : Pattern} {h : consequent.isEmpty = false} {rows : List Binding}
    (hrows : ∀ row ∈ rows, ∀ t ∈ consequent.toList, (t.instantiate row).IsGround) :
    (Rule.listing consequent h rows).IsData ⟨[], .ofList rows⟩ := by
  refine ⟨rfl, rfl, fun row hrow v hv => ?_⟩
  obtain ⟨t, ht, hvt⟩ := Pattern.mem_vars.1 hv
  exact Triple.get?_of_instantiate (hrows row (InsertionSet.mem_ofList.1 hrow) t ht) hvt

/-- Where things are and what they measure, in one table; another place of one of them in a second table; and the
question what the things at that place measure. -/
def RuleStore.scattered : RuleStore :=
  ⟨[.listing (.ofList [⟨.var ⟨"s"⟩, .iri "isIn", .var ⟨"z"⟩⟩, ⟨.var ⟨"s"⟩, .iri "hasV", .var ⟨"v"⟩⟩]) rfl
      [.ofList [(⟨"s"⟩, .iri "a"), (⟨"z"⟩, .iri "b"), (⟨"v"⟩, .iri "d")]],
    .listing (.singleton ⟨.var ⟨"s"⟩, .iri "isIn", .var ⟨"z"⟩⟩) rfl [.ofList [(⟨"s"⟩, .iri "a"), (⟨"z"⟩, .iri "c")]],
    .asking (.ofList [⟨.var ⟨"x"⟩, .iri "isIn", .iri "c"⟩, ⟨.var ⟨"x"⟩, .iri "hasV", .var ⟨"y"⟩⟩]) rfl], [], by simp⟩

/-- What the thing at that place measures. -/
def scatteredAnswer : Binding := .ofList [(⟨"x"⟩, .iri "a"), (⟨"y"⟩, .iri "d")]

namespace RuleStore

theorem scattered_declarative : RuleStore.scattered.Declarative := by
  intro r hr
  simp only [RuleStore.scattered, List.mem_cons, List.not_mem_nil, or_false] at hr
  rcases hr with rfl | rfl | rfl
  · exact .inr (.inr ⟨_, Rule.listing_isData (by decide)⟩)
  · exact .inr (.inr ⟨_, Rule.listing_isData (by decide)⟩)
  · exact .inl rfl

/-- The one answer joins a measurement of the first table with a place of the second. The row with the measurement
is at another place, so that it does not come through the match that covers both triples, and neither does its
measurement. -/
theorem scattered_not_losesNothing : ¬ RuleStore.scattered.LosesNothing := by
  intro hloses
  obtain ⟨p₂, q₂, a₂, hp₂, hq₂, hresults₂, hnone⟩ := Plan.exists_of_reaches .scattered 2 ⟨.biggest, true, 0⟩ 50
    (fun answers => answers.isEmpty) (by decide +kernel)
  obtain ⟨p₃, q₃, a₃, hp₃, hq₃, hresults₃, hsome⟩ := Plan.exists_of_reaches .scattered 2 ⟨.all, true, 0⟩ 50
    (fun answers => answers.contains scatteredAnswer) (by decide +kernel)
  obtain ⟨a, ha, hsub⟩ := hloses 2 _ _ _ ∅ p₂ q₂ p₃ q₃ a₃ rfl rfl rfl rfl hp₂ hq₂ hp₃ hq₃ hresults₃
  obtain rfl : a = a₂ := Except.ok.inj (ha.symm.trans hresults₂)
  exact InsertionSet.isEmpty_iff.1 hnone scatteredAnswer (hsub scatteredAnswer (of_decide_eq_true hsome))

/-- The biggest matches find all answers of all stores exactly when no consequent has more than one triple. -/
theorem losesNothing_iff (k : Nat) : (∀ s : RuleStore, s.Declarative → (∀ r ∈ s.rules, r.consequent.size ≤ k) →
    s.LosesNothing) ↔ k ≤ 1 := by
  constructor
  · intro hall
    by_contra hk
    refine scattered_not_losesNothing (hall _ scattered_declarative fun r hr => ?_)
    have htwo : r.consequent.size ≤ 2 := by
      revert r
      decide
    omega
  · exact fun hk s hs hsize => losesNothing_of_size_le hs fun r hr => Nat.le_trans (hsize r hr) hk

/-- So the biggest matches do not find all answers of every store. -/
theorem scattered_loses : ¬ ∀ s : RuleStore, s.Declarative → s.LosesNothing :=
  fun hall => scattered_not_losesNothing (hall _ scattered_declarative)

end RuleStore

end TripleChain
