import TripleChain.Proofs.Assembly
/-!
# Putting terms under an assertion

`SiteBinding.put` takes it for granted that the variable of the site has no other term yet. Here every operation on site
bindings is run with that checked: `none` says that a term has been put where the variable has another one. Nothing else
is different, and where the parts of an operation are coherent the check never fails, so that the operation gives what
it gives without it.

Carrying may be refused for a reason of its own, so that there are two ways to give nothing: the outer `none` is the
failed check, the inner one the refusal.
-/

namespace TripleChain

/-- Where the check passes everywhere, running all of a list gives all results. -/
theorem mapM_eq_some {α β : Type} {f : α → Option β} {g : α → β} {l : List α} (h : ∀ a ∈ l, f a = some (g a)) :
    l.mapM f = some (l.map g) := by
  induction l with
  | nil => rfl
  | cons a l ih =>
    have hl := ih fun b hb => h b (List.mem_cons_of_mem a hb)
    rw [List.mapM_cons, h a List.mem_cons_self, hl]
    rfl

/-- Refusing with a check that always passes is refusing. -/
theorem foldlM_eq_mk {α β : Type} {f : β → α → OptionT Option β} {g : β → α → Option β} {l : List α} {b : β}
    (h : ∀ b a, f b a = .mk (some (g b a))) : l.foldlM f b = .mk (some (l.foldlM g b)) := by
  induction l generalizing b with
  | nil => rfl
  | cons a l ih =>
    rw [List.foldlM_cons, List.foldlM_cons, h]
    cases hg : g b a with
    | none => rfl
    | some c => exact ih

namespace SiteBinding

/-! ## One site binding -/

/-- Binds a site, if its variable has no other term. -/
def assertPut? (b : SiteBinding) (s : Site) (t : Term) : Option SiteBinding :=
  match s.toVariable? with
  | some v => if (b.valueOf? v).all (· == t) then some (b.put s t) else none
  | none => some b

def assertPutAll? (b : SiteBinding) (l : List (Site × Term)) : Option SiteBinding :=
  l.foldlM (fun b e => b.assertPut? e.1 e.2) b

def assertOfBinding? (p : Pattern) (b : Binding) : Option SiteBinding :=
  (∅ : SiteBinding).assertPutAll? <| p.toList.flatMap fun t => t.variableSites.filterMap fun s => do
    let v ← s.toVariable?
    let value ← b.get? v
    some (s, value)

def assertMerge? (a b : SiteBinding) : Option SiteBinding := a.assertPutAll? b.entries

def assertRestrict? (b : SiteBinding) (triples : List Triple) : Option SiteBinding :=
  (∅ : SiteBinding).assertPutAll? (b.entries.filter fun e => triples.contains e.1.triple)

def assertCarry? (source target : SiteBinding) (e : Site × Site) : OptionT Option SiteBinding :=
  match e.1.toVariable?, e.2.toVariable? with
  | some _, some v =>
    match source.get? e.1 with
    | none => pure target
    | some value =>
      match target.valueOf? v with
      | some current => if current = value then .lift (target.assertPut? e.2 value) else .fail
      | none => .lift (target.assertPut? e.2 value)
  | some _, none =>
    match source.get? e.1 with
    | some value => if value = e.2.term then pure target else .fail
    | none => pure target
  | none, some v =>
    match target.valueOf? v with
    | some current => if current = e.1.term then .lift (target.assertPut? e.2 e.1.term) else .fail
    | none => .lift (target.assertPut? e.2 e.1.term)
  | none, none => pure target

def assertCarryTriple? (source target : SiteBinding) (e : Triple × Triple) : OptionT Option SiteBinding :=
  match e.1.unify? e.2 with
  | some sites => sites.entries.foldlM (assertCarry? source) target
  | none => pure target

def assertCarryThrough? (m : Match) (b : SiteBinding) : OptionT Option SiteBinding :=
  m.triples.entries.foldlM (assertCarryTriple? b) ∅

variable {f : Variable → Option Term} {x y : SiteBinding} {s : Site} {t : Term}

theorem assertPut?_eq (h : ∀ v u, s.toVariable? = some v → x.valueOf? v = some u → u = t) :
    x.assertPut? s t = some (x.put s t) := by
  unfold assertPut?
  cases hs : s.toVariable? with
  | none => simp [put, hs]
  | some v =>
    apply if_pos
    cases hv : x.valueOf? v with
    | none => rfl
    | some u => simpa using h v u hs hv

theorem Under.assertPutAll?_eq {l : List (Site × Term)} (h : x.Under f) (hl : ∀ e ∈ l, Fits f e) :
    x.assertPutAll? l = some (x.putAll l) := by
  induction l generalizing x with
  | nil => rfl
  | cons e l ih =>
    have he := hl e List.mem_cons_self
    obtain ⟨v, hv, ht⟩ := id he
    have hput : x.assertPut? e.1 e.2 = some (x.put e.1 e.2) := by
      apply assertPut?_eq
      intro w u hw hu
      obtain rfl : v = w := Option.some.inj (hv.symm.trans hw)
      exact Option.some.inj ((h.var v u hu).symm.trans ht)
    rw [assertPutAll?, List.foldlM_cons, hput]
    exact ih (h.put he) fun a ha => hl a (List.mem_cons_of_mem e ha)

theorem assertOfBinding?_eq (p : Pattern) (b : Binding) : assertOfBinding? p b = some (ofBinding p b) :=
  (under_empty b.get?).assertPutAll?_eq fun _ he => (mem_ofBinding_entries.1 he).2

theorem Coherent.assertMerge?_eq (hx : x.Coherent) (hy : y.Coherent) (hc : x.conflicts y = false) :
    x.assertMerge? y = some (x.merge y) := by
  obtain ⟨f, hfx, hfy, _⟩ := exists_under hx hy hc
  exact hfx.assertPutAll?_eq hfy.entries_fit

theorem Coherent.assertRestrict?_eq (h : x.Coherent) (triples : List Triple) :
    x.assertRestrict? triples = some (x.restrict triples) :=
  (under_empty x.valueOf?).assertPutAll?_eq (Under.restrict_fits h)

/-- Carrying looks at the term of the variable before it puts one. -/
theorem assertCarry?_eq (source target : SiteBinding) (e : Site × Site) :
    assertCarry? source target e = .mk (some (carry? source target e)) := by
  have hlift {s : Site} {t : Term} {v : Variable} (hs : s.toVariable? = some v)
      (hv : ∀ u, target.valueOf? v = some u → u = t) :
      (OptionT.lift (target.assertPut? s t) : OptionT Option SiteBinding) = .mk (some (some (target.put s t))) := by
    rw [assertPut?_eq]
    · rfl
    · intro w u hw hu
      obtain rfl : v = w := Option.some.inj (hs.symm.trans hw)
      exact hv u hu
  have hcurrent {v : Variable} {current t : Term} (hv : target.valueOf? v = some current) (ht : current = t) :
      ∀ u, target.valueOf? v = some u → u = t := fun u hu => (Option.some.inj (hu.symm.trans hv)).trans ht
  unfold assertCarry? carry?
  cases h₁ : e.1.toVariable? with
  | some v₁ =>
    cases source.get? e.1 with
    | none => cases e.2.toVariable? <;> rfl
    | some value =>
      cases h₂ : e.2.toVariable? with
      | none =>
        dsimp only
        split <;> rfl
      | some v =>
        dsimp only
        cases hv : target.valueOf? v with
        | none => exact hlift h₂ (by simp [hv])
        | some current =>
          dsimp only
          split
          · next heq => exact hlift h₂ (hcurrent hv heq)
          · rfl
  | none =>
    cases h₂ : e.2.toVariable? with
    | none => rfl
    | some v =>
      dsimp only
      cases hv : target.valueOf? v with
      | none => exact hlift h₂ (by simp [hv])
      | some current =>
        dsimp only
        split
        · next heq => exact hlift h₂ (hcurrent hv heq)
        · rfl

theorem assertCarryTriple?_eq (source target : SiteBinding) (e : Triple × Triple) :
    assertCarryTriple? source target e = .mk (some (carryTriple? source target e)) := by
  unfold assertCarryTriple? carryTriple?
  cases e.1.unify? e.2 with
  | none => rfl
  | some sites => exact foldlM_eq_mk (assertCarry?_eq source)

theorem assertCarryThrough?_eq (m : Match) (b : SiteBinding) :
    assertCarryThrough? m b = .mk (some (carryThrough m b)) :=
  foldlM_eq_mk (assertCarryTriple?_eq b)

end SiteBinding

namespace SiteBindingSet

/-! ## Sets -/

def assertOfBindings? (p : Pattern) (s : BindingSet) : Option SiteBindingSet :=
  (s.toList.mapM (SiteBinding.assertOfBinding? p)).map fun l => ⟨p, .ofList l⟩

/-- The pairs without conflict. -/
def joinable (s t : SiteBindingSet) : List (SiteBinding × SiteBinding) :=
  s.toList.flatMap fun a => t.toList.filterMap fun b => if a.conflicts b then none else some (a, b)

def assertCombine? (s t : SiteBindingSet) : Option SiteBindingSet :=
  if s.isEmpty then some (s.extend t)
  else ((s.joinable t).mapM fun (e : SiteBinding × SiteBinding) => e.1.assertMerge? e.2).map (empty s.pattern).addAll

def assertMerge? (s t : SiteBindingSet) : Option SiteBindingSet :=
  (s.assertCombine? t).map fun c => (c.extend t).extend s

def assertCarryThrough? (s : SiteBindingSet) (target : Pattern) (ms : List Match) : Option SiteBindingSet :=
  ((ms.flatMap fun m => s.toList.map (m, ·)).mapM fun e => (SiteBinding.assertCarryThrough? e.1 e.2).run).map
    fun l => (empty target).addAll (l.filterMap id)

def assertParts? (b : SiteBinding) : Option (List SiteBinding) :=
  ((subsets b.touched.toList).mapM b.assertRestrict?).map fun l => l.filter (!·.isEmpty)

def assertWithPartials? (s : SiteBindingSet) : Option SiteBindingSet :=
  (s.toList.mapM assertParts?).map fun l => s.addAll l.flatten

def assertRestrictionsOver? (s : SiteBindingSet) (triples : SortedSet Triple) : Option SiteBindingSet :=
  let all := subsets triples.toList
  (s.toList.mapM fun (b : SiteBinding) => all.mapM b.assertRestrict?).map fun l => (empty s.pattern).addAll l.flatten

variable {s t : SiteBindingSet}

theorem assertOfBindings?_eq (p : Pattern) (s : BindingSet) : assertOfBindings? p s = some (ofBindings p s) := by
  rw [assertOfBindings?, mapM_eq_some fun b _ => SiteBinding.assertOfBinding?_eq p b]
  rfl

theorem mem_joinable {a b : SiteBinding} : (a, b) ∈ s.joinable t ↔
    a ∈ s.bindings ∧ b ∈ t.bindings ∧ a.conflicts b = false := by
  simp only [joinable, List.mem_flatMap, List.mem_filterMap, Option.ite_none_left_eq_some, Bool.not_eq_true]
  constructor
  · rintro ⟨a', ha, b', hb, hc, heq⟩
    cases heq
    exact ⟨ha, hb, hc⟩
  · rintro ⟨ha, hb, hc⟩
    exact ⟨a, ha, b, hb, hc, rfl⟩

theorem assertCombine?_eq (hs : ∀ x ∈ s.bindings, x.Coherent) (ht : ∀ x ∈ t.bindings, x.Coherent) :
    s.assertCombine? t = some (s.combine t) := by
  unfold assertCombine? combine
  split
  · rfl
  · have hmerge : ∀ e ∈ s.joinable t, e.1.assertMerge? e.2 = some (e.1.merge e.2) := by
      intro e he
      obtain ⟨ha, hb, hc⟩ := mem_joinable.1 he
      exact (hs _ ha).assertMerge?_eq (ht _ hb) hc
    have hlist : (s.joinable t).map (fun e => e.1.merge e.2) = s.toList.flatMap fun a =>
        t.toList.filterMap fun b => if a.conflicts b then none else some (a.merge b) := by
      rw [joinable, List.map_flatMap]
      congr 1
      funext a
      rw [List.map_filterMap]
      congr 1
      funext b
      split <;> rfl
    rw [← hlist, mapM_eq_some hmerge]
    rfl

theorem assertMerge?_eq (hs : ∀ x ∈ s.bindings, x.Coherent) (ht : ∀ x ∈ t.bindings, x.Coherent) :
    s.assertMerge? t = some (s.merge t) := by
  rw [assertMerge?, assertCombine?_eq hs ht]
  rfl

theorem assertCarryThrough?_eq (s : SiteBindingSet) (target : Pattern) (ms : List Match) :
    s.assertCarryThrough? target ms = some (s.carryThrough target ms) := by
  have hcarry : ∀ e ∈ ms.flatMap fun m => s.toList.map (m, ·),
      (SiteBinding.assertCarryThrough? e.1 e.2).run = some (SiteBinding.carryThrough e.1 e.2) := by
    intro e _
    rw [SiteBinding.assertCarryThrough?_eq, OptionT.run_mk]
  have hlist : ((ms.flatMap fun m => s.toList.map (m, ·)).map fun e => SiteBinding.carryThrough e.1 e.2).filterMap id =
      ms.flatMap fun m => s.toList.filterMap (SiteBinding.carryThrough m) := by
    rw [List.filterMap_map, List.filterMap_flatMap]
    congr 1
    funext m
    rw [List.filterMap_map]
    rfl
  rw [assertCarryThrough?, carryThrough, ← hlist, mapM_eq_some hcarry]
  rfl

theorem assertParts?_eq {b : SiteBinding} (h : b.Coherent) : assertParts? b = some (parts b) := by
  rw [assertParts?, mapM_eq_some fun triples _ => h.assertRestrict?_eq triples]
  rfl

theorem assertWithPartials?_eq (hs : ∀ x ∈ s.bindings, x.Coherent) : s.assertWithPartials? = some s.withPartials := by
  have hparts : ∀ b ∈ s.toList, assertParts? b = some (parts b) := fun b hb => assertParts?_eq (hs b hb)
  rw [assertWithPartials?, mapM_eq_some hparts, Option.map_some, ← List.flatMap_def]
  rfl

theorem assertRestrictionsOver?_eq (hs : ∀ x ∈ s.bindings, x.Coherent) (triples : SortedSet Triple) :
    s.assertRestrictionsOver? triples = some (s.restrictionsOver triples) := by
  have hall : ∀ b ∈ s.toList, (subsets triples.toList).mapM b.assertRestrict? =
      some ((subsets triples.toList).map b.restrict) := fun b hb =>
    mapM_eq_some fun ts _ => (hs b hb).assertRestrict?_eq ts
  rw [assertRestrictionsOver?, mapM_eq_some hall, Option.map_some, ← List.flatMap_def]
  rfl

end SiteBindingSet

end TripleChain
