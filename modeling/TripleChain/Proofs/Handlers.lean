import TripleChain.Rule.Invoke
import TripleChain.Proofs.Consequence
/-!
# What handlers make of bindings

`Rule.Yields` says that a binding is in what a rule makes of some bindings. A rule is `Pointwise` when it
never fails on bindings of its antecedent and works binding by binding. Copying rules
(`Rule.IsCopy.pointwise`) and data rules (`Rule.IsData.pointwise`) are.
-/

open Std

namespace TripleChain

/-! ## Lists of results -/

theorem Except.bind_eq_ok {ε α β : Type} {x : Except ε α} {f : α → Except ε β} {y : β} :
    x >>= f = .ok y ↔ ∃ a, x = .ok a ∧ f a = .ok y := by
  cases x with
  | error e => simp [bind, Except.bind]
  | ok a => simp [bind, Except.bind]

theorem Except.map_eq_ok {ε α β : Type} {x : Except ε α} {f : α → β} {y : β} :
    x.map f = .ok y ↔ ∃ a, x = .ok a ∧ f a = y := by
  cases x with
  | error e => simp [Except.map]
  | ok a => simp [Except.map]

theorem mapM_cons_eq_ok {ε α β : Type} {f : α → Except ε β} {a : α} {l : List α} {ys : List β} :
    (a :: l).mapM f = .ok ys ↔ ∃ y zs, f a = .ok y ∧ l.mapM f = .ok zs ∧ ys = y :: zs := by
  rw [List.mapM_cons, Except.bind_eq_ok]
  constructor
  · rintro ⟨y, hy, h⟩
    obtain ⟨zs, hzs, h⟩ := Except.bind_eq_ok.1 h
    cases h
    exact ⟨y, zs, hy, hzs, rfl⟩
  · rintro ⟨y, zs, hy, hzs, rfl⟩
    exact ⟨y, hy, Except.bind_eq_ok.2 ⟨zs, hzs, rfl⟩⟩

theorem exists_mapM_ok {ε α β : Type} {f : α → Except ε β} {l : List α} (h : ∀ a ∈ l, ∃ y, f a = .ok y) :
    ∃ ys, l.mapM f = .ok ys := by
  induction l with
  | nil => exact ⟨[], rfl⟩
  | cons a l ih =>
    obtain ⟨y, hy⟩ := h a List.mem_cons_self
    obtain ⟨ys, hys⟩ := ih fun b hb => h b (List.mem_cons_of_mem a hb)
    exact ⟨y :: ys, mapM_cons_eq_ok.2 ⟨y, ys, hy, hys, rfl⟩⟩

theorem mem_of_mapM_ok {ε α β : Type} {f : α → Except ε β} {l : List α} {ys : List β} (h : l.mapM f = .ok ys) :
    (∀ y, y ∈ ys ↔ ∃ a ∈ l, f a = .ok y) ∧ ∀ a ∈ l, ∃ y, f a = .ok y := by
  induction l generalizing ys with
  | nil =>
    cases h
    simp
  | cons a l ih =>
    obtain ⟨y, zs, hy, hzs, rfl⟩ := mapM_cons_eq_ok.1 h
    obtain ⟨hmem, hall⟩ := ih hzs
    refine ⟨fun z => ?_, fun b hb => ?_⟩
    · rw [List.mem_cons, hmem, List.exists_mem_cons_iff, hy]
      simp [eq_comm]
    · rcases List.mem_cons.1 hb with rfl | hb
      · exact ⟨y, hy⟩
      · exact hall b hb

theorem length_of_mapM_ok {ε α β : Type} {f : α → Except ε β} {l : List α} {ys : List β} (h : l.mapM f = .ok ys) :
    ys.length = l.length := by
  induction l generalizing ys with
  | nil =>
    cases h
    rfl
  | cons a l ih =>
    obtain ⟨y, zs, _, hzs, rfl⟩ := mapM_cons_eq_ok.1 h
    rw [List.length_cons, List.length_cons, ih hzs]

/-! ## Projecting -/

theorem SortedMap.get?_insertAll {α β : Type} [Ord α] [TransOrd α] [LawfulEqOrd α] {m : SortedMap α β}
    {l : List (α × β)} {g : α → Option β} (h : ∀ e ∈ l, g e.1 = some e.2) (k : α) :
    (∃ e ∈ l, e.1 = k) ∧ (m.insertAll l).get? k = g k ∨
      (∀ e ∈ l, e.1 ≠ k) ∧ (m.insertAll l).get? k = m.get? k := by
  induction l generalizing m with
  | nil => exact .inr ⟨by simp, rfl⟩
  | cons e l ih =>
    have hstep : (m.insertAll (e :: l)) = (m.insert e.1 e.2).insertAll l := rfl
    rw [hstep]
    rcases ih (m := m.insert e.1 e.2) fun a ha => h a (List.mem_cons_of_mem e ha) with ⟨⟨a, ha, hk⟩, hg⟩ | ⟨hno, hg⟩
    · exact .inl ⟨⟨a, List.mem_cons_of_mem e ha, hk⟩, hg⟩
    · by_cases hk : e.1 = k
      · refine .inl ⟨⟨e, List.mem_cons_self, hk⟩, ?_⟩
        rw [hg, ← hk, SortedMap.get?_insert_self, h e List.mem_cons_self]
      · refine .inr ⟨List.forall_mem_cons.2 ⟨hk, hno⟩, ?_⟩
        rw [hg, SortedMap.get?_insert_of_ne _ _ hk]

namespace Handler

/-- The entry of a variable, if it is bound. -/
def entry (b : Binding) (v : Variable) : Except Failure (Variable × Term) :=
  match b.get? v with
  | some t => .ok (v, t)
  | none => .error (Failure.missingVariable v.name)

theorem entry_eq_ok {b : Binding} {v : Variable} {e : Variable × Term} :
    entry b v = .ok e ↔ e.1 = v ∧ b.get? v = some e.2 := by
  obtain ⟨w, t⟩ := e
  unfold entry
  cases hv : b.get? v with
  | none => simp
  | some u => simp [eq_comm]

theorem ofList_entries {vars : SortedSet Variable} {b : Binding} {l : List (Variable × Term)}
    (h : vars.toList.mapM (entry b) = .ok l) :
    (∀ v ∈ vars, ∃ t, b.get? v = some t) ∧ Binding.ofList l = b.restrict vars := by
  obtain ⟨hmem, hall⟩ := mem_of_mapM_ok h
  have hbound : ∀ v ∈ vars, ∃ t, b.get? v = some t := fun v hv => by
    obtain ⟨e, he⟩ := hall v hv
    exact ⟨e.2, (entry_eq_ok.1 he).2⟩
  have hentries (e : Variable × Term) : e ∈ l ↔ e.1 ∈ vars ∧ b.get? e.1 = some e.2 := by
    rw [hmem]
    constructor
    · rintro ⟨v, hv, he⟩
      obtain ⟨rfl, ht⟩ := entry_eq_ok.1 he
      exact ⟨hv, ht⟩
    · rintro ⟨hv, ht⟩
      exact ⟨e.1, hv, entry_eq_ok.2 ⟨rfl, ht⟩⟩
  refine ⟨hbound, Binding.ext_get? fun v => ?_⟩
  rw [Binding.get?_restrict]
  rcases SortedMap.get?_insertAll (m := (∅ : SortedMap Variable Term)) (g := b.get?)
    (fun e he => ((hentries e).1 he).2) v with ⟨⟨e, he, hk⟩, hg⟩ | ⟨hno, hg⟩
  · rw [if_pos (hk ▸ ((hentries e).1 he).1)]
    exact hg
  · rw [if_neg]
    · exact hg
    · intro hv
      obtain ⟨t, ht⟩ := hbound v hv
      exact hno (v, t) ((hentries (v, t)).2 ⟨hv, ht⟩) rfl

/-- Projecting is restricting, and it fails when a variable is missing. -/
theorem project_eq_ok {vars : SortedSet Variable} {b c : Binding} :
    project vars b = .ok c ↔ (∀ v ∈ vars, ∃ t, b.get? v = some t) ∧ c = b.restrict vars := by
  rw [show project vars b = (vars.toList.mapM (entry b)).map .ofList from rfl, Except.map_eq_ok]
  constructor
  · rintro ⟨l, hl, rfl⟩
    exact ofList_entries hl
  · rintro ⟨hall, rfl⟩
    obtain ⟨l, hl⟩ := exists_mapM_ok (f := entry b) (l := vars.toList) fun v hv => by
      obtain ⟨t, ht⟩ := hall v hv
      exact ⟨(v, t), entry_eq_ok.2 ⟨rfl, ht⟩⟩
    exact ⟨l, hl, (ofList_entries hl).2⟩

/-- Copying fails when a variable is missing somewhere, and restricts every binding otherwise. -/
theorem copy_eq_ok {vars : SortedSet Variable} {s out : BindingSet} (h : (copy vars).handle s = .ok out) :
    (∀ b ∈ s, ∀ v ∈ vars, ∃ t, b.get? v = some t) ∧ ∀ c, c ∈ out ↔ ∃ b ∈ s, c = b.restrict vars := by
  obtain ⟨l, hl, rfl⟩ := Except.map_eq_ok.1 h
  obtain ⟨hmem, hall⟩ := mem_of_mapM_ok hl
  have hbound : ∀ b ∈ s, ∀ v ∈ vars, ∃ t, b.get? v = some t := fun b hb => by
    obtain ⟨c, hc⟩ := hall b hb
    exact (project_eq_ok.1 hc).1
  refine ⟨hbound, fun c => ?_⟩
  rw [InsertionSet.mem_ofList, hmem]
  exact exists_congr fun b => and_congr_right fun hb => by rw [project_eq_ok, and_iff_right (hbound b hb)]

theorem exists_copy_ok {vars : SortedSet Variable} {s : BindingSet}
    (h : ∀ b ∈ s, ∀ v ∈ vars, ∃ t, b.get? v = some t) : ∃ out, (copy vars).handle s = .ok out := by
  obtain ⟨l, hl⟩ := exists_mapM_ok (f := project vars) (l := s.toList) fun b hb =>
    ⟨_, project_eq_ok.2 ⟨h b hb, rfl⟩⟩
  exact ⟨.ofList l, Except.map_eq_ok.2 ⟨l, hl, rfl⟩⟩

end Handler

/-- Asked with bindings, a table gives the rows that contradict one of them in nothing; asked with none, all. -/
theorem Table.mem_answer {t : Table} {s : BindingSet} {c : Binding} :
    c ∈ t.answer s ↔ c ∈ t.rows ∧ (s.isEmpty = true ∨ ∃ b ∈ s, c.compatible b = true) := by
  have hfold (l : List Binding) (acc : BindingSet) :
      c ∈ l.foldl (fun s b => s.union (t.query b)) acc ↔ c ∈ acc ∨ c ∈ t.rows ∧ ∃ b ∈ l, c.compatible b = true := by
    induction l generalizing acc with
    | nil => simp
    | cons b l ih =>
      rw [List.foldl_cons, ih, InsertionSet.mem_union, Table.query, InsertionSet.mem_filter,
        List.exists_mem_cons_iff, or_assoc, ← and_or_left]
  unfold answer
  split
  · next h => simp [h]
  · next h =>
    rw [hfold]
    simp only [InsertionSet.not_mem_emptyCollection, false_or, h, Bool.false_eq_true]
    rfl

/-! ## Rules that work binding by binding -/

namespace Rule

/-- The binding is in what the rule makes of some bindings. -/
def Yields (r : Rule) (s : BindingSet) (c : Binding) : Prop := ∃ out, r.invoke s = .ok out ∧ c ∈ out

/-- The bindings bind all variables of the antecedent. -/
def Accepts (r : Rule) (s : BindingSet) : Prop :=
  ∀ b ∈ s, ∀ v ∈ Pattern.vars r.antecedent, ∃ t, b.get? v = some t

/-- The rule does not fail on bindings of its antecedent, and what it makes of two sets of them together is
what it makes of each, unless one is empty. -/
structure Pointwise (r : Rule) : Prop where
  total : ∀ s, r.Accepts s → ∃ out, r.invoke s = .ok out
  union : ∀ s t, r.Accepts s → r.Accepts t → s.isEmpty = false → t.isEmpty = false →
    ∀ c, r.Yields (s.union t) c ↔ r.Yields s c ∨ r.Yields t c

/-- Nothing comes of a rule that only starts plans or only takes. -/
theorem not_yields_of_isProactive {r : Rule} (h : r.isProactive = true) {s : BindingSet} {c : Binding} :
    ¬ r.Yields s c := by
  rintro ⟨out, hout, _⟩
  unfold isProactive at h
  split at h
  · next hrole =>
    rw [Rule.invoke, hrole] at hout
    cases hout
  · cases h

theorem not_yields_of_isSink {r : Rule} (h : r.isSink = true) {s : BindingSet} {c : Binding} : ¬ r.Yields s c := by
  rintro ⟨out, hout, hc⟩
  unfold isSink at h
  split at h
  · next f hrole =>
    rw [Rule.invoke, hrole] at hout
    obtain ⟨_, _, rfl⟩ := Except.map_eq_ok.1 hout
    exact InsertionSet.not_mem_emptyCollection c hc
  · cases h

theorem IsCopy.invoke {r : Rule} (h : r.IsCopy) (s : BindingSet) :
    r.invoke s = (Handler.copy (Pattern.vars r.consequent)).handle s := by
  rw [Rule.invoke, h.role]

theorem IsData.invoke {r : Rule} {t : Table} (h : r.IsData t) (s : BindingSet) : r.invoke s = .ok (t.answer s) := by
  rw [Rule.invoke, h.role]
  rfl

theorem IsCopy.total {r : Rule} (h : r.IsCopy) {s : BindingSet} (hs : r.Accepts s) : ∃ out, r.invoke s = .ok out := by
  rw [h.invoke]
  exact Handler.exists_copy_ok fun b hb v hv => hs b hb v (h.vars v hv)

theorem IsCopy.yields_iff {r : Rule} (h : r.IsCopy) {s : BindingSet} (hs : r.Accepts s) {c : Binding} :
    r.Yields s c ↔ ∃ b ∈ s, c = b.restrict (Pattern.vars r.consequent) := by
  obtain ⟨out, hout⟩ := h.total hs
  have hmem := (Handler.copy_eq_ok (h.invoke s ▸ hout)).2 c
  constructor
  · rintro ⟨out', hout', hc⟩
    rw [hout] at hout'
    cases hout'
    exact hmem.1 hc
  · exact fun hc => ⟨out, hout, hmem.2 hc⟩

theorem IsData.yields_iff {r : Rule} {t : Table} (h : r.IsData t) {s : BindingSet} {c : Binding} :
    r.Yields s c ↔ c ∈ t.rows ∧ (s.isEmpty = true ∨ ∃ b ∈ s, c.compatible b = true) := by
  rw [← Table.mem_answer]
  constructor
  · rintro ⟨out, hout, hc⟩
    rw [h.invoke] at hout
    cases hout
    exact hc
  · exact fun hc => ⟨_, h.invoke s, hc⟩

theorem Accepts.union {r : Rule} {s t : BindingSet} (hs : r.Accepts s) (ht : r.Accepts t) : r.Accepts (s.union t) :=
  fun b hb => (InsertionSet.mem_union.1 hb).elim (hs b) (ht b)

theorem isEmpty_union {s t : BindingSet} (hs : s.isEmpty = false) : (s.union t).isEmpty = false := by
  obtain ⟨b, hb⟩ := InsertionSet.exists_mem hs
  exact InsertionSet.isEmpty_eq_false (InsertionSet.mem_union.2 (.inl hb))

theorem exists_mem_union {s t : BindingSet} {q : Binding → Prop} :
    (∃ b ∈ s.union t, q b) ↔ (∃ b ∈ s, q b) ∨ ∃ b ∈ t, q b := by
  simp only [InsertionSet.mem_union, or_and_right, exists_or]

theorem IsCopy.pointwise {r : Rule} (h : r.IsCopy) : r.Pointwise where
  total _ hs := h.total hs
  union s t hs ht _ _ c := by
    rw [h.yields_iff (hs.union ht), h.yields_iff hs, h.yields_iff ht, exists_mem_union]

theorem IsData.pointwise {r : Rule} {t : Table} (h : r.IsData t) : r.Pointwise where
  total s _ := ⟨_, h.invoke s⟩
  union s u _ _ hs hu c := by
    rw [h.yields_iff, h.yields_iff, h.yields_iff, exists_mem_union, isEmpty_union hs, hs, hu]
    simp only [Bool.false_eq_true, false_or, and_or_left]

/-- A rule that gives something works binding by binding. -/
theorem IsTransparent.pointwise {r : Rule} (h : r.IsTransparent) (hpro : r.isProactive = false)
    (hgives : r.consequent.isEmpty = false) : r.Pointwise := by
  rcases h with h | h | h | ⟨t, h⟩
  · rw [hpro] at h
    cases h
  · have hadmitted := r.admitted
    unfold isSink at h
    split at h
    · next f hrole =>
      rw [hrole, Role.admits, hgives, Bool.and_false] at hadmitted
      cases hadmitted
    · cases h
  · exact h.pointwise
  · exact h.pointwise

/-- Data are data on something. -/
theorem IsData.gives {r : Rule} {t : Table} (h : r.IsData t) : r.consequent.isEmpty = false := by
  have hadmitted := r.admitted
  rw [h.role] at hadmitted
  simpa [Role.admits] using hadmitted

/-- The rule is asked with each binding by itself. -/
theorem Pointwise.yields_iff {r : Rule} (h : r.Pointwise) {s : BindingSet} (hs : r.Accepts s) (hne : s.isEmpty = false)
    {c : Binding} : r.Yields s c ↔ ∃ b ∈ s, r.Yields (.singleton b) c := by
  obtain ⟨l, hl⟩ := s
  induction l with
  | nil => cases hne
  | cons a l ih =>
    obtain ⟨ha, hl'⟩ := List.nodup_cons.1 hl
    have hacc : r.Accepts ⟨l, hl'⟩ := fun b hb => hs b (List.mem_cons_of_mem a hb)
    have hone : r.Accepts (.singleton a) := fun b hb => by
      rw [InsertionSet.mem_singleton.1 hb]
      exact hs a List.mem_cons_self
    -- A union comes apart only as long as neither part is empty: the last binding is a case by itself.
    cases l with
    | nil =>
      constructor
      · exact fun hc => ⟨a, List.mem_cons_self, hc⟩
      · rintro ⟨b, hb, hc⟩
        rw [List.mem_singleton.1 hb] at hc
        exact hc
    | cons a' l' =>
      have hsplit : (⟨a :: a' :: l', hl⟩ : BindingSet) = (InsertionSet.singleton a).union ⟨a' :: l', hl'⟩ :=
        InsertionSet.singleton_union hl
      rw [hsplit, h.union _ _ hone hacc rfl rfl, ih hl' hacc rfl, exists_mem_union]
      simp only [InsertionSet.mem_singleton, exists_eq_left]

end Rule

/-- Rules that copy or hold data work binding by binding. -/
theorem RuleStore.Declarative.pointwise {s : RuleStore} (hs : s.Declarative) :
    ∀ r ∈ s.rules, r.isProactive = false → r.Pointwise := by
  intro r hr hpro
  rcases hs r hr with h | h | ⟨t, h⟩
  · rw [hpro] at h
    cases h
  · exact h.pointwise
  · exact h.pointwise

end TripleChain
