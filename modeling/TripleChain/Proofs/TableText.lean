import TripleChain.Proofs.BindingText
import TripleChain.Proofs.Groundness
/-!
# Tables and their written rows

A row is written as the terms under its columns with commas between (`Table.rowText`). It is cut at all its commas
before its cells are read, so that a comma inside a term is taken for one between two terms, although a quote or a
bracket around it would keep it together elsewhere. Where no term holds a comma every cell is read as the term that was
written, and the table has the rows in order of first occurrence; else it is refused for the first row with such a term
(`Table.ofRows_rowText_iff`). `Table.commaName_refused` is a name with a comma.
-/

namespace TripleChain

/-! ## Commas in terms -/

/-- A comma stands in the characters of the term or in what a literal carries. -/
def Term.HasComma (t : Term) : Prop := ',' ∈ t.body.toList ∨ ',' ∈ t.annotation.detail.toList

instance (t : Term) : Decidable t.HasComma :=
  inferInstanceAs (Decidable (',' ∈ t.body.toList ∨ ',' ∈ t.annotation.detail.toList))

/-- Some term of the binding has a comma. -/
def Binding.HasComma (b : Binding) : Prop := ∃ e ∈ b.entries, e.2.HasComma

instance (b : Binding) : Decidable b.HasComma := List.decidableBEx _ b.entries

theorem mem_escapeQuoted {c : Char} (h : c ≠ '\\') {cs : List Char} : c ∈ escapeQuoted cs ↔ c ∈ cs := by
  induction cs with
  | nil => rfl
  | cons d cs ih =>
    by_cases hmark : d = '\\' ∨ d = '"'
    · rw [Grammar.escapeQuoted_of_mark hmark]
      simp [ih, h]
    · rw [Grammar.escapeQuoted_of_not_mark hmark, List.mem_cons, List.mem_cons, ih]

/-- None of the marks around a term is a comma. -/
theorem Term.comma_mem_text {t : Term} : ',' ∈ t.text.toList ↔ t.HasComma := by
  unfold HasComma
  cases t with
  | iri text => simp [Term.text, toList_bracketIri, Term.body, Term.annotation, Annotation.detail]
  | var v => simp [Term.text, Variable.text, Term.body, Term.annotation, Annotation.detail]
  | literal l =>
    have hquoted : ',' ∈ (quoteText l.lexical).toList ↔ ',' ∈ l.lexical.toList := by
      simp [quoteText, mem_escapeQuoted]
    rw [Term.text, Literal.toList_text, List.mem_append, hquoted, Term.body, Term.annotation]
    cases l.annotation <;> simp [ Annotation.mark, Annotation.detail]

theorem mapM_map_eq_ok {ε α β : Type} {f : α → Except ε β} {g : β → α} {ys : List β} (h : ∀ y ∈ ys, f (g y) = .ok y) :
    (ys.map g).mapM f = .ok ys := by
  induction ys with
  | nil => rfl
  | cons y ys ih =>
    obtain ⟨hy, hys⟩ := List.forall_mem_cons.1 h
    exact mapM_cons_eq_ok.2 ⟨y, ys, hy, ih hys, rfl⟩

namespace Table

variable {p : Prefixes} {vars : List Variable} {b : Binding} {bs before after : List Binding} {number : Nat}
  {columns : List String}

/-! ## Cutting a row -/

theorem splitCells_eq_splitOn (cs : List Char) : splitCells cs = cs.splitOn ',' := by
  rw [List.splitOn_eq_splitOnP]
  induction cs with
  | nil => rfl
  | cons c cs ih =>
    obtain ⟨cell, cells, hcells⟩ := List.exists_cons_of_ne_nil (List.splitOnP_ne_nil (· == ',') cs)
    rw [splitCells, List.splitOnP_cons_eq_if_modifyHead, ih, hcells]
    by_cases hc : c = ',' <;> simp [hc]

/-- There is a cell more than there are commas. -/
theorem length_splitCells (cs : List Char) : (splitCells cs).length = cs.count ',' + 1 := by
  induction cs with
  | nil => rfl
  | cons c cs ih =>
    rw [splitCells]
    by_cases hc : c = ','
    · rw [if_pos hc, List.length_cons, ih, hc, List.count_cons_self]
    · rw [if_neg hc, List.count_cons_of_ne hc, ← ih]
      cases hcells : splitCells cs with
      | nil => rw [hcells] at ih; cases ih
      | cons cell cells => rfl

/-! ## Written rows -/

/-- The terms that a binding has under some columns, in the order of these. -/
def cellsOf (vars : List Variable) (b : Binding) : List Term := vars.filterMap b.get?

/-- The terms of a binding in the order of the columns, with commas between. -/
def rowText (vars : List Variable) (b : Binding) : String := ",".intercalate ((cellsOf vars b).map Term.text)

/-- The binding binds the columns and nothing else, to terms that come back from their texts. -/
structure Fills (p : Prefixes) (vars : List Variable) (b : Binding) : Prop where
  binds : ∀ v, (∃ t, b.get? v = some t) ↔ v ∈ vars
  comesBack : ∀ v t, b.get? v = some t → Grammar.parseTerm p t.text = .ok t

/-- Which bindings fill a row does not depend on the prefixes. -/
theorem fills_iff :
    Fills p vars b ↔ (∀ v ∈ vars, (b.get? v).isSome = true) ∧ ∀ e ∈ b.entries, e.1 ∈ vars ∧ e.2.Representable := by
  constructor
  · intro h
    refine ⟨fun v hv => Option.isSome_iff_exists.2 ((h.binds v).2 hv), fun e he => ?_⟩
    have hvalue : b.get? e.1 = some e.2 := Binding.mem_entries.1 he
    exact ⟨(h.binds e.1).1 ⟨e.2, hvalue⟩, (Grammar.parseTerm_text_iff p e.2).1 (h.comesBack e.1 e.2 hvalue)⟩
  · rintro ⟨hvars, hentries⟩
    refine ⟨fun v => ⟨?_, fun hv => Option.isSome_iff_exists.1 (hvars v hv)⟩, fun v t ht => ?_⟩
    · rintro ⟨t, ht⟩
      exact (hentries (v, t) (Binding.mem_entries.2 ht)).1
    · exact (Grammar.parseTerm_text_iff p t).2 (hentries (v, t) (Binding.mem_entries.2 ht)).2

instance (p : Prefixes) (vars : List Variable) (b : Binding) : Decidable (Fills p vars b) :=
  @decidable_of_iff _ _ fills_iff.symm
    (@instDecidableAnd _ _ (List.decidableBAll _ vars) (List.decidableBAll _ b.entries))

theorem mem_cellsOf {t : Term} : t ∈ cellsOf vars b ↔ ∃ v ∈ vars, b.get? v = some t := List.mem_filterMap

/-- Every column has a cell. -/
theorem Fills.length_cellsOf (h : Fills p vars b) : (cellsOf vars b).length = vars.length := by
  rw [cellsOf, List.filterMap_length_eq_length]
  exact fun v hv => Option.isSome_iff_exists.2 ((h.binds v).2 hv)

/-- Side by side, columns and cells are entries of the binding. -/
theorem mem_zip_cellsOf {e : Variable × Term} (h : ∀ v ∈ vars, ∃ t, b.get? v = some t) :
    e ∈ vars.zip (cellsOf vars b) ↔ e.1 ∈ vars ∧ b.get? e.1 = some e.2 := by
  induction vars with
  | nil => simp
  | cons v vars ih =>
    obtain ⟨⟨t, ht⟩, hvars⟩ := List.forall_mem_cons.1 h
    rw [cellsOf, List.filterMap_cons_some ht, List.zip_cons_cons, List.mem_cons, ← cellsOf, ih hvars, List.mem_cons,
      or_and_right]
    refine or_congr_left ?_
    constructor
    · rintro rfl
      exact ⟨rfl, ht⟩
    · rintro ⟨hv, he⟩
      rw [hv, ht] at he
      exact Prod.ext hv (Option.some.inj he).symm

/-- The binding comes back from its columns and its cells. -/
theorem Fills.ofList_zip (h : Fills p vars b) : Binding.ofList (vars.zip (cellsOf vars b)) = b := by
  have hmem {e : Variable × Term} : e ∈ vars.zip (cellsOf vars b) ↔ e ∈ b.entries := by
    rw [mem_zip_cellsOf fun v hv => (h.binds v).2 hv, Binding.mem_entries]
    exact and_iff_right_of_imp fun he => (h.binds e.1).1 ⟨e.2, he⟩
  have hkey : ∀ e ∈ vars.zip (cellsOf vars b), ∀ e' ∈ vars.zip (cellsOf vars b), e.1 = e'.1 → e = e' :=
    fun e he e' he' => SortedMap.eq_of_key_eq (hmem.1 he) (hmem.1 he')
  have hvalues : (SortedMap.ofList (vars.zip (cellsOf vars b)) : SortedMap Variable Term) = b.values :=
    SortedMap.ext_mem fun e => (SortedMap.mem_entries_ofList hkey).trans hmem
  exact congrArg Binding.mk hvalues

/-- Without commas in the terms the commas of the row are those between them. -/
theorem Fills.splitCells_rowText (h : Fills p vars b) (hvars : vars ≠ []) (hb : ¬b.HasComma) :
    splitCells (rowText vars b).toList = (cellsOf vars b).map fun t => t.text.toList := by
  have hcells : (cellsOf vars b).map (fun t => t.text.toList) ≠ [] := by
    rw [← List.length_pos_iff, List.length_map, h.length_cellsOf]
    exact List.length_pos_iff.2 hvars
  rw [splitCells_eq_splitOn, rowText, String.toList_intercalate, List.map_map]
  refine List.splitOn_intercalate ',' (fun cell hcell hcomma => ?_) hcells
  obtain ⟨t, ht, rfl⟩ := List.mem_map.1 hcell
  obtain ⟨v, _, hv⟩ := mem_cellsOf.1 ht
  exact hb ⟨(v, t), Binding.mem_entries.2 hv, Term.comma_mem_text.1 hcomma⟩

/-- The commas of the row are those in the terms and one between any two of them. -/
theorem count_intercalate {cells : List (List Char)} (h : cells ≠ []) :
    ([','].intercalate cells).count ',' + 1 = (cells.map (List.count ',')).sum + cells.length := by
  match cells with
  | [] => exact absurd rfl h
  | [cell] => simp
  | cell :: cell' :: cells =>
    have ih := count_intercalate (List.cons_ne_nil cell' cells)
    rw [List.intercalate_cons_cons, List.count_append, List.count_append, List.count_singleton_self]
    simp only [List.map_cons, List.sum_cons, List.length_cons] at ih ⊢
    omega

/-- How many commas there are in the terms under some columns. -/
def commaCount (vars : List Variable) (b : Binding) : Nat :=
  ((cellsOf vars b).map fun t => t.text.toList.count ',').sum

theorem Fills.commaCount_pos (h : Fills p vars b) : 0 < commaCount vars b ↔ b.HasComma := by
  rw [commaCount, List.sum_pos_iff_exists_pos_nat]
  simp only [List.mem_map, exists_exists_and_eq_and, List.count_pos_iff, Term.comma_mem_text, mem_cellsOf]
  constructor
  · rintro ⟨t, ⟨v, _, ht⟩, hcomma⟩
    exact ⟨(v, t), Binding.mem_entries.2 ht, hcomma⟩
  · rintro ⟨⟨v, t⟩, he, hcomma⟩
    have ht : b.get? v = some t := Binding.mem_entries.1 he
    exact ⟨t, ⟨v, (h.binds v).1 ⟨t, ht⟩, ht⟩, hcomma⟩

/-- Each comma in a term makes a cell more than there are columns. -/
theorem Fills.length_splitCells_rowText (h : Fills p vars b) (hvars : vars ≠ []) :
    (splitCells (rowText vars b).toList).length = commaCount vars b + vars.length := by
  have hcells : (cellsOf vars b).map (String.toList ∘ Term.text) ≠ [] := by
    rw [← List.length_pos_iff, List.length_map, h.length_cellsOf]
    exact List.length_pos_iff.2 hvars
  rw [length_splitCells, rowText, String.toList_intercalate, List.map_map]
  refine (count_intercalate hcells).trans ?_
  rw [List.length_map, h.length_cellsOf, List.map_map]
  rfl

/-! ## Reading written rows -/

/-- Why a row is refused that has too many values. -/
def tooMany (vars : List Variable) (number : Nat) (b : Binding) : Failure :=
  invalid ("Row " ++ toString number ++ " has " ++ toString (commaCount vars b + vars.length) ++
    " values but the table has " ++ toString vars.length ++ " columns")

theorem Fills.readRow_rowText (h : Fills p vars b) (hvars : vars ≠ []) (hb : ¬b.HasComma) :
    readRow p vars number (rowText vars b) = .ok b := by
  rw [readRow_eq_ok, h.splitCells_rowText hvars hb, List.length_map]
  refine ⟨h.length_cellsOf, cellsOf vars b, mapM_map_eq_ok fun t ht => ?_, h.ofList_zip⟩
  obtain ⟨v, _, hv⟩ := mem_cellsOf.1 ht
  have hread := h.comesBack v t hv
  have htrim : Text.trim t.text.toList = t.text.toList := Grammar.trim_text ((Grammar.parseTerm_text_iff p t).1 hread)
  rw [readCell_eq_ok, htrim, String.ofList_toList]
  exact hread

theorem Fills.readRow_refused (h : Fills p vars b) (hvars : vars ≠ []) (hb : b.HasComma) :
    readRow p vars number (rowText vars b) = .error (.report (tooMany vars number b)) := by
  have hlength := h.length_splitCells_rowText hvars
  have hmore : (splitCells (rowText vars b).toList).length ≠ vars.length := by
    have hpos := h.commaCount_pos.2 hb
    omega
  unfold readRow
  dsimp only
  rw [if_pos hmore, hlength, tooMany]

/-- Rows without commas in their terms are read one after the other. -/
theorem readRows_rowText (hvars : vars ≠ []) (hbs : ∀ b ∈ bs, Fills p vars b ∧ ¬b.HasComma) (k : Nat) :
    ((bs.map (rowText vars)).zipIdx k).mapM (fun row => readRow p vars row.2 row.1) = .ok bs := by
  induction bs generalizing k with
  | nil => rfl
  | cons b bs ih =>
    obtain ⟨⟨hb, hcomma⟩, hbs⟩ := List.forall_mem_cons.1 hbs
    exact mapM_cons_eq_ok.2 ⟨b, bs, hb.readRow_rowText hvars hcomma, ih hbs (k + 1), rfl⟩

/-- The first row with a comma in a term is reported. -/
theorem readRows_refused (hvars : vars ≠ []) (hbefore : ∀ b ∈ before, Fills p vars b ∧ ¬b.HasComma)
    (hb : Fills p vars b) (hcomma : b.HasComma) :
    (((before ++ b :: after).map (rowText vars)).zipIdx).mapM (fun row => readRow p vars row.2 row.1) =
      .error (.report (tooMany vars before.length b)) := by
  rw [List.map_append, List.zipIdx_append, List.mapM_append, readRows_rowText hvars hbefore, List.map_cons,
    List.zipIdx_cons, List.mapM_cons, List.length_map, Nat.zero_add]
  dsimp only
  rw [hb.readRow_refused hvars hcomma]
  rfl

/-- Columns with at least one name, and rows that write bindings of them to terms that come back from their texts: the
table has these rows, in order of first occurrence, if no term has a comma. Else it is refused for the first row with
such a term. -/
theorem ofRows_rowText_iff (p : Prefixes) (hcolumns : columns ≠ []) (hvars : columns.map Variable.ofName = vars)
    (hbs : ∀ b ∈ bs, Fills p vars b) :
    (ofRows p columns (bs.map (rowText vars)) = .ok ⟨vars, .ofList bs⟩ ↔ ∀ b ∈ bs, ¬b.HasComma) ∧
    (InsertionSet.ofList bs).toList = bs.eraseDups ∧
    ∀ before b after, bs = before ++ b :: after → (∀ b' ∈ before, ¬b'.HasComma) → b.HasComma →
      ofRows p columns (bs.map (rowText vars)) = .error (.report (tooMany vars before.length b)) := by
  have hne : vars ≠ [] := by
    rw [← hvars]
    simpa using hcolumns
  have hread : ofRows p columns (bs.map (rowText vars)) = ((bs.map (rowText vars)).zipIdx.mapM
      fun row => readRow p vars row.2 row.1).map fun rows => ⟨vars, .ofList rows⟩ := by
    unfold ofRows
    rw [if_neg (by simpa using hcolumns), hvars]
  have hrefused : ∀ before b after, bs = before ++ b :: after → (∀ b' ∈ before, ¬b'.HasComma) → b.HasComma →
      ofRows p columns (bs.map (rowText vars)) = .error (.report (tooMany vars before.length b)) := by
    rintro before b after rfl hbefore hcomma
    obtain ⟨hfills, hb, _⟩ := List.forall_mem_append.1 hbs |>.imp_right List.forall_mem_cons.1
    rw [hread, readRows_refused hne (fun b' hb' => ⟨hfills b' hb', hbefore b' hb'⟩) hb hcomma]
    rfl
  refine ⟨⟨fun hok => ?_, fun hcomma => ?_⟩, InsertionSet.toList_ofList bs, hrefused⟩
  · by_contra hsome
    cases hfirst : bs.find? fun b => decide b.HasComma with
    | none => exact hsome fun b hb => by simpa using List.find?_eq_none.1 hfirst b hb
    | some b =>
      obtain ⟨hb, before, after, heq, hbefore⟩ := List.find?_eq_some_iff_append.1 hfirst
      rw [hrefused before b after heq (fun b' hb' => by simpa using hbefore b' hb') (by simpa using hb)] at hok
      cases hok
  · rw [hread, readRows_rowText hne fun b hb => ⟨hbs b hb, hcomma b hb⟩]
    rfl

/-- People by name and age, one of them twice. The names have quotes, bars and blanks at their ends. -/
def namedPeople : List Binding :=
  [.ofList [(⟨"name"⟩, .literal (.ofText " Ann \"A\" | Lee ")),
      (⟨"age"⟩, .literal (.typed "42" Vocabulary.xsdInteger))],
    .ofList [(⟨"name"⟩, .iri "http://e/bob"), (⟨"age"⟩, .literal (.inLanguage "sixty" "en"))],
    .ofList [(⟨"name"⟩, .literal (.ofText " Ann \"A\" | Lee ")),
        (⟨"age"⟩, .literal (.typed "42" Vocabulary.xsdInteger))]]

theorem namedPeople_read : ["name", "?age"] ≠ [] ∧
    ["name", "?age"].map Variable.ofName = [⟨"name"⟩, ⟨"age"⟩] ∧
    (∀ b ∈ namedPeople, Fills .standard [⟨"name"⟩, ⟨"age"⟩] b) ∧
    ofRows .standard ["name", "?age"] (namedPeople.map (rowText [⟨"name"⟩, ⟨"age"⟩])) =
      .ok ⟨[⟨"name"⟩, ⟨"age"⟩], .ofList namedPeople⟩ ∧ (InsertionSet.ofList namedPeople).size = 2 := by
  have hcolumns : ["name", "?age"] ≠ [] := List.cons_ne_nil _ _
  have hvars : ["name", "?age"].map Variable.ofName = [⟨"name"⟩, ⟨"age"⟩] := by decide
  have hbs : ∀ b ∈ namedPeople, Fills .standard [⟨"name"⟩, ⟨"age"⟩] b := by decide +kernel
  exact ⟨hcolumns, hvars, hbs, (ofRows_rowText_iff .standard hcolumns hvars hbs).1.2 (by decide +kernel),
    by decide +kernel⟩

/-- A name with a comma. -/
def commaName : Binding := .ofList [(⟨"name"⟩, .literal (.ofText "Doe, Jane"))]

/-- The name comes back from its text, but its row is refused for having two values. -/
theorem commaName_refused : Fills .standard [⟨"name"⟩] commaName ∧ rowText [⟨"name"⟩] commaName = "\"Doe, Jane\"" ∧
    ofRows .standard ["name"] [rowText [⟨"name"⟩] commaName] =
      .error (.report (invalid "Row 0 has 2 values but the table has 1 columns")) := by
  have hfills : Fills .standard [⟨"name"⟩] commaName := by decide +kernel
  refine ⟨hfills, by decide +kernel, ?_⟩
  -- A failure can be compared, a table cannot.
  have hrow : readRow .standard [⟨"name"⟩] 0 (rowText [⟨"name"⟩] commaName) =
      .error (.report (invalid "Row 0 has 2 values but the table has 1 columns")) := by
    decide +kernel
  have hvars : ["name"].map Variable.ofName = [⟨"name"⟩] := by decide
  unfold ofRows
  rw [if_neg (by simp), hvars, List.zipIdx_singleton]
  dsimp only
  rw [List.mapM_cons, hrow]
  rfl

end Table

end TripleChain
