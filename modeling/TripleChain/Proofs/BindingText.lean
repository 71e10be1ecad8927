import TripleChain.Proofs.Collections
import TripleChain.Proofs.Layout
import TripleChain.Grammar.Binding
/-!
# Binding sets and their written forms

A binding is written as its pairs in any order, a name with or without its question mark, and with blanks and tabs
around the marks (`Grammar.BindingText`); bars separate bindings. Whatever stands inside the terms, these texts are read
as the bindings in order of first occurrence (`Grammar.parseBindings_text`). What is last and has no pairs leaves no
trace in the text and is not read.
-/

namespace TripleChain

/-- The name and the term can be told from their written forms, and the term is no variable. -/
def FitsPair (e : Variable × Term) : Prop := FitsName e.1.name ∧ e.2.isGround = true ∧ e.2.Representable

instance (e : Variable × Term) : Decidable (FitsPair e) :=
  inferInstanceAs (Decidable (FitsName e.1.name ∧ e.2.isGround = true ∧ e.2.Representable))

/-- The binding can be told from its pairs. -/
def Binding.Representable (b : Binding) : Prop := ∀ e ∈ b.entries, FitsPair e

instance Binding.decidableRepresentable (b : Binding) : Decidable b.Representable :=
  List.decidableBAll FitsPair b.entries

/-- Entries in another order make the same binding. -/
theorem Binding.ofList_of_perm {b : Binding} {es : List (Variable × Term)} (h : es.Perm b.entries) : ofList es = b := by
  have hkey : ∀ e ∈ es, ∀ e' ∈ es, e.1 = e'.1 → e = e' := fun e he e' he' =>
    SortedMap.eq_of_key_eq (h.mem_iff.1 he) (h.mem_iff.1 he')
  have hvalues : (SortedMap.ofList es : SortedMap Variable Term) = b.values := SortedMap.ext_mem fun e => by
    rw [SortedMap.mem_entries_ofList hkey, h.mem_iff]
    rfl
  exact congrArg Binding.mk hvalues

namespace Grammar

variable {p : Prefixes} {e : Variable × Term} {es : List (Variable × Term)} {whole cs rest rest' tail : List Char}
  {b before : Binding} {set : BindingSet} {bs : List Binding}

/-- A name, an equals sign and a term. -/
def PairText (e : Variable × Term) (cs : List Char) : Prop :=
  ∃ mark g h, (mark = [] ∨ mark = ['?']) ∧ Spaces g ∧ Spaces h ∧
    cs = mark ++ (e.1.name.toList ++ (g ++ '=' :: (h ++ e.2.text.toList)))

/-- The pairs of the binding with commas between. -/
def BindingText (b : Binding) (cs : List Char) : Prop := ∃ es, es.Perm b.entries ∧ Joined PairText Spaces ',' es cs

/-! ## One pair -/

theorem scanName?_eq_none {c : Char} (h : isNameChar c = false) (cs : List Char) : scanName? (c :: cs) = none := by
  rw [scanName?, List.takeWhile_cons_of_neg (by simp [h])]

/-- A name is found with its question mark or without. -/
theorem scanKey?_name {mark : List Char} {name : String} (hmark : mark = [] ∨ mark = ['?']) (hname : FitsName name)
    (hrest : ∀ c ∈ rest.head?, isNameChar c = false) :
    scanKey? (mark ++ (name.toList ++ rest)) = some (⟨name⟩, rest) := by
  have hscan : scanName? (name.toList ++ rest) = some (name, rest) := scanName?_eq_some.2 ⟨rfl, hname, hrest⟩
  rcases hmark with rfl | rfl
  · rw [List.nil_append]
    unfold scanKey?
    split
    · next heq =>
      rw [heq, scanName?_eq_none (by decide +kernel)] at hscan
      cases hscan
    · rw [hscan]
      rfl
  · show (scanName? (name.toList ++ rest)).map _ = _
    rw [hscan]
    rfl

theorem isBlank_of_isNameChar {c : Char} (h : isNameChar c = true) : Text.isBlank c = false := by
  cases hblank : Text.isBlank c with
  | false => rfl
  | true =>
    rw [isNameChar, Text.isAlphanumeric_of_isBlank hblank, Bool.false_or, beq_iff_eq] at h
    subst h
    cases hblank

/-- A written pair begins with a question mark or a name and ends with a term. -/
theorem PairText.exists_cons (h : PairText e cs) (he : FitsPair e) :
    ∃ c mid, (c = '?' ∨ isNameChar c = true) ∧ cs = c :: (mid ++ e.2.text.toList) := by
  obtain ⟨mark, g, g', hmark, _, _, rfl⟩ := h
  rcases hmark with rfl | rfl
  · obtain ⟨c, name, hcons⟩ := List.exists_cons_of_ne_nil (mt String.toList_eq_nil_iff.1 he.1.1)
    refine ⟨c, name ++ (g ++ '=' :: g'), .inr (forall_isNameChar.2 he.1.2 c (hcons ▸ List.mem_cons_self)), ?_⟩
    simp only [hcons, List.nil_append, List.cons_append, List.append_assoc]
  · refine ⟨'?', e.1.name.toList ++ (g ++ '=' :: g'), .inl rfl, ?_⟩
    simp only [List.cons_append, List.nil_append, List.append_assoc]

theorem PairText.tight (h : PairText e cs) (he : FitsPair e) : Text.Tight cs := by
  obtain ⟨c, mid, hc, rfl⟩ := h.exists_cons he
  have hblank : Text.isBlank c = false := hc.elim (fun heq => heq ▸ rfl) isBlank_of_isNameChar
  exact (Text.tight_singleton hblank).append (tight_text he.2.2) mid

/-- No written pair is passed over. -/
theorem PairText.skipInline_append (h : PairText e cs) (he : FitsPair e) (tail : List Char) :
    skipInline (cs ++ tail) = cs ++ tail := by
  obtain ⟨c, mid, hc, rfl⟩ := h.exists_cons he
  rw [List.cons_append, skipInline, List.dropWhile_cons_of_neg]
  rcases hc with rfl | hc
  · decide
  · have hblank := isBlank_of_isNameChar hc
    intro hspace
    rw [Bool.or_eq_true, beq_iff_eq, beq_iff_eq] at hspace
    rcases hspace with rfl | rfl <;> cases hblank

/-- A pair is read off the front of any text that does not go on with its term. -/
theorem PairText.readPair (h : PairText e cs) (he : FitsPair e) (htail : ∀ c ∈ tail.head?, EndsTerm c) :
    readPair p whole (cs ++ tail) = .ok (e, tail) := by
  obtain ⟨hname, hground, hterm⟩ := he
  obtain ⟨mark, g, g', hmark, hg, hg', rfl⟩ := h
  have hend : ∀ c ∈ (g ++ '=' :: (g' ++ (e.2.text.toList ++ tail))).head?, EndsTerm c :=
    hg.endsTerm fun c hc => by cases hc; decide +kernel
  have hkey := scanKey?_name hmark hname fun c hc => (hend c hc).1
  have hequals : skipInline (g ++ '=' :: (g' ++ (e.2.text.toList ++ tail))) =
      '=' :: (g' ++ (e.2.text.toList ++ tail)) :=
    hg.skipInline_append _
  have hvalue : skipInline (g' ++ (e.2.text.toList ++ tail)) = e.2.text.toList ++ tail := by
    rw [hg'.skipInline_append, skipInline_text]
  have hvariable : e.2.isVariable = false := by simpa [Term.isGround] using hground
  simp only [List.append_assoc, List.cons_append]
  simp only [Grammar.readPair, hkey, hequals, hvalue, readTerm_text p hterm htail, hvariable]
  rfl

/-! ## From pair to pair -/

theorem ne_bar_of_readPair (h : Grammar.readPair p whole cs = .ok (e, rest)) :
    (cs.isEmpty || cs.head? == some '|') = false := by
  unfold Grammar.readPair at h
  split at h
  · cases h
  · next hkey =>
    cases cs with
    | nil => cases hkey
    | cons c cs =>
      by_cases hc : c = '|'
      · subst hc
        have hscan : scanKey? ('|' :: cs) = (scanName? ('|' :: cs)).map fun found => (⟨found.1⟩, found.2) := rfl
        rw [hscan, scanName?_eq_none (by decide +kernel)] at hkey
        cases hkey
      · simp [hc]

/-- At a bar or at the end of the text. -/
def AtBar (cs : List Char) : Prop := cs = [] ∨ ∃ rest, cs = '|' :: rest

/-- At a bar or at the end the pairs are complete. -/
theorem readPairs_stop (h : AtBar cs) : readPairs p whole before cs = .ok (before, cs) := by
  rw [readPairs_eq]
  rcases h with rfl | ⟨rest, rfl⟩ <;> rfl

/-- The last pair is followed by a bar or by nothing. -/
theorem readPairs_last (he : Grammar.readPair p whole cs = .ok (e, rest))
    (hr : AtBar (skipInline rest)) :
    readPairs p whole before cs = .ok (before.insert e.1 e.2, skipInline rest) := by
  rw [readPairs_eq, if_neg (by simp [ne_bar_of_readPair he]), he]
  rcases hr with hr | ⟨rest', hr⟩
  · simp only [hr]
  · simp only [hr]
    rfl

/-- After a comma the next pair is read. -/
theorem readPairs_next (he : Grammar.readPair p whole cs = .ok (e, rest)) (hr : skipInline rest = ',' :: rest') :
    readPairs p whole before cs = readPairs p whole (before.insert e.1 e.2) (skipInline rest') := by
  rw [readPairs_eq, if_neg (by simp [ne_bar_of_readPair he]), he]
  simp only [hr, if_pos]

/-- The pairs of a row are read one after the other, each entered over those before. -/
theorem readPairs_joined (h : Joined PairText Spaces ',' es cs) (hes : ∀ e ∈ es, FitsPair e)
    (htail : ∀ c ∈ tail.head?, EndsTerm c) (hbar : AtBar (skipInline tail)) :
    readPairs p whole before (skipInline (cs ++ tail)) = .ok (⟨before.values.insertAll es⟩, skipInline tail) := by
  induction h generalizing before with
  | nil => exact readPairs_stop hbar
  | single ha =>
    have he := hes _ List.mem_cons_self
    rw [ha.skipInline_append he, readPairs_last (ha.readPair he htail) hbar]
    rfl
  | @cons e e' es cs space space' rest ha hspace hspace' hrest ih =>
    have he := hes e List.mem_cons_self
    have hread : Grammar.readPair p whole (cs ++ (space ++ ',' :: (space' ++ (rest ++ tail)))) =
        .ok (e, space ++ ',' :: (space' ++ (rest ++ tail))) :=
      ha.readPair he (hspace.endsTerm fun c hc => by cases hc; decide +kernel)
    have hcomma : skipInline (space ++ ',' :: (space' ++ (rest ++ tail))) = ',' :: (space' ++ (rest ++ tail)) :=
      hspace.skipInline_append _
    have hrow : cs ++ (space ++ ',' :: (space' ++ rest)) ++ tail =
        cs ++ (space ++ ',' :: (space' ++ (rest ++ tail))) := by
      simp only [List.append_assoc, List.cons_append]
    rw [hrow, ha.skipInline_append he, readPairs_next hread hcomma, hspace'.skipInline_append,
      ih fun e'' he'' => hes e'' (List.mem_cons_of_mem e he'')]
    rfl

/-! ## From binding to binding -/

/-- Written pairs are tight, and where there are none there is no text. -/
theorem BindingText.eq_nil_or_tight (h : BindingText b cs) (hb : b.Representable) :
    b = ∅ ∧ cs = [] ∨ b ≠ ∅ ∧ Text.Tight cs := by
  obtain ⟨es, hperm, hrow⟩ := h
  cases es with
  | nil =>
    cases hrow
    exact .inl ⟨( Binding.ofList_of_perm hperm).symm, rfl⟩
  | cons e es =>
    refine .inr ⟨?_, hrow.tight (List.cons_ne_nil e es) fun e' he' _ h => h.tight (hb e' (hperm.mem_iff.1 he'))⟩
    rintro rfl
    cases hperm.eq_nil

/-- A written binding is read up to a bar or the end of the text. -/
theorem BindingText.readPairs (h : BindingText b cs) (hb : b.Representable) (htail : ∀ c ∈ tail.head?, EndsTerm c)
    (hbar : AtBar (skipInline tail)) :
    readPairs p whole ∅ (skipInline (cs ++ tail)) = .ok (b, skipInline tail) := by
  obtain ⟨es, hperm, hrow⟩ := h
  rw [readPairs_joined hrow (fun e he => hb e (hperm.mem_iff.1 he)) htail hbar]
  exact congrArg (fun b => Except.ok (b, skipInline tail)) ( Binding.ofList_of_perm hperm)

/-- Blanks before a bar are trimmed where the binding is empty, and stay where it is not. -/
theorem BindingText.exists_trimStart {g : List Char} (h : BindingText b cs) (hb : b.Representable) (hg : Spaces g) :
    ∃ g', Spaces g' ∧ Text.trimStart (cs ++ g) = cs ++ g' := by
  rcases h.eq_nil_or_tight hb with ⟨_, rfl⟩ | ⟨_, htight⟩
  · exact ⟨[], by simp [Spaces], Text.trimStart_of_forall hg.isBlank⟩
  · exact ⟨g, hg, htight.trimStart_append [] g⟩

/-- After a bar the next binding is read. -/
theorem readBindings_next (hne : cs ≠ []) (hb : Grammar.readPairs p whole ∅ (skipInline cs) = .ok (b, '|' :: rest)) :
    readBindings p whole set cs = readBindings p whole (set.insert b) (Text.trimStart rest) := by
  rw [readBindings_eq, if_neg (by simpa using hne), hb]
  rfl

/-- The last binding ends the text. -/
theorem readBindings_last (hne : cs ≠ []) (hb : Grammar.readPairs p whole ∅ (skipInline cs) = .ok (b, [])) :
    readBindings p whole set cs = .ok (set.insert b) := by
  rw [readBindings_eq, if_neg (by simpa using hne), hb]

/-- The bindings that are read: all, or all but the last if that is empty. -/
def keptBindings (bs : List Binding) : List Binding := if bs.getLast? = some ∅ then bs.dropLast else bs

theorem keptBindings_cons (b b' : Binding) (bs : List Binding) :
    keptBindings (b :: b' :: bs) = b :: keptBindings (b' :: bs) := by
  unfold keptBindings
  rw [List.getLast?_cons_cons, List.dropLast_cons_cons]
  split <;> rfl

/-- The bindings of a row are read one after the other, each added to those before. -/
theorem readBindings_joined (h : Joined BindingText Spaces '|' bs cs) (hbs : ∀ b ∈ bs, b.Representable) :
    readBindings p whole set (Text.trim cs) = .ok (set.insertAll (keptBindings bs)) := by
  induction h generalizing set with
  | nil =>
    rw [readBindings_eq]
    rfl
  | @single b cs hb =>
    have hrep := hbs b List.mem_cons_self
    rcases hb.eq_nil_or_tight hrep with ⟨rfl, rfl⟩ | ⟨hne, htight⟩
    · rw [readBindings_eq]
      rfl
    · have hread : Grammar.readPairs p whole ∅ (skipInline (cs ++ [])) = .ok (b, []) :=
        hb.readPairs hrep (by simp) (.inl rfl)
      rw [List.append_nil] at hread
      rw [htight.trim_eq, readBindings_last htight.ne_nil hread, keptBindings, if_neg (by simpa using hne)]
      rfl
  | @cons b b' bs cs space space' rest hb hspace hspace' hrest ih =>
    have hrep := hbs b List.mem_cons_self
    obtain ⟨g, hg, hstart⟩ := hb.exists_trimStart hrep hspace
    have hbar : Text.Tight ['|'] := Text.tight_singleton (by decide)
    have htrim : Text.trim (cs ++ (space ++ '|' :: (space' ++ rest))) =
        cs ++ (g ++ '|' :: Text.trimEnd (space' ++ rest)) := by
      have haround := hbar.trim_around (cs ++ space) (space' ++ rest)
      rwa [hstart, List.append_assoc, List.append_assoc] at haround
    have hread : Grammar.readPairs p whole ∅ (skipInline (cs ++ (g ++ '|' :: Text.trimEnd (space' ++ rest)))) =
        .ok (b, '|' :: Text.trimEnd (space' ++ rest)) := by
      have hskip : skipInline (g ++ '|' :: Text.trimEnd (space' ++ rest)) = '|' :: Text.trimEnd (space' ++ rest) :=
        hg.skipInline_append _
      rw [hb.readPairs hrep (hg.endsTerm fun c hc => by cases hc; decide +kernel) (.inr ⟨_, hskip⟩), hskip]
    rw [htrim, readBindings_next (by simp) hread, Text.trimStart_trimEnd, Text.trim_append hspace'.isBlank,
      ih fun b'' hb'' => hbs b'' (List.mem_cons_of_mem b hb''), keptBindings_cons]
    rfl

/-- Bindings that can be told from their pairs are read in every written form, whatever prefixes are declared: in order
of first occurrence, each once, without the last one if that is empty. -/
theorem parseBindings_text (p : Prefixes) (hbs : ∀ b ∈ bs, b.Representable) (h : Joined BindingText Spaces '|' bs cs) :
    ∃ set, parseBindings p (String.ofList cs) = .ok set ∧ set.toList = (keptBindings bs).eraseDups := by
  refine ⟨.ofList (keptBindings bs), ?_, InsertionSet.toList_ofList _⟩
  rw [parseBindings, String.toList_ofList]
  exact readBindings_joined h hbs

/-- Two pairs, the second of which holds a bar. -/
def barredBinding : Binding := .ofList [(⟨"a"⟩, .iri "x"), (⟨"b"⟩, .literal (.ofText "1|2"))]

/-- The binding twice and the empty one twice. -/
def barredText : String := "a = <x>,?b=\"1|2\" ||b=\"1|2\" , a=<x>|"

/-- Marks inside terms are not taken for marks between them, and only the empty binding in the middle is read. -/
theorem barredText_read : (∀ b ∈ [barredBinding, ∅, barredBinding, ∅], b.Representable) ∧
    Joined BindingText Spaces '|' [barredBinding, ∅, barredBinding, ∅] barredText.toList ∧
    ∃ set, parseBindings .standard barredText = .ok set ∧ set.toList = [barredBinding, ∅] := by
  have hnone : Spaces [] := by simp [Spaces]
  have hblank : Spaces [' '] := by simp [Spaces]
  have hentries : barredBinding.entries = [(⟨"a"⟩, .iri "x"), (⟨"b"⟩, .literal (.ofText "1|2"))] := by decide +kernel
  have hspaced : PairText (⟨"a"⟩, .iri "x") "a = <x>".toList :=
    ⟨[], [' '], [' '], .inl rfl, hblank, hblank, by decide +kernel⟩
  have hmarked : PairText (⟨"b"⟩, .literal (.ofText "1|2")) "?b=\"1|2\"".toList :=
    ⟨['?'], [], [], .inr rfl, hnone, hnone, by decide +kernel⟩
  have hplain : PairText (⟨"b"⟩, .literal (.ofText "1|2")) "b=\"1|2\"".toList :=
    ⟨[], [], [], .inl rfl, hnone, hnone, by decide +kernel⟩
  have htight : PairText (⟨"a"⟩, .iri "x") "a=<x>".toList := ⟨[], [], [], .inl rfl, hnone, hnone, by decide +kernel⟩
  have hfirst : BindingText barredBinding _ :=
    ⟨[(⟨"a"⟩, .iri "x"), (⟨"b"⟩, .literal (.ofText "1|2"))],
      by rw [hentries], .cons hspaced hnone hnone (.single hmarked)⟩
  have hthird : BindingText barredBinding _ :=
    ⟨[(⟨"b"⟩, .literal (.ofText "1|2")), (⟨"a"⟩, .iri "x")], by rw [hentries]; exact .swap _ _ _,
      .cons hplain hblank hblank (.single htight)⟩
  have hempty : BindingText ∅ [] := ⟨[], .nil, .nil⟩
  have hrow : Joined BindingText Spaces '|' [barredBinding, ∅, barredBinding, ∅] _ :=
    .cons hfirst hblank hnone (.cons hempty hnone hnone (.cons hthird hnone hnone (.single hempty)))
  have htext : Joined BindingText Spaces '|' [barredBinding, ∅, barredBinding, ∅] barredText.toList := by
    convert hrow using 1
    decide +kernel
  have hbs : ∀ b ∈ [barredBinding, ∅, barredBinding, ∅], b.Representable := by decide +kernel
  have hread := parseBindings_text .standard hbs htext
  rw [String.ofList_toList] at hread
  exact ⟨hbs, htext, hread⟩

end Grammar

end TripleChain
