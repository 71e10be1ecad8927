import TripleChain.Proofs.Collections
import TripleChain.Proofs.Layout
import TripleChain.Grammar.Pattern
/-!
# Patterns and their layouts

The same triples can be written in many ways: with any white space and comments between the terms and around the full
stops, before the first triple and after the last, with a full stop behind the last one or without (`Grammar.Layout`).
All of them are read as the set of these triples, and the text of a pattern as the pattern
(`Grammar.parsePattern_layout`). A full stop needs a triple before it; by itself it is not read.
-/

namespace TripleChain

/-- The terms of the triple can be told from their written forms. -/
def Triple.Representable (t : Triple) : Prop :=
  t.subject.Representable ∧ t.predicate.Representable ∧ t.object.Representable

instance Triple.decidableRepresentable (t : Triple) : Decidable t.Representable :=
  inferInstanceAs (Decidable (t.subject.Representable ∧ t.predicate.Representable ∧ t.object.Representable))

namespace Grammar

variable {p : Prefixes} {t : Triple} {ts : List Triple} {whole cs rest rest' tail : List Char} {before : Pattern}

/-- The three terms of the triple, with some white space or a comment between each two. -/
def TripleText (t : Triple) (cs : List Char) : Prop :=
  ∃ g h, Gap g ∧ g ≠ [] ∧ Gap h ∧ h ≠ [] ∧
    cs = t.subject.text.toList ++ (g ++ (t.predicate.text.toList ++ (h ++ t.object.text.toList)))

/-- A text that consists of the triples, with full stops between them and gaps wherever they may stand. The flag says
whether one more full stop closes the text. -/
inductive Layout (ts : List Triple) : Bool → List Char → Prop where
  | plain {lead body trail : List Char} (hlead : Gap lead) (hbody : Joined TripleText Gap '.' ts body)
      (htrail : Gap trail) :
      Layout ts false (lead ++ (body ++ trail))
  | stopped {lead body before trail : List Char} (hlead : Gap lead) (hbody : Joined TripleText Gap '.' ts body)
      (hbefore : Gap before) (htrail : Gap trail) : Layout ts true (lead ++ (body ++ (before ++ '.' :: trail)))

/-! ## One triple -/

theorem TripleText.tight (ht : t.Representable) (h : TripleText t cs) : Text.Tight cs := by
  obtain ⟨g, g', _, _, _, _, rfl⟩ := h
  have htail := (tight_text ht.2.1).append (tight_text ht.2.2) g'
  exact (tight_text ht.1).append htail g

/-- A gap that is there ends the term before it. -/
theorem Gap.endsTerm_of_ne_nil {g : List Char} (hg : Gap g) (hne : g ≠ []) (rest : List Char) :
    ∀ c ∈ (g ++ rest).head?, EndsTerm c := by
  obtain ⟨c, g', rfl⟩ := List.exists_cons_of_ne_nil hne
  have hends : ∀ d ∈ (c :: g' ++ []).head?, EndsTerm d := hg.endsTerm (by simp)
  exact hends

/-- A written triple is read off the front of any text that does not go on with its last term. -/
theorem TripleText.readTriple (h : TripleText t cs) (ht : t.Representable) (htail : ∀ c ∈ tail.head?, EndsTerm c) :
    readTriple p (cs ++ tail) = .ok (t, tail) := by
  obtain ⟨g, g', hg, hgne, hg', hgne', rfl⟩ := h
  have hsubject := readTerm_text p ht.1
    (hg.endsTerm_of_ne_nil hgne (t.predicate.text.toList ++ (g' ++ (t.object.text.toList ++ tail))))
  have hpredicate := readTerm_text p ht.2.1 (hg'.endsTerm_of_ne_nil hgne' (t.object.text.toList ++ tail))
  have hobject := readTerm_text p ht.2.2 htail
  simp only [List.append_assoc]
  simp only [Grammar.readTriple, hsubject, hg.skipGap_append, skipGap_text, hpredicate, hg'.skipGap_append, hobject]

/-! ## From triple to triple -/

theorem ne_nil_of_readTriple (ht : readTriple p cs = .ok (t, rest)) : cs ≠ [] := by
  rintro rfl
  have := ( readTriple_follows ht).length_lt
  simp at this

/-- After the last triple nothing follows. -/
theorem readTriples_last (ht : readTriple p cs = .ok (t, rest)) (hr : skipGap false rest = []) :
    readTriples p whole before cs = .ok (before.insert t) := by
  rw [readTriples_eq, if_neg (by simpa using ne_nil_of_readTriple ht), ht]
  simp only [hr]

/-- After a full stop the next triple is read. -/
theorem readTriples_next (ht : readTriple p cs = .ok (t, rest)) (hr : skipGap false rest = '.' :: rest') :
    readTriples p whole before cs = readTriples p whole (before.insert t) (skipGap false rest') := by
  rw [readTriples_eq, if_neg (by simpa using ne_nil_of_readTriple ht), ht]
  simp only [hr, if_pos]

/-- What is left of a text once its triples have been read: nothing, or one full stop. -/
def Closes (tail : List Char) : Prop :=
  skipGap false tail = [] ∨ ∃ rest, skipGap false tail = '.' :: rest ∧ skipGap false rest = []

theorem readTriples_close (ht : readTriple p cs = .ok (t, tail)) (h : Closes tail) :
    readTriples p whole before cs = .ok (before.insert t) := by
  rcases h with h | ⟨rest, h, hrest⟩
  · exact readTriples_last ht h
  · rw [readTriples_next ht h, hrest, readTriples]
    rfl

/-- The first triple of a row is not passed over. -/
theorem skipGap_joined (h : Joined TripleText Gap '.' (t :: ts) cs) (tail : List Char) :
    skipGap false (cs ++ tail) = cs ++ tail := by
  obtain ⟨part, more, ⟨g, g', _, _, _, _, rfl⟩, rfl⟩ := h.exists_part
  simp only [List.append_assoc]
  exact skipGap_text t.subject _

/-- The triples of a row are read one after the other, each added to those before. -/
theorem readTriples_joined (h : Joined TripleText Gap '.' ts cs) (hne : ts ≠ []) (hts : ∀ t ∈ ts, t.Representable)
    (htail : ∀ c ∈ tail.head?, EndsTerm c) (hclose : Closes tail) :
    readTriples p whole before (cs ++ tail) = .ok (before.insertAll ts) := by
  induction h generalizing before with
  | nil => exact absurd rfl hne
  | single ha => exact readTriples_close (ha.readTriple (hts _ List.mem_cons_self) htail) hclose
  | @cons t u ts cs space space' rest ha hspace hspace' hrest ih =>
    have hread : readTriple p (cs ++ (space ++ '.' :: (space' ++ (rest ++ tail)))) =
        .ok (t, space ++ '.' :: (space' ++ (rest ++ tail))) :=
      ha.readTriple (hts t List.mem_cons_self) (hspace.endsTerm fun c hc => by cases hc; decide +kernel)
    have hstop : skipGap false (space ++ '.' :: (space' ++ (rest ++ tail))) = '.' :: (space' ++ (rest ++ tail)) :=
      hspace.skipGap_append _
    have hgo : skipGap false (space' ++ (rest ++ tail)) = rest ++ tail := by
      rw [hspace'.skipGap_append, skipGap_joined hrest]
    have hrow : cs ++ (space ++ '.' :: (space' ++ rest)) ++ tail =
        cs ++ (space ++ '.' :: (space' ++ (rest ++ tail))) := by
      simp only [List.append_assoc, List.cons_append]
    rw [hrow, readTriples_next hread hstop, hgo,
      ih (List.cons_ne_nil u ts) fun t' ht' => hts t' (List.mem_cons_of_mem t ht')]
    rfl

/-! ## Whole texts -/

/-- Nothing that begins with a full stop is a term. -/
theorem readTerm_stop (cs : List Char) : readTerm p ('.' :: cs) = .error (noTermError ('.' :: cs)) := by
  have hprefixed : scanPrefixed? ('.' :: cs) = none := by
    rw [scanPrefixed?, List.dropWhile_cons_of_neg (by decide +kernel)]
    rfl
  have hnumber : scanNumber? ('.' :: cs) = none := rfl
  simp only [readTerm, scanIri?, scanVariable?, startsQuoted, hnumber, scanBoolean?, scanIsA?, hprefixed]
  rfl

theorem readTriples_stop (cs : List Char) : ∃ e, readTriples p whole before ('.' :: cs) = .error e := by
  have herror : readTriple p ('.' :: cs) = .error (noTermError ('.' :: cs)) := by
    rw [Grammar.readTriple, readTerm_stop]
  rw [readTriples_eq, if_neg (by simp), herror]
  exact ⟨_, rfl⟩

theorem parsePattern_ofList (cs : List Char) :
    parsePattern p (String.ofList cs) = readTriples p (Text.trim cs) ∅ (skipGap false (Text.trim cs)) := by
  rw [parsePattern, String.toList_ofList]

/-- Behind the leading gap and before what is trimmed stands the row of triples. -/
theorem parsePattern_row {lead body : List Char} (hlead : Gap lead) (hbody : Joined TripleText Gap '.' (t :: ts) body)
    (hts : ∀ t' ∈ t :: ts, t'.Representable) (htail : ∀ c ∈ (Text.trimEnd tail).head?, EndsTerm c)
    (hclose : Closes (Text.trimEnd tail)) :
    parsePattern p (String.ofList (lead ++ (body ++ tail))) = .ok (.ofList (t :: ts)) := by
  have htight : Text.Tight body := hbody.tight (List.cons_ne_nil t ts) fun t' ht' _ h => h.tight (hts t' ht')
  rw [parsePattern_ofList, htight.trim_around, hlead.trimStart.skipGap_append, skipGap_joined hbody]
  exact readTriples_joined hbody (List.cons_ne_nil t ts) hts htail hclose

/-- A gap holds no triple. -/
theorem parsePattern_gap {g : List Char} (hg : Gap g) : parsePattern p (String.ofList g) = .ok ∅ := by
  rw [parsePattern_ofList, hg.skipGap_trim, readTriples]
  rfl

/-- A full stop is not read where a triple should begin. -/
theorem parsePattern_stop {lead : List Char} (hlead : Gap lead) (tail : List Char) :
    ∃ e, parsePattern p (String.ofList (lead ++ '.' :: tail)) = .error e := by
  have htight : Text.Tight ['.'] := Text.tight_singleton (by decide)
  have hskip : skipGap false (Text.trimStart lead ++ (['.'] ++ Text.trimEnd tail)) = '.' :: Text.trimEnd tail :=
    hlead.trimStart.skipGap_append _
  rw [parsePattern_ofList, ← List.singleton_append, htight.trim_around, hskip]
  exact readTriples_stop _

/-- A layout is read as its triples, unless it has a full stop and no triple. -/
theorem Layout.parsePattern_iff {stop : Bool} (h : Layout ts stop cs) (hts : ∀ t ∈ ts, t.Representable) :
    parsePattern p (String.ofList cs) = .ok (.ofList ts) ↔ (stop = true → ts ≠ []) := by
  cases ts with
  | nil =>
    cases h with
    | plain hlead hbody htrail =>
      cases hbody
      rw [List.nil_append]
      exact ⟨fun _ hstop => absurd hstop Bool.false_ne_true, fun _ => parsePattern_gap (hlead.append htrail)⟩
    | stopped hlead hbody hspace _ =>
      cases hbody
      rw [List.nil_append, ← List.append_assoc]
      obtain ⟨e, he⟩ := parsePattern_stop (p := p) (hlead.append hspace) _
      rw [he]
      exact ⟨nofun, fun hne => absurd rfl (hne rfl)⟩
  | cons t ts =>
    refine iff_of_true ?_ fun _ => List.cons_ne_nil t ts
    cases h with
    | @plain _ _ trail hlead hbody htrail =>
      have hends : ∀ c ∈ (trail ++ []).head?, EndsTerm c := htrail.endsTerm (by simp)
      rw [List.append_nil] at hends
      exact parsePattern_row hlead hbody hts (fun c hc => hends c (Text.mem_head?_of_trimEnd hc))
        (.inl htrail.skipGap_trimEnd)
    | stopped hlead hbody hspace htrail =>
      refine parsePattern_row hlead hbody hts ?_ ?_ <;> rw [Text.trimEnd_append (by decide)]
      · exact hspace.endsTerm fun c hc => by cases hc; decide +kernel
      · exact .inr ⟨_, hspace.skipGap_append _, htrail.skipGap_trimEnd⟩

/-! ## The text of a pattern -/

theorem gap_blank : Gap [' '] := .space (.inl rfl) .nil

/-- Between the terms of a written triple stand blanks. -/
theorem tripleText_text (t : Triple) : TripleText t t.text.toList := by
  refine ⟨[' '], [' '], gap_blank, by simp, gap_blank, by simp, ?_⟩
  rw [Triple.text, String.toList_intercalate]
  simp only [Triple.terms, Position.all, Triple.term, List.map_cons, List.map_nil, List.intercalate_cons_cons,
    List.intercalate_singleton, List.append_assoc]
  rfl

theorem joined_intercalate (ts : List Triple) :
    Joined TripleText Gap '.' ts (" . ".toList.intercalate (ts.map fun t => t.text.toList)) := by
  match ts with
  | [] => exact .nil
  | [t] =>
    rw [List.map_singleton, List.intercalate_singleton]
    exact .single (tripleText_text t)
  | t :: u :: ts =>
    rw [List.map_cons, List.map_cons, List.intercalate_cons_cons, List.append_assoc]
    exact .cons (tripleText_text t) gap_blank gap_blank (joined_intercalate (u :: ts))

/-- A pattern is written in one of the layouts of its triples. -/
theorem layout_text (g : Pattern) : Layout g.toList false g.text.toList := by
  have hlayout := Layout.plain .nil (joined_intercalate g.toList) .nil
  rw [List.nil_append, List.append_nil] at hlayout
  rw [Pattern.text, String.toList_intercalate, List.map_map]
  exact hlayout

/-- Triples that can be told from their written forms are read in every layout, as the set of them, whatever prefixes
are declared. A full stop needs a triple before it. So a pattern is read back from its text. -/
theorem parsePattern_layout (p : Prefixes) :
    (∀ ts stop cs, (∀ t ∈ ts, t.Representable) → Layout ts stop cs →
      (parsePattern p (String.ofList cs) = .ok (.ofList ts) ↔ (stop = true → ts ≠ []))) ∧
    ∀ g : Pattern, (∀ t ∈ g, t.Representable) → parsePattern p g.text = .ok g := by
  refine ⟨fun ts stop cs hts h => h.parsePattern_iff hts, fun g hg => ?_⟩
  have hread := ((layout_text g).parsePattern_iff (p := p) hg).2 fun hstop => absurd hstop Bool.false_ne_true
  rwa [String.ofList_toList, SortedSet.ofList_toList] at hread

/-- Two triples with marks inside their terms. -/
def dottedTriples : List Triple :=
  [⟨.var ⟨"x"⟩, .iri "#p", .literal (.ofText "a . b")⟩, ⟨.var ⟨"y"⟩, .iri "q", .var ⟨"x"⟩⟩]

/-- The two triples among comments that hold marks and terms. -/
def dottedText : String := "#?x .\n?x\t<#p> \"a . b\". ?y <q>#.\n?x."

/-- Marks inside terms are not taken for marks between them, and comments may hold anything. -/
theorem dottedText_read : (∀ t ∈ dottedTriples, t.Representable) ∧ Layout dottedTriples true dottedText.toList ∧
    parsePattern .standard dottedText = .ok (.ofList dottedTriples) := by
  have hfirst : TripleText ⟨.var ⟨"x"⟩, .iri "#p", .literal (.ofText "a . b")⟩ "?x\t<#p> \"a . b\"".toList :=
    ⟨['\t'], [' '], .space (by simp) .nil, by simp, gap_blank, by simp, by decide +kernel⟩
  have hsecond : TripleText ⟨.var ⟨"y"⟩, .iri "q", .var ⟨"x"⟩⟩ "?y <q>#.\n?x".toList :=
    ⟨[' '], ['#', '.', '\n'], gap_blank, by simp, @Gap.comment ['.'] [] (by decide) .nil, by simp, by decide +kernel⟩
  have hrow := Layout.stopped (@Gap.comment "?x .".toList [] (by decide) .nil)
    (.cons hfirst .nil gap_blank (.single hsecond)) .nil .nil
  have hlayout : Layout dottedTriples true dottedText.toList := by
    convert hrow using 1
    · rfl
    · decide +kernel
  have hts : ∀ t ∈ dottedTriples, t.Representable := by decide +kernel
  have hread := ((parsePattern_layout .standard).1 dottedTriples true _ hts hlayout).2 fun _ => List.cons_ne_nil _ _
  rw [String.ofList_toList] at hread
  exact ⟨hts, hlayout, hread⟩

/-- A full stop alone is a layout of no triples, and it is not read as the empty pattern. -/
theorem lone_stop_not_read : ¬ ∀ (p : Prefixes) (ts : List Triple) (stop : Bool) (cs : List Char),
    (∀ t ∈ ts, t.Representable) → Layout ts stop cs → parsePattern p (String.ofList cs) = .ok (.ofList ts) := by
  intro hall
  have hlayout : Layout [] true ['.'] := .stopped .nil .nil .nil .nil
  exact absurd (hall .standard [] true ['.'] (by simp) hlayout) (by decide +kernel)

end Grammar

end TripleChain
