import TripleChain.Proofs.BindingText
import TripleChain.Proofs.RuleFiles
/-!
# Declared labels in terms

A line of a rule file declares a label if this is a name, white space in front of it apart, and if nothing in the
namespace ends an IRI (`Grammar.parseRules_declarationLine`). Not every label that can be declared can be used. The
reader of terms looks for a number and for a truth value before it looks for a label, and for neither does it look far
enough ahead: digits are a number whatever follows, and an underscore ends a word. A label that begins with a digit, or
with a truth value and an underscore, is cut there, and the rest of the text is refused. Every other label stands for
its namespace before every local name (`Grammar.parseTerm_declared`). `Grammar.labels_refused` are labels that cannot be
used.
-/

namespace TripleChain

namespace Grammar

variable {p : Prefixes} {label iri loc : String} {cs rest gap name : List Char}

/-! ## Marks between characters -/

/-- A text is cut at a mark in two ways: in the same place, or one cut is behind the other. -/
theorem append_cons_cases {a b c d : List Char} {x y : Char} (h : a ++ x :: b = c ++ y :: d) :
    a = c ∧ x = y ∧ b = d ∨ (∃ m, c = a ++ x :: m ∧ b = m ++ y :: d) ∨ ∃ m, a = c ++ y :: m ∧ d = m ++ x :: b := by
  rcases List.append_eq_append_iff.1 h with ⟨m, rfl, hm⟩ | ⟨m, rfl, hm⟩
  · cases m with
    | nil =>
      obtain ⟨rfl, rfl⟩ := List.cons.inj hm
      exact .inl ⟨(List.append_nil a).symm, rfl, rfl⟩
    | cons z m =>
      obtain ⟨rfl, rfl⟩ := List.cons.inj hm
      exact .inr (.inl ⟨m, rfl, rfl⟩)
  · cases m with
    | nil =>
      obtain ⟨rfl, rfl⟩ := List.cons.inj hm
      exact .inl ⟨List.append_nil c, rfl, rfl⟩
    | cons z m =>
      obtain ⟨rfl, rfl⟩ := List.cons.inj hm
      exact .inr (.inr ⟨m, rfl, rfl⟩)

/-! ## White space on one line -/

theorem isBlank_of_isGap {c : Char} (h : isGap c = true) : Text.isBlank c = true := by
  simp only [isGap, Bool.or_eq_true, beq_iff_eq] at h
  rcases h with ((rfl | rfl) | rfl) | rfl <;> decide

theorem skipGap_true_of_not_mem (h : '\n' ∉ cs) : skipGap true cs = [] := by
  induction cs with
  | nil => rfl
  | cons c cs ih =>
    rw [List.mem_cons, not_or] at h
    have hc : (c != '\n') = true := bne_iff_ne.2 (Ne.symm h.1)
    rw [skipGap, if_pos rfl, hc]
    exact ih h.2

/-- Trimming takes away nothing but blanks. -/
theorem mem_trim {c : Char} (h : c ∈ cs) (hc : Text.isBlank c = false) : c ∈ Text.trim cs := by
  rcases Text.blank_or_around cs with hblank | ⟨front, core, tail, rfl, hcore, hfront, htail⟩
  · rw [hblank c h] at hc
    cases hc
  · rw [hcore.trim_around, Text.trimStart_of_forall hfront, Text.trimEnd_of_forall_blank htail, List.nil_append,
      List.append_nil]
    rcases List.mem_append.1 h with hmem | hmem
    · rw [hfront c hmem] at hc
      cases hc
    rcases List.mem_append.1 hmem with hmem | hmem
    · exact hmem
    · rw [htail c hmem] at hc
      cases hc

/-- On one line only white space is passed over, or a comment takes all the rest. -/
theorem skipGap_of_not_mem (h : '\n' ∉ cs) : skipGap false cs = cs.dropWhile isGap ∨ skipGap false cs = [] := by
  induction cs with
  | nil => exact .inr rfl
  | cons c cs ih =>
    rw [List.mem_cons, not_or] at h
    simp only [skipGap, Bool.false_eq_true, if_false]
    by_cases hgap : isGap c = true
    · rw [if_pos hgap, List.dropWhile_cons_of_pos hgap]
      exact ih h.2
    · rw [if_neg hgap, List.dropWhile_cons_of_neg hgap]
      split
      · exact .inr (skipGap_true_of_not_mem h.2)
      · exact .inl rfl

/-- What is passed over before something else on one line is white space. -/
theorem exists_gap (h : '\n' ∉ cs) (hrest : rest ≠ []) (hskip : skipGap false cs = rest) :
    ∃ gap, cs = gap ++ rest ∧ ∀ c ∈ gap, isGap c = true := by
  rcases skipGap_of_not_mem h with hdrop | hnil
  · refine ⟨cs.takeWhile isGap, ?_, fun c hc => List.mem_takeWhile_imp hc⟩
    rw [← hskip, hdrop, List.takeWhile_append_dropWhile]
  · exact absurd (hskip.symm.trans hnil) hrest

theorem gap_of_isGap (h : ∀ c ∈ gap, isGap c = true) : Gap gap := by
  induction gap with
  | nil => exact .nil
  | cons c gap ih =>
    obtain ⟨hc, hgap⟩ := List.forall_mem_cons.1 h
    simp only [isGap, Bool.or_eq_true, beq_iff_eq, or_assoc] at hc
    exact .space hc (ih hgap)

/-! ## Names before a colon -/

theorem isNameChar_colon : isNameChar ':' = false := by decide +kernel

/-- What begins with a label begins with a character of its name, or with the colon if that is empty. -/
theorem exists_label_cons (hname : ∀ c ∈ name, isNameChar c = true) (after : List Char) :
    ∃ c cs, name ++ ':' :: after = c :: cs ∧ (isNameChar c = true ∨ c = ':') := by
  cases name with
  | nil => exact ⟨':', after, rfl, .inr rfl⟩
  | cons c name => exact ⟨c, name ++ ':' :: after, rfl, .inl (hname c List.mem_cons_self)⟩

theorem isGap_of_label {c : Char} (h : isNameChar c = true ∨ c = ':') : isGap c = false := by
  rcases h with h | rfl
  · cases hgap : isGap c with
    | true => exact absurd (isBlank_of_isGap hgap) (by simp [isBlank_of_isNameChar h])
    | false => rfl
  · decide

/-- The marks that begin other terms and comments are neither name characters nor colons. -/
theorem ne_of_label {c d : Char} (h : isNameChar c = true ∨ c = ':') (hd : d ∈ ['<', '?', '"', '\x27', '#', '-', '+']) :
    c ≠ d := by
  have hmarks : ['<', '?', '"', '\x27', '#', '-', '+'].all (fun d => !isNameChar d && d != ':') = true := by
    decide +kernel
  rintro rfl
  have hc := List.all_eq_true.1 hmarks c hd
  simp only [Bool.and_eq_true, Bool.not_eq_true', bne_iff_ne] at hc
  obtain ⟨hname, hcolon⟩ := hc
  rcases h with h | h
  · rw [hname] at h
    cases h
  · exact hcolon h

theorem skipGap_label (hname : ∀ c ∈ name, isNameChar c = true) (after : List Char) :
    skipGap false (name ++ ':' :: after) = name ++ ':' :: after := by
  obtain ⟨c, cs, heq, hc⟩ := exists_label_cons hname after
  rw [heq, skipGap, if_neg Bool.false_ne_true, isGap_of_label hc, if_neg Bool.false_ne_true,
    if_neg (ne_of_label hc (by decide))]

/-! ## Declarations -/

/-- The line that gives a label a namespace. -/
def declarationLine (label iri : String) : String := "@prefix " ++ label ++ ": <" ++ iri ++ "> ."

/-- What stands behind the word of declarations and a blank. -/
def declarationBody (label iri : String) : List Char :=
  label.toList ++ ':' :: ' ' :: '<' :: (iri.toList ++ ['>', ' ', '.'])

theorem toList_declarationLine (label iri : String) :
    (declarationLine label iri).toList = declarationWord ++ ' ' :: declarationBody label iri := by
  simp [declarationLine, declarationWord, declarationBody]

theorem exists_of_scanIri? (h : scanIri? cs = some (iri, rest)) :
    cs = '<' :: (iri.toList ++ '>' :: rest) ∧ FitsIri iri := by
  match cs with
  | [] => cases h
  | c :: cs =>
    by_cases hc : c = '<'
    · subst hc
      obtain ⟨rfl, hiri⟩ := scanIri?_eq_some.1 h
      exact ⟨rfl, hiri⟩
    · rw [scanIri?] at h
      · cases h
      · exact fun _ heq => hc (List.cons.inj heq).1

/-- A declaration is a name, a colon, an IRI and, if wanted, a full stop. -/
theorem readDeclaration_eq_ok {l : Line} : readDeclaration cs = .ok l ↔
    ∃ name rest iri tail, skipGap false cs = name ++ ':' :: rest ∧ (∀ c ∈ name, isNameChar c = true) ∧
      skipGap false rest = '<' :: (iri.toList ++ '>' :: tail) ∧ FitsIri iri ∧
      (Text.trim tail = [] ∨ Text.trim tail = ['.']) ∧ l = .declaration (String.ofList name) iri := by
  unfold readDeclaration
  dsimp only
  constructor
  · intro h
    split at h
    · next rest hrest =>
      split at h
      · next iri tail hiri =>
        split at h
        · next htail =>
          cases h
          rw [Bool.or_eq_true, List.isEmpty_iff, beq_iff_eq] at htail
          obtain ⟨hname, hchars, _⟩ := eq_span_iff.1 ⟨rfl, hrest.symm⟩
          obtain ⟨hbracket, hfits⟩ := exists_of_scanIri? hiri
          exact ⟨_, rest, iri, tail, hname, hchars, hbracket, hfits, htail, rfl⟩
        · cases h
      · cases h
    · cases h
  · rintro ⟨name, rest, iri, tail, hname, hchars, hbracket, hfits, htail, rfl⟩
    obtain ⟨htake, hdrop⟩ := eq_span_iff.2 ⟨hname, hchars, by simp [isNameChar_colon]⟩
    rw [← hdrop, ← htake]
    simp only [hbracket, scanIri?_eq_some.2 ⟨rfl, hfits⟩]
    rw [if_pos]
    rwa [Bool.or_eq_true, List.isEmpty_iff, beq_iff_eq]

theorem readLine_declarationLine (p : Prefixes) (label iri : String) :
    readLine p (declarationLine label iri).toList = (readDeclaration (declarationBody label iri)).mapError .report := by
  have htight : Text.Tight (declarationLine label iri).toList := by
    rw [toList_declarationLine, declarationBody]
    refine ⟨⟨'@', _, rfl, by decide⟩, ⟨declarationWord ++ ' ' :: (label.toList ++ ':' :: ' ' :: '<' ::
      (iri.toList ++ ['>', ' '])), '.', ?_, by decide⟩⟩
    simp
  rw [readLine, htight.trim_eq, toList_declarationLine]
  rfl

/-- A line that is cut as a declaration is cut where its parts meet. The cuts are found from the back: behind the last
bracket, before the bracket in front of which a blank stands, and at the only colon before that. -/
theorem parts_of_declaration {gap' tail label ns iri : List Char}
    (h : gap ++ (name ++ ':' :: (gap' ++ '<' :: (ns ++ '>' :: tail))) =
      label ++ ':' :: ' ' :: '<' :: (iri ++ ['>', ' ', '.']))
    (hgap : ∀ c ∈ gap, isGap c = true) (hname : ∀ c ∈ name, isNameChar c = true) (hgap' : ∀ c ∈ gap', isGap c = true)
    (hns : ' ' ∉ ns) (htail : '>' ∉ tail) : label = gap ++ name ∧ iri = ns := by
  have hbefore : ∀ c, isGap c = false → isNameChar c = false → c ∉ gap ++ name ∧ c ∉ gap' := by
    intro c hc hc'
    constructor
    · intro hmem
      rcases List.mem_append.1 hmem with hmem | hmem
      · exact Bool.false_ne_true (hc.symm.trans (hgap c hmem))
      · exact Bool.false_ne_true (hc'.symm.trans (hname c hmem))
    · exact fun hmem => Bool.false_ne_true (hc.symm.trans (hgap' c hmem))
  obtain ⟨hcolon, hcolon'⟩ := hbefore ':' (by decide) isNameChar_colon
  obtain ⟨hopen, hopen'⟩ := hbefore '<' (by decide) (by decide +kernel)
  have hclosing : (gap ++ name ++ ':' :: (gap' ++ '<' :: ns)) ++ '>' :: tail =
      (label ++ ':' :: ' ' :: '<' :: iri) ++ '>' :: [' ', '.'] := by
    simpa using h
  have hfront : (gap ++ name ++ ':' :: gap') ++ '<' :: ns = (label ++ [':']) ++ ' ' :: '<' :: iri := by
    rcases append_cons_cases hclosing with ⟨heq, _⟩ | ⟨m, _, heq⟩ | ⟨m, _, heq⟩
    · simpa using heq
    · exact absurd (heq ▸ by simp) htail
    · exact absurd (show '>' ∈ [' ', '.'] from heq ▸ by simp) (by decide)
  have hlabel : (gap ++ name) ++ ':' :: gap' = label ++ ':' :: [' '] ∧ iri = ns := by
    rcases append_cons_cases hfront with ⟨_, heq, _⟩ | ⟨m, _, heq⟩ | ⟨m, hm, heq⟩
    · cases heq
    · exact absurd (heq ▸ by simp) hns
    · cases m with
      | nil => exact ⟨by simpa using hm, (List.cons.inj heq).2⟩
      | cons c m =>
        obtain ⟨rfl, _⟩ := List.cons.inj heq
        have hmem : '<' ∈ gap ++ name ++ ':' :: gap' := hm ▸ by simp
        rcases List.mem_append.1 hmem with hmem | hmem
        · exact absurd hmem hopen
        · exact absurd ((List.mem_cons.1 hmem).resolve_left (by decide)) hopen'
  exact ⟨((List.append_cons_inj_of_notMem hcolon hcolon').1 hlabel.1).1.symm, hlabel.2⟩

theorem readDeclaration_body {l : Line} (hline : '\n' ∉ declarationBody label iri) :
    readDeclaration (declarationBody label iri) = .ok l ↔
      ∃ gap name, label.toList = gap ++ name ∧ (∀ c ∈ gap, isGap c = true) ∧ (∀ c ∈ name, isNameChar c = true) ∧
        FitsIri iri ∧ l = .declaration (String.ofList name) iri := by
  rw [readDeclaration_eq_ok]
  constructor
  · rintro ⟨name, rest, ns, tail, hskip, hname, hbracket, hfits, htail, rfl⟩
    obtain ⟨gap, hgap, hwhite⟩ := exists_gap hline (by simp) hskip
    have hrest : '\n' ∉ rest := fun hmem => hline (hgap ▸ by simp [hmem])
    obtain ⟨gap', rfl, hwhite'⟩ := exists_gap hrest (by simp) hbracket
    have hend : '>' ∉ tail := by
      intro hmem
      have htrim := mem_trim hmem (by decide)
      rcases htail with heq | heq
      · rw [heq] at htrim
        cases htrim
      · rw [heq] at htrim
        exact absurd htrim (by decide)
    have hblank : ' ' ∉ ns.toList := fun hmem => (hfits _ hmem).2.1 rfl
    obtain ⟨hlabel, hns⟩ := parts_of_declaration hgap.symm hwhite hname hwhite' hblank hend
    obtain rfl := String.toList_inj.1 hns
    exact ⟨gap, name, hlabel, hwhite, hname, hfits, rfl⟩
  · rintro ⟨gap, name, hlabel, hwhite, hname, hfits, rfl⟩
    have hbody : declarationBody label iri = gap ++ (name ++ ':' :: ' ' :: '<' :: (iri.toList ++ ['>', ' ', '.'])) := by
      rw [declarationBody, hlabel, List.append_assoc]
    refine ⟨name, ' ' :: '<' :: (iri.toList ++ ['>', ' ', '.']), iri, [' ', '.'], ?_, hname, rfl, hfits,
      .inr (by decide), rfl⟩
    rw [hbody, (gap_of_isGap hwhite).skipGap_append, skipGap_label hname]

/-- A line declares a label just if that is a name behind white space, and if nothing ends the IRI before
its bracket. -/
theorem parseRules_declarationLine {file : RuleFile} (hline : '\n' ∉ (declarationLine label iri).toList) :
    parseRules p (declarationLine label iri) = .ok file ↔
      ∃ gap name, label.toList = gap ++ name ∧ (∀ c ∈ gap, isGap c = true) ∧ (∀ c ∈ name, isNameChar c = true) ∧
        FitsIri iri ∧ file = ⟨[], p.declare (String.ofList name) iri⟩ := by
  have hne : (declarationLine label iri).toList ≠ [] := by
    rw [toList_declarationLine]
    exact List.cons_ne_nil _ _
  have hbody : '\n' ∉ declarationBody label iri := by
    rw [toList_declarationLine] at hline
    exact fun hmem => hline (by simp [hmem])
  simp only [parseRules, splitLines_of_not_mem hline hne, readLines, readLine_declarationLine]
  constructor
  · intro h
    cases hread : readDeclaration (declarationBody label iri) with
    | error fault =>
      rw [hread] at h
      cases h
    | ok l =>
      obtain ⟨gap, name, hlabel, hwhite, hname, hfits, rfl⟩ := (readDeclaration_body hbody).1 hread
      rw [hread] at h
      cases h
      exact ⟨gap, name, hlabel, hwhite, hname, hfits, rfl⟩
  · rintro ⟨gap, name, hlabel, hwhite, hname, hfits, rfl⟩
    rw [(readDeclaration_body hbody).2 ⟨gap, name, hlabel, hwhite, hname, hfits, rfl⟩]
    rfl

/-- Every name can be declared. -/
theorem parseRules_of_name (hline : '\n' ∉ (declarationLine label iri).toList)
    (hname : ∀ c ∈ label.toList, isNameChar c = true)
    (hiri : FitsIri iri) : parseRules p (declarationLine label iri) = .ok ⟨[], p.declare label iri⟩ := by
  refine (parseRules_declarationLine hline).2 ⟨[], label.toList, rfl, by simp, hname, hiri, ?_⟩
  rw [String.ofList_toList]

/-! ## Labels in terms -/

/-- The local name of a term; a full stop at its end would be left. -/
def FitsLocal (loc : String) : Prop := (∀ c ∈ loc.toList, isLocalChar c = true) ∧ loc.toList.getLast? ≠ some '.'

instance (loc : String) : Decidable (FitsLocal loc) :=
  @instDecidableAnd _ _ (List.decidableBAll _ loc.toList) inferInstance

theorem dropFinalStops_of_getLast? (h : cs.getLast? ≠ some '.') : dropFinalStops cs = cs := by
  rcases List.eq_nil_or_concat cs with rfl | ⟨front, c, rfl⟩
  · rfl
  · have hc : c ≠ '.' := by simpa using h
    simp [dropFinalStops, hc]

theorem scanPrefixed?_label (hname : ∀ c ∈ name, isNameChar c = true) (hloc : FitsLocal loc) :
    scanPrefixed? (name ++ ':' :: loc.toList) = some ((String.ofList name, loc), []) := by
  have hends : ∀ c ∈ (':' :: loc.toList).head?, isNameChar c = false := by
    simp [isNameChar_colon]
  obtain ⟨htake, hdrop⟩ := eq_span_iff.2 ⟨rfl, hname, hends⟩
  have hlocal : loc.toList.takeWhile isLocalChar = loc.toList := List.takeWhile_eq_self_iff.2 hloc.1
  rw [scanPrefixed?, ← hdrop, ← htake]
  simp [hlocal, dropFinalStops_of_getLast? hloc.2]

theorem scanIsA?_label (hname : ∀ c ∈ name, isNameChar c = true) (after : List Char) :
    scanIsA? (name ++ ':' :: after) = none := by
  unfold scanIsA?
  split
  · next c rest heq =>
    cases name with
    | nil => cases heq
    | cons d name =>
      obtain ⟨c', rest', heq', hc⟩ := exists_label_cons (List.forall_mem_cons.1 hname).2 after
      obtain ⟨rfl, htail⟩ := List.cons.inj heq
      obtain ⟨rfl, rfl⟩ := List.cons.inj (heq'.symm.trans htail)
      rw [if_neg]
      simp [isGap_of_label hc, ne_of_label hc]
  · rfl

/-- Before a label with a local name only a number and a truth value are looked for in earnest. -/
theorem readTerm_label (hname : ∀ c ∈ name, isNameChar c = true) (hloc : FitsLocal loc) :
    (∀ l rest,
      (scanNumber? (name ++ ':' :: loc.toList)).or (scanBoolean? (name ++ ':' :: loc.toList)) = some (l, rest) →
      readTerm p (name ++ ':' :: loc.toList) = .ok (.literal l, rest)) ∧
    ((scanNumber? (name ++ ':' :: loc.toList)).or (scanBoolean? (name ++ ':' :: loc.toList)) = none →
      readTerm p (name ++ ':' :: loc.toList) =
        (resolve p (String.ofList name, loc)).map fun iri => (.iri iri, [])) := by
  have hisA := scanIsA?_label hname loc.toList
  have hprefixed := scanPrefixed?_label hname hloc
  obtain ⟨c, cs, heq, hc⟩ := exists_label_cons hname loc.toList
  rw [heq] at hisA hprefixed ⊢
  have hiri : scanIri? (c :: cs) = none := by
    rw [scanIri?]
    exact fun _ hcons => ne_of_label hc (by decide) (List.cons.inj hcons).1
  have hvar : scanVariable? (c :: cs) = none := by
    rw [scanVariable?]
    exact fun _ hcons => ne_of_label hc (by decide) (List.cons.inj hcons).1
  have hquoted : startsQuoted (c :: cs) = false := by
    simp [startsQuoted, ne_of_label hc]
  constructor
  · intro l rest hliteral
    simp only [readTerm, hiri, hvar, hquoted, hliteral, Bool.false_eq_true, if_false]
  · intro hliteral
    simp only [readTerm, hiri, hvar, hquoted, hliteral, hisA, hprefixed, Bool.false_eq_true, if_false]

/-! ## Labels taken for literals -/

/-- The digits in front are a number, whatever follows them. -/
theorem scanNumber?_label (hname : ∀ c ∈ name, isNameChar c = true) (after : List Char) :
    (scanNumber? (name ++ ':' :: after)).isSome = true ↔ name.head?.any Char.isDigit = true := by
  obtain ⟨c, cs, heq, hc⟩ := exists_label_cons hname after
  have hdigits : (scanNumber? (c :: cs)).isSome = (scanDigits? (c :: cs)).isSome := by
    simp only [scanNumber?, Option.isSome_map]
    split
    · next hcons => exact absurd (List.cons.inj hcons).1 (ne_of_label hc (by decide))
    · next hcons => exact absurd (List.cons.inj hcons).1 (ne_of_label hc (by decide))
    · rfl
  have hsome : (scanDigits? (c :: cs)).isSome = c.isDigit := by
    rw [scanDigits?]
    cases hdigit : c.isDigit <;> simp [hdigit]
  rw [heq, hdigits, hsome]
  cases name with
  | nil =>
    obtain ⟨rfl, _⟩ := List.cons.inj heq
    decide
  | cons d name =>
    obtain ⟨rfl, _⟩ := List.cons.inj heq
    rfl

theorem scanBoolean?_isSome : (scanBoolean? cs).isSome = true ↔
    ∃ word ∈ ["true".toList, "false".toList], ∃ rest, cs = word ++ rest ∧ endsWord rest = true := by
  constructor
  · intro h
    unfold scanBoolean? at h
    split at h
    · next rest =>
      split at h
      · next hends => exact ⟨_, List.mem_cons_self, rest, rfl, hends⟩
      · cases h
    · next rest =>
      split at h
      · next hends => exact ⟨_, List.mem_cons_of_mem _ List.mem_cons_self, rest, rfl, hends⟩
      · cases h
    · cases h
  · rintro ⟨word, hword, rest, rfl, hends⟩
    rcases List.mem_pair.1 hword with rfl | rfl
    · simp [scanBoolean?, hends]
    · simp [scanBoolean?, hends]

/-- Of the characters of names only the underscore ends a word. -/
theorem endsWord_label {word : List Char} (hname : ∀ c ∈ name, isNameChar c = true)
    (hword : ∀ c ∈ word, isNameChar c = true)
    (after : List Char) :
    (∃ rest, name ++ ':' :: after = word ++ rest ∧ endsWord rest = true) ↔ word ++ ['_'] <+: name := by
  constructor
  · rintro ⟨rest, heq, hends⟩
    -- The word cannot go beyond the name, since the colon is no part of it, nor end with it, since the colon is no end.
    rcases List.append_eq_append_iff.1 heq with ⟨m, rfl, hm⟩ | ⟨m, rfl, rfl⟩
    · cases m with
      | nil =>
        rw [List.nil_append] at hm
        subst hm
        simp [endsWord] at hends
      | cons c m =>
        obtain ⟨rfl, _⟩ := List.cons.inj hm
        exact absurd (hword ':' (by simp)) (by simp [isNameChar_colon])
    · cases m with
      | nil => simp [endsWord] at hends
      | cons c m =>
        have hc : isNameChar c = true := hname c (by simp)
        have hunder : c = '_' := by
          rw [List.cons_append, endsWord, Bool.not_eq_true', Bool.or_eq_false_iff] at hends
          rw [isNameChar, hends.1, Bool.false_or, beq_iff_eq] at hc
          exact hc
        subst hunder
        exact ⟨m, by simp⟩
  · rintro ⟨m, rfl⟩
    have hunder : Text.isAlphanumeric '_' = false := by decide +kernel
    exact ⟨'_' :: (m ++ ':' :: after), by simp, by simp [endsWord, hunder]⟩

/-- What begins with the label is taken for a number, or for a truth value, whatever follows. -/
def TakenForLiteral (label : String) : Prop :=
  (label.toList.dropWhile isGap).head?.any Char.isDigit = true ∨
    "true_".toList <+: label.toList.dropWhile isGap ∨ "false_".toList <+: label.toList.dropWhile isGap

instance (label : String) : Decidable (TakenForLiteral label) :=
  @instDecidableOr _ _ inferInstance (@instDecidableOr _ _ inferInstance inferInstance)

theorem dropWhile_isGap (hgap : ∀ c ∈ gap, isGap c = true) (hname : ∀ c ∈ name, isNameChar c = true) :
    (gap ++ name).dropWhile isGap = name := by
  obtain ⟨_, hdrop⟩ := eq_span_iff.2 ⟨rfl, hgap, fun c hc => isGap_of_label (.inl (hname c (List.mem_of_mem_head? hc)))⟩
  exact hdrop.symm

/-- A literal is read before a label just if the label is taken for one. -/
theorem scanLiteral_label (hname : ∀ c ∈ name, isNameChar c = true) (after : List Char) :
    ((scanNumber? (name ++ ':' :: after)).or (scanBoolean? (name ++ ':' :: after))).isSome = true ↔
      name.head?.any Char.isDigit = true ∨ "true_".toList <+: name ∨ "false_".toList <+: name := by
  have htrue : ∀ c ∈ "true".toList, isNameChar c = true := List.all_eq_true.1 (by decide +kernel)
  have hfalse : ∀ c ∈ "false".toList, isNameChar c = true := List.all_eq_true.1 (by decide +kernel)
  rw [Option.isSome_or, Bool.or_eq_true, scanNumber?_label hname, scanBoolean?_isSome]
  simp only [List.mem_cons, List.not_mem_nil, or_false, exists_eq_or_imp, exists_eq_left]
  rw [endsWord_label hname htrue, endsWord_label hname hfalse]
  rfl

/-! ## What is left behind a literal -/

theorem scanDigits?_colon {digits : List Char} (h : scanDigits? cs = some (digits, rest)) (hc : ':' ∈ cs) :
    ':' ∈ rest := by
  unfold scanDigits? at h
  split at h
  · cases h
  · cases h
    rw [← List.takeWhile_append_dropWhile (p := Char.isDigit) (l := cs)] at hc
    refine (List.mem_append.1 hc).resolve_left fun hmem => ?_
    exact absurd (List.mem_takeWhile_imp hmem) (by decide)

theorem scanFraction_colon (hc : ':' ∈ cs) : ':' ∈ (scanFraction cs).2 := by
  unfold scanFraction
  split
  · split
    · next hd => exact scanDigits?_colon hd ((List.mem_cons.1 hc).resolve_left (by decide))
    · exact hc
  · exact hc

theorem scanExponent_colon (hc : ':' ∈ cs) : ':' ∈ (scanExponent cs).2 := by
  unfold scanExponent
  split
  · next c after =>
    split
    · next hletter =>
      have hafter : ':' ∈ after := by
        refine (List.mem_cons.1 hc).resolve_left ?_
        rintro rfl
        exact absurd hletter (by decide)
      simp only
      split
      · next hd =>
        refine scanDigits?_colon hd ?_
        split
        · exact (List.mem_cons.1 hafter).resolve_left (by decide)
        · exact (List.mem_cons.1 hafter).resolve_left (by decide)
        · exact hafter
      · exact hc
    · exact hc
  · cases hc

theorem scanNumber?_colon {l : Literal} (h : scanNumber? cs = some (l, rest)) (hc : ':' ∈ cs) : ':' ∈ rest := by
  unfold scanNumber? at h
  simp only [Option.map_eq_some_iff] at h
  obtain ⟨⟨digits, r⟩, hd, hr⟩ := h
  cases hr
  refine scanExponent_colon (scanFraction_colon (scanDigits?_colon hd ?_))
  split
  · exact (List.mem_cons.1 hc).resolve_left (by decide)
  · exact (List.mem_cons.1 hc).resolve_left (by decide)
  · exact hc

theorem scanBoolean?_colon {l : Literal} (h : scanBoolean? cs = some (l, rest)) (hc : ':' ∈ cs) : ':' ∈ rest := by
  unfold scanBoolean? at h
  split at h
  · split at h
    · cases h
      simpa using hc
    · cases h
  · split at h
    · cases h
      simpa using hc
    · cases h
  · cases h

/-! ## Declared labels -/

theorem isBlank_of_isLocalChar {c : Char} (h : isLocalChar c = true) : Text.isBlank c = false := by
  simp only [isLocalChar, Bool.or_eq_true, beq_iff_eq] at h
  rcases h with (h | rfl) | rfl
  · exact isBlank_of_isNameChar h
  · decide
  · decide

/-- Of a label with a local name only white space in front is trimmed. -/
theorem trim_label (hgap : ∀ c ∈ gap, isGap c = true) (hname : ∀ c ∈ name, isNameChar c = true) (hloc : FitsLocal loc) :
    Text.trim (gap ++ (name ++ ':' :: loc.toList)) = name ++ ':' :: loc.toList := by
  have hsolid : ∀ c ∈ name ++ ':' :: loc.toList, Text.isBlank c = false := by
    simp only [List.mem_append, List.mem_cons]
    rintro c (hc | rfl | hc)
    · exact isBlank_of_isNameChar (hname c hc)
    · decide
    · exact isBlank_of_isLocalChar (hloc.1 c hc)
  rw [Text.trim_append fun c hc => isBlank_of_isGap (hgap c hc)]
  obtain ⟨c, cs, heq, _⟩ := exists_label_cons hname loc.toList
  rw [heq] at hsolid ⊢
  rw [Text.trim, Text.trimStart_cons (hsolid c List.mem_cons_self), Text.trimEnd_of_forall hsolid]

/-- The namespace of a label that can be used, and what is left of one that cannot. -/
theorem parseTerm_label (hgap : ∀ c ∈ gap, isGap c = true) (hname : ∀ c ∈ name, isNameChar c = true)
    (hlabel : label.toList = gap ++ name) (hfind : p.find? (String.ofList name) = some iri) (hloc : FitsLocal loc) :
    (¬TakenForLiteral label → parseTerm p (label ++ ":" ++ loc) = .ok (.iri (iri ++ loc))) ∧
    (TakenForLiteral label → ∃ n, parseTerm p (label ++ ":" ++ loc) = .error (.report (.malformed n .afterTerm))) := by
  have htext : Text.trim (label ++ ":" ++ loc).toList = name ++ ':' :: loc.toList := by
    rw [← trim_label hgap hname hloc]
    simp [hlabel]
  have htaken : TakenForLiteral label ↔
      ((scanNumber? (name ++ ':' :: loc.toList)).or (scanBoolean? (name ++ ':' :: loc.toList))).isSome = true := by
    rw [scanLiteral_label hname, TakenForLiteral, hlabel, dropWhile_isGap hgap hname]
  obtain ⟨hread, hresolve⟩ := readTerm_label (p := p) hname hloc
  cases hliteral : (scanNumber? (name ++ ':' :: loc.toList)).or (scanBoolean? (name ++ ':' :: loc.toList)) with
  | none =>
    rw [hliteral] at htaken
    constructor
    · intro _
      simp only [parseTerm, htext, hresolve hliteral, resolve, hfind, Except.map]
      rfl
    · intro h
      cases htaken.1 h
  | some found =>
    obtain ⟨l, rest⟩ := found
    rw [hliteral] at htaken
    constructor
    · intro h
      exact absurd (htaken.2 rfl) h
    · intro _
      have hcolon : ':' ∈ rest := by
        rcases Option.or_eq_some_iff.1 hliteral with hnumber | ⟨_, hboolean⟩
        · exact scanNumber?_colon hnumber (by simp)
        · exact scanBoolean?_colon hboolean (by simp)
      have hleft : (Text.trim rest).isEmpty = false := by
        rw [List.isEmpty_eq_false_iff]
        exact List.ne_nil_of_mem (mem_trim hcolon (by decide))
      refine ⟨position (name ++ ':' :: loc.toList) rest, ?_⟩
      simp only [parseTerm, htext, hread l rest hliteral, hleft]
      rfl

/-- A label that a line declares stands for its namespace before every local name, if and only if what begins with the
label is not taken for a literal. Else every text with the label is refused behind the literal. -/
theorem parseTerm_declared {file : RuleFile} (hline : '\n' ∉ (declarationLine label iri).toList)
    (hfile : parseRules p (declarationLine label iri) = .ok file) (hloc : FitsLocal loc) :
    (parseTerm file.prefixes (label ++ ":" ++ loc) = .ok (.iri (iri ++ loc)) ↔ ¬TakenForLiteral label) ∧
    (TakenForLiteral label →
      ∃ n, parseTerm file.prefixes (label ++ ":" ++ loc) = .error (.report (.malformed n .afterTerm))) := by
  obtain ⟨gap, name, hlabel, hgap, hname, _, rfl⟩ := (parseRules_declarationLine hline).1 hfile
  have hfind : (p.declare (String.ofList name) iri).find? (String.ofList name) = some iri := by
    rw [Prefixes.find?_declare, if_pos rfl]
  obtain ⟨husable, hrefused⟩ := parseTerm_label hgap hname hlabel hfind hloc
  refine ⟨⟨fun hok htaken => ?_, husable⟩, hrefused⟩
  obtain ⟨n, herror⟩ := hrefused htaken
  rw [herror] at hok
  cases hok

/-- A label may begin with a truth value and other letters, and a local name with a digit. -/
theorem falsey_declared : '\n' ∉ (declarationLine " falsey" "http://e/").toList ∧ FitsLocal "1.5-true" ∧
    ∃ file, parseRules .standard (declarationLine " falsey" "http://e/") = .ok file ∧
      parseTerm file.prefixes (" falsey" ++ ":" ++ "1.5-true") = .ok (.iri ("http://e/" ++ "1.5-true")) := by
  have hline : '\n' ∉ (declarationLine " falsey" "http://e/").toList := by decide +kernel
  have hloc : FitsLocal "1.5-true" := by decide +kernel
  have hfile := (parseRules_declarationLine (p := .standard) hline).2
    ⟨[' '], "falsey".toList, by decide, List.all_eq_true.1 (by decide),
      List.all_eq_true.1 (by decide +kernel), by decide, rfl⟩
  exact ⟨hline, hloc, _, hfile, (parseTerm_declared hline hfile hloc).1.2 (by decide +kernel)⟩

/-- A truth value with an underscore behind it, and a digit with a letter behind it, can be declared as labels. Of the
texts that begin with them only the truth value and the digit are read. -/
theorem labels_refused : FitsLocal "c" ∧
    '\n' ∉ (declarationLine "true_x" "http://e/").toList ∧ '\n' ∉ (declarationLine "2d" "http://e/").toList ∧
    parseRules .standard (declarationLine "true_x" "http://e/") =
      .ok ⟨[], Prefixes.standard.declare "true_x" "http://e/"⟩ ∧
    parseTerm (Prefixes.standard.declare "true_x" "http://e/") ("true_x" ++ ":" ++ "c") =
      .error (.report (.malformed 4 .afterTerm)) ∧
    parseRules .standard (declarationLine "2d" "http://e/") = .ok ⟨[], Prefixes.standard.declare "2d" "http://e/"⟩ ∧
    parseTerm (Prefixes.standard.declare "2d" "http://e/") ("2d" ++ ":" ++ "c") =
      .error (.report (.malformed 1 .afterTerm)) := by
  have hword : '\n' ∉ (declarationLine "true_x" "http://e/").toList := by decide +kernel
  have hdigit : '\n' ∉ (declarationLine "2d" "http://e/").toList := by decide +kernel
  refine ⟨by decide +kernel, hword, hdigit, ?_, by decide +kernel, ?_, by decide +kernel⟩
  · exact parseRules_of_name hword (List.all_eq_true.1 (by decide +kernel)) (by decide)
  · exact parseRules_of_name hdigit (List.all_eq_true.1 (by decide +kernel)) (by decide)

end Grammar

end TripleChain
