import TripleChain.Proofs.Places
/-!
# How reading ends

The readers end with what they have read, with a report, or without one. `Safe` says where: a report gives a position in
the text, and a reader breaks off without a report just if it comes to a place where a term is asked for, none can be
read, and the preview of what is there ends inside a character. There is one lemma with it for each reader.
-/

namespace TripleChain

namespace Grammar

variable {p : Prefixes} {piece : Piece} {v : Variable} {cs cs' rest whole : List Char}

/-! ## The readers -/

/-- A reader that is at `cs` ends safely: what it reports has a position in the text, and it breaks off without a report
just if it comes to a place where it must. -/
structure Safe {α : Type} (p : Prefixes) (whole : List Char) (piece : Piece) (cs : List Char)
    (outcome : Except (Halt TextError) α) : Prop where
  reported : ∀ n f, outcome = .error (.report (.malformed n f)) → IsPosition whole n
  broken : outcome = .error .brokenPreview ↔ Breaks p whole piece cs

variable {α : Type} {triple : Triple} {pair : Variable × Term} {before binding : Binding}
  {outcome : Except (Halt TextError) α}

theorem Safe.of_ok (h : ¬Breaks p whole piece cs) (a : α) : Safe p whole piece cs (.ok a) where
  reported := by
    rintro n f ⟨⟩
  broken := iff_of_false (by rintro ⟨⟩) h

theorem Safe.of_malformed (h : ¬Breaks p whole piece cs) (hrest : rest <:+ whole) (f : Fault) :
    Safe p whole piece cs (.error (.report (.malformed (position whole rest) f)) : Except (Halt TextError) α) where
  reported := by
    rintro n f ⟨⟩
    exact isPosition_position hrest
  broken := iff_of_false (by rintro ⟨⟩) h

/-- An error within a term is reported where the reading began. -/
theorem Safe.of_locate {error : TermError} (hrest : rest <:+ whole)
    (h : error = .brokenPreview ↔ Breaks p whole piece cs) :
    Safe p whole piece cs (.error (error.locate (position whole rest)) : Except (Halt TextError) α) where
  reported := by
    intro n f heq
    cases error with
    | fault g =>
      cases heq
      exact isPosition_position hrest
    | undefinedPrefix label => cases heq
    | brokenPreview => cases heq
  broken := by
    rw [← h]
    cases error with
    | fault g => exact iff_of_false (by rintro ⟨⟩) (by rintro ⟨⟩)
    | undefinedPrefix label => exact iff_of_false (by rintro ⟨⟩) (by rintro ⟨⟩)
    | brokenPreview => exact iff_of_true rfl rfl

/-- The error of a reader may be handed on by the one that called it. -/
theorem Safe.hand_on {β : Type} {inner : Piece} {error : Halt TextError}
    (h : Safe p whole inner cs' (.error error : Except (Halt TextError) β))
    (hbreaks : error = .brokenPreview ↔ Breaks p whole piece cs) :
    Safe p whole piece cs (.error error : Except (Halt TextError) α) where
  reported n f herror := h.reported n f (congrArg _ (Except.error.inj herror))
  broken := by rw [Except.error.injEq, hbreaks]

/-- Where a round of a loop is over, nothing breaks off but in the rounds after it. -/
theorem Safe.later (hturn : Turn p whole piece cs cs') (h : Safe p whole piece cs' outcome)
    (hround : Breaks p whole piece cs → ∃ cs', Turn p whole piece cs cs' ∧ Breaks p whole piece cs') :
    Safe p whole piece cs outcome where
  reported := h.reported
  broken := by
    rw [h.broken]
    constructor
    · rintro ⟨e, he, hbroken⟩
      exact ⟨e, .later hturn he, hbroken⟩
    · intro hbreaks
      obtain ⟨other, hother, hbreaks⟩ := hround hbreaks
      rwa [hturn.unique hother]

theorem breaks_term (whole : List Char) : readTerm p cs = .error .brokenPreview ↔ Breaks p whole .term cs := by
  rw [readTerm_broken]
  constructor
  · exact fun h => ⟨cs, .term cs, h⟩
  · rintro ⟨e, h, hbroken⟩
    cases h with
    | term => exact hbroken
    | later hturn _ => cases hturn

theorem breaks_triple (whole : List Char) : readTriple p cs = .error .brokenPreview ↔ Breaks p whole .triple cs := by
  constructor
  · intro h
    unfold readTriple at h
    split at h
    · next hs =>
      cases h
      exact ⟨cs, .subject cs, readTerm_broken.1 hs⟩
    next hs =>
    split at h
    · next hp =>
      cases h
      exact ⟨_, .predicate hs, readTerm_broken.1 hp⟩
    next hp =>
    split at h
    · next ho =>
      cases h
      exact ⟨_, .object hs hp, readTerm_broken.1 ho⟩
    · cases h
  · rintro ⟨e, h, hbroken⟩
    have herror : readTerm p e = .error .brokenPreview := readTerm_broken.2 hbroken
    cases h with
    | subject => rw [readTriple, herror]
    | predicate hs => simp only [readTriple, hs, herror]
    | object hs hp => simp only [readTriple, hs, hp, herror]
    | later hturn _ => cases hturn

/-! ### Patterns -/

/-- A pattern breaks off in the triple in front, or in a later round. -/
theorem breaks_pattern : Breaks p whole .pattern cs ↔
    cs ≠ [] ∧ readTriple p cs = .error .brokenPreview ∨
      ∃ cs', Turn p whole .pattern cs cs' ∧ Breaks p whole .pattern cs' := by
  rw [breaks_triple whole]
  constructor
  · rintro ⟨e, h, hbroken⟩
    cases h with
    | inTriple hne h => exact .inl ⟨hne, e, h, hbroken⟩
    | later hturn h => exact .inr ⟨_, hturn, e, h, hbroken⟩
  · rintro (⟨hne, e, h, hbroken⟩ | ⟨cs', hturn, e, h, hbroken⟩)
    · exact ⟨e, .inTriple hne h, hbroken⟩
    · exact ⟨e, .later hturn h, hbroken⟩

/-- A pattern does not break off if it ends behind its first triple. -/
theorem not_breaks_of_triple (ht : readTriple p cs = .ok (triple, rest))
    (hmark : ∀ rest', skipGap false rest ≠ '.' :: rest') :
    ¬Breaks p whole .pattern cs := by
  rw [breaks_pattern, ht]
  rintro (⟨_, herror⟩ | ⟨cs', hturn, _⟩)
  · cases herror
  · cases hturn with
    | triple ht' hmark' =>
      rw [ht] at ht'
      cases ht'
      exact hmark _ hmark'

/-- The triples from any place of the text on are read safely. -/
theorem readTriples_safe (before : Pattern) (hcs : cs <:+ whole) :
    Safe p whole .pattern cs (readTriples p whole before cs) := by
  fun_induction readTriples p whole before cs with
  | case1 before cs hempty =>
    refine .of_ok ?_ before
    rw [breaks_pattern, List.isEmpty_iff.1 hempty]
    rintro (⟨hne, _⟩ | ⟨cs', hturn, _⟩)
    · exact hne rfl
    · exact hturn.ne_nil rfl
  | case2 before cs hne error ht =>
    refine .of_locate hcs ?_
    rw [breaks_pattern, ht]
    constructor
    · rintro rfl
      exact .inl ⟨fun hnil => hne (List.isEmpty_iff.2 hnil), rfl⟩
    · rintro (⟨_, herror⟩ | ⟨cs', hturn, _⟩)
      · exact Except.error.inj herror
      · cases hturn with
        | triple ht' _ =>
          rw [ht] at ht'
          cases ht'
  | case3 before cs hne t rest ht hrest =>
    refine .of_ok (not_breaks_of_triple ht fun rest' hmark => ?_) _
    rw [hrest] at hmark
    cases hmark
  | case4 before cs hne t rest ht rest' hrest ih =>
    have hturn : Turn p whole .pattern cs (skipGap false rest') := .triple ht hrest
    refine .later hturn (ih (hturn.follows.suffix.trans hcs)) fun hbreaks => ?_
    rw [breaks_pattern, ht] at hbreaks
    rcases hbreaks with ⟨_, herror⟩ | hlater
    · cases herror
    · exact hlater
  | case5 before cs hne t rest ht c rest' hrest hc =>
    have hends : c :: rest' <:+ cs := hrest ▸ ((readTriple_follows ht).skipGap false).suffix
    refine .of_malformed (not_breaks_of_triple ht fun rest'' hmark => ?_) (hends.trans hcs) _
    rw [hrest] at hmark
    exact hc (List.cons.inj hmark).1

/-! ### Bindings -/

/-- The only term of a pair is behind its equals sign. -/
theorem breaks_value {rest' : List Char} (hkey : scanKey? cs = some (v, rest)) (heq : skipInline rest = '=' :: rest') :
    Breaks p whole .pair cs ↔ readTerm p (skipInline rest') = .error .brokenPreview := by
  rw [readTerm_broken]
  constructor
  · rintro ⟨e, h, hbroken⟩
    cases h with
    | value hkey' heq' =>
      rw [hkey] at hkey'
      cases hkey'
      rw [heq] at heq'
      cases heq'
      exact hbroken
    | later hturn _ => cases hturn
  · exact fun h => ⟨_, .value hkey heq, h⟩

theorem readPair_safe (hcs : cs <:+ whole) : Safe p whole .pair cs (readPair p whole cs) := by
  unfold readPair
  split
  · next hkey =>
    refine .of_malformed ?_ hcs _
    rintro ⟨e, h, _⟩
    cases h with
    | value hkey' _ =>
      rw [hkey] at hkey'
      cases hkey'
    | later hturn _ => cases hturn
  · next v rest hkey =>
    have hrest : skipInline rest <:+ whole := (scanKey?_follows hkey).skipInline.suffix.trans hcs
    split
    · next rest' heq =>
      have hvalue : skipInline rest' <:+ whole :=
        (skipInline_isSuffix rest').trans ((List.suffix_cons '=' rest').trans (heq ▸ hrest))
      dsimp only
      split
      · next error ht =>
        refine .of_locate hvalue ?_
        rw [breaks_value hkey heq, ht, Except.error.injEq]
      · next t after ht =>
        have hread : ¬Breaks p whole .pair cs := by
          rw [breaks_value hkey heq, ht]
          rintro ⟨⟩
        split
        · exact .of_malformed hread ((readTerm_follows ht).suffix.trans hvalue) _
        · exact .of_ok hread _
    · next hne =>
      refine .of_malformed ?_ hrest _
      rintro ⟨e, h, _⟩
      cases h with
      | value hkey' heq' =>
        rw [hkey] at hkey'
        cases hkey'
        exact hne _ heq'
      | later hturn _ => cases hturn

/-- A binding breaks off in the pair in front, or in a later round. -/
theorem breaks_binding (hcs : cs <:+ whole) : Breaks p whole .binding cs ↔
    cs ≠ [] ∧ cs.head? ≠ some '|' ∧ readPair p whole cs = .error .brokenPreview ∨
      ∃ cs', Turn p whole .binding cs cs' ∧ Breaks p whole .binding cs' := by
  rw [(readPair_safe hcs).broken]
  constructor
  · rintro ⟨e, h, hbroken⟩
    cases h with
    | inPair hne hbar h => exact .inl ⟨hne, hbar, e, h, hbroken⟩
    | later hturn h => exact .inr ⟨_, hturn, e, h, hbroken⟩
  · rintro (⟨hne, hbar, e, h, hbroken⟩ | ⟨cs', hturn, e, h, hbroken⟩)
    · exact ⟨e, .inPair hne hbar h, hbroken⟩
    · exact ⟨e, .later hturn h, hbroken⟩

/-- A binding does not break off if it ends behind its first pair. -/
theorem not_breaks_of_pair (hcs : cs <:+ whole) (he : readPair p whole cs = .ok (pair, rest))
    (hmark : ∀ rest', skipInline rest ≠ ',' :: rest') : ¬Breaks p whole .binding cs := by
  rw [breaks_binding hcs, he]
  rintro (⟨_, _, herror⟩ | ⟨cs', hturn, _⟩)
  · cases herror
  · cases hturn with
    | pair _ _ he' hmark' =>
      rw [he] at he'
      cases he'
      exact hmark _ hmark'

/-- The pairs from any place of the text on are read safely. -/
theorem readPairs_safe (before : Binding) (hcs : cs <:+ whole) :
    Safe p whole .binding cs (readPairs p whole before cs) := by
  have hloop : ∀ cs : List Char, (cs.isEmpty || cs.head? == some '|') = true ↔ ¬(cs ≠ [] ∧ cs.head? ≠ some '|') := by
    intro cs
    rw [Bool.or_eq_true, List.isEmpty_iff, beq_iff_eq, not_and_or, not_not, not_not]
  fun_induction readPairs p whole before cs with
  | case1 before cs hstop =>
    rw [hloop] at hstop
    refine .of_ok ?_ _
    rw [breaks_binding hcs]
    rintro (⟨hne, hbar, _⟩ | ⟨cs', hturn, _⟩)
    · exact hstop ⟨hne, hbar⟩
    · cases hturn with
      | pair hne hbar _ _ => exact hstop ⟨hne, hbar⟩
  | case2 before cs hgo error he =>
    rw [hloop, not_not] at hgo
    have hsafe : Safe p whole .pair cs (readPair p whole cs) := readPair_safe hcs
    rw [he] at hsafe
    refine hsafe.hand_on ?_
    rw [breaks_binding hcs, he, Except.error.injEq]
    constructor
    · exact fun herror => .inl ⟨hgo.1, hgo.2, herror⟩
    · rintro (⟨_, _, herror⟩ | ⟨cs', hturn, _⟩)
      · exact herror
      · cases hturn with
        | pair _ _ he' _ =>
          rw [he] at he'
          cases he'
  | case3 before cs hgo v t rest he hrest =>
    refine .of_ok (not_breaks_of_pair hcs he fun rest' hmark => ?_) _
    rw [hrest] at hmark
    cases hmark
  | case4 before cs hgo v t rest he rest' hrest ih =>
    rw [hloop, not_not] at hgo
    have hturn : Turn p whole .binding cs (skipInline rest') := .pair hgo.1 hgo.2 he hrest
    refine .later hturn (ih (hturn.follows.suffix.trans hcs)) fun hbreaks => ?_
    rw [breaks_binding hcs, he] at hbreaks
    rcases hbreaks with ⟨_, _, herror⟩ | hlater
    · cases herror
    · exact hlater
  | case5 before cs hgo v t rest he rest' hrest =>
    refine .of_ok (not_breaks_of_pair hcs he fun rest'' hmark => ?_) _
    rw [hrest] at hmark
    exact absurd (List.cons.inj hmark).1 (by decide)
  | case6 before cs hgo v t rest he c rest' hrest hc hbar =>
    have hends : c :: rest' <:+ cs := hrest ▸ (readPair_follows he).skipInline.suffix
    refine .of_malformed (not_breaks_of_pair hcs he fun rest'' hmark => ?_) (hends.trans hcs) _
    rw [hrest] at hmark
    exact hc (List.cons.inj hmark).1

/-! ### Binding sets -/

/-- A binding set breaks off in the binding in front, or in a later round. -/
theorem breaks_bindings (hcs : cs <:+ whole) : Breaks p whole .bindings cs ↔
    cs ≠ [] ∧ readPairs p whole ∅ (skipInline cs) = .error .brokenPreview ∨
      ∃ cs', Turn p whole .bindings cs cs' ∧ Breaks p whole .bindings cs' := by
  rw [(readPairs_safe ∅ ((skipInline_isSuffix cs).trans hcs)).broken]
  constructor
  · rintro ⟨e, h, hbroken⟩
    cases h with
    | inBinding hne h => exact .inl ⟨hne, e, h, hbroken⟩
    | later hturn h => exact .inr ⟨_, hturn, e, h, hbroken⟩
  · rintro (⟨hne, e, h, hbroken⟩ | ⟨cs', hturn, e, h, hbroken⟩)
    · exact ⟨e, .inBinding hne h, hbroken⟩
    · exact ⟨e, .later hturn h, hbroken⟩

/-- The bindings from any place of the text on are read safely. -/
theorem readBindings_safe (before : BindingSet) (hcs : cs <:+ whole) :
    Safe p whole .bindings cs (readBindings p whole before cs) := by
  fun_induction readBindings p whole before cs with
  | case1 before cs hempty =>
    refine .of_ok ?_ before
    rw [breaks_bindings hcs, List.isEmpty_iff.1 hempty]
    rintro (⟨hne, _⟩ | ⟨cs', hturn, _⟩)
    · exact hne rfl
    · exact hturn.ne_nil rfl
  | case2 before cs hne error hb =>
    have hsafe : Safe p whole .binding (skipInline cs) (readPairs p whole ∅ (skipInline cs)) :=
      readPairs_safe ∅ ((skipInline_isSuffix cs).trans hcs)
    rw [hb] at hsafe
    refine hsafe.hand_on ?_
    rw [breaks_bindings hcs, hb, Except.error.injEq]
    constructor
    · exact fun herror => .inl ⟨fun hnil => hne (List.isEmpty_iff.2 hnil), herror⟩
    · rintro (⟨_, herror⟩ | ⟨cs', hturn, _⟩)
      · exact herror
      · cases hturn with
        | binding _ hb' =>
          rw [hb] at hb'
          cases hb'
  | case3 before cs hne b rest hb ih =>
    have hturn : Turn p whole .bindings cs (Text.trimStart rest) :=
      .binding (fun hnil => hne (List.isEmpty_iff.2 hnil)) hb
    refine .later hturn (ih (hturn.follows.suffix.trans hcs)) fun hbreaks => ?_
    rw [breaks_bindings hcs, hb] at hbreaks
    rcases hbreaks with ⟨_, herror⟩ | hlater
    · cases herror
    · exact hlater
  | case4 before cs hne b rest hbar hb =>
    refine .of_ok ?_ _
    rw [breaks_bindings hcs, hb]
    rintro (⟨_, herror⟩ | ⟨cs', hturn, _⟩)
    · cases herror
    · cases hturn with
      | binding _ hb' =>
        rw [hb] at hb'
        cases hb'
        exact hbar _ rfl

/-! ### Texts -/

theorem position_self (whole : List Char) : position whole whole = 0 := Nat.sub_self _

/-- One term, and nothing else. -/
theorem parseTerm_safe (p : Prefixes) (text : String) :
    Safe p (Text.trim text.toList) .term (Text.trim text.toList) (parseTerm p text) := by
  unfold parseTerm
  dsimp only
  split
  · next error ht =>
    rw [← position_self (Text.trim text.toList)]
    refine .of_locate List.suffix_rfl ?_
    rw [← breaks_term, ht, Except.error.injEq]
  · next t rest ht =>
    have hread : ¬Breaks p (Text.trim text.toList) .term (Text.trim text.toList) := by
      rw [← breaks_term, ht]
      rintro ⟨⟩
    split
    · exact .of_ok hread t
    · exact .of_malformed hread (readTerm_follows ht).suffix _

/-- One triple, and at most a full stop. -/
theorem parseTriple_safe (p : Prefixes) (text : String) :
    Safe p (Text.trim text.toList) .triple (Text.trim text.toList) (parseTriple p text) := by
  unfold parseTriple
  dsimp only
  split
  · next error ht =>
    rw [← position_self (Text.trim text.toList)]
    refine .of_locate List.suffix_rfl ?_
    rw [← breaks_triple, ht, Except.error.injEq]
  · next t rest ht =>
    have hread : ¬Breaks p (Text.trim text.toList) .triple (Text.trim text.toList) := by
      rw [← breaks_triple, ht]
      rintro ⟨⟩
    split
    · exact .of_ok hread t
    · exact .of_malformed hread (Text.trim_suffix_trim (readTriple_follows ht).suffix) _

theorem parsePattern_safe (p : Prefixes) (text : String) :
    Safe p (Text.trim text.toList) .pattern (skipGap false (Text.trim text.toList)) (parsePattern p text) :=
  readTriples_safe ∅ (skipGap_isSuffix false _)

/-- One binding, and nothing else. -/
theorem parseBinding_safe (p : Prefixes) (text : String) :
    Safe p (Text.trim text.toList) .binding (skipInline (Text.trim text.toList)) (parseBinding p text) := by
  have hsafe : Safe p (Text.trim text.toList) .binding (skipInline (Text.trim text.toList))
      (readPairs p (Text.trim text.toList) ∅ (skipInline (Text.trim text.toList))) :=
    readPairs_safe ∅ (skipInline_isSuffix _)
  unfold parseBinding
  dsimp only
  split
  · next error hb =>
    rw [hb] at hsafe
    refine hsafe.hand_on ?_
    rw [← hsafe.broken, Except.error.injEq]
  · next b rest hb =>
    have hread : ¬Breaks p (Text.trim text.toList) .binding (skipInline (Text.trim text.toList)) := by
      rw [← hsafe.broken, hb]
      rintro ⟨⟩
    split
    · exact .of_ok hread b
    · exact .of_malformed hread ((readPairs_suffix hb).trans (skipInline_isSuffix _)) _

theorem parseBindings_safe (p : Prefixes) (text : String) :
    Safe p (Text.trim text.toList) .bindings (Text.trim text.toList) (parseBindings p text) :=
  readBindings_safe ∅ List.suffix_rfl

/-- The preview of a text without a term would end inside the seventh character. -/
example : parseTerm .standard "日日日日日日日" = .error .brokenPreview := by decide +kernel

end Grammar

end TripleChain
