import Mathlib.Data.Nat.Find
import TripleChain.CommandLine
import TripleChain.Proofs.CanonicalJson
import TripleChain.Proofs.Collections
import TripleChain.Proofs.Graph
/-!
# Reports of what rules have given

The report on a forward plan has one passage for each name of a rule, and rules of different patterns may come to one
name. Of the nodes that go by one name only the last is in the table that is printed (`CommandLine.get?_derived`), and
all that is in the table is printed (`CommandLine.passage_within`). So a report says all that the nodes have given
exactly when of each name the last node has given it all (`CommandLine.derivedReport_complete_iff`). A run whose report
says less is `CommandLine.acquainted_incomplete`.
-/

namespace TripleChain

/-! ## Parts of texts -/

/-- A text occurs in another. -/
def Text.Within (part whole : String) : Prop := ∃ before after, whole = before ++ part ++ after

namespace Text

variable {part middle whole : String}

theorem Within.trans (h : Within part middle) (h' : Within middle whole) : Within part whole := by
  obtain ⟨before, after, rfl⟩ := h
  obtain ⟨before', after', rfl⟩ := h'
  exact ⟨before' ++ before, after ++ after', by simp only [String.append_assoc]⟩

theorem within_join {l : List String} (h : part ∈ l) : Within part (String.join l) := by
  obtain ⟨before, after, rfl⟩ := List.append_of_mem h
  rw [String.join_append, String.join_cons, ← String.append_assoc]
  exact ⟨_, _, rfl⟩

theorem within_intercalate (separator : String) {l : List String} (h : part ∈ l) :
    Within part (separator.intercalate l) := by
  induction l with
  | nil => cases h
  | cons a l ih =>
    cases l with
    | nil =>
      rw [List.mem_singleton.1 h]
      exact ⟨"", "", by simp⟩
    | cons b l =>
      rw [String.intercalate_cons_cons]
      rcases List.mem_cons.1 h with rfl | h
      · exact ⟨"", separator ++ separator.intercalate (b :: l), by simp [String.append_assoc]⟩
      · refine (ih h).trans ⟨a ++ separator, "", ?_⟩
        rw [String.append_empty]

end Text

namespace Json

theorem prettyItems_eq_map (depth : Nat) (items : List Json) :
    prettyItems depth items = items.map (prettyAt depth) := by
  induction items with
  | nil => rfl
  | cons v items ih => rw [prettyItems, ih, List.map_cons]

theorem prettyFields_eq_map (depth : Nat) (fields : List (String × Json)) :
    prettyFields depth fields = fields.map fun f => quote f.1 ++ ": " ++ prettyAt depth f.2 := by
  induction fields with
  | nil => rfl
  | cons f fields ih => rw [prettyFields, ih, List.map_cons]

/-- A block shows all its items. -/
theorem within_block (left right : String) (depth : Nat) {items : List String} {item : String} (h : item ∈ items) :
    Text.Within item (block left right depth items) := by
  have hsome : ¬ items.isEmpty = true := by simpa using List.ne_nil_of_mem h
  have hline (indent : String) : Text.Within item (",\n".intercalate (items.map (indent ++ ·))) :=
    Text.Within.trans ⟨indent, "", (String.append_empty ..).symm⟩
      (Text.within_intercalate ",\n" (List.mem_map_of_mem (f := (indent ++ ·)) h))
  rw [block, if_neg hsome]
  refine (hline (String.ofList (List.replicate (2 * (depth + 1)) ' '))).trans ?_
  refine ⟨left ++ "\n", "\n" ++ String.ofList (List.replicate (2 * depth) ' ') ++ right, ?_⟩
  simp only [String.append_assoc]

end Json

/-! ## What nodes have given -/

namespace Plan

variable {p : Plan} {id : NodeId} {name : String} {s : BindingSet}

/-- A node other than the start has given a set that is not empty, and its rule goes by a name. -/
structure Derives (p : Plan) (id : NodeId) (name : String) (s : BindingSet) : Prop where
  inner : id ≠ start
  named : ∃ n, p.graph.node? id = some n ∧ n.rule.displayName = name
  output : (p.progressOf id).output = s
  nonempty : s.isEmpty = false

/-- What the report has of a node, with the name of its rule. -/
def derived? (p : Plan) (id : NodeId) : Option (String × BindingSet) := do
  let n ← p.graph.node? id
  let output := (p.progressOf id).output
  if id = start || output.isEmpty then none else some (n.rule.displayName, output)

theorem derived?_eq_some :
    p.derived? id = some (name, s) ↔ p.Derives id name s := by
  unfold derived?
  constructor
  · intro h
    obtain ⟨n, hn, h⟩ := Option.bind_eq_some_iff.1 h
    by_cases hskip : (decide (id = start) || (p.progressOf id).output.isEmpty) = true
    · rw [if_pos hskip] at h
      cases h
    · rw [if_neg hskip] at h
      cases h
      rw [Bool.or_eq_true, not_or, decide_eq_true_iff, Bool.not_eq_true] at hskip
      exact ⟨hskip.1, ⟨n, hn, rfl⟩, rfl, hskip.2⟩
  · rintro ⟨hid, ⟨n, hn, rfl⟩, rfl, hsome⟩
    simp [hn, hid, hsome]

theorem Derives.lt_size (h : p.Derives id name s) : id < p.size := by
  obtain ⟨n, hn, _⟩ := h.named
  exact Graph.lt_size hn

/-- One of the nodes that go by a name is the last. -/
theorem Derives.exists_last (h : p.Derives id name s) :
    ∃ id' t, p.Derives id' name t ∧ ∀ i u, p.Derives i name u → i ≤ id' := by
  classical
  obtain ⟨t, ht⟩ := Nat.findGreatest_spec (P := fun i => ∃ u, p.Derives i name u) h.lt_size.le ⟨s, h⟩
  exact ⟨_, t, ht, fun i u hi => Nat.le_findGreatest hi.lt_size.le ⟨u, hi⟩⟩

end Plan

namespace CommandLine

variable {p : Plan} {id : NodeId} {name : String} {s t : BindingSet}

/-- Of the nodes that go by one name the last is in the table. -/
theorem get?_derived : (derived p).get? name = some t ↔
    ∃ id, p.Derives id name t ∧ ∀ id' s, p.Derives id' name s → id' ≤ id := by
  have htable : derived p = .ofList ((List.range p.size).filterMap p.derived?) := rfl
  rw [htable, SortedMap.get?_ofList_range]
  constructor
  · rintro ⟨id, _, hid, hmax⟩
    exact ⟨id, Plan.derived?_eq_some.1 hid, fun id' s h => hmax id' h.lt_size s (Plan.derived?_eq_some.2 h)⟩
  · rintro ⟨id, hid, hmax⟩
    exact ⟨id, hid.lt_size, Plan.derived?_eq_some.2 hid, fun id' _ s h => hmax id' s (Plan.derived?_eq_some.1 h)⟩

/-! ## Passages -/

/-- What a report says under a name. -/
def passage (format : OutputFormat) (name : String) (s : BindingSet) : String :=
  match format with
  | .text => "# " ++ name ++ "\n" ++ BindingSet.text s
  | .json => Json.quote name ++ ": " ++ (BindingSet.toJson s).prettyAt 1

/-- All that is in the table is printed. -/
theorem passage_within (format : OutputFormat) (h : (derived p).get? name = some t) :
    Text.Within (passage format name t) (derivedReport format p) := by
  have hitem : passage format name t ∈ (derived p).entries.map fun e => passage format e.1 e.2 :=
    List.mem_map.2 ⟨(name, t), SortedMap.get?_eq_some_iff.1 h, rfl⟩
  cases format with
  | text => exact Text.within_join hitem
  | json =>
    have hreport : derivedReport .json p =
        Json.block "\x7b" "\x7d" 0 ((derived p).entries.map fun e => passage .json e.1 e.2) ++ "\n" := by
      rw [derivedReport, Json.pretty, Json.prettyAt, Json.prettyFields_eq_map, List.map_map]
      rfl
    rw [hreport]
    refine (Json.within_block "\x7b" "\x7d" 0 hitem).trans ⟨"", "\n", ?_⟩
    rw [String.empty_append]

/-- A report says under a name all of a set. -/
def Lists (format : OutputFormat) (p : Plan) (name : String) (s : BindingSet) : Prop :=
  ∃ t, (derived p).get? name = some t ∧ (∀ b ∈ s, b ∈ t) ∧ Text.Within (passage format name t) (derivedReport format p)

/-- A binding as it stands in a report. -/
def written (format : OutputFormat) (b : Binding) : String :=
  match format with
  | .text => b.text ++ "\n"
  | .json => b.toJson.prettyAt 2

theorem written_within_passage (format : OutputFormat) (name : String) {b : Binding} (h : b ∈ s) :
    Text.Within (written format b) (passage format name s) := by
  have hsorted : b ∈ s.sorted := BindingSet.mem_sorted.2 h
  cases format with
  | text =>
    refine (Text.within_join (List.mem_map.2 ⟨b, hsorted, rfl⟩)).trans ⟨"# " ++ name ++ "\n", "", ?_⟩
    rw [String.append_empty]
    rfl
  | json =>
    have hitem : b.toJson.prettyAt 2 ∈ Json.prettyItems 2 (s.sorted.map Binding.toJson) := by
      rw [Json.prettyItems_eq_map]
      exact List.mem_map_of_mem (List.mem_map_of_mem hsorted)
    refine (Json.within_block "[" "]" 1 hitem).trans ⟨Json.quote name ++ ": ", "", ?_⟩
    rw [String.append_empty]
    rfl

/-- Each binding of what is listed stands in the report. -/
theorem Lists.within (format : OutputFormat) (h : Lists format p name s) {b : Binding} (hb : b ∈ s) :
    Text.Within (written format b) (derivedReport format p) := by
  obtain ⟨t, _, hsub, hpassage⟩ := h
  exact (written_within_passage format name (hsub b hb)).trans hpassage

/-- A report says all that the nodes of a plan have given. -/
def Complete (format : OutputFormat) (p : Plan) : Prop := ∀ id name s, p.Derives id name s → Lists format p name s

/-- All that a node has given is listed exactly when the last node of its name has given it too. -/
theorem lists_iff (format : OutputFormat) (hs : p.Derives id name s) :
    Lists format p name s ↔
      ∀ id' t, p.Derives id' name t → (∀ i u, p.Derives i name u → i ≤ id') → ∀ b ∈ s, b ∈ t := by
  constructor
  · rintro ⟨u, hu, hsub, _⟩ id' t ht hlast
    rw [get?_derived.2 ⟨id', ht, hlast⟩] at hu
    cases hu
    exact hsub
  · intro h
    obtain ⟨id', t, ht, hlast⟩ := hs.exists_last
    have hget : (derived p).get? name = some t := get?_derived.2 ⟨id', ht, hlast⟩
    exact ⟨t, hget, h id' t ht hlast, passage_within format hget⟩

/-- Nothing is missing where each name is that of one node. -/
theorem complete_of_names_differ (format : OutputFormat)
    (h : ∀ id id' name s t, p.Derives id name s → p.Derives id' name t → id = id') : Complete format p := by
  intro id name s hs
  refine (lists_iff format hs).2 fun id' t ht _ b hb => ?_
  have hsame : s = t := by
    rw [← hs.output, ← ht.output, h id id' name s t hs ht]
  rwa [← hsame]

/-- A report is complete exactly when each node has given only what the last one of its name has given too. -/
theorem derivedReport_complete_iff (format : OutputFormat) (p : Plan) :
    Complete format p ↔ ∀ id id' name s t, p.Derives id name s → p.Derives id' name t →
      (∀ i u, p.Derives i name u → i ≤ id') → ∀ b ∈ s, b ∈ t := by
  constructor
  · exact fun h id id' name s t hs ht hlast => (lists_iff format hs).1 (h id name s hs) id' t ht hlast
  · exact fun h id name s hs => (lists_iff format hs).2 fun id' t ht hlast => h id id' name s t hs ht hlast

/-! ## Two rules of one name -/

/-- Whoever knows somebody is a person, and so is whoever somebody knows. -/
def acquaintances : Session :=
  ((Session.ofSettings .standard).load "?x <knows> ?y\n->\n?x a <Person>\n\n?y <knows> ?x\n->\n?x a <Person>\n").1

/-- Ann knows Bob. -/
def acquainted : Answer Plan :=
  acquaintances.publish roundLimit (.singleton ⟨.var ⟨"a"⟩, .iri "knows", .var ⟨"b"⟩⟩)
    (.ofList [.ofList [(⟨"a"⟩, .iri "ann"), (⟨"b"⟩, .iri "bob")]])

/-- The finding that someone is a person. -/
def foundPerson (name : String) : BindingSet := .singleton (.ofList [(⟨"x"⟩, .iri name)])

/-- The rules go by one name. The first has found that Ann is a person and the second that Bob is, but only Bob is
printed. -/
theorem acquainted_incomplete : ∃ p, acquainted.result = .ok p ∧
    p.Derives 1 "knows -> Person" (.singleton (.ofList [(⟨"x"⟩, .iri "ann")])) ∧
    p.Derives 2 "knows -> Person" (.singleton (.ofList [(⟨"x"⟩, .iri "bob")])) ∧
    derivedReport .text p = "# knows -> Person\n\x7b?x=<bob>\x7d\n" ∧
    derivedReport .json p =
      "\x7b\n  \"knows -> Person\": [\n    \x7b\n      \"x\": \"<bob>\"\n    \x7d\n  ]\n\x7d\n" ∧
    ∀ format, ¬ Complete format p := by
  have hrun : acquainted.result.toOption.map (fun p => (p.derived? 1, p.derived? 2, derived p)) =
      some (some ("knows -> Person", foundPerson "ann"), some ("knows -> Person", foundPerson "bob"),
        .ofList [("knows -> Person", foundPerson "bob")]) := by
    decide +kernel
  cases hresult : acquainted.result with
  | error e =>
    rw [hresult] at hrun
    cases hrun
  | ok p =>
    rw [hresult] at hrun
    obtain ⟨hfirst, hrest⟩ := Prod.mk.inj (Option.some.inj hrun)
    obtain ⟨hsecond, htable⟩ := Prod.mk.inj hrest
    have hann : p.Derives 1 "knows -> Person" (foundPerson "ann") := Plan.derived?_eq_some.1 hfirst
    refine ⟨p, rfl, hann, Plan.derived?_eq_some.1 hsecond, ?_, ?_, fun format h => ?_⟩
    · rw [derivedReport, htable]
      decide +kernel
    · rw [derivedReport, htable]
      decide +kernel
    · obtain ⟨t, ht, hsub, _⟩ := h 1 _ _ hann
      have hlast : (derived p).get? "knows -> Person" = some (foundPerson "bob") := by
        rw [htable]
        exact SortedMap.get?_insert_self _ _ _
      obtain rfl : foundPerson "bob" = t := Option.some.inj (hlast.symm.trans ht)
      exact absurd (hsub _ (List.mem_singleton_self _)) (by decide)

end CommandLine

end TripleChain
