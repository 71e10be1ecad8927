import TripleChain.Json.Reader
import Mathlib.Data.List.Basic
/-!
# Written JSON is read back

A text in quotes is read as the text that was quoted (`Json.readString?_escaped`), and the compact form of a value is
read as the value, whatever stands behind it (`Json.readValue?_compact`): items and fields are told from what follows
them by a comma or by the closing bracket. So no two values have one compact form (`Json.compact_inj`). Numbers are left
out: they are kept as they are written, and not every text is a number.
-/

namespace TripleChain.Json

variable {rest : List Char} {steps : Nat} {v w : Json} {items : List Json} {fields : List (String × Json)}

/-! ## Strings -/

theorem hexValue?_hexDigit : ∀ n < 16, hexValue? (hexDigit n) = some n := by decide

theorem readUnit?_hexDigits {n : Nat} (h : n < 32) (rest : List Char) :
    readUnit? ('0' :: '0' :: hexDigit (n / 16) :: hexDigit (n % 16) :: rest) = some (n, rest) := by
  have hhigh := hexValue?_hexDigit (n / 16) (by omega)
  have hlow := hexValue?_hexDigit (n % 16) (by omega)
  have hzero : hexValue? '0' = some 0 := rfl
  have hsum : ((0 * 16 + 0) * 16 + n / 16) * 16 + n % 16 = n := by omega
  simp only [readUnit?, hzero, hhigh, hlow, Option.bind_eq_bind, Option.bind_some, hsum]

/-- A control character is none of those that must come in pairs. -/
theorem readEscape?_hexDigits {c : Char} (h : c.toNat < 32) (rest : List Char) :
    readEscape? ('u' :: '0' :: '0' :: hexDigit (c.toNat / 16) :: hexDigit (c.toNat % 16) :: rest) = some (c, rest) := by
  have hhigh : ¬ (0xD800 ≤ c.toNat ∧ c.toNat < 0xDC00) := by omega
  have hlow : ¬ (0xDC00 ≤ c.toNat ∧ c.toNat < 0xE000) := by omega
  rw [readEscape?, readUnit?_hexDigits h]
  simp only [Option.bind_eq_bind, Option.bind_some, hhigh, hlow, if_false, Char.ofNat_toNat]

/-- A character stands for itself, or else for it stands an escape that is read as the character. -/
theorem escapeChar_cases (c : Char) : (escapeChar c = [c] ∧ c ≠ '"' ∧ c ≠ '\\' ∧ ¬ c.toNat < 32) ∨
    ∃ marks, escapeChar c = '\\' :: marks ∧ ∀ rest, readEscape? (marks ++ rest) = some (c, rest) := by
  unfold escapeChar
  split
  · next h => exact .inr ⟨['"'], rfl, fun rest => by rw [h]; rfl⟩
  split
  · next h => exact .inr ⟨['\\'], rfl, fun rest => by rw [h]; rfl⟩
  split
  · next h => exact .inr ⟨['n'], rfl, fun rest => h ▸ rfl⟩
  split
  · next h => exact .inr ⟨['r'], rfl, fun rest => h ▸ rfl⟩
  split
  · next h => exact .inr ⟨['t'], rfl, fun rest => h ▸ rfl⟩
  split
  · next h => exact .inr ⟨['b'], rfl, fun rest => h ▸ rfl⟩
  split
  · next h => exact .inr ⟨['f'], rfl, fun rest => h ▸ rfl⟩
  split
  · next h => exact .inr ⟨_, rfl, readEscape?_hexDigits h⟩
  · next hquote hback _ _ _ _ _ hcontrol => exact .inl ⟨rfl, hquote, hback, hcontrol⟩

/-- What has been escaped comes back, one character a step. -/
theorem readChars?_escaped (cs : List Char) (h : cs.length < steps) :
    readChars? steps (cs.flatMap escapeChar ++ '"' :: rest) = some (cs, rest) := by
  induction cs generalizing steps with
  | nil =>
    obtain ⟨n, rfl⟩ := Nat.exists_eq_add_one.2 h
    simp [readChars?]
  | cons c cs ih =>
    obtain ⟨n, rfl⟩ := Nat.exists_eq_add_one.2 (Nat.zero_lt_of_lt h)
    have hrest := ih (Nat.lt_of_succ_lt_succ h)
    rw [List.flatMap_cons, List.append_assoc]
    rcases escapeChar_cases c with ⟨hself, hquote, hback, hcontrol⟩ | ⟨marks, hmarks, hread⟩
    · simp [hself, readChars?, hquote, hback, hcontrol, hrest]
    · simp [hmarks, readChars?, hread, hrest]

theorem toList_quote (s : String) : (quote s).toList = '"' :: (s.toList.flatMap escapeChar ++ ['"']) := by
  rw [quote, String.toList_ofList]

theorem length_le_escaped (cs : List Char) : cs.length ≤ (cs.flatMap escapeChar).length := by
  induction cs with
  | nil => exact Nat.le_refl 0
  | cons c cs ih =>
    have hone : 1 ≤ (escapeChar c).length := by
      rcases escapeChar_cases c with ⟨hself, _⟩ | ⟨marks, hmarks, _⟩
      · simp [hself]
      · simp [hmarks]
    rw [List.flatMap_cons, List.length_append, List.length_cons]
    omega

theorem readString?_escaped (s : String) (rest : List Char) :
    readString? (s.toList.flatMap escapeChar ++ '"' :: rest) = some (s, rest) := by
  have hlength := length_le_escaped s.toList
  have hsteps : s.toList.length < (s.toList.flatMap escapeChar ++ '"' :: rest).length + 1 := by
    rw [List.length_append]
    omega
  rw [readString?, readChars?_escaped _ hsteps, Option.map_some, Option.some.injEq, Prod.mk.injEq]
  exact ⟨String.ofList_toList, rfl⟩

/-! ## Values without numbers -/

/-- The value holds no number. -/
inductive Numberless : Json → Prop
  | null : Numberless null
  | bool (b : Bool) : Numberless (bool b)
  | string (s : String) : Numberless (string s)
  | array {items : List Json} (h : ∀ v ∈ items, Numberless v) : Numberless (array items)
  | object {fields : List (String × Json)} (h : ∀ f ∈ fields, Numberless f.2) : Numberless (object fields)

/-! ## Items and fields -/

/-- The items of an array as they are written, with commas between. -/
def itemsText (items : List Json) : List Char := [','].intercalate (items.map (compact ·|>.toList))

/-- A field of an object as it is written. -/
def fieldText (f : String × Json) : List Char := (quote f.1).toList ++ ':' :: (compact f.2).toList

/-- The fields of an object as they are written, with commas between. -/
def fieldsText (fields : List (String × Json)) : List Char := [','].intercalate (fields.map fieldText)

theorem compactItems_eq_map (items : List Json) : compactItems items = items.map compact := by
  induction items with
  | nil => rfl
  | cons v items ih => rw [compactItems, ih, List.map_cons]

theorem compactFields_eq_map (fields : List (String × Json)) :
    compactFields fields = fields.map fun f => quote f.1 ++ ":" ++ compact f.2 := by
  induction fields with
  | nil => rfl
  | cons f fields ih => rw [compactFields, ih, List.map_cons]

theorem toList_compact_array (items : List Json) :
    (compact (array items)).toList = '[' :: (itemsText items ++ [']']) := by
  rw [compact, compactItems_eq_map, String.toList_append, String.toList_append, String.toList_intercalate, List.map_map]
  rfl

theorem toList_compact_object (fields : List (String × Json)) :
    (compact (object fields)).toList = '\x7b' :: (fieldsText fields ++ ['\x7d']) := by
  have hfield : (String.toList ∘ fun f : String × Json => quote f.1 ++ ":" ++ compact f.2) = fieldText := by
    funext f
    simp [fieldText]
  rw [compact, compactFields_eq_map, String.toList_append, String.toList_append, String.toList_intercalate,
    List.map_map, hfield]
  rfl

theorem itemsText_cons_cons (v w : Json) (items : List Json) :
    itemsText (v :: w :: items) = (compact v).toList ++ ',' :: itemsText (w :: items) := by
  simp [itemsText, List.intercalate]

theorem fieldsText_cons_cons (f g : String × Json) (fields : List (String × Json)) :
    fieldsText (f :: g :: fields) = fieldText f ++ ',' :: fieldsText (g :: fields) := by
  simp [fieldsText, List.intercalate]

theorem skipBlanks_cons {c : Char} (h : ¬ (c = ' ' ∨ c = '\t' ∨ c = '\n' ∨ c = '\r')) (cs : List Char) :
    skipBlanks (c :: cs) = c :: cs := by
  rw [skipBlanks, List.dropWhile_cons_of_neg (by simpa using h)]

/-- The first character of a value. -/
theorem exists_compact_cons {v : Json} (h : v.Numberless) :
    ∃ c cs, (compact v).toList = c :: cs ∧ ¬ (c = ' ' ∨ c = '\t' ∨ c = '\n' ∨ c = '\r') ∧ c ≠ ']' := by
  cases h with
  | null => exact ⟨'n', _, rfl, by decide, by decide⟩
  | bool b => cases b <;> exact ⟨_, _, rfl, by decide, by decide⟩
  | string s => exact ⟨'"', _, toList_quote s, by decide, by decide⟩
  | array => exact ⟨'[', _, toList_compact_array _, by decide, by decide⟩
  | object => exact ⟨'\x7b', _, toList_compact_object _, by decide, by decide⟩

/-- The value is read back, whatever stands behind it. -/
def ReadBack (v : Json) : Prop :=
  ∀ steps rest, (compact v).toList.length < steps → readValue? steps ((compact v).toList ++ rest) = some (v, rest)

/-- An item is the last one, or others come behind it. -/
theorem readItems?_item (rest : List Char) (hv : v.ReadBack) (h : (compact v).toList.length < steps) :
    readItems? (steps + 1) ((compact v).toList ++ ']' :: rest) = some ([v], rest) ∧
      readItems? (steps + 1) ((compact v).toList ++ ',' :: rest) =
        (readItems? steps rest).map fun e => (v :: e.1, e.2) := by
  constructor
  · rw [readItems?, hv steps _ h]
    rfl
  · rw [readItems?, hv steps _ h]
    rfl

theorem readItems?_itemsText (h : ∀ w ∈ v :: items, w.ReadBack) (hsteps : (itemsText (v :: items)).length + 1 < steps) :
    readItems? steps (itemsText (v :: items) ++ ']' :: rest) = some (v :: items, rest) := by
  induction items generalizing v steps with
  | nil =>
    obtain ⟨n, rfl⟩ := Nat.exists_eq_add_one.2 (Nat.zero_lt_of_lt hsteps)
    have hone : itemsText [v] = (compact v).toList := by simp [itemsText]
    rw [hone] at hsteps ⊢
    exact (readItems?_item rest (h v List.mem_cons_self) (Nat.lt_of_succ_lt_succ hsteps)).1
  | cons w items ih =>
    obtain ⟨n, rfl⟩ := Nat.exists_eq_add_one.2 (Nat.zero_lt_of_lt hsteps)
    rw [itemsText_cons_cons, List.length_append, List.length_cons] at hsteps
    have hlength : (compact v).toList.length < n := by omega
    have hitem := (readItems?_item (itemsText (w :: items) ++ ']' :: rest) (h v List.mem_cons_self) hlength).2
    have hrest : readItems? n (itemsText (w :: items) ++ ']' :: rest) = some (w :: items, rest) :=
      ih (fun u hu => h u (List.mem_cons_of_mem v hu)) (by omega)
    rw [itemsText_cons_cons, List.append_assoc, List.cons_append, hitem, hrest, Option.map_some]

/-- A field is the last one, or others come behind it. -/
theorem readFields?_field {f : String × Json} (rest : List Char) (hv : f.2.ReadBack)
    (h : (compact f.2).toList.length < steps) :
    readFields? (steps + 1) (fieldText f ++ '\x7d' :: rest) = some ([f], rest) ∧
      readFields? (steps + 1) (fieldText f ++ ',' :: rest) = (readFields? steps rest).map fun e => (f :: e.1, e.2) := by
  have hkey (tail : List Char) : fieldText f ++ tail =
      '"' :: (f.1.toList.flatMap escapeChar ++ '"' :: ':' :: ((compact f.2).toList ++ tail)) := by
    simp [fieldText, toList_quote]
  constructor
  · rw [hkey, readFields?, skipBlanks_cons (by decide)]
    simp only [readString?_escaped, Option.bind_eq_bind, Option.bind_some, skipBlanks_cons (c := ':') (by decide),
      hv steps _ h]
    rfl
  · rw [hkey, readFields?, skipBlanks_cons (by decide)]
    simp only [readString?_escaped, Option.bind_eq_bind, Option.bind_some, skipBlanks_cons (c := ':') (by decide),
      hv steps _ h]
    rfl

theorem length_lt_fieldText (f : String × Json) : (compact f.2).toList.length < (fieldText f).length := by
  rw [fieldText, List.length_append, List.length_cons]
  omega

theorem exists_fieldsText_cons (f : String × Json) (fields : List (String × Json)) :
    ∃ cs, fieldsText (f :: fields) = '"' :: cs := by
  cases fields with
  | nil => simp [fieldsText, fieldText, toList_quote]
  | cons g fields => simp [fieldsText_cons_cons, fieldText, toList_quote]

theorem readFields?_fieldsText {f : String × Json} (h : ∀ g ∈ f :: fields, g.2.ReadBack)
    (hsteps : (fieldsText (f :: fields)).length + 1 < steps) :
    readFields? steps (fieldsText (f :: fields) ++ '\x7d' :: rest) = some (f :: fields, rest) := by
  have hlength := length_lt_fieldText f
  induction fields generalizing f steps with
  | nil =>
    obtain ⟨n, rfl⟩ := Nat.exists_eq_add_one.2 (Nat.zero_lt_of_lt hsteps)
    have hone : fieldsText [f] = fieldText f := by simp [fieldsText]
    rw [hone] at hsteps ⊢
    exact (readFields?_field rest (h f List.mem_cons_self) (by omega)).1
  | cons g fields ih =>
    obtain ⟨n, rfl⟩ := Nat.exists_eq_add_one.2 (Nat.zero_lt_of_lt hsteps)
    rw [fieldsText_cons_cons, List.length_append, List.length_cons] at hsteps
    have hvalue : (compact f.2).toList.length < n := by omega
    have hfield := (readFields?_field (fieldsText (g :: fields) ++ '\x7d' :: rest) (h f List.mem_cons_self) hvalue).2
    have hrest : readFields? n (fieldsText (g :: fields) ++ '\x7d' :: rest) = some (g :: fields, rest) :=
      ih (fun u hu => h u (List.mem_cons_of_mem f hu)) (by omega) (length_lt_fieldText g)
    rw [fieldsText_cons_cons, List.append_assoc, List.cons_append, hfield, hrest, Option.map_some]

/-! ## Values -/

theorem exists_itemsText_cons (h : v.Numberless) (items : List Json) : ∃ c cs, itemsText (v :: items) = c :: cs ∧
    ¬ (c = ' ' ∨ c = '\t' ∨ c = '\n' ∨ c = '\r') ∧ c ≠ ']' := by
  obtain ⟨c, cs, hcs, hc⟩ := exists_compact_cons h
  cases items with
  | nil => exact ⟨c, cs, by simp [itemsText, hcs], hc⟩
  | cons w items =>
    exact ⟨c, cs ++ ',' :: itemsText (w :: items), by rw [itemsText_cons_cons, hcs, List.cons_append], hc⟩

theorem readBack_array (h : ∀ v ∈ items, v.Numberless) (hread : ∀ v ∈ items, v.ReadBack) : (array items).ReadBack := by
  intro steps rest hsteps
  obtain ⟨n, rfl⟩ := Nat.exists_eq_add_one.2 (Nat.zero_lt_of_lt hsteps)
  rw [toList_compact_array, List.length_cons, List.length_append, List.length_singleton] at hsteps
  rw [toList_compact_array, List.cons_append, List.append_assoc, readValue?, skipBlanks_cons (by decide)]
  cases items with
  | nil => rfl
  | cons v items =>
    obtain ⟨c, cs, hcs, hblank, hclose⟩ := exists_itemsText_cons (h v List.mem_cons_self) items
    have hitems : readItems? n (itemsText (v :: items) ++ ']' :: rest) = some (v :: items, rest) :=
      readItems?_itemsText hread (by omega)
    rw [hcs] at hitems ⊢
    simp only [List.cons_append, List.nil_append, skipBlanks_cons hblank] at hitems ⊢
    split
    · next heq => exact absurd (List.cons.inj heq).1 hclose
    · rw [hitems, Option.map_some]

theorem readBack_object (hread : ∀ f ∈ fields, f.2.ReadBack) : (object fields).ReadBack := by
  intro steps rest hsteps
  obtain ⟨n, rfl⟩ := Nat.exists_eq_add_one.2 (Nat.zero_lt_of_lt hsteps)
  rw [toList_compact_object, List.length_cons, List.length_append, List.length_singleton] at hsteps
  rw [toList_compact_object, List.cons_append, List.append_assoc, readValue?, skipBlanks_cons (by decide)]
  cases fields with
  | nil => rfl
  | cons f fields =>
    obtain ⟨cs, hcs⟩ := exists_fieldsText_cons f fields
    have hfields : readFields? n (fieldsText (f :: fields) ++ '\x7d' :: rest) = some (f :: fields, rest) :=
      readFields?_fieldsText hread (by omega)
    rw [hcs, List.cons_append] at hfields
    simp only [hcs, List.cons_append, List.nil_append, skipBlanks_cons (c := '"') (by decide)]
    exact (congrArg (Option.map fun e => (object e.1, e.2)) hfields).trans rfl

/-- A value without numbers is read back, whatever stands behind it. -/
theorem readValue?_compact (h : v.Numberless) : v.ReadBack := by
  induction h with
  | null =>
    intro steps rest hsteps
    obtain ⟨n, rfl⟩ := Nat.exists_eq_add_one.2 (Nat.zero_lt_of_lt hsteps)
    rfl
  | bool b =>
    intro steps rest hsteps
    obtain ⟨n, rfl⟩ := Nat.exists_eq_add_one.2 (Nat.zero_lt_of_lt hsteps)
    cases b <;> rfl
  | string s =>
    intro steps rest hsteps
    obtain ⟨n, rfl⟩ := Nat.exists_eq_add_one.2 (Nat.zero_lt_of_lt hsteps)
    rw [compact, toList_quote, List.cons_append, List.append_assoc, readValue?, skipBlanks_cons (by decide)]
    simp only [List.cons_append, List.nil_append, readString?_escaped, Option.map_some]
  | array h ih => exact readBack_array h ih
  | object h ih => exact readBack_object ih

/-- The compact form of a value without numbers is read as the value. -/
theorem read?_compact (h : v.Numberless) : read? (compact v) = some v := by
  have hread := readValue?_compact h (2 * (compact v).length + 2) [] (by rw [String.length_toList]; omega)
  rw [List.append_nil] at hread
  rw [read?, hread]
  rfl

/-- No two values have one compact form. -/
theorem compact_inj (hv : v.Numberless) (hw : w.Numberless) : compact v = compact w ↔ v = w := by
  constructor
  · intro h
    have hread := read?_compact hv
    rw [h, read?_compact hw] at hread
    exact (Option.some.inj hread).symm
  · exact congrArg compact

end TripleChain.Json
