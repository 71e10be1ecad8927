import TripleChain.Settings
import TripleChain.Toml.Reader
/-!
# Settings files

Settings are kept as a TOML document with a table for each part. What a document leaves out has its
standard value, and what it says besides is passed over; but each name that is known must have a value of
its kind.
-/

namespace TripleChain.Settings

open Toml (Scalar Document)

/-! ## Reading -/

/-- The value of a key in a table, if there is one; none at all when the key names a table instead. -/
def lookUp? (d : Document) (path : List String) (key : String) : Option (Option Scalar) :=
  if d.hasTable (path ++ [key]) then none
  else some (((d.entriesOf path).find? (·.1 == key)).map (·.2))

/-- A value that may be missing, read as something. -/
def readOptional? {α : Type} (read : Scalar → Option α) (d : Document) (path : List String) (key : String) :
    Option (Option α) := do
  match ← lookUp? d path key with
  | none => some none
  | some v => (read v).map some

/-- One of some choices, by its own name. -/
def readChoice? {α : Type} (name : α → String) (all : List α) : Scalar → Option α
  | .string s => all.find? (name · == s)
  | _ => none

/-- A string. -/
def readString? : Scalar → Option String
  | .string s => some s
  | _ => none

/-- A truth value. -/
def readBool? : Scalar → Option Bool
  | .boolean b => some b
  | _ => none

/-- A number that is not negative. -/
def readNat? : Scalar → Option Nat
  | .integer n => if 0 ≤ n then some n.toNat else none
  | _ => none

def readStrategy? : Scalar → Option Strategy := readChoice? Strategy.name [.all, .biggest, .full]

def readLogLevel? : Scalar → Option LogLevel := readChoice? LogLevel.name LogLevel.all

/-- A table of strings. -/
def readStrings? (d : Document) (path : List String) : Option (SortedMap String String) :=
  if (d.tablesIn path).isEmpty then
    ((d.entriesOf path).mapM fun e => (readString? e.2).map (e.1, ·)).map .ofList
  else none

/-- True when none of the names, which stand for tables, has a value that is none. -/
def areTables (d : Document) (path names : List String) : Bool :=
  (d.entriesOf path).all fun e => !names.contains e.1

/-- The definition of a profile. -/
def readProfile? (d : Document) (name : String) : Option ProfileSettings := do
  let path := ["profiles", name]
  if areTables d path ["prefixes"] then
    some {
      strategy := ← readOptional? readStrategy? d path "match_strategy"
      useTaskBoard := ← readOptional? readBool? d path "use_task_board"
      largeBindingSetWarning := ← readOptional? readNat? d path "large_binding_set_warning"
      logLevel := ← readOptional? readLogLevel? d path "log_level"
      prefixes := ← readStrings? d (path ++ ["prefixes"])
      description := ← readOptional? readString? d path "description" }
  else none

/-- The settings in a document. -/
def ofDocument? (d : Document) : Option Settings := do
  let base := standard
  if areTables d [] ["general", "reasoning", "prefixes", "profiles"] && (d.entriesOf ["profiles"]).isEmpty then
    -- What is left out keeps its standard value.
    let format ← readOptional? (readChoice? OutputFormat.name OutputFormat.all) d ["general"] "format"
    let logLevel ← readOptional? readLogLevel? d ["general"] "log_level"
    let profile ← readOptional? (readChoice? Profile.name Profile.all) d ["reasoning"] "profile"
    let strategy ← readOptional? readStrategy? d ["reasoning"] "match_strategy"
    let useTaskBoard ← readOptional? readBool? d ["reasoning"] "use_task_board"
    let warning ← readOptional? readNat? d ["reasoning"] "large_binding_set_warning"
    let prefixes ← readStrings? d ["prefixes"]
    let profiles ← (d.tablesIn ["profiles"]).mapM fun name => (readProfile? d name).map (name, ·)
    some {
      format := format.getD base.format
      logLevel := logLevel.getD base.logLevel
      profile := profile.getD base.profile
      strategy := strategy.getD base.strategy
      useTaskBoard := useTaskBoard.getD base.useTaskBoard
      largeBindingSetWarning := warning.getD base.largeBindingSetWarning
      prefixes
      profiles := .ofList profiles }
  else none

/-- Reads settings from the contents of the file with the given path. -/
def read (path content : String) : Except SettingsError Settings :=
  match (Toml.read? content).bind ofDocument? with
  | some s => .ok s
  | none => .error (.malformed path)

/-! ## Writing -/

/-- A number that fits into a signed word of 64 bits. -/
def writeNat (n : Nat) : Except SettingsError Scalar :=
  if Decimal.isInt64 n then .ok (.integer n) else .error (.unwritable "out-of-range value for u64 type")

/-- The entry of a value that is there. -/
def entry {α : Type} (key : String) (write : α → Scalar) (v : Option α) : List (String × Scalar) :=
  match v with
  | some v => [(key, write v)]
  | none => []

/-- A table of strings. -/
def writeStrings (m : SortedMap String String) : List (String × Scalar) :=
  m.entries.map fun (k, v) => (k, .string v)

/-- The tables of a profile. One without values of its own has no table but that of its prefixes. -/
def writeProfile (name : String) (p : ProfileSettings) : Except SettingsError Document := do
  let path := ["profiles", name]
  let warning ← p.largeBindingSetWarning.mapM writeNat
  let entries :=
    entry "match_strategy" (fun s => .string (Strategy.name s)) p.strategy ++
    entry "use_task_board" .boolean p.useTaskBoard ++
    entry "large_binding_set_warning" id warning ++
    entry "log_level" (fun l => .string (LogLevel.name l)) p.logLevel ++
    entry "description" .string p.description
  let own := if entries.isEmpty then [] else [⟨path, entries⟩]
  return own ++ [⟨path ++ ["prefixes"], writeStrings p.prefixes⟩]

/-- The settings as a document. -/
def toDocument (s : Settings) : Except SettingsError Document := do
  let warning ← writeNat s.largeBindingSetWarning
  let profiles ← s.profiles.entries.mapM fun (name, p) => writeProfile name p
  return [
    ⟨["general"], [("format", .string s.format.name), ("log_level", .string s.logLevel.name)]⟩,
    ⟨["reasoning"], [("profile", .string s.profile.name), ("match_strategy", .string s.strategy.name),
      ("use_task_board", .boolean s.useTaskBoard), ("large_binding_set_warning", warning)]⟩,
    ⟨["prefixes"], writeStrings s.prefixes⟩] ++
    (if profiles.isEmpty then [⟨["profiles"], []⟩] else profiles.flatten)

def write (s : Settings) : Except SettingsError String := s.toDocument.map Document.text

/-- A file with the standard settings and a word on each. -/
def template : String :=
  "# ke-reasoner configuration file\n" ++
  "\n" ++
  "[general]\n" ++
  "# Result output format: text, json\n" ++
  "format = \"text\"\n" ++
  "# Logging level: quiet, normal, verbose, debug\n" ++
  "log_level = \"normal\"\n" ++
  "\n" ++
  "[reasoning]\n" ++
  "# Profile: default, strict, exhaustive, debug\n" ++
  "profile = \"default\"\n" ++
  "# Match strategy: all, biggest, full\n" ++
  "match_strategy = \"biggest\"\n" ++
  "# Dispatch handlers through the task board (false calls them inline)\n" ++
  "use_task_board = true\n" ++
  "# Warn when combining binding sets produces more bindings than this\n" ++
  "large_binding_set_warning = 300000\n" ++
  "\n" ++
  "[prefixes]\n" ++
  "# ex = \"http://example.org/\"\n" ++
  "# saref = \"https://saref.etsi.org/core/\"\n" ++
  "\n" ++
  "# Custom profiles can be defined like this:\n" ++
  "# [profiles.sensors]\n" ++
  "# match_strategy = \"full\"\n" ++
  "# use_task_board = false\n" ++
  "# description = \"Sensor rules only chain on complete matches\"\n" ++
  "# [profiles.sensors.prefixes]\n" ++
  "# s = \"http://example.org/sensors#\"\n"

end TripleChain.Settings
