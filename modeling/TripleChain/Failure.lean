import TripleChain.Failure.Code
import TripleChain.Json.Reader
import TripleChain.Data.SortedMap
import TripleChain.Grammar.Error
/-!
# Failures

A failure has a code and a message and may carry a context, which names what it is about, where it
was noticed and what caused it, and a hint. It is written as text for people and as JSON for programs;
`Failure.read` takes the JSON form back.
-/

open Std

namespace TripleChain

/-- What is known about a failure besides its message. -/
structure FailureContext where
  /-- What the failure is about, by name. -/
  fields : SortedMap String String
  /-- Where it was noticed. -/
  location : Option String
  /-- What caused it, first cause first. -/
  causes : List String
  deriving DecidableEq, Inhabited

def FailureContext.empty : FailureContext := ⟨∅, none, []⟩

/-- A failure of the library. -/
structure Failure where
  code : FailureCode
  message : String
  context : Option FailureContext
  /-- What may help. -/
  hint : Option String
  deriving DecidableEq, Inhabited

namespace Failure

def ofCode (code : FailureCode) (message : String) : Failure := ⟨code, message, none, none⟩

/-! ## Adding to a failure -/

def withCode (f : Failure) (code : FailureCode) : Failure := { f with code }

/-- Changes the context, which is empty to begin with. -/
def updateContext (f : Failure) (g : FailureContext → FailureContext) : Failure :=
  { f with context := some (g (f.context.getD .empty)) }

/-- Names something that the failure is about, in place of what had the name before. -/
def withField (f : Failure) (key value : String) : Failure :=
  f.updateContext fun c => { c with fields := c.fields.insert key value }

/-- Adds a cause after those before. -/
def withCause (f : Failure) (cause : String) : Failure :=
  f.updateContext fun c => { c with causes := c.causes ++ [cause] }

/-- Says where the failure was noticed. -/
def located (f : Failure) (location : String) : Failure :=
  f.updateContext fun c => { c with location := some location }

/-- Adds a hint, in place of the one before. -/
def withHint (f : Failure) (hint : String) : Failure := { f with hint := some hint }

def field? (f : Failure) (key : String) : Option String := f.context.bind fun c => c.fields.get? key

theorem field?_withField (f : Failure) (key value x : String) :
    (f.withField key value).field? x = if key = x then some value else f.field? x := by
  have h : compare key x = .eq ↔ key = x := Std.compare_eq_iff_eq
  cases hc : f.context
  · simp only [withField, field?, updateContext, hc, Option.getD_none, Option.bind_some, SortedMap.get?_insert, h]
    rfl
  · simp only [withField, field?, updateContext, hc, Option.getD_some, Option.bind_some, SortedMap.get?_insert, h]

/-! ## Particular failures -/

def parse (message : String) : Failure := ofCode .parseError message

def rule (message : String) : Failure := ofCode .ruleError message

/-- A rule has neither side. -/
def emptyRule : Failure :=
  ofCode .emptyRule "The antecedent and consequent of a rule cannot both be empty"

/-- No rule has the number. -/
def unknownRule (id : Nat) : Failure :=
  ofCode .unknownRule ("No rule with id " ++ toString id ++ " in the store")

def plan (message : String) : Failure := ofCode .planError message

def handler (message : String) : Failure := ofCode .handlerError message

/-- The antecedent does not bind a variable that the consequent needs. -/
def missingVariable (name : String) : Failure :=
  (ofCode .missingVariable <| "Not all variables in the consequent are available in the antecedent of the rule. " ++
    "This type of rule should use a custom handler").withField "variable" name

def validation (message : String) : Failure := ofCode .validationError message

def emptyInput (what : String) : Failure := ofCode .emptyInput (what ++ " cannot be empty")

def config (message : String) : Failure := ofCode .configError message

def internal (message : String) : Failure := ofCode .internalError message

/-- Why a file could not be read, as far as it matters here. -/
inductive FileFault where
  | notFound
  | invalidContent
  | other
  deriving DecidableEq

/-- A file could not be read. -/
def file (fault : FileFault) (message : String) : Failure :=
  match fault with
  | .notFound => ofCode .configNotFound message
  | .invalidContent => ofCode .invalidFormat message
  | .other => ofCode .internalError message

/-- A text was refused. -/
def ofTextError (e : Grammar.TextError) : Failure :=
  match e with
  | .malformed .. => ofCode .invalidPattern e.message
  | .undefinedPrefix _ => ofCode .undefinedPrefix e.message

def ofRuleFileError (e : Grammar.RuleFileError) : Failure := ofCode .invalidRuleFile e.message

/-! ## Written forms -/

/-- The failure for people: number and message, where it was noticed, its causes and the hint. -/
def text (f : Failure) : String :=
  let context := match f.context with
    | none => ""
    | some c =>
      let location := match c.location with
        | some l => " at " ++ l
        | none => ""
      let causes :=
        if c.causes.isEmpty then ""
        else "\nCaused by:" ++ String.join (c.causes.map ("\n  - " ++ ·))
      location ++ causes
  let hint := match f.hint with
    | some h => "\nHint: " ++ h
    | none => ""
  "[" ++ toString f.code.number ++ "] " ++ f.message ++ context ++ hint

/-- The parts of a context that are there. -/
def contextJson (c : FailureContext) : Json :=
  let fields := if c.fields.isEmpty then []
    else [("fields", Json.object (c.fields.entries.map fun (k, v) => (k, .string v)))]
  let location := match c.location with
    | some l => [("location", Json.string l)]
    | none => []
  let causes := if c.causes.isEmpty then [] else [("causes", Json.array (c.causes.map .string))]
  .object (fields ++ location ++ causes)

/-- The failure for programs. -/
def toJson (f : Failure) : Json :=
  let context := match f.context with
    | some c => [("context", contextJson c)]
    | none => []
  let hint := match f.hint with
    | some h => [("hint", Json.string h)]
    | none => []
  .object ([("code", .string f.code.name), ("message", .string f.message)] ++ context ++ hint)

/-! ## Reading -/

/-- The values of the named fields of a record, in the order of the names. A record is an object, in
which each name stands at most once and other names are passed over, or the array of the values. -/
def recordValues? (names : List String) : Json → Option (List (Option Json))
  | .object fields =>
    let valuesOf (name : String) := (fields.filter (·.1 == name)).map (·.2)
    if names.any fun n => (valuesOf n).length > 1 then none
    else some (names.map fun n => (valuesOf n).head?)
  | .array items =>
    if items.length > names.length then none
    else some (names.mapIdx fun i _ => items[i]?)
  | _ => none

/-- A string. -/
def readString? : Json → Option String
  | .string s => some s
  | _ => none

/-- A value that may be missing or null. -/
def readOptional? {α : Type} (read : Json → Option α) : Option Json → Option (Option α)
  | none | some .null => some none
  | some v => (read v).map some

/-- A value that may be missing but not null. -/
def readOr? {α : Type} (default : α) (read : Json → Option α) : Option Json → Option α
  | none => some default
  | some v => read v

/-- A code: its name, alone or as the one field of an object, with nothing in it. -/
def readCode? : Json → Option FailureCode
  | .string s => FailureCode.ofName? s
  | .object [(s, .null)] => FailureCode.ofName? s
  | _ => none

/-- The fields of a context: of two with one name the later counts. -/
def readFields? : Json → Option (SortedMap String String)
  | .object fields => (fields.mapM fun e => (readString? e.2).map (e.1, ·)).map .ofList
  | _ => none

/-- The causes of a context. -/
def readCauses? : Json → Option (List String)
  | .array items => items.mapM readString?
  | _ => none

/-- A context. -/
def readContext? (v : Json) : Option FailureContext := do
  match ← recordValues? ["fields", "location", "causes"] v with
  | [fields, location, causes] =>
    some ⟨← readOr? ∅ readFields? fields, ← readOptional? readString? location, ← readOr? [] readCauses? causes⟩
  | _ => none

/-- A failure with its code and message, context and hint if there are any. -/
def ofJson? (v : Json) : Option Failure := do
  match ← recordValues? ["code", "message", "context", "hint"] v with
  | [some code, some message, context, hint] =>
    some ⟨← readCode? code, ← readString? message, ← readOptional? readContext? context,
      ← readOptional? readString? hint⟩
  | _ => none

/-- The failure that a JSON text holds; otherwise the failure that it holds none. -/
def read (text : String) : Except Failure Failure :=
  match (Json.read? text).bind ofJson? with
  | some f => .ok f
  | none => .error ((ofCode .invalidFormat "The text is no JSON form of a failure").withField "format" "JSON")

end Failure

end TripleChain
