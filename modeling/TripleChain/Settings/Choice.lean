import TripleChain.Strategy
/-!
# Choices

What can be chosen in the settings by name: the form of the output, how much is logged and the built-in
profile. Names are taken in any case, and each choice has a name of its own that is written back.
-/

namespace TripleChain

/-- The form in which answers are printed. -/
inductive OutputFormat where
  | text
  | json
  deriving DecidableEq, Inhabited

namespace OutputFormat

/-- The name of the form. -/
def name : OutputFormat → String
  | text => "text"
  | json => "json"

def all : List OutputFormat := [text, json]

/-- The form of one of its names. -/
def ofName? (s : String) : Option OutputFormat :=
  match Text.lowercase s with
  | "text" | "txt" | "plain" => some text
  | "json" => some json
  | _ => none

end OutputFormat

/-- How much is logged. -/
inductive LogLevel where
  | quiet
  | normal
  | verbose
  | debug
  deriving DecidableEq

instance : Inhabited LogLevel := ⟨.normal⟩

namespace LogLevel

/-- The name of the level. -/
def name : LogLevel → String
  | quiet => "quiet"
  | normal => "normal"
  | verbose => "verbose"
  | debug => "debug"

def all : List LogLevel := [quiet, normal, verbose, debug]

/-- The level of one of its names. -/
def ofName? (s : String) : Option LogLevel :=
  match Text.lowercase s with
  | "quiet" | "q" | "0" => some quiet
  | "normal" | "n" | "1" => some normal
  | "verbose" | "v" | "2" => some verbose
  | "debug" | "d" | "3" => some debug
  | _ => none

/-- The least severe messages that are logged. -/
def directive : LogLevel → String
  | quiet => "error"
  | normal => "warn"
  | verbose => "info"
  | debug => "debug"

end LogLevel

/-- The profiles that need no definition, and the one that stands for all that do. -/
inductive Profile where
  | default
  | strict
  | exhaustive
  | debug
  | custom
  deriving DecidableEq, Inhabited

namespace Profile

/-- The name of the profile. -/
def name : Profile → String
  | default => "default"
  | strict => "strict"
  | exhaustive => "exhaustive"
  | debug => "debug"
  | custom => "custom"

def all : List Profile := [default, strict, exhaustive, debug, custom]

/-- The profile of one of its names. -/
def ofName? (s : String) : Option Profile :=
  match Text.lowercase s with
  | "default" | "" => some default
  | "strict" | "full" => some strict
  | "exhaustive" | "all" => some exhaustive
  | "debug" => some debug
  | "custom" => some custom
  | _ => none

/-- The strategy that the profile selects. -/
def strategy : Profile → Strategy
  | strict => .full
  | exhaustive => .all
  | _ => .biggest

/-- A few words on the profile. -/
def description : Profile → String
  | default => "Biggest matches, handlers dispatched through the task board"
  | strict => "Only chain rules whose patterns match completely"
  | exhaustive => "Chain over every partial match"
  | debug => "Inline handler calls with debug logging"
  | custom => "User-defined profile"

end Profile

end TripleChain
