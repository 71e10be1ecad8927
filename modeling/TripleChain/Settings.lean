import TripleChain.Settings.Choice
import TripleChain.Failure
import TripleChain.Plan
/-!
# Settings

How answers are printed, how plans are built and run, which prefixes texts may use, and profiles that
change all of these under one name.
-/

namespace TripleChain

/-- A profile that the settings define: what it changes. -/
structure ProfileSettings where
  strategy : Option Strategy
  useTaskBoard : Option Bool
  largeBindingSetWarning : Option Nat
  logLevel : Option LogLevel
  /-- Further prefixes. -/
  prefixes : SortedMap String String
  description : Option String
  deriving DecidableEq

/-- All that can be set. -/
structure Settings where
  format : OutputFormat
  logLevel : LogLevel
  /-- The profile that was applied last. -/
  profile : Profile
  strategy : Strategy
  useTaskBoard : Bool
  largeBindingSetWarning : Nat
  /-- Prefixes besides the standard ones. -/
  prefixes : SortedMap String String
  /-- The profiles that the settings define. -/
  profiles : SortedMap String ProfileSettings
  deriving DecidableEq

/-- What can be wrong with settings. -/
inductive SettingsError where
  /-- A file cannot be read. -/
  | unreadable (path message : String)
  /-- A file does not hold settings. -/
  | malformed (path : String)
  /-- The settings cannot be written. -/
  | unwritable (message : String)
  | unknownProfile (name : String)
  /-- A variable of the environment has a value that is none. -/
  | invalidValue (key value : String)
  deriving DecidableEq

namespace SettingsError

def malformedDetail : String := "the contents are not settings"

/-- The wording. -/
def message : SettingsError → String
  | unreadable path message => "IO error reading " ++ path ++ ": " ++ message
  | malformed path => "Parse error in " ++ path ++ ": " ++ malformedDetail
  | unwritable message => "Serialization error: " ++ message
  | unknownProfile name => "Unknown profile: " ++ name
  | invalidValue key value => "Invalid value for " ++ key ++ ": " ++ value

/-- The code of the failure. -/
def code : SettingsError → FailureCode
  | unreadable .. => .configNotFound
  | malformed _ | unwritable _ => .invalidConfigSyntax
  | unknownProfile _ => .unknownProfile
  | invalidValue .. => .invalidConfigValue

/-- The file that cannot be used. -/
def path? : SettingsError → Option String
  | unreadable path _ | malformed path => some path
  | _ => none

/-- The error as a failure. -/
def toFailure (e : SettingsError) : Failure :=
  let f := Failure.ofCode e.code e.message
  match e.path? with
  | some path => f.withField "path" path
  | none => f

end SettingsError

def ProfileSettings.empty : ProfileSettings := ⟨none, none, none, none, ∅, none⟩

namespace Settings

def standard : Settings := ⟨.text, .normal, .default, .biggest, true, 300000, ∅, ∅⟩

instance : Inhabited Settings := ⟨standard⟩

def planOptions (s : Settings) : PlanOptions := ⟨s.strategy, s.useTaskBoard, s.largeBindingSetWarning⟩

def prefixTable (s : Settings) : Prefixes := Prefixes.standard.declareAll s.prefixes.entries

/-- Applies one of the built-in profiles. -/
def withProfile (s : Settings) (p : Profile) : Settings :=
  { s with
    profile := p
    strategy := p.strategy
    useTaskBoard := p != .debug
    logLevel := if p == .debug then .debug else s.logLevel }

/-- Applies a profile that is defined in the settings. -/
def withDefined (s : Settings) (p : ProfileSettings) : Settings :=
  { s with
    profile := .custom
    strategy := p.strategy.getD s.strategy
    useTaskBoard := p.useTaskBoard.getD s.useTaskBoard
    largeBindingSetWarning := p.largeBindingSetWarning.getD s.largeBindingSetWarning
    logLevel := p.logLevel.getD s.logLevel
    prefixes := s.prefixes.insertAll p.prefixes.entries }

/-- Applies a profile by name. Built-in names come before those defined. -/
def applyProfile (s : Settings) (name : String) : Except SettingsError Settings :=
  let defined := match s.profiles.get? name with
    | some p => .ok (s.withDefined p)
    | none => .error (.unknownProfile name)
  match Profile.ofName? name with
  | some p => if p = .custom then defined else .ok (s.withProfile p)
  | none => defined

/-- The profiles that can be applied, each with a few words: those built in, then those defined. -/
def availableProfiles (s : Settings) : List (String × String) :=
  (Profile.all.filter (· ≠ .custom)).map (fun p => (p.name, p.description)) ++
    s.profiles.entries.map fun (name, p) => (name, p.description.getD "Custom profile")

end Settings

end TripleChain
