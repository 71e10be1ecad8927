import TripleChain.Settings
/-!
# The environment

Variables of the environment override settings one by one. The profile goes first, so that the others
can refine it. Names of levels and forms that mean nothing are passed over; other values that mean nothing
are an error, and what was overridden before stays.
-/

namespace TripleChain.Settings

def variablePrefix : String := "KE_REASONER_"

/-- The settings after some variables, with the error at which the others were given up. -/
abbrev Overridden := Settings × Option SettingsError

/-- Overrides settings by one variable. `key` is its name without what all names start with. -/
def overrideBy (s : Settings) (key value : String) : Except SettingsError Settings :=
  let invalid := SettingsError.invalidValue (variablePrefix ++ key) value
  match key with
  | "PROFILE" => s.applyProfile value
  | "MATCH_STRATEGY" =>
    match Strategy.ofName? value with
    | some strategy => .ok { s with strategy }
    | none => .error invalid
  | "TASK_BOARD" => .ok { s with useTaskBoard := value == "true" || value == "1" || value == "yes" }
  | "LARGE_BINDING_SET_WARNING" =>
    match Decimal.readNat64? value with
    | some n => .ok { s with largeBindingSetWarning := n }
    | none => .error invalid
  | "LOG_LEVEL" => .ok { s with logLevel := (LogLevel.ofName? value).getD s.logLevel }
  | "FORMAT" => .ok { s with format := (OutputFormat.ofName? value).getD s.format }
  | _ => .ok s

/-- The variables in the order in which they count. -/
def variableKeys : List String :=
  ["PROFILE", "MATCH_STRATEGY", "TASK_BOARD", "LARGE_BINDING_SET_WARNING", "LOG_LEVEL", "FORMAT"]

/-- Overrides settings by those of the variables that are set. -/
def overrideAll (s : Settings) (valueOf : String → Option String) : List String → Overridden
  | [] => (s, none)
  | key :: rest =>
    match valueOf key with
    | none => s.overrideAll valueOf rest
    | some value =>
      match s.overrideBy key value with
      | .ok s => s.overrideAll valueOf rest
      | .error e => (s, some e)

/-- Overrides settings by the environment. -/
def override (s : Settings) (valueOf : String → Option String) : Overridden :=
  s.overrideAll valueOf variableKeys

end TripleChain.Settings
