import TripleChain.Settings.Choice
/-!
# Command line arguments

The arguments are options and the name of a command. Some options belong to a command, the others may stand
before or after it; of two such the one after it counts. An option is written `--name value` or
`--name=value`, and those with a letter also `-n value`, `-nvalue` or, if they take no value, together behind
one dash.
-/

namespace TripleChain.CommandLine

/-- Why arguments name nothing to do. -/
inductive Usage where
  /-- The arguments are wrong. -/
  | refused (message : String)
  /-- There are none. -/
  | missing
  /-- Help is asked for. -/
  | help
  /-- The version is asked for. -/
  | version
  deriving DecidableEq

/-- An option that is known. -/
structure OptionSpec where
  name : String
  letter : Option Char
  /-- Which values the option takes, if it takes any. -/
  accepts : Option (String → Bool)
  /-- Whether the option may be given more than once. -/
  repeatable : Bool

/-- The options given, each with its value; those that take none have an empty one. -/
abbrev Given := List (String × String)

namespace OptionSpec

def flag (name : String) (letter : Option Char) : OptionSpec := ⟨name, letter, none, false⟩

/-- An option with a value. -/
def valued (name : String) (letter : Option Char) (accepts : String → Bool) : OptionSpec :=
  ⟨name, letter, some accepts, false⟩

/-- Adds the option with a value to those given. -/
def give (o : OptionSpec) (value : String) (given : Given) : Except Usage Given :=
  if o.name = "help" then .error .help
  else if o.name = "version" then .error .version
  else if !o.repeatable && given.any (·.1 == o.name) then
    .error (.refused ("the option '--" ++ o.name ++ "' cannot be used multiple times"))
  else if o.accepts.any fun accepts => !accepts value then
    .error (.refused ("invalid value '" ++ value ++ "' for '--" ++ o.name ++ "'"))
  else .ok (given ++ [(o.name, value)])

end OptionSpec

def looksLikeOption (arg : String) : Bool := arg.toList.head? == some '-' && arg ≠ "-"

/-- Reads letters behind one dash. The last may be an option that waits for its value. -/
def readLetters (specs : List OptionSpec) (given : Given) :
    List Char → Except Usage (Given × Option OptionSpec)
  | [] => .ok (given, none)
  | c :: rest =>
    match specs.find? (·.letter == some c) with
    | none => .error (.refused ("unexpected option '-" ++ c.toString ++ "'"))
    | some o =>
      match o.accepts, rest with
      | none, _ => do readLetters specs (← o.give "" given) rest
      | some _, [] => .ok (given, some o)
      | some _, '=' :: value => (o.give (String.ofList value) given).map (·, none)
      | some _, value => (o.give (String.ofList value) given).map (·, none)

/-- Reads an option with its full name, which may have a value after an equals sign. -/
def readName (specs : List OptionSpec) (given : Given) (cs : List Char) :
    Except Usage (Given × Option OptionSpec) :=
  let name := String.ofList (cs.takeWhile (· != '='))
  match specs.find? (·.name == name), cs.dropWhile (· != '=') with
  | none, _ => .error (.refused ("unexpected option '--" ++ name ++ "'"))
  | some o, [] => if o.accepts.isSome then .ok (given, some o) else (o.give "" given).map (·, none)
  | some o, _ :: value =>
    if o.accepts.isSome then (o.give (String.ofList value) given).map (·, none)
    else .error (.refused ("unexpected value for '--" ++ name ++ "'"))

/-- Reads options up to the first argument that is none. Returned with the arguments from there on. -/
def readOptions (specs : List OptionSpec) (given : Given) : List String → Except Usage (Given × List String)
  | [] => .ok (given, [])
  | arg :: rest =>
    let read : Option (Except Usage (Given × Option OptionSpec)) :=
      match arg.toList with
      | ['-'] => none
      | '-' :: '-' :: name => some (readName specs given name)
      | '-' :: letters => some (readLetters specs given letters)
      | _ => none
    if arg = "--" then
      if rest.isEmpty then .ok (given, []) else .error (.refused "unexpected argument after '--'")
    else
      match read with
      | none => .ok (given, arg :: rest)
      | some (.error e) => .error e
      | some (.ok (given, none)) => readOptions specs given rest
      | some (.ok (given, some o)) =>
        match rest with
        | [] => .error (.refused ("a value is required for '--" ++ o.name ++ "'"))
        | value :: rest =>
          if looksLikeOption value then .error (.refused ("a value is required for '--" ++ o.name ++ "'"))
          else
            match o.give value given with
            | .error e => .error e
            | .ok given => readOptions specs given rest

/-! ## The options of this program -/

/-- What to do. -/
inductive Command where
  /-- Answer a goal. -/
  | query (rules : List String) (goal bindings : String) (showPlan : Bool)
  /-- Publish a premise. -/
  | forward (rules : List String) (premise bindings : String) (showPlan : Bool)
  /-- Draw the rules. -/
  | graph (rules : List String)
  /-- Show the settings: a file to start from, the profiles, or the settings in force. -/
  | config (init profiles : Bool)
  deriving DecidableEq

/-- The arguments of the program. -/
structure Arguments where
  command : Command
  /-- The file with the settings. -/
  config : Option String
  profile : Option String
  strategy : Option Strategy
  noTaskBoard : Bool
  format : Option OutputFormat
  verbose : Bool
  quiet : Bool
  deriving DecidableEq

def strategyNamed? (s : String) : Option Strategy := [Strategy.all, .biggest, .full].find? (·.name == s)

def formatNamed? (s : String) : Option OutputFormat := OutputFormat.all.find? (·.name == s)

def anyValue (_ : String) : Bool := true

def pathValue (s : String) : Bool := !s.isEmpty

/-- The options that go with every command. -/
def globalOptions : List OptionSpec :=
  [.valued "config" none pathValue, .valued "profile" none anyValue,
    .valued "strategy" none fun s => (strategyNamed? s).isSome,
    .flag "no-task-board" none, .valued "format" (some 'f') fun s => (formatNamed? s).isSome,
    .flag "verbose" (some 'v'), .flag "quiet" (some 'q'), .flag "help" (some 'h')]

def rulesOption : OptionSpec := ⟨"rules", none, some pathValue, true⟩

/-- The options of a command, if there is a command of the name. -/
def commandOptions? (name : String) : Option (List OptionSpec) :=
  match name with
  | "query" =>
    some [rulesOption, .valued "goal" none anyValue, .valued "bindings" none anyValue, .flag "show-plan" none]
  | "forward" =>
    some [rulesOption, .valued "premise" none anyValue, .valued "bindings" none anyValue, .flag "show-plan" none]
  | "graph" => some [rulesOption]
  | "config" => some [.flag "init" none, .flag "profiles" none]
  | _ => none

namespace Given

/-- The value of an option; of two the last. -/
def get? (g : Given) (name : String) : Option String := ((g.filter (·.1 == name)).map (·.2)).getLast?

def all (g : Given) (name : String) : List String := (g.filter (·.1 == name)).map (·.2)

def has (g : Given) (name : String) : Bool := g.any (·.1 == name)

/-- The value of an option that must be given. -/
def require (g : Given) (name : String) : Except Usage String :=
  match g.get? name with
  | some v => .ok v
  | none => .error (.refused ("the option '--" ++ name ++ "' is required"))

/-- The rule files, of which there must be one. -/
def rules (g : Given) : Except Usage (List String) := (g.require "rules").map fun _ => g.all "rules"

end Given

/-- The command of a name with its options. -/
def command (name : String) (g : Given) : Except Usage Command := do
  match name with
  | "query" =>
    return .query (← Given.rules g) (← Given.require g "goal") ((Given.get? g "bindings").getD "")
      (Given.has g "show-plan")
  | "forward" =>
    return .forward (← Given.rules g) (← Given.require g "premise") (← Given.require g "bindings")
      (Given.has g "show-plan")
  | "graph" => return .graph (← Given.rules g)
  | _ => return .config (Given.has g "init") (Given.has g "profiles")

/-- What `help` is asked about. -/
def readHelp : List String → Usage
  | [] => .help
  | [name] => if name = "help" || (commandOptions? name).isSome then .help else .refused "unrecognized command"
  | _ => .refused "unrecognized command"

/-- Reads the arguments of the program. -/
def readArguments (args : List String) : Except Usage Arguments := do
  let (before, rest) ← readOptions (globalOptions ++ [.flag "version" (some 'V')]) [] args
  match rest with
  | [] => .error (if before.isEmpty then .missing else .refused "a command is required")
  | name :: rest =>
    if name = "help" then .error (readHelp rest)
    else
      match commandOptions? name with
      | none => .error (.refused ("unrecognized command '" ++ name ++ "'"))
      | some own =>
        let (after, rest) ← readOptions (globalOptions ++ own) [] rest
        match rest with
        | arg :: _ => .error (.refused ("unexpected argument '" ++ arg ++ "'"))
        | [] =>
          -- What is given after the command comes last and so counts.
          let given := before ++ after
          return {
            command := ← command name after
            config := Given.get? given "config"
            profile := Given.get? given "profile"
            strategy := (Given.get? given "strategy").bind strategyNamed?
            noTaskBoard := Given.has given "no-task-board"
            format := (Given.get? given "format").bind formatNamed?
            verbose := Given.has given "verbose"
            quiet := Given.has given "quiet" }

/-- How to use the program. -/
def helpText : String :=
  "Backward and forward chaining rule engine over RDF triple patterns\n" ++
  "\n" ++
  "Usage: ke-reasoner [OPTIONS] <COMMAND>\n" ++
  "\n" ++
  "Commands:\n" ++
  "  query    Answer a goal pattern by backward chaining\n" ++
  "  forward  Push premise bindings through every rule that can consume them\n" ++
  "  graph    Print the rules and their dependencies as GraphViz\n" ++
  "  config   Print the effective configuration\n" ++
  "  help     Print this message or the help of the given subcommand(s)\n" ++
  "\n" ++
  "Options:\n" ++
  "      --config <FILE>        Configuration file (defaults to the standard search paths)\n" ++
  "      --profile <PROFILE>    Reasoning profile: default, strict, exhaustive, debug or a custom one\n" ++
  "      --strategy <STRATEGY>  How rule patterns are matched against each other " ++
    "[possible values: all, biggest, full]\n" ++
  "      --no-task-board        Invoke handlers inline instead of through the task board\n" ++
  "  -f, --format <FORMAT>      Output format [possible values: text, json]\n" ++
  "  -v, --verbose              Verbose output\n" ++
  "  -q, --quiet                Quiet mode (errors only)\n" ++
  "  -h, --help                 Print help (see more with '--help')\n" ++
  "  -V, --version              Print version\n"

end TripleChain.CommandLine
