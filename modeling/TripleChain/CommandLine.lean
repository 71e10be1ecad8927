import TripleChain.CommandLine.Arguments
import TripleChain.CommandLine.Report
import TripleChain.Plan.Text
import TripleChain.RuleStore.Graphviz
import TripleChain.Session
import TripleChain.Settings.Document
import TripleChain.Settings.Environment
/-!
# The command line

What the program prints and the status with which it ends, given its arguments, the contents of the files
that it reads and the environment. Settings come from a file, the environment and the options, in this
order.
-/

namespace TripleChain.CommandLine

/-- What a path leads to. -/
inductive FileContent where
  | text (s : String)
  | missing
  /-- The file is there but cannot be read as text. -/
  | unreadable (fault : Failure.FileFault) (message : String)

/-- What is around the program. -/
structure Surroundings where
  /-- What a path leads to. -/
  file : String → FileContent
  /-- The value of a variable of the environment, by its name without what all names start with. -/
  variableOf : String → Option String
  /-- Where the user keeps settings. -/
  configHome : Option String
  home : Option String

/-- How the program ends. -/
structure Ending where
  status : Nat
  output : String
  errors : String
  deriving DecidableEq, Inhabited

/-- Why a command is given up. -/
inductive Trouble where
  | settings (e : SettingsError)
  /-- A failure, and what the program was about. -/
  | failure (doing : Option String) (f : Failure)
  /-- The work did not come to an end. -/
  | unfinished

/-- The wording. -/
def Trouble.message : Trouble → String
  | settings e => e.message
  | failure none f => f.text
  | failure (some doing) f => doing ++ ": " ++ f.text
  | unfinished => "The plan did not come to an end"

/-- The status with which the program ends. -/
def Trouble.status : Trouble → Nat
  | failure _ f => f.code.exitStatus
  | _ => 1

/-- A command under way: what it has printed so far. -/
structure Printed where
  output : String
  errors : String
  deriving Inhabited

/-- The result of a command: printed in full, or given up after something has been printed. -/
inductive Result where
  | done (p : Printed)
  | trouble (p : Printed) (t : Trouble)
  /-- The report of a text that is no term breaks off. -/
  | brokenPreview

/-- What a step of a command gives, unless the command ends there. -/
abbrev Step (α : Type) := Except Result α

/-- Ends a command with an error, after something has been printed. -/
def stop {α : Type} (errors : String) (t : Trouble) : Step α := .error (.trouble ⟨"", errors⟩ t)

def missingFile : String := "No such file or directory (os error 2)"

/-- More rounds than the copying rules of any rule file need. -/
def roundLimit : Nat := 1000000000

/-! ## Settings -/

/-- Where settings are looked for. -/
def settingsPaths (w : Surroundings) : List String :=
  ["./ke-reasoner.toml"] ++ (w.configHome.map (· ++ "/ke-reasoner/config.toml")).toList ++
    (w.home.map (· ++ "/.ke-reasoner/config.toml")).toList ++ ["/etc/ke-reasoner/config.toml"]

/-- The settings in a file. -/
def settingsIn (w : Surroundings) (path : String) : Except SettingsError Settings :=
  match w.file path with
  | .text s => Settings.read path s
  | .missing => .error (.unreadable path missingFile)
  | .unreadable _ message => .error (.unreadable path message)

/-- True when a path leads somewhere. -/
def Surroundings.has (w : Surroundings) (path : String) : Bool :=
  match w.file path with
  | .missing => false
  | _ => true

/-- The settings in the first file that is there, overridden by the environment. -/
def foundSettings (w : Surroundings) : Except SettingsError Settings := do
  let s ← match (settingsPaths w).find? w.has with
    | some path => settingsIn w path
    | none => .ok .standard
  match s.override w.variableOf with
  | (s, none) => return s
  | (_, some e) => .error e

/-- The settings that the options ask for. -/
def Arguments.refine (a : Arguments) (s : Settings) : Except SettingsError Settings := do
  let s ← match a.profile with
    | some name => s.applyProfile name
    | none => .ok s
  return { s with
    strategy := a.strategy.getD s.strategy
    useTaskBoard := s.useTaskBoard && !a.noTaskBoard
    format := a.format.getD s.format
    logLevel := if a.quiet then .quiet else if a.verbose then .verbose else s.logLevel }

/-- The settings in force. The environment does not count for a file that is named. -/
def settingsFor (w : Surroundings) (a : Arguments) : Except SettingsError Settings := do
  let s ← match a.config with
    | some path => settingsIn w path
    | none => foundSettings w
  a.refine s

/-! ## Commands -/

/-- Goes on unless the reading of a text has failed. -/
def reading {α : Type} (doing : String) : Except (Grammar.Halt Failure) α → Step α
  | .ok a => .ok a
  | .error (.report f) => stop "" (.failure (some doing) f)
  | .error .brokenPreview => .error .brokenPreview

/-- Goes on unless something has failed. -/
def working {α : Type} (errors : String) : Except Failure α → Step α
  | .ok a => .ok a
  | .error f => stop errors (.failure none f)

/-- Goes on unless a run has failed. -/
def running {α : Type} : Except RunError α → Step α
  | .ok a => .ok a
  | .error (.refused f) => stop "" (.failure none f)
  | .error .outOfRounds => stop "" .unfinished

/-- Adds the rules of a file. -/
def loadFile (w : Surroundings) (s : Session) (path : String) : Step Session :=
  let doing := "Failed to load rules: " ++ path
  let failed {α : Type} (fault : Failure.FileFault) (message : String) : Step α :=
    stop "" (.failure (some doing) ((Failure.file fault message).withField "path" path))
  match w.file path with
  | .missing => failed .notFound missingFile
  | .unreadable fault message => failed fault message
  | .text text =>
    match s.load text with
    | (s, .ok _) => .ok s
    | (_, .error e) => reading doing (.error e)

/-- The session of some settings with the rules of some files. -/
def loadFiles (w : Surroundings) (settings : Settings) (paths : List String) : Step Session :=
  paths.foldlM (loadFile w) (.ofSettings settings)

/-- What a plan looks like, if it is to be shown. -/
def shown (showPlan : Bool) (p : Plan) : String := if showPlan then p.text else ""

/-- Answers a goal. -/
def query (w : Surroundings) (settings : Settings) (rules : List String)
    (goal bindings : String) (showPlan : Bool) : Step Printed := do
  let s ← loadFiles w settings rules
  let goal ← reading "Invalid goal pattern" (s.parsePattern goal)
  let bindings ← reading "Invalid bindings" (s.parseBindings bindings)
  let plan ← working "" (s.backwardPlan goal).2
  let plan ← running (plan.run roundLimit bindings)
  let errors := shown showPlan plan
  let results ← working errors plan.results
  return ⟨answersReport settings.format results, errors⟩

/-- Publishes a premise. -/
def forward (w : Surroundings) (settings : Settings) (rules : List String)
    (premise bindings : String) (showPlan : Bool) : Step Printed := do
  let s ← loadFiles w settings rules
  let premise ← reading "Invalid premise pattern" (s.parsePattern premise)
  let bindings ← reading "Invalid bindings" (s.parseBindings bindings)
  let plan ← running (s.publish roundLimit premise bindings).result
  return ⟨derivedReport settings.format plan, shown showPlan plan⟩

/-- Draws the rules. -/
def graph (w : Surroundings) (settings : Settings) (rules : List String) : Step Printed := do
  let s ← loadFiles w settings rules
  return ⟨s.store.graphviz settings.strategy ++ "\n", ""⟩

/-- Shows settings. -/
def config (settings : Settings) (init profiles : Bool) : Step Printed :=
  if init then .ok ⟨Settings.template, ""⟩
  else if profiles then .ok ⟨profilesReport settings.availableProfiles, ""⟩
  else
    match settings.write with
    | .ok text => .ok ⟨text, ""⟩
    | .error e => stop "" (.settings e)

/-- Carries out a command. -/
def perform (w : Surroundings) (a : Arguments) : Result :=
  match settingsFor w a with
  | .error e => .trouble ⟨"", ""⟩ (.settings e)
  | .ok settings =>
    let printed := match a.command with
      | .query rules goal bindings showPlan => query w settings rules goal bindings showPlan
      | .forward rules premise bindings showPlan => forward w settings rules premise bindings showPlan
      | .graph rules => graph w settings rules
      | .config init profiles => config settings init profiles
    match printed with
    | .ok p => .done p
    | .error r => r

/-- How the program ends after a command; none when it breaks off. -/
def Result.ending? : Result → Option Ending
  | done p => some ⟨0, p.output, p.errors⟩
  | trouble p t => some ⟨t.status, p.output, p.errors ++ "Error: " ++ t.message ++ "\n"⟩
  | brokenPreview => none

/-- The files that a command may read. -/
def neededFiles (w : Surroundings) (a : Arguments) : List String :=
  let rules := match a.command with
    | .query rules .. | .forward rules .. | .graph rules => rules
    | .config .. => []
  (match a.config with
    | some path => [path]
    | none => settingsPaths w) ++ rules

end TripleChain.CommandLine
