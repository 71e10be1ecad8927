import TripleChain.CommandLine
/-!
# The program

Reads the files that the arguments ask for, and prints how the command line ends.
-/

open TripleChain TripleChain.CommandLine

/-- What a path leads to. -/
def readContent (path : String) : IO FileContent := do
  try
    return .text (← IO.FS.readFile path)
  catch
    | .noFileOrDirectory .. => return .missing
    | .userError _ => return .unreadable .invalidContent "stream did not contain valid UTF-8"
    | e => return .unreadable .other (toString e)

/-- The environment, with no files read yet. -/
def readSurroundings : IO Surroundings := do
  let home ← IO.getEnv "HOME"
  let configHome ← IO.getEnv "XDG_CONFIG_HOME"
  let configHome := match configHome with
    | some path => if path.startsWith "/" then some path else home.map (· ++ "/.config")
    | none => home.map (· ++ "/.config")
  let values ← Settings.variableKeys.mapM fun key => do
    return (key, ← IO.getEnv (Settings.variablePrefix ++ key))
  return {
    file := fun _ => .missing
    variableOf := fun key => ((values.find? (·.1 == key)).map (·.2)).join
    configHome
    home }

def printError (text : String) : IO Unit := do (← IO.getStderr).putStr text

/-- Carries out what the arguments ask for. -/
def performIO (a : Arguments) : IO UInt32 := do
  let w ← readSurroundings
  let contents ← (neededFiles w a).mapM fun path => do return (path, ← readContent path)
  let file (path : String) := ((contents.find? (·.1 == path)).map (·.2)).getD .missing
  match (perform { w with file } a).ending? with
  | some e =>
    printError e.errors
    IO.print e.output
    return e.status.toUInt32
  | none =>
    printError "The text cannot be quoted: its first twenty bytes end inside a character\n"
    return 101

def main (args : List String) : IO UInt32 := do
  match readArguments args with
  | .ok a => performIO a
  | .error .help =>
    IO.print helpText
    return 0
  | .error .version =>
    IO.println "ke-reasoner 0.1.0"
    return 0
  | .error .missing =>
    printError helpText
    return 2
  | .error (.refused message) =>
    printError ("error: " ++ message ++ "\n\nFor more information, try '--help'.\n")
    return 2
