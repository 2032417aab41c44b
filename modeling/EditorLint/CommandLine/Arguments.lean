import EditorLint.Settings.File

/-!
The arguments of the command line.
-/

namespace EditorLint.CommandLine

structure Arguments where
  settingsFile : String := settingsFileName
  configFile : Option String := none
  linter : Option String := none
  warnings : Bool := false
  fix : Bool := false
  json : Bool := false
  ignored : List String := ["**/node_modules/**", "**/node_modules"]
  paths : List String := ["."]
  deriving DecidableEq, Repr

inductive Refusal where
  | helpWanted
  | misuse
  deriving DecidableEq, Repr

def Refusal.status : Refusal → Nat
  | helpWanted => 0
  | misuse => 2

inductive ValueOption where
  | settings
  | config
  | linter
  | ignore
  deriving DecidableEq, Repr

inductive Flag where
  | warnings
  | fix
  | json
  deriving DecidableEq, Repr

inductive OptionName where
  | value (option : ValueOption)
  | flag (flag : Flag)
  | help
  deriving DecidableEq, Repr

def OptionName.ofText? : String → Option OptionName
  | "settings" => some (.value .settings)
  | "config" => some (.value .config)
  | "linter" => some (.value .linter)
  | "ignore" => some (.value .ignore)
  | "warnings" => some (.flag .warnings)
  | "fix" => some (.flag .fix)
  | "json" => some (.flag .json)
  | "help" => some .help
  | _ => none

/-- What was given so far. A list that was not given keeps its default. -/
structure Given where
  settingsFile : Option String := none
  configFile : Option String := none
  linter : Option String := none
  flags : List Flag := []
  ignored : List String := []
  paths : List String := []

namespace Given

def once {α : Type} (old : Option α) (value : α) : Except Refusal (Option α) :=
  if old.isSome then .error .misuse else .ok (some value)

def pathOnce (old : Option String) (value : String) : Except Refusal (Option String) :=
  if value.isEmpty then .error .misuse else once old value

def setValue (given : Given) (value : String) : ValueOption → Except Refusal Given
  | .settings => return { given with settingsFile := ← pathOnce given.settingsFile value }
  | .config => return { given with configFile := ← pathOnce given.configFile value }
  | .linter => return { given with linter := ← once given.linter value }
  | .ignore => return { given with ignored := given.ignored ++ value.splitOn "," }

def setFlag (given : Given) (flag : Flag) : Except Refusal Given :=
  if flag ∈ given.flags then .error .misuse
  else .ok { given with flags := flag :: given.flags }

def addPath (given : Given) (path : String) : Except Refusal Given :=
  if path.isEmpty then .error .misuse else .ok { given with paths := given.paths ++ [path] }

def toArguments (given : Given) : Arguments :=
  let defaults : Arguments := {}
  { settingsFile := given.settingsFile.getD defaults.settingsFile
    configFile := given.configFile
    linter := given.linter
    warnings := .warnings ∈ given.flags
    fix := .fix ∈ given.flags
    json := .json ∈ given.flags
    ignored := if given.ignored.isEmpty then defaults.ignored else given.ignored
    paths := if given.paths.isEmpty then defaults.paths else given.paths }

end Given

/-- Whether an argument is an option; a single dash is a path. -/
def looksLikeOption (argument : String) : Bool := argument.startsWith "-" && argument ≠ "-"

/-- The name of a long option, and the value that is attached to it. -/
def splitOption (argument : String) : String × Option String :=
  let body := argument.toList.drop 2
  let name := body.takeWhile (· ≠ '=')
  (String.ofList name, (body.drop name.length).tail?.map String.ofList)

/-- Reads arguments from left to right; the first thing that is wrong, or a call for help, ends
the reading. Behind two dashes there are only paths. -/
def readArguments (given : Given) : List String → Except Refusal Given
  | [] => .ok given
  | argument :: rest =>
    if argument = "--" then rest.foldlM Given.addPath given
    else if argument.startsWith "--" then
      match OptionName.ofText? (splitOption argument).1, (splitOption argument).2, rest with
      | some (.value option), some value, rest => do
        readArguments (← given.setValue value option) rest
      | some (.value option), none, value :: rest => do
        if looksLikeOption value then throw .misuse
        readArguments (← given.setValue value option) rest
      | some (.flag flag), none, rest => do readArguments (← given.setFlag flag) rest
      | some .help, none, _ => .error .helpWanted
      | _, _, _ => .error .misuse
    else if looksLikeOption argument then
      .error (if argument.startsWith "-h" then .helpWanted else .misuse)
    else do readArguments (← given.addPath argument) rest

def Arguments.read (arguments : List String) : Except Refusal Arguments :=
  (readArguments {} arguments).map Given.toArguments

/-- What is said when arguments are refused, and when help is wanted. -/
def usage : String := "\n".intercalate [
  "Run an external linter and apply its autofixes without overlapping edits.",
  "",
  "Usage: lintbridge [OPTIONS] [PATH]...",
  "",
  "Arguments:",
  "  [PATH]...  Files or directories to lint [default: .]",
  "",
  "Options:",
  "      --settings <SETTINGS>   Plugin settings file (YAML or JSON). Used when present [default: lintbridge.yml]",
  "      --config <FILE>         Linter configuration file, overriding \u0060configFile\u0060 from the settings",
  "      --linter <NAME>         Linter executable name, overriding \u0060linter\u0060 from the settings",
  "      --warnings              Report every rule failure as a warning",
  "      --fix                   Apply the non-overlapping autofix batch, repeating until nothing is left",
  "      --json                  Emit JSON output for automation",
  "      --ignore <GLOB[,GLOB]>  Glob patterns to skip (comma-separated) [default: **/node_modules/**,**/node_modules]",
  "  -h, --help                  Print help",
  ""]

end EditorLint.CommandLine
