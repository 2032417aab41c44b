import EditorLint.CommandLine.Arguments
import EditorLint.CommandLine.FileLint
import EditorLint.CommandLinter
import EditorLint.Json.Printer
import EditorLint.SourceFiles

/-!
The whole program: it reads arguments and settings, lints the files that they name one after the
other, and prints what was found, as text for people or as JSON.
-/

namespace EditorLint.CommandLine

open Json (Value)

/-! ## Output -/

def logLine (entry : LogEntry) : String :=
  match entry.level with
  | .info => "note: " ++ entry.message ++ "\n"
  | .error => "warning: " ++ entry.message ++ "\n"

/-- Everything but an error counts as a warning. -/
def severityLabel : Category → String
  | .error => "error"
  | _ => "warning"

def Problem.text (problem : Problem) : String :=
  "  " ++ toString problem.line ++ ":" ++ toString problem.column ++ "  "
    ++ severityLabel problem.severity ++ "  " ++ problem.message ++ "\n"

/-- A result for people; a file with nothing to say is passed over. -/
def FileResult.text (result : FileResult) : String :=
  if result.problems.isEmpty && result.fixed == 0 then ""
  else
    result.path ++ "\n"
      ++ (if result.fixed = 0 then ""
          else "  fixed " ++ toString result.fixed ++ " edit(s) applied\n")
      ++ String.join (result.problems.map Problem.text)

def categoryName : Category → String
  | .warning => "warning"
  | .error => "error"
  | .suggestion => "suggestion"
  | .message => "message"

def Problem.toValue (problem : Problem) : Value :=
  .object [
    ("line", .ofNat problem.line),
    ("column", .ofNat problem.column),
    ("severity", .string (categoryName problem.severity)),
    ("message", .string problem.message)]

def FileResult.toValue (result : FileResult) : Value :=
  .object [
    ("path", .string result.path),
    ("fixed", .ofNat result.fixed),
    ("problems", .array (result.problems.map Problem.toValue))]

def FileResult.hasError (result : FileResult) : Bool :=
  result.problems.any (·.severity == .error)

/-! ## Settings -/

/-- The settings of the settings file, where there is one, with what the arguments override. -/
def loadSettings (files : FileTree) (arguments : Arguments) : Except Failure Settings := do
  let settings ←
    if (files.find? arguments.settingsFile).isSome then
      match Settings.load files arguments.settingsFile with
      | .ok settings => pure settings
      | .error error =>
        .error ⟨"Failed to load settings " ++ arguments.settingsFile, error.message⟩
    else pure {}
  return { settings with
    configFile := arguments.configFile <|> settings.configFile
    linter := arguments.linter.getD settings.linter
    forceWarnings := arguments.warnings || settings.forceWarnings }

def readIgnored (arguments : Arguments) : Except Failure IgnoreSet :=
  match IgnoreSet.ofPatterns arguments.ignored with
  | .ok ignored => .ok ignored
  | .error message => .error ⟨message, "the pattern is not well formed"⟩

/-! ## Linting the files -/

variable {σ : Type}

/-- What linting a list of files has led to: the results up to the first failure, what was logged,
and the states after it. -/
structure Linted (σ : Type) where
  results : List FileResult := []
  failure : Option Failure := none
  logs : List LogEntry := []
  files : FileTree
  workspace : Workspace
  world : σ

/-- Lints files one after the other. A failure ends the run. -/
def lintFiles (engine : FileTree → Engine σ) (root : String) (fix : Bool) (files : FileTree)
    (workspace : Workspace) (world : σ) : List String → Linted σ
  | [] => { files, workspace, world }
  | path :: rest =>
    let lint := lintFile engine root path fix files workspace world
    match lint.result with
    | .error failure =>
      { failure := some failure, logs := lint.logs, files := lint.files,
        workspace := lint.workspace, world := lint.world }
    | .ok result =>
      let later := lintFiles engine root fix lint.files lint.workspace lint.world rest
      { later with results := result :: later.results, logs := lint.logs ++ later.logs }

/-- How the program ends: its exit status, what it prints, the files and the state after it. -/
structure Ending (σ : Type) where
  status : Nat
  output : String := ""
  errors : String := ""
  files : FileTree
  world : σ

/-- The ending of a run over files. The status says whether there was an error. -/
def endingOf (json : Bool) (linted : Linted σ) : Ending σ :=
  let logs := String.join (linted.logs.map logLine)
  let forPeople := if json then "" else String.join (linted.results.map FileResult.text)
  match linted.failure with
  | some failure =>
    { status := 1, output := forPeople, errors := logs ++ failure.text
      files := linted.files, world := linted.world }
  | none =>
    { status := if linted.results.any FileResult.hasError then 1 else 0
      output :=
        if json then (Value.array (linted.results.map FileResult.toValue)).pretty ++ "\n"
        else forPeople
      errors := logs, files := linted.files, world := linted.world }

structure Preparation where
  settings : Settings
  paths : List String

def prepare (files : FileTree) (arguments : Arguments) : Except Failure Preparation := do
  let settings ← loadSettings files arguments
  let ignored ← readIgnored arguments
  return { settings, paths := SourceFiles.collect files ignored.isMatch arguments.paths }

def run (arguments : List String) (managers : PackageManagers) (runner : Runner σ)
    (files : FileTree) (programs : σ) : Ending (LinterState σ) :=
  let world : LinterState σ := { programs }
  match Arguments.read arguments with
  | .error .helpWanted => { status := 0, output := usage, files, world }
  | .error .misuse => { status := 2, errors := usage, files, world }
  | .ok arguments =>
    match prepare files arguments with
    | .error failure => { status := 1, errors := failure.text, files, world }
    | .ok preparation =>
      let root := files.workingPath
      let linter : CommandLinter := ⟨preparation.settings.linter, .managed managers⟩
      let workspace : Workspace := { service := { settings := preparation.settings, root } }
      endingOf arguments.json
        (lintFiles (fun files => linter.lint files runner) root arguments.fix files workspace world
          preparation.paths)

end EditorLint.CommandLine
