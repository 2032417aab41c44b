import EditorLint.Engine
import EditorLint.Resolution

/-!
A linter that is run as a program: it reads the document from its standard input and prints a
report in JSON.
-/

namespace EditorLint

/-- The state of a command linter: what was resolved, and the state of the programs. -/
structure LinterState (σ : Type) where
  cache : ResolutionCache := {}
  programs : σ

structure CommandLinter where
  name : String
  globals : GlobalDirectories

namespace CommandLinter

variable {σ : Type}

def arguments (call : LintCall) : List String :=
  ["--stdin", "--stdin-filename", call.file, "--format", "json"]
    ++ (call.configFile.map fun config => ["--config", config]).getD []

/-- Whether a program can be started. Its path and its directory must lead to what they name,
the path from within the directory, and no argument may hold a zero. -/
def canStart (files : FileTree) (invocation : Invocation) : Bool :=
  let inside := if invocation.directory.isEmpty then some files
    else
      (files.resolve invocation.directory).bind fun names =>
        match files.root.at? names with
        | some (.directory _) => some { files with workingDirectory := names }
        | _ => none
  inside.any (·.isExecutable invocation.program)
    && invocation.arguments.all fun argument => argument.toList.all (· ≠ '\x00')

def statusText : Option Nat → String
  | some status => "Some(" ++ toString status ++ ")"
  | none => "None"

/-- The report of a program that has ended. The status 1 only says that there are findings; a
run that ends in any other way than 0 or 1, or prints nothing, has failed. -/
def reportOf (program : String) (completion : Completion) : Except LintError Report :=
  if completion.status ∉ [some 0, some 1] || Text.isBlankText completion.output then
    .error (.engine (program ++ " exited with " ++ statusText completion.status ++ ": "
      ++ Text.trim completion.errors))
  else Report.read completion.output

/-- Resolves the linter for the directory of a call, and runs it. -/
def lint (linter : CommandLinter) (files : FileTree) (run : Runner σ) : Engine (LinterState σ) :=
  fun call state =>
    match Resolution.resolve files linter.globals linter.name [call.directory] state.cache with
    | (none, cache) => (.error (.moduleNotFound linter.name), { state with cache })
    | (some program, cache) =>
      let invocation : Invocation :=
        { program, arguments := arguments call, directory := call.directory, input := call.text }
      if canStart files invocation then
        let (completion, programs) := run invocation state.programs
        (reportOf program completion, { cache, programs })
      else (.error .io, { state with cache })

end CommandLinter

end EditorLint
