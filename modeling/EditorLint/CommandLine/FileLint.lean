import EditorLint.CommandLine.Failure
import EditorLint.Edit.Application
import EditorLint.FileTree
import EditorLint.Service

/-!
Linting one file, and writing the fixes of the linter into it. Each pass applies the batch of
fixes to the text that the linter saw last and lints the result; the file is written only when
every pass has succeeded.
-/

namespace EditorLint.CommandLine

structure Problem where
  line : Nat
  column : Nat
  severity : Category
  message : String
  deriving DecidableEq, Repr

structure FileResult where
  path : String
  fixed : Nat
  problems : List Problem
  deriving DecidableEq, Repr

structure Workspace where
  documents : InsertionMap String LineTable := {}
  service : Service

namespace Workspace

def host (workspace : Workspace) : Host := Host.ofDocuments workspace.documents.find?

def setText (workspace : Workspace) (file text : String) : Workspace :=
  { workspace with documents := workspace.documents.insert file (LineTable.ofText text) }

/-- Closes a document and forgets what was found in it. -/
def close (workspace : Workspace) (file : String) : Workspace :=
  { documents := workspace.documents.erase file, service := workspace.service.forget file }

def location (workspace : Workspace) (file : String) (offset : Nat) : Option (Nat × Nat) :=
  (workspace.documents.find? file).map fun table =>
    let (line, character) := table.positionAt offset
    (line + 1, character + 1)

end Workspace

/-- What passes of fixing have led to: the number of edits applied, and the diagnostics of the
text that they made. -/
structure FixOutcome where
  fixed : Nat
  diagnostics : List Diagnostic
  deriving DecidableEq, Repr

/-- How often the fixes of a file are applied at most. -/
def maxFixPasses : Nat := 10

variable {σ : Type}

/-- One pass: applies the batch to the document and lints the result. -/
def fixPass (engine : Engine σ) (file : String) (edits : List Edit) (workspace : Workspace)
    (world : σ) : Except LintError (List Diagnostic) × Workspace × σ :=
  match workspace.host.sourceText file with
  | none => (.error (.unknownFile file), workspace, world)
  | some current =>
    match Edit.applyAll current edits with
    | .error error => (.error error, workspace, world)
    | .ok text =>
      let workspace := workspace.setText file text
      let (found, service, world) :=
        workspace.service.recompute workspace.host engine file world
      (found.map (workspace.host.semanticDiagnostics file ++ ·), { workspace with service }, world)

/-- Passes until no fix is left, at most as many as are given. -/
def fixPasses (engine : Engine σ) (file : String) :
    Nat → Option FixOutcome → Workspace → σ →
      Except LintError (Option FixOutcome) × Workspace × σ
  | 0, outcome, workspace, world => (.ok outcome, workspace, world)
  | passes + 1, outcome, workspace, world =>
    let edits := workspace.service.fixAllEdits file
    if edits.isEmpty then (.ok outcome, workspace, world)
    else
      match fixPass engine file edits workspace world with
      | (.error error, workspace, world) => (.error error, workspace, world)
      | (.ok diagnostics, workspace, world) =>
        let fixed := (outcome.map (·.fixed)).getD 0 + edits.length
        fixPasses engine file passes (some ⟨fixed, diagnostics⟩) workspace world

/-- What linting a text has led to: the diagnostics with the workspace that they belong to, and
the text to be written, if any. -/
structure TextLint (σ : Type) where
  fixed : Nat := 0
  diagnostics : List Diagnostic
  fixedText : Option String := none
  logs : List LogEntry
  workspace : Workspace
  world : σ

def unchangedLog (path : String) (error : LintError) : LogEntry :=
  ⟨.error, "left " ++ path ++ " unchanged: " ++ error.message⟩

/-- Lints a text, and fixes it if asked to. When a pass fails, the text and the diagnostics are
those of before the first pass. -/
def lintText (engine : Engine σ) (file text : String) (fix : Bool) (workspace : Workspace)
    (world : σ) : TextLint σ :=
  let workspace := workspace.setText file text
  let first := workspace.service.semanticDiagnostics workspace.host engine file world
  let workspace := { workspace with service := first.service }
  let unfixed : TextLint σ :=
    { diagnostics := first.diagnostics, logs := first.logs, workspace, world := first.world }
  if !fix then unfixed
  else
    match fixPasses engine file maxFixPasses none workspace first.world with
    | (.ok none, workspace, world) => { unfixed with workspace, world }
    | (.ok (some outcome), workspace, world) =>
      { fixed := outcome.fixed
        diagnostics := outcome.diagnostics
        fixedText :=
          if outcome.fixed > 0 then some ((workspace.host.sourceText file).getD "") else none
        logs := first.logs, workspace, world }
    | (.error error, workspace, world) =>
      { unfixed with
        logs := first.logs ++ [unchangedLog file error]
        workspace := workspace.setText file text
        world }

def Problem.ofDiagnostic (workspace : Workspace) (file : String) (diagnostic : Diagnostic) :
    Problem :=
  let (line, column) := (workspace.location file diagnostic.start).getD (1, 1)
  { line, column, severity := diagnostic.category, message := diagnostic.message }

structure FileLint (σ : Type) where
  result : Except Failure FileResult
  logs : List LogEntry := []
  files : FileTree
  workspace : Workspace
  world : σ

/-- The files after a text has been written, if there is one to write. -/
def writeBack (files : FileTree) (path : String) : Option String → Except LintError FileTree
  | none => .ok files
  | some text => files.overwrite path text

/-- Lints a file, and fixes it if asked to. The engine sees the files as they are before. -/
def lintFile (engine : FileTree → Engine σ) (root path : String) (fix : Bool) (files : FileTree)
    (workspace : Workspace) (world : σ) : FileLint σ :=
  match files.readText path with
  | .error error =>
    { result := .error ⟨"Failed to read " ++ path, error.message⟩, files, workspace, world }
  | .ok text =>
    let lint := lintText (engine files) path text fix workspace world
    match writeBack files path lint.fixedText with
    | .error error =>
      { result := .error ⟨"Failed to write " ++ path, error.message⟩
        logs := lint.logs, files, workspace := lint.workspace, world := lint.world }
    | .ok files =>
      { result := .ok {
          path := Path.relativeTo root path
          fixed := lint.fixed
          problems := lint.diagnostics.map (Problem.ofDiagnostic lint.workspace path) }
        logs := lint.logs, files, workspace := lint.workspace.close path, world := lint.world }

end EditorLint.CommandLine
