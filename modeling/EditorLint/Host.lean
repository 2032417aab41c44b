import EditorLint.FixAction
import EditorLint.Text.LineTable

/-!
The host of the lint service: it owns the documents, converts between positions and offsets,
and may have diagnostics and fixes of its own.
-/

namespace EditorLint

inductive LogLevel where
  | info
  | error
  deriving DecidableEq, Repr

structure LogEntry where
  level : LogLevel
  message : String
  deriving DecidableEq, Repr

/-- What a host answers at one moment. Lines and characters count from zero. -/
structure Host where
  sourceText : String → Option String
  positionOf : String → Nat → Nat → Except LintError Nat
  positionAt : String → Nat → Except LintError (Nat × Nat)
  semanticDiagnostics : String → List Diagnostic := fun _ => []
  syntacticDiagnostics : String → List Diagnostic := fun _ => []
  codeFixes : String → Nat → Nat → List Nat → List FixAction := fun _ _ _ _ => []
  supportedCodeFixes : List Nat := []

/-- Documents by their names, as a host without diagnostics and fixes of its own. -/
def Host.ofDocuments (document? : String → Option LineTable) : Host where
  sourceText file := (document? file).map (·.text)
  positionOf file line character :=
    match document? file with
    | some table => table.positionOf file line character
    | none => .error (.unknownFile file)
  positionAt file offset :=
    match document? file with
    | some table => .ok (table.positionAt offset)
    | none => .error (.unknownFile file)

end EditorLint
