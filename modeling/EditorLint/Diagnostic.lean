import EditorLint.Finding
import EditorLint.LintError

/-!
Diagnostics as an editor shows them, and how a finding becomes one.
-/

namespace EditorLint

def diagnosticSource : String := "eslint"

/-- The code that tells lint diagnostics from the host's own. -/
def diagnosticCode : Nat := 100000

inductive Category where
  | warning
  | error
  | suggestion
  | message
  deriving DecidableEq, Repr

/-- A message about the range of `length` units from `start` on. -/
structure Diagnostic where
  file : String
  start : Nat
  length : Nat
  message : String
  category : Category
  source : Option String
  code : Nat
  deriving DecidableEq, Repr

namespace Diagnostic

def stop (diagnostic : Diagnostic) : Nat := diagnostic.start + diagnostic.length

def isLint (diagnostic : Diagnostic) : Bool := diagnostic.code == diagnosticCode

end Diagnostic

/-- Everything but a warning is an error, unless warnings are forced. -/
def Finding.category (finding : Finding) (forceWarnings : Bool) : Category :=
  if forceWarnings || finding.severity == warningSeverity then .warning else .error

/-- The diagnostic of a finding, at the offsets that `positionOf` gives to its zero-based start
and end. An end before the start counts as the start. -/
def Finding.toDiagnostic (finding : Finding) (file : String)
    (positionOf : Nat → Nat → Except LintError Nat) (forceWarnings : Bool) :
    Except LintError Diagnostic := do
  let start ← positionOf (finding.startLine - 1) (finding.startColumn - 1)
  let stop ← positionOf (finding.stopLine - 1) (finding.stopColumn - 1)
  return {
    file
    start
    length := max stop start - start
    message := finding.displayMessage
    category := finding.category forceWarnings
    source := some diagnosticSource
    code := diagnosticCode }

end EditorLint
