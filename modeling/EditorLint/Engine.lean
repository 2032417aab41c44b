import EditorLint.Report

/-!
The linter as the service sees it.
-/

namespace EditorLint

/-- A document to be linted, the directory in which the linter looks for its configuration, and a
configuration file that takes the place of what it finds. -/
structure LintCall where
  text : String
  file : String
  directory : String
  configFile : Option String
  deriving DecidableEq, Repr

/-- Anything that lints. Its answers may depend on a state of its own. -/
abbrev Engine (σ : Type) := LintCall → σ → Except LintError Report × σ

end EditorLint
