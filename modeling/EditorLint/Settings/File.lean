import EditorLint.FileTree
import EditorLint.Settings.Document

/-!
Settings files.
-/

namespace EditorLint.Settings

/-- Settings from a file; one that cannot be understood is an error that names it. -/
def load (files : FileTree) (path : String) : Except LintError Settings :=
  (files.readText path).bind fun text =>
    match parse? text with
    | some settings => .ok settings
    | none => .error (.config (path ++ ": not a document of settings"))

end EditorLint.Settings
