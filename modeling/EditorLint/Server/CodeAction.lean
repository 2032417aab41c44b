import EditorLint.FixAction
import EditorLint.Server.ShownDiagnostic

/-!
Code actions: what an editor offers for a diagnostic, with the edits that carry it out.
-/

namespace EditorLint.Server

open Json (Value)

inductive ActionKind where
  | quickFix
  | fixAll
  deriving DecidableEq, Repr

def ActionKind.name : ActionKind → String
  | quickFix => "quickfix"
  | fixAll => "source.fixAll"

/-- The batch of a whole document is a fix of everything, anything else a quick fix. -/
def ActionKind.ofFix : FixKind → ActionKind
  | .fixAllAutoFixable => fixAll
  | _ => quickFix

structure CodeAction where
  title : String
  kind : ActionKind
  diagnostic : ShownDiagnostic
  uri : Uri
  edits : List TextEdit
  isPreferred : Bool

namespace CodeAction

/-- The code action of a fix to a document with the given lines. -/
def ofFix (uri : Uri) (lines : LineTable) (fix : FixAction) (diagnostic : ShownDiagnostic) :
    CodeAction where
  title := fix.description
  kind := .ofFix fix.kind
  diagnostic
  uri
  edits := fix.edits.map (TextEdit.ofEdit lines)
  isPreferred := fix.kind == .single

def toValue (action : CodeAction) : Value :=
  .object [
    ("title", .string action.title),
    ("kind", .string action.kind.name),
    ("diagnostics", .array [action.diagnostic.toValue]),
    ("edit", .object [("changes", .object [
      (action.uri.text, .array (action.edits.map TextEdit.toValue))])]),
    ("isPreferred", .bool action.isPreferred)]

end CodeAction

end EditorLint.Server
