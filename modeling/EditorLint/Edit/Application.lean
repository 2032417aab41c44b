import EditorLint.Edit.Basic
import EditorLint.Text.LineTable
import EditorLint.LintError

/-!
Applying a batch of edits to a text in one scan from left to right. The scan first plans the
result as pieces, byte ranges of the old text and inserted texts, and then puts them together.
-/

namespace EditorLint

inductive Piece where
  /-- The bytes of the old text from `start` up to `stop`. -/
  | kept (start stop : Nat)
  | inserted (text : String)
  deriving DecidableEq, Repr

def Piece.chars (old : List Char) : Piece → List Char
  | kept start stop => (Text.slice? old start stop).getD []
  | inserted text => text.toList

namespace Edit

/-- The pieces of the edited text from the byte `cursor` of the old one on. An edit is refused
when its range is reversed, has an end that is no character boundary of the text, or starts
before the cursor. -/
def piecesFrom (table : LineTable) (cursor : Nat) : List Edit → Except LintError (List Piece)
  | [] => .ok [.kept cursor (Text.bytes table.text.toList)]
  | edit :: rest =>
    if edit.stop < edit.start then .error (.invalidEdit edit.start edit.stop)
    else
      match table.byteOffset edit.start, table.byteOffset edit.stop with
      | some start, some stop =>
        if start < cursor then .error (.invalidEdit edit.start edit.stop)
        else
          (piecesFrom table stop rest).map fun pieces =>
            .kept cursor start :: .inserted edit.text :: pieces
      | _, _ => .error (.invalidEdit edit.start edit.stop)

/-- Applies a batch of edits, sorted and not overlapping, to a text. -/
def applyAll (text : String) (edits : List Edit) : Except LintError String :=
  (piecesFrom (LineTable.ofText text) 0 edits).map fun pieces =>
    String.ofList (pieces.flatMap (Piece.chars text.toList))

end Edit

end EditorLint
