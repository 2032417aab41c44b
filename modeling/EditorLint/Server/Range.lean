import EditorLint.Edit.Basic
import EditorLint.Json.Record
import EditorLint.Text.LineTable

/-!
Positions and ranges as an editor gives them: zero-based lines, and characters that count UTF-16
units. Both are numbers of 32 bits.
-/

namespace EditorLint.Server

open Json (Value)

structure Position where
  line : Nat
  character : Nat
  deriving DecidableEq, Repr

structure Range where
  start : Position
  stop : Position
  deriving DecidableEq, Repr

structure TextEdit where
  range : Range
  newText : String
  deriving DecidableEq, Repr

namespace Position

def ofOffset (lines : LineTable) (offset : Nat) : Position :=
  let (line, character) := lines.positionAt offset
  ⟨line % (1 <<< 32), character % (1 <<< 32)⟩

def offset? (lines : LineTable) (position : Position) : Option Nat :=
  lines.offsetAt position.line position.character

def toValue (position : Position) : Value :=
  .object [("line", .ofNat position.line), ("character", .ofNat position.character)]

def ofValue? (value : Value) : Option Position := do
  match ← value.allFields? ["line", "character"] with
  | [line, character] =>
    return ⟨← Json.required (·.unsigned? 32) line, ← Json.required (·.unsigned? 32) character⟩
  | _ => none

end Position

namespace Range

def ofOffsets (lines : LineTable) (start stop : Nat) : Range :=
  ⟨.ofOffset lines start, .ofOffset lines stop⟩

/-- The offsets of both ends; none when one of them lies outside of the document. -/
def offsets? (lines : LineTable) (range : Range) : Option (Nat × Nat) := do
  return (← range.start.offset? lines, ← range.stop.offset? lines)

def toValue (range : Range) : Value :=
  .object [("start", range.start.toValue), ("end", range.stop.toValue)]

def ofValue? (value : Value) : Option Range := do
  match ← value.allFields? ["start", "end"] with
  | [start, stop] =>
    return ⟨← Json.required Position.ofValue? start, ← Json.required Position.ofValue? stop⟩
  | _ => none

end Range

namespace TextEdit

def ofEdit (lines : LineTable) (edit : Edit) : TextEdit :=
  ⟨.ofOffsets lines edit.start edit.stop, edit.text⟩

def toValue (edit : TextEdit) : Value :=
  .object [("range", edit.range.toValue), ("newText", .string edit.newText)]

end TextEdit

end EditorLint.Server
