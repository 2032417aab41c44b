import EditorLint.Text.Units
import EditorLint.LintError

/-!
The table of line starts of a document. Lines end at `\n`, `\r\n`, a lone `\r`, U+2028 or U+2029;
the table records where each line starts, in UTF-16 units and in UTF-8 bytes, and answers every
question about offsets, positions and bytes from these starts.
-/

namespace EditorLint

/-- Where a line starts, measured from the start of the text. -/
structure LineStart where
  units : Nat
  bytes : Nat
  deriving DecidableEq, Repr

/-- Whether a line ends after the character `c` when `rest` follows it. -/
def endsLine (c : Char) (rest : List Char) : Bool :=
  match c with
  | '\n' | '\u2028' | '\u2029' => true
  | '\r' => rest.head? != some '\n'
  | _ => false

/-- The starts of the lines after the first, for a text that begins at the given start. -/
def laterLineStarts (here : LineStart) : List Char → List LineStart
  | [] => []
  | c :: rest =>
    let next : LineStart := ⟨here.units + Text.charUnits c, here.bytes + c.utf8Size⟩
    if endsLine c rest then next :: laterLineStarts next rest else laterLineStarts next rest

/-- The starts of all lines of a text; the first line starts at zero. -/
def lineStarts (chars : List Char) : List LineStart :=
  ⟨0, 0⟩ :: laterLineStarts ⟨0, 0⟩ chars

/-- A document with its line starts and its length in UTF-16 units. -/
structure LineTable where
  text : String
  starts : Array LineStart
  length : Nat

namespace LineTable

def ofText (text : String) : LineTable :=
  { text, starts := (lineStarts text.toList).toArray, length := Text.units text.toList }

def lineCount (table : LineTable) : Nat := table.starts.size

/-- The outcome of a search: the line that starts at the offset, or the number of lines that
start before it. -/
inductive Probe where
  | startsHere (line : Nat)
  | before (count : Nat)
  deriving DecidableEq, Repr

/-- Binary search for an offset among the starts of the lines from `low` up to `high`. -/
def probe (starts : Array LineStart) (offset low high : Nat) : Probe :=
  if low < high then
    let middle := (low + high) / 2
    match starts[middle]? with
    | none => .before low
    | some start =>
      if start.units = offset then .startsHere middle
      else if start.units < offset then probe starts offset (middle + 1) high
      else probe starts offset low middle
  else .before low
  termination_by high - low
  decreasing_by all_goals omega

def lineOf (table : LineTable) (offset : Nat) : Nat :=
  match probe table.starts offset 0 table.starts.size with
  | .startsHere line => line
  | .before count => count - 1

/-- The start of a line, in UTF-16 units; past the last line, the start of the text. -/
def startOf (table : LineTable) (line : Nat) : LineStart :=
  table.starts[line]?.getD ⟨0, 0⟩

/-- The offset of a zero-based line and character. The character may stand after the last
character of the line and its terminator, and no further. -/
def offsetAt (table : LineTable) (line character : Nat) : Option Nat :=
  match table.starts[line]? with
  | none => none
  | some start =>
    let limit := (table.starts[line + 1]?.map (·.units)).getD table.length
    let offset := start.units + character
    if offset ≤ limit then some offset else none

/-- The offset of a position in a document that goes by the given name. -/
def positionOf (table : LineTable) (file : String) (line character : Nat) : Except LintError Nat :=
  match table.offsetAt line character with
  | some offset => .ok offset
  | none => .error (.positionOutOfRange file line character)

/-- The zero-based line and character of an offset; offsets past the end count as the end. -/
def positionAt (table : LineTable) (offset : Nat) : Nat × Nat :=
  let clamped := min offset table.length
  let line := table.lineOf clamped
  (line, clamped - (table.startOf line).units)

/-- The byte at which a given number of units of a text end; none inside a surrogate pair. -/
def bytesBefore (byte unitsLeft : Nat) : List Char → Option Nat
  | [] => if unitsLeft = 0 then some byte else none
  | c :: rest =>
    if unitsLeft = 0 then some byte
    else if unitsLeft < Text.charUnits c then none
    else bytesBefore (byte + c.utf8Size) (unitsLeft - Text.charUnits c) rest

/-- The UTF-8 byte offset of a UTF-16 offset, counted from the start of its line. There is none
past the end of the text or inside a surrogate pair. -/
def byteOffset (table : LineTable) (offset : Nat) : Option Nat :=
  if table.length < offset then none
  else
    let (line, character) := table.positionAt offset
    let start := (table.startOf line).bytes
    (Text.dropBytes? table.text.toList start).bind (bytesBefore start character ·)

end LineTable

end EditorLint
