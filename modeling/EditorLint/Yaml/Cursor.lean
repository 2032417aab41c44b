/-!
The characters of YAML text, and a cursor that knows the line and column where it stands.
-/

namespace EditorLint.Yaml

def isAllowed (c : Char) : Bool :=
  let code := c.toNat
  code == 0x09 || code == 0x0A || code == 0x0D || (0x20 ≤ code && code ≤ 0x7E) || code == 0x85
    || (0xA0 ≤ code && code ≤ 0xD7FF) || (0xE000 ≤ code && code ≤ 0xFFFD) || 0x10000 ≤ code

def byteOrderMark : Char := '\ufeff'

def isBlank (c : Char) : Bool := c == ' ' || c == '\t'

def isBreak (c : Char) : Bool :=
  c == '\n' || c == '\r' || c == '\u0085' || c == '\u2028' || c == '\u2029'

def isWordChar (c : Char) : Bool := c.isAlphanum || c == '_' || c == '-'

/-- A line break at the start of a text, in normal form, and what follows it. -/
def lineBreak? : List Char → Option (Char × List Char)
  | '\r' :: '\n' :: rest => some ('\n', rest)
  | '\r' :: rest | '\n' :: rest | '\u0085' :: rest => some ('\n', rest)
  | '\u2028' :: rest => some ('\u2028', rest)
  | '\u2029' :: rest => some ('\u2029', rest)
  | _ => none

/-- The text that is still to be read, with the place where it starts. -/
structure Cursor where
  rest : List Char
  index : Nat := 0
  line : Nat := 0
  column : Nat := 0

namespace Cursor

def peek (cursor : Cursor) : Option Char := cursor.rest.head?

def peekAt (cursor : Cursor) (distance : Nat) : Option Char := cursor.rest[distance]?

def startsWith (cursor : Cursor) (c : Char) : Bool := cursor.peek == some c

/-- Whether a word of the text could end here: at a blank, a line break or the end. -/
def atGap (cursor : Cursor) (distance : Nat := 0) : Bool :=
  (cursor.peekAt distance).all fun c => isBlank c || isBreak c

def atLineEnd (cursor : Cursor) : Bool := cursor.peek.all isBreak

def advance (cursor : Cursor) (count : Nat := 1) : Cursor :=
  { cursor with
    rest := cursor.rest.drop count
    index := cursor.index + count
    column := cursor.column + count }

/-- The characters of the given class in front, and the cursor behind them. -/
def span (cursor : Cursor) (among : Char → Bool) : List Char × Cursor :=
  let taken := cursor.rest.takeWhile among
  (taken, cursor.advance taken.length)

def skip (cursor : Cursor) (among : Char → Bool) : Cursor := (cursor.span among).2

/-- The line break in front, in normal form, and the cursor at the start of the next line. -/
def lineBreak? (cursor : Cursor) : Option (Char × Cursor) :=
  (Yaml.lineBreak? cursor.rest).map fun (c, rest) =>
    (c, ⟨rest, cursor.index + (cursor.rest.length - rest.length), cursor.line + 1, 0⟩)

/-- Moves past the line break in front, if there is one. -/
def skipLineBreak (cursor : Cursor) : Cursor :=
  match cursor.lineBreak? with
  | some (_, next) => next
  | none => cursor

/-- Moves past blanks and a comment up to the end of the line; something else may not stand
there. -/
def skipToLineEnd (cursor : Cursor) : Option Cursor :=
  let cursor := cursor.skip isBlank
  let cursor := if cursor.startsWith '#' then cursor.skip (!isBreak ·) else cursor
  if cursor.atLineEnd then some cursor.skipLineBreak else none

/-- Whether a document marker starts here: three times the character, alone at the start of a
line. -/
def atMarker (cursor : Cursor) (mark : Char) : Bool :=
  cursor.column == 0 && cursor.rest.take 3 == [mark, mark, mark] && cursor.atGap 3

def atDocumentMarker (cursor : Cursor) : Bool := cursor.atMarker '-' || cursor.atMarker '.'

end Cursor

end EditorLint.Yaml
