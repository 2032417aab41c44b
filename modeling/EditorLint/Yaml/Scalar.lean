import EditorLint.Text.Digits
import EditorLint.Yaml.Cursor

/-!
The text of scalars. A scalar may run over several lines; a single line break then counts as a
space, and more of them count as one less.
-/

namespace EditorLint.Yaml

/-- Blanks and line breaks between two words of a scalar. Blanks next to a break do not count. -/
structure Gap where
  blanks : List Char := []
  breaks : List Char := []

/-- Line breaks between two words: a single one is a space, of several the first is left out.
Only an ordinary break folds. -/
def foldBreaks : List Char → List Char
  | ['\n'] => [' ']
  | '\n' :: later => later
  | breaks => breaks

def Gap.chars (gap : Gap) : List Char :=
  if gap.breaks.isEmpty then gap.blanks else foldBreaks gap.breaks

/-- Reads the blanks and breaks in front. Once a line has been broken, no tab may stand left of
the column `margin`. The `broken` flag says that a break came before. -/
def readGap (margin : Nat) : Nat → Bool → Cursor → Option (Gap × Cursor)
  | 0, _, _ => none
  | fuel + 1, broken, cursor =>
    match cursor.peek with
    | some c =>
      if isBlank c then
        if broken && cursor.column < margin && c == '\t' then none
        else
          (readGap margin fuel broken cursor.advance).map fun (gap, rest) =>
            (if broken then gap else { gap with blanks := c :: gap.blanks }, rest)
      else
        match cursor.lineBreak? with
        | some (mark, next) =>
          (readGap margin fuel true next).map fun (gap, rest) =>
            ({ gap with breaks := mark :: gap.breaks }, rest)
        | none => some ({}, cursor)
    | none => some ({}, cursor)

/-! ## Plain scalars -/

def isFlowIndicator (c : Char) : Bool := c ∈ [',', '[', ']', '\x7b', '\x7d']

/-- The characters of a plain scalar up to a gap or an indicator that ends it. -/
def readPlainWord (inFlow : Bool) : Nat → Cursor → Option (List Char × Cursor)
  | 0, _ => none
  | fuel + 1, cursor =>
    match cursor.peek with
    | none => some ([], cursor)
    | some c =>
      if cursor.atGap then some ([], cursor)
      else if inFlow && c == ':'
          && (cursor.peekAt 1).any (fun next => isFlowIndicator next || next == '?') then none
      else if (c == ':' && cursor.atGap 1) || (inFlow && isFlowIndicator c) then some ([], cursor)
      else
        (readPlainWord inFlow fuel cursor.advance).map fun (word, rest) => (c :: word, rest)

/-- A scalar as it was read: its text, the cursor behind it, and whether a line break was read
after its last character. -/
structure ScannedScalar where
  text : List Char
  rest : Cursor
  lineBroken : Bool := false

/-- Reads a plain scalar. Outside of brackets its later lines start at the column `margin` or
further right. -/
def readPlain (inFlow : Bool) (margin : Nat) : Nat → Gap → Cursor → Option ScannedScalar
  | 0, _, _ => none
  | fuel + 1, gap, cursor =>
    if cursor.atDocumentMarker || cursor.startsWith '#' then
      some ⟨[], cursor, !gap.breaks.isEmpty⟩
    else do
      let (word, rest) ← readPlainWord inFlow fuel cursor
      let before := if word.isEmpty then [] else gap.chars
      let lineBroken := word.isEmpty && !gap.breaks.isEmpty
      if rest.peek.isNone || !rest.atGap then
        return ⟨before ++ word, rest, lineBroken⟩
      let (gap, rest) ← readGap margin fuel lineBroken rest
      if !inFlow && rest.column < margin then
        return ⟨before ++ word, rest, !gap.breaks.isEmpty⟩
      let later ← readPlain inFlow margin fuel gap rest
      return { later with text := before ++ word ++ later.text }

/-! ## Quoted scalars -/

def hexNumber? (count : Nat) (cursor : Cursor) : Option Nat := do
  let digits := cursor.rest.take count
  guard (digits.length = count)
  Text.numberIn? 16 digits

def escapedChar? : Char → Option Char
  | '0' => some '\x00'
  | 'a' => some '\x07'
  | 'b' => some '\x08'
  | 't' | '\t' => some '\t'
  | 'n' => some '\n'
  | 'v' => some '\x0b'
  | 'f' => some '\x0c'
  | 'r' => some '\r'
  | 'e' => some '\x1b'
  | ' ' => some ' '
  | '"' => some '"'
  | '/' => some '/'
  | '\\' => some '\\'
  | 'N' => some '\u0085'
  | '_' => some '\u00a0'
  | 'L' => some '\u2028'
  | 'P' => some '\u2029'
  | _ => none

/-- How many hexadecimal digits follow the letter of a numeric escape. -/
def escapeDigits? : Char → Option Nat
  | 'x' => some 2
  | 'u' => some 4
  | 'U' => some 8
  | _ => none

/-- The character of an escape, whose letter is in front, and the cursor behind it. -/
def readEscape (cursor : Cursor) : Option (Char × Cursor) := do
  let letter ← cursor.peek
  let cursor := cursor.advance
  match escapeDigits? letter with
  | none => return (← escapedChar? letter, cursor)
  | some count =>
    let code ← hexNumber? count cursor
    guard code.isValidChar
    return (Char.ofNat code, cursor.advance count)

inductive QuotedStop where
  | quote
  | gap
  | escapedBreak

/-- The characters of a quoted scalar up to a gap, an escaped line break or the closing quote. -/
def readQuotedWord (quote : Char) : Nat → Cursor → Option (List Char × QuotedStop × Cursor)
  | 0, _ => none
  | fuel + 1, cursor =>
    match cursor.peek with
    | none => some ([], .gap, cursor)
    | some c =>
      if cursor.atGap then some ([], .gap, cursor)
      else if c == quote then
        if quote == '\'' && cursor.peekAt 1 == some '\'' then
          (readQuotedWord quote fuel (cursor.advance 2)).map fun (word, rest) => (c :: word, rest)
        else some ([], .quote, cursor)
      else if quote == '"' && c == '\\' then
        if (cursor.peekAt 1).any isBreak then
          some ([], .escapedBreak, cursor.advance.skipLineBreak)
        else do
          let (meant, rest) ← readEscape cursor.advance
          let (word, rest) ← readQuotedWord quote fuel rest
          return (meant :: word, rest)
      else
        (readQuotedWord quote fuel cursor.advance).map fun (word, rest) => (c :: word, rest)

/-- Reads a quoted scalar behind its opening quote. No document marker may stand in it. -/
def readQuoted (quote : Char) : Nat → Cursor → Option (List Char × Cursor)
  | 0, _ => none
  | fuel + 1, cursor => do
    guard (!cursor.atDocumentMarker && cursor.peek.isSome)
    let (word, stop, rest) ← readQuotedWord quote fuel cursor
    let escaped := stop matches .escapedBreak
    if rest.startsWith quote then return (word, rest.advance)
    let (gap, rest) ← readGap 0 fuel escaped rest
    let between := if escaped then gap.breaks else gap.chars
    let (later, rest) ← readQuoted quote fuel rest
    return (word ++ between ++ later, rest)

/-! ## Block scalars -/

/-- What happens to the line breaks at the end of a block scalar. -/
inductive Chomping where
  | strip
  | clip
  | keep
  deriving DecidableEq

def chomping? : Char → Option Chomping
  | '-' => some .strip
  | '+' => some .keep
  | _ => none

/-- The sign for the final breaks in front, and the cursor behind it. -/
def readChomping (cursor : Cursor) : Option Chomping × Cursor :=
  match cursor.peek.bind chomping? with
  | some chomping => (some chomping, cursor.advance)
  | none => (none, cursor)

/-- The indentation digit in front, and the cursor behind it; zero is no indentation. -/
def readIndentation (cursor : Cursor) : Option (Option Nat × Cursor) :=
  match cursor.peek with
  | some '0' => none
  | some c =>
    some (if c.isDigit then (some (c.toNat - '0'.toNat), cursor.advance) else (none, cursor))
  | none => some (none, cursor)

/-- The header of a block scalar, behind its first character: two signs in either order. -/
def readBlockHeader (cursor : Cursor) : Option (Chomping × Option Nat × Cursor) := do
  let (before, cursor) := readChomping cursor
  let (indentation, cursor) ← readIndentation cursor
  let (after, cursor) :=
    if before.isNone && indentation.isSome then readChomping cursor else (none, cursor)
  return ((before <|> after).getD .clip, indentation, ← cursor.skipToLineEnd)

/-- Moves past empty lines, and past the indentation of the next line up to the column `indent`;
without one, past all its spaces. The answer holds the breaks and the furthest column seen. -/
def readEmptyLines (indent : Option Nat) : Nat → Nat → Cursor → Option (List Char × Nat × Cursor)
  | 0, _, _ => none
  | fuel + 1, furthest, cursor =>
    let spaces := (cursor.rest.takeWhile (· == ' ')).length
    let skipped := (indent.map fun column => min spaces (column - cursor.column)).getD spaces
    let cursor := cursor.advance skipped
    let furthest := max furthest cursor.column
    if cursor.startsWith '\t' && indent.all (cursor.column < ·) then none
    else
      match cursor.lineBreak? with
      | none => some ([], furthest, cursor)
      | some (mark, next) =>
        (readEmptyLines indent fuel furthest next).map fun (breaks, found) =>
          (mark :: breaks, found)

/-- Reads the lines of a block scalar that start at the column `indent`. `ended` is the break
that ends the line before, `empty` the breaks of the empty lines in between; a folded scalar
joins two lines that both start with no blank. -/
def readBlockLines (folded : Bool) (chomping : Chomping) (indent : Nat) :
    Nat → List Char → List Char → Bool → Cursor → Option (List Char × Cursor)
  | 0, _, _, _, _ => none
  | fuel + 1, ended, empty, blankBefore, cursor =>
    if cursor.column = indent && cursor.peek.isSome then do
      let startsBlank := cursor.peek.any isBlank
      let joined :=
        if folded && ended == ['\n'] && !blankBefore && !startsBlank then
          if empty.isEmpty then [' '] else []
        else ended
      let (line, rest) := cursor.span (!isBreak ·)
      let (ended, rest) := match rest.lineBreak? with
        | some (mark, next) => ([mark], next)
        | none => ([], rest)
      let (later, _, rest) ← readEmptyLines (some indent) fuel 0 rest
      let (text, rest) ← readBlockLines folded chomping indent fuel ended later startsBlank rest
      return (joined ++ empty ++ line ++ text, rest)
    else
      some (match chomping with
        | .strip => []
        | .clip => ended
        | .keep => ended ++ empty, cursor)

/-- Reads a block scalar behind its first character. Without an indentation of its own, its
first line with content gives the column, which is at least `margin`. -/
def readBlock (folded : Bool) (margin fuel : Nat) (cursor : Cursor) :
    Option (List Char × Cursor) := do
  let (chomping, indentation, cursor) ← readBlockHeader cursor
  let given := indentation.map (margin - 1 + ·)
  let (empty, furthest, cursor) ← readEmptyLines given fuel 0 cursor
  let indent := given.getD (max furthest (max margin 1))
  readBlockLines folded chomping indent fuel [] empty false cursor

end EditorLint.Yaml
