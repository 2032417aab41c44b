import EditorLint.Yaml.Property

/-!
Cutting YAML text into tokens. Most of the work is about keys: whether a node is a key shows only
at the colon behind it, so the lexer remembers where a key could start and puts its token in when
the colon comes.
-/

namespace EditorLint.Yaml

/-- A place where a key could have started: the number of tokens before it, and where it stands.
A required one must turn out to be a key. -/
structure KeyCandidate where
  position : Nat
  index : Nat
  line : Nat
  column : Nat
  required : Bool

/-- The state of the lexer. `margins` holds, innermost first, the columns right of which the
content of the open block collections stands, each one more than the column of the collection;
`candidates` holds the possible key of each level of brackets and of the block outside. Tokens
are kept last first. -/
structure Lexer where
  cursor : Cursor
  tokens : List Token := []
  margins : List Nat := []
  keyAllowed : Bool := true
  candidates : List (Option KeyCandidate) := [none]

namespace Lexer

def inFlow (lexer : Lexer) : Bool := 1 < lexer.candidates.length

def margin (lexer : Lexer) : Nat := lexer.margins.headD 0

def push (lexer : Lexer) (token : Token) : Lexer :=
  { lexer with tokens := token :: lexer.tokens }

/-- Puts a token before all but the first `position` tokens. -/
def insertAt (lexer : Lexer) (position : Nat) (token : Token) : Lexer :=
  let later := lexer.tokens.length - position
  { lexer with tokens := lexer.tokens.take later ++ token :: lexer.tokens.drop later }

def advance (lexer : Lexer) (count : Nat := 1) : Lexer :=
  { lexer with cursor := lexer.cursor.advance count }

/-! ## Indentation -/

/-- Ends the block collections whose content stands right of `bound`. -/
def closeBlocks (lexer : Lexer) (bound : Nat) : Lexer :=
  if lexer.inFlow then lexer
  else
    let closed := lexer.margins.takeWhile (bound < ·)
    { lexer with
      tokens := List.replicate closed.length .blockEnd ++ lexer.tokens
      margins := lexer.margins.drop closed.length }

/-- Starts a block collection at a column, unless one is open there. Its token comes before all
but the first `position` tokens. -/
def openBlock (lexer : Lexer) (column position : Nat) (token : Token) : Lexer :=
  if !lexer.inFlow && lexer.margin ≤ column then
    { lexer with margins := (column + 1) :: lexer.margins }.insertAt position token
  else lexer

def openBlockHere (lexer : Lexer) (token : Token) : Lexer :=
  lexer.openBlock lexer.cursor.column lexer.tokens.length token

/-! ## Possible keys -/

/-- Gives up a candidate, unless it must be a key. -/
def dropCandidate : Option KeyCandidate → Option (Option KeyCandidate)
  | some candidate => if candidate.required then none else some none
  | none => some none

/-- A key ends on its line and within 1024 characters. -/
def isStale (cursor : Cursor) (candidate : KeyCandidate) : Bool :=
  candidate.line < cursor.line || candidate.index + 1024 < cursor.index

def dropStale (lexer : Lexer) : Option Lexer := do
  let candidates ← lexer.candidates.mapM fun candidate =>
    if candidate.any (isStale lexer.cursor) then dropCandidate candidate else some candidate
  return { lexer with candidates }

def noKeyHere (lexer : Lexer) : Option Lexer :=
  match lexer.candidates with
  | candidate :: outer =>
    (dropCandidate candidate).map fun dropped => { lexer with candidates := dropped :: outer }
  | [] => some lexer

def maybeKeyHere (lexer : Lexer) : Option Lexer :=
  if lexer.keyAllowed then
    lexer.noKeyHere.map fun lexer =>
      let candidate : KeyCandidate := {
        position := lexer.tokens.length
        index := lexer.cursor.index
        line := lexer.cursor.line
        column := lexer.cursor.column
        required := !lexer.inFlow && lexer.margin == lexer.cursor.column + 1 }
      { lexer with candidates := some candidate :: lexer.candidates.drop 1 }
  else some lexer

/-! ## Steps, one for each kind of token -/

/-- Ends all blocks and allows no key, as document markers do. -/
def endDocument (lexer : Lexer) : Option Lexer :=
  (lexer.closeBlocks 0).noKeyHere.map fun lexer => { lexer with keyAllowed := false }

def stepMarker (lexer : Lexer) (token : Token) : Option Lexer :=
  lexer.endDocument.map fun lexer => (lexer.push token).advance 3

def stepDirective (lexer : Lexer) : Option Lexer := do
  let lexer ← lexer.endDocument
  let (token, cursor) ← readDirective lexer.cursor
  return { lexer.push token with cursor }

def stepFlowStart (lexer : Lexer) (token : Token) : Option Lexer :=
  lexer.maybeKeyHere.map fun lexer =>
    { lexer.push token with candidates := none :: lexer.candidates, keyAllowed := true }.advance

def stepFlowEnd (lexer : Lexer) (token : Token) : Option Lexer :=
  lexer.noKeyHere.map fun lexer =>
    let candidates := if lexer.inFlow then lexer.candidates.drop 1 else lexer.candidates
    { lexer.push token with candidates, keyAllowed := false }.advance

def stepFlowEntry (lexer : Lexer) : Option Lexer :=
  lexer.noKeyHere.map fun lexer => { lexer.push .flowEntry with keyAllowed := true }.advance

/-- A block collection may only start where a key may. -/
def stepBlockIndicator (lexer : Lexer) (start token : Token) (keyAllowed : Bool) :
    Option Lexer := do
  guard (lexer.inFlow || lexer.keyAllowed)
  let lexer ← (lexer.openBlockHere start).noKeyHere
  return { lexer.push token with keyAllowed }.advance

def stepBlockEntry (lexer : Lexer) : Option Lexer :=
  lexer.stepBlockIndicator .blockSequenceStart .blockEntry true

def stepKey (lexer : Lexer) : Option Lexer :=
  lexer.stepBlockIndicator .blockMappingStart .key (!lexer.inFlow)

/-- A colon turns the candidate of its level into a key. Without a candidate it belongs to a key
that was written out, or to none. -/
def stepValue (lexer : Lexer) : Option Lexer :=
  match lexer.candidates with
  | some candidate :: outer =>
    let lexer := { lexer with candidates := none :: outer, keyAllowed := false }
    let lexer := (lexer.insertAt candidate.position .key).openBlock candidate.column
      candidate.position .blockMappingStart
    some (lexer.push .value).advance
  | _ => do
    guard (lexer.inFlow || lexer.keyAllowed)
    let lexer := lexer.openBlockHere .blockMappingStart
    return { lexer.push .value with keyAllowed := !lexer.inFlow }.advance

/-- A node that may be a key, or the name in front of one. -/
def stepNode (lexer : Lexer) (read : Cursor → Option (Token × Cursor)) : Option Lexer := do
  let lexer ← lexer.maybeKeyHere
  let (token, cursor) ← read lexer.cursor
  return { lexer.push token with cursor, keyAllowed := false }

/-- After a plain scalar with a line break behind it a key may follow. -/
def stepPlain (lexer : Lexer) (fuel : Nat) : Option Lexer := do
  let lexer ← lexer.maybeKeyHere
  let scanned ← readPlain lexer.inFlow lexer.margin fuel {} lexer.cursor
  return { lexer.push (.scalar (String.ofList scanned.text) .plain) with
    cursor := scanned.rest, keyAllowed := scanned.lineBroken }

def stepQuoted (lexer : Lexer) (quote : Char) (style : Style) (fuel : Nat) : Option Lexer :=
  lexer.stepNode fun cursor =>
    (readQuoted quote fuel cursor.advance).map fun (text, rest) =>
      (.scalar (String.ofList text) style, rest)

def stepBlockScalar (lexer : Lexer) (folded : Bool) (fuel : Nat) : Option Lexer := do
  let lexer ← lexer.noKeyHere
  let (text, cursor) ← readBlock folded lexer.margin fuel lexer.cursor.advance
  let style := if folded then Style.folded else Style.literal
  return { lexer.push (.scalar (String.ofList text) style) with cursor, keyAllowed := true }

/-! ## The whole text -/

/-- Moves past blanks, comments and line breaks. Outside of brackets a new line allows a key, and
no tab may stand where a key may. -/
def skipGap : Nat → Lexer → Lexer
  | 0, lexer => lexer
  | fuel + 1, lexer =>
    let cursor := lexer.cursor
    let cursor :=
      if cursor.column == 0 && cursor.startsWith byteOrderMark then cursor.advance else cursor
    let tabs := lexer.inFlow || !lexer.keyAllowed
    let cursor := cursor.skip fun c => c == ' ' || (tabs && c == '\t')
    let cursor := if cursor.startsWith '#' then cursor.skip (!isBreak ·) else cursor
    match cursor.lineBreak? with
    | some (_, next) =>
      skipGap fuel { lexer with cursor := next, keyAllowed := lexer.keyAllowed || !lexer.inFlow }
    | none => { lexer with cursor }

def isIndicator (c : Char) : Bool :=
  c ∈ ['-', '?', ':', ',', '[', ']', '\x7b', '\x7d', '#', '&', '*', '!', '|', '>', '\'', '"', '%',
    '@', '\u0060']

/-- An indicator starts a plain scalar all the same when it cannot be one where it stands. -/
def startsPlain (lexer : Lexer) (c : Char) : Bool :=
  !isIndicator c || (c == '-' && !(lexer.cursor.peekAt 1).any isBlank)
    || (!lexer.inFlow && (c == '?' || c == ':') && !lexer.cursor.atGap 1)

/-- Reads the token that starts with the character `c`, which is no gap. -/
def stepAt (lexer : Lexer) (c : Char) (fuel : Nat) : Option Lexer :=
  let cursor := lexer.cursor
  let indicates := lexer.inFlow || cursor.atGap 1
  if c == '%' && cursor.column == 0 then lexer.stepDirective
  else if cursor.atMarker '-' then lexer.stepMarker .documentStart
  else if cursor.atMarker '.' then lexer.stepMarker .documentEnd
  else if c == '[' then lexer.stepFlowStart .flowSequenceStart
  else if c == '\x7b' then lexer.stepFlowStart .flowMappingStart
  else if c == ']' then lexer.stepFlowEnd .flowSequenceEnd
  else if c == '\x7d' then lexer.stepFlowEnd .flowMappingEnd
  else if c == ',' then lexer.stepFlowEntry
  else if c == '-' && cursor.atGap 1 then lexer.stepBlockEntry
  else if c == '?' && indicates then lexer.stepKey
  else if c == ':' && indicates then lexer.stepValue
  else if c == '*' then
    lexer.stepNode fun cursor =>
      (readAnchorName cursor.advance).map fun (name, rest) => (.aliasOf name, rest)
  else if c == '&' then
    lexer.stepNode fun cursor =>
      (readAnchorName cursor.advance).map fun (name, rest) => (.anchor name, rest)
  else if c == '!' then lexer.stepNode (readTag lexer.inFlow)
  else if c == '|' && !lexer.inFlow then lexer.stepBlockScalar false fuel
  else if c == '>' && !lexer.inFlow then lexer.stepBlockScalar true fuel
  else if c == '\'' then lexer.stepQuoted '\'' .singleQuoted fuel
  else if c == '"' then lexer.stepQuoted '"' .doubleQuoted fuel
  else if !cursor.atGap && lexer.startsPlain c then lexer.stepPlain fuel
  else none

def run : Nat → Lexer → Option (List Token)
  | 0, _ => none
  | fuel + 1, lexer => do
    let lexer ← (skipGap fuel lexer).dropStale
    let lexer := lexer.closeBlocks (lexer.cursor.column + 1)
    match lexer.cursor.peek with
    | none => return (← lexer.endDocument).tokens.reverse
    | some c => run fuel (← lexer.stepAt c fuel)

end Lexer

/-- The tokens of a text; none when it is not well formed. -/
def tokens? (text : String) : Option (List Token) := do
  let chars := text.toList
  let chars := if chars.head? == some byteOrderMark then chars.drop 1 else chars
  guard (chars.all isAllowed)
  Lexer.run (chars.length + 3) { cursor := { rest := chars } }

end EditorLint.Yaml
