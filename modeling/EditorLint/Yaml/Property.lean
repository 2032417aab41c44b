import EditorLint.Yaml.Scalar
import EditorLint.Yaml.Token

/-!
The names that YAML text gives to nodes, anchors and tags, and the directives before a document.
-/

namespace EditorLint.Yaml

/-- The name of an anchor or alias, behind its first character. -/
def readAnchorName (cursor : Cursor) : Option (String × Cursor) := do
  let (name, rest) := cursor.span isWordChar
  guard (!name.isEmpty)
  guard (rest.atGap || rest.peek.any (· ∈ ['?', ':', ',', ']', '\x7d', '%', '@', '\u0060']))
  return (String.ofList name, rest)

/-! ## Tags -/

/-- The characters of a tag; commas and brackets only stand between angle brackets. -/
def isTagChar (verbatim : Bool) (c : Char) : Bool :=
  isWordChar c
    || c ∈ [';', '/', '?', ':', '@', '&', '=', '+', '$', '.', '%', '!', '~', '*', '\'', '(', ')']
    || (verbatim && c ∈ [',', '[', ']'])

/-- How many bytes a character has that starts with the given byte. -/
def utf8Length? (first : Nat) : Option Nat :=
  if first < 0x80 then some 1
  else if 0xC0 ≤ first && first < 0xE0 then some 2
  else if 0xE0 ≤ first && first < 0xF0 then some 3
  else if 0xF0 ≤ first && first < 0xF8 then some 4
  else none

def readEscapedByte : List Char → Option (Nat × List Char)
  | '%' :: high :: low :: rest => (Text.numberIn? 16 [high, low]).map (·, rest)
  | _ => none

def readContinuation : Nat → List Char → Option (List Nat × List Char)
  | 0, rest => some ([], rest)
  | count + 1, rest => do
    let (byte, rest) ← readEscapedByte rest
    guard (0x80 ≤ byte && byte < 0xC0)
    let (bytes, rest) ← readContinuation count rest
    return (byte :: bytes, rest)

/-- The text of UTF-8 bytes; bytes that are none count as one replacement character. -/
def utf8Text (bytes : List Nat) : List Char :=
  match String.fromUTF8? (ByteArray.mk (bytes.map UInt8.ofNat).toArray) with
  | some text => text.toList
  | none => ['\ufffd']

/-- The text of a tag, in which a percent sign starts an escaped character. -/
def unescapeTag : Nat → List Char → Option (List Char)
  | 0, _ => none
  | _ + 1, [] => some []
  | fuel + 1, '%' :: rest => do
    let (first, rest) ← readEscapedByte ('%' :: rest)
    let (later, rest) ← readContinuation ((← utf8Length? first) - 1) rest
    return utf8Text (first :: later) ++ (← unescapeTag fuel rest)
  | fuel + 1, c :: rest => (unescapeTag fuel rest).map (c :: ·)

def readTagText (verbatim : Bool) (cursor : Cursor) : Option (List Char × Cursor) := do
  let (escaped, rest) := cursor.span (isTagChar verbatim)
  return (← unescapeTag (escaped.length + 1) escaped, rest)

/-- The handle in front: an exclamation mark, a name and perhaps a second mark. -/
def readHandle (cursor : Cursor) : Option (List Char × Cursor) := do
  guard (cursor.startsWith '!')
  let (name, rest) := cursor.advance.span isWordChar
  if rest.startsWith '!' then return ('!' :: name ++ ['!'], rest.advance)
  else return ('!' :: name, rest)

/-- A tag as handle and suffix. A tag between angle brackets and the lone exclamation mark have
no handle. -/
def readTag (inFlow : Bool) (cursor : Cursor) : Option (Token × Cursor) := do
  let (token, rest) ←
    if cursor.peekAt 1 == some '<' then do
      let (suffix, rest) ← readTagText true (cursor.advance 2)
      guard (!suffix.isEmpty && rest.startsWith '>')
      some (Token.tag "" (String.ofList suffix), rest.advance)
    else do
      let (handle, rest) ← readHandle cursor
      let (suffix, rest) ← readTagText false rest
      if handle.length ≥ 2 && handle.getLast? == some '!' then do
        guard (!suffix.isEmpty)
        some (Token.tag (String.ofList handle) (String.ofList suffix), rest)
      else
        match handle.drop 1 ++ suffix with
        | [] => some (Token.tag "" "!", rest)
        | suffix => some (Token.tag "!" (String.ofList suffix), rest)
  guard (rest.atGap || (inFlow && rest.startsWith ','))
  return (token, rest)

/-! ## Directives -/

/-- A number of at most nine digits. -/
def readVersionNumber (cursor : Cursor) : Option (Nat × Cursor) := do
  let (digits, rest) := cursor.span Char.isDigit
  guard (!digits.isEmpty && digits.length ≤ 9)
  return (digits.foldl (fun value digit => 10 * value + (digit.toNat - '0'.toNat)) 0, rest)

def readVersion (cursor : Cursor) : Option (Token × Cursor) := do
  let (major, rest) ← readVersionNumber cursor
  guard (rest.startsWith '.')
  let (minor, rest) ← readVersionNumber rest.advance
  return (.version major minor, rest)

def readTagAlias (cursor : Cursor) : Option (Token × Cursor) := do
  let (handle, rest) ← readHandle cursor
  guard (handle.length == 1 || handle.getLast? == some '!')
  guard (rest.peek.any isBlank)
  let (replacement, rest) ← readTagText true (rest.skip isBlank)
  guard (!replacement.isEmpty && rest.atGap)
  return (.tagAlias (String.ofList handle) (String.ofList replacement), rest)

def readDirective (cursor : Cursor) : Option (Token × Cursor) := do
  let (name, rest) := cursor.advance.span isWordChar
  guard rest.atGap
  let rest := rest.skip isBlank
  let (token, rest) ← match String.ofList name with
    | "YAML" => readVersion rest
    | "TAG" => readTagAlias rest
    | _ => none
  return (token, ← rest.skipToLineEnd)

end EditorLint.Yaml
