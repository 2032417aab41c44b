import EditorLint.Text.Split
import EditorLint.Uri.Percent
import EditorLint.Uri.Punycode

/-!
The host of a URI in its normal form: a name in lower case and in ASCII, or a numeric address.
-/

namespace EditorLint.UriHost

/-! ## Addresses of four bytes -/

/-- A part of an address: hexadecimal behind `0x`, octal behind `0`, else decimal. -/
def numericPart? : List Char → Option Nat
  | [] => none
  | '0' :: 'x' :: digits => Text.numberIn? 16 digits
  | '0' :: digits => Text.numberIn? 8 digits
  | digits => Text.numberIn? 10 digits

/-- The parts of a name; a point at its end does not count. -/
def labels (name : List Char) : List (List Char) :=
  let parts := Text.splitOn '.' name
  if parts.getLast? = some [] then parts.dropLast else parts

/-- Whether the last part of a name is a number, so that the name must be an address. -/
def endsInNumber (name : List Char) : Bool :=
  match (labels name).getLast? with
  | none | some [] => false
  | some last => last.all Char.isDigit || (numericPart? last).isSome

/-- An address of up to four parts. The last one fills all bytes that are left. -/
def fourByteAddress? (name : List Char) : Option Nat := do
  let parts ← (labels name).mapM numericPart?
  let last ← parts.getLast?
  let leading := parts.dropLast
  guard (leading.length < 4 && leading.all (· < 256) && last < Nat.pow 256 (4 - leading.length))
  return leading.zipIdx.foldl
    (fun address (part, place) => address + part * Nat.pow 256 (3 - place)) last

def fourByteText (address : Nat) : String :=
  ".".intercalate ([3, 2, 1, 0].map fun place => toString (address / Nat.pow 256 place % 256))

/-! ## Addresses of eight words -/

def word? (digits : List Char) : Option Nat :=
  if digits.isEmpty || 4 < digits.length then none else Text.numberIn? 16 digits

/-- A decimal byte without zeros in front. -/
def byte? (digits : List Char) : Option Nat :=
  if digits.isEmpty || 3 < digits.length || (digits.head? = some '0' && 1 < digits.length) then none
  else (Text.numberIn? 10 digits).bind fun byte => if byte < 256 then some byte else none

/-- Words with colons between them; the last two may be written as four bytes. -/
def words? (text : List Char) : Option (List Nat) :=
  if text.isEmpty then some []
  else do
    let parts := Text.splitOn ':' text
    let last ← parts.getLast?
    if last.contains '.' then
      match ← (Text.splitOn '.' last).mapM byte? with
      | [a, b, c, d] => return (← parts.dropLast.mapM word?) ++ [256 * a + b, 256 * c + d]
      | _ => none
    else parts.mapM word?

/-- The text before and after the first two colons that stand together. -/
def splitGap : List Char → Option (List Char × List Char)
  | ':' :: ':' :: rest => some ([], rest)
  | c :: rest => (splitGap rest).map fun (before, after) => (c :: before, after)
  | [] => none

/-- An address of eight words; two colons stand for at least one word that is zero. -/
def eightWordAddress? (text : List Char) : Option (List Nat) := do
  match splitGap text with
  | none =>
    let words ← words? text
    guard (words.length = 8)
    return words
  | some (before, after) =>
    guard (!before.contains '.')
    let before ← words? before
    let after ← words? after
    guard (before.length + after.length < 8)
    return before ++ List.replicate (8 - before.length - after.length) 0 ++ after

def zerosInFront (words : List Nat) : Nat := (words.takeWhile (· = 0)).length

/-- The place and the length of the first of the longest runs of at least two zeros. -/
def longestZeros (words : List Nat) : Option (Nat × Nat) :=
  let runs := (List.range words.length).map fun place => (place, zerosInFront (words.drop place))
  (runs.filter (2 ≤ ·.2)).foldl (fun best run =>
    match best with
    | some (_, length) => if length < run.2 then some run else best
    | none => some run) none

def wordTexts (words : List Nat) : String :=
  ":".intercalate (words.map fun word => String.ofList (Text.hexDigits 1 word))

def eightWordText (words : List Nat) : String :=
  match longestZeros words with
  | none => wordTexts words
  | some (place, length) =>
    wordTexts (words.take place) ++ "::" ++ wordTexts (words.drop (place + length))

def bracketed? (text : List Char) : Option String :=
  if text.getLast? = some ']' then
    (eightWordAddress? (text.drop 1).dropLast).map fun words => "[" ++ eightWordText words ++ "]"
  else none

/-! ## Names -/

/-- What no host may hold, because it ends one or stands around one. -/
def reserved : List Char :=
  [' ', '#', '/', ':', '<', '>', '?', '@', '[', '\\', ']', '^', '|']

def asciiLabel (label : List Char) : List Char :=
  if label.all Punycode.isAscii then label else "xn--".toList ++ Punycode.encode label

def special? (text : List Char) : Option String := do
  if text.head? = some '[' then bracketed? text
  else
    let decoded ← String.fromUTF8? (ByteArray.mk (Percent.decode text).toArray)
    let name := decoded.toList.map Char.toLower
    guard (!name.isEmpty)
    guard (name.all fun c => ' ' < c && c ∉ '%' :: '\x7f' :: reserved)
    let ascii := ['.'].intercalate ((Text.splitOn '.' name).map asciiLabel)
    if endsInNumber ascii then (fourByteAddress? ascii).map fourByteText
    else return String.ofList ascii

/-- The host of any other scheme, which keeps its case and may be empty. -/
def plain? (text : List Char) : Option String :=
  if text.head? = some '[' then bracketed? text
  else if text.any (· ∈ '\x00' :: reserved) then none
  else some (String.ofList (Percent.encode Percent.isControl text))

end EditorLint.UriHost
