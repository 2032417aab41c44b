import EditorLint.Json.Value
import EditorLint.Text.Digits

/-!
Reading JSON text. `Raw.read` checks the syntax and keeps strings and numbers as they are
written; `Raw.value?` gives the meaning, and refuses unpaired surrogates, numbers beyond the
range of double precision and too deep nesting.
-/

namespace EditorLint.Json

/-- A number as it is written: its digits before and after the point, and its exponent. -/
structure NumberText where
  negative : Bool
  whole : List Char
  fraction : Option (List Char)
  exponent : Option (Bool × List Char)
  deriving Repr

/-- JSON text with checked syntax. The characters of a string keep their escapes. -/
inductive Raw where
  | null
  | bool (value : Bool)
  | number (text : NumberText)
  | string (escaped : List Char)
  | array (items : List Raw)
  | object (members : List (List Char × Raw))
  deriving Inhabited, Repr

namespace Raw

/-! ## Syntax -/

def isBlank (c : Char) : Bool := c == ' ' || c == '\t' || c == '\n' || c == '\r'

def skipBlanks (chars : List Char) : List Char := chars.dropWhile isBlank

/-- The characters of a string up to its closing quote, and what follows the quote. -/
def readString : List Char → Option (List Char × List Char)
  | [] => none
  | '"' :: rest => some ([], rest)
  | '\\' :: 'u' :: a :: b :: c :: d :: rest =>
    if (Text.numberIn? 16 [a, b, c, d]).isSome then
      (readString rest).map fun (tail, after) => ('\\' :: 'u' :: a :: b :: c :: d :: tail, after)
    else none
  | '\\' :: c :: rest =>
    if c ∈ ['"', '\\', '/', 'b', 'f', 'n', 'r', 't'] then
      (readString rest).map fun (tail, after) => ('\\' :: c :: tail, after)
    else none
  | c :: rest =>
    if c = '\\' ∨ c < ' ' then none
    else (readString rest).map fun (tail, after) => (c :: tail, after)

def readMinus : List Char → Bool × List Char
  | '-' :: rest => (true, rest)
  | other => (false, other)

/-- The digits of a number in front of the point: no digit may follow a leading zero. -/
def readWhole (chars : List Char) : Option (List Char × List Char) :=
  let (digits, rest) := chars.span Char.isDigit
  if !digits.isEmpty && (digits.head? != some '0' || digits.length == 1) then some (digits, rest)
  else none

/-- The digits behind a point, when there is one. -/
def readFraction : List Char → Option (Option (List Char) × List Char)
  | '.' :: rest =>
    let (digits, rest) := rest.span Char.isDigit
    if digits.isEmpty then none else some (some digits, rest)
  | other => some (none, other)

/-- The exponent, when there is one: whether it goes down, and its digits. -/
def readExponent (chars : List Char) : Option (Option (Bool × List Char) × List Char) :=
  match chars with
  | 'e' :: rest | 'E' :: rest =>
    let (down, rest) := match rest with
      | '+' :: rest => (false, rest)
      | other => readMinus other
    let (digits, rest) := rest.span Char.isDigit
    if digits.isEmpty then none else some (some (down, digits), rest)
  | other => some (none, other)

/-- A number: point and exponent may be missing, but need digits. -/
def readNumber (chars : List Char) : Option (NumberText × List Char) := do
  let (negative, chars) := readMinus chars
  let (whole, chars) ← readWhole chars
  let (fraction, chars) ← readFraction chars
  let (exponent, chars) ← readExponent chars
  return (⟨negative, whole, fraction, exponent⟩, chars)

mutual

/-- A value at the start of the text, and what follows it. -/
def readValue : Nat → List Char → Option (Raw × List Char)
  | 0, _ => none
  | fuel + 1, chars =>
    match skipBlanks chars with
    | 'n' :: 'u' :: 'l' :: 'l' :: rest => some (.null, rest)
    | 't' :: 'r' :: 'u' :: 'e' :: rest => some (.bool true, rest)
    | 'f' :: 'a' :: 'l' :: 's' :: 'e' :: rest => some (.bool false, rest)
    | '"' :: rest => (readString rest).map fun (text, rest) => (.string text, rest)
    | '[' :: rest =>
      match skipBlanks rest with
      | ']' :: rest => some (.array [], rest)
      | _ => (readItems fuel rest).map fun (items, rest) => (.array items, rest)
    | '{' :: rest =>
      match skipBlanks rest with
      | '}' :: rest => some (.object [], rest)
      | _ => (readMembers fuel rest).map fun (members, rest) => (.object members, rest)
    | other => (readNumber other).map fun (written, rest) => (.number written, rest)

/-- The items of an array that is not empty, with its closing bracket. -/
def readItems : Nat → List Char → Option (List Raw × List Char)
  | 0, _ => none
  | fuel + 1, chars => do
    let (item, rest) ← readValue fuel chars
    match skipBlanks rest with
    | ',' :: rest =>
      let (items, rest) ← readItems fuel rest
      return (item :: items, rest)
    | ']' :: rest => return ([item], rest)
    | _ => none

/-- The members of an object that is not empty, with its closing brace. -/
def readMembers : Nat → List Char → Option (List (List Char × Raw) × List Char)
  | 0, _ => none
  | fuel + 1, chars => do
    match skipBlanks chars with
    | '"' :: rest =>
      let (name, rest) ← readString rest
      match skipBlanks rest with
      | ':' :: rest =>
        let (value, rest) ← readValue fuel rest
        match skipBlanks rest with
        | ',' :: rest =>
          let (members, rest) ← readMembers fuel rest
          return ((name, value) :: members, rest)
        | '}' :: rest => return ([(name, value)], rest)
        | _ => none
      | _ => none
    | _ => none

end

/-- A whole text as one value; only blanks may stand around it. -/
def read (text : String) : Option Raw := do
  let chars := text.toList
  let (value, rest) ← readValue (2 * chars.length + 2) chars
  guard (skipBlanks rest).isEmpty
  return value

/-! ## Meaning -/

def codeUnit (a b c d : Char) : Nat :=
  (Text.numberIn? 16 [a, b, c, d]).getD 0

def isHighSurrogate (unit : Nat) : Bool := 0xD800 ≤ unit && unit ≤ 0xDBFF

def isLowSurrogate (unit : Nat) : Bool := 0xDC00 ≤ unit && unit ≤ 0xDFFF

/-- The characters that an escaped text stands for; a surrogate must be part of a pair. -/
def unescape : List Char → Option (List Char)
  | [] => some []
  | '\\' :: 'u' :: a :: b :: c :: d :: '\\' :: 'u' :: e :: f :: g :: h :: rest =>
    let first := codeUnit a b c d
    let second := codeUnit e f g h
    if isHighSurrogate first then
      if isLowSurrogate second then
        (unescape rest).map
          (Char.ofNat (0x10000 + (first - 0xD800) * 0x400 + (second - 0xDC00)) :: ·)
      else none
    else if isLowSurrogate first then none
    else (unescape ('\\' :: 'u' :: e :: f :: g :: h :: rest)).map (Char.ofNat first :: ·)
  | '\\' :: 'u' :: a :: b :: c :: d :: rest =>
    let unit := codeUnit a b c d
    if isHighSurrogate unit || isLowSurrogate unit then none
    else (unescape rest).map (Char.ofNat unit :: ·)
  | '\\' :: c :: rest =>
    let meant := match c with
      | 'b' => '\x08'
      | 'f' => '\x0c'
      | 'n' => '\n'
      | 'r' => '\r'
      | 't' => '\t'
      | other => other
    (unescape rest).map (meant :: ·)
  | c :: rest => (unescape rest).map (c :: ·)

def digitsValue (digits : List Char) : Nat :=
  digits.foldl (fun value digit => 10 * value + (digit.toNat - '0'.toNat)) 0

/-- The least number that rounds to no finite number of double precision. -/
def finiteBound : Nat := (1 <<< 1024) - (1 <<< 970)

/-- Whether `coefficient * 10 ^ exponent` rounds to a finite number of double precision. The
number of digits decides, except next to the bound, which has 309 digits. -/
def isFinite (coefficient : Nat) (exponent : Int) : Bool :=
  let digits : Int := (Nat.toDigits 10 coefficient).length
  if coefficient = 0 || digits + exponent < 309 then true
  else if digits + exponent > 309 then false
  else
    match exponent with
    | .ofNat up => coefficient * Nat.pow 10 up < finiteBound
    | .negSucc down => coefficient < finiteBound * Nat.pow 10 (down + 1)

/-- An integer unless it is written with a fraction, an exponent, or as minus zero. -/
def NumberText.value? (text : NumberText) : Option Value :=
  let fraction := text.fraction.getD []
  let coefficient := digitsValue (text.whole ++ fraction)
  let signed : Int := if text.negative then -coefficient else coefficient
  let exponent : Int := match text.exponent with
    | none => 0
    | some (down, digits) => if down then -(digitsValue digits) else digitsValue digits
  let exponent := exponent - fraction.length
  if !isFinite coefficient exponent then none
  else if text.fraction.isNone && text.exponent.isNone && !(text.negative && coefficient == 0) then
    some (.integer signed)
  else some (.real signed exponent)

mutual

/-- The value that a syntax tree means, when arrays and objects nest no deeper than `depth`. -/
def value? (depth : Nat) : Raw → Option Value
  | null => some .null
  | bool value => some (.bool value)
  | number text => NumberText.value? text
  | string escaped => (unescape escaped).map fun chars => .string (String.ofList chars)
  | array items =>
    match depth with
    | 0 => none
    | depth + 1 => (itemValues? depth items).map .array
  | object members =>
    match depth with
    | 0 => none
    | depth + 1 => (memberValues? depth [] members).map .object

def itemValues? (depth : Nat) : List Raw → Option (List Value)
  | [] => some []
  | item :: rest => do
    let value ← value? depth item
    let values ← itemValues? depth rest
    return value :: values

/-- Members in order, added to those read before; a repeated member takes the later value. -/
def memberValues? (depth : Nat) (read : List (String × Value)) :
    List (List Char × Raw) → Option (List (String × Value))
  | [] => some read
  | (name, item) :: rest => do
    let name ← unescape name
    let value ← value? depth item
    memberValues? depth (setMember (String.ofList name) value read) rest

end

end Raw

/-- How deep arrays and objects may nest in a text that is read as a value. -/
def nestingLimit : Nat := 127

namespace Value

/-- Reads a text as one value, with at most `depth` nested arrays and objects. -/
def readWithin (depth : Nat) (text : String) : Option Value :=
  (Raw.read text).bind (Raw.value? depth)

def read (text : String) : Option Value := readWithin nestingLimit text

end Value

end EditorLint.Json
