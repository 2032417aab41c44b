import EditorLint.Text.Digits
import EditorLint.Text.Lossy

/-!
Percent-encoding: which characters each part of a URI writes as the bytes of their UTF-8 form, and
the bytes that an encoded text stands for.
-/

namespace EditorLint.Percent

def encodeByte (byte : UInt8) : List Char :=
  '%' :: (Text.hexDigits 2 byte.toNat).map Char.toUpper

def encode (escaped : Char → Bool) (chars : List Char) : List Char :=
  chars.flatMap fun c =>
    if escaped c then (String.utf8EncodeChar c).flatMap encodeByte else [c]

/-- The bytes of a text. A percent sign without two hexadecimal digits stands for itself. -/
def decode : List Char → List UInt8
  | [] => []
  | c :: rest =>
    match c, rest with
    | '%', high :: low :: after =>
      match Text.numberIn? 16 [high, low] with
      | some value => UInt8.ofNat value :: decode after
      | none => UInt8.ofNat '%'.toNat :: decode (high :: low :: after)
    | c, rest => String.utf8EncodeChar c ++ decode rest

def decodeText (text : String) : String := String.ofList (Text.decodeLossy (decode text.toList))

/-! ## What is encoded -/

def isControl (c : Char) : Bool := c < ' ' || '~' < c

def inFragment (c : Char) : Bool := isControl c || c ∈ [' ', '"', '<', '>', '\u0060']

def inPath (c : Char) : Bool := inFragment c || c ∈ ['#', '?', '\x7b', '\x7d']

def inUserInfo (c : Char) : Bool :=
  inPath c || c ∈ ['/', ':', ';', '=', '@', '[', '\\', ']', '^', '|']

/-- A special scheme also encodes the single quote. -/
def inQuery (special : Bool) (c : Char) : Bool :=
  isControl c || c ∈ [' ', '"', '#', '<', '>'] || (special && c == '\'')

end EditorLint.Percent
