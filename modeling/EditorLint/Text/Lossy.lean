/-!
Reading UTF-8 when some of it may be broken. A sequence that is cut short or cannot be completed is
read as U+FFFD, and reading goes on at the first byte that does not belong to it.
-/

namespace EditorLint.Text

/-- The first byte of a character: its share of the code point, the bounds of the byte after it,
and the number of bytes that follow. -/
structure LeadByte where
  payload : Nat
  low : Nat := 0x80
  high : Nat := 0xBF
  count : Nat
  deriving DecidableEq, Repr

/-- The bounds of the second byte leave out overlong forms, surrogates, and code points above
U+10FFFF. -/
def LeadByte.of? (byte : Nat) : Option LeadByte :=
  if byte < 0x80 then some { payload := byte, count := 0 }
  else if byte < 0xC2 then none
  else if byte < 0xE0 then some { payload := byte - 0xC0, count := 1 }
  else if byte < 0xF0 then
    let low := if byte = 0xE0 then 0xA0 else 0x80
    let high := if byte = 0xED then 0x9F else 0xBF
    some { payload := byte - 0xE0, low, high, count := 2 }
  else if byte < 0xF5 then
    let low := if byte = 0xF0 then 0x90 else 0x80
    let high := if byte = 0xF4 then 0x8F else 0xBF
    some { payload := byte - 0xF0, low, high, count := 3 }
  else none

/-- The code point that `count` more bytes complete, if they do, and the bytes behind those that
belong to it. The bounds are those of the next byte. -/
def completeCodePoint (codePoint : Nat) :
    Nat → Nat → Nat → List UInt8 → Option Nat × List UInt8
  | 0, _, _, bytes => (some codePoint, bytes)
  | _ + 1, _, _, [] => (none, [])
  | count + 1, low, high, byte :: rest =>
    if low ≤ byte.toNat ∧ byte.toNat ≤ high then
      completeCodePoint (codePoint * 64 + (byte.toNat - 0x80)) count 0x80 0xBF rest
    else (none, byte :: rest)

theorem length_completeCodePoint (codePoint count low high : Nat) (bytes : List UInt8) :
    (completeCodePoint codePoint count low high bytes).2.length ≤ bytes.length := by
  fun_induction completeCodePoint codePoint count low high bytes with
  | case1 | case2 => simp
  | case3 _ _ _ _ _ _ _ ih => exact Nat.le_succ_of_le ih
  | case4 => simp

def replacementCharacter : Char := '\uFFFD'

def decodeLossy : List UInt8 → List Char
  | [] => []
  | byte :: rest =>
    match LeadByte.of? byte.toNat with
    | none => replacementCharacter :: decodeLossy rest
    | some lead =>
      let completed := completeCodePoint lead.payload lead.count lead.low lead.high rest
      (completed.1.map Char.ofNat).getD replacementCharacter :: decodeLossy completed.2
  termination_by bytes => bytes.length
  decreasing_by
    · exact Nat.lt_succ_self _
    · exact Nat.lt_succ_of_le (length_completeCodePoint ..)

end EditorLint.Text
