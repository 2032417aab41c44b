/-!
Text measured in UTF-16 code units, the measure in which linters and editors give offsets:
a character above U+FFFF counts two units, any other character one.
-/

namespace EditorLint.Text

/-- The UTF-16 code units of one character. -/
def charUnits (c : Char) : Nat := if c.toNat < 0x10000 then 1 else 2

def units : List Char → Nat
  | [] => 0
  | c :: rest => charUnits c + units rest

def bytes : List Char → Nat
  | [] => 0
  | c :: rest => c.utf8Size + bytes rest

theorem charUnits_pos (c : Char) : 0 < charUnits c := by
  unfold charUnits; split <;> omega

theorem charUnits_le_two (c : Char) : charUnits c ≤ 2 := by
  unfold charUnits; split <;> omega

@[simp] theorem units_append (left right : List Char) :
    units (left ++ right) = units left + units right := by
  induction left with
  | nil => simp [units]
  | cons c rest ih => simp [units, ih]; omega

@[simp] theorem bytes_append (left right : List Char) :
    bytes (left ++ right) = bytes left + bytes right := by
  induction left with
  | nil => simp [bytes]
  | cons c rest ih => simp [bytes, ih]; omega

/-- The text from a byte offset on, when that offset lies between two characters. -/
def dropBytes? : List Char → Nat → Option (List Char)
  | chars, 0 => some chars
  | [], _ + 1 => none
  | c :: rest, count => if c.utf8Size ≤ count then dropBytes? rest (count - c.utf8Size) else none

/-- The text before a byte offset, when that offset lies between two characters. -/
def takeBytes? : List Char → Nat → Option (List Char)
  | _, 0 => some []
  | [], _ + 1 => none
  | c :: rest, count =>
    if c.utf8Size ≤ count then (takeBytes? rest (count - c.utf8Size)).map (c :: ·) else none

/-- The text between two byte offsets, when both lie between characters and are in order. -/
def slice? (chars : List Char) (start stop : Nat) : Option (List Char) :=
  if start ≤ stop then (dropBytes? chars start).bind (takeBytes? · (stop - start)) else none

end EditorLint.Text
