/-!
Numbers written in digits. Letters count as the digits from ten on, in either case.
-/

namespace EditorLint.Text

def digitValue? (c : Char) : Option Nat :=
  if c.isDigit then some (c.toNat - '0'.toNat)
  else if 'a' ≤ c ∧ c ≤ 'f' then some (c.toNat - 'a'.toNat + 10)
  else if 'A' ≤ c ∧ c ≤ 'F' then some (c.toNat - 'A'.toNat + 10)
  else none

/-- The number that digits of a base up to sixteen write; none when there is another character
among them. -/
def numberIn? (base : Nat) (digits : List Char) : Option Nat :=
  digits.foldlM (fun number c =>
    (digitValue? c).bind fun digit => if digit < base then some (base * number + digit) else none) 0

/-- The hexadecimal digits of a number in lower case, with zeros in front up to a width. -/
def hexDigits (width number : Nat) : List Char :=
  let written := Nat.toDigits 16 number
  List.replicate (width - written.length) '0' ++ written

end EditorLint.Text
