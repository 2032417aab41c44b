/-!
Punycode, the way to write a label of a host name in ASCII: the ASCII characters come first, then,
from the smallest code point to the greatest, how many steps lie between two insertions.
-/

namespace EditorLint.Punycode

def digitOf (value : Nat) : Char :=
  if value < 26 then Char.ofNat ('a'.toNat + value) else Char.ofNat ('0'.toNat + (value - 26))

/-- The greatest final digit at a place, between 1 and 26. Places count in steps of 36. -/
def threshold (place bias : Nat) : Nat := max 1 (min 26 (place - bias))

theorem one_le_threshold (place bias : Nat) : 1 ≤ threshold place bias := by
  unfold threshold; omega

/-- A number, with the lowest digit first; a digit below the threshold of its place ends it. -/
def digits (place bias value : Nat) : List Char :=
  let least := threshold place bias
  if value < least then [digitOf value]
  else
    digitOf (least + (value - least) % (36 - least))
      :: digits (place + 36) bias ((value - least) / (36 - least))
  termination_by value
  decreasing_by
    have := one_le_threshold place bias
    have := Nat.div_le_self (value - threshold place bias) (36 - threshold place bias)
    omega

/-- The place at which numbers of about this size end. -/
def settle (delta place : Nat) : Nat :=
  if 455 < delta then settle (delta / 35) (place + 36) else place + 36 * delta / (delta + 38)
  termination_by delta
  decreasing_by omega

/-- The bias after a number has been written, when so many characters are in place. -/
def adapt (delta handled : Nat) (first : Bool) : Nat :=
  let delta := if first then delta / 700 else delta / 2
  settle (delta + delta / handled) 0

/-- The steps since the last insertion, and what has been written so far. -/
structure Progress where
  delta : Nat := 0
  bias : Nat := 72
  first : Bool := true
  handled : Nat
  written : List Char

/-- One character of the label while the insertions of one code point are written. -/
def visit (codePoint : Nat) (progress : Progress) (c : Char) : Progress :=
  if c.toNat < codePoint then { progress with delta := progress.delta + 1 }
  else if c.toNat = codePoint then
    { delta := 0
      bias := adapt progress.delta (progress.handled + 1) progress.first
      first := false
      handled := progress.handled + 1
      written := progress.written ++ digits 36 progress.bias progress.delta }
  else progress

/-- Writes the insertions of code points in ascending order, when all below `reached` are done. -/
def insertAll (label : List Char) (progress : Progress) (reached : Nat) : List Nat → List Char
  | [] => progress.written
  | codePoint :: greater =>
    let skipped := (codePoint - reached) * (progress.handled + 1)
    let start := { progress with delta := progress.delta + skipped }
    let progress := label.foldl (visit codePoint) start
    insertAll label { progress with delta := progress.delta + 1 } (codePoint + 1) greater

def isAscii (c : Char) : Bool := c.toNat < 0x80

def encode (label : List Char) : List Char :=
  let basic := label.filter isAscii
  let others := (label.filter (!isAscii ·)).map Char.toNat
  let start := if basic.isEmpty then [] else basic ++ ['-']
  insertAll label { handled := basic.length, written := start } 0x80
    (others.mergeSort (· ≤ ·)).eraseDups

end EditorLint.Punycode
