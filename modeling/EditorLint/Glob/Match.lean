import EditorLint.Glob.Pattern
import EditorLint.Text.Blank

/-!
Matching paths against globs, byte by byte. A matcher keeps all the places in the path that the
tokens so far can have led to, each as the bytes behind it, in the order of the path.
-/

namespace EditorLint

def separatorByte : UInt8 := 0x2F

def charBytes (c : Char) : List UInt8 := (String.singleton c).toUTF8.toList

def unionPlaces : List (List UInt8) → List (List UInt8) → List (List UInt8)
  | [], right => right
  | left, [] => left
  | a :: left, b :: right =>
    if a.length = b.length then a :: unionPlaces left right
    else if b.length < a.length then a :: unionPlaces left (b :: right)
    else b :: unionPlaces (a :: left) right
  termination_by left right => left.length + right.length

def placesFrom : List UInt8 → List (List UInt8)
  | [] => [[]]
  | byte :: rest => (byte :: rest) :: placesFrom rest

def placesBehindSeparators : List UInt8 → List (List UInt8)
  | [] => []
  | byte :: rest =>
    if byte == separatorByte then rest :: placesBehindSeparators rest
    else placesBehindSeparators rest

/-- The places that are reached by going past the given bytes. -/
def pastBytes (bytes : List UInt8) (places : List (List UInt8)) : List (List UInt8) :=
  places.filterMap fun place =>
    if place.take bytes.length == bytes then some (place.drop bytes.length) else none

/-- The bytes of a range of characters: those of its ends, and between the last byte of the first
and the first byte of the last. -/
def rangeHas (range : Char × Char) (byte : UInt8) : Bool :=
  let (low, high) := (charBytes range.1, charBytes range.2)
  if range.1 == range.2 then low.contains byte
  else
    low.dropLast.contains byte || (high.drop 1).contains byte
      || ((low.getLast?.any (· ≤ byte)) && (high.head?.any (byte ≤ ·)))

namespace GlobToken

mutual

/-- Whether a token stands for nothing at all, as a group of empty branches does. -/
def isVoid : GlobToken → Bool
  | alternatives branches => branchesVoid branches
  | _ => false

def tokensVoid : List GlobToken → Bool
  | [] => true
  | token :: rest => token.isVoid && tokensVoid rest

def branchesVoid : List (List GlobToken) → Bool
  | [] => true
  | branch :: rest => tokensVoid branch && branchesVoid rest

end

mutual

/-- The places behind a token. Branches that stand for nothing are left out of a group, unless
there are no others. -/
def advance : GlobToken → List (List UInt8) → List (List UInt8)
  | literal c, places => pastBytes (charBytes c) places
  | any, places => places.filterMap List.tail?
  | star, places => (places.head?.map placesFrom).getD []
  | leadingDirectories, places =>
    unionPlaces places ((places.head?.map placesBehindSeparators).getD [])
  | everythingBelow, places =>
    ((pastBytes [separatorByte] places).head?.map placesFrom).getD []
  | directoriesBetween, places =>
    let behind := pastBytes [separatorByte] places
    unionPlaces behind ((behind.head?.map placesBehindSeparators).getD [])
  | oneOf negated ranges, places =>
    places.filterMap fun
      | byte :: rest => if ranges.any (rangeHas · byte) != negated then some rest else none
      | [] => none
  | alternatives branches, places =>
    if branchesVoid branches then places else advanceBranches branches places

def advanceAll : List GlobToken → List (List UInt8) → List (List UInt8)
  | [], places => places
  | token :: rest, places => advanceAll rest (token.advance places)

def advanceBranches : List (List GlobToken) → List (List UInt8) → List (List UInt8)
  | [], _ => []
  | branch :: rest, places =>
    let others := advanceBranches rest places
    if tokensVoid branch then others else unionPlaces (advanceAll branch places) others

end

def literal? : GlobToken → Option Char
  | literal c => some c
  | _ => none

end GlobToken

namespace Glob

open GlobToken

/-- Whether the tokens of a glob lead from the start of a path to its end. -/
def covers (glob : Glob) (path : List UInt8) : Bool :=
  match glob.tokens with
  | [.leadingDirectories] => true
  | tokens => (advanceAll tokens [path]).any List.isEmpty

def literals? (tokens : List GlobToken) : Option (List Char) := tokens.mapM literal?

/-- Whether a glob is a fixed path, a fixed start or a fixed end of a path. -/
def isFixedText (glob : Glob) : Bool :=
  let ending := match glob.tokens with
    | .leadingDirectories :: .star :: rest | .leadingDirectories :: rest | .star :: rest => rest
    | tokens => tokens
  (literals? ending).any fun chars => !chars.isEmpty

/-- Whether a glob asks for the whole name of a file, or for its extension and nothing else. -/
def asksForName (glob : Glob) : Bool :=
  match glob.tokens with
  | .leadingDirectories :: .star :: .literal '.' :: rest | .star :: .literal '.' :: rest =>
    (literals? rest).any fun chars => '.' ∉ chars && '/' ∉ chars
  | .leadingDirectories :: rest =>
    (literals? rest).any fun chars => !chars.isEmpty && '/' ∉ chars
  | _ => false

/-- Whether a glob ends in a literal extension. -/
def asksForExtension (glob : Glob) : Bool :=
  let ending := glob.tokens.reverse.takeWhile fun token => (literal? token).any (· ≠ '.')
  (ending.all fun token => (literal? token).any (· ≠ '/'))
    && (glob.tokens.reverse[ending.length]?.bind literal?) == some '.'

/-- Whether a glob is decided by the name of the file. -/
def decidedByName (glob : Glob) : Bool :=
  glob.asksForName || (!glob.isFixedText && glob.asksForExtension)

/-- Whether a path matches. A path that ends in a point has no file name, so a glob that is
decided by the name does not match it. -/
def isMatch (glob : Glob) (path : String) : Bool :=
  glob.covers path.toUTF8.toList && !(path.endsWith "." && glob.decidedByName)

end Glob

structure IgnoreSet where
  globs : List Glob := []

namespace IgnoreSet

/-- Reads patterns, of which blank ones do not count. The first one that cannot be read is the
error. -/
def ofPatterns (patterns : List String) : Except String IgnoreSet :=
  let read (pattern : String) : Except String Glob :=
    match Glob.read pattern with
    | some glob => .ok glob
    | none => .error ("invalid glob \u0060" ++ pattern ++ "\u0060")
  ((patterns.filter (!Text.isBlankText ·)).mapM read).map IgnoreSet.mk

def isMatch (ignored : IgnoreSet) (path : String) : Bool :=
  ignored.globs.any (·.isMatch path)

end IgnoreSet

end EditorLint
