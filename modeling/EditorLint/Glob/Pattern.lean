/-!
Glob patterns and how they are written. `*` and `?` match separators too; `**` matches whole
directories when it stands between separators, and counts as two single stars anywhere else.
-/

namespace EditorLint

inductive GlobToken where
  | literal (c : Char)
  | any
  | star
  /-- Any number of directories at the start of a path. -/
  | leadingDirectories
  /-- Everything below a directory. -/
  | everythingBelow
  /-- A separator, or any number of directories between two of them. -/
  | directoriesBetween
  | oneOf (negated : Bool) (ranges : List (Char × Char))
  | alternatives (branches : List (List GlobToken))
  deriving Inhabited

structure Glob where
  tokens : List GlobToken

namespace Glob

def isSeparator (c : Char) : Bool := c == '/'

/-- The state of reading a pattern: the tokens of the open branches, the innermost branch first
and the tokens of each last first; how many branches were open when each group began; and the
character read last. -/
structure Reader where
  branches : List (List GlobToken) := [[]]
  groups : List Nat := []
  last : Option Char := none

namespace Reader

def push (reader : Reader) (token : GlobToken) : Reader :=
  match reader.branches with
  | branch :: outer => { reader with branches := (token :: branch) :: outer }
  | [] => { reader with branches := [[token]] }

def replaceLast (reader : Reader) (token : GlobToken → GlobToken) : Reader :=
  match reader.branches with
  | (old :: branch) :: outer => { reader with branches := (token old :: branch) :: outer }
  | _ => reader

def saw (reader : Reader) (c : Char) : Reader := { reader with last := some c }

def atStart (reader : Reader) : Bool := reader.branches.headD [] |>.isEmpty

def inGroup (reader : Reader) : Bool := !reader.groups.isEmpty

def openGroup (reader : Reader) : Reader :=
  { reader with
    branches := [] :: reader.branches
    groups := reader.branches.length :: reader.groups }

def closeGroup (reader : Reader) : Option Reader :=
  match reader.groups with
  | [] => none
  | outside :: groups =>
    let inside := reader.branches.take (reader.branches.length - outside)
    let outer := { reader with branches := reader.branches.drop inside.length, groups }
    some (outer.push (.alternatives (inside.reverse.map List.reverse)))

def nextBranch (reader : Reader) : Reader :=
  if reader.inGroup then { reader with branches := [] :: reader.branches }
  else reader.push (.literal ',')

/-- Two stars where they do not stand for directories. -/
def twoStars (reader : Reader) : Reader := ((reader.push .star).push .star).saw '*'

/-- Two stars, with what follows them. A separator behind them belongs to them. -/
def pushDirectories (reader : Reader) (rest : List Char) : Reader × List Char :=
  let before := reader.last
  if reader.atStart then
    match rest with
    | [] => ((reader.push .leadingDirectories).saw '*', [])
    | c :: after =>
      if isSeparator c then ((reader.push .leadingDirectories).saw c, after)
      else (reader.twoStars, rest)
  else if !(before.any isSeparator
      || (reader.inGroup && (before == some ',' || before == some '\x7b'))) then
    (reader.twoStars, rest)
  else
    let become (token : GlobToken) : GlobToken → GlobToken
      | .leadingDirectories => .leadingDirectories
      | .everythingBelow => .everythingBelow
      | _ => token
    match rest with
    | [] => ((reader.replaceLast (become .everythingBelow)).saw '*', [])
    | c :: after =>
      if reader.inGroup && (c == ',' || c == '\x7d') then
        ((reader.replaceLast (become .everythingBelow)).saw '*', rest)
      else if isSeparator c then
        ((reader.replaceLast (become .directoriesBetween)).saw c, after)
      else (reader.twoStars, rest)

end Reader

/-- Makes the last range end at a character. -/
def extendLast (c : Char) : List (Char × Char) → Option (List (Char × Char))
  | [] => none
  | (first, _) :: earlier => if c < first then none else some ((first, c) :: earlier)

/-- The ranges of a class up to its closing bracket, with what follows it. A bracket or a dash in
front stands for itself, and so does a dash at the end; `ranges` holds those before, last first. -/
def readRanges (ranges : List (Char × Char)) (first inRange : Bool) :
    List Char → Option (List (Char × Char) × List Char)
  | [] => none
  | c :: rest =>
    if c == ']' && !first then
      some ((if inRange then ('-', '-') :: ranges else ranges).reverse, rest)
    else if c == '-' && !first && !inRange then readRanges ranges false true rest
    else if inRange && c != ']' then do readRanges (← extendLast c ranges) false false rest
    else readRanges ((c, c) :: ranges) false false rest

def readClass (chars : List Char) : Option (GlobToken × List Char) :=
  let (negated, rest) := match chars with
    | '!' :: rest | '^' :: rest => (true, rest)
    | other => (false, other)
  (readRanges [] true false rest).map fun (ranges, rest) => (.oneOf negated ranges, rest)

def readTokens : Nat → Reader → List Char → Option Reader
  | 0, _, _ => none
  | _ + 1, reader, [] => some reader
  | fuel + 1, reader, '*' :: '*' :: rest =>
    let (reader, rest) := reader.pushDirectories rest
    readTokens fuel reader rest
  | fuel + 1, reader, '[' :: rest => do
    let (token, rest) ← readClass rest
    readTokens fuel ((reader.push token).saw ']') rest
  | _ + 1, _, ['\\'] => none
  | fuel + 1, reader, '\\' :: c :: rest => readTokens fuel ((reader.push (.literal c)).saw c) rest
  | fuel + 1, reader, c :: rest => do
    let reader ← match c with
      | '?' => some (reader.push .any)
      | '*' => some (reader.push .star)
      | '\x7b' => some reader.openGroup
      | '\x7d' => reader.closeGroup
      | ',' => some reader.nextBranch
      | c => some (reader.push (.literal c))
    readTokens fuel (reader.saw c) rest

/-- Reads a pattern; there is none when a class or a group is not closed, a group not opened, a
range reversed, or nothing follows a backslash. -/
def read (pattern : String) : Option Glob := do
  let chars := pattern.toList
  let reader ← readTokens (chars.length + 1) {} chars
  match reader.branches with
  | [tokens] => some ⟨tokens.reverse⟩
  | _ => none

end Glob

end EditorLint
