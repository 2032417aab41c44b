import EditorLint.Uri.Basic
import EditorLint.Uri.Host

/-!
Reading a URI and bringing it into normal form: the scheme and the host in lower case, the steps
`.` and `..` carried out, and everything that may not stand in a URI percent-encoded.
-/

namespace EditorLint.Uri

/-- Schemes differ in how they write the authority and the path. -/
inductive SchemeKind where
  | file
  /-- The other schemes that always have a host. -/
  | special
  | other
  deriving DecidableEq, Repr

namespace SchemeKind

def ofScheme (scheme : String) : SchemeKind :=
  if scheme = "file" then file
  else if scheme ∈ ["http", "https", "ws", "wss", "ftp"] then special
  else other

/-- A backslash separates like a slash, but not in every scheme. -/
def isSeparator (kind : SchemeKind) (c : Char) : Bool := c == '/' || (c == '\\' && kind ≠ other)

end SchemeKind

def defaultPort? : String → Option Nat
  | "http" | "ws" => some 80
  | "https" | "wss" => some 443
  | "ftp" => some 21
  | _ => none

/-! ## Paths -/

def isHere (segment : String) : Bool := segment.toLower ∈ [".", "%2e"]

def isParent (segment : String) : Bool := segment.toLower ∈ ["..", ".%2e", "%2e.", "%2e%2e"]

/-- A letter with a colon or a bar behind it. -/
def isDrive (segment : String) : Bool :=
  match segment.toList with
  | [letter, mark] => letter.isAlpha && (mark == ':' || mark == '|')
  | _ => false

/-- The parent of a path, with its segments in reverse. A drive has no parent. -/
def climb : List String → List String
  | [] => []
  | top :: below => if isDrive top then top :: below else below

/-- A drive at the start of a file path is written with a colon. -/
def plainDrive (kind : SchemeKind) (above : List String) (segment : String) : String :=
  if kind = .file && above.isEmpty && isDrive segment then
    String.ofList (segment.toList.take 1) ++ ":"
  else segment

/-- Carries out the steps `.` and `..`. A path that ends in a step ends in an empty segment. The
segments above are in reverse. -/
def follow (kind : SchemeKind) (above : List String) : List String → List String
  | [] => above.reverse
  | segment :: rest =>
    if isParent segment || isHere segment then
      let reached := if isParent segment then climb above else above
      if rest.isEmpty then reached.reverse ++ [""] else follow kind reached rest
    else follow kind (plainDrive kind above segment :: above) rest

/-- A drive is a segment of its own, even when no separator follows it. -/
def splitDrive (kind : SchemeKind) : List String → List String
  | first :: rest =>
    match kind, first.toList with
    | .file, letter :: ':' :: c :: name =>
      if letter.isAlpha then String.ofList [letter, ':'] :: String.ofList (c :: name) :: rest
      else first :: rest
    | _, _ => first :: rest
  | [] => []

/-- The path that a text without its leading separator gives. File paths start with one slash
only. -/
def readPath (kind : SchemeKind) (text : List Char) : String :=
  let unified := text.map fun c => if kind.isSeparator c then '/' else c
  let segments := (Text.splitOn '/' unified).map fun segment =>
    String.ofList (Percent.encode Percent.inPath segment)
  let path := "/".intercalate (follow kind [] (splitDrive kind segments))
  if kind = .file then "/" ++ String.ofList (path.toList.dropWhile (· == '/')) else "/" ++ path

/-- A path behind an authority. Without any path, only some schemes have one nevertheless. -/
def readPathAfter (kind : SchemeKind) : List Char → String
  | [] => if kind = .other then "" else "/"
  | c :: rest => if kind.isSeparator c then readPath kind rest else readPath kind (c :: rest)

/-! ## Authorities -/

/-- The user name and the password before the last `@`, and the text behind it. -/
def splitUserInfo (text : List Char) : Option (List Char) × List Char :=
  let (after, before) := text.reverse.span (· ≠ '@')
  match before with
  | [] => (none, text)
  | _ :: user => (some user.reverse, after.reverse)

def readUserInfo (text : List Char) : String :=
  let (name, rest) := text.span (· ≠ ':')
  let password := rest.drop 1
  let encode := Percent.encode Percent.inUserInfo
  if name.isEmpty && password.isEmpty then ""
  else
    let behind := if password.isEmpty then [] else ':' :: encode password
    String.ofList (encode name ++ behind ++ ['@'])

/-- A host and what follows it, which starts with a colon unless it is empty. Colons within
brackets belong to the host. -/
def splitPort (inBrackets : Bool) : List Char → List Char × List Char
  | [] => ([], [])
  | c :: rest =>
    if c = ':' ∧ !inBrackets then ([], c :: rest)
    else
      let (host, behind) := splitPort (c == '[' || (inBrackets && c != ']')) rest
      (c :: host, behind)

/-- The number behind a colon, unless it goes without saying for the scheme. -/
def readPort? (scheme : String) : List Char → Option (Option Nat)
  | [] | [_] => some none
  | _ :: digits => do
    let number ← Text.numberIn? 10 digits
    guard (number < 65536)
    return if defaultPort? scheme = some number then none else some number

def readAuthority? (scheme : String) (kind : SchemeKind) (text : List Char) : Option Authority := do
  let (user, text) := splitUserInfo text
  let (hostText, portText) := splitPort false text
  let host ← if kind = .special then UriHost.special? hostText else UriHost.plain? hostText
  let userInfo := (user.map readUserInfo).getD ""
  guard (host ≠ "" || (userInfo.isEmpty && portText.isEmpty))
  return { userInfo, host, portNumber := ← readPort? scheme portText }

/-! ## Whole URIs -/

/-- The authority and the path of a file URI. A drive in the place of the host belongs to the path,
and takes the host away when it starts the path. -/
def readFile? (text : List Char) : Option (Authority × String) :=
  let isSeparator := SchemeKind.file.isSeparator
  match text with
  | a :: b :: rest =>
    if isSeparator a && isSeparator b then
      let (hostText, pathText) := rest.span (!isSeparator ·)
      if isDrive (String.ofList hostText) then some ({}, readPath .file rest)
      else do
        let host ← if hostText.isEmpty then some "" else UriHost.special? hostText
        let path := readPathAfter .file pathText
        let first := (Text.splitOn '/' (path.toList.drop 1)).head?.getD []
        if host = "localhost" || isDrive (String.ofList first) then return ({}, path)
        else return ({ host }, path)
    else some ({}, readPathAfter .file text)
  | _ => some ({}, readPathAfter .file text)

/-- The authority and the path behind the colon of the scheme. -/
def readHierarchy? (scheme : String) (text : List Char) : Option (Option Authority × String) :=
  let withAuthority (kind : SchemeKind) (text : List Char) :=
    let (authorityText, pathText) := text.span (!kind.isSeparator ·)
    (readAuthority? scheme kind authorityText).map fun authority =>
      (some authority, readPathAfter kind pathText)
  match SchemeKind.ofScheme scheme, text with
  | .file, text => (readFile? text).map fun (authority, path) => (some authority, path)
  | .special, text => withAuthority .special (text.dropWhile SchemeKind.special.isSeparator)
  | .other, '/' :: '/' :: rest => withAuthority .other rest
  | .other, '/' :: rest => some (none, readPath .other rest)
  | .other, text => some (none, String.ofList (Percent.encode Percent.isControl text))

def readScheme? (text : List Char) : Option (String × List Char) :=
  match text.span (fun c => c.isAlphanum || c ∈ ['+', '-', '.']) with
  | (c :: rest, ':' :: after) =>
    if c.isAlpha then some ((String.ofList (c :: rest)).toLower, after) else none
  | _ => none

/-- A text up to a mark, and what follows the mark. -/
def cutAt (mark : Char) (text : List Char) : List Char × Option (List Char) :=
  match text.span (· ≠ mark) with
  | (before, _ :: after) => (before, some after)
  | (before, []) => (before, none)

/-- Blanks and controls around a URI do not belong to it, and neither do tabs and line breaks
within it. -/
def strip (text : List Char) : List Char :=
  let trimmed := ((text.dropWhile (· ≤ ' ')).reverse.dropWhile (· ≤ ' ')).reverse
  trimmed.filter fun c => c ≠ '\t' && c ≠ '\n' && c ≠ '\r'

def read? (text : String) : Option Uri := do
  let (text, fragment) := cutAt '#' (strip text.toList)
  let (text, query) := cutAt '?' text
  let (scheme, text) ← readScheme? text
  let (authority, path) ← readHierarchy? scheme text
  let special := SchemeKind.ofScheme scheme ≠ .other
  return { scheme, authority, path
           query := query.map fun query =>
             String.ofList (Percent.encode (Percent.inQuery special) query)
           fragment := fragment.map fun fragment =>
             String.ofList (Percent.encode Percent.inFragment fragment) }

end EditorLint.Uri
