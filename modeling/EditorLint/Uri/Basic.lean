import EditorLint.Path
import EditorLint.Uri.Percent

/-!
URIs in normal form, and the names of the files that they stand for.
-/

namespace EditorLint

structure Authority where
  /-- A user name and a password, with the sign that ends them. -/
  userInfo : String := ""
  host : String := ""
  portNumber : Option Nat := none
  deriving DecidableEq, Repr

structure Uri where
  scheme : String
  authority : Option Authority := none
  path : String
  query : Option String := none
  fragment : Option String := none
  deriving DecidableEq, Repr

def Authority.text (authority : Authority) : String :=
  "//" ++ authority.userInfo ++ authority.host
    ++ ((authority.portNumber.map fun number => ":" ++ toString number).getD "")

namespace Uri

/-- The written form. A path that would read as an authority has `/.` in front. -/
def text (uri : Uri) : String :=
  let front := match uri.authority with
    | some authority => authority.text
    | none => if uri.path.startsWith "//" then "/." else ""
  uri.scheme ++ ":" ++ front ++ uri.path ++ (uri.query.map ("?" ++ ·)).getD ""
    ++ (uri.fragment.map ("#" ++ ·)).getD ""

/-- Whether a URI leads to this machine. -/
def isLocal (uri : Uri) : Bool := uri.authority.all fun a => a.host == "" || a.host == "localhost"

/-- A path that ends in the name of a drive needs a slash behind it. -/
def closeDrive (path : List UInt8) : List UInt8 :=
  match path.reverse with
  | mark :: letter :: _ :: _ =>
    let isLetter := (65 ≤ letter && letter ≤ 90) || (97 ≤ letter && letter ≤ 122)
    if isLetter && (mark == 58 || mark == 124) then path ++ [47] else path
  | _ => path

/-- The path of the file that a URI stands for, whatever its scheme. -/
def filePath (uri : Uri) : Option String :=
  if uri.isLocal && uri.path.startsWith "/" then
    some (String.ofList (Text.decodeLossy (closeDrive (Percent.decode uri.path.toList))))
  else none

/-- The name by which the document of a URI goes: its path, or else the whole URI. -/
def fileName (uri : Uri) : String := uri.filePath.getD uri.text

end Uri

end EditorLint
