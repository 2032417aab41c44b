/-!
Paths with `/` between their components, as texts. A path that starts with `/` is absolute; `.`
means nothing but at the start of a relative path, and `..` stands for the parent.
-/

namespace EditorLint.Path

inductive Component where
  | root
  | here
  | parent
  | name (text : String)
  deriving DecidableEq, Repr

def Component.text : Component → String
  | root => "/"
  | here => "."
  | parent => ".."
  | name text => text

def isAbsolute (path : String) : Bool := path.startsWith "/"

/-- A path below a base: an absolute path replaces the base, and a separator is added unless the
base is empty or ends in one. -/
def join (base path : String) : String :=
  if isAbsolute path || base.isEmpty then path
  else if base.endsWith "/" then base ++ path
  else base ++ "/" ++ path

/-- A piece between two separators as a component; empty pieces and `.` are none. -/
def Component.ofPiece : String → Option Component
  | "" | "." => none
  | ".." => some .parent
  | text => some (.name text)

def components (path : String) : List Component :=
  let pieces := path.splitOn "/"
  let inner := pieces.filterMap Component.ofPiece
  if isAbsolute path then .root :: inner
  else if pieces.head? = some "." then .here :: inner
  else inner

def ofComponents (components : List Component) : String :=
  components.foldl (fun path component => join path component.text) ""

/-- The last component, when it is a name. -/
def fileName (path : String) : Option String :=
  match (components path).getLast? with
  | some (.name text) => some text
  | _ => none

/-- The text after the last point of the file name, unless that point comes first. -/
def extension (path : String) : Option String :=
  (fileName path).bind fun name =>
    let (after, before) := name.toList.reverse.span (· ≠ '.')
    match before with
    | _ :: _ :: _ => some (String.ofList after.reverse)
    | _ => none

/-- The way from one directory to a path: a shared start is left out, the rest of the directory
is climbed. -/
def descend : List Component → List Component → List Component
  | components, [] => components
  | [], base => List.replicate base.length .parent
  | component :: components, step :: base =>
    if component = step then descend components base
    else List.replicate (base.length + 1) .parent ++ component :: components

/-- A path as seen from an absolute directory, whose path has no `..`. Relative paths are shown
as they are. -/
def relativeTo (directory path : String) : String :=
  if isAbsolute path then ofComponents (descend (components path) (components directory))
  else path

end EditorLint.Path
