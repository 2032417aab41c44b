import EditorLint.LintError
import EditorLint.Path

/-!
Files and directories as a tree, and the paths that lead to them.
-/

namespace EditorLint

inductive FileNode where
  | file (bytes : ByteArray) (executable : Bool)
  | directory (entries : List (String × FileNode))
  /-- A symbolic link; neither a walk nor a path follows it. -/
  | link (target : String)
  deriving Inhabited

namespace FileNode

def at? : FileNode → List String → Option FileNode
  | node, [] => some node
  | directory entries, name :: names => (entries.lookup name).bind (·.at? names)
  | file .., _ :: _ | link _, _ :: _ => none

/-- Sets an entry of a directory; an entry that is there keeps its place. -/
def setEntry (name : String) (node : FileNode) :
    List (String × FileNode) → List (String × FileNode)
  | [] => [(name, node)]
  | (other, old) :: rest =>
    if other = name then (name, node) :: rest else (other, old) :: setEntry name node rest

/-- Puts a node at the end of a list of names, and makes the directories on the way. -/
def put (node : FileNode) : List String → FileNode → FileNode
  | [], _ => node
  | name :: names, old =>
    let entries := match old with
      | directory entries => entries
      | _ => []
    directory (setEntry name (put node names ((entries.lookup name).getD (directory []))) entries)

/-- Takes away the node at the end of a list of names. -/
def erase : List String → FileNode → FileNode
  | [name], directory entries => directory (entries.filter (·.1 ≠ name))
  | name :: names, directory entries =>
    match entries.lookup name with
    | some child => directory (setEntry name (erase names child) entries)
    | none => directory entries
  | _, node => node

mutual

/-- The files at a path and below it, with what they hold. -/
def contents (path : String) : FileNode → List (String × ByteArray)
  | file bytes _ => [(path, bytes)]
  | directory entries => entryContents path entries
  | link _ => []

def entryContents (path : String) : List (String × FileNode) → List (String × ByteArray)
  | [] => []
  | (name, node) :: rest => node.contents (Path.join path name) ++ entryContents path rest

end

def isFile : FileNode → Bool
  | file .. => true
  | _ => false

def isDirectory : FileNode → Bool
  | directory _ => true
  | _ => false

end FileNode

/-- All files, and the directory in which relative paths start. -/
structure FileTree where
  root : FileNode := .directory []
  workingDirectory : List String := []

namespace FileTree

def workingPath (tree : FileTree) : String := "/" ++ "/".intercalate tree.workingDirectory

/-- One piece of a path, taken in the directory that `names` leads to. -/
def step (tree : FileTree) (names : List String) (piece : String) : Option (List String) :=
  match tree.root.at? names with
  | some (.directory entries) =>
    match piece with
    | "" | "." => some names
    | ".." => some names.dropLast
    | name => if (entries.lookup name).isSome then some (names ++ [name]) else none
  | _ => none

/-- The names that a path leads along; none when it leads nowhere. -/
def resolve (tree : FileTree) (path : String) : Option (List String) :=
  if path.isEmpty then none
  else
    (path.splitOn "/").foldlM tree.step
      (if Path.isAbsolute path then [] else tree.workingDirectory)

def find? (tree : FileTree) (path : String) : Option FileNode :=
  (tree.resolve path).bind tree.root.at?

def isFile (tree : FileTree) (path : String) : Bool := (tree.find? path).any (·.isFile)

def isDirectory (tree : FileTree) (path : String) : Bool := (tree.find? path).any (·.isDirectory)

def isExecutable (tree : FileTree) (path : String) : Bool :=
  match tree.find? path with
  | some (.file _ executable) => executable
  | _ => false

/-- The text of a file, which must be UTF-8. -/
def readText (tree : FileTree) (path : String) : Except LintError String :=
  match tree.find? path with
  | some (.file bytes _) =>
    match String.fromUTF8? bytes with
    | some text => .ok text
    | none => .error .io
  | _ => .error .io

def overwrite (tree : FileTree) (path text : String) : Except LintError FileTree :=
  match tree.resolve path with
  | none => .error .io
  | some names =>
    match tree.root.at? names with
    | some (.file _ executable) =>
      .ok { tree with root := FileNode.put (.file text.toUTF8 executable) names tree.root }
    | _ => .error .io

/-- The files in the working directory and below that are new or hold something else than
before, by their paths from there. -/
def changedFiles (before after : FileTree) : List (String × ByteArray) :=
  let contents (tree : FileTree) :=
    ((tree.root.at? tree.workingDirectory).getD (.directory [])).contents ""
  let old := contents before
  (contents after).filter fun (path, bytes) => (old.lookup path).all (· != bytes)

end FileTree

end EditorLint
