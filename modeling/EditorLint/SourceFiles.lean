import EditorLint.FileTree
import EditorLint.Glob.Match

/-!
Choosing the files to lint: files that are named themselves, and the source files below the
directories that are named.
-/

namespace EditorLint.SourceFiles

/-- The extensions of source files, in lower case. -/
def extensions : List String := ["js", "jsx", "mjs", "cjs", "ts", "tsx", "mts", "cts"]

/-- Whether a path has the extension of a source file. No letter outside of ASCII has one of
their letters as its lower case. -/
def isSupported (path : String) : Bool :=
  (Path.extension path).any fun found => found.toLower ∈ extensions

mutual

/-- The source files at a path, or below it, in the order of a walk: a directory before what is in
it, and entries sorted by name. What is ignored is left out with everything below it. -/
def walk (ignored : String → Bool) (path : String) : FileNode → List String
  | .file .. => if !ignored path && isSupported path then [path] else []
  | .directory entries =>
    if ignored path then []
    else
      ((walkEntries ignored path entries).mergeSort fun left right => left.1 ≤ right.1).flatMap
        (·.2)
  | .link _ => []

/-- The source files of each entry of a directory, with the name of the entry. -/
def walkEntries (ignored : String → Bool) (path : String) :
    List (String × FileNode) → List (String × List String)
  | [] => []
  | (name, node) :: rest =>
    (name, walk ignored (Path.join path name) node) :: walkEntries ignored path rest

end

/-- The files to lint for a path: a file is linted whatever its name is. -/
def ofPath (files : FileTree) (ignored : String → Bool) (path : String) : List String :=
  match files.find? path with
  | some (.file ..) => [path]
  | some (.directory entries) => walk ignored path (.directory entries)
  | _ => []

def collect (files : FileTree) (ignored : String → Bool) (paths : List String) : List String :=
  paths.flatMap (ofPath files ignored)

end EditorLint.SourceFiles
