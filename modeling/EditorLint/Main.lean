import EditorLint.CommandLine.Program

/-!
The command line. The files in the working directory and below are read before the program runs,
and those that it has changed are written back when it has ended. How each run of the linter ends
is read from standard input, one JSON array of status, output and error output on a line.
-/

namespace EditorLint.Main

open Json (Value)

/-- Reads what stands under a name. Every file counts as one that can be run. -/
partial def readEntry (entry : IO.FS.DirEntry) : IO (String × FileNode) := do
  let node ← match (← entry.path.symlinkMetadata).type with
    | .dir => do
      let entries ← (← entry.path.readDir).toList.mapM readEntry
      pure (FileNode.directory entries)
    | .file => do
      let bytes ← IO.FS.readBinFile entry.path
      pure (FileNode.file bytes true)
    | _ => pure (FileNode.link entry.path.toString)
  return (entry.fileName, node)

def readFiles : IO FileTree := do
  let path ← IO.currentDir
  let entries ← (← path.readDir).toList.mapM readEntry
  let names := (path.toString.splitOn "/").filter (· ≠ "")
  return {
    root := FileNode.put (.directory entries) names (.directory [])
    workingDirectory := names }

/-- A run of the linter as a line of standard input tells it. -/
def completionOfLine? (line : String) : Option Completion := do
  match ← (← Value.read line).array? with
  | [status, output, errors] =>
    return ⟨← Value.nullable? (·.unsigned? 8) status, ← output.string?, ← errors.string?⟩
  | _ => none

def readCompletions : IO (List Completion) := do
  let text ← (← IO.getStdin).readToEnd
  return (text.splitOn "\n").filterMap completionOfLine?

/-- The linter ends as it is told to. When nothing is told any more, it reports nothing. -/
def replay : Runner (List Completion)
  | _, completion :: later => (completion, later)
  | _, [] => (⟨some 0, "[\x7b\x7d]", ""⟩, [])

end EditorLint.Main

open EditorLint in
def main (arguments : List String) : IO UInt32 := do
  let files ← Main.readFiles
  let completions ← Main.readCompletions
  let ending := CommandLine.run arguments {} Main.replay files completions
  IO.print ending.output
  IO.eprint ending.errors
  for (path, bytes) in FileTree.changedFiles files ending.files do
    IO.FS.writeBinFile path bytes
  return ending.status.toUInt32
