import EditorLint.Execution
import EditorLint.FileTree
import EditorLint.InsertionMap
import EditorLint.Text.Blank

/-!
Finding the executable of a linter: in the package directories of the project first, then where
the package managers install for all projects. Every answer is remembered, found or not.
-/

namespace EditorLint

structure ResolutionCache where
  modules : InsertionMap String (Option String) := {}
  globalDirectories : Option (List String) := none
  deriving DecidableEq, Repr

namespace ResolutionCache

/-- The remembered answer for a key, or the answer of the probe, which is remembered from then
on. The probe acts only if no answer is remembered. -/
def getOrProbeM {m : Type → Type} [Monad m] (cache : ResolutionCache) (key : String)
    (probe : Unit → m (Option String)) : m (Option String × ResolutionCache) :=
  match cache.modules.find? key with
  | some answer => return (answer, cache)
  | none => do
    let answer ← probe ()
    return (answer, { cache with modules := cache.modules.insert key answer })

/-- The global directories, probed for the first time only. -/
def globalsOrProbeM {m : Type → Type} [Monad m] (cache : ResolutionCache)
    (probe : Unit → m (List String)) : m (List String × ResolutionCache) :=
  match cache.globalDirectories with
  | some directories => return (directories, cache)
  | none => do
    let directories ← probe ()
    return (directories, { cache with globalDirectories := some directories })

/-- The answer for a key when the probe only looks. -/
def getOrProbe (cache : ResolutionCache) (key : String) (probe : Unit → Option String) :
    Option String × ResolutionCache :=
  Id.run (cache.getOrProbeM key fun _ => pure (probe ()))

/-- The global directories when the probe only looks. -/
def globalsOrProbe (cache : ResolutionCache) (probe : Unit → List String) :
    List String × ResolutionCache :=
  Id.run (cache.globalsOrProbeM fun _ => pure (probe ()))

theorem getOrProbe_eq (cache : ResolutionCache) (key : String) (probe : Unit → Option String) :
    cache.getOrProbe key probe =
      match cache.modules.find? key with
      | some answer => (answer, cache)
      | none => (probe (), { cache with modules := cache.modules.insert key (probe ()) }) := by
  unfold getOrProbe getOrProbeM
  cases cache.modules.find? key <;> rfl

theorem globalsOrProbe_eq (cache : ResolutionCache) (probe : Unit → List String) :
    cache.globalsOrProbe probe =
      match cache.globalDirectories with
      | some directories => (directories, cache)
      | none => (probe (), { cache with globalDirectories := some (probe ()) }) := by
  unfold globalsOrProbe globalsOrProbeM
  cases cache.globalDirectories <;> rfl

def size (cache : ResolutionCache) : Nat := cache.modules.size

def isEmpty (cache : ResolutionCache) : Bool := cache.modules.isEmpty

def clear (_ : ResolutionCache) : ResolutionCache := {}

def key (name : String) (roots : List String) : String :=
  name ++ "@" ++ ":".intercalate roots

end ResolutionCache

/-- The answers of the package managers about where they install for all projects: the prefix of
one, below which executables stand in `bin`, and the directory of executables of the other. -/
structure PackageManagers where
  installPrefix : Option String := none
  executables : Option String := none
  deriving DecidableEq, Repr

/-- What a package manager says: what it prints, without the blanks around it. A failure and an
empty answer say nothing. -/
def PackageManagers.answer (completion : Completion) : Option String :=
  let answer := Text.trim completion.output
  if completion.status = some 0 && !answer.isEmpty then some answer else none

def PackageManagers.ofCompletions (installPrefix executables : Option Completion) :
    PackageManagers :=
  { installPrefix := installPrefix.bind answer, executables := executables.bind answer }

def PackageManagers.directories (managers : PackageManagers) : List String :=
  (managers.installPrefix.map (Path.join · "bin")).toList ++ managers.executables.toList

/-- Where a search ends when a project does not have the executable itself: in fixed directories,
or in those that the package managers name. -/
inductive GlobalDirectories where
  | fixed (directories : List String)
  | managed (managers : PackageManagers)
  deriving DecidableEq, Repr

namespace Resolution

def localDirectory (root : String) : String :=
  Path.join (Path.join root "node_modules") ".bin"

/-- The first of the directories that has a file of the name, as the path of that file. -/
def search (files : FileTree) (name : String) (directories : List String) : Option String :=
  (directories.map (Path.join · name)).find? files.isFile

/-- The directories behind those of the project roots. -/
def globals (source : GlobalDirectories) (cache : ResolutionCache) :
    List String × ResolutionCache :=
  match source with
  | .fixed directories => (directories, cache)
  | .managed managers => cache.globalsOrProbe fun _ => managers.directories

/-- The path of the executable of the given name for project roots. -/
def resolve (files : FileTree) (source : GlobalDirectories) (name : String)
    (roots : List String) (cache : ResolutionCache) : Option String × ResolutionCache :=
  let key := ResolutionCache.key name roots
  match cache.modules.find? key with
  | some answer => (answer, cache)
  | none =>
    let (behind, cache) := globals source cache
    cache.getOrProbe key fun _ => search files name (roots.map localDirectory ++ behind)

end Resolution

end EditorLint
