import EditorLint.Proofs.InsertionMap
import EditorLint.Proofs.Path
import EditorLint.Resolution
import Mathlib

/-!
Searches for executables with a memory. A request is answered with what was found for the first
request of its key, so that the memory shows exactly where requests of one key find different
things. Keys can be read back as long as no separator stands in a name or in a root.
-/

namespace EditorLint

/-! ## Keys -/

namespace ResolutionCache

theorem takeWhile_append_cons {front : List Char} {c : Char} (missing : c ∉ front)
    (rest : List Char) : (front ++ c :: rest).takeWhile (· ≠ c) = front := by
  rw [List.takeWhile_append_of_pos]
  · simp
  · intro other member
    simp only [ne_eq, decide_not, Bool.not_eq_true', decide_eq_false_iff_not]
    rintro rfl
    exact missing member

theorem intercalate_eq_nil_iff (separator : Char) {parts : List (List Char)}
    (nonempty : ∀ part ∈ parts, part ≠ []) :
    [separator].intercalate parts = [] ↔ parts = [] := by
  constructor
  · intro empty
    cases parts with
    | nil => rfl
    | cons part rest =>
        obtain ⟨here, -⟩ := List.forall_mem_cons.mp nonempty
        cases rest with
        | nil => exact absurd (by simpa using empty) here
        | cons second others => simp [List.intercalate_cons_cons, here] at empty
  · rintro rfl
    rfl

/-- Parts that are not empty and have no separator in them can be read back from their join. -/
theorem intercalate_inj {separator : Char} {parts others : List (List Char)}
    (plain : ∀ part ∈ parts, part ≠ [] ∧ separator ∉ part)
    (plainOthers : ∀ part ∈ others, part ≠ [] ∧ separator ∉ part)
    (same : [separator].intercalate parts = [separator].intercalate others) : parts = others := by
  have emptyIff := intercalate_eq_nil_iff separator fun part member => (plain part member).1
  have othersEmptyIff :=
    intercalate_eq_nil_iff separator fun part member => (plainOthers part member).1
  by_cases empty : parts = []
  · have joined := emptyIff.mpr empty
    rw [same] at joined
    rw [empty, othersEmptyIff.mp joined]
  · have othersNonempty : others ≠ [] := by
      intro othersEmpty
      exact empty (emptyIff.mp (same.trans (othersEmptyIff.mpr othersEmpty)))
    have readBack := List.splitOn_intercalate separator (fun part member => (plain part member).2)
      empty
    have othersReadBack := List.splitOn_intercalate separator
      (fun part member => (plainOthers part member).2) othersNonempty
    rw [← readBack, same, othersReadBack]

theorem toList_key (name : String) (roots : List String) :
    (key name roots).toList =
      name.toList ++ '@' :: [':'].intercalate (roots.map String.toList) := by
  simp [key, String.toList_intercalate]

theorem key_inj_of_name {name other : String} {roots others : List String}
    (plainName : '@' ∉ name.toList) (plainOther : '@' ∉ other.toList)
    (same : key name roots = key other others) :
    name = other ∧ [':'].intercalate (roots.map String.toList) =
      [':'].intercalate (others.map String.toList) := by
  have written := congrArg String.toList same
  rw [toList_key, toList_key] at written
  have names := congrArg (List.takeWhile (· ≠ '@')) written
  rw [takeWhile_append_cons plainName, takeWhile_append_cons plainOther] at names
  rw [names] at written
  exact ⟨String.toList_inj.mp names, List.cons.inj (List.append_cancel_left written) |>.2⟩

/-- For one name, a single root can be read back whatever it is. -/
theorem key_singleton_inj {name root other : String} (same : key name [root] = key name [other]) :
    root = other := by
  have written := congrArg String.toList same
  rw [toList_key, toList_key] at written
  have roots := (List.cons.inj (List.append_cancel_left written)).2
  exact String.toList_inj.mp (by simpa using roots)

end ResolutionCache

/-! ## One request -/

def GlobalDirectories.directories : GlobalDirectories → List String
  | .fixed directories => directories
  | .managed managers => managers.directories

namespace Resolution

structure Request where
  source : GlobalDirectories
  name : String
  roots : List String

namespace Request

def key (request : Request) : String := ResolutionCache.key request.name request.roots

/-- Where the executable may stand: below the project roots in their order, and then in the global
directories. -/
def candidates (request : Request) : List String :=
  request.roots.map (fun root => Path.join (localDirectory root) request.name) ++
    request.source.directories.map (Path.join · request.name)

/-- What is found without a memory. -/
def probe (files : FileTree) (request : Request) : Option String :=
  request.candidates.find? files.isFile

/-- No separator of keys stands in the name or in a root, and no root is empty. -/
structure Plain (request : Request) : Prop where
  name_plain : '@' ∉ request.name.toList
  roots_plain : ∀ root ∈ request.roots, root ≠ "" ∧ ':' ∉ root.toList

theorem probe_eq_search (files : FileTree) (request : Request) :
    request.probe files = search files request.name
      (request.roots.map localDirectory ++ request.source.directories) := by
  simp [probe, candidates, search, Function.comp_def]

theorem Plain.probe_eq {request other : Request} (plain : request.Plain) (otherPlain : other.Plain)
    (sources : request.source.directories = other.source.directories)
    (same : request.key = other.key) (files : FileTree) :
    request.probe files = other.probe files := by
  obtain ⟨names, joined⟩ :=
    ResolutionCache.key_inj_of_name plain.name_plain otherPlain.name_plain same
  have toLists {request : Request} (plain : request.Plain) :
      ∀ root ∈ request.roots.map String.toList, root ≠ [] ∧ ':' ∉ root := by
    intro root member
    obtain ⟨text, listed, rfl⟩ := List.mem_map.mp member
    obtain ⟨nonempty, missing⟩ := plain.roots_plain text listed
    exact ⟨by simpa using nonempty, missing⟩
  have roots := ResolutionCache.intercalate_inj (toLists plain) (toLists otherPlain) joined
  have roots_eq : request.roots = other.roots :=
    List.map_injective_iff.mpr (fun _ _ => String.toList_inj.mp) roots
  simp only [probe, candidates, names, roots_eq, sources]

end Request

end Resolution

/-- What a memory knows: answers by their keys, and no other global directories than the given
ones. -/
structure ResolutionCache.Recalls (cache : ResolutionCache) (directories : List String)
    (known : String → Option (Option String)) : Prop where
  modules_eq : ∀ key, cache.modules.find? key = known key
  globals_eq : ∀ found ∈ cache.globalDirectories, found = directories

namespace Resolution

variable {files : FileTree} {directories : List String} {cache : ResolutionCache}
  {known : String → Option (Option String)} {request : Request}

theorem globals_of_recalls (recalls : cache.Recalls directories known) {source : GlobalDirectories}
    (same : source.directories = directories) :
    ∃ later, globals source cache = (directories, later) ∧ later.modules = cache.modules ∧
      later.Recalls directories known := by
  cases source with
  | fixed listed =>
      obtain rfl : listed = directories := same
      exact ⟨cache, rfl, rfl, recalls⟩
  | managed managers =>
      obtain rfl : managers.directories = directories := same
      simp only [globals, ResolutionCache.globalsOrProbe_eq]
      cases slot : cache.globalDirectories with
      | some found =>
          obtain rfl := recalls.globals_eq found slot
          exact ⟨cache, rfl, rfl, recalls⟩
      | none =>
          refine ⟨_, rfl, rfl, recalls.modules_eq, ?_⟩
          intro found filled
          exact (Option.some.inj filled).symm

/-- A request is answered from the memory, and searched for only if its key is not known. -/
theorem resolve_of_recalls (files : FileTree) (request : Request)
    (recalls : cache.Recalls directories known) (same : request.source.directories = directories) :
    let answer := (known request.key).getD (request.probe files)
    ∃ later, resolve files request.source request.name request.roots cache = (answer, later) ∧
      later.Recalls directories (Function.update known request.key (some answer)) := by
  intro answer
  have recalled := recalls.modules_eq request.key
  unfold Request.key at recalled
  cases hit : known request.key with
  | some found =>
      have answered : answer = found := by simp only [answer, hit, Option.getD_some]
      have unchanged : Function.update known request.key (some answer) = known := by
        rw [answered, ← hit, Function.update_eq_self]
      rw [show known (ResolutionCache.key request.name request.roots) = some found from hit]
        at recalled
      rw [unchanged, answered]
      refine ⟨cache, ?_, recalls⟩
      simp only [resolve, recalled]
  | none =>
      have answered : answer = request.probe files := by simp only [answer, hit, Option.getD_none]
      rw [show known (ResolutionCache.key request.name request.roots) = none from hit] at recalled
      obtain ⟨filled, globals_eq, modules_eq, filledRecalls⟩ := globals_of_recalls recalls same
      refine ⟨{ filled with modules := filled.modules.insert request.key answer }, ?_, ?_,
        filledRecalls.globals_eq⟩
      · simp only [resolve, recalled, globals_eq, ResolutionCache.getOrProbe_eq, modules_eq,
          answered, Request.probe_eq_search, same, Request.key]
      · intro key
        simp only [InsertionMap.find?_insert, filledRecalls.modules_eq]
        by_cases here : request.key = key
        · subst here
          simp
        · simp [here, Function.update_of_ne (Ne.symm here)]

/-! ## Many requests -/

/-- The answers to requests that are made one after the other, with one memory. -/
def resolveAll (files : FileTree) : List Request → ResolutionCache → List (Option String)
  | [], _ => []
  | request :: rest, cache =>
    let (answer, cache) := resolve files request.source request.name request.roots cache
    answer :: resolveAll files rest cache

/-- What was found for the first request with the key of the given one. -/
def firstFound (files : FileTree) (requests : List Request) (request : Request) : Option String :=
  (requests.find? (·.key = request.key)).bind (·.probe files)

theorem resolveAll_of_recalls (recalls : cache.Recalls directories known) (requests : List Request)
    (shared : ∀ request ∈ requests, request.source.directories = directories) :
    resolveAll files requests cache =
      requests.map fun request => (known request.key).getD (firstFound files requests request) := by
  -- What a request adds to the memory is what later requests of its key find first.
  induction requests generalizing cache known with
  | nil => rfl
  | cons request rest ih =>
      obtain ⟨same, later⟩ := List.forall_mem_cons.mp shared
      obtain ⟨next, resolved, nextRecalls⟩ := resolve_of_recalls files _ recalls same
      simp only [resolveAll, resolved, List.map_cons, ih nextRecalls later]
      congr 1
      · simp [firstFound]
      · apply List.map_congr_left
        intro other _
        by_cases here : request.key = other.key
        · simp [firstFound, here]
        · simp [firstFound, here, Function.update_of_ne (Ne.symm here)]

theorem resolveAll_eq_firstFound (files : FileTree) {requests : List Request}
    (shared : ∀ request ∈ requests, request.source.directories = directories) :
    resolveAll files requests {} = requests.map (firstFound files requests) := by
  have recalls : ResolutionCache.Recalls {} directories fun _ => none := ⟨fun _ => rfl, nofun⟩
  rw [resolveAll_of_recalls recalls requests shared]
  rfl

theorem firstFound_eq (files : FileTree) {requests : List Request} {request : Request}
    (member : request ∈ requests) :
    ∃ first ∈ requests, first.key = request.key ∧
      firstFound files requests request = first.probe files := by
  have isFound : (requests.find? (·.key = request.key)).isSome := by
    rw [List.find?_isSome]
    exact ⟨request, member, by simp⟩
  obtain ⟨first, found⟩ := Option.isSome_iff_exists.mp isFound
  refine ⟨first, List.mem_of_find?_eq_some found, by simpa using List.find?_some found, ?_⟩
  rw [firstFound, found, Option.bind_some]

theorem map_firstFound_eq_iff (files : FileTree) (requests : List Request) :
    requests.map (firstFound files requests) = requests.map (Request.probe files) ↔
      ∀ request ∈ requests, ∀ other ∈ requests, request.key = other.key →
        request.probe files = other.probe files := by
  rw [List.map_inj_left]
  constructor
  · intro transparent request member other otherMember same
    rw [← transparent request member, ← transparent other otherMember, firstFound, firstFound, same]
  · intro agree request member
    obtain ⟨first, firstMember, same, found⟩ := firstFound_eq files member
    rw [found]
    exact agree first firstMember request member same

/-- Requests with one memory are answered with what was found for the first request of their key.
No answer differs from a search without a memory exactly if requests of one key find the same, and
this is so as long as no separator of keys stands in what is asked for. -/
theorem resolveAll_answers (files : FileTree) {requests : List Request}
    (shared : ∀ request ∈ requests, request.source.directories = directories) :
    let answers := resolveAll files requests {}
    answers = requests.map (firstFound files requests) ∧
      (answers = requests.map (Request.probe files) ↔
        ∀ request ∈ requests, ∀ other ∈ requests, request.key = other.key →
          request.probe files = other.probe files) ∧
      ((∀ request ∈ requests, request.Plain) → answers = requests.map (Request.probe files)) := by
  intro answers
  have first : answers = requests.map (firstFound files requests) :=
    resolveAll_eq_firstFound files shared
  have transparentIff := map_firstFound_eq_iff files requests
  rw [← first] at transparentIff
  refine ⟨first, transparentIff, ?_⟩
  intro plain
  rw [transparentIff]
  intro request member other otherMember same
  have sources := (shared request member).trans (shared other otherMember).symm
  exact (plain request member).probe_eq (plain other otherMember) sources same files

/-- Whether there is a file, in a form that can be evaluated. -/
theorem isFile_eq (files : FileTree) : files.isFile = fun path =>
    ((if path.isEmpty then none else
      ((path.toList.splitOn '/').map String.ofList).foldlM files.step
        (if Path.isAbsolute path then [] else files.workingDirectory)).bind
          files.root.at?).any (·.isFile) := by
  funext path
  simp only [FileTree.isFile, FileTree.find?, FileTree.resolve, Path.splitOn_slash]

/-- The linter is installed in one project out of two. -/
def installedFiles : FileTree :=
  { root := FileNode.put (.file .empty true) ["b", "node_modules", ".bin", "eslint"] (.directory []) }

def plainRequests : List Request :=
  [⟨.fixed [], "eslint", ["/a", "/b"]⟩, ⟨.fixed [], "eslint", ["/a"]⟩, ⟨.fixed [], "eslint", ["/b"]⟩]

theorem resolveAll_answers_two_projects :
    resolveAll installedFiles plainRequests {} =
      [some "/b/node_modules/.bin/eslint", none, some "/b/node_modules/.bin/eslint"] := by
  have shared : ∀ request ∈ plainRequests, request.source.directories = [] := by
    simp [plainRequests, GlobalDirectories.directories]
  have plain : ∀ request ∈ plainRequests, request.Plain := by
    simp only [plainRequests, List.forall_mem_cons]
    exact ⟨⟨by decide, by decide⟩, ⟨by decide, by decide⟩, ⟨by decide, by decide⟩, nofun⟩
  rw [(resolveAll_answers installedFiles shared).2.2 plain]
  simp only [plainRequests, List.map_cons, List.map_nil, Request.probe, isFile_eq]
  decide +kernel

/-- The list of two roots and the single root that joins their names have the same key. -/
def confusedRequests : List Request :=
  [⟨.fixed [], "eslint", ["/a", "/b"]⟩, ⟨.fixed [], "eslint", ["/a:/b"]⟩]

theorem resolveAll_confuses_roots :
    (∀ request ∈ confusedRequests, request.source.directories = []) ∧
      resolveAll installedFiles confusedRequests {} ≠
        confusedRequests.map (Request.probe installedFiles) := by
  have shared : ∀ request ∈ confusedRequests, request.source.directories = [] := by
    simp [confusedRequests, GlobalDirectories.directories]
  have answers : resolveAll installedFiles confusedRequests {} =
      [some "/b/node_modules/.bin/eslint", some "/b/node_modules/.bin/eslint"] := by
    rw [resolveAll_eq_firstFound installedFiles shared]
    simp only [confusedRequests, firstFound, Request.probe, List.map_cons, List.map_nil, isFile_eq]
    decide +kernel
  have probes : confusedRequests.map (Request.probe installedFiles) =
      [some "/b/node_modules/.bin/eslint", none] := by
    simp only [confusedRequests, List.map_cons, List.map_nil, Request.probe, isFile_eq]
    decide +kernel
  constructor
  · exact shared
  · rw [answers, probes]
    simp

end Resolution

end EditorLint
