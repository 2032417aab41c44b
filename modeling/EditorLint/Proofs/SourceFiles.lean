import EditorLint.Proofs.FileTree
import EditorLint.Proofs.Path
import EditorLint.SourceFiles

/-!
Which files are linted for a path that is named. Below a directory these are the source files to
which names lead past nothing that is ignored, in the order of the names.
-/

namespace EditorLint

/-! ## Trees -/

namespace FileNode

/-- No directory has a name twice, and all names can be parts of a path. -/
inductive Proper : FileNode → Prop
  | file (bytes : ByteArray) (executable : Bool) : Proper (.file bytes executable)
  | link (target : String) : Proper (.link target)
  | directory {entries : List (String × FileNode)} (distinct : (entries.map (·.1)).Nodup)
      (named : ∀ entry ∈ entries, Path.IsName entry.1)
      (below : ∀ entry ∈ entries, Proper entry.2) : Proper (.directory entries)

variable {entries : List (String × FileNode)} {node found : FileNode} {name : String}
  {names : List String}

theorem lookup_eq_some_iff_mem (distinct : (entries.map (·.1)).Nodup) :
    entries.lookup name = some node ↔ (name, node) ∈ entries := by
  induction entries with
  | nil => simp
  | cons entry rest ih =>
      obtain ⟨other, old⟩ := entry
      obtain ⟨fresh, distinctRest⟩ := List.nodup_cons.mp distinct
      rw [lookup_cons_eq_ite, List.mem_cons, Prod.mk.injEq]
      split
      · next same =>
          subst same
          have elsewhere : (name, node) ∉ rest := fun listed =>
            fresh (List.mem_map_of_mem (f := (·.1)) listed)
          simp [elsewhere, eq_comm]
      · next different => simp [different, ih distinctRest]

theorem at?_cons_eq_some_iff (distinct : (entries.map (·.1)).Nodup) :
    (directory entries).at? (name :: names) = some found ↔
      ∃ child, (name, child) ∈ entries ∧ child.at? names = some found := by
  simp only [at?, Option.bind_eq_some_iff, lookup_eq_some_iff_mem distinct]

theorem Proper.at? (proper : node.Proper) (leads : node.at? names = some found) :
    found.Proper ∧ ∀ name ∈ names, Path.IsName name := by
  induction names generalizing node with
  | nil =>
      obtain rfl : node = found := by simpa [FileNode.at?] using leads
      exact ⟨proper, List.forall_mem_nil _⟩
  | cons name names ih =>
      cases proper with
      | file => simp [FileNode.at?] at leads
      | link => simp [FileNode.at?] at leads
      | directory distinct named below =>
          obtain ⟨child, listed, leads⟩ := (at?_cons_eq_some_iff distinct).mp leads
          obtain ⟨proper, areNames⟩ := ih (below _ listed) leads
          exact ⟨proper, List.forall_mem_cons.mpr ⟨named _ listed, areNames⟩⟩

end FileNode

namespace SourceFiles

variable {ignored : String → Bool} {path name : String} {names : List String} {node child : FileNode}
  {entries : List (String × FileNode)}

/-! ## What is listed -/

/-- Names lead to a source file, and neither the file nor any directory on the way to it is ignored,
the first one included. -/
structure IsSource (ignored : String → Bool) (path : String) (node : FileNode)
    (names : List String) : Prop where
  file : ∃ bytes executable, node.at? names = some (.file bytes executable)
  supported : isSupported (Path.below path names) = true
  considered : ∀ front, front <+: names → ignored (Path.below path front) = false

theorem isSource_cons_iff (distinct : (entries.map (·.1)).Nodup) :
    IsSource ignored path (.directory entries) (name :: names) ↔
      ignored path = false ∧ ∃ child, (name, child) ∈ entries ∧
        IsSource ignored (Path.join path name) child names := by
  constructor
  · rintro ⟨⟨bytes, executable, leads⟩, supported, considered⟩
    obtain ⟨child, listed, leads⟩ := (FileNode.at?_cons_eq_some_iff distinct).mp leads
    refine ⟨considered [] List.nil_prefix, child, listed, ⟨bytes, executable, leads⟩, supported, ?_⟩
    intro front leading
    exact considered (name :: front) (List.cons_prefix_cons.mpr ⟨rfl, leading⟩)
  · rintro ⟨here, child, listed, ⟨bytes, executable, leads⟩, supported, considered⟩
    refine ⟨⟨bytes, executable, ?_⟩, supported, ?_⟩
    · exact (FileNode.at?_cons_eq_some_iff distinct).mpr ⟨child, listed, leads⟩
    · intro front leading
      cases front with
      | nil => exact here
      | cons first front =>
          obtain ⟨rfl, below⟩ := List.cons_prefix_cons.mp leading
          exact considered front below

theorem not_isSource_directory_nil : ¬ IsSource ignored path (.directory entries) [] := by
  rintro ⟨⟨bytes, executable, leads⟩, -, -⟩
  simp [FileNode.at?] at leads

theorem isSource_file_iff {bytes : ByteArray} {executable : Bool} :
    IsSource ignored path (.file bytes executable) names ↔
      names = [] ∧ ignored path = false ∧ isSupported path = true := by
  constructor
  · rintro ⟨⟨_, _, leads⟩, supported, considered⟩
    cases names with
    | nil => exact ⟨rfl, considered [] List.nil_prefix, supported⟩
    | cons name names => simp [FileNode.at?] at leads
  · rintro ⟨rfl, here, supported⟩
    refine ⟨⟨bytes, executable, rfl⟩, supported, fun front leading => ?_⟩
    rw [List.prefix_nil.mp leading]
    exact here

/-! ## The walk -/

theorem walkEntries_eq_map (ignored : String → Bool) (path : String)
    (entries : List (String × FileNode)) :
    walkEntries ignored path entries =
      entries.map fun entry => (entry.1, walk ignored (Path.join path entry.1) entry.2) := by
  induction entries with
  | nil => rfl
  | cons entry rest ih => rw [walkEntries, ih, List.map_cons]

/-- The entries of a directory in the order of a walk. -/
def sorted (entries : List (String × FileNode)) : List (String × FileNode) :=
  entries.mergeSort fun left right => left.1 ≤ right.1

theorem walk_directory (ignored : String → Bool) (path : String)
    (entries : List (String × FileNode)) :
    walk ignored path (.directory entries) =
      if ignored path then []
      else (sorted entries).flatMap fun entry =>
        walk ignored (Path.join path entry.1) entry.2 := by
  have order := List.map_mergeSort (l := entries) (r := fun left right => left.1 ≤ right.1)
    (s := fun left right => left.1 ≤ right.1)
    (f := fun entry => (entry.1, walk ignored (Path.join path entry.1) entry.2))
    fun _ _ _ _ => rfl
  rw [walk, walkEntries_eq_map, ← order, List.flatMap_map]
  rfl

theorem sorted_pairwise (distinct : (entries.map (·.1)).Nodup) :
    (sorted entries).Pairwise fun left right => left.1 < right.1 := by
  have transitive (first second third : String × FileNode) :
      decide (first.1 ≤ second.1) → decide (second.1 ≤ third.1) → decide (first.1 ≤ third.1) := by
    simpa using le_trans
  have total (first second : String × FileNode) :
      (decide (first.1 ≤ second.1) || decide (second.1 ≤ first.1)) = true := by
    simpa using le_total first.1 second.1
  have ordered := List.pairwise_mergeSort transitive total entries
  have apart : ((sorted entries).map (·.1)).Nodup :=
    ((List.mergeSort_perm entries _).map (·.1)).nodup_iff.mpr distinct
  exact (ordered.and (List.pairwise_map.mp apart)).imp fun ⟨before, different⟩ =>
    lt_of_le_of_ne (of_decide_eq_true before) different

/-- The ways to the source files at a path or below it, in the order of their names. A walk that goes
into each directory before it goes on to the next entry takes them in this order. -/
structure Ways (ignored : String → Bool) (path : String) (node : FileNode)
    (ways : List (List String)) : Prop where
  mem_iff : ∀ names, names ∈ ways ↔ IsSource ignored path node names
  ordered : ways.Pairwise (· < ·)

theorem Ways.nil_of_ignored (here : ignored path = true) : Ways ignored path node [] where
  mem_iff names := by
    refine ⟨(absurd · List.not_mem_nil), fun source => ?_⟩
    have considered : ignored path = false := source.considered [] List.nil_prefix
    rw [here] at considered
    cases considered
  ordered := .nil

/-- The ways below the entries of a directory, each with the name of its entry in front. -/
theorem Ways.directory (here : ignored path = false) (distinct : (entries.map (·.1)).Nodup)
    {waysOf : String × FileNode → List (List String)}
    (below : ∀ entry ∈ entries,
      Ways ignored (Path.join path entry.1) entry.2 (waysOf entry)) :
    Ways ignored path (.directory entries)
      ((sorted entries).flatMap fun entry => (waysOf entry).map (entry.1 :: ·)) where
  mem_iff names := by
    simp only [List.mem_flatMap, List.mem_map, sorted, List.mem_mergeSort]
    constructor
    · rintro ⟨entry, listed, rest, member, rfl⟩
      have source := (below entry listed).mem_iff rest |>.mp member
      exact (isSource_cons_iff distinct).mpr ⟨here, entry.2, listed, source⟩
    · intro source
      cases names with
      | nil => exact absurd source not_isSource_directory_nil
      | cons name rest =>
          obtain ⟨-, child, listed, source⟩ := (isSource_cons_iff distinct).mp source
          exact ⟨(name, child), listed, rest, (below _ listed).mem_iff rest |>.mpr source, rfl⟩
  ordered := by
    rw [List.pairwise_flatMap]
    constructor
    · intro entry listed
      rw [List.pairwise_map]
      exact (below entry (List.mem_mergeSort.mp listed)).ordered.imp List.cons_lt_cons_self.mpr
    · refine (sorted_pairwise distinct).imp fun {first second} before => ?_
      intro names member others otherMember
      obtain ⟨_, -, rfl⟩ := List.mem_map.mp member
      obtain ⟨_, -, rfl⟩ := List.mem_map.mp otherMember
      exact List.cons_lt_cons_iff.mpr (Or.inl before)

theorem exists_ways_walk (ignored : String → Bool) (path : String) (proper : node.Proper) :
    ∃ ways, Ways ignored path node ways ∧
      walk ignored path node = ways.map (Path.below path) := by
  induction proper generalizing path with
  | file bytes executable =>
      by_cases source : ignored path = false ∧ isSupported path = true
      · refine ⟨[[]], ⟨fun names => ?_, List.pairwise_singleton _ _⟩, ?_⟩
        · simp only [isSource_file_iff, List.mem_singleton, source, and_self, and_true]
        · simp [walk, source, Path.below]
      · refine ⟨[], ⟨fun names => ?_, .nil⟩, ?_⟩
        · simp only [isSource_file_iff, List.not_mem_nil, source, and_false]
        · simpa [walk] using source
  | link target =>
      refine ⟨[], ⟨fun names => ⟨(absurd · List.not_mem_nil), ?_⟩, .nil⟩, by rw [walk, List.map_nil]⟩
      rintro ⟨⟨bytes, executable, leads⟩, -, -⟩
      cases names <;> simp [FileNode.at?] at leads
  | directory distinct named below ih =>
      -- What is ignored is pruned with all ways below it, and else each entry has ways of its own.
      rw [walk_directory]
      cases here : ignored path with
      | true => exact ⟨[], .nil_of_ignored here, rfl⟩
      | false =>
          choose! waysOf ways walked using
            fun entry listed => ih entry listed (Path.join path entry.1)
          refine ⟨_, .directory here distinct ways, ?_⟩
          rw [if_neg Bool.false_ne_true, List.map_flatMap]
          refine List.flatMap_congr fun entry listed => ?_
          rw [walked entry (List.mem_mergeSort.mp listed), List.map_map]
          rfl

/-! ## Named paths -/

/-- What is listed for a path that is named, unless a link is named: the file itself, the source
files below a directory, each once and in the order of the walk, and else nothing. -/
structure Lists (files : FileTree) (ignored : String → Bool) (path : String)
    (listed : List String) : Prop where
  file : ∀ bytes executable, files.find? path = some (.file bytes executable) → listed = [path]
  directory : ∀ entries, files.find? path = some (.directory entries) → listed.Nodup ∧
    ∃ ways, Ways ignored path (.directory entries) ways ∧ listed = ways.map (Path.below path)
  nothing : files.find? path = none → listed = []

theorem ne_empty_of_find? {files : FileTree} (found : files.find? path = some node) : path ≠ "" := by
  rintro rfl
  simp [FileTree.find?, FileTree.resolve] at found

theorem nodup_walk (proper : node.Proper) (nonempty : path ≠ "") :
    (walk ignored path node).Nodup := by
  obtain ⟨ways, here, walked⟩ := exists_ways_walk ignored path proper
  have areNames : ∀ names ∈ ways, ∀ name ∈ names, Path.IsName name := by
    intro names listed
    obtain ⟨⟨_, _, leads⟩, -, -⟩ := (here.mem_iff names).mp listed
    exact (proper.at? leads).2
  rw [walked]
  refine List.Nodup.map_on ?_ (here.ordered.imp fun before => ne_of_lt before)
  intro names listed others otherListed
  exact Path.below_injective nonempty (areNames names listed) (areNames others otherListed)

theorem ofPath_lists {files : FileTree} (proper : files.root.Proper) (ignored : String → Bool)
    (path : String) : Lists files ignored path (ofPath files ignored path) where
  file bytes executable found := by rw [ofPath, found]
  directory entries found := by
    have properHere : (FileNode.directory entries).Proper := by
      obtain ⟨names, -, leads⟩ := Option.bind_eq_some_iff.mp found
      exact (proper.at? leads).1
    have walks : ofPath files ignored path = walk ignored path (.directory entries) := by
      rw [ofPath, found]
    rw [walks]
    exact ⟨nodup_walk properHere (ne_empty_of_find? found), exists_ways_walk ignored path properHere⟩
  nothing missing := by rw [ofPath, missing]

/-- The files to lint are those of the paths that are named, one path after the other. -/
theorem collect_lists_sources {files : FileTree} (proper : files.root.Proper) (ignored : String → Bool)
    (paths : List String) :
    ∃ parts, collect files ignored paths = parts.flatten ∧
      List.Forall₂ (Lists files ignored) paths parts := by
  refine ⟨paths.map (ofPath files ignored), List.flatMap_def .., ?_⟩
  rw [List.forall₂_map_right_iff, List.forall₂_same]
  exact fun path _ => ofPath_lists proper ignored path

/-- A source, and a directory beside it with another one that was made from it. -/
def sourceEntries : List (String × FileNode) :=
  [("dist", .directory [("b.js", .file .empty false)]), ("a.js", .file .empty false)]

def sourceTree : FileTree := { root := .directory [("src", .directory sourceEntries)] }

theorem sourceTree_proper : sourceTree.root.Proper := by
  have made : (FileNode.directory [("b.js", .file .empty false)]).Proper := by
    refine .directory (by decide) ?_ ?_
    · simp +decide [Path.isName_iff]
    · simp [FileNode.Proper.file]
  have sources : (FileNode.directory sourceEntries).Proper := by
    refine .directory (by decide) ?_ ?_
    · simp +decide [sourceEntries, Path.isName_iff]
    · simp [sourceEntries, FileNode.Proper.file, made]
  refine .directory (by decide) ?_ ?_
  · simp +decide [Path.isName_iff]
  · simpa using sources

theorem collect_lists_sources_pruned :
    let ignored := fun path => path == "src/dist"
    sourceTree.root.Proper ∧ ∃ parts, parts.flatten = ["src/a.js"] ∧
      List.Forall₂ (Lists sourceTree ignored) ["src"] parts := by
  intro ignored
  have found : sourceTree.find? "src" = some (.directory sourceEntries) := by
    have pieces : "src".splitOn "/" = ["src"] := by
      rw [Path.splitOn_slash]
      decide
    simp +decide [FileTree.find?, FileTree.resolve, Path.isAbsolute, pieces, FileTree.step,
      FileNode.at?, sourceTree]
  have order : sorted sourceEntries = [("a.js", .file .empty false),
      ("dist", .directory [("b.js", .file .empty false)])] := by
    simp +decide [sorted, sourceEntries, List.mergeSort, List.MergeSort.Internal.splitInTwo]
  have supported : isSupported "src/a.js" = true := by
    have pieces : "src/a.js".splitOn "/" = ["src", "a.js"] := by
      rw [Path.splitOn_slash]
      decide
    have lower : "js".toLower = "js" := by
      rw [String.toLower, ← String.toList_inj, String.toList_map]
      decide
    simp +decide [isSupported, Path.extension, Path.fileName, Path.components, Path.isAbsolute,
      pieces, Path.Component.ofPiece, lower, extensions]
  have collected : collect sourceTree ignored ["src"] = ["src/a.js"] := by
    simp only [collect, ofPath, found, walk_directory, order, List.flatMap_cons, List.flatMap_nil]
    simp +decide [walk, supported, ignored, Path.join, Path.isAbsolute, Path.endsWith_slash_iff]
  obtain ⟨parts, flattened, lists⟩ := collect_lists_sources sourceTree_proper ignored ["src"]
  exact ⟨sourceTree_proper, parts, flattened.symm.trans collected, lists⟩

end SourceFiles

end EditorLint
