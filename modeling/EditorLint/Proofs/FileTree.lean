import EditorLint.FileTree

/-!
What stands in the files after one of them has been written over. No path leads anywhere else
than before, and the file that was written reads as the text.
-/

namespace EditorLint

namespace FileNode

/-- Which names a directory has; none for what is no directory. -/
def listing : FileNode → Option (String → Bool)
  | directory entries => some fun name => (entries.lookup name).isSome
  | file .. | link _ => none

/-- Whether a file can be run; none for what is no file. -/
def executable? : FileNode → Option Bool
  | file _ executable => some executable
  | directory _ | link _ => none

theorem lookup_cons_eq_ite (name other : String) (node : FileNode)
    (rest : List (String × FileNode)) :
    ((name, node) :: rest).lookup other = if other = name then some node else rest.lookup other := by
  by_cases same : other = name
  · simp [same]
  · simp [List.lookup_cons, same, beq_false_of_ne same]

theorem lookup_setEntry (name other : String) (node : FileNode)
    (entries : List (String × FileNode)) :
    (setEntry name node entries).lookup other =
      if other = name then some node else entries.lookup other := by
  induction entries with
  | nil => rw [setEntry, lookup_cons_eq_ite]
  | cons entry rest ih =>
      obtain ⟨first, old⟩ := entry
      by_cases here : first = name
      · subst here
        by_cases same : other = first
        · simp [setEntry, same]
        · simp [setEntry, lookup_cons_eq_ite, same]
      · by_cases same : other = first
        · simp [setEntry, here, same]
        · simp [setEntry, lookup_cons_eq_ite, here, same, ih]

theorem at?_put_self (node root : FileNode) (names : List String) :
    (put node names root).at? names = some node := by
  induction names generalizing root with
  | nil => simp [put, at?]
  | cons name names ih => simp [put, at?, lookup_setEntry, ih]

/-- What stands where after a file has been put in the place of another: the new file in its place,
on the way to it directories with the same names, and everywhere else what was there. -/
theorem at?_put_cases {root old node : FileNode} {names : List String} (other : List String)
    (found : root.at? names = some old) (oldFile : old.isFile) (nodeFile : node.isFile) :
    (other = names ∧ (put node names root).at? other = some node) ∨
      (∃ entries later, root.at? other = some (directory entries) ∧
        (put node names root).at? other = some (directory later) ∧
        ∀ name, (later.lookup name).isSome = (entries.lookup name).isSome) ∨
      (other ≠ names ∧ (put node names root).at? other = root.at? other) := by
  induction names generalizing root other with
  | nil =>
      simp only [at?, Option.some.injEq] at found
      subst found
      cases other with
      | nil => exact Or.inl ⟨rfl, rfl⟩
      | cons name others =>
          refine Or.inr (Or.inr ⟨List.cons_ne_nil _ _, ?_⟩)
          cases root <;> cases node <;> simp_all [put, at?, isFile]
  | cons name names ih =>
      cases root with
      | file => simp [at?] at found
      | link => simp [at?] at found
      | directory entries =>
          simp only [at?, Option.bind_eq_some_iff] at found
          obtain ⟨child, present, foundBelow⟩ := found
          cases other with
          | nil =>
              refine Or.inr (Or.inl ⟨entries, _, rfl, rfl, ?_⟩)
              intro asked
              by_cases same : asked = name <;> simp [lookup_setEntry, same, present]
          | cons asked others =>
              by_cases same : asked = name
              · subst same
                simpa [at?, put, lookup_setEntry, present] using ih others foundBelow
              · simp [at?, put, lookup_setEntry, same]

variable {root old node : FileNode} {names : List String}

theorem listing_at?_put (other : List String) (found : root.at? names = some old)
    (oldFile : old.isFile) (nodeFile : node.isFile) :
    ((put node names root).at? other).bind listing = (root.at? other).bind listing := by
  rcases at?_put_cases other found oldFile nodeFile with
    ⟨rfl, placed⟩ | ⟨entries, later, before, after, same⟩ | ⟨-, kept⟩
  · rw [placed, found]
    cases old <;> cases node <;> simp_all [isFile, listing]
  · simp [before, after, listing, same]
  · rw [kept]

theorem executable_at?_put (other : List String) (found : root.at? names = some old)
    (oldFile : old.isFile) (nodeFile : node.isFile) (same : node.executable? = old.executable?) :
    ((put node names root).at? other).bind executable? = (root.at? other).bind executable? := by
  rcases at?_put_cases other found oldFile nodeFile with
    ⟨rfl, placed⟩ | ⟨entries, later, before, after, -⟩ | ⟨-, kept⟩
  · rw [placed, found, Option.bind_some, Option.bind_some, same]
  · rw [before, after]
    rfl
  · rw [kept]

/-- Files that stand somewhere else are left as they are. -/
theorem file_at?_put_of_ne {other : List String} (found : root.at? names = some old)
    (oldFile : old.isFile) (nodeFile : node.isFile) (different : other ≠ names) :
    ((put node names root).at? other).filter isFile = (root.at? other).filter isFile := by
  rcases at?_put_cases other found oldFile nodeFile with
    ⟨same, -⟩ | ⟨entries, later, before, after, -⟩ | ⟨-, kept⟩
  · exact absurd same different
  · rw [before, after]
    rfl
  · rw [kept]

end FileNode

namespace FileTree

/-- The file that a path leads to. -/
def file? (tree : FileTree) (path : String) : Option FileNode :=
  (tree.find? path).filter FileNode.isFile

theorem step_eq_listing (tree : FileTree) (names : List String) (piece : String) :
    tree.step names piece = ((tree.root.at? names).bind FileNode.listing).bind fun has =>
      match piece with
      | "" | "." => some names
      | ".." => some names.dropLast
      | name => if has name then some (names ++ [name]) else none := by
  unfold step
  cases found : tree.root.at? names with
  | none => rfl
  | some node => cases node <;> rfl

theorem resolve_congr (tree other : FileTree)
    (listings : ∀ names, (tree.root.at? names).bind FileNode.listing =
      (other.root.at? names).bind FileNode.listing)
    (start : tree.workingDirectory = other.workingDirectory) (path : String) :
    tree.resolve path = other.resolve path := by
  have steps : tree.step = other.step := by
    funext names piece
    rw [step_eq_listing, step_eq_listing, listings]
  simp only [resolve, steps, start]

theorem find?_of_readText {tree : FileTree} {path text : String}
    (readable : tree.readText path = .ok text) :
    ∃ names bytes executable, tree.resolve path = some names ∧
      tree.root.at? names = some (.file bytes executable) := by
  unfold readText at readable
  split at readable
  · rename_i bytes executable found
    obtain ⟨names, resolved, here⟩ := Option.bind_eq_some_iff.mp found
    exact ⟨names, bytes, executable, resolved, here⟩
  · cases readable

theorem readText_of_file? {tree : FileTree} {path : String} {bytes : ByteArray} {executable : Bool}
    (there : tree.file? path = some (.file bytes executable)) :
    tree.readText path = (String.fromUTF8? bytes).elim (.error .io) .ok := by
  obtain ⟨found, -⟩ := Option.filter_eq_some_iff.mp there
  simp only [readText, found]
  cases String.fromUTF8? bytes <;> rfl

theorem readText_of_no_file {tree : FileTree} {path : String} (missing : tree.file? path = none) :
    tree.readText path = .error .io := by
  unfold readText
  split
  · next bytes executable found => simp [file?, found, FileNode.isFile] at missing
  · rfl

theorem exists_bytes {tree : FileTree} {path : String} {node : FileNode}
    (there : tree.file? path = some node) : ∃ bytes executable, node = .file bytes executable := by
  obtain ⟨-, isFile⟩ := Option.filter_eq_some_iff.mp there
  cases node with
  | file bytes executable => exact ⟨bytes, executable, rfl⟩
  | _ => cases isFile

theorem readText_congr {tree other : FileTree} {path : String}
    (same : tree.file? path = other.file? path) : tree.readText path = other.readText path := by
  cases there : tree.file? path with
  | none => rw [readText_of_no_file there, readText_of_no_file (same.symm.trans there)]
  | some node =>
      obtain ⟨bytes, executable, rfl⟩ := exists_bytes there
      rw [readText_of_file? there, readText_of_file? (same.symm.trans there)]

/-! ## Writing over a file -/

variable {tree written : FileTree} {path text : String}

theorem overwrite_eq_ok (overwritten : tree.overwrite path text = .ok written) :
    ∃ names bytes executable, tree.resolve path = some names ∧
      tree.root.at? names = some (.file bytes executable) ∧
      written =
        { tree with root := FileNode.put (.file text.toUTF8 executable) names tree.root } := by
  unfold overwrite at overwritten
  cases resolved : tree.resolve path with
  | none =>
      rw [resolved] at overwritten
      cases overwritten
  | some names =>
      simp only [resolved] at overwritten
      split at overwritten
      · next bytes executable found =>
          exact ⟨names, bytes, executable, rfl, found, (Except.ok.inj overwritten).symm⟩
      · cases overwritten

theorem resolve_overwrite (overwritten : tree.overwrite path text = .ok written) (other : String) :
    written.resolve other = tree.resolve other := by
  obtain ⟨names, bytes, executable, -, found, rfl⟩ := overwrite_eq_ok overwritten
  apply resolve_congr
  · intro names
    exact FileNode.listing_at?_put names found rfl rfl
  · rfl

/-- The file is still the one at its path, with the text in it. -/
theorem file?_overwrite_self (overwritten : tree.overwrite path text = .ok written) :
    ∃ bytes executable, tree.file? path = some (.file bytes executable) ∧
      written.file? path = some (.file text.toUTF8 executable) := by
  have unmoved := resolve_overwrite overwritten path
  obtain ⟨names, bytes, executable, resolved, found, rfl⟩ := overwrite_eq_ok overwritten
  refine ⟨bytes, executable, ?_, ?_⟩
  · rw [file?, find?, resolved, Option.bind_some, found]
    rfl
  · rw [file?, find?, unmoved, resolved, Option.bind_some, FileNode.at?_put_self]
    rfl

theorem file?_overwrite_of_ne (overwritten : tree.overwrite path text = .ok written)
    {other : String} (different : tree.resolve other ≠ tree.resolve path) :
    written.file? other = tree.file? other := by
  have unmoved := resolve_overwrite overwritten other
  obtain ⟨names, bytes, executable, resolved, found, rfl⟩ := overwrite_eq_ok overwritten
  rw [file?, file?, find?, find?, unmoved]
  cases elsewhere : tree.resolve other with
  | none => rfl
  | some others =>
      apply FileNode.file_at?_put_of_ne found rfl rfl
      rintro rfl
      exact different (elsewhere.trans resolved.symm)

/-- A file that can be read can be written over, and reads then as what was written. -/
theorem exists_overwrite {old : String} (readable : tree.readText path = .ok old) (text : String) :
    ∃ written, tree.overwrite path text = .ok written ∧ written.readText path = .ok text := by
  obtain ⟨names, bytes, executable, resolved, here⟩ := find?_of_readText readable
  have overwritten : tree.overwrite path text = .ok
      { tree with root := FileNode.put (.file text.toUTF8 executable) names tree.root } := by
    simp only [overwrite, resolved, here]
  refine ⟨_, overwritten, ?_⟩
  obtain ⟨-, executable, -, there⟩ := file?_overwrite_self overwritten
  have decoded : String.fromUTF8? text.toUTF8 = some text := dif_pos text.isValidUTF8
  rw [readText_of_file? there, decoded]
  rfl

/-! ## Trees that differ in texts only -/

/-- Two trees have the same directories and the same files, which may hold different texts. -/
structure Alike (tree other : FileTree) : Prop where
  start_eq : tree.workingDirectory = other.workingDirectory
  listing_eq : ∀ names, (tree.root.at? names).bind FileNode.listing =
    (other.root.at? names).bind FileNode.listing
  executable_eq : ∀ names, (tree.root.at? names).bind FileNode.executable? =
    (other.root.at? names).bind FileNode.executable?

theorem Alike.refl (tree : FileTree) : tree.Alike tree := ⟨rfl, fun _ => rfl, fun _ => rfl⟩

theorem Alike.symm {other : FileTree} (alike : tree.Alike other) : other.Alike tree :=
  ⟨alike.start_eq.symm, fun names => (alike.listing_eq names).symm,
    fun names => (alike.executable_eq names).symm⟩

theorem overwrite_alike {first : FileTree} (alike : first.Alike tree)
    (overwritten : tree.overwrite path text = .ok written) : first.Alike written := by
  obtain ⟨names, bytes, executable, -, found, rfl⟩ := overwrite_eq_ok overwritten
  have same : (FileNode.file text.toUTF8 executable).executable? =
      (FileNode.file bytes executable).executable? := rfl
  constructor
  · exact alike.start_eq
  · intro other
    rw [alike.listing_eq, FileNode.listing_at?_put other found rfl rfl]
  · intro other
    rw [alike.executable_eq, FileNode.executable_at?_put other found rfl rfl same]

namespace Alike

variable {other : FileTree}

theorem resolve_eq (alike : tree.Alike other) (path : String) :
    tree.resolve path = other.resolve path :=
  resolve_congr tree other alike.listing_eq alike.start_eq path

theorem directory_iff (alike : tree.Alike other) (names : List String) :
    (∃ entries, tree.root.at? names = some (.directory entries)) ↔
      ∃ entries, other.root.at? names = some (.directory entries) := by
  have directory_iff (tree : FileTree) :
      (∃ entries, tree.root.at? names = some (.directory entries)) ↔
        ((tree.root.at? names).bind FileNode.listing).isSome := by
    cases tree.root.at? names with
    | none => simp
    | some node => cases node <;> simp [FileNode.listing]
  rw [directory_iff, directory_iff, alike.listing_eq]

theorem found_eq (alike : tree.Alike other) (path : String) :
    (tree.find? path).bind FileNode.executable? = (other.find? path).bind FileNode.executable? := by
  rw [find?, find?, alike.resolve_eq]
  cases other.resolve path with
  | none => rfl
  | some names => exact alike.executable_eq names

theorem isFile_eq (alike : tree.Alike other) : tree.isFile = other.isFile := by
  have isFile_eq (tree : FileTree) (path : String) :
      tree.isFile path = ((tree.find? path).bind FileNode.executable?).isSome := by
    unfold isFile
    cases tree.find? path with
    | none => rfl
    | some node => cases node <;> rfl
  funext path
  rw [isFile_eq, isFile_eq, alike.found_eq]

theorem isExecutable_eq (alike : tree.Alike other) (path : String) :
    tree.isExecutable path = other.isExecutable path := by
  have isExecutable_eq (tree : FileTree) :
      tree.isExecutable path = ((tree.find? path).bind FileNode.executable?).getD false := by
    unfold isExecutable
    cases tree.find? path with
    | none => rfl
    | some node => cases node <;> rfl
  rw [isExecutable_eq, isExecutable_eq, alike.found_eq]

end Alike

end FileTree

end EditorLint
