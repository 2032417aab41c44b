import EditorLint.CommandLine.Program
import EditorLint.Proofs.CommandLine.Closing
import EditorLint.Proofs.CommandLine.FileLint
import EditorLint.Proofs.CommandLine.Steady
import EditorLint.Proofs.FileTree

/-!
Files that are linted one after the other do not disturb each other. A file leaves nothing behind
in the workspace, and what is written into it reaches no other file.
-/

namespace EditorLint.CommandLine

variable {σ : Type}

/-! ## What is written -/

section Files

variable {files written : FileTree} {path text : String} {change : Option String}

theorem exists_writeBack (readable : files.readText path = .ok text) (change : Option String) :
    ∃ written, writeBack files path change = .ok written := by
  cases change with
  | none => exact ⟨files, rfl⟩
  | some text =>
      obtain ⟨written, overwritten, -⟩ := FileTree.exists_overwrite readable text
      exact ⟨written, overwritten⟩

theorem resolve_writeBack (done : writeBack files path change = .ok written) (other : String) :
    written.resolve other = files.resolve other := by
  cases change with
  | none => rw [← Except.ok.inj done]
  | some text => exact FileTree.resolve_overwrite done other

theorem file?_writeBack_of_ne (done : writeBack files path change = .ok written) {other : String}
    (different : files.resolve other ≠ files.resolve path) :
    written.file? other = files.file? other := by
  cases change with
  | none => rw [← Except.ok.inj done]
  | some text => exact FileTree.file?_overwrite_of_ne done different

/-- What is in a file after it has been written depends on this file alone. -/
theorem file?_writeBack_congr {others othersWritten : FileTree}
    (same : files.file? path = others.file? path)
    (here : writeBack files path change = .ok written)
    (there : writeBack others path change = .ok othersWritten) :
    written.file? path = othersWritten.file? path := by
  cases change with
  | none => rw [← Except.ok.inj here, ← Except.ok.inj there, same]
  | some text =>
      obtain ⟨bytes, executable, before, after⟩ := FileTree.file?_overwrite_self here
      obtain ⟨otherBytes, otherExecutable, othersBefore, othersAfter⟩ :=
        FileTree.file?_overwrite_self there
      rw [before, othersBefore] at same
      obtain ⟨-, rfl⟩ := FileNode.file.inj (Option.some.inj same)
      rw [after, othersAfter]

end Files

/-! ## One file -/

variable {engine : FileTree → Engine σ} {answer : LintCall → Except LintError Report}
  {usual : FileTree → σ → Prop} {root path text : String} {fix : Bool} {files now : FileTree}
  {world here : σ}

theorem Steady.usual_writeBack (steady : Steady engine answer usual) {written : FileTree}
    {change : Option String} (done : writeBack files path change = .ok written)
    (start : usual files world) : usual written world := by
  cases change with
  | none => exact Except.ok.inj done ▸ start
  | some text => exact steady.written files path text written world done start

theorem lintFile_of_steady (steady : Steady engine answer usual) (start : usual files world)
    (readable : files.readText path = .ok text) (root : String) (fix : Bool)
    (workspace : Workspace) :
    let lint := lintText (.constant answer) path text fix workspace ()
    ∃ written after, writeBack files path lint.fixedText = .ok written ∧ usual written after ∧
      lintFile engine root path fix files workspace world =
        { result := .ok {
            path := Path.relativeTo root path
            fixed := lint.fixed
            problems := lint.diagnostics.map (Problem.ofDiagnostic lint.workspace path) }
          logs := lint.logs, files := written, workspace := workspace.close path
          world := after } := by
  intro lint
  obtain ⟨after, still, linted⟩ :=
    lintText_of_steady workspace path (steady.asked files) start text fix
  obtain ⟨written, done⟩ := exists_writeBack readable lint.fixedText
  refine ⟨written, after, done, steady.usual_writeBack done still, ?_⟩
  simp only [lintFile, readable, linted]
  rw [done, close_lintText]

/-- How far a run over files has come. The files that are done are as if each of them had been
linted alone, and all others are as they were. -/
structure Progress (files : FileTree) (alone : String → FileTree) (done : List String)
    (now : FileTree) : Prop where
  resolve_eq : ∀ path, now.resolve path = files.resolve path
  changed : ∀ path ∈ done, now.file? path = (alone path).file? path
  kept : ∀ path, (∀ listed ∈ done, files.resolve path ≠ files.resolve listed) →
    now.file? path = files.file? path

theorem Progress.start (files : FileTree) (alone : String → FileTree) :
    Progress files alone [] files :=
  ⟨fun _ => rfl, nofun, fun _ _ => rfl⟩

theorem lintFile_progress (steady : Steady engine answer usual) (start : usual files world)
    {settings : Settings} {done : List String}
    (progress : Progress files
      (fun path => (lintFile engine root path fix files (.fresh settings root) world).files) done now)
    (there : usual now here)
    (apart : ∀ listed ∈ done, files.resolve path ≠ files.resolve listed)
    (readable : files.readText path = .ok text) :
    let alone path := lintFile engine root path fix files (.fresh settings root) world
    let lint := lintFile engine root path fix now (.fresh settings root) here
    (∃ result, lint.result = .ok result) ∧ lint.result = (alone path).result ∧
      lint.logs = (alone path).logs ∧ lint.workspace = .fresh settings root ∧
      usual lint.files lint.world ∧
      Progress files (fun path => (alone path).files) (done ++ [path]) lint.files := by
  intro alone lint
  have same := progress.kept path apart
  have readableNow : now.readText path = .ok text := (FileTree.readText_congr same).trans readable
  obtain ⟨written, after, changes, still, linted⟩ := lintFile_of_steady steady there
    readableNow root fix (.fresh settings root)
  obtain ⟨writtenAlone, _, changesAlone, -, lintedAlone⟩ := lintFile_of_steady steady start
    readable root fix (.fresh settings root)
  have ended : lint = _ := linted
  have endedAlone : alone path = _ := lintedAlone
  rw [ended, endedAlone]
  refine ⟨⟨_, rfl⟩, rfl, rfl, rfl, still, ?_, ?_, ?_⟩
  · intro other
    rw [resolve_writeBack changes, progress.resolve_eq]
  · intro other listed
    rcases List.mem_append.mp listed with before | last
    · have different : now.resolve other ≠ now.resolve path := by
        rw [progress.resolve_eq, progress.resolve_eq]
        exact (apart other before).symm
      rw [file?_writeBack_of_ne changes different, progress.changed other before]
    · obtain rfl := List.mem_singleton.mp last
      rw [endedAlone]
      exact file?_writeBack_congr same changes changesAlone
  · intro other elsewhere
    have different : now.resolve other ≠ now.resolve path := by
      rw [progress.resolve_eq, progress.resolve_eq]
      exact elsewhere path (List.mem_append_right _ (List.mem_singleton_self path))
    rw [file?_writeBack_of_ne changes different]
    exact progress.kept other fun listed before =>
      elsewhere listed (List.mem_append_left _ before)

/-- With warnings forced, a file has no problem that is more than a warning. -/
theorem severity_of_lintFile {workspace : Workspace}
    (forced : workspace.service.settings.forceWarnings = true) {result : FileResult}
    (finished : (lintFile engine root path fix files workspace world).result = .ok result) :
    ∀ problem ∈ result.problems, problem.severity = .warning := by
  unfold lintFile at finished
  split at finished
  · cases finished
  · simp only at finished
    split at finished
    · cases finished
    · rw [← Except.ok.inj finished]
      intro problem listed
      obtain ⟨diagnostic, found, rfl⟩ := List.mem_map.mp listed
      exact category_of_lintText forced fix diagnostic found

/-! ## Many files -/

/-- Every path leads to a file of its own. -/
def Distinct (files : FileTree) (paths : List String) : Prop :=
  paths.Pairwise fun path other => files.resolve path ≠ files.resolve other

/-- A run over files that has come to an end, and to what linting each of them alone comes to. -/
structure Linted.Apart (linted : Linted σ) (files : FileTree) (alone : String → FileLint σ)
    (paths : List String) : Prop where
  finished : linted.failure = none
  results_eq : linted.results.map .ok = paths.map fun path => (alone path).result
  logs_eq : linted.logs = paths.flatMap fun path => (alone path).logs
  listed : ∀ path ∈ paths, linted.files.file? path = (alone path).files.file? path
  others : ∀ path, (∀ listed ∈ paths, files.resolve path ≠ files.resolve listed) →
    linted.files.file? path = files.file? path

theorem lintFiles_cons {workspace : Workspace} {result : FileResult} {rest : List String}
    (finished : (lintFile engine root path fix files workspace world).result = .ok result) :
    lintFiles engine root fix files workspace world (path :: rest) =
      let lint := lintFile engine root path fix files workspace world
      let later := lintFiles engine root fix lint.files lint.workspace lint.world rest
      { later with results := result :: later.results, logs := lint.logs ++ later.logs } := by
  simp only [lintFiles, finished]

theorem Distinct.next {done rest : List String} (distinct : Distinct files (done ++ path :: rest)) :
    (∀ listed ∈ done, files.resolve path ≠ files.resolve listed) ∧
      Distinct files (done ++ [path] ++ rest) := by
  constructor
  · intro listed before
    exact ((List.pairwise_append.mp distinct).2.2 listed before path List.mem_cons_self).symm
  · rwa [List.append_assoc, List.singleton_append]

section

variable {settings : Settings} {done rest : List String}

/-- A run that finds every file readable goes on from wherever it has come to. -/
theorem lintFiles_progress (steady : Steady engine answer usual) (start : usual files world)
    (root : String) (fix : Bool) (progress : Progress files
      (fun path => (lintFile engine root path fix files (.fresh settings root) world).files) done now)
    (there : usual now here) (distinct : Distinct files (done ++ rest))
    (readable : ∀ path ∈ rest, ∃ text, files.readText path = .ok text) :
    let alone path := lintFile engine root path fix files (.fresh settings root) world
    let linted := lintFiles engine root fix now (.fresh settings root) here rest
    linted.failure = none ∧ linted.results.map .ok = rest.map (fun path => (alone path).result) ∧
      linted.logs = rest.flatMap (fun path => (alone path).logs) ∧
      linted.workspace = .fresh settings root ∧
      Progress files (fun path => (alone path).files) (done ++ rest) linted.files := by
  induction rest generalizing done now here with
  | nil =>
      rw [List.append_nil]
      exact ⟨rfl, rfl, rfl, rfl, progress⟩
  | cons path rest ih =>
      intro alone linted
      obtain ⟨⟨text, first⟩, later⟩ := List.forall_mem_cons.mp readable
      obtain ⟨apart, distinctLater⟩ := distinct.next
      obtain ⟨⟨result, finished⟩, same, logs, empty, still, reached⟩ :=
        lintFile_progress steady start progress there apart first
      obtain ⟨clean, results, logsLater, emptyLater, reachedLater⟩ :=
        ih reached still distinctLater later
      have ran : linted = _ := lintFiles_cons finished
      rw [List.append_assoc, List.singleton_append] at reachedLater
      rw [ran]
      simp only [empty]
      refine ⟨clean, ?_, ?_, emptyLater, reachedLater⟩
      · rw [List.map_cons, List.map_cons, results, ← finished, same]
      · rw [List.flatMap_cons, logsLater, logs]

/-- A run that comes to an end has found every file readable. -/
theorem readable_of_finished (steady : Steady engine answer usual) (start : usual files world)
    (progress : Progress files
      (fun path => (lintFile engine root path fix files (.fresh settings root) world).files) done now)
    (there : usual now here) (distinct : Distinct files (done ++ rest))
    (finished : (lintFiles engine root fix now (.fresh settings root) here rest).failure = none) :
    ∀ path ∈ rest, ∃ text, files.readText path = .ok text := by
  induction rest generalizing done now here with
  | nil => nofun
  | cons path rest ih =>
      obtain ⟨apart, distinctLater⟩ := distinct.next
      have same := FileTree.readText_congr (progress.kept path apart)
      cases readable : files.readText path with
      | error error =>
          rw [readable] at same
          simp only [lintFiles, lintFile, same] at finished
          cases finished
      | ok text =>
          obtain ⟨⟨result, linted⟩, -, -, empty, still, reached⟩ :=
            lintFile_progress steady start progress there apart readable
          rw [lintFiles_cons linted] at finished
          simp only [empty] at finished
          exact List.forall_mem_cons.mpr
            ⟨⟨text, readable⟩, ih reached still distinctLater finished⟩

end

theorem lintFiles_apart (steady : Steady engine answer usual) (start : usual files world)
    (settings : Settings) (root : String) (fix : Bool) {paths : List String} (distinct : Distinct files paths)
    (readable : ∀ path ∈ paths, ∃ text, files.readText path = .ok text) :
    let linted := lintFiles engine root fix files (.fresh settings root) world paths
    linted.Apart files (lintFile engine root · fix files (.fresh settings root) world) paths ∧
      linted.workspace = .fresh settings root := by
  intro linted
  obtain ⟨finished, results, logs, empty, progress⟩ := lintFiles_progress steady start root fix
    (Progress.start files _) start distinct readable
  exact ⟨⟨finished, results, logs, progress.changed, progress.kept⟩, empty⟩

theorem status_endingOf {linted : Linted σ} (finished : linted.failure = none) (json : Bool) :
    (endingOf json linted).status = 1 ↔
      ∃ result ∈ linted.results, ∃ problem ∈ result.problems, problem.severity = .error := by
  simp [endingOf, finished, FileResult.hasError]

theorem status_eq_zero_of_forced {linted : Linted σ} {workspace : Workspace} {paths : List String}
    (forced : workspace.service.settings.forceWarnings = true)
    (apart : linted.Apart files (lintFile engine root · fix files workspace world) paths)
    (json : Bool) : (endingOf json linted).status = 0 := by
  have harmless : ∀ result ∈ linted.results, result.hasError = false := by
    intro result listed
    have reported : Except.ok result ∈ linted.results.map (Except.ok (ε := Failure)) :=
      List.mem_map_of_mem listed
    rw [apart.results_eq] at reported
    obtain ⟨path, -, finished⟩ := List.mem_map.mp reported
    simp only [FileResult.hasError, List.any_eq_false]
    intro problem found
    rw [severity_of_lintFile forced finished problem found]
    decide
  have calm : linted.results.any FileResult.hasError = false := by simpa using harmless
  simp only [endingOf, apart.finished, calm, Bool.false_eq_true, if_false]

theorem prepare_eq_ok {arguments : Arguments} {preparation : Preparation}
    (prepared : prepare files arguments = .ok preparation) :
    loadSettings files arguments = .ok preparation.settings ∧
      ∃ ignored, preparation.paths = SourceFiles.collect files ignored arguments.paths := by
  unfold prepare at prepared
  cases loaded : loadSettings files arguments with
  | error failure =>
      rw [loaded] at prepared
      cases prepared
  | ok settings =>
      cases read : readIgnored arguments with
      | error failure =>
          rw [loaded, read] at prepared
          cases prepared
      | ok ignored =>
          rw [loaded, read] at prepared
          obtain rfl := Except.ok.inj prepared
          exact ⟨rfl, ignored.isMatch, rfl⟩

theorem forceWarnings_of_loadSettings {arguments : Arguments} {settings : Settings}
    (loaded : loadSettings files arguments = .ok settings) (forced : arguments.warnings = true) :
    settings.forceWarnings = true := by
  unfold loadSettings at loaded
  split at loaded
  · split at loaded
    · obtain rfl := Except.ok.inj loaded
      simp only [forced, Bool.true_or]
    · cases loaded
  · obtain rfl := Except.ok.inj loaded
    simp only [forced, Bool.true_or]

/-- Files that are named themselves are linted as they are named, and in this order. -/
theorem collect_files {ignored : String → Bool} {paths : List String}
    (named : ∀ path ∈ paths, files.isFile path) :
    SourceFiles.collect files ignored paths = paths := by
  induction paths with
  | nil => rfl
  | cons path rest ih =>
      obtain ⟨here, later⟩ := List.forall_mem_cons.mp named
      have alone : SourceFiles.ofPath files ignored path = [path] := by
        unfold SourceFiles.ofPath
        unfold FileTree.isFile at here
        cases found : files.find? path with
        | none => simp [found] at here
        | some node => cases node <;> simp_all [FileNode.isFile]
      rw [SourceFiles.collect, List.flatMap_cons, alone]
      exact congrArg (path :: ·) (ih later)

/-- What the program makes of its arguments once they are read, and the settings and the patterns of
what is ignored have loaded. -/
theorem run_of_prepared {given : List String} {arguments : Arguments} {preparation : Preparation}
    (read : Arguments.read given = .ok arguments)
    (prepared : prepare files arguments = .ok preparation) (managers : PackageManagers)
    (runner : Runner σ) (programs : σ) :
    let linter : CommandLinter := ⟨preparation.settings.linter, .managed managers⟩
    run given managers runner files programs = endingOf arguments.json
        (lintFiles (fun files => linter.lint files runner) files.workingPath arguments.fix files
          (.fresh preparation.settings files.workingPath) { programs } preparation.paths) ∧
      (arguments.warnings = true → preparation.settings.forceWarnings = true) ∧
      ((∀ path ∈ arguments.paths, files.isFile path) → preparation.paths = arguments.paths) := by
  intro linter
  obtain ⟨loaded, ignored, collected⟩ := prepare_eq_ok prepared
  refine ⟨?_, ?_, ?_⟩
  · simp only [run, read, prepared]
    rfl
  · exact forceWarnings_of_loadSettings loaded
  · intro named
    rw [collected]
    exact collect_files named

/-- Files of their own are linted independently of each other by a linter whose answers are a
function of the calls. As soon as a run over them comes to an end, one in any order does. It comes
to what linting each file alone comes to, leaves nothing behind after any file, and ends with the
status 1 exactly if there is an error, which there is not with warnings forced. The program is such
a run over the files that its arguments name. -/
theorem lintFiles_independent (steady : Steady engine answer usual) (start : usual files world)
    (settings : Settings) (root : String) (fix json : Bool) {paths : List String}
    (distinct : Distinct files paths)
    (clean : (lintFiles engine root fix files (.fresh settings root) world paths).failure = none) :
    let alone path := lintFile engine root path fix files (.fresh settings root) world
    let linted := lintFiles engine root fix files (.fresh settings root) world
    (∀ reordered, reordered.Perm paths →
      (linted reordered).Apart files alone reordered ∧
      (linted reordered).results.Perm (linted paths).results ∧
      (∀ earlier, earlier <+: reordered → (linted earlier).workspace = .fresh settings root) ∧
      ((endingOf json (linted reordered)).status = 1 ↔
        ∃ result ∈ (linted reordered).results, ∃ problem ∈ result.problems,
          problem.severity = .error) ∧
      (settings.forceWarnings = true → (endingOf json (linted reordered)).status = 0)) ∧
    ∀ (given : List String) (arguments : Arguments) (managers : PackageManagers)
      (runner : Runner σ) (programs : σ),
      Arguments.read given = .ok arguments → prepare files arguments = .ok ⟨settings, paths⟩ →
      let linter : CommandLinter := ⟨settings.linter, .managed managers⟩
      run given managers runner files programs = endingOf arguments.json
          (lintFiles (fun files => linter.lint files runner) files.workingPath arguments.fix files
            (.fresh settings files.workingPath) { programs } paths) ∧
        (arguments.warnings = true → settings.forceWarnings = true) ∧
        ((∀ path ∈ arguments.paths, files.isFile path) → paths = arguments.paths) := by
  intro alone linted
  have readable := readable_of_finished steady start (Progress.start files _) start distinct clean
  constructor
  · intro reordered perm
    have distinctToo : Distinct files reordered := (perm.pairwise_iff Ne.symm).mpr distinct
    have readableToo : ∀ path ∈ reordered, ∃ text, files.readText path = .ok text := by
      intro path listed
      exact readable path (perm.subset listed)
    obtain ⟨apart, -⟩ := lintFiles_apart steady start settings root fix distinctToo readableToo
    obtain ⟨apartFirst, -⟩ := lintFiles_apart steady start settings root fix distinct readable
    refine ⟨apart, ?_, ?_, status_endingOf apart.finished json, ?_⟩
    · have same := perm.map fun path => (alone path).result
      rw [← apart.results_eq, ← apartFirst.results_eq] at same
      exact (List.map_perm_map_iff fun _ _ => Except.ok.inj).mp same
    · intro earlier before
      have distinctEarlier : Distinct files earlier := distinctToo.sublist before.sublist
      have readableEarlier : ∀ path ∈ earlier, ∃ text, files.readText path = .ok text := by
        intro path listed
        exact readableToo path (before.subset listed)
      exact (lintFiles_apart steady start settings root fix distinctEarlier readableEarlier).2
    · intro forced
      exact status_eq_zero_of_forced forced apart json
  · intro given arguments managers runner programs read prepared
    exact run_of_prepared read prepared managers runner programs

/-- Two files, and a linter that misses a semicolon at the end of a text. -/
def twoFiles : FileTree :=
  { root := .directory
      [("a", .file "var a = 1\n".toUTF8 false), ("b", .file "var b = 1\n".toUTF8 false)] }

def semicolonAnswer (call : LintCall) : Except LintError Report :=
  if ';' ∈ call.text.toList then .ok cleanReport else .ok semicolonReport

theorem lintFiles_independent_two_files :
    let linted := lintFiles (fun _ => .constant semicolonAnswer) "/" true twoFiles (.fresh {} "/") ()
    Distinct twoFiles ["a", "b"] ∧ (linted ["a", "b"]).failure = none ∧
      (linted ["b", "a"]).results.Perm (linted ["a", "b"]).results ∧
      (linted ["b"]).workspace = .fresh {} "/" := by
  have distinct : Distinct twoFiles ["a", "b"] := by
    have first : twoFiles.resolve "a" = some ["a"] := by cbv
    have second : twoFiles.resolve "b" = some ["b"] := by cbv
    simp [Distinct, first, second]
  have clean : (lintFiles (fun _ => .constant semicolonAnswer) "/" true twoFiles (.fresh {} "/") ()
      ["a", "b"]).failure = none := by cbv
  have independent := (lintFiles_independent (constant_steady semicolonAnswer) trivial {} "/" true
    false distinct clean).1 ["b", "a"] (.swap ..)
  exact ⟨distinct, clean, independent.2.1, independent.2.2.1 ["b"] ⟨["a"], rfl⟩⟩

end EditorLint.CommandLine
