import EditorLint.Proofs.CommandLine.FixPasses
import EditorLint.Proofs.FileTree

/-!
What linting a file with its fixes leads to. Either every pass has succeeded, and the file holds
the text of the last lint, or the file is left as it was.
-/

namespace EditorLint.CommandLine

def Problem.inText (text : String) (diagnostic : Diagnostic) : Problem :=
  let (line, character) := (LineTable.ofText text).positionAt diagnostic.start
  { line := line + 1, column := character + 1, severity := diagnostic.category
    message := diagnostic.message }

/-- The problems of a lint, located in its own text. -/
def problemsOf (lint : Lint) : List Problem := lint.diagnostics.map (Problem.inText lint.text)

theorem Problem.ofDiagnostic_eq_inText {workspace : Workspace} {file text : String}
    (opened : workspace.documents.find? file = some (.ofText text)) :
    Problem.ofDiagnostic workspace file = Problem.inText text := by
  funext diagnostic
  simp only [ofDiagnostic, inText, Workspace.location, opened, Option.map_some, Option.getD_some]

variable {σ : Type} {engine : Engine σ} {file text : String} {workspace : Workspace} {world : σ}

/-! ## Linting a text -/

/-- What linting a text has come to: so many edits have made it into the given text, which has the
given diagnostics. -/
structure TextLint.EndsAt (lint : TextLint σ) (file : String) (fixed : Nat) (text : String)
    (diagnostics : List Diagnostic) (logs : List LogEntry) (world : σ) : Prop where
  fixed_eq : lint.fixed = fixed
  fixedText_eq : lint.fixedText = if 0 < fixed then some text else none
  diagnostics_eq : lint.diagnostics = diagnostics
  opened : lint.workspace.documents.find? file = some (.ofText text)
  logs_eq : lint.logs = logs
  world_eq : lint.world = world

theorem fixPasses_of_unknown (unknown : workspace.service.findings file = none) (passes : Nat)
    (outcome : Option FixOutcome) :
    fixPasses engine file passes outcome workspace world = (.ok outcome, workspace, world) := by
  have nothing : workspace.service.fixAllEdits file = [] := by rw [Service.fixAllEdits, unknown]
  cases passes with
  | zero => rfl
  | succ passes => rw [fixPasses, nothing, List.isEmpty_nil, if_pos rfl]

theorem lintText_of_unknown {logs : List LogEntry} {after : σ}
    (unknown : workspace.service.findings file = none)
    (pass : workspace.service.semanticDiagnostics (workspace.setText file text).host engine file
      world = { diagnostics := [], logs, service := workspace.service, world := after }) :
    (lintText engine file text true workspace world).EndsAt file 0 text [] logs after := by
  have idle := @fixPasses_of_unknown σ engine file (workspace.setText file text) after unknown
    maxFixPasses none
  simp only [Workspace.setText] at pass idle
  simp only [lintText, Workspace.setText, pass, idle, Bool.not_true, Bool.false_eq_true, if_false]
  exact ⟨rfl, rfl, rfl, InsertionMap.find?_insert_self .., rfl, rfl⟩

theorem lintText_skipped (unknown : workspace.service.findings file = none)
    (skipped : workspace.service.settings.skipsFile file) :
    (lintText engine file text true workspace world).EndsAt file 0 text [] [] world := by
  apply lintText_of_unknown unknown
  rw [Service.semanticDiagnostics_eq_lint (workspace.setText_shows file text), if_pos skipped]

theorem lintText_unlinted {error : LintError} {after : σ}
    (unknown : workspace.service.findings file = none)
    (considered : ¬ workspace.service.settings.skipsFile file)
    (failed : workspace.service.lint engine file text world = (.error error, after)) :
    (lintText engine file text true workspace world).EndsAt file 0 text []
      [Service.failureLog file error] after := by
  apply lintText_of_unknown unknown
  rw [Service.semanticDiagnostics_eq_lint (workspace.setText_shows file text), if_neg considered,
    failed]

/-- After a first lint the text goes the way of the trail, and comes back when the trail fails. -/
theorem lintText_linted {first : Lint} {after : σ}
    (considered : ¬ workspace.service.settings.skipsFile file)
    (linted : workspace.service.lint engine file text world = (.ok first, after)) :
    let trail := workspace.service.trail engine file maxFixPasses first after
    let last := trail.visits.getLastD first
    let lint := lintText engine file text true workspace world
    match trail.failure with
    | some error =>
      lint.EndsAt file 0 text first.diagnostics [unchangedLog file error] trail.world
    | none =>
      lint.EndsAt file (Lint.applied (first :: trail.visits)) last.text last.diagnostics []
        trail.world := by
  have pass := Service.semanticDiagnostics_eq_lint (workspace.setText_shows file text)
    workspace.service engine world
  rw [if_neg considered, linted] at pass
  obtain ⟨rfl, -⟩ := Service.locates_of_lint linted
  have follows := @fixPasses_follows_trail σ engine file (workspace.holding file first) first
    maxFixPasses none after (workspace.holding_holds file first)
  simp only [Workspace.holding, Workspace.setText, Service.trail_remember] at pass follows
  simp only [lintText, Workspace.setText, pass, Bool.not_true, Bool.false_eq_true, if_false]
  generalize workspace.service.trail engine file maxFixPasses first after = trail at follows
  generalize fixPasses engine file maxFixPasses none _ after = run at follows
  obtain ⟨visits, failure, later⟩ := trail
  obtain ⟨outcome, ending, _⟩ := run
  obtain ⟨rfl, follows⟩ := follows
  cases failure with
  | some error =>
      -- The workspace is where the failure has left it, but the text is put back over it.
      simp only at follows ⊢
      subst follows
      exact ⟨rfl, rfl, rfl, InsertionMap.find?_insert_self .., rfl, rfl⟩
  | none =>
      obtain ⟨outcome_eq, holds⟩ := follows
      simp only at outcome_eq holds ⊢
      subst outcome_eq
      cases visits with
      | nil => exact ⟨rfl, rfl, rfl, holds.opened, rfl, rfl⟩
      | cons second rest =>
          rw [outcomeOf_none_cons]
          refine ⟨rfl, ?_, rfl, holds.opened, rfl, rfl⟩
          simp only [holds.shows.source, Option.getD_some]

/-! ## Linting a file -/

/-- The file has been left alone. -/
structure FileLint.LeavesAlone (run : FileLint σ) (files : FileTree) (problems : List Problem)
    (logs : List LogEntry) : Prop where
  result_eq : ∃ path, run.result = .ok { path, fixed := 0, problems }
  files_eq : run.files = files
  logs_eq : run.logs = logs

/-- Fixes have been written into the file, and the problems are those of the last lint. -/
structure FileLint.Writes (run : FileLint σ) (path : String) (last : Lint) : Prop where
  result_eq : ∃ shown fixed, 0 < fixed ∧
    run.result = .ok { path := shown, fixed, problems := problemsOf last }
  written : run.files.readText path = .ok last.text
  logs_eq : run.logs = []

theorem lintFile_finished {engine : FileTree → Engine σ} {root path : String} {fix : Bool}
    {files : FileTree} {result : FileResult}
    (finished : (lintFile engine root path fix files workspace world).result = .ok result) :
    ∃ text, files.readText path = .ok text ∧
      (lintText (engine files) path text fix workspace world).logs =
        (lintFile engine root path fix files workspace world).logs := by
  cases readable : files.readText path with
  | error error => simp [lintFile, readable] at finished
  | ok text =>
      refine ⟨text, rfl, ?_⟩
      simp only [lintFile, readable]
      split <;> rfl

theorem lintFile_of_endsAt (engine : FileTree → Engine σ) (root : String)
    {path text shown : String} {fix : Bool} {files : FileTree} {fixed : Nat}
    {diagnostics : List Diagnostic} {logs : List LogEntry} {after : σ}
    (readable : files.readText path = .ok text)
    (ends : (lintText (engine files) path text fix workspace world).EndsAt path fixed shown
      diagnostics logs after) :
    let run := lintFile engine root path fix files workspace world
    run.result = .ok {
        path := Path.relativeTo root path, fixed
        problems := diagnostics.map (Problem.inText shown) } ∧
      (if 0 < fixed then run.files.readText path = .ok shown else run.files = files) ∧
      run.logs = logs ∧ run.world = after := by
  obtain ⟨updated, overwritten, readBack⟩ := FileTree.exists_overwrite readable shown
  have located := Problem.ofDiagnostic_eq_inText ends.opened
  simp only [lintFile, readable, ends.fixedText_eq]
  by_cases positive : 0 < fixed
  · simp only [positive, if_true, writeBack, overwritten, ends.fixed_eq, ends.diagnostics_eq, located,
      ends.logs_eq, ends.world_eq, readBack, and_self]
  · simp only [positive, if_false, writeBack, ends.fixed_eq, ends.diagnostics_eq, located,
      ends.logs_eq, ends.world_eq, and_self]

/-- Linting a readable file with its fixes is all or nothing. When every pass of the trail has
succeeded and there was one, its last text is in the file. A failure of any pass leaves the file
as it was, with the problems of the first lint. -/
theorem lintFile_all_or_nothing (engine : FileTree → Engine σ) (root : String)
    {path text : String} {files : FileTree} {workspace : Workspace} (world : σ)
    (readable : files.readText path = .ok text)
    (unknown : workspace.service.findings path = none) :
    let service := workspace.service
    let run := lintFile engine root path true files workspace world
    if service.settings.skipsFile path then run.LeavesAlone files [] []
    else
      match service.lint (engine files) path text world with
      | (.error error, _) => run.LeavesAlone files [] [Service.failureLog path error]
      | (.ok first, world) =>
        let trail := service.trail (engine files) path maxFixPasses first world
        match trail.failure, trail.visits.getLast? with
        | some error, _ => run.LeavesAlone files (problemsOf first) [unchangedLog path error]
        | none, none => run.LeavesAlone files (problemsOf first) []
        | none, some last => run.Writes path last := by
  intro service run
  by_cases skipped : service.settings.skipsFile path
  · rw [if_pos skipped]
    obtain ⟨result, same, logs, -⟩ :=
      lintFile_of_endsAt engine root readable (lintText_skipped unknown skipped)
    exact ⟨⟨_, result⟩, same, logs⟩
  · rw [if_neg skipped]
    cases linted : service.lint (engine files) path text world with
    | mk answer after =>
        cases answer with
        | error error =>
            obtain ⟨result, same, logs, -⟩ :=
              lintFile_of_endsAt engine root readable (lintText_unlinted unknown skipped linted)
            exact ⟨⟨_, result⟩, same, logs⟩
        | ok first =>
            have ends := lintText_linted skipped linted
            obtain ⟨rfl, -⟩ := Service.locates_of_lint linted
            have chain := service.trail_isChain (engine files) path maxFixPasses first after
            simp only [service] at chain ⊢
            generalize workspace.service.trail (engine files) path maxFixPasses first after = trail
              at ends chain ⊢
            obtain ⟨visits, failure, later⟩ := trail
            cases failure with
            | some error =>
                obtain ⟨result, same, logs, -⟩ := lintFile_of_endsAt engine root readable ends
                exact ⟨⟨_, result⟩, same, logs⟩
            | none =>
                obtain ⟨result, written, logs, -⟩ := lintFile_of_endsAt engine root readable ends
                have positive := Lint.applied_pos_iff chain
                cases visits with
                | nil => exact ⟨⟨_, result⟩, written, logs⟩
                | cons second rest =>
                    have some := positive.mpr nofun
                    rw [if_pos some] at written
                    simp only [List.getLast?_cons, List.getLastD_eq_getLast?]
                      at result written ⊢
                    exact ⟨⟨_, _, some, result⟩, written, logs⟩

def semicolonLint : Lint where
  text := "var a = 1\n"
  report := semicolonReport
  located := [(semicolonFinding,
    ⟨"a", 9, 0, "Missing semicolon. (semi)", .error, some diagnosticSource, diagnosticCode⟩)]

def cleanReport : Report := { results := [{}] }

def semicolonFiles : FileTree :=
  { root := .directory [("a", .file "var a = 1\n".toUTF8 false)] }

def semicolonWorkspace : Workspace := { service := { settings := {}, root := "/" } }

theorem lintFile_all_or_nothing_semicolon :
    let run := lintFile (fun _ => .prepared) "/" "a" true semicolonFiles semicolonWorkspace
    (run [.ok semicolonReport, .ok cleanReport]).Writes "a" ⟨"var a = 1;\n", cleanReport, []⟩ ∧
      (run [.ok semicolonReport, .error .json]).LeavesAlone semicolonFiles
        [⟨1, 10, .error, "Missing semicolon. (semi)"⟩] [unchangedLog "a" .json] := by
  have outcome (answers : List (Except LintError Report)) :=
    lintFile_all_or_nothing (fun _ => .prepared) "/" (.ok semicolonReport :: answers)
      (show semicolonFiles.readText "a" = .ok "var a = 1\n" by cbv)
      (show semicolonWorkspace.service.findings "a" = none by rfl)
  have considered : semicolonWorkspace.service.settings.skipsFile "a" = false := by cbv
  have linted (answers : List (Except LintError Report)) :
      semicolonWorkspace.service.lint .prepared "a" "var a = 1\n" (.ok semicolonReport :: answers) =
        (.ok semicolonLint, answers) := by cbv
  have fixed : semicolonWorkspace.service.trail .prepared "a" maxFixPasses semicolonLint
      [.ok cleanReport] = { visits := [⟨"var a = 1;\n", cleanReport, []⟩], world := [] } := by cbv
  have failed : semicolonWorkspace.service.trail .prepared "a" maxFixPasses semicolonLint
      [.error .json] = { failure := some .json, world := [] } := by cbv
  have problems : problemsOf semicolonLint =
      [⟨1, 10, .error, "Missing semicolon. (semi)"⟩] := by cbv
  simp only [considered, linted, Bool.false_eq_true, if_false] at outcome
  constructor
  · simpa only [fixed, List.getLast?_singleton] using outcome [.ok cleanReport]
  · simpa only [failed, problems] using outcome [.error .json]

/-- A run of fixing that logs nothing has gone through lints of which each but the last has made
the text of the next by its own batch. The linter was asked about these texts and no others, in
this order. -/
theorem lintFile_applies_own_batches (engine : FileTree → Engine σ) (root : String)
    {path text : String} {files : FileTree} {workspace : Workspace} (world : σ)
    (readable : files.readText path = .ok text)
    (unknown : workspace.service.findings path = none)
    (considered : workspace.service.settings.skipsFile path = false)
    (clean : (lintFile engine root path true files workspace world).logs = []) :
    let service := workspace.service
    let run := lintFile engine root path true files workspace world
    let recorded :=
      lintFile (fun files => (engine files).recording) root path true files workspace ([], world)
    ∃ first later, service.Leads path text maxFixPasses first later ∧
      recorded.world = ((first :: later).map (service.exchange path), run.world) ∧
      run.result = .ok {
        path := Path.relativeTo root path
        fixed := Lint.applied (first :: later)
        problems := problemsOf (later.getLastD first) } ∧
      if later = [] then run.files = files
      else run.files.readText path = .ok (later.getLastD first).text := by
  intro service run recorded
  have notSkipped : ¬ service.settings.skipsFile path := by simp [service, considered]
  cases linted : service.lint (engine files) path text world with
  | mk answer after =>
      cases answer with
      | error error =>
          have ends := lintText_unlinted unknown notSkipped linted
          have logs := (lintFile_of_endsAt engine root readable ends).2.2.1
          exact absurd (logs.symm.trans clean) (List.cons_ne_nil _ _)
      | ok first =>
          have ends := lintText_linted notSkipped linted
          cases failure : (service.trail (engine files) path maxFixPasses first after).failure with
          | some error =>
              simp only [service, failure] at ends
              have logs := (lintFile_of_endsAt engine root readable ends).2.2.1
              exact absurd (logs.symm.trans clean) (List.cons_ne_nil _ _)
          | none =>
              have leads := Service.trail_leads linted failure
              obtain ⟨calls, recordedTrail, made⟩ := service.trail_recording (engine files) path
                maxFixPasses first [service.exchange path first] after
              have recordedEnds := lintText_linted notSkipped (Service.lint_recording_ok linted [])
              simp only [service] at failure ends recordedTrail recordedEnds
              simp only [List.nil_append, recordedTrail, failure] at ends recordedEnds
              obtain ⟨result, written, -, ended⟩ := lintFile_of_endsAt engine root readable ends
              have recordedEnded := (lintFile_of_endsAt (fun files => (engine files).recording)
                root readable recordedEnds).2.2.2
              refine ⟨first, _, leads, ?_, result, ?_⟩
              · rw [recordedEnded, ended, made failure]
                rfl
              · have positive := Lint.applied_pos_iff leads.steps
                split
                · next none => rwa [if_neg (mt positive.mp (not_not_intro none))] at written
                · next some => rwa [if_pos (positive.mpr some)] at written

theorem lintFile_applies_own_batches_semicolon :
    let run := lintFile (fun _ => .prepared) "/" "a" true semicolonFiles semicolonWorkspace
      [.ok semicolonReport, .ok cleanReport]
    let recorded := lintFile (fun _ => Engine.prepared.recording) "/" "a" true semicolonFiles
      semicolonWorkspace ([], [.ok semicolonReport, .ok cleanReport])
    semicolonFiles.readText "a" = .ok "var a = 1\n" ∧ run.logs = [] ∧
      ∃ first later,
        semicolonWorkspace.service.Leads "a" "var a = 1\n" maxFixPasses first later ∧
        recorded.world =
          ((first :: later).map (semicolonWorkspace.service.exchange "a"), run.world) ∧
        run.result = .ok {
          path := Path.relativeTo "/" "a"
          fixed := Lint.applied (first :: later)
          problems := problemsOf (later.getLastD first) } ∧
        if later = [] then run.files = semicolonFiles
        else run.files.readText "a" = .ok (later.getLastD first).text := by
  have readable : semicolonFiles.readText "a" = .ok "var a = 1\n" := by cbv
  have clean : (lintFile (fun _ => .prepared) "/" "a" true semicolonFiles semicolonWorkspace
      [.ok semicolonReport, .ok cleanReport]).logs = [] := by cbv
  exact ⟨readable, clean,
    lintFile_applies_own_batches (fun _ => .prepared) "/" _ readable rfl (by cbv) clean⟩

end EditorLint.CommandLine
