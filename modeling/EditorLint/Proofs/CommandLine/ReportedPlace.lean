import EditorLint.Proofs.CommandLine.FileLint
import EditorLint.Proofs.CommandLine.Steady
import EditorLint.Proofs.Service.Located
import EditorLint.Proofs.Text.RoundTrip

/-!
The place at which a problem is shown. It is that of a finding in the text that the linter was
asked about, however many passes were made and wherever they have ended.
-/

namespace EditorLint

open LineTable (ofText)

/-! ## One finding -/

/-- The line and the column of a finding in a text. Behind the terminator of a line that is not the
last begins the next line. -/
def Finding.shownAt (finding : Finding) (text : String) : Nat × Nat :=
  let lines := Text.lines text.toList
  if finding.startLine < lines.length ∧
      lines[finding.startLine - 1]?.map Text.units = some (finding.startColumn - 1) then
    (finding.startLine + 1, 1)
  else (finding.startLine, finding.startColumn)

/-- A problem is the diagnostic of a finding in a text, at the line and column of its start. -/
structure CommandLine.Problem.PointsAt (problem : Problem) (path text : String)
    (forceWarnings : Bool) (finding : Finding) : Prop where
  made : ∃ diagnostic,
    finding.toDiagnostic path ((ofText text).positionOf path) forceWarnings = .ok diagnostic ∧
      problem = .inText text diagnostic
  place : (problem.line, problem.column) = finding.shownAt text

theorem Finding.inText_pointsAt {finding : Finding} {path text : String} {forceWarnings : Bool}
    {diagnostic : Diagnostic}
    (built : finding.toDiagnostic path ((ofText text).positionOf path) forceWarnings =
      .ok diagnostic) :
    (CommandLine.Problem.inText text diagnostic).PointsAt path text forceWarnings finding := by
  refine ⟨⟨diagnostic, built, rfl⟩, ?_⟩
  have line : finding.startLine - 1 + 1 = finding.startLine :=
    Nat.sub_add_cancel (one_le_oneBased finding.line)
  have column : finding.startColumn - 1 + 1 = finding.startColumn :=
    Nat.sub_add_cancel (one_le_oneBased finding.column)
  have place := LineTable.positionAt_offsetAt (Finding.toDiagnostic_eq_ok built).1
  rw [line] at place
  simp only [CommandLine.Problem.inText, place, shownAt]
  split
  · rfl
  · rw [line, column]

namespace Service

variable {σ : Type} {service : Service} {engine : Engine σ} {file text : String}
  {record later : List Exchange} {lint : Lint}

/-- The problems of a lint point one by one at the findings that it was about. -/
theorem Locates.pointsAt (locates : service.Locates file lint) :
    ∃ reported, lint.report.firstResult = .ok reported ∧
      List.Forall₂ (fun finding problem =>
          problem.PointsAt file lint.text service.settings.forceWarnings finding)
        (reported.messages.filter service.settings.keepsFinding) (CommandLine.problemsOf lint) := by
  obtain ⟨reported, first, kept, each⟩ := locates.of_report
  refine ⟨reported, first, ?_⟩
  rw [← kept, CommandLine.problemsOf, Lint.diagnostics, List.forall₂_map_right_iff]
  exact forall₂_map_fst_snd fun entry member => Finding.inText_pointsAt (each entry member)

/-! ## One call of the linter -/

/-- A record has the exchange that a lint is about. -/
structure Accounts (service : Service) (file : String) (record : List Exchange) (lint : Lint) :
    Prop where
  asked : service.exchange file lint ∈ record
  locates : service.Locates file lint

theorem Accounts.mono (accounts : service.Accounts file record lint) (grown : record <+: later) :
    service.Accounts file later lint :=
  ⟨grown.subset accounts.asked, accounts.locates⟩

theorem Accounts.of_registry {registry : Registry}
    (accounts : ({ service with registry } : Service).Accounts file record lint) :
    service.Accounts file record lint :=
  ⟨accounts.asked, accounts.locates⟩

theorem record_prefix_lint (service : Service) (engine : Engine σ) (file text : String)
    (record : List Exchange) (world : σ) :
    record <+: (service.lint engine.recording file text (record, world)).2.1 := by
  rw [lint_recording]
  exact List.prefix_append _ _

theorem accounts_of_lint {world after : List Exchange × σ}
    (linted : service.lint engine.recording file text world = (.ok lint, after)) :
    lint.text = text ∧ service.Accounts file after.1 lint := by
  obtain ⟨rfl, asked, located⟩ := lint_text linted
  refine ⟨rfl, ?_, located⟩
  simp only [Engine.recording, Prod.mk.injEq] at asked
  obtain ⟨answered, rfl⟩ := asked
  simp [exchange, answered]

/-- There is nothing to tell of a text, or what a lint of it has found. -/
def Tells (service : Service) (file text : String) (record : List Exchange)
    (diagnostics : List Diagnostic) : Prop :=
  diagnostics = [] ∨ ∃ lint, lint.text = text ∧ service.Accounts file record lint ∧
    diagnostics = lint.diagnostics

theorem Tells.mono {diagnostics : List Diagnostic}
    (tells : service.Tells file text record diagnostics) (grown : record <+: later) :
    service.Tells file text later diagnostics := by
  rcases tells with nothing | ⟨lint, same, accounts, found⟩
  · exact Or.inl nothing
  · exact Or.inr ⟨lint, same, accounts.mono grown, found⟩

theorem semanticDiagnostics_tells {host : Host} (shows : host.Shows file text)
    (service : Service) (engine : Engine σ) (world : List Exchange × σ) :
    let pass := service.semanticDiagnostics host engine.recording file world
    (∃ registry, pass.service = { service with registry }) ∧
      service.Tells file text pass.world.1 pass.diagnostics := by
  intro pass
  have ended : pass = _ := semanticDiagnostics_eq_lint shows service engine.recording world
  rw [ended]
  split
  · exact ⟨⟨_, rfl⟩, Or.inl rfl⟩
  · cases linted : service.lint engine.recording file text world with
    | mk answer after =>
        cases answer with
        | error error => exact ⟨⟨_, rfl⟩, Or.inl rfl⟩
        | ok lint =>
            obtain ⟨same, accounts⟩ := accounts_of_lint linted
            exact ⟨⟨_, rfl⟩, Or.inr ⟨lint, same, accounts, rfl⟩⟩

end Service

namespace CommandLine

variable {σ : Type}

/-! ## All passes -/

/-- A pass that succeeds leaves its own lint behind, whatever was known of the file before. -/
theorem fixPass_accounts (engine : Engine σ) (file : String) (edits : List Edit)
    (workspace : Workspace) (world : List Exchange × σ) :
    let pass := fixPass engine.recording file edits workspace world
    world.1 <+: pass.2.2.1 ∧ ∀ diagnostics, pass.1 = .ok diagnostics → ∃ lint,
      pass.2.1 = workspace.holding file lint ∧ diagnostics = lint.diagnostics ∧
        workspace.service.Accounts file pass.2.2.1 lint := by
  intro pass
  simp only [pass, fixPass]
  split
  · exact ⟨List.prefix_refl _, fun _ failed => by cases failed⟩
  · split
    · exact ⟨List.prefix_refl _, fun _ failed => by cases failed⟩
    · next text _ =>
        have relinted := Service.recompute_eq_lint (workspace.setText_shows file text)
          (workspace.setText file text).service engine.recording world
        have grown := workspace.service.record_prefix_lint engine file text world.1 world.2
        have quiet := (workspace.setText_shows file text).quiet
        simp only [relinted, quiet, List.nil_append]
        cases linted : workspace.service.lint engine.recording file text world with
        | mk answer after =>
            simp only [Workspace.setText, linted] at grown ⊢
            cases answer with
            | error error => exact ⟨grown, fun _ failed => by cases failed⟩
            | ok lint =>
                obtain ⟨rfl, accounts⟩ := Service.accounts_of_lint linted
                refine ⟨grown, fun diagnostics passed => ⟨lint, rfl, ?_, accounts⟩⟩
                simpa using (Except.ok.inj passed).symm

/-- Passes that end well have done nothing, or they end with a lint that the record accounts for
and whose text is open. -/
theorem fixPasses_accounts (engine : Engine σ) (file : String) (passes : Nat)
    (outcome : Option FixOutcome) (workspace : Workspace) (world : List Exchange × σ) :
    let run := fixPasses engine.recording file passes outcome workspace world
    world.1 <+: run.2.2.1 ∧ ∀ ended, run.1 = .ok ended →
      (ended = outcome ∧ run.2.1 = workspace) ∨
      ∃ fixed lint, 0 < fixed ∧ ended = some ⟨fixed, lint.diagnostics⟩ ∧
        run.2.1.documents.find? file = some (.ofText lint.text) ∧
        workspace.service.Accounts file run.2.2.1 lint := by
  induction passes generalizing outcome workspace world with
  | zero => exact ⟨List.prefix_refl _, fun ended same => Or.inl ⟨(Except.ok.inj same).symm, rfl⟩⟩
  | succ passes ih =>
      intro run
      simp only [run, fixPasses]
      split
      · exact ⟨List.prefix_refl _, fun ended same => Or.inl ⟨(Except.ok.inj same).symm, rfl⟩⟩
      · next found =>
          obtain ⟨grown, passed⟩ := fixPass_accounts engine file
            (workspace.service.fixAllEdits file) workspace world
          generalize fixPass engine.recording file _ workspace world = pass at grown passed ⊢
          obtain ⟨error | diagnostics, later, after⟩ := pass
          · exact ⟨grown, fun _ failed => by cases failed⟩
          · obtain ⟨lint, rfl, rfl, accounts⟩ := passed diagnostics rfl
            obtain ⟨goesOn, ends⟩ := ih
              (some ⟨(outcome.map (·.fixed)).getD 0 +
                (workspace.service.fixAllEdits file).length, lint.diagnostics⟩)
              (workspace.holding file lint) after
            refine ⟨grown.trans goesOn, fun ended finished => Or.inr ?_⟩
            rcases ends ended finished with ⟨rfl, same⟩ | ⟨fixed, last, positive, rfl, opened, told⟩
            · have positive := List.length_pos_iff.mpr (mt List.isEmpty_iff.mpr found)
              exact ⟨_, lint, Nat.add_pos_right _ positive, rfl,
                (congrArg (·.documents.find? file) same).trans
                  (workspace.holding_holds file lint).opened,
                accounts.mono goesOn⟩
            · exact ⟨fixed, last, positive, rfl, opened, told.of_registry⟩

/-! ## A whole text -/

/-- What linting a text has led to belongs to the text that is open in the end, which is the given
one unless fixes are to be written. -/
structure TextLint.BelongsTo (lint : TextLint σ) (service : Service) (file given shown : String)
    (record : List Exchange) : Prop where
  ends : lint.EndsAt file lint.fixed shown lint.diagnostics lint.logs lint.world
  unfixed : lint.fixed = 0 → shown = given
  told : service.Tells file shown record lint.diagnostics

theorem lintText_belongs (engine : Engine σ) (file text : String) (fix : Bool)
    (workspace : Workspace) (world : List Exchange × σ) :
    let lint := lintText engine.recording file text fix workspace world
    ∃ shown, lint.BelongsTo workspace.service file text shown lint.world.1 := by
  intro lint
  obtain ⟨⟨registry, kept⟩, told⟩ := Service.semanticDiagnostics_tells
    (workspace.setText_shows file text) (workspace.setText file text).service engine world
  have opened : (workspace.setText file text).documents.find? file = some (.ofText text) :=
    InsertionMap.find?_insert_self ..
  simp only [lint, lintText]
  generalize Service.semanticDiagnostics _ _ _ _ _ = first at kept told ⊢
  cases fix with
  | false => exact ⟨text, ⟨rfl, rfl, rfl, opened, rfl, rfl⟩, fun _ => rfl, told⟩
  | true =>
      obtain ⟨grown, ends⟩ := fixPasses_accounts engine file maxFixPasses none
        { workspace.setText file text with service := first.service } first.world
      -- The exchange of the first lint stands in the record of all passes, also of those that fail.
      have stillTold := told.mono grown
      simp only [Bool.not_true, Bool.false_eq_true, if_false]
      generalize fixPasses _ _ _ _ _ _ = run at ends stillTold ⊢
      obtain ⟨error | ended, later, after⟩ := run
      · exact ⟨text, ⟨rfl, rfl, rfl, InsertionMap.find?_insert_self .., rfl, rfl⟩, fun _ => rfl,
          stillTold⟩
      · rcases ends ended rfl with ⟨rfl, rfl⟩ | ⟨fixed, last, positive, rfl, opened, accounts⟩
        · exact ⟨text, ⟨rfl, rfl, rfl, opened, rfl, rfl⟩, fun _ => rfl, stillTold⟩
        · simp only [kept] at accounts
          have source : later.host.sourceText file = some last.text :=
            (Host.ofDocuments_shows opened).source
          refine ⟨last.text, ⟨rfl, ?_, rfl, opened, rfl, rfl⟩,
            fun none => absurd none (Nat.ne_of_gt positive),
            Or.inr ⟨last, rfl, accounts.of_registry, rfl⟩⟩
          simp only [source, Option.getD_some]

/-! ## A whole file -/

/-- Every problem of a file points at a finding. The linter has reported the finding about the very
text that the problem is located in, which is what the file holds in the end. All positions of it
are known, so that no problem falls back to the start of the file. -/
theorem lintFile_points_at_findings (engine : FileTree → Engine σ) (root path : String)
    (fix : Bool) (files : FileTree) (workspace : Workspace) (world : σ) {result : FileResult}
    (finished : (lintFile engine root path fix files workspace world).result = .ok result) :
    let service := workspace.service
    let run := lintFile engine root path fix files workspace world
    let recorded :=
      lintFile (fun files => (engine files).recording) root path fix files workspace ([], world)
    ∃ original text, files.readText path = .ok original ∧
      (if 0 < result.fixed then run.files.readText path = .ok text
        else text = original ∧ run.files = files) ∧
      (∀ offset, (lintText (engine files) path original fix workspace world).workspace.location
        path offset = some (((LineTable.ofText text).positionAt offset).1 + 1,
          ((LineTable.ofText text).positionAt offset).2 + 1)) ∧
      recorded.result = run.result ∧
      (result.problems = [] ∨ ∃ lint reported,
        lint.text = text ∧ service.exchange path lint ∈ recorded.world.1 ∧
        lint.report.firstResult = .ok reported ∧
        List.Forall₂ (fun finding problem =>
            problem.PointsAt path text service.settings.forceWarnings finding)
          (reported.messages.filter service.settings.keepsFinding) result.problems) := by
  intro service run recorded
  obtain ⟨original, readable, -⟩ := lintFile_finished finished
  obtain ⟨shown, belongs⟩ :=
    lintText_belongs (engine files) path original fix workspace ([], world)
  obtain ⟨after, -, same⟩ := lintText_of_agrees workspace path (engine files).recording_agrees
    (show (([], world) : List Exchange × σ).2 = world from rfl) original fix
  obtain ⟨recordedResult, -, -, recordedWorld⟩ := lintFile_of_endsAt
    (fun files => (engine files).recording) root readable belongs.ends
  rw [same] at belongs recordedResult recordedWorld
  have ends : (lintText (engine files) path original fix workspace world).EndsAt path _ shown _ _ _ :=
    ⟨rfl, belongs.ends.fixedText_eq, rfl, belongs.ends.opened, rfl, rfl⟩
  obtain ⟨ended, written, -, -⟩ := lintFile_of_endsAt engine root readable ends
  obtain rfl := Except.ok.inj (finished.symm.trans ended)
  refine ⟨original, shown, readable, ?_, ?_, recordedResult.trans ended.symm, ?_⟩
  · split
    · next positive => rwa [if_pos positive] at written
    · next unfixed =>
        rw [if_neg unfixed] at written
        exact ⟨belongs.unfixed (Nat.eq_zero_of_not_pos unfixed), written⟩
  · intro offset
    rw [Workspace.location, ends.opened]
    rfl
  · rcases belongs.told with nothing | ⟨lint, rfl, accounts, found⟩
    · exact Or.inl (List.map_eq_nil_iff.mpr nothing)
    · obtain ⟨reported, first, each⟩ := accounts.locates.pointsAt
      rw [problemsOf, ← found] at each
      exact Or.inr ⟨lint, reported, rfl, recordedWorld ▸ accounts.asked, first, each⟩

/-- A finding behind the terminator of the only line that has one. -/
def breakReport : Report :=
  { results := [{ messages := [{ line := 1, column := 12, message := "Unexpected break." }] }] }

theorem lintFile_points_at_findings_line_break :
    let answers := [.ok semicolonReport, .ok breakReport]
    let run := lintFile (fun _ => .prepared) "/" "a" true semicolonFiles semicolonWorkspace answers
    let recorded := lintFile (fun _ => Engine.prepared.recording) "/" "a" true semicolonFiles
      semicolonWorkspace ([], answers)
    let problem : Problem := ⟨2, 1, .error, "Unexpected break."⟩
    run.result = .ok ⟨"a", 1, [problem]⟩ ∧ run.files.readText "a" = .ok "var a = 1;\n" ∧
      ∃ lint reported finding, lint.text = "var a = 1;\n" ∧
        semicolonWorkspace.service.exchange "a" lint ∈ recorded.world.1 ∧
        lint.report.firstResult = .ok reported ∧ finding ∈ reported.messages ∧
        problem.PointsAt "a" "var a = 1;\n" false finding := by
  intro answers run recorded problem
  have finished : run.result = .ok ⟨"a", 1, [problem]⟩ := by
    unfold run answers problem
    cbv
  have written : run.files.readText "a" = .ok "var a = 1;\n" := by
    unfold run answers
    cbv
  obtain ⟨original, text, -, kept, -, -, told⟩ := lintFile_points_at_findings (fun _ => .prepared)
    "/" "a" true semicolonFiles semicolonWorkspace answers finished
  obtain rfl : text = "var a = 1;\n" := Except.ok.inj (kept.symm.trans written)
  obtain ⟨lint, reported, same, asked, first, each⟩ := told.resolve_left (List.cons_ne_nil _ _)
  obtain ⟨finding, _, points, -, filtered⟩ := List.forall₂_cons_right_iff.mp each
  have listed : finding ∈ reported.messages := by
    apply List.mem_of_mem_filter
    rw [filtered]
    exact List.mem_cons_self
  exact ⟨finished, written, lint, reported, finding, same, asked, first, listed, points⟩

end CommandLine

end EditorLint
