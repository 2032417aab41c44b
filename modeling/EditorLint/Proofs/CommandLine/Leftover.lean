import EditorLint.Proofs.CommandLine.FileLint
import EditorLint.Proofs.Edit.Selection
import EditorLint.Proofs.FindingIndex
import EditorLint.Proofs.FixAction
import EditorLint.Proofs.Service.Located

/-!
What fixing a file leaves over. The passes stop when the index of the last lint has no fix in it,
and the index has only the last finding of each span.
-/

namespace EditorLint

namespace Lint

variable {lint : Lint}

theorem edit_eq_none_of_batch_eq_nil (done : lint.batch = []) :
    ∀ entry ∈ lint.index.toList, entry.edit = none :=
  List.filterMap_eq_nil_iff.mp (Edit.nonOverlapping_eq_nil_iff.mp done)

theorem fix_eq_none_of_lastAt (done : lint.batch = []) {start stop : Nat}
    {entry : Finding × Diagnostic} (found : lastAt lint.located start stop = some entry) :
    entry.1.fix = none := by
  have looked : lint.index.lookup start stop = some ⟨entry.1, start, stop⟩ := by
    rw [index, lookup_indexOf, found, Option.map_some]
  have nothing := edit_eq_none_of_batch_eq_nil done _ (FindingIndex.mem_of_lookup looked)
  exact Option.map_eq_none_iff.mp nothing

/-- A fix that is left over belongs to a finding whose place in the index was taken by a later
one without a fix. -/
theorem exists_later_without_fix (done : lint.batch = []) {before after : List (Finding × Diagnostic)}
    {entry : Finding × Diagnostic} (split : lint.located = before ++ entry :: after)
    (fixable : entry.1.fix.isSome) :
    ∃ other ∈ after, other.2.start = entry.2.start ∧ other.2.stop = entry.2.stop ∧
      other.1.fix = none := by
  have found : lastAt lint.located entry.2.start entry.2.stop =
      ((lastAt after entry.2.start entry.2.stop).or (some entry)).or
        (lastAt before entry.2.start entry.2.stop) := by
    rw [split, lastAt_append, ← List.singleton_append, lastAt_append]
    simp [lastAt]
  cases later : lastAt after entry.2.start entry.2.stop with
  | none =>
      rw [later, Option.none_or, Option.some_or] at found
      simp [fix_eq_none_of_lastAt done found] at fixable
  | some other =>
      rw [later, Option.some_or, Option.some_or] at found
      obtain ⟨member, span⟩ := List.mem_filter.mp (List.mem_of_getLast? later)
      simp only [decide_eq_true_eq] at span
      exact ⟨other, member, span.1, span.2, fix_eq_none_of_lastAt done found⟩

end Lint

namespace CommandLine

variable {σ : Type} {workspace : Workspace} {path text : String} {files : FileTree}

theorem semanticDiagnostics_logs_of_lintText (engine : Engine σ) (workspace : Workspace)
    (path text : String) (fix : Bool) (world : σ) :
    let opened := workspace.setText path text
    let lint := lintText engine path text fix workspace world
    ∃ later, lint.logs =
      (opened.service.semanticDiagnostics opened.host engine path world).logs ++ later := by
  intro opened lint
  simp only [lint, lintText]
  split
  · exact ⟨[], (List.append_nil _).symm⟩
  · split
    · exact ⟨[], (List.append_nil _).symm⟩
    · exact ⟨[], (List.append_nil _).symm⟩
    · exact ⟨_, rfl⟩

theorem exists_linted_of_clean {engine : Engine σ} {fix : Bool} {world : σ}
    (considered : workspace.service.settings.skipsFile path = false)
    (clean : (lintText engine path text fix workspace world).logs = []) :
    ∃ first after, workspace.service.lint engine path text world = (.ok first, after) := by
  obtain ⟨later, logs⟩ := semanticDiagnostics_logs_of_lintText engine workspace path text fix world
  rw [clean, eq_comm, List.append_eq_nil_iff,
    Service.semanticDiagnostics_eq_lint (workspace.setText_shows path text)] at logs
  simp only [Workspace.setText, considered, Bool.false_eq_true, if_false] at logs
  cases linted : workspace.service.lint engine path text world with
  | mk answer after =>
      cases answer with
      | error error => simp [linted] at logs
      | ok first => exact ⟨first, after, rfl⟩

/-- A run of fixing that logs nothing goes from lint to lint by their own batches, and the linter
is asked about these texts alone. -/
theorem lintFile_leads (engine : FileTree → Engine σ) (root : String) (world : σ)
    (readable : files.readText path = .ok text)
    (considered : workspace.service.settings.skipsFile path = false)
    (clean : (lintText (engine files) path text true workspace world).logs = []) :
    let service := workspace.service
    let recorded :=
      lintFile (fun files => (engine files).recording) root path true files workspace ([], world)
    ∃ first later, service.Leads path text maxFixPasses first later ∧
      recorded.world.1 = (first :: later).map (service.exchange path) := by
  intro service recorded
  obtain ⟨first, after, linted⟩ := exists_linted_of_clean considered clean
  have notSkipped : ¬ service.settings.skipsFile path := by simp [service, considered]
  have ends := lintText_linted notSkipped linted
  cases failure : (service.trail (engine files) path maxFixPasses first after).failure with
  | some error =>
      simp only [service, failure] at ends
      exact absurd (ends.logs_eq.symm.trans clean) (List.cons_ne_nil _ _)
  | none =>
      obtain ⟨calls, recordedTrail, made⟩ := service.trail_recording (engine files) path
        maxFixPasses first [service.exchange path first] after
      have recordedEnds := lintText_linted notSkipped (Service.lint_recording_ok linted [])
      simp only [service] at failure recordedTrail recordedEnds
      simp only [List.nil_append, recordedTrail, failure] at recordedEnds
      have ended := (lintFile_of_endsAt (fun files => (engine files).recording) root readable
        recordedEnds).2.2.2
      refine ⟨first, _, Service.trail_leads linted failure, ?_⟩
      simp only [recorded, ended, made failure]
      rfl

/-- When fixing ends without a failure before the passes are used up, a fix is left over only where
a later finding with the same span, and without a fix, has taken the place of its own. -/
theorem lintFile_leaves_replaced_fixes (engine : FileTree → Engine σ) (root : String)
    {path : String} {files : FileTree} {workspace : Workspace} (world : σ) {result : FileResult}
    (considered : workspace.service.settings.skipsFile path = false)
    (finished : (lintFile engine root path true files workspace world).result = .ok result)
    (clean : (lintFile engine root path true files workspace world).logs = []) :
    let service := workspace.service
    let recorded :=
      lintFile (fun files => (engine files).recording) root path true files workspace ([], world)
    ∃ text first later, files.readText path = .ok text ∧
      service.Leads path text maxFixPasses first later ∧
      recorded.world.1 = (first :: later).map (service.exchange path) ∧
      (later.length < maxFixPasses →
        let last := later.getLastD first
        ∃ reported, last.report.firstResult = .ok reported ∧
          last.located.map (·.1) = reported.messages.filter service.settings.keepsFinding ∧
          ∀ before entry after, last.located = before ++ entry :: after → entry.1.fix.isSome →
            ∃ other ∈ after, other.2.start = entry.2.start ∧ other.2.stop = entry.2.stop ∧
              other.1.fix = none) := by
  intro service recorded
  obtain ⟨text, readable, logs⟩ := lintFile_finished finished
  obtain ⟨first, later, leads, exchanges⟩ :=
    lintFile_leads engine root world readable considered (logs.trans clean)
  refine ⟨text, first, later, readable, leads, exchanges, ?_⟩
  intro few last
  obtain ⟨reported, found, kept, -⟩ := (leads.locates last List.getLastD_mem_cons).of_report
  have done := leads.ends.resolve_left (Nat.ne_of_lt few)
  exact ⟨reported, found, kept,
    fun _ _ _ split fixable => Lint.exists_later_without_fix done split fixable⟩

theorem lintFile_leaves_replaced_fixes_semicolon :
    let run := lintFile (fun _ => .prepared) "/" "a" true semicolonFiles semicolonWorkspace
      [.ok semicolonReport, .ok cleanReport]
    let recorded := lintFile (fun _ => Engine.prepared.recording) "/" "a" true semicolonFiles
      semicolonWorkspace ([], [.ok semicolonReport, .ok cleanReport])
    let service := semicolonWorkspace.service
    service.settings.skipsFile "a" = false ∧
      run.result = .ok { path := "a", fixed := 1, problems := [] } ∧ run.logs = [] ∧
      ∃ text first later, semicolonFiles.readText "a" = .ok text ∧
        service.Leads "a" text maxFixPasses first later ∧
        recorded.world.1 = (first :: later).map (service.exchange "a") ∧
        (later.length < maxFixPasses →
          let last := later.getLastD first
          ∃ reported, last.report.firstResult = .ok reported ∧
            last.located.map (·.1) = reported.messages.filter service.settings.keepsFinding ∧
            ∀ before entry after, last.located = before ++ entry :: after → entry.1.fix.isSome →
              ∃ other ∈ after, other.2.start = entry.2.start ∧ other.2.stop = entry.2.stop ∧
                other.1.fix = none) := by
  have considered : semicolonWorkspace.service.settings.skipsFile "a" = false := by cbv
  have finished : (lintFile (fun _ => .prepared) "/" "a" true semicolonFiles semicolonWorkspace
      [.ok semicolonReport, .ok cleanReport]).result =
        .ok { path := "a", fixed := 1, problems := [] } := by cbv
  have clean : (lintFile (fun _ => .prepared) "/" "a" true semicolonFiles semicolonWorkspace
      [.ok semicolonReport, .ok cleanReport]).logs = [] := by cbv
  exact ⟨considered, finished, clean,
    lintFile_leaves_replaced_fixes (fun _ => .prepared) "/" _ considered finished clean⟩

/-- A finding without a fix, at the place of the missing semicolon. -/
def lineEndFinding : Finding :=
  { line := 1, column := 10, ruleId := some "eol", message := "Unexpected end of line." }

def crowdedLint : Lint where
  text := "var a = 1\n"
  report := { results := [{ messages := [semicolonFinding, lineEndFinding] }] }
  located := semicolonLint.located ++ [(lineEndFinding,
    ⟨"a", 9, 0, "Unexpected end of line. (eol)", .error, some diagnosticSource, diagnosticCode⟩)]

/-- Fixing stops without a failure, at its first report, and this report has a fix. -/
theorem lintFile_leaves_fix_of_crowded_span :
    let run := lintFile (fun _ => .prepared) "/" "a" true semicolonFiles semicolonWorkspace
      [.ok crowdedLint.report, .ok cleanReport]
    let recorded := lintFile (fun _ => Engine.prepared.recording) "/" "a" true semicolonFiles
      semicolonWorkspace ([], [.ok crowdedLint.report, .ok cleanReport])
    let service := semicolonWorkspace.service
    service.settings.skipsFile "a" = false ∧
      run.result = .ok {
        path := "a", fixed := 0
        problems := [⟨1, 10, .error, "Missing semicolon. (semi)"⟩,
          ⟨1, 10, .error, "Unexpected end of line. (eol)"⟩] } ∧
      run.logs = [] ∧
      ∃ first later, service.Leads "a" "var a = 1\n" maxFixPasses first later ∧
        recorded.world.1 = (first :: later).map (service.exchange "a") ∧
        later.length < maxFixPasses ∧
        ∃ entry ∈ (later.getLastD first).located,
          entry.1 = semicolonFinding ∧ entry.1.fix.isSome := by
  have located : semicolonWorkspace.service.Locates "a" crowdedLint := by
    unfold Service.Locates
    cbv
  have done : crowdedLint.batch = [] := by cbv
  refine ⟨by cbv, by cbv, by cbv, crowdedLint, [], ?_, by cbv, by decide, ?_⟩
  · exact ⟨rfl, Nat.zero_le _, .singleton _, List.forall_mem_singleton.mpr located, Or.inr done⟩
  · exact ⟨_, List.mem_cons_self, rfl, rfl⟩

end CommandLine

end EditorLint
