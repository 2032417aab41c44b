import EditorLint.Proofs.Service.Lint
import EditorLint.Proofs.Text.Position
import Mathlib.Data.List.Forall2

/-!
Findings and their diagnostics. The located findings of a lint are those of its report that the
settings keep, and the diagnostic of each lies inside the text.
-/

namespace EditorLint

theorem LineTable.positionOf_eq_ok_iff {table : LineTable} {file : String}
    {line character offset : Nat} :
    table.positionOf file line character = .ok offset ↔
      table.offsetAt line character = some offset := by
  unfold positionOf
  cases table.offsetAt line character <;> simp

theorem LineTable.positionOf_zero_eq_error_iff {table : LineTable} (wellFormed : table.WellFormed)
    {file : String} {line : Nat} {error : LintError} :
    table.positionOf file line 0 = .error error ↔
      table.lineCount ≤ line ∧ error = .positionOutOfRange file line 0 := by
  rw [← LineTable.offsetAt_zero_eq_none_iff wellFormed, LineTable.positionOf]
  cases table.offsetAt line 0 <;> simp [eq_comm]

/-- A diagnostic of the linter that lies inside a text. -/
structure Diagnostic.LiesIn (diagnostic : Diagnostic) (text : String) : Prop where
  isLint : diagnostic.isLint
  source_eq : diagnostic.source = some diagnosticSource
  bound : diagnostic.stop ≤ (LineTable.ofText text).length

theorem Diagnostic.start_le_stop (diagnostic : Diagnostic) : diagnostic.start ≤ diagnostic.stop :=
  Nat.le_add_right ..

theorem one_le_oneBased (value : Int) : 1 ≤ oneBased value := by
  unfold oneBased
  omega

theorem Finding.toDiagnostic_eq_ok {finding : Finding} {file text : String} {forceWarnings : Bool}
    {diagnostic : Diagnostic}
    (placed : finding.toDiagnostic file ((LineTable.ofText text).positionOf file) forceWarnings =
      .ok diagnostic) :
    (LineTable.ofText text).offsetAt (finding.startLine - 1) (finding.startColumn - 1) =
      some diagnostic.start ∧ diagnostic.LiesIn text := by
  have wellFormed := LineTable.ofText_wellFormed text
  simp only [toDiagnostic, bind, Except.bind] at placed
  split at placed
  · cases placed
  · next start startPlaced =>
      split at placed
      · cases placed
      · next stop stopPlaced =>
          obtain rfl := Except.ok.inj placed
          rw [LineTable.positionOf_eq_ok_iff] at startPlaced stopPlaced
          have startBound := LineTable.offsetAt_le_length wellFormed startPlaced
          have stopBound := LineTable.offsetAt_le_length wellFormed stopPlaced
          refine ⟨startPlaced, rfl, rfl, ?_⟩
          simp only [Diagnostic.stop]
          omega

theorem map_fst_of_mapM {α β ε : Type} {f : α → Except ε β} {items : List α} {pairs : List (α × β)}
    (mapped : items.mapM (fun item => (f item).map (item, ·)) = .ok pairs) :
    pairs.map (·.1) = items ∧ ∀ pair ∈ pairs, f pair.1 = .ok pair.2 := by
  induction items generalizing pairs with
  | nil =>
      obtain rfl := Except.ok.inj mapped
      exact ⟨rfl, nofun⟩
  | cons item rest ih =>
      rw [List.mapM_cons] at mapped
      cases here : f item with
      | error error =>
          rw [here] at mapped
          cases mapped
      | ok value =>
          have paired : (f item).map (item, ·) = .ok (item, value) := by rw [here, Except.map]
          cases later : rest.mapM (fun item => (f item).map (item, ·)) with
          | error error =>
              rw [paired, later] at mapped
              cases mapped
          | ok others =>
              rw [paired, later] at mapped
              obtain rfl := Except.ok.inj mapped
              obtain ⟨same, each⟩ := ih later
              exact ⟨congrArg _ same, List.forall_mem_cons.mpr ⟨here, each⟩⟩

theorem forall₂_map_fst_snd {α β : Type} {pairs : List (α × β)} {relation : α → β → Prop}
    (each : ∀ pair ∈ pairs, relation pair.1 pair.2) :
    List.Forall₂ relation (pairs.map (·.1)) (pairs.map (·.2)) := by
  rw [List.forall₂_map_left_iff, List.forall₂_map_right_iff, List.forall₂_same]
  exact each

namespace Service

variable {service : Service} {host : Host} {file : String} {lint : Lint}

theorem locateReport_of_first {report : Report} {result : LintResult} {others : List LintResult}
    (first : report.results = result :: others) :
    service.locateReport host file report = service.locate host file result.messages := by
  rw [locateReport, Report.firstResult, first]
  rfl

theorem locateReport_of_empty {report : Report} (empty : report.results = []) :
    service.locateReport host file report = .error (.malformedReport "report has no results") := by
  rw [locateReport, Report.firstResult, empty]
  rfl

theorem locateReport_eq_ok {report : Report} {located : List (Finding × Diagnostic)}
    (found : service.locateReport host file report = .ok located) :
    ∃ result others, report.results = result :: others ∧
      located.map (·.1) = result.messages.filter service.settings.keepsFinding ∧
      ∀ entry ∈ located,
        entry.1.toDiagnostic file (host.positionOf file) service.settings.forceWarnings =
          .ok entry.2 := by
  cases first : report.results with
  | nil =>
      rw [locateReport_of_empty first] at found
      cases found
  | cons result others =>
      rw [locateReport_of_first first] at found
      exact ⟨result, others, rfl, map_fst_of_mapM found⟩

theorem Locates.of_report (locates : service.Locates file lint) :
    ∃ reported, lint.report.firstResult = .ok reported ∧
      lint.located.map (·.1) = reported.messages.filter service.settings.keepsFinding ∧
      ∀ entry ∈ lint.located,
        entry.1.toDiagnostic file ((LineTable.ofText lint.text).positionOf file)
          service.settings.forceWarnings = .ok entry.2 := by
  obtain ⟨result, others, first, kept, each⟩ := locateReport_eq_ok locates
  rw [(Host.ofText_shows file lint.text).positions] at each
  exact ⟨result, by rw [Report.firstResult, first], kept, each⟩

theorem Locates.liesIn (locates : service.Locates file lint) {diagnostic : Diagnostic}
    (member : diagnostic ∈ lint.diagnostics) : diagnostic.LiesIn lint.text := by
  obtain ⟨entry, listed, rfl⟩ := List.mem_map.mp member
  obtain ⟨-, -, -, each⟩ := locates.of_report
  exact (Finding.toDiagnostic_eq_ok (each entry listed)).2

/-- The line of a finding that has been located is a line of the text. -/
theorem Locates.lineStart (locates : service.Locates file lint) {entry : Finding × Diagnostic}
    (member : entry ∈ lint.located) :
    (LineTable.ofText lint.text).positionOf file (entry.1.startLine - 1) 0 =
      .ok ((LineTable.ofText lint.text).startOf (entry.1.startLine - 1)).units := by
  obtain ⟨-, -, -, each⟩ := locates.of_report
  have placed := (Finding.toDiagnostic_eq_ok (each entry member)).1
  exact LineTable.positionOf_eq_ok_iff.mpr (LineTable.offsetAt_zero placed)

end Service

end EditorLint
