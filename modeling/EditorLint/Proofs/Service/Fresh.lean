import EditorLint.Proofs.Remedies
import EditorLint.Proofs.Service.Agreement
import EditorLint.Proofs.Service.History

/-!
Remedies on the text that was linted. A finding that could be located has its line in the text, so
that nothing which is offered for it fails as long as the host has the same text.
-/

namespace EditorLint

/-- A host that has a text for a file, and finds positions in it by its lines. -/
structure Host.Holds (host : Host) (file text : String) : Prop where
  source : host.sourceText file = some text
  positions : host.positionOf file = (LineTable.ofText text).positionOf file

theorem Host.Shows.holds {host : Host} {file text : String} (shows : host.Shows file text) :
    host.Holds file text :=
  ⟨shows.source, shows.positions⟩

namespace FixAction

variable {policy : BatchPolicy} {file : String} {index : FindingIndex} {start stop : Nat}
  {error : LintError}

theorem assemble_eq_error_iff_exists {positionOf : Nat → Nat → Except LintError Nat} :
    assemble policy file index start stop positionOf = .error error ↔
      ∃ target, index.lookup start stop = some target ∧ Unplaced target positionOf error := by
  cases found : index.lookup start stop with
  | none => simp [assemble, found]
  | some target => simp [assemble_eq_error_iff found]

theorem assemble_eq_error_iff_of_holds {host : Host} {text : String}
    (holds : host.Holds file text) :
    assemble policy file index start stop (host.positionOf file) = .error error ↔
      ∃ target, index.lookup start stop = some target ∧ target.rule ≠ none ∧
        (LineTable.ofText text).lineCount < target.finding.startLine ∧
        error = .positionOutOfRange file (target.finding.startLine - 1) 0 := by
  rw [assemble_eq_error_iff_exists]
  apply exists_congr
  intro target
  have positive : 1 ≤ target.finding.startLine := one_le_oneBased _
  have beyond : (LineTable.ofText text).lineCount ≤ target.finding.startLine - 1 ↔
      (LineTable.ofText text).lineCount < target.finding.startLine := by omega
  rw [Unplaced, holds.positions,
    LineTable.positionOf_zero_eq_error_iff (LineTable.ofText_wellFormed text), beyond]

end FixAction

namespace Service

variable {σ : Type} {service : Service} {host : Host} {file text : String} {index : FindingIndex}

/-! ## What a lint leaves behind -/

theorem exists_locates_of_attempt {engine : Engine σ} {world : σ} (holds : host.Holds file text)
    (linted : (service.attempt host engine file world).1 = .linted index) :
    ∃ lint, service.Locates file lint ∧ lint.text = text ∧ lint.index = index := by
  simp only [attempt, holds.source] at linted
  cases answered : (engine (service.lintCall file text) world).1 with
  | error error =>
      simp only [answered, Except.bind] at linted
      cases linted
  | ok report =>
      simp only [answered, Except.bind] at linted
      cases found : service.locateReport host file report with
      | error error =>
          rw [found] at linted
          cases linted
      | ok located =>
          rw [found] at linted
          refine ⟨⟨text, report, located⟩, ?_, rfl, Outcome.linted.inj linted⟩
          rw [Locates, ← found]
          simp only [locateReport, locate, holds.positions, (Host.ofText_shows file text).positions]

theorem exists_locates_of_outcome {moment : Moment σ} {world : σ}
    (about : moment.call.file? = some file) (holds : moment.host.Holds file text)
    (linted : (service.outcome moment world).1 = .linted index) :
    ∃ lint, service.Locates file lint ∧ lint.text = text ∧ lint.index = index := by
  obtain ⟨host, engine, call⟩ := moment
  cases call with
  | semanticDiagnostics other =>
      obtain rfl := Option.some.inj about
      simp only [outcome] at linted
      split at linted
      · cases linted
      · split at linted
        · cases linted
        · exact exists_locates_of_attempt holds linted
  | recompute other =>
      obtain rfl := Option.some.inj about
      exact exists_locates_of_attempt holds linted
  | codeFixes other start stop codes => cases linted
  | fixAllEdits other => cases linted
  | findings other => cases linted
  | forget other => cases linted
  | delegated => cases linted

/-! ## What calls keep of it -/

theorem run_append (service : Service) (earlier later : List (Moment σ)) (world : σ) :
    service.run (earlier ++ later) world =
      (service.run earlier world).1.run later (service.run earlier world).2 :=
  List.foldl_append

theorem run_cons (service : Service) (moment : Moment σ) (rest : List (Moment σ)) (world : σ) :
    service.run (moment :: rest) world =
      (service.perform moment world).1.run rest (service.perform moment world).2 :=
  rfl

theorem findings_foldl_after_of_idle {history : List ServiceEvent}
    (idle : ∀ event ∈ history, event.call.file? = some file → event.outcome.isIdle) :
    (history.foldl after service).findings file = service.findings file := by
  induction history generalizing service with
  | nil => rfl
  | cons event rest ih =>
      obtain ⟨here, later⟩ := List.forall_mem_cons.mp idle
      rw [List.foldl_cons, ih later, findings_after]
      split
      · next about =>
          have calm := here about
          cases outcome : event.outcome <;> simp_all [Outcome.isIdle]
      · rfl

/-- Of some calls, the last one that has changed what is known of a file has linted a text. -/
def LastLinted (service : Service) (moments : List (Moment σ)) (world : σ)
    (file text : String) : Prop :=
  ∃ before moment after index, moments = before ++ moment :: after ∧
    moment.call.file? = some file ∧ moment.host.Holds file text ∧
    let reached := service.run before world
    let linted := reached.1.perform moment reached.2
    (reached.1.outcome moment reached.2).1 = .linted index ∧
      ∀ event ∈ (linted.1.history after linted.2).1,
        event.call.file? = some file → event.outcome.isIdle

theorem LastLinted.exists_locates {moments : List (Moment σ)} {world : σ}
    (last : service.LastLinted moments world file text) :
    ∃ (earlier : Service) (lint : Lint), earlier.Locates file lint ∧ lint.text = text ∧
      (service.run moments world).1.findings file = some lint.index := by
  obtain ⟨before, moment, after, index, rfl, about, holds, succeeded, idle⟩ := last
  obtain ⟨lint, locates, same, rfl⟩ := exists_locates_of_outcome about holds succeeded
  refine ⟨_, lint, locates, same, ?_⟩
  rw [run_append, run_cons, run_eq_foldl_after, findings_foldl_after_of_idle idle,
    perform_eq_after, findings_after, if_pos about, succeeded]

/-- After any calls, nothing that is offered for a text fails and nothing is logged about it if the
last lint that has succeeded was one of this text. On whatever text, assembling fails exactly if a
comment is due above a line that the text does not have. -/
theorem codeFixes_of_lastLinted (service : Service) (moments : List (Moment σ)) (world : σ)
    {host : Host} {file text : String} (holds : host.Holds file text) (start stop : Nat) :
    let now := (service.run moments world).1
    (service.LastLinted moments world file text →
      ∃ index actions, now.findings file = some index ∧
        FixAction.assemble now.settings.batchPolicy file index start stop (host.positionOf file) =
          .ok actions ∧
        ∀ codes, now.codeFixes host file start stop codes =
          (host.codeFixes file start stop codes ++ actions, [])) ∧
    ∀ policy index error,
      FixAction.assemble policy file index start stop (host.positionOf file) = .error error ↔
        ∃ target, index.lookup start stop = some target ∧ target.rule ≠ none ∧
          (LineTable.ofText text).lineCount < target.finding.startLine ∧
          error = .positionOutOfRange file (target.finding.startLine - 1) 0 := by
  intro now
  constructor
  · intro last
    obtain ⟨earlier, lint, locates, rfl, known⟩ := last.exists_locates
    have assembled := assemble_eq_offered locates now.settings.batchPolicy start stop
    rw [← holds.positions] at assembled
    refine ⟨lint.index, _, known, assembled, ?_⟩
    intro codes
    simp only [codeFixes, now, known, assembled]
  · intro policy index error
    exact FixAction.assemble_eq_error_iff_of_holds holds

/-- The document has been linted, then a lint of it has failed and another document was linted. -/
def spoiledMoments : List (Moment (List (Except LintError Report))) :=
  [⟨Host.ofText "a" "var a = 1\n", .prepared, .recompute "a"⟩,
    ⟨Host.ofText "a" "var a = 1\n", .prepared, .semanticDiagnostics "a"⟩,
    ⟨Host.ofText "b" "var b = 1\n", .prepared, .recompute "b"⟩]

theorem codeFixes_of_lastLinted_spoiled :
    let answers := [.ok semicolonReport, .error .io, .ok semicolonReport]
    let now := (usedService.run spoiledMoments answers).1
    usedService.LastLinted spoiledMoments answers "a" "var a = 1\n" ∧
      ∃ actions, ∀ codes,
        now.codeFixes (Host.ofText "a" "var a = 1\n") "a" 9 9 codes = (actions, []) := by
  intro answers now
  have holds := (Host.ofText_shows "a" "var a = 1\n").holds
  have last : usedService.LastLinted spoiledMoments answers "a" "var a = 1\n" := by
    refine ⟨[], _, _, _, rfl, rfl, holds, rfl, ?_⟩
    decide
  refine ⟨last, ?_⟩
  obtain ⟨-, actions, -, -, offered⟩ :=
    (codeFixes_of_lastLinted usedService spoiledMoments answers holds 9 9).1 last
  exact ⟨actions, offered⟩

end Service

end EditorLint
