import EditorLint.Proofs.Service.History
import EditorLint.Proofs.Service.Located

/-!
When the lint of a document succeeds, and with which error it fails. The stages of a lint are the
host, the linter, its report and the places of the findings that are kept, in the order of the
report; the error is that of the first stage that fails.
-/

namespace EditorLint

theorem exists_mapM_iff {α β ε : Type} {f : α → Except ε β} {items : List α} :
    (∃ values, items.mapM f = .ok values) ↔ ∀ item ∈ items, ∃ value, f item = .ok value := by
  induction items with
  | nil => exact ⟨fun _ => nofun, fun _ => ⟨[], rfl⟩⟩
  | cons item rest ih =>
      rw [List.forall_mem_cons, ← ih, List.mapM_cons]
      cases here : f item with
      | error error => simp [bind, Except.bind]
      | ok value =>
          cases later : rest.mapM f with
          | error error => simp [bind, Except.bind]
          | ok values => simp [bind, Except.bind, pure, Except.pure]

theorem mapM_eq_error_iff {α β ε : Type} {f : α → Except ε β} {items : List α} {error : ε} :
    items.mapM f = .error error ↔
      ∃ before item after, items = before ++ item :: after ∧
        (∀ earlier ∈ before, ∃ value, f earlier = .ok value) ∧ f item = .error error := by
  constructor
  · intro failed
    induction items with
    | nil => cases failed
    | cons first rest ih =>
        rw [List.mapM_cons] at failed
        cases here : f first with
        | error other =>
            rw [here] at failed
            obtain rfl := Except.error.inj failed
            exact ⟨[], first, rest, rfl, nofun, here⟩
        | ok value =>
            have later : rest.mapM f = .error error := by
              rw [here] at failed
              cases mapped : rest.mapM f with
              | error other =>
                  rw [mapped] at failed
                  exact failed
              | ok values =>
                  rw [mapped] at failed
                  cases failed
            obtain ⟨before, item, after, rfl, passed, failed⟩ := ih later
            exact ⟨first :: before, item, after, rfl,
              List.forall_mem_cons.mpr ⟨⟨value, here⟩, passed⟩, failed⟩
  · rintro ⟨before, item, after, rfl, passed, failed⟩
    obtain ⟨values, mapped⟩ := exists_mapM_iff.mpr passed
    rw [List.mapM_append, mapped, List.mapM_cons, failed]
    rfl

/-- What a linter would answer at one moment. -/
abbrev Engine.answer {σ : Type} (engine : Engine σ) (world : σ) (call : LintCall) :
    Except LintError Report :=
  (engine call world).1

/-- A linter that always answers the same. -/
def Engine.constant (answer : LintCall → Except LintError Report) : Engine Unit :=
  fun call world => (answer call, world)

namespace Finding

variable {finding : Finding} {positionOf : Nat → Nat → Except LintError Nat}

/-- Both ends of a finding are positions of a document. -/
structure Placed (finding : Finding) (positionOf : Nat → Nat → Except LintError Nat) : Prop where
  start : ∃ offset, positionOf (finding.startLine - 1) (finding.startColumn - 1) = .ok offset
  stop : ∃ offset, positionOf (finding.stopLine - 1) (finding.stopColumn - 1) = .ok offset

/-- The error of the end that is no position of a document, the start being tried first. -/
inductive Misplaced (finding : Finding) (positionOf : Nat → Nat → Except LintError Nat) :
    LintError → Prop
  | start {error : LintError}
      (failed : positionOf (finding.startLine - 1) (finding.startColumn - 1) = .error error) :
      Misplaced finding positionOf error
  | stop {offset : Nat} {error : LintError}
      (placed : positionOf (finding.startLine - 1) (finding.startColumn - 1) = .ok offset)
      (failed : positionOf (finding.stopLine - 1) (finding.stopColumn - 1) = .error error) :
      Misplaced finding positionOf error

theorem exists_toDiagnostic_iff (file : String) (forceWarnings : Bool) :
    (∃ diagnostic, finding.toDiagnostic file positionOf forceWarnings = .ok diagnostic) ↔
      finding.Placed positionOf := by
  unfold toDiagnostic
  constructor
  · rintro ⟨diagnostic, built⟩
    cases start : positionOf (finding.startLine - 1) (finding.startColumn - 1) with
    | error error => simp [start, bind, Except.bind] at built
    | ok first =>
        cases stop : positionOf (finding.stopLine - 1) (finding.stopColumn - 1) with
        | error error => simp [start, stop, bind, Except.bind] at built
        | ok last => exact ⟨⟨first, start⟩, ⟨last, stop⟩⟩
  · rintro ⟨⟨first, start⟩, ⟨last, stop⟩⟩
    rw [start, stop]
    exact ⟨_, rfl⟩

theorem toDiagnostic_eq_error_iff (file : String) (forceWarnings : Bool) {error : LintError} :
    finding.toDiagnostic file positionOf forceWarnings = .error error ↔
      finding.Misplaced positionOf error := by
  unfold toDiagnostic
  constructor
  · intro failed
    cases start : positionOf (finding.startLine - 1) (finding.startColumn - 1) with
    | error other =>
        rw [start] at failed
        obtain rfl := Except.error.inj failed
        exact .start start
    | ok first =>
        cases stop : positionOf (finding.stopLine - 1) (finding.stopColumn - 1) with
        | error other =>
            rw [start, stop] at failed
            obtain rfl := Except.error.inj failed
            exact .stop start stop
        | ok last =>
            rw [start, stop] at failed
            cases failed
  · intro misplaced
    cases misplaced with
    | start failed =>
        rw [failed]
        rfl
    | stop placed failed =>
        rw [placed, failed]
        rfl

end Finding

namespace Service

variable {σ : Type} {service : Service} {host : Host} {engine : Engine σ} {file : String} {world : σ}

theorem map_pair_eq_ok_iff {α ε : Type} {answer : Except ε α} {β : Type} {item : β} :
    (∃ pair, answer.map (item, ·) = .ok pair) ↔ ∃ value, answer = .ok value := by
  cases answer <;> simp [Except.map]

theorem map_eq_error_iff {α β ε : Type} {answer : Except ε α} {f : α → β} {error : ε} :
    answer.map f = .error error ↔ answer = .error error := by
  cases answer <;> simp [Except.map]

theorem exists_locate_iff {messages : List Finding} :
    (∃ located, service.locate host file messages = .ok located) ↔
      ∀ finding ∈ messages, service.settings.keepsFinding finding →
        finding.Placed (host.positionOf file) := by
  simp only [locate, exists_mapM_iff, map_pair_eq_ok_iff, Finding.exists_toDiagnostic_iff,
    List.mem_filter, and_imp]

theorem locate_eq_error_iff {messages : List Finding} {error : LintError} :
    service.locate host file messages = .error error ↔
      ∃ before finding after,
        messages.filter service.settings.keepsFinding = before ++ finding :: after ∧
        (∀ earlier ∈ before, earlier.Placed (host.positionOf file)) ∧
        finding.Misplaced (host.positionOf file) error := by
  simp only [locate, mapM_eq_error_iff, map_pair_eq_ok_iff, Finding.exists_toDiagnostic_iff,
    map_eq_error_iff, Finding.toDiagnostic_eq_error_iff]

/-! ## Stages -/

/-- The lint of a document succeeds: the host knows the document, the linter reports a result, and
both ends of every finding in its first result that the settings keep are positions of it. -/
def Accepts (service : Service) (host : Host) (file : String)
    (answer : LintCall → Except LintError Report) : Prop :=
  ∃ text report result others, host.sourceText file = some text ∧
    answer (service.lintCall file text) = .ok report ∧ report.results = result :: others ∧
    ∀ finding ∈ result.messages, service.settings.keepsFinding finding →
      finding.Placed (host.positionOf file)

/-- The lint of a document fails with the error of its first stage that fails. -/
inductive FailsWith (service : Service) (host : Host) (file : String)
    (answer : LintCall → Except LintError Report) : LintError → Prop
  | document (unknown : host.sourceText file = none) :
      FailsWith service host file answer (.unknownFile file)
  | linter {text : String} {error : LintError} (known : host.sourceText file = some text)
      (failed : answer (service.lintCall file text) = .error error) :
      FailsWith service host file answer error
  | report {text : String} {report : Report} (known : host.sourceText file = some text)
      (reported : answer (service.lintCall file text) = .ok report)
      (empty : report.results = []) :
      FailsWith service host file answer (.malformedReport "report has no results")
  | place {text : String} {report : Report} {result : LintResult} {others : List LintResult}
      {before after : List Finding} {finding : Finding} {error : LintError}
      (known : host.sourceText file = some text)
      (reported : answer (service.lintCall file text) = .ok report)
      (first : report.results = result :: others)
      (kept : result.messages.filter service.settings.keepsFinding = before ++ finding :: after)
      (placed : ∀ earlier ∈ before, earlier.Placed (host.positionOf file))
      (misplaced : finding.Misplaced (host.positionOf file) error) :
      FailsWith service host file answer error

/-- A lint of the text that the host has for a document, with everything that came of it. -/
structure Lints (service : Service) (host : Host) (file : String)
    (answer : LintCall → Except LintError Report) (lint : Lint) : Prop where
  known : host.sourceText file = some lint.text
  reported : answer (service.lintCall file lint.text) = .ok lint.report
  found : service.locateReport host file lint.report = .ok lint.located

theorem exists_lints_or_failsWith (service : Service) (host : Host) (file : String)
    (answer : LintCall → Except LintError Report) :
    (∃ lint, service.Lints host file answer lint) ∨
      ∃ error, service.FailsWith host file answer error := by
  cases known : host.sourceText file with
  | none => exact Or.inr ⟨_, .document known⟩
  | some text =>
      cases reported : answer (service.lintCall file text) with
      | error error => exact Or.inr ⟨error, .linter known reported⟩
      | ok report =>
          cases found : service.locateReport host file report with
          | ok located => exact Or.inl ⟨⟨text, report, located⟩, known, reported, found⟩
          | error error =>
              cases first : report.results with
              | nil =>
                  rw [locateReport_of_empty first] at found
                  obtain rfl := Except.error.inj found
                  exact Or.inr ⟨_, .report known reported first⟩
              | cons result others =>
                  rw [locateReport_of_first first] at found
                  obtain ⟨_, _, _, kept, placed, misplaced⟩ := locate_eq_error_iff.mp found
                  exact Or.inr ⟨error, .place known reported first kept placed misplaced⟩

theorem exists_lints_iff {answer : LintCall → Except LintError Report} :
    (∃ lint, service.Lints host file answer lint) ↔ service.Accepts host file answer := by
  constructor
  · rintro ⟨lint, known, reported, found⟩
    cases first : lint.report.results with
    | nil =>
        rw [locateReport_of_empty first] at found
        cases found
    | cons result others =>
        rw [locateReport_of_first first] at found
        have placed := exists_locate_iff.mp ⟨_, found⟩
        exact ⟨lint.text, lint.report, result, others, known, reported, first, placed⟩
  · rintro ⟨text, report, result, others, known, reported, first, placed⟩
    obtain ⟨located, found⟩ := exists_locate_iff.mpr placed
    rw [← locateReport_of_first first] at found
    exact ⟨⟨text, report, located⟩, known, reported, found⟩

/-! ## Linting anew -/

theorem recompute_of_known {text : String} (known : host.sourceText file = some text) :
    service.recompute host engine file world =
      match (engine.answer world (service.lintCall file text)).bind
        (service.locateReport host file) with
      | .error error => (.error error, service, (engine (service.lintCall file text) world).2)
      | .ok located =>
        (.ok (located.map (·.2)), service.remember file (indexOf located),
          (engine (service.lintCall file text) world).2) := by
  rw [recompute, known]
  rfl

theorem recompute_of_lints {lint : Lint}
    (lints : service.Lints host file (engine.answer world) lint) :
    service.recompute host engine file world =
      (.ok lint.diagnostics, service.remember file lint.index,
        (engine (service.lintCall file lint.text) world).2) := by
  rw [recompute_of_known lints.known, lints.reported, Except.bind, lints.found]
  rfl

theorem recompute_of_failsWith {error : LintError}
    (fails : service.FailsWith host file (engine.answer world) error) :
    ∃ after, service.recompute host engine file world = (.error error, service, after) := by
  cases fails with
  | document unknown =>
      rw [recompute, unknown]
      exact ⟨_, rfl⟩
  | linter known failed =>
      rw [recompute_of_known known, failed]
      exact ⟨_, rfl⟩
  | report known reported empty =>
      rw [recompute_of_known known, reported, Except.bind, locateReport_of_empty empty]
      exact ⟨_, rfl⟩
  | place known reported first kept placed misplaced =>
      have lost := locate_eq_error_iff.mpr ⟨_, _, _, kept, placed, misplaced⟩
      rw [recompute_of_known known, reported, Except.bind, locateReport_of_first first, lost]
      exact ⟨_, rfl⟩

theorem FailsWith.not_lints {answer : LintCall → Except LintError Report} {error : LintError}
    (fails : service.FailsWith host file answer error) (lint : Lint) :
    ¬ service.Lints host file answer lint := by
  intro lints
  obtain ⟨after, ended⟩ := @recompute_of_failsWith _ _ _ (Engine.constant answer) _ () _ fails
  have succeeded := @recompute_of_lints _ _ _ (Engine.constant answer) _ () _ lints
  cases ended.symm.trans succeeded

theorem FailsWith.unique {answer : LintCall → Except LintError Report} {error other : LintError}
    (fails : service.FailsWith host file answer error)
    (failsToo : service.FailsWith host file answer other) : error = other := by
  obtain ⟨after, ended⟩ := @recompute_of_failsWith _ _ _ (Engine.constant answer) _ () _ fails
  obtain ⟨_, endedToo⟩ := @recompute_of_failsWith _ _ _ (Engine.constant answer) _ () _ failsToo
  exact Except.error.inj (congrArg (·.1) (ended.symm.trans endedToo))

theorem FailsWith.not_accepts {answer : LintCall → Except LintError Report} {error : LintError}
    (fails : service.FailsWith host file answer error) : ¬ service.Accepts host file answer := by
  rw [← exists_lints_iff]
  rintro ⟨lint, lints⟩
  exact fails.not_lints lint lints

/-- What a service logs by itself in a call. -/
def logged (service : Service) (moment : Moment σ) (world : σ) : List LogEntry :=
  match moment.call with
  | .semanticDiagnostics file =>
    (service.semanticDiagnostics moment.host moment.engine file world).logs
  | .codeFixes file start stop codes => (service.codeFixes moment.host file start stop codes).2
  | .recompute _ | .fixAllEdits _ | .findings _ | .forget _ | .delegated => []

/-- Linting a document anew succeeds exactly when all stages do. It fails with the error of the
first stage that fails, and then nothing is logged and the service is what it was. -/
theorem recompute_fails_cleanly (service : Service) (host : Host) (engine : Engine σ)
    (file : String) (world : σ) :
    let outcome := service.recompute host engine file world
    ((∃ found, outcome.1 = .ok found) ↔ service.Accepts host file (engine.answer world)) ∧
    (∀ error, outcome.1 = .error error ↔
      service.FailsWith host file (engine.answer world) error) ∧
    (∀ error, outcome.1 = .error error →
      outcome.2.1 = service ∧ service.logged ⟨host, engine, .recompute file⟩ world = []) := by
  intro outcome
  have success {lint : Lint} (lints : service.Lints host file (engine.answer world) lint) :
      outcome.1 = .ok lint.diagnostics := congrArg (·.1) (recompute_of_lints lints)
  have failure {error : LintError}
      (fails : service.FailsWith host file (engine.answer world) error) :
      outcome.1 = .error error ∧ outcome.2.1 = service := by
    obtain ⟨after, ended⟩ := recompute_of_failsWith fails
    exact ⟨congrArg (·.1) ended, congrArg (·.2.1) ended⟩
  have failed {error : LintError} (ended : outcome.1 = .error error) :
      service.FailsWith host file (engine.answer world) error := by
    rcases service.exists_lints_or_failsWith host file (engine.answer world) with
      ⟨lint, lints⟩ | ⟨other, fails⟩
    · cases (success lints).symm.trans ended
    · obtain rfl := Except.error.inj ((failure fails).1.symm.trans ended)
      exact fails
  refine ⟨?_, fun error => ⟨failed, fun fails => (failure fails).1⟩,
    fun error ended => ⟨(failure (failed ended)).2, rfl⟩⟩
  rw [← exists_lints_iff]
  constructor
  · rintro ⟨found, ended⟩
    refine (service.exists_lints_or_failsWith host file (engine.answer world)).resolve_right ?_
    rintro ⟨error, fails⟩
    cases (failure fails).1.symm.trans ended
  · rintro ⟨lint, lints⟩
    exact ⟨_, success lints⟩

end Service

end EditorLint
