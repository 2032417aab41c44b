import EditorLint.Proofs.Service.Stages

/-!
What a pass over a document makes of the diagnostics of the host. It hands them on as they are, and
behind them those of a lint if one has succeeded. A lint that fails costs a line in the log.
-/

namespace EditorLint.Service

variable {σ : Type} {service : Service} {host : Host} {engine : Engine σ} {file : String} {world : σ}

/-- A pass does not lint, because the host has found something itself. -/
def Suppresses (service : Service) (host : Host) (file : String) : Prop :=
  service.settings.suppressOnTypeErrors = true ∧ host.semanticDiagnostics file ≠ []

/-- A pass comes to the point where it lints. -/
def Tries (service : Service) (host : Host) (file : String) : Prop :=
  ¬ service.Suppresses host file ∧ service.settings.skipsFile file = false

/-- The diagnostics of the findings in the first result of a report that the settings keep, in
their order. -/
def Diagnoses (service : Service) (host : Host) (file : String) (report : Report)
    (found : List Diagnostic) : Prop :=
  ∃ result others, report.results = result :: others ∧
    List.Forall₂ (fun finding diagnostic =>
      finding.toDiagnostic file (host.positionOf file) service.settings.forceWarnings =
        .ok diagnostic)
      (result.messages.filter service.settings.keepsFinding) found

theorem Lints.diagnoses {answer : LintCall → Except LintError Report} {lint : Lint}
    (lints : service.Lints host file answer lint) :
    service.Diagnoses host file lint.report lint.diagnostics := by
  obtain ⟨result, others, first, kept, each⟩ := locateReport_eq_ok lints.found
  exact ⟨result, others, first, kept ▸ forall₂_map_fst_snd each⟩

theorem suppresses_iff :
    (service.settings.suppressOnTypeErrors && !(host.semanticDiagnostics file).isEmpty) = true ↔
      service.Suppresses host file := by
  simp [Suppresses]

theorem semanticDiagnostics_of_suppresses (suppresses : service.Suppresses host file) :
    service.semanticDiagnostics host engine file world =
      { diagnostics := host.semanticDiagnostics file, logs := [suppressionLog file], service
        world } := by
  unfold semanticDiagnostics
  rw [if_pos (suppresses_iff.mpr suppresses)]

theorem semanticDiagnostics_of_skips (calm : ¬ service.Suppresses host file)
    (skips : service.settings.skipsFile file = true) :
    service.semanticDiagnostics host engine file world =
      { diagnostics := host.semanticDiagnostics file, service, world } := by
  unfold semanticDiagnostics
  rw [if_neg (mt suppresses_iff.mp calm), if_pos skips]

theorem semanticDiagnostics_of_lints (tries : service.Tries host file) {lint : Lint}
    (lints : service.Lints host file (engine.answer world) lint) :
    service.semanticDiagnostics host engine file world =
      { diagnostics := host.semanticDiagnostics file ++ lint.diagnostics
        service := service.remember file lint.index
        world := (service.recompute host engine file world).2.2 } := by
  unfold semanticDiagnostics
  rw [if_neg (mt suppresses_iff.mp tries.1), if_neg (by simp [tries.2]), recompute_of_lints lints]

theorem semanticDiagnostics_of_failsWith (tries : service.Tries host file) {error : LintError}
    (fails : service.FailsWith host file (engine.answer world) error) :
    service.semanticDiagnostics host engine file world =
      { diagnostics := host.semanticDiagnostics file, logs := [failureLog file error], service
        world := (service.recompute host engine file world).2.2 } := by
  obtain ⟨after, ended⟩ := recompute_of_failsWith fails
  unfold semanticDiagnostics
  rw [if_neg (mt suppresses_iff.mp tries.1), if_neg (by simp [tries.2]), ended]

/-- Linting anew asks the linter once about a document that the host knows, and else not at all. -/
theorem recompute_record (service : Service) (host : Host) (engine : Engine σ) (file : String)
    (record : List Exchange) (world : σ) :
    (service.recompute host engine.recording file (record, world)).2.2.1 =
      record ++ ((host.sourceText file).map fun text =>
        (service.lintCall file text, engine.answer world (service.lintCall file text))).toList := by
  cases known : host.sourceText file with
  | none => simp [recompute, known]
  | some text =>
      rw [recompute_of_known known]
      split <;> rfl

/-- What a pass adds to the diagnostics of the host, which calls of the linter it makes, and what it
logs. -/
structure PassEffects (service : Service) (host : Host) (file : String)
    (answer : LintCall → Except LintError Report) (found : List Diagnostic)
    (calls : List Exchange) (logs : List LogEntry) : Prop where
  once : calls.length ≤ 1
  unasked : service.Suppresses host file ∨ service.settings.skipsFile file = true ∨
    host.sourceText file = none → calls = []
  linted : service.Tries host file → service.Accepts host file answer →
    ∃ text report, host.sourceText file = some text ∧
      calls = [(service.lintCall file text, .ok report)] ∧
      service.Diagnoses host file report found
  unlinted : ¬ (service.Tries host file ∧ service.Accepts host file answer) → found = []
  suppressed : service.Suppresses host file →
    logs = [⟨.info, diagnosticSource ++ " skipped " ++ file ++ ": host reported type errors"⟩]
  failed : ∀ error, service.Tries host file → service.FailsWith host file answer error →
    ∃ detail, logs =
      [⟨.error, diagnosticSource ++ " failed on " ++ file ++ " during " ++ error.origin ++ ": "
        ++ detail⟩]
  silent : ¬ service.Suppresses host file →
    ¬ (service.Tries host file ∧ ∃ error, service.FailsWith host file answer error) → logs = []

variable {answer : LintCall → Except LintError Report}

theorem effects_of_suppresses (suppresses : service.Suppresses host file) :
    service.PassEffects host file answer [] [] [suppressionLog file] where
  once := Nat.zero_le 1
  unasked _ := rfl
  linted tries _ := absurd suppresses tries.1
  unlinted _ := rfl
  suppressed _ := rfl
  failed _ tries _ := absurd suppresses tries.1
  silent calm _ := absurd suppresses calm

theorem effects_of_skips (calm : ¬ service.Suppresses host file)
    (skips : service.settings.skipsFile file = true) :
    service.PassEffects host file answer [] [] [] where
  once := Nat.zero_le 1
  unasked _ := rfl
  linted tries _ := absurd (skips.symm.trans tries.2) Bool.noConfusion
  unlinted _ := rfl
  suppressed suppresses := absurd suppresses calm
  failed _ tries _ := absurd (skips.symm.trans tries.2) Bool.noConfusion
  silent _ _ := rfl

theorem effects_of_lints (tries : service.Tries host file) {lint : Lint}
    (lints : service.Lints host file answer lint) :
    service.PassEffects host file answer lint.diagnostics
      [(service.lintCall file lint.text, .ok lint.report)] [] where
  once := Nat.le_refl 1
  unasked := by
    intro idle
    simp [tries.1, tries.2, lints.known] at idle
  linted _ _ := ⟨lint.text, lint.report, lints.known, rfl, lints.diagnoses⟩
  unlinted missed := absurd ⟨tries, exists_lints_iff.mp ⟨lint, lints⟩⟩ missed
  suppressed suppresses := absurd suppresses tries.1
  failed _ _ fails := absurd lints (fails.not_lints lint)
  silent _ _ := rfl

theorem effects_of_failsWith (tries : service.Tries host file) {error : LintError}
    (fails : service.FailsWith host file answer error) :
    service.PassEffects host file answer []
      ((host.sourceText file).map fun text =>
        (service.lintCall file text, answer (service.lintCall file text))).toList
      [failureLog file error] where
  once := by cases host.sourceText file <;> simp
  unasked := by
    intro idle
    have unknown : host.sourceText file = none := by simpa [tries.1, tries.2] using idle
    rw [unknown, Option.map_none, Option.toList_none]
  linted _ accepts := absurd accepts fails.not_accepts
  unlinted _ := rfl
  suppressed suppresses := absurd suppresses tries.1
  failed _ _ failsToo := ⟨error.message, by rw [failsToo.unique fails, failureLog]⟩
  silent _ clean := absurd ⟨tries, error, fails⟩ clean

/-- A pass begins with the diagnostics of the host. Only the diagnostics of a lint that has
succeeded come behind them. The linter is asked once at most, and one line is logged when the host
has diagnostics that keep the pass from linting, or when the lint fails. -/
theorem semanticDiagnostics_keeps_own (service : Service) (host : Host) (engine : Engine σ)
    (file : String) (record : List Exchange) (world : σ) :
    let pass := service.semanticDiagnostics host engine.recording file (record, world)
    ∃ found calls, pass.diagnostics = host.semanticDiagnostics file ++ found ∧
      pass.world.1 = record ++ calls ∧
      service.PassEffects host file (engine.answer world) found calls pass.logs := by
  intro pass
  by_cases suppresses : service.Suppresses host file
  · have ended : pass = _ := semanticDiagnostics_of_suppresses suppresses
    rw [ended]
    exact ⟨[], [], (List.append_nil _).symm, (List.append_nil _).symm,
      effects_of_suppresses suppresses⟩
  by_cases skips : service.settings.skipsFile file = true
  · have ended : pass = _ := semanticDiagnostics_of_skips suppresses skips
    rw [ended]
    exact ⟨[], [], (List.append_nil _).symm, (List.append_nil _).symm,
      effects_of_skips suppresses skips⟩
  have tries : service.Tries host file := ⟨suppresses, by simpa using skips⟩
  have recorded := service.recompute_record host engine file record world
  rcases service.exists_lints_or_failsWith host file (engine.answer world) with
    ⟨lint, lints⟩ | ⟨error, fails⟩
  · have ended : pass = _ := semanticDiagnostics_of_lints tries lints
    rw [lints.known, Option.map_some, lints.reported] at recorded
    rw [ended]
    exact ⟨lint.diagnostics, _, rfl, recorded, effects_of_lints tries lints⟩
  · have ended : pass = _ := semanticDiagnostics_of_failsWith tries fails
    rw [ended]
    exact ⟨[], _, (List.append_nil _).symm, recorded, effects_of_failsWith tries fails⟩

end EditorLint.Service
