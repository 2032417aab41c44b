import EditorLint.Proofs.InsertionMap
import EditorLint.Service

/-!
The lint of one text, apart from hosts and registries. A pass of the service over a document is
the lint of the text that the host has for it; what is remembered is the index of that lint.
-/

namespace EditorLint

/-- A lint that has succeeded: the text, what the linter reported about it, and the findings that
were kept with their diagnostics. -/
structure Lint where
  text : String
  report : Report
  located : List (Finding × Diagnostic)

namespace Lint

def index (lint : Lint) : FindingIndex := Service.indexOf lint.located

def diagnostics (lint : Lint) : List Diagnostic := lint.located.map (·.2)

def batch (lint : Lint) : List Edit := Edit.nonOverlapping lint.index.edits

end Lint

def Host.ofText (file text : String) : Host :=
  Host.ofDocuments fun name => if name = file then some (.ofText text) else none

/-- A host that has a text for a file, and no diagnostics of its own. -/
structure Host.Shows (host : Host) (file text : String) : Prop where
  source : host.sourceText file = some text
  positions : host.positionOf file = (LineTable.ofText text).positionOf file
  quiet : host.semanticDiagnostics file = []

theorem Host.ofDocuments_shows {document? : String → Option LineTable} {file text : String}
    (found : document? file = some (.ofText text)) : (Host.ofDocuments document?).Shows file text := by
  constructor
  · simp [Host.ofDocuments, found, LineTable.ofText]
  · funext line character
    simp [Host.ofDocuments, found]
  · rfl

theorem Host.ofText_shows (file text : String) : (Host.ofText file text).Shows file text :=
  Host.ofDocuments_shows (if_pos rfl)

/-- What a linter was asked, and what it has answered. -/
abbrev Exchange : Type := LintCall × Except LintError Report

/-- A linter that also takes down its exchanges. -/
def Engine.recording {σ : Type} (engine : Engine σ) : Engine (List Exchange × σ) :=
  fun call (record, world) =>
    let (answer, world) := engine call world
    (answer, record ++ [(call, answer)], world)

/-- Two linters answer alike as long as their states are related, and their states stay related. -/
structure Engine.Agrees {σ τ : Type} (engine : Engine σ) (other : Engine τ)
    (related : σ → τ → Prop) : Prop where
  answers : ∀ call world twin, related world twin → (engine call world).1 = (other call twin).1
  goesOn : ∀ call world twin, related world twin →
    related (engine call world).2 (other call twin).2

theorem Engine.recording_agrees {σ : Type} (engine : Engine σ) :
    engine.recording.Agrees engine fun recorded world => recorded.2 = world := by
  constructor
  · rintro call ⟨record, world⟩ _ rfl
    rfl
  · rintro call ⟨record, world⟩ _ rfl
    rfl

def Engine.prepared : Engine (List (Except LintError Report)) := fun _ answers =>
  (answers.headD (.error .io), answers.tail)

def semicolonFinding : Finding :=
  { line := 1, column := 10, ruleId := some "semi", message := "Missing semicolon."
    fix := some ⟨9, 9, ";"⟩ }

def semicolonReport : Report := { results := [{ messages := [semicolonFinding] }] }

namespace Service

variable {σ : Type}

def lint (service : Service) (engine : Engine σ) (file text : String) (world : σ) :
    Except LintError Lint × σ :=
  let (answer, world) := engine (service.lintCall file text) world
  (answer.bind fun report =>
    (service.locateReport (.ofText file text) file report).map (⟨text, report, ·⟩), world)

def exchange (service : Service) (file : String) (lint : Lint) : Exchange :=
  (service.lintCall file lint.text, .ok lint.report)

/-- The findings of a lint are those of its own report, located in its own text. -/
def Locates (service : Service) (file : String) (lint : Lint) : Prop :=
  service.locateReport (.ofText file lint.text) file lint.report = .ok lint.located

def remember (service : Service) (file : String) (index : FindingIndex) : Service :=
  { service with registry := service.registry.insert file index }

theorem locateReport_eq {host : Host} {file text : String} (shows : host.Shows file text)
    (service : Service) (report : Report) :
    service.locateReport host file report =
      service.locateReport (.ofText file text) file report := by
  simp only [locateReport, locate, shows.positions, (Host.ofText_shows file text).positions]

theorem lint_text {service : Service} {engine : Engine σ} {file text : String} {world next : σ}
    {lint : Lint} (linted : service.lint engine file text world = (.ok lint, next)) :
    lint.text = text ∧ engine (service.lintCall file text) world = (.ok lint.report, next) ∧
      service.locateReport (.ofText file text) file lint.report = .ok lint.located := by
  unfold Service.lint at linted
  cases called : engine (service.lintCall file text) world with
  | mk answer after =>
      simp only [called, Prod.mk.injEq] at linted
      obtain ⟨found, rfl⟩ := linted
      cases answer with
      | error error => simp [Except.bind] at found
      | ok report =>
          simp only [Except.bind] at found
          cases located : service.locateReport (.ofText file text) file report with
          | error error => simp [located, Except.map] at found
          | ok findings =>
              simp only [located, Except.map, Except.ok.injEq] at found
              subst found
              exact ⟨rfl, rfl, located⟩

theorem locates_of_lint {service : Service} {engine : Engine σ} {file text : String}
    {world next : σ} {lint : Lint} (linted : service.lint engine file text world = (.ok lint, next)) :
    lint.text = text ∧ service.Locates file lint := by
  obtain ⟨rfl, -, located⟩ := lint_text linted
  exact ⟨rfl, located⟩

theorem lint_recording (service : Service) (engine : Engine σ) (file text : String)
    (record : List Exchange) (world : σ) :
    service.lint engine.recording file text (record, world) =
      ((service.lint engine file text world).1,
        record ++ [(service.lintCall file text, (engine (service.lintCall file text) world).1)],
        (service.lint engine file text world).2) := rfl

theorem lint_recording_ok {service : Service} {engine : Engine σ} {file text : String}
    {world after : σ} {next : Lint}
    (linted : service.lint engine file text world = (.ok next, after)) (record : List Exchange) :
    service.lint engine.recording file text (record, world) =
      (.ok next, record ++ [service.exchange file next], after) := by
  obtain ⟨same, asked, -⟩ := lint_text linted
  rw [lint_recording, linted, asked, exchange, same]

/-- Linting a document anew is linting its text, and remembering what was found if there is
anything to remember. -/
theorem recompute_eq_lint {host : Host} {file text : String} (shows : host.Shows file text)
    (service : Service) (engine : Engine σ) (world : σ) :
    service.recompute host engine file world =
      match service.lint engine file text world with
      | (.error error, world) => (.error error, service, world)
      | (.ok lint, world) => (.ok lint.diagnostics, service.remember file lint.index, world) := by
  simp only [recompute, shows.source, Service.lint]
  cases called : engine (service.lintCall file text) world with
  | mk answer after =>
      cases answer with
      | error error => rfl
      | ok report =>
          simp only [Except.bind, locateReport_eq shows]
          cases service.locateReport (.ofText file text) file report <;> rfl

theorem semanticDiagnostics_eq_lint {host : Host} {file text : String}
    (shows : host.Shows file text) (service : Service) (engine : Engine σ) (world : σ) :
    service.semanticDiagnostics host engine file world =
      if service.settings.skipsFile file then { diagnostics := [], service, world }
      else
        match service.lint engine file text world with
        | (.error error, world) =>
          { diagnostics := [], logs := [failureLog file error], service, world }
        | (.ok lint, world) =>
          { diagnostics := lint.diagnostics, service := service.remember file lint.index, world } := by
  simp only [semanticDiagnostics, shows.quiet, List.isEmpty_nil, Bool.not_true, Bool.and_false,
    Bool.false_eq_true, if_false, List.nil_append, recompute_eq_lint shows]
  split
  · rfl
  · cases service.lint engine file text world with
    | mk outcome after => cases outcome <;> rfl

section

variable {τ : Type} {engine : Engine σ} {other : Engine τ} {related : σ → τ → Prop} {world : σ}
  {twin : τ} (service : Service) (host : Host) (file : String)

theorem recompute_of_agrees (agrees : engine.Agrees other related) (start : related world twin) :
    let plain := service.recompute host other file twin
    ∃ after, related after plain.2.2 ∧
      service.recompute host engine file world = (plain.1, plain.2.1, after) := by
  intro plain
  simp only [plain, recompute]
  cases host.sourceText file with
  | none => exact ⟨world, start, rfl⟩
  | some text =>
      have still := agrees.goesOn (service.lintCall file text) world twin start
      refine ⟨(engine (service.lintCall file text) world).2, ?_⟩
      simp only [agrees.answers _ world twin start]
      cases (other (service.lintCall file text) twin).1.bind (service.locateReport host file) <;>
        exact ⟨still, rfl⟩

theorem semanticDiagnostics_of_agrees (agrees : engine.Agrees other related)
    (start : related world twin) :
    let plain := service.semanticDiagnostics host other file twin
    ∃ after, related after plain.world ∧ service.semanticDiagnostics host engine file world =
      ⟨plain.diagnostics, plain.logs, plain.service, after⟩ := by
  intro plain
  obtain ⟨after, still, recomputed⟩ :=
    service.recompute_of_agrees host file agrees start
  simp only [plain, semanticDiagnostics, recomputed]
  split
  · exact ⟨world, start, rfl⟩
  · split
    · exact ⟨world, start, rfl⟩
    · generalize service.recompute host other file twin = plain at still ⊢
      obtain ⟨found | error, later, reached⟩ := plain <;> exact ⟨after, still, rfl⟩

end

theorem semanticDiagnostics_recording (service : Service) (host : Host) (engine : Engine σ)
    (file : String) (world : List Exchange × σ) :
    let plain := service.semanticDiagnostics host engine file world.2
    let recorded := service.semanticDiagnostics host engine.recording file world
    recorded.diagnostics = plain.diagnostics ∧ recorded.logs = plain.logs ∧
      recorded.service = plain.service ∧ recorded.world.2 = plain.world := by
  obtain ⟨after, same, recorded⟩ :=
    service.semanticDiagnostics_of_agrees host file engine.recording_agrees (Eq.refl world.2)
  rw [recorded]
  exact ⟨rfl, rfl, rfl, same⟩

@[simp] theorem findings_remember (service : Service) (file : String) (index : FindingIndex) :
    (service.remember file index).findings file = some index :=
  InsertionMap.find?_insert_self ..

theorem findings_remember_of_ne (service : Service) {file other : String} (index : FindingIndex)
    (different : file ≠ other) :
    (service.remember file index).findings other = service.findings other :=
  InsertionMap.find?_insert_of_ne _ _ different

end Service

end EditorLint
