import EditorLint.Engine
import EditorLint.Host
import EditorLint.Settings.Basic

/-!
The lint service in front of a host. It adds lint diagnostics to the semantic diagnostics of the
host and remedies to its fixes; everything else reaches the host as it is. What was found in a
document is remembered until the next successful lint of it.
-/

namespace EditorLint

structure Service where
  settings : Settings
  root : String
  registry : Registry := {}

/-- A pass over a document: its diagnostics, what was logged, and the states after it. -/
structure Pass (σ : Type) where
  diagnostics : List Diagnostic
  logs : List LogEntry := []
  service : Service
  world : σ

namespace Service

variable {σ : Type}

/-- What was found in a document by the last successful lint. -/
def findings (service : Service) (file : String) : Option FindingIndex :=
  service.registry.find? file

def fixAllEdits (service : Service) (file : String) : List Edit :=
  match service.findings file with
  | some index => Edit.nonOverlapping index.edits
  | none => []

def forget (service : Service) (file : String) : Service :=
  { service with registry := service.registry.erase file }

def lintCall (service : Service) (file text : String) : LintCall :=
  { text, file, directory := service.root
    configFile := service.settings.resolvedConfigFile service.root }

/-- The findings that the settings keep, each with its diagnostic. One that lies outside of the
document fails them all. -/
def locate (service : Service) (host : Host) (file : String) (messages : List Finding) :
    Except LintError (List (Finding × Diagnostic)) :=
  (messages.filter service.settings.keepsFinding).mapM fun finding =>
    (finding.toDiagnostic file (host.positionOf file) service.settings.forceWarnings).map
      (finding, ·)

/-- The index of located findings, each at the span of its diagnostic. -/
def indexOf (located : List (Finding × Diagnostic)) : FindingIndex :=
  located.foldl (fun index (finding, diagnostic) =>
    index.record finding diagnostic.start diagnostic.stop) {}

/-- The located findings of the only document of a report. -/
def locateReport (service : Service) (host : Host) (file : String) (report : Report) :
    Except LintError (List (Finding × Diagnostic)) :=
  report.firstResult.bind fun result => service.locate host file result.messages

/-- Lints a document and remembers what was found in place of what was known before. A failure
leaves everything as it was. -/
def recompute (service : Service) (host : Host) (engine : Engine σ) (file : String) (world : σ) :
    Except LintError (List Diagnostic) × Service × σ :=
  match host.sourceText file with
  | none => (.error (.unknownFile file), service, world)
  | some text =>
    let (report, world) := engine (service.lintCall file text) world
    match report.bind (service.locateReport host file) with
    | .error error => (.error error, service, world)
    | .ok located =>
      (.ok (located.map (·.2)),
        { service with registry := service.registry.insert file (indexOf located) }, world)

def failureLog (file : String) (error : LintError) : LogEntry :=
  ⟨.error, diagnosticSource ++ " failed on " ++ file ++ " during " ++ error.origin ++ ": "
    ++ error.message⟩

def suppressionLog (file : String) : LogEntry :=
  ⟨.info, diagnosticSource ++ " skipped " ++ file ++ ": host reported type errors"⟩

/-- The diagnostics of the host, followed by those of a lint when there is one and it succeeds. -/
def semanticDiagnostics (service : Service) (host : Host) (engine : Engine σ) (file : String)
    (world : σ) : Pass σ :=
  let own := host.semanticDiagnostics file
  if service.settings.suppressOnTypeErrors && !own.isEmpty then
    { diagnostics := own, logs := [suppressionLog file], service, world }
  else if service.settings.skipsFile file then { diagnostics := own, service, world }
  else
    match service.recompute host engine file world with
    | (.ok found, service, world) => { diagnostics := own ++ found, service, world }
    | (.error error, service, world) =>
      { diagnostics := own, logs := [failureLog file error], service, world }

/-- The fixes of the host for a span, followed by the remedies for the finding there. -/
def codeFixes (service : Service) (host : Host) (file : String) (start stop : Nat)
    (codes : List Nat) : List FixAction × List LogEntry :=
  let own := host.codeFixes file start stop codes
  match service.findings file with
  | none => (own, [])
  | some index =>
    match FixAction.assemble service.settings.batchPolicy file index start stop
        (host.positionOf file) with
    | .ok actions => (own ++ actions, [])
    | .error error => (own, [failureLog file error])

def supportedCodeFixes (host : Host) : List Nat :=
  if diagnosticCode ∈ host.supportedCodeFixes then host.supportedCodeFixes
  else host.supportedCodeFixes ++ [diagnosticCode]

end Service

end EditorLint
