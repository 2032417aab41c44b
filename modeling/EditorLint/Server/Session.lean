import EditorLint.Server.CodeAction
import EditorLint.Service
import EditorLint.Settings.File

/-!
A session with an editor: the open documents, the settings in force, and the lint service over
them. Each message of the editor leads to a next session, to diagnostics that are published, and
to entries of the log.
-/

namespace EditorLint.Server

open Json (Value)

structure Document where
  uri : Uri
  version : Int
  lines : LineTable

/-- What a session finds around it at one moment: the files, and the linter for given settings. -/
structure Environment (σ : Type) where
  files : FileTree
  linter : Settings → Engine σ

structure Session (σ : Type) where
  documents : InsertionMap String Document := {}
  service : Service
  root : Option String := none
  /-- The settings that the editor has given, if it has given any. -/
  clientSettings : Option Settings := none
  world : σ

/-- The diagnostics of a document, which take the place of those published for it before. -/
structure Publication where
  uri : Uri
  diagnostics : List ShownDiagnostic
  version : Option Int := none

structure Step (σ : Type) where
  session : Session σ
  published : List Publication := []
  logs : List LogEntry := []

def Step.andThen {σ : Type} (step : Step σ) (next : Session σ → Step σ) : Step σ :=
  let later := next step.session
  { later with
    published := step.published ++ later.published
    logs := step.logs ++ later.logs }

namespace Session

variable {σ : Type}

def fresh (environment : Environment σ) (world : σ) : Session σ :=
  { service := { settings := {}, root := environment.files.workingPath }, world }

def host (session : Session σ) : Host :=
  Host.ofDocuments fun file => (session.documents.find? file).map (·.lines)

/-! ## Settings -/

/-- Editors may give the settings of all servers together, each under the name of its server. -/
def ownSection (value : Value) : Value := (value.member? "lintbridge").getD value

/-- The settings that a value gives. Null and an empty object give none. -/
def readSettings? (value : Value) : Option (Option Settings) :=
  match ownSection value with
  | .null | .object [] => some none
  | settings => (Settings.ofValue? settings).map some

/-- Takes settings over; a value that is not understood changes nothing. -/
def storeSettings (session : Session σ) (value : Value) : Step σ :=
  match readSettings? value with
  | some settings => { session := { session with clientSettings := settings } }
  | none =>
    { session, logs := [⟨.error, "Invalid lintbridge settings: " ++ LintError.message .json⟩] }

/-- The settings in force: those of the editor, or else those of the settings file below the
root, where there is one. -/
def currentSettings (session : Session σ) (files : FileTree) : Except String Settings :=
  match session.clientSettings, session.root with
  | some settings, _ => .ok settings
  | none, none => .ok {}
  | none, some root =>
    let path := Path.join root settingsFileName
    if (files.find? path).isNone then .ok {}
    else
      match Settings.load files path with
      | .ok settings => .ok settings
      | .error error => .error ("Failed to load " ++ path ++ ": " ++ error.message)

/-- Starts a new service with the settings in force. When there are none to be had, the service
stays as it is. -/
def reload (environment : Environment σ) (complaint : String) (session : Session σ) : Step σ :=
  match session.currentSettings environment.files with
  | .error reason => { session, logs := [⟨.error, complaint ++ ": " ++ reason⟩] }
  | .ok settings =>
    let root := session.root.getD environment.files.workingPath
    { session := { session with service := { settings, root } }
      logs := [⟨.info, "Lintbridge using linter '" ++ settings.linter ++ "'"⟩] }

/-! ## Documents -/

def setText (session : Session σ) (uri : Uri) (version : Int) (text : String) : Session σ :=
  { session with
    documents := session.documents.insert uri.fileName ⟨uri, version, LineTable.ofText text⟩ }

/-- Lints a document and publishes its diagnostics; nothing happens when it is not open. -/
def publish (environment : Environment σ) (uri : Uri) (session : Session σ) : Step σ :=
  let file := uri.fileName
  match session.documents.find? file with
  | none => { session }
  | some document =>
    let pass := session.service.semanticDiagnostics session.host
      (environment.linter session.service.settings) file session.world
    { session := { session with service := pass.service, world := pass.world }
      published := [{
        uri
        diagnostics := pass.diagnostics.map (ShownDiagnostic.ofDiagnostic document.lines)
        version := some document.version }]
      logs := pass.logs }

def publishAll (environment : Environment σ) (session : Session σ) : Step σ :=
  session.documents.values.foldl
    (fun step document => step.andThen (publish environment document.uri)) { session }

/-! ## Messages -/

/-- Takes the root of the project and the settings that the editor starts with. A root that is no
path counts as none. -/
def start (environment : Environment σ) (root : Option Uri) (options : Option Value)
    (session : Session σ) : Step σ :=
  let session := { session with root := (root.bind Uri.filePath) <|> session.root }
  let stored := match options with
    | some value => session.storeSettings value
    | none => { session }
  stored.andThen (reload environment "Failed to load settings")

def started (session : Session σ) : Step σ :=
  { session, logs := [⟨.info, "Lintbridge LSP initialized"⟩] }

def didOpen (environment : Environment σ) (uri : Uri) (version : Int) (text : String)
    (session : Session σ) : Step σ :=
  publish environment uri (session.setText uri version text)

/-- Each text takes the place of the whole document, so that only the last one counts. -/
def didChange (environment : Environment σ) (uri : Uri) (version : Int) (texts : List String)
    (session : Session σ) : Step σ :=
  publish environment uri <|
    match texts.getLast? with
    | some text => session.setText uri version text
    | none => session

def isSettingsFile (uri : Uri) : Bool :=
  (uri.filePath.bind Path.fileName) == some settingsFileName

def didSave (environment : Environment σ) (uri : Uri) (session : Session σ) : Step σ :=
  if isSettingsFile uri then
    (session.reload environment "Failed to reload settings").andThen (publishAll environment)
  else publish environment uri session

/-- Closes a document, forgets what was found in it, and takes its diagnostics back. -/
def didClose (uri : Uri) (session : Session σ) : Step σ :=
  let file := uri.fileName
  { session := { session with
      documents := session.documents.erase file
      service := session.service.forget file }
    published := [{ uri, diagnostics := [] }] }

def didChangeConfiguration (environment : Environment σ) (value : Value) (session : Session σ) :
    Step σ :=
  ((session.storeSettings value).andThen (reload environment "Failed to reload settings")).andThen
    (publishAll environment)

/-! ## Code actions -/

/-- A fix of the service, with the diagnostic that it was offered for. -/
abbrev Offer := FixAction × ShownDiagnostic

/-- What the service offers for diagnostics of its own whose offsets are known. -/
def offers (session : Session σ) (file : String) (lines : LineTable)
    (diagnostics : List ShownDiagnostic) : List Offer × List LogEntry :=
  let answers := diagnostics.map fun diagnostic =>
    if diagnostic.source ≠ some diagnosticSource then ([], [])
    else
      match diagnostic.offsets? lines with
      | none => ([], [])
      | some (start, stop) =>
        let (fixes, logs) :=
          session.service.codeFixes session.host file start stop [diagnosticCode]
        (fixes.map (·, diagnostic), logs)
  (answers.flatMap (·.1), answers.flatMap (·.2))

/-- What tells two fixes of one request apart. A batch is offered once, whatever its edits are. -/
def offerKey (fix : FixAction) : FixKind × String × List Edit :=
  let edits := match fix.kind with
    | .fixAllAutoFixable | .fixAllOfRule => []
    | _ => fix.edits
  (fix.kind, fix.description, edits)

/-- The first offer for each key. -/
def distinctOffers (seen : List (FixKind × String × List Edit)) : List Offer → List Offer
  | [] => []
  | offer :: rest =>
    let key := offerKey offer.1
    if key ∈ seen then distinctOffers seen rest else offer :: distinctOffers (key :: seen) rest

/-- The code actions for diagnostics of a document; there are none when it is not open. -/
def codeActions (uri : Uri) (diagnostics : List ShownDiagnostic) (session : Session σ) :
    List CodeAction × List LogEntry :=
  let file := uri.fileName
  match session.documents.find? file with
  | none => ([], [])
  | some document =>
    let (offered, logs) := session.offers file document.lines diagnostics
    ((distinctOffers [] offered).map fun (fix, diagnostic) =>
      CodeAction.ofFix uri document.lines fix diagnostic, logs)

end Session

end EditorLint.Server
