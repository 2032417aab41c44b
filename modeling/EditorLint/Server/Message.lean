import EditorLint.Server.ShownDiagnostic

/-!
The messages of the editor that the server acts on, and how their parameters are read.
-/

namespace EditorLint.Server

open Json (Value)

inductive Message where
  | start (root : Option Uri) (options : Option Value)
  | started
  | didOpen (uri : Uri) (version : Int) (text : String)
  | didChange (uri : Uri) (version : Int) (texts : List String)
  | didSave (uri : Uri)
  | didClose (uri : Uri)
  | didChangeConfiguration (settings : Value)
  | codeAction (uri : Uri) (diagnostics : List ShownDiagnostic)

namespace Message

def member? {α : Type} (name : String) (decode : Value → Option α) (value : Value) : Option α :=
  Json.required decode (value.member? name)

/-- A member of an object that may be missing or null. -/
def optionalMember? {α : Type} (name : String) (decode : Value → Option α) (value : Value) :
    Option (Option α) :=
  Json.optional decode (value.member? name)

def soleField? {α : Type} (name : String) (decode : Value → Option α) (value : Value) :
    Option α := do
  match ← value.allFields? [name] with
  | [field] => Json.required decode field
  | _ => none

/-- The URI of a document that is named by nothing else. -/
def documentOf? (value : Value) : Option Uri := soleField? "uri" Uri.ofValue? value

/-! ## The start of a session -/

/-- A record of which only the form is checked. -/
def record? (value : Value) : Option Unit :=
  if value matches .object _ | .array _ then some () else none

/-- What the editor can do. The server makes no use of it. -/
def capabilities? (value : Value) : Option Unit := do
  match value with
  | .object _ =>
    for name in ["workspace", "textDocument", "notebookDocument", "window", "general"] do
      let _ ← optionalMember? name record? value
    return ()
  | _ => none

def folder? (value : Value) : Option Uri := do
  match ← value.allFields? ["uri", "name"] with
  | [uri, name] =>
    let _ ← Json.required Value.string? name
    Json.required Uri.ofValue? uri
  | _ => none

def traceLevel? (value : Value) : Option String :=
  value.string?.bind fun level =>
    if level ∈ ["off", "messages", "verbose"] then some level else none

def clientName? (value : Value) : Option String := do
  match ← value.fields? ["name", "version"] with
  | [name, version] =>
    let _ ← Json.optional Value.string? version
    Json.required Value.string? name
  | _ => none

def startFields : List String :=
  ["processId", "rootPath", "rootUri", "initializationOptions", "capabilities", "trace",
    "workspaceFolders", "clientInfo", "locale"]

/-- The root of the project is the given root, or else the first of the given folders. -/
def start? (value : Value) : Option Message := do
  match ← value.allFields? startFields with
  | [processId, rootPath, rootUri, options, capabilities, trace, folders, client, locale] =>
    let _ ← Json.optional (·.unsigned? 32) processId
    let _ ← Json.optional Value.string? rootPath
    let _ ← Json.required capabilities? capabilities
    let _ ← Json.optional traceLevel? trace
    let _ ← Json.optional clientName? client
    let _ ← Json.optional Value.string? locale
    let root ← Json.optional Uri.ofValue? rootUri
    let folders ← Json.optional (Value.list? folder?) folders
    return start (root <|> folders.bind List.head?) (← Json.optional some options)
  | _ => none

def started? (value : Value) : Option Message :=
  (value.allFields? []).map fun _ => started

/-! ## Documents -/

def openedDocument? (value : Value) : Option Message := do
  match ← value.allFields? ["uri", "languageId", "version", "text"] with
  | [uri, languageId, version, text] =>
    let _ ← Json.required Value.string? languageId
    return didOpen (← Json.required Uri.ofValue? uri) (← Json.required (·.signed? 32) version)
      (← Json.required Value.string? text)
  | _ => none

def didOpen? (value : Value) : Option Message := soleField? "textDocument" openedDocument? value

def versioned? (value : Value) : Option (Uri × Int) := do
  match ← value.allFields? ["uri", "version"] with
  | [uri, version] =>
    return (← Json.required Uri.ofValue? uri, ← Json.required (·.signed? 32) version)
  | _ => none

/-- A change may name a range. It is not looked at, because changes carry the whole text. -/
def change? (value : Value) : Option String := do
  match ← value.allFields? ["range", "rangeLength", "text"] with
  | [range, rangeLength, text] =>
    let _ ← Json.optional Range.ofValue? range
    let _ ← Json.optional (·.unsigned? 32) rangeLength
    Json.required Value.string? text
  | _ => none

def didChange? (value : Value) : Option Message := do
  match ← value.allFields? ["textDocument", "contentChanges"] with
  | [document, changes] =>
    let (uri, version) ← Json.required versioned? document
    return didChange uri version (← Json.required (Value.list? change?) changes)
  | _ => none

def didSave? (value : Value) : Option Message := do
  match ← value.allFields? ["textDocument", "text"] with
  | [document, text] =>
    let _ ← Json.optional Value.string? text
    return didSave (← Json.required documentOf? document)
  | _ => none

def didClose? (value : Value) : Option Message :=
  (soleField? "textDocument" documentOf? value).map didClose

def didChangeConfiguration? (value : Value) : Option Message :=
  (soleField? "settings" some value).map didChangeConfiguration

/-! ## Requests about a document -/

/-- A token for reports of progress is a number or a text. -/
def progressToken? (value : Value) : Option Unit := (DiagnosticCode.ofValue? value).map fun _ => ()

/-- Requests are objects, and may ask for reports of progress. -/
def isRequest (value : Value) : Bool :=
  value matches .object _
    && (optionalMember? "workDoneToken" progressToken? value).isSome
    && (optionalMember? "partialResultToken" progressToken? value).isSome

def context? (value : Value) : Option (List ShownDiagnostic) := do
  match ← value.allFields? ["diagnostics", "only", "triggerKind"] with
  | [diagnostics, only, trigger] =>
    let _ ← Json.optional (Value.list? Value.string?) only
    let _ ← Json.optional (·.signed? 32) trigger
    Json.required (Value.list? ShownDiagnostic.ofValue?) diagnostics
  | _ => none

def codeAction? (value : Value) : Option Message := do
  guard (isRequest value)
  let uri ← member? "textDocument" documentOf? value
  let _ ← member? "range" Range.ofValue? value
  return codeAction uri (← member? "context" context? value)

end Message

end EditorLint.Server
