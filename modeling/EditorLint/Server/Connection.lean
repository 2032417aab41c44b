import EditorLint.Server.Method
import EditorLint.Server.Session

/-!
The connection to the editor: calls come in, requests are answered. A session must be started
before it is used, and not be used after it has been shut down.
-/

namespace EditorLint.Server

open Json (Value)

inductive Phase where
  | fresh
  | running
  | shutDown
  | exited
  deriving DecidableEq, Repr

/-- A method called with parameters. A request wants an answer, a notification gets none. -/
structure Call where
  method : String
  params : Option Value
  isRequest : Bool

inductive Refusal where
  | notStarted
  | invalidRequest
  | unknownMethod
  | invalidParameters
  deriving DecidableEq, Repr

def Refusal.code : Refusal → Int
  | notStarted => -32002
  | invalidRequest => -32600
  | unknownMethod => -32601
  | invalidParameters => -32602

inductive Reply where
  | none
  | result (value : Value)
  | refused (refusal : Refusal)
  | ended

structure Connection (σ : Type) where
  phase : Phase := .fresh
  session : Session σ

structure Answer (σ : Type) where
  reply : Reply := .none
  connection : Connection σ
  published : List Publication := []
  logs : List LogEntry := []

def serverCapabilities : Value :=
  .object [
    ("capabilities", .object [
      ("textDocumentSync", .integer 1),
      ("codeActionProvider", .object [
        ("codeActionKinds",
          .array [.string ActionKind.quickFix.name, .string ActionKind.fixAll.name]),
        ("resolveProvider", .bool false)])]),
    ("serverInfo", .object [
      ("name", .string "Lintbridge Language Server"), ("version", .string "0.1.0")])]

def Publication.toValue (publication : Publication) : Value :=
  .object (
    [("uri", .string publication.uri.text),
      ("diagnostics", .array (publication.diagnostics.map ShownDiagnostic.toValue))]
      ++ present "version" .integer publication.version)

namespace Session

variable {σ : Type}

/-- What a message leads to, and the result when it is a request. -/
def handle (environment : Environment σ) (session : Session σ) : Message → Step σ × Value
  | .start root options => (session.start environment root options, serverCapabilities)
  | .started => (session.started, .null)
  | .didOpen uri version text => (session.didOpen environment uri version text, .null)
  | .didChange uri version texts => (session.didChange environment uri version texts, .null)
  | .didSave uri => (session.didSave environment uri, .null)
  | .didClose uri => (session.didClose uri, .null)
  | .didChangeConfiguration settings =>
    (session.didChangeConfiguration environment settings, .null)
  | .codeAction uri diagnostics =>
    let (actions, logs) := session.codeActions uri diagnostics
    ({ session, logs },
      if actions.isEmpty then .null else .array (actions.map CodeAction.toValue))

end Session

namespace Connection

variable {σ : Type}

def fresh (environment : Environment σ) (world : σ) : Connection σ :=
  { session := Session.fresh environment world }

/-- The answer to a call that changes nothing; a notification is passed over. -/
def refuse (connection : Connection σ) (call : Call) (refusal : Refusal) : Answer σ :=
  { reply := if call.isRequest then .refused refusal else .none, connection }

/-- An answer that is only given while the session is running. -/
def whileRunning (connection : Connection σ) (call : Call) (answer : Answer σ) : Answer σ :=
  match connection.phase with
  | .fresh => connection.refuse call .notStarted
  | .running => answer
  | .shutDown | .exited => connection.refuse call .invalidRequest

/-- Carries out a message. The session is running afterwards. -/
def carryOut (environment : Environment σ) (connection : Connection σ) (message : Message) :
    Answer σ :=
  let (step, result) := connection.session.handle environment message
  { reply := .result result
    connection := { phase := .running, session := step.session }
    published := step.published
    logs := step.logs }

/-- A request whose parameters are read by `decode`. As a notification it is passed over. -/
def request (environment : Environment σ) (connection : Connection σ) (call : Call)
    (decode : Value → Option Message) : Answer σ :=
  if !call.isRequest then { connection }
  else
    match call.params.bind decode with
    | none => connection.refuse call .invalidParameters
    | some message => connection.carryOut environment message

/-- A notification whose parameters are read by `decode`. As a request it has no answer. -/
def notification (environment : Environment σ) (connection : Connection σ) (call : Call)
    (decode : Value → Option Message) : Answer σ :=
  if call.isRequest then { connection }
  else
    match call.params.bind decode with
    | none => { connection }
    | some message => { connection.carryOut environment message with reply := .none }

/-- The end of the session. It is over even when parameters are given, which there must not be. -/
def shutdown (connection : Connection σ) (call : Call) : Answer σ :=
  let connection := { connection with phase := .shutDown }
  if !call.isRequest then { connection }
  else if call.params.isSome then connection.refuse call .invalidParameters
  else { reply := .result .null, connection }

def exit (connection : Connection σ) (call : Call) : Answer σ :=
  { reply := if call.isRequest then .ended else .none
    connection := { connection with phase := .exited } }

def serve (environment : Environment σ) (connection : Connection σ) (call : Call) :
    Method → Answer σ
  | .start =>
    if connection.phase = .fresh then connection.request environment call Message.start?
    else connection.refuse call .invalidRequest
  | .exit => connection.exit call
  | .shutdown => connection.whileRunning call (connection.shutdown call)
  | .request decode =>
    connection.whileRunning call (connection.request environment call decode)
  | .notification decode =>
    connection.whileRunning call (connection.notification environment call decode)
  | .unservedRequest wellFormed =>
    connection.whileRunning call <| connection.refuse call <|
      if call.params.any wellFormed then .unknownMethod else .invalidParameters
  | .unservedNotification => connection.whileRunning call { connection }

/-- Names that start with `$/` are extensions that a server may pass over. -/
def isExtension (method : String) : Bool := method.startsWith "$/"

def receive (environment : Environment σ) (connection : Connection σ) (call : Call) : Answer σ :=
  if connection.phase = .exited then connection.exit call
  else if isExtension call.method then { connection }
  else
    match Method.ofName? call.method with
    | none => connection.refuse call .unknownMethod
    | some method => connection.serve environment call method

end Connection

end EditorLint.Server
