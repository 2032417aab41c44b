import EditorLint.Server.Connection
import Mathlib

/-!
The dialogue of an editor with the server. The editor knows the text of each document that it has
open, and the diagnostics that were published last.
-/

namespace EditorLint.Server

variable {σ : Type}

/-- What an editor knows of its documents. -/
structure Client where
  text : Uri → Option String := fun _ => none
  shown : Uri → List ShownDiagnostic := fun _ => []

namespace Client

def setText (client : Client) (uri : Uri) (text : Option String) : Client :=
  { client with text := Function.update client.text uri text }

def send (client : Client) : Message → Client
  | .didOpen uri _ text => client.setText uri (some text)
  | .didChange uri _ texts =>
    match texts.getLast? with
    | some text => client.setText uri (some text)
    | none => client
  | .didClose uri => client.setText uri none
  | .start .. | .started | .didSave _ | .didChangeConfiguration _ | .codeAction .. => client

def receive (client : Client) (publication : Publication) : Client :=
  { client with
    shown := Function.update client.shown publication.uri publication.diagnostics }

theorem text_setText_self (client : Client) (uri : Uri) (text : Option String) :
    (client.setText uri text).text uri = text :=
  Function.update_self ..

theorem text_setText_of_ne (client : Client) {uri other : Uri} (different : other ≠ uri)
    (text : Option String) : (client.setText uri text).text other = client.text other :=
  Function.update_of_ne different ..

theorem shown_receive_self (client : Client) (publication : Publication) :
    (client.receive publication).shown publication.uri = publication.diagnostics :=
  Function.update_self ..

theorem shown_receive_of_ne (client : Client) {publication : Publication} {other : Uri}
    (different : other ≠ publication.uri) :
    (client.receive publication).shown other = client.shown other :=
  Function.update_of_ne different ..

def receiveAll (client : Client) (published : List Publication) : Client :=
  published.foldl receive client

theorem receiveAll_append (client : Client) (earlier later : List Publication) :
    client.receiveAll (earlier ++ later) = (client.receiveAll earlier).receiveAll later :=
  List.foldl_append ..

end Client

def Message.documents : Message → List Uri
  | .didOpen uri .. | .didChange uri .. | .didSave uri | .didClose uri | .codeAction uri _ => [uri]
  | .start .. | .started | .didChangeConfiguration _ => []

/-- A message, and what the server finds around it at that moment. -/
structure Turn (σ : Type) where
  environment : Environment σ
  message : Message

structure Dialogue (σ : Type) where
  session : Session σ
  client : Client := {}

namespace Dialogue

def fresh (environment : Environment σ) (world : σ) : Dialogue σ :=
  { session := Session.fresh environment world }

/-- The editor sends a message and takes over what is published. -/
def turn (dialogue : Dialogue σ) (turn : Turn σ) : Dialogue σ :=
  let step := (dialogue.session.handle turn.environment turn.message).1
  { session := step.session
    client := (dialogue.client.send turn.message).receiveAll step.published }

def run (dialogue : Dialogue σ) (turns : List (Turn σ)) : Dialogue σ :=
  turns.foldl Dialogue.turn dialogue

end Dialogue

end EditorLint.Server
