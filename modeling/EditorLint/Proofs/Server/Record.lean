import EditorLint.Proofs.Server.Dialogue
import EditorLint.Proofs.Server.Reload
import EditorLint.Proofs.Service.Lint

/-!
A record of the exchanges that the service in use has had with its linter. It is kept beside the
dialogue, which goes on as if there were none.
-/

namespace EditorLint.Server

open Json (Value)

variable {σ : Type}

def Environment.recording (environment : Environment σ) : Environment (List Exchange × σ) where
  files := environment.files
  linter settings := (environment.linter settings).recording

namespace Session

def clearRecord (session : Session (List Exchange × σ)) : Session (List Exchange × σ) :=
  { session with world := ([], session.world.2) }

def unrecorded (session : Session (List Exchange × σ)) : Session σ where
  documents := session.documents
  service := session.service
  root := session.root
  clientSettings := session.clientSettings
  world := session.world.2

theorem reloading_clearRecord (session : Session (List Exchange × σ)) (message : Message) :
    (clearRecord session).reloading message = (session.reloading message).map clearRecord := by
  have stored (session : Session (List Exchange × σ)) (value : Value) :
      ((clearRecord session).storeSettings value).session =
        clearRecord (session.storeSettings value).session := by
    unfold storeSettings
    split <;> rfl
  cases message with
  | start root options =>
      cases options with
      | none => rfl
      | some value =>
          let rooted := { session with root := (root.bind Uri.filePath) <|> session.root }
          exact congrArg some (stored rooted value)
  | didSave uri =>
      simp only [reloading]
      split <;> rfl
  | didChangeConfiguration value => exact congrArg some (stored session value)
  | started => rfl
  | didOpen uri version text => rfl
  | didChange uri version texts => rfl
  | didClose uri => rfl
  | codeAction uri diagnostics => rfl

end Session

/-! ## Without the record -/

def Step.unrecorded (step : Step (List Exchange × σ)) : Step σ :=
  { step with session := step.session.unrecorded }

theorem Step.unrecorded_andThen {step : Step (List Exchange × σ)}
    {next : Session (List Exchange × σ) → Step (List Exchange × σ)} {plain : Session σ → Step σ}
    (same : ∀ session, (next session).unrecorded = plain session.unrecorded) :
    (step.andThen next).unrecorded = step.unrecorded.andThen plain := by
  simp only [Step.andThen, ← same, Step.unrecorded]

namespace Session

theorem publish_unrecorded (session : Session (List Exchange × σ)) (environment : Environment σ)
    (uri : Uri) :
    (session.publish environment.recording uri).unrecorded =
      session.unrecorded.publish environment uri := by
  simp only [publish, unrecorded]
  cases session.documents.find? uri.fileName with
  | none => rfl
  | some document =>
      obtain ⟨diagnostics, logs, service, world⟩ := session.service.semanticDiagnostics_recording
        session.host (environment.linter session.service.settings) uri.fileName session.world
      simp only [Step.unrecorded, unrecorded, Environment.recording, diagnostics, logs, service,
        world]
      rfl

theorem publishAll_unrecorded (session : Session (List Exchange × σ))
    (environment : Environment σ) :
    (session.publishAll environment.recording).unrecorded =
      session.unrecorded.publishAll environment := by
  have each (documents : List Document) (step : Step (List Exchange × σ)) :
      (documents.foldl
        (fun step document => step.andThen (publish environment.recording document.uri))
        step).unrecorded =
      documents.foldl (fun step document => step.andThen (publish environment document.uri))
        step.unrecorded := by
    induction documents generalizing step with
    | nil => rfl
    | cons document rest ih =>
        rw [List.foldl_cons, List.foldl_cons, ih, Step.unrecorded_andThen]
        exact fun session => publish_unrecorded session environment document.uri
  exact each session.documents.values { session }

theorem storeSettings_unrecorded (session : Session (List Exchange × σ)) (value : Value) :
    (session.storeSettings value).unrecorded = session.unrecorded.storeSettings value := by
  unfold storeSettings
  split <;> rfl

theorem reload_unrecorded (session : Session (List Exchange × σ)) (environment : Environment σ)
    (complaint : String) :
    (session.reload environment.recording complaint).unrecorded =
      session.unrecorded.reload environment complaint := by
  have same : session.unrecorded.currentSettings environment.files =
      session.currentSettings environment.recording.files := rfl
  unfold reload
  rw [same]
  cases session.currentSettings environment.recording.files <;> rfl

/-- A record has no part in what a message leads to. -/
theorem handle_unrecorded (session : Session (List Exchange × σ)) (environment : Environment σ)
    (message : Message) :
    (session.handle environment.recording message).1.unrecorded =
      (session.unrecorded.handle environment message).1 := by
  have reloaded (complaint : String) (session : Session (List Exchange × σ)) :=
    reload_unrecorded session environment complaint
  have published (session : Session (List Exchange × σ)) := publishAll_unrecorded session environment
  cases message with
  | start root options =>
      simp only [handle, start]
      rw [Step.unrecorded_andThen (reloaded _)]
      cases options with
      | none => rfl
      | some value => exact congrArg (Step.andThen · _) (storeSettings_unrecorded _ value)
  | started => rfl
  | didOpen uri version text => exact publish_unrecorded _ environment uri
  | didChange uri version texts =>
      simp only [handle, didChange]
      rw [publish_unrecorded]
      cases texts.getLast? <;> rfl
  | didSave uri =>
      simp only [handle, didSave]
      split
      · rw [Step.unrecorded_andThen published, reloaded]
      · exact publish_unrecorded session environment uri
  | didClose uri => rfl
  | didChangeConfiguration value =>
      simp only [handle, didChangeConfiguration]
      rw [Step.unrecorded_andThen published, Step.unrecorded_andThen (reloaded _),
        storeSettings_unrecorded]
  | codeAction uri diagnostics => rfl

end Session

/-- The same turn with a linter that keeps a record. -/
def Turn.recording (turn : Turn σ) : Turn (List Exchange × σ) :=
  ⟨turn.environment.recording, turn.message⟩

namespace Dialogue

/-- A turn with its exchanges on record. A new service has a new record. -/
def recordedTurn (dialogue : Dialogue (List Exchange × σ)) (turn : Turn σ) :
    Dialogue (List Exchange × σ) :=
  let session :=
    if dialogue.session.renews turn.environment.files turn.message then
      dialogue.session.clearRecord
    else dialogue.session
  Dialogue.turn { dialogue with session } ⟨turn.environment.recording, turn.message⟩

def recordedRun (dialogue : Dialogue (List Exchange × σ)) (turns : List (Turn σ)) :
    Dialogue (List Exchange × σ) :=
  turns.foldl recordedTurn dialogue

/-- What the service in use has had to do with its linter after some turns. -/
def record (environment : Environment σ) (world : σ) (turns : List (Turn σ)) : List Exchange :=
  ((fresh environment.recording ([], world)).recordedRun turns).session.world.1

def unrecorded (dialogue : Dialogue (List Exchange × σ)) : Dialogue σ where
  session := dialogue.session.unrecorded
  client := dialogue.client

theorem turn_unrecorded (dialogue : Dialogue (List Exchange × σ)) (turn : Turn σ) :
    (dialogue.turn turn.recording).unrecorded = dialogue.unrecorded.turn turn := by
  have handled := Session.handle_unrecorded dialogue.session turn.environment turn.message
  simp only [Dialogue.turn, Turn.recording, unrecorded, ← handled, Step.unrecorded]

theorem recordedTurn_unrecorded (dialogue : Dialogue (List Exchange × σ)) (turn : Turn σ) :
    (dialogue.recordedTurn turn).unrecorded = dialogue.unrecorded.turn turn := by
  have recorded := turn_unrecorded
    { dialogue with
      session := if dialogue.session.renews turn.environment.files turn.message then
        dialogue.session.clearRecord else dialogue.session } turn
  have cleared (renewed : Bool) :
      (if renewed then dialogue.session.clearRecord else dialogue.session).unrecorded =
        dialogue.session.unrecorded := by
    cases renewed <;> rfl
  simp only [unrecorded, cleared] at recorded
  exact recorded

/-- The dialogue goes on in the same way whether or not there is a record. -/
theorem recordedRun_unrecorded (dialogue : Dialogue (List Exchange × σ)) (turns : List (Turn σ)) :
    (dialogue.recordedRun turns).unrecorded = dialogue.unrecorded.run turns := by
  induction turns generalizing dialogue with
  | nil => rfl
  | cons turn rest ih =>
      exact (ih _).trans (congrArg (run · rest) (recordedTurn_unrecorded dialogue turn))

end Dialogue

end EditorLint.Server
