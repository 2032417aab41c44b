import EditorLint.Server.Connection

/-!
Which messages reload the settings, and what they do besides. A reload that succeeds puts a new
service in the place of the one in use.
-/

namespace EditorLint.Server

open Json (Value)

/-- Messages that reload the settings and publish everything anew. -/
def Message.refreshes : Message → Bool
  | .didSave uri => Session.isSettingsFile uri
  | .didChangeConfiguration _ => true
  | .start .. | .started | .didOpen .. | .didChange .. | .didClose _ | .codeAction .. => false

def Message.complaint : Message → String
  | .start .. => "Failed to load settings"
  | _ => "Failed to reload settings"

variable {σ : Type}

theorem Step.silent_andThen (session : Session σ) (next : Session σ → Step σ) :
    ({ session } : Step σ).andThen next = next session := rfl

theorem Step.andThen_assoc (step : Step σ) (next after : Session σ → Step σ) :
    (step.andThen next).andThen after =
      step.andThen fun session => (next session).andThen after := by
  simp only [Step.andThen, List.append_assoc]

namespace Session

/-- The session in which a message reloads the settings; none when it does not reload them. -/
def reloading (session : Session σ) : Message → Option (Session σ)
  | .start root options =>
    let session := { session with root := (root.bind Uri.filePath) <|> session.root }
    some ((options.map fun value => (session.storeSettings value).session).getD session)
  | .didSave uri => if isSettingsFile uri then some session else none
  | .didChangeConfiguration value => some (session.storeSettings value).session
  | .started | .didOpen .. | .didChange .. | .didClose _ | .codeAction .. => none

theorem exists_reloading {message : Message} (refreshes : message.refreshes)
    (session : Session σ) : ∃ stored, session.reloading message = some stored := by
  cases message with
  | didSave uri => exact ⟨session, if_pos refreshes⟩
  | didChangeConfiguration value => exact ⟨_, rfl⟩
  | start root options => exact ⟨_, rfl⟩
  | started => cases refreshes
  | didOpen uri version text => cases refreshes
  | didChange uri version texts => cases refreshes
  | didClose uri => cases refreshes
  | codeAction uri diagnostics => cases refreshes

theorem reloading_eq_none {message : Message} (ordinary : ¬ message.refreshes)
    (goesOn : ∀ root options, message ≠ .start root options) (session : Session σ) :
    session.reloading message = none := by
  cases message with
  | didSave uri => exact if_neg ordinary
  | didChangeConfiguration value => exact absurd rfl ordinary
  | start root options => exact absurd rfl (goesOn root options)
  | started => rfl
  | didOpen uri version text => rfl
  | didChange uri version texts => rfl
  | didClose uri => rfl
  | codeAction uri diagnostics => rfl

theorem storeSettings_published (session : Session σ) (value : Value) :
    (session.storeSettings value).published = [] := by
  unfold storeSettings
  split <;> rfl

theorem reload_published (session : Session σ) (environment : Environment σ) (complaint : String) :
    (session.reload environment complaint).published = [] := by
  unfold reload
  split <;> rfl

theorem reloading_keeps {session stored : Session σ} {message : Message}
    (reloads : session.reloading message = some stored) :
    stored.documents = session.documents ∧ stored.service = session.service ∧
      stored.world = session.world := by
  have kept (session : Session σ) (value : Value) :
      let stored := (session.storeSettings value).session
      stored.documents = session.documents ∧ stored.service = session.service ∧
        stored.world = session.world := by
    unfold storeSettings
    split <;> exact ⟨rfl, rfl, rfl⟩
  unfold reloading at reloads
  split at reloads
  · next root options =>
      obtain rfl := Option.some.inj reloads
      cases options with
      | none => exact ⟨rfl, rfl, rfl⟩
      | some value => exact kept _ value
  · split at reloads
    · obtain rfl := Option.some.inj reloads
      exact ⟨rfl, rfl, rfl⟩
    · cases reloads
  · obtain rfl := Option.some.inj reloads
    exact kept session _
  all_goals cases reloads

/-- Takes over what a message says about the settings. -/
def storing (session : Session σ) : Message → Step σ
  | .start root options =>
    let session := { session with root := (root.bind Uri.filePath) <|> session.root }
    match options with
    | some value => session.storeSettings value
    | none => { session }
  | .didChangeConfiguration value => session.storeSettings value
  | .started | .didOpen .. | .didChange .. | .didSave _ | .didClose _ | .codeAction .. =>
    { session }

/-- Reloads the settings, and publishes everything anew if the message makes it. -/
def reloadFor (environment : Environment σ) (message : Message) (stored : Session σ) : Step σ :=
  let reloaded := stored.reload environment message.complaint
  if message.refreshes then reloaded.andThen (publishAll environment) else reloaded

theorem storing_session {session stored : Session σ} {message : Message}
    (reloads : session.reloading message = some stored) :
    (session.storing message).session = stored := by
  cases message with
  | start root options => cases options <;> exact Option.some.inj reloads
  | didSave uri =>
      simp only [reloading, Option.ite_none_right_eq_some, Option.some.injEq] at reloads
      exact reloads.2
  | didChangeConfiguration value => exact Option.some.inj reloads
  | started => cases reloads
  | didOpen uri version text => cases reloads
  | didChange uri version texts => cases reloads
  | didClose uri => cases reloads
  | codeAction uri diagnostics => cases reloads

/-- A message that reloads the settings stores what it says about them, reloads them, and then
publishes for all documents or for none. -/
theorem handle_of_reloading {session stored : Session σ} {message : Message}
    (reloads : session.reloading message = some stored) (environment : Environment σ) :
    (session.handle environment message).1 =
      (session.storing message).andThen (reloadFor environment message) := by
  cases message with
  | start root options => cases options <;> rfl
  | didSave uri =>
      simp only [reloading, Option.ite_none_right_eq_some] at reloads
      rw [storing, Step.silent_andThen]
      simp only [handle, didSave, reloadFor, Message.refreshes, reloads.1, if_true]
      rfl
  | didChangeConfiguration value =>
      simp only [handle, didChangeConfiguration, Step.andThen_assoc]
      rfl
  | started => cases reloads
  | didOpen uri version text => cases reloads
  | didChange uri version texts => cases reloads
  | didClose uri => cases reloads
  | codeAction uri diagnostics => cases reloads

theorem storing_published (session : Session σ) (message : Message) :
    (session.storing message).published = [] := by
  cases message with
  | start root options =>
      cases options with
      | none => rfl
      | some value => exact storeSettings_published _ value
  | didChangeConfiguration value => exact storeSettings_published _ value
  | started => rfl
  | didOpen uri version text => rfl
  | didChange uri version texts => rfl
  | didSave uri => rfl
  | didClose uri => rfl
  | codeAction uri diagnostics => rfl

/-- What such a message leads to, apart from the log. -/
theorem handle_reloading_eq {session stored : Session σ} {message : Message}
    (reloads : session.reloading message = some stored) (environment : Environment σ) :
    let step := (session.handle environment message).1
    let reloaded := (stored.reload environment message.complaint).session
    if message.refreshes then
      step.session = (reloaded.publishAll environment).session ∧
        step.published = (reloaded.publishAll environment).published
    else step.session = reloaded ∧ step.published = [] := by
  simp only [handle_of_reloading reloads, Step.andThen, storing_session reloads, storing_published,
    List.nil_append, reloadFor]
  split
  · simp only [reload_published, List.nil_append, and_self]
  · exact ⟨rfl, reload_published ..⟩

theorem handle_reloading {session stored : Session σ} {message : Message}
    (reloads : session.reloading message = some stored) (environment : Environment σ) :
    let step := (session.handle environment message).1
    ∃ complaint, let reloaded := (stored.reload environment complaint).session
      step.session = reloaded ∧ step.published = [] ∨
        step.session = (reloaded.publishAll environment).session ∧
          step.published = (reloaded.publishAll environment).published := by
  have handled := handle_reloading_eq reloads environment
  refine ⟨message.complaint, ?_⟩
  split at handled
  · exact Or.inr handled
  · exact Or.inl handled

/-- Whether a message puts a new service in the place of the one in use. -/
def renews (session : Session σ) (files : FileTree) (message : Message) : Bool :=
  (session.reloading message).any fun stored => (stored.currentSettings files).toBool

end Session

end EditorLint.Server
