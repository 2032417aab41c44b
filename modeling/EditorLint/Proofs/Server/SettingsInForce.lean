import EditorLint.Proofs.Server.Publication
import EditorLint.Proofs.Service.History

/-!
Which settings are in force. The editor's own settings are those of the last value that it has sent
and that was understood; a reload takes them, or else what the settings file says at that moment,
and leaves the service in use alone when the file says nothing.
-/

namespace EditorLint.Server

open Json (Value)

variable {σ : Type}

/-! ## What messages say -/

namespace Message

def root? : Message → Option String
  | .start root _ => root.bind Uri.filePath
  | .started | .didOpen .. | .didChange .. | .didSave _ | .didClose _ | .didChangeConfiguration _
  | .codeAction .. => none

def value? : Message → Option Value
  | .start _ options => options
  | .didChangeConfiguration value => some value
  | .started | .didOpen .. | .didChange .. | .didSave _ | .didClose _ | .codeAction .. => none

/-- The settings that a message gives or takes back; none when they are left as they are. -/
def given? (message : Message) : Option (Option Settings) :=
  message.value?.bind Session.readSettings?

/-- What is logged about a value that is not understood. -/
def refusals (message : Message) : List LogEntry :=
  (message.value?.filter fun value => (Session.readSettings? value).isNone).toList.map fun _ =>
    ⟨.error, "Invalid lintbridge settings: " ++ LintError.message .json⟩

def reloads : Message → Bool
  | .start .. => true
  | message => message.refreshes

theorem root?_eq_none {message : Message} (ordinary : ¬ message.reloads) :
    message.root? = none := by
  cases message with
  | start root options => exact absurd rfl ordinary
  | _ => rfl

theorem given?_eq_none {message : Message} (ordinary : ¬ message.reloads) :
    message.given? = none := by
  cases message with
  | start root options => exact absurd rfl ordinary
  | didChangeConfiguration value => exact absurd rfl ordinary
  | _ => rfl

end Message

def lastRoot (turns : List (Turn σ)) : Option String :=
  (turns.filterMap fun turn => turn.message.root?).getLast?

/-- The settings of the last value that was understood. -/
def lastGiven (turns : List (Turn σ)) : Option Settings :=
  (turns.filterMap fun turn => turn.message.given?).getLast?.join

theorem lastRoot_concat (turns : List (Turn σ)) (turn : Turn σ) :
    lastRoot (turns ++ [turn]) = turn.message.root?.or (lastRoot turns) := by
  rw [lastRoot, List.filterMap_append, List.getLast?_append]
  cases named : turn.message.root? <;> simp [named, lastRoot]

theorem lastGiven_concat (turns : List (Turn σ)) (turn : Turn σ) :
    lastGiven (turns ++ [turn]) = turn.message.given?.getD (lastGiven turns) := by
  rw [lastGiven, List.filterMap_append, List.getLast?_append]
  cases given : turn.message.given? <;> simp [given, lastGiven]

/-! ## Storing and reloading -/

theorem storeSettings_eq (session : Session σ) (value : Value) :
    session.storeSettings value =
      { session := { session with
          clientSettings := (Session.readSettings? value).getD session.clientSettings }
        logs := (Message.didChangeConfiguration value).refusals } := by
  unfold Session.storeSettings
  cases read : Session.readSettings? value <;>
    simp [Message.refusals, Message.value?, Option.filter, read]

theorem storing_eq (session : Session σ) (message : Message) :
    session.storing message =
      { session := { session with
          root := message.root?.or session.root
          clientSettings := message.given?.getD session.clientSettings }
        logs := message.refusals } := by
  cases message with
  | start root options =>
      have named : ((root.bind Uri.filePath) <|> session.root) =
          (root.bind Uri.filePath).or session.root := Option.orElse_eq_or ..
      simp only [Session.storing, named]
      cases options with
      | none => rfl
      | some value => exact storeSettings_eq _ value
  | didChangeConfiguration value => exact storeSettings_eq session value
  | started => rfl
  | didOpen uri version text => rfl
  | didChange uri version texts => rfl
  | didSave uri => rfl
  | didClose uri => rfl
  | codeAction uri diagnostics => rfl

/-- What there is to go by: settings, or the file that cannot be loaded and why. -/
inductive InForce (files : FileTree) :
    Option Settings → Option String → Except (String × LintError) Settings → Prop
  | client (settings : Settings) (root : Option String) :
      InForce files (some settings) root (.ok settings)
  | rootless : InForce files none none (.ok {})
  | missing {root : String} (missing : files.find? (Path.join root settingsFileName) = none) :
      InForce files none (some root) (.ok {})
  | loaded {root : String} {settings : Settings}
      (loads : Settings.load files (Path.join root settingsFileName) = .ok settings) :
      InForce files none (some root) (.ok settings)
  | broken {root : String} {error : LintError}
      (present : files.find? (Path.join root settingsFileName) ≠ none)
      (fails : Settings.load files (Path.join root settingsFileName) = .error error) :
      InForce files none (some root) (.error (Path.join root settingsFileName, error))

theorem load_ne_ok_of_missing {files : FileTree} {path : String} (missing : files.find? path = none)
    (settings : Settings) : Settings.load files path ≠ .ok settings := by
  simp [Settings.load, FileTree.readText, missing, Except.bind]

theorem InForce.unique {files : FileTree} {given : Option Settings} {root : Option String}
    {outcome other : Except (String × LintError) Settings}
    (inForce : InForce files given root outcome) (alike : InForce files given root other) :
    other = outcome := by
  cases inForce with
  | client settings root => cases alike; rfl
  | rootless => cases alike; rfl
  | missing missing =>
      cases alike with
      | missing => rfl
      | loaded loads => exact absurd loads (load_ne_ok_of_missing missing _)
      | broken present => exact absurd missing present
  | loaded loads =>
      cases alike with
      | missing missing => exact absurd loads (load_ne_ok_of_missing missing _)
      | loaded same => rw [Except.ok.inj (same.symm.trans loads)]
      | broken _ fails => cases loads.symm.trans fails
  | broken present fails =>
      cases alike with
      | missing missing => exact absurd missing present
      | loaded loads => cases loads.symm.trans fails
      | broken _ same => rw [Except.error.inj (same.symm.trans fails)]

/-- The service after a reload: a new one, or the one in use. -/
def serviceAfter (service : Service) (root : String) :
    Except (String × LintError) Settings → Service
  | .ok settings => { settings, root }
  | .error _ => service

def reloadLog (complaint : String) : Except (String × LintError) Settings → LogEntry
  | .ok settings => ⟨.info, "Lintbridge using linter '" ++ settings.linter ++ "'"⟩
  | .error (path, error) =>
    ⟨.error, complaint ++ ": " ++ ("Failed to load " ++ path ++ ": " ++ error.message)⟩

theorem exists_inForce (session : Session σ) (environment : Environment σ) (complaint : String) :
    ∃ outcome, InForce environment.files session.clientSettings session.root outcome ∧
      session.reload environment complaint =
        { session := { session with
            service := serviceAfter session.service
              (session.root.getD environment.files.workingPath) outcome }
          logs := [reloadLog complaint outcome] } := by
  obtain ⟨documents, service, root, given, world⟩ := session
  simp only [Session.reload, Session.currentSettings]
  cases given with
  | some settings => exact ⟨_, .client settings root, rfl⟩
  | none =>
      cases root with
      | none => exact ⟨_, .rootless, rfl⟩
      | some root =>
          by_cases missing : environment.files.find? (Path.join root settingsFileName) = none
          · refine ⟨_, .missing missing, ?_⟩
            simp only [missing, Option.isNone_none, if_true]
            rfl
          · simp only [Option.isNone_iff_eq_none, missing, if_false]
            cases load : Settings.load environment.files (Path.join root settingsFileName) with
            | ok settings => exact ⟨_, .loaded load, rfl⟩
            | error error => exact ⟨_, .broken missing load, rfl⟩

theorem exists_reloading_of_reloads {message : Message} (reloads : message.reloads)
    (session : Session σ) : ∃ stored, session.reloading message = some stored := by
  cases message with
  | start root options => exact ⟨_, rfl⟩
  | _ =>
      apply Session.exists_reloading
      exact reloads

/-! ## What is left alone -/

namespace Session

/-- The settings and the roots are the same in two sessions. -/
structure SameSetup (session later : Session σ) : Prop where
  clientSettings_eq : later.clientSettings = session.clientSettings
  root_eq : later.root = session.root
  service_eq : later.service = { session.service with registry := later.service.registry }

theorem SameSetup.refl (session : Session σ) : SameSetup session session := ⟨rfl, rfl, rfl⟩

theorem SameSetup.trans {session next later : Session σ} (first : SameSetup session next)
    (second : SameSetup next later) : SameSetup session later := by
  refine ⟨second.clientSettings_eq.trans first.clientSettings_eq,
    second.root_eq.trans first.root_eq, ?_⟩
  rw [second.service_eq, first.service_eq]

theorem publish_sameSetup (session : Session σ) (environment : Environment σ) (uri : Uri) :
    SameSetup session (session.publish environment uri).session := by
  simp only [publish]
  split
  · exact .refl session
  · exact ⟨rfl, rfl, Service.semanticDiagnostics_service ..⟩

theorem publishAll_sameSetup (session : Session σ) (environment : Environment σ) :
    SameSetup session (session.publishAll environment).session := by
  apply publishAll_induction (motive := fun step => SameSetup session step.session)
  · exact .refl session
  · intro step uri before
    exact before.trans (publish_sameSetup ..)

theorem handle_sameSetup {message : Message} (ordinary : ¬ message.reloads) (session : Session σ)
    (environment : Environment σ) :
    SameSetup session (session.handle environment message).1.session := by
  have once (stage : Session σ) (uri : Uri) (same : SameSetup session stage) :
      SameSetup session (stage.publish environment uri).session :=
    same.trans (publish_sameSetup ..)
  cases message with
  | start root options => exact absurd rfl ordinary
  | didChangeConfiguration value => exact absurd rfl ordinary
  | started => exact .refl session
  | codeAction uri diagnostics => exact .refl session
  | didOpen uri version text => exact once _ uri ⟨rfl, rfl, rfl⟩
  | didChange uri version texts =>
      simp only [handle, didChange]
      split <;> exact once _ uri ⟨rfl, rfl, rfl⟩
  | didSave uri =>
      have other : ¬ isSettingsFile uri := ordinary
      simp only [handle, didSave, other, Bool.false_eq_true, if_false]
      exact once session uri (.refl session)
  | didClose uri => exact ⟨rfl, rfl, rfl⟩

end Session

/-! ## Whole sessions -/

/-- A message that reloads the settings takes over what it says about them, reloads them, and then
publishes for all documents or for none. -/
theorem exists_handle_eq {message : Message} (reloads : message.reloads) (session : Session σ)
    (environment : Environment σ) :
    let step := (session.handle environment message).1
    let clientSettings := message.given?.getD session.clientSettings
    let root := message.root?.or session.root
    ∃ outcome, InForce environment.files clientSettings root outcome ∧
      let reloaded := { session with
        clientSettings, root
        service := serviceAfter session.service (root.getD environment.files.workingPath) outcome }
      let published :=
        if message.refreshes then reloaded.publishAll environment else { session := reloaded }
      step = { published with
        logs := message.refusals ++ reloadLog message.complaint outcome :: published.logs } ∧
        reloaded.SameSetup step.session := by
  intro step clientSettings root
  obtain ⟨stored, reloading⟩ := exists_reloading_of_reloads reloads session
  obtain ⟨outcome, inForce, reload_eq⟩ :=
    exists_inForce { session with clientSettings, root } environment message.complaint
  refine ⟨outcome, inForce, ?_⟩
  simp only [step, Session.handle_of_reloading reloading, storing_eq, Step.andThen,
    Session.reloadFor]
  rw [reload_eq]
  split
  · exact ⟨rfl, Session.publishAll_sameSetup ..⟩
  · exact ⟨rfl, .refl _⟩

theorem handle_clientSettings_root (session : Session σ) (environment : Environment σ)
    (message : Message) :
    let step := (session.handle environment message).1
    step.session.clientSettings = message.given?.getD session.clientSettings ∧
      step.session.root = message.root?.or session.root := by
  by_cases reloads : message.reloads
  · obtain ⟨outcome, -, -, same⟩ := exists_handle_eq reloads session environment
    exact ⟨same.clientSettings_eq, same.root_eq⟩
  · have same := Session.handle_sameSetup reloads session environment
    rw [Message.given?_eq_none reloads, Message.root?_eq_none reloads]
    exact ⟨same.clientSettings_eq, same.root_eq⟩

theorem run_clientSettings_root (environment : Environment σ) (world : σ) (turns : List (Turn σ)) :
    let session := ((Dialogue.fresh environment world).run turns).session
    session.clientSettings = lastGiven turns ∧ session.root = lastRoot turns := by
  -- What a turn says takes the place of what the turns before it have left.
  induction turns using List.reverseRecOn with
  | nil => exact ⟨rfl, rfl⟩
  | append_singleton turns turn ih =>
      obtain ⟨given, root⟩ := handle_clientSettings_root
        ((Dialogue.fresh environment world).run turns).session turn.environment turn.message
      rw [Dialogue.run_concat, lastGiven_concat, lastRoot_concat, ← ih.1, ← ih.2]
      exact ⟨given, root⟩

end EditorLint.Server
