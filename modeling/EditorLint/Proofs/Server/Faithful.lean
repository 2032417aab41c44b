import EditorLint.Proofs.FixAction
import EditorLint.Proofs.InsertionMap
import EditorLint.Proofs.Server.Record
import EditorLint.Proofs.Text.LineTable

/-!
Every edit that the server offers is fresh. While diagnostics are shown for a document, what is
known of it was found in the text that the editor has; a failed lint leaves old findings behind,
but it also takes the diagnostics away for which they could be asked.
-/

namespace EditorLint.Server

variable {σ : Type}

/-! ## What holds between two messages -/

/-- The server has the documents that the editor has open, each with its text. -/
structure Mirrors (uris : Set Uri) (session : Session σ) (client : Client) : Prop where
  named : ∀ document ∈ session.documents.values, document.uri ∈ uris
  opened : ∀ uri ∈ uris, (session.documents.find? uri.fileName).map (·.lines) =
    (client.text uri).map LineTable.ofText

/-- An index was found in a text by a lint that the service in use has on record. -/
def FoundIn (session : Session (List Exchange × σ)) (uri : Uri) (text : String)
    (index : FindingIndex) : Prop :=
  ∃ lint : Lint, lint.text = text ∧ lint.index = index ∧
    session.service.Locates uri.fileName lint ∧
    session.service.exchange uri.fileName lint ∈ session.world.1

/-- While diagnostics are shown for a document, what is known of it was found in its text. -/
def Fresh (session : Session (List Exchange × σ)) (client : Client) (uri : Uri) : Prop :=
  ∀ text index, client.text uri = some text → client.shown uri ≠ [] →
    session.service.findings uri.fileName = some index → FoundIn session uri text index

def Forgets (session : Session σ) : Prop :=
  ∀ file, session.documents.find? file = none → session.service.findings file = none

/-- What holds after each message. -/
structure Faithful (uris : Set Uri) (session : Session (List Exchange × σ)) (client : Client) :
    Prop extends Mirrors uris session client where
  forgets : Forgets session
  fresh : ∀ uri ∈ uris, Fresh session client uri

theorem Mirrors.exists_document {uris : Set Uri} {session : Session σ} {client : Client} {uri : Uri}
    {text : String} (mirrors : Mirrors uris session client) (member : uri ∈ uris)
    (opened : client.text uri = some text) :
    ∃ document, session.documents.find? uri.fileName = some document ∧
      document.lines = .ofText text := by
  have same := mirrors.opened uri member
  rw [opened] at same
  exact Option.map_eq_some_iff.mp same

theorem Mirrors.find?_eq_none {uris : Set Uri} {session : Session σ} {client : Client} {uri : Uri}
    (mirrors : Mirrors uris session client) (member : uri ∈ uris)
    (closed : client.text uri = none) : session.documents.find? uri.fileName = none := by
  have same := mirrors.opened uri member
  rw [closed] at same
  exact Option.map_eq_none_iff.mp same

/-- A service that differs in what it knows alone, and has at least the record, has found the
same. -/
theorem FoundIn.mono {session later : Session (List Exchange × σ)} {uri : Uri} {text : String}
    {index : FindingIndex} (found : FoundIn session uri text index)
    (service : later.service = { session.service with registry := later.service.registry })
    (record : ∀ exchange ∈ session.world.1, exchange ∈ later.world.1) :
    FoundIn later uri text index := by
  obtain ⟨lint, text_eq, index_eq, located, recorded⟩ := found
  refine ⟨lint, text_eq, index_eq, ?_, record _ ?_⟩
  · rw [service]
    exact located
  · rw [service]
    exact recorded

/-! ## Publishing -/

variable {uris : Set Uri} {session : Session (List Exchange × σ)} {client : Client} {uri : Uri}
  {text : String}

theorem publish_eq {session : Session σ} {document : Document}
    (found : session.documents.find? uri.fileName = some document)
    (lines : document.lines = .ofText text) (environment : Environment σ) :
    session.publish environment uri =
      let shown (diagnostics : List Diagnostic) : Publication :=
        { uri, diagnostics := diagnostics.map (ShownDiagnostic.ofDiagnostic (.ofText text))
          version := some document.version }
      if session.service.settings.skipsFile uri.fileName then
        { session, published := [shown []] }
      else
        match session.service.lint (environment.linter session.service.settings) uri.fileName text
          session.world with
        | (.error error, world) =>
          { session := { session with world }, published := [shown []]
            logs := [Service.failureLog uri.fileName error] }
        | (.ok lint, world) =>
          { session := {
              session with service := session.service.remember uri.fileName lint.index, world }
            published := [shown lint.diagnostics] } := by
  have shows : session.host.Shows uri.fileName text :=
    Host.ofDocuments_shows (by rw [found, Option.map_some, lines])
  simp only [Session.publish, found, lines, Service.semanticDiagnostics_eq_lint shows]
  split
  · rfl
  · cases session.service.lint (environment.linter session.service.settings) uri.fileName text
      session.world with
    | mk outcome after => cases outcome <;> rfl

theorem publish_closed {session : Session σ}
    (closed : session.documents.find? uri.fileName = none) (environment : Environment σ) :
    session.publish environment uri = { session } := by
  simp only [Session.publish, closed]

/-- What happens to a session when one of its documents is linted. -/
structure Linted (session later : Session (List Exchange × σ)) (file : String) : Prop where
  documents_eq : later.documents = session.documents
  service_eq : later.service = { session.service with registry := later.service.registry }
  others : ∀ other, other ≠ file →
    later.service.findings other = session.service.findings other
  record : ∀ exchange ∈ session.world.1, exchange ∈ later.world.1

theorem faithful_of_linted (distinct : uris.InjOn Uri.fileName)
    {later : Session (List Exchange × σ)} {publication : Publication}
    (mirrors : Mirrors uris session client) (forgets : Forgets session)
    (fresh : ∀ other ∈ uris, other ≠ uri → Fresh session client other) (member : uri ∈ uris)
    (opened : client.text uri = some text) (linted : Linted session later uri.fileName)
    (named : publication.uri = uri)
    (found : publication.diagnostics ≠ [] → ∀ index,
      later.service.findings uri.fileName = some index → FoundIn later uri text index) :
    Faithful uris later (client.receive publication) where
  named := by
    rw [linted.documents_eq]
    exact mirrors.named
  opened := by
    rw [linted.documents_eq]
    exact mirrors.opened
  forgets file closed := by
    rw [linted.documents_eq] at closed
    obtain ⟨document, present, -⟩ := mirrors.exists_document member opened
    have different : file ≠ uri.fileName := by
      rintro rfl
      rw [closed] at present
      cases present
    rw [linted.others file different]
    exact forgets file closed
  fresh other known := by
    -- Different documents have different file names, so the lint has touched one index only.
    intro otherText index otherOpened shown indexed
    subst named
    by_cases same : other = publication.uri
    · subst same
      have same : otherText = text := Option.some.inj (otherOpened.symm.trans opened)
      subst same
      apply found _ index indexed
      rwa [Client.shown_receive_self] at shown
    · have different := distinct.ne known member same
      rw [linted.others _ different] at indexed
      rw [Client.shown_receive_of_ne _ same] at shown
      exact (fresh other known same otherText index otherOpened shown indexed).mono
        linted.service_eq linted.record

/-- Whatever was stale before, publishing leaves nothing stale behind. -/
theorem publish_faithful (distinct : uris.InjOn Uri.fileName) (environment : Environment σ)
    (mirrors : Mirrors uris session client) (forgets : Forgets session)
    (fresh : ∀ other ∈ uris, other ≠ uri → Fresh session client other) (member : uri ∈ uris)
    (opened : client.text uri = some text) :
    let step := session.publish environment.recording uri
    Faithful uris step.session (client.receiveAll step.published) := by
  intro step
  obtain ⟨document, present, lines⟩ := mirrors.exists_document member opened
  simp only [step, publish_eq present lines, Environment.recording]
  split
  · exact faithful_of_linted distinct mirrors forgets fresh member opened
      ⟨rfl, rfl, fun _ _ => rfl, fun _ => id⟩ rfl (fun shown => absurd rfl shown)
  · cases plain : session.service.lint (environment.linter session.service.settings) uri.fileName
      text session.world.2 with
    | mk answer after =>
        cases answer with
        | error error =>
            have recorded : session.service.lint
                (environment.linter session.service.settings).recording uri.fileName text
                session.world = _ :=
              Service.lint_recording _ _ _ _ session.world.1 session.world.2
            rw [recorded, plain]
            exact faithful_of_linted distinct mirrors forgets fresh member opened
              ⟨rfl, rfl, fun _ _ => rfl, fun _ => List.mem_append_left _⟩ rfl
              (fun shown => absurd rfl shown)
        | ok lint =>
            have recorded : session.service.lint
                (environment.linter session.service.settings).recording uri.fileName text
                session.world = _ :=
              Service.lint_recording_ok plain session.world.1
            obtain ⟨same, located⟩ := Service.locates_of_lint plain
            rw [recorded]
            refine faithful_of_linted distinct mirrors forgets fresh member opened
              ⟨rfl, rfl, fun other different => ?_, fun _ => List.mem_append_left _⟩ rfl
              (fun _ index indexed => ?_)
            · exact Service.findings_remember_of_ne _ _ different.symm
            · rw [Service.findings_remember, Option.some.injEq] at indexed
              exact ⟨lint, same, indexed, located, List.mem_append_right _ (List.mem_singleton_self _)⟩

theorem publish_keeps_faithful (distinct : uris.InjOn Uri.fileName) (environment : Environment σ)
    (faithful : Faithful uris session client) (member : uri ∈ uris) :
    let step := session.publish environment.recording uri
    Faithful uris step.session (client.receiveAll step.published) := by
  cases opened : client.text uri with
  | none =>
      rw [publish_closed (faithful.find?_eq_none member opened)]
      exact faithful
  | some text =>
      exact publish_faithful distinct environment faithful.toMirrors faithful.forgets
        (fun other known _ => faithful.fresh other known) member opened

theorem publishAll_faithful (distinct : uris.InjOn Uri.fileName) (environment : Environment σ)
    (faithful : Faithful uris session client) :
    let step := session.publishAll environment.recording
    Faithful uris step.session (client.receiveAll step.published) := by
  -- The documents are those of the session at the start, whatever is published on the way.
  have each (documents : List Document) (step : Step (List Exchange × σ))
      (named : ∀ document ∈ documents, document.uri ∈ uris)
      (before : Faithful uris step.session (client.receiveAll step.published)) :
      let later := documents.foldl
        (fun step document => step.andThen (·.publish environment.recording document.uri)) step
      Faithful uris later.session (client.receiveAll later.published) := by
    induction documents generalizing step with
    | nil => exact before
    | cons document rest ih =>
        obtain ⟨here, later⟩ := List.forall_mem_cons.mp named
        apply ih _ later
        simp only [Step.andThen, Client.receiveAll_append]
        exact publish_keeps_faithful distinct environment before here
  exact each _ { session } faithful.named faithful

/-! ## Opening, changing and closing -/

theorem setText_mirrors (distinct : uris.InjOn Uri.fileName)
    (mirrors : Mirrors uris session client) (member : uri ∈ uris) (version : Int) (text : String) :
    Mirrors uris (session.setText uri version text) (client.setText uri (some text)) where
  named document present := by
    rcases InsertionMap.mem_values_insert present with rfl | old
    · exact member
    · exact mirrors.named document old
  opened other known := by
    by_cases same : other = uri
    · subst same
      simp [Session.setText, Client.text_setText_self]
    · have different := distinct.ne member known (Ne.symm same)
      rw [Client.text_setText_of_ne _ same, Session.setText,
        InsertionMap.find?_insert_of_ne _ _ different]
      exact mirrors.opened other known

theorem setText_forgets (forgets : Forgets session) (version : Int) (text : String) :
    Forgets (session.setText uri version text) := by
  intro file closed
  rw [Session.setText, InsertionMap.find?_insert] at closed
  split at closed
  · cases closed
  · exact forgets file closed

/-- A new text is published at once, so that nothing of the old one stays. -/
theorem setText_publish_faithful (distinct : uris.InjOn Uri.fileName)
    (faithful : Faithful uris session client) (member : uri ∈ uris) (environment : Environment σ)
    (version : Int) (text : String) :
    let step := (session.setText uri version text).publish environment.recording uri
    Faithful uris step.session ((client.setText uri (some text)).receiveAll step.published) := by
  apply publish_faithful distinct environment
    (setText_mirrors distinct faithful.toMirrors member version text)
    (setText_forgets faithful.forgets version text) _ member (client.text_setText_self uri _)
  intro other known different otherText index opened shown indexed
  rw [Client.text_setText_of_ne _ different] at opened
  exact (faithful.fresh other known otherText index opened shown indexed).mono rfl fun _ => id

theorem didClose_faithful (distinct : uris.InjOn Uri.fileName)
    (faithful : Faithful uris session client) (member : uri ∈ uris) :
    let step := session.didClose uri
    Faithful uris step.session ((client.setText uri none).receiveAll step.published) := by
  refine ⟨⟨fun document present => ?named, fun other known => ?opened⟩, fun file closed => ?forgets,
    fun other known text index opened shown indexed => ?fresh⟩
  case named => exact faithful.named document (InsertionMap.mem_values_erase present)
  case opened =>
    by_cases same : other = uri
    · subst same
      simp [Session.didClose, Client.receiveAll, Client.receive, Client.text_setText_self]
    · have different := distinct.ne member known (Ne.symm same)
      simp only [Session.didClose, InsertionMap.find?_erase, different, if_false]
      rw [faithful.opened other known]
      exact congrArg _ (Client.text_setText_of_ne _ same none).symm
  case forgets =>
    simp only [Session.didClose, InsertionMap.find?_erase] at closed
    simp only [Session.didClose, Service.findings, Service.forget, InsertionMap.find?_erase]
    split
    · rfl
    · next different =>
        rw [if_neg different] at closed
        exact faithful.forgets file closed
  case fresh =>
    by_cases same : other = uri
    · subst same
      exact absurd (Client.shown_receive_self ..) shown
    · have textKept : ((client.setText uri none).receiveAll (session.didClose uri).published).text
          other = client.text other := Client.text_setText_of_ne _ same none
      have shownKept : ((client.setText uri none).receiveAll (session.didClose uri).published).shown
          other = client.shown other := Client.shown_receive_of_ne _ same
      rw [textKept] at opened
      rw [shownKept] at shown
      have different := distinct.ne member known (Ne.symm same)
      simp only [Session.didClose, Service.findings, Service.forget, InsertionMap.find?_erase,
        different, if_false] at indexed
      exact (faithful.fresh other known text index opened shown indexed).mono rfl fun _ => id

/-! ## Reloads -/

/-- A new service knows nothing, so that nothing it knows is stale. Settings that cannot be had
leave everything as it was. -/
theorem reload_faithful {stored : Session (List Exchange × σ)}
    (faithful : Faithful uris session client)
    (documents : stored.documents = session.documents) (service : stored.service = session.service)
    (world : stored.world = session.world) (environment : Environment σ) (complaint : String) :
    let kept := if (stored.currentSettings environment.files).toBool then
      stored.clearRecord else stored
    Faithful uris (kept.reload environment.recording complaint).session client := by
  cases current : stored.currentSettings environment.files with
  | error reason =>
      have unchanged : (stored.reload environment.recording complaint).session = stored := by
        rw [Session.reload, show environment.recording.files = environment.files from rfl, current]
      simp only [Except.toBool, Bool.false_eq_true, if_false, unchanged]
      obtain ⟨documentsOf, serviceOf, root, clientSettings, worldOf⟩ := stored
      obtain rfl := documents
      obtain rfl := service
      obtain rfl := world
      exact ⟨⟨faithful.named, faithful.opened⟩, faithful.forgets, faithful.fresh⟩
  | ok settings =>
      have renewed : stored.clearRecord.currentSettings environment.recording.files =
          .ok settings := current
      simp only [Except.toBool, if_true, Session.reload, renewed]
      refine ⟨⟨?_, ?_⟩, fun _ _ => rfl, fun _ _ _ _ _ _ indexed => nomatch indexed⟩
      · exact documents ▸ faithful.named
      · exact documents ▸ faithful.opened

/-! ## Turns -/

theorem turn_faithful (distinct : uris.InjOn Uri.fileName)
    {dialogue : Dialogue (List Exchange × σ)}
    (faithful : Faithful uris dialogue.session dialogue.client) (turn : Turn σ)
    (named : ∀ uri ∈ turn.message.documents, uri ∈ uris) :
    let later := dialogue.recordedTurn turn
    Faithful uris later.session later.client := by
  obtain ⟨environment, message⟩ := turn
  obtain ⟨session, client⟩ := dialogue
  simp only [Dialogue.recordedTurn, Dialogue.turn]
  cases reloads : session.reloading message with
  | some stored =>
      have sent : client.send message = client := by
        cases message <;> first | rfl | cases reloads
      have renews : session.renews environment.files message =
          (stored.currentSettings environment.files).toBool := by
        rw [Session.renews, reloads, Option.any_some]
      -- Whether the record is cleared depends on the message, and clearing it changes neither.
      have kept : (if (stored.currentSettings environment.files).toBool then
            session.clearRecord else session).reloading message =
          some (if (stored.currentSettings environment.files).toBool then
            stored.clearRecord else stored) := by
        split
        · rw [Session.reloading_clearRecord, reloads, Option.map_some]
        · exact reloads
      obtain ⟨documents, service, world⟩ := Session.reloading_keeps reloads
      obtain ⟨complaint, handled⟩ := Session.handle_reloading kept environment.recording
      have reloaded := reload_faithful faithful documents service world environment complaint
      rw [renews, sent]
      rcases handled with ⟨session_eq, published_eq⟩ | ⟨session_eq, published_eq⟩
      · rw [session_eq, published_eq]
        exact reloaded
      · rw [session_eq, published_eq]
        exact publishAll_faithful distinct environment reloaded
  | none =>
      have renews : session.renews environment.files message = false := by
        rw [Session.renews, reloads, Option.any_none]
      simp only [renews, Bool.false_eq_true, if_false]
      cases message with
      | start root options => cases reloads
      | started => exact faithful
      | didOpen uri version text =>
          exact setText_publish_faithful distinct faithful
            (named uri (List.mem_singleton_self uri)) environment version text
      | didChange uri version texts =>
          have member := named uri (List.mem_singleton_self uri)
          simp only [Session.handle, Session.didChange, Client.send]
          cases texts.getLast? with
          | none => exact publish_keeps_faithful distinct environment faithful member
          | some text =>
              exact setText_publish_faithful distinct faithful member environment version text
      | didSave uri =>
          have settings : Session.isSettingsFile uri = false := by
            simpa [Session.reloading] using reloads
          simp only [Session.handle, Session.didSave, settings, Bool.false_eq_true, if_false]
          exact publish_keeps_faithful distinct environment faithful
            (named uri (List.mem_singleton_self uri))
      | didClose uri =>
          exact didClose_faithful distinct faithful (named uri (List.mem_singleton_self uri))
      | didChangeConfiguration value => cases reloads
      | codeAction uri diagnostics => exact faithful

theorem fresh_faithful (uris : Set Uri) (environment : Environment σ) (world : σ) :
    let dialogue := Dialogue.fresh environment.recording ([], world)
    Faithful uris dialogue.session dialogue.client where
  named _ present := nomatch present
  opened _ _ := rfl
  forgets _ _ := rfl
  fresh _ _ _ _ opened := nomatch opened

theorem run_faithful (distinct : uris.InjOn Uri.fileName)
    {dialogue : Dialogue (List Exchange × σ)}
    (faithful : Faithful uris dialogue.session dialogue.client) (turns : List (Turn σ))
    (named : ∀ turn ∈ turns, ∀ uri ∈ turn.message.documents, uri ∈ uris) :
    let later := dialogue.recordedRun turns
    Faithful uris later.session later.client := by
  induction turns generalizing dialogue with
  | nil => exact faithful
  | cons turn rest ih =>
      obtain ⟨here, later⟩ := List.forall_mem_cons.mp named
      exact ih (turn_faithful distinct faithful turn here) later

end EditorLint.Server
