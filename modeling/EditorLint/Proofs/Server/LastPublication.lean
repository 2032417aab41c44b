import EditorLint.Proofs.Server.CodeAction
import EditorLint.Proofs.Server.Standing
import EditorLint.Proofs.Service.OwnDiagnostics

/-!
What an editor sees of its documents. The list that was published last for an open document is what
the service in use has to say about the text that the editor has written.
-/

namespace EditorLint

def lastAbout (record : List Exchange) (file : String) : Option Exchange :=
  (record.filter fun (call, _) => call.file = file).getLast?

theorem lastAbout_append (earlier later : List Exchange) (file : String) :
    lastAbout (earlier ++ later) file = (lastAbout later file).or (lastAbout earlier file) := by
  simp only [lastAbout, List.filter_append, List.getLast?_append]

namespace Service

variable {σ : Type}

/-- What a service says about a text when its linter gives an answer. -/
def verdict (service : Service) (file text : String) (answer : Except LintError Report) :
    List Diagnostic :=
  if service.settings.skipsFile file then []
  else
    match answer.bind (service.locateReport (.ofText file text) file) with
    | .ok located => located.map (·.2)
    | .error _ => []

def asks (service : Service) (file text : String) (answer : Except LintError Report) :
    List Exchange :=
  if service.settings.skipsFile file then [] else [(service.lintCall file text, answer)]

theorem diagnostics_eq_verdict {host : Host} {file text : String} (shows : host.Shows file text)
    (service : Service) (engine : Engine σ) (world : σ) :
    (service.semanticDiagnostics host engine file world).diagnostics =
      service.verdict file text (engine (service.lintCall file text) world).1 := by
  rw [semanticDiagnostics_eq_lint shows, verdict, Service.lint]
  split
  · rfl
  · cases engine (service.lintCall file text) world with
    | mk answer after =>
        cases answer with
        | error error => rfl
        | ok report =>
            simp only [Except.bind]
            cases service.locateReport (.ofText file text) file report <;> rfl

theorem semanticDiagnostics_record {host : Host} {file text : String} (shows : host.Shows file text)
    (service : Service) (engine : Engine σ) (world : List Exchange × σ) :
    (service.semanticDiagnostics host engine.recording file world).world.1 =
      world.1 ++ service.asks file text (engine (service.lintCall file text) world.2).1 := by
  obtain ⟨record, world⟩ := world
  rw [semanticDiagnostics_eq_lint shows, asks, lint_recording]
  split
  · exact (List.append_nil _).symm
  · cases (service.lint engine file text world).1 <;> rfl

end Service

namespace Server

variable {σ : Type}

/-! ## What is published -/

/-- What happens to a session when one of its files is linted or forgotten. -/
structure Asked (session later : Session (List Exchange × σ)) (file : String) : Prop where
  service_eq : later.service = { session.service with registry := later.service.registry }
  others : ∀ other, other ≠ file → lastAbout later.world.1 other = lastAbout session.world.1 other

/-- A publication says what the service in use says about a text, with the last answer of its
linter about the file. -/
def Tells (session : Session (List Exchange × σ)) (uri : Uri) (version : Int) (text : String)
    (publication : Publication) : Prop :=
  ∃ answer, (session.service.settings.skipsFile uri.fileName = false →
      lastAbout session.world.1 uri.fileName =
        some (session.service.lintCall uri.fileName text, answer)) ∧
    publication = {
      uri
      diagnostics := (session.service.verdict uri.fileName text answer).map
        (ShownDiagnostic.ofDiagnostic (.ofText text))
      version := some version }

/-- What was published last for a document is right for how it stands. -/
def Settled (session : Session (List Exchange × σ)) (uri : Uri) (last : Option Publication) :
    Standing → Prop
  | .unopened => last = none
  | .closed => last = some { uri, diagnostics := [] }
  | .opened version text =>
    ∃ publication, last = some publication ∧ Tells session uri version text publication

section

variable {session later : Session (List Exchange × σ)} {uri : Uri} {file : String}

theorem Asked.settings_eq (asked : Asked session later file) :
    later.service.settings = session.service.settings := by
  rw [asked.service_eq]

theorem Asked.lintCall_eq (asked : Asked session later file) :
    later.service.lintCall = session.service.lintCall := by
  rw [asked.service_eq]
  rfl

theorem Asked.verdict_eq (asked : Asked session later file) :
    later.service.verdict = session.service.verdict := by
  rw [asked.service_eq]
  rfl

theorem Asked.tells_iff (asked : Asked session later file) (different : uri.fileName ≠ file)
    {version : Int} {text : String} {publication : Publication} :
    Tells later uri version text publication ↔ Tells session uri version text publication := by
  simp only [Tells, asked.settings_eq, asked.lintCall_eq, asked.verdict_eq,
    asked.others _ different]

theorem Asked.settled (asked : Asked session later file) (different : uri.fileName ≠ file)
    {last : Option Publication} {standing : Standing}
    (settled : Settled session uri last standing) : Settled later uri last standing := by
  cases standing with
  | unopened => exact settled
  | closed => exact settled
  | opened version text =>
      obtain ⟨publication, same, tells⟩ := settled
      exact ⟨publication, same, (asked.tells_iff different).mpr tells⟩

theorem publish_tells {version : Int} {text : String}
    (opened : session.documents.find? uri.fileName = some ⟨uri, version, .ofText text⟩)
    (environment : Environment σ) :
    let step := session.publish environment.recording uri
    Asked session step.session uri.fileName ∧
      ∃ publication, step.published = [publication] ∧
        Tells step.session uri version text publication := by
  have shows : session.host.Shows uri.fileName text :=
    Host.ofDocuments_shows (by rw [opened, Option.map_some])
  let engine := environment.linter session.service.settings
  let answer := (engine (session.service.lintCall uri.fileName text) session.world.2).1
  let pass := session.service.semanticDiagnostics session.host engine.recording uri.fileName
    session.world
  have said : pass.diagnostics = session.service.verdict uri.fileName text answer :=
    Service.diagnostics_eq_verdict shows session.service engine.recording session.world
  have record : pass.world.1 =
      session.world.1 ++ session.service.asks uri.fileName text answer :=
    Service.semanticDiagnostics_record shows session.service engine session.world
  have published : session.publish environment.recording uri =
      { session := { session with service := pass.service, world := pass.world }
        published := [{
          uri
          diagnostics := pass.diagnostics.map (ShownDiagnostic.ofDiagnostic (.ofText text))
          version := some version }]
        logs := pass.logs } := by
    simp only [Session.publish, opened]
    rfl
  have elsewhere (other : String) (different : other ≠ uri.fileName) :
      lastAbout (session.service.asks uri.fileName text answer) other = none := by
    unfold Service.asks
    split <;> simp [lastAbout, Service.lintCall, different.symm]
  rw [published]
  have asked : Asked session { session with service := pass.service, world := pass.world }
      uri.fileName := by
    refine ⟨Service.semanticDiagnostics_service .., fun other different => ?_⟩
    rw [record, lastAbout_append, elsewhere other different, Option.none_or]
  refine ⟨asked, _, rfl, answer, fun considered => ?_, ?_⟩
  · rw [asked.settings_eq] at considered
    rw [asked.lintCall_eq, record, lastAbout_append, Service.asks, considered]
    simp [lastAbout, Service.lintCall]
  · rw [asked.verdict_eq, said]

theorem Tells.uri_eq {version : Int} {text : String} {publication : Publication}
    (tells : Tells session uri version text publication) : publication.uri = uri := by
  obtain ⟨-, -, rfl⟩ := tells
  rfl

end

/-- What holds after each message. -/
structure Reported (uris : Set Uri) (standings : Uri → Standing)
    (session : Session (List Exchange × σ)) (published : List Publication) : Prop
    extends Documented uris session.documents standings where
  settled : ∀ uri ∈ uris, Settled session uri (lastPublished published uri) (standings uri)

section

variable {uris : Set Uri} {standings : Uri → Standing} {session : Session (List Exchange × σ)}
  {published : List Publication} {uri : Uri}

/-- Publishing an open document settles it, and leaves settled what was. -/
theorem publish_settles (injective : uris.InjOn Uri.fileName)
    (documented : Documented uris session.documents standings) (member : uri ∈ uris)
    (opened : (standings uri).isOpen) (environment : Environment σ) {other : Uri}
    (known : other ∈ uris) (settled : other ≠ uri →
      Settled session other (lastPublished published other) (standings other)) :
    let step := session.publish environment.recording uri
    Settled step.session other (lastPublished (published ++ step.published) other)
      (standings other) := by
  intro step
  have found := documented.stands uri member
  cases stands : standings uri with
  | unopened => simp [stands, Standing.isOpen] at opened
  | closed => simp [stands, Standing.isOpen] at opened
  | opened version text =>
      rw [stands] at found
      obtain ⟨asked, publication, published_eq, tells⟩ := publish_tells found environment
      have uri_eq := tells.uri_eq
      rw [lastPublished_append, show step.published = _ from published_eq]
      by_cases same : other = uri
      · subst same
        have last : lastPublished [publication] other = some publication := by
          rw [← uri_eq]
          exact lastPublished_singleton_self publication
        rw [last, Option.some_or, stands]
        exact ⟨publication, rfl, tells⟩
      · have elsewhere : lastPublished [publication] other = none :=
          lastPublished_singleton_of_ne (uri_eq.trans_ne (Ne.symm same))
        rw [elsewhere, Option.none_or]
        exact asked.settled (injective.ne known member same) (settled same)

theorem publish_reported (injective : uris.InjOn Uri.fileName)
    (documented : Documented uris session.documents standings) (member : uri ∈ uris)
    (opened : (standings uri).isOpen) (environment : Environment σ)
    (settled : ∀ other ∈ uris, other ≠ uri →
      Settled session other (lastPublished published other) (standings other)) :
    let step := session.publish environment.recording uri
    Reported uris standings step.session (published ++ step.published) :=
  ⟨by rwa [Session.publish_documents], fun other known =>
    publish_settles injective documented member opened environment known (settled other known)⟩

theorem publish_keeps_reported (injective : uris.InjOn Uri.fileName)
    (reported : Reported uris standings session published) (member : uri ∈ uris)
    (environment : Environment σ) :
    let step := session.publish environment.recording uri
    Reported uris standings step.session (published ++ step.published) := by
  by_cases opened : (standings uri).isOpen
  · exact publish_reported injective reported.toDocumented member opened environment
      fun other known _ => reported.settled other known
  · have absent : session.documents.find? uri.fileName = none := by
      rw [reported.stands uri member]
      cases stands : standings uri with
      | unopened => rfl
      | closed => rfl
      | opened version text => simp [stands, Standing.isOpen] at opened
    rw [publish_closed absent]
    simpa using reported

/-- What holds while everything is published. What is pending need not be settled yet. -/
structure Publishing (uris : Set Uri) (standings : Uri → Standing) (published : List Publication)
    (pending : List Document) (step : Step (List Exchange × σ)) : Prop
    extends Documented uris step.session.documents standings where
  opened : ∀ document ∈ pending, document.uri ∈ uris ∧ (standings document.uri).isOpen
  settled : ∀ uri ∈ uris, uri ∉ pending.map (·.uri) → Settled step.session uri
    (lastPublished (published ++ step.published) uri) (standings uri)

theorem Publishing.next (injective : uris.InjOn Uri.fileName) {document : Document}
    {rest : List Document} {step : Step (List Exchange × σ)}
    (publishing : Publishing uris standings published (document :: rest) step)
    (environment : Environment σ) :
    Publishing uris standings published rest
      (step.andThen (·.publish environment.recording document.uri)) := by
  obtain ⟨⟨member, isOpen⟩, later⟩ := List.forall_mem_cons.mp publishing.opened
  refine ⟨?_, later, fun uri known ready => ?_⟩
  · exact (Session.publish_documents ..).symm ▸ publishing.toDocumented
  · simp only [Step.andThen, ← List.append_assoc]
    refine publish_settles injective publishing.toDocumented member isOpen environment known
      fun different => publishing.settled uri known ?_
    simpa [different] using ready

/-- Whatever was published for them before, publishing everything settles the open documents. -/
theorem publishAll_reported (injective : uris.InjOn Uri.fileName)
    (documented : Documented uris session.documents standings) (environment : Environment σ)
    (settled : ∀ uri ∈ uris, (standings uri).isOpen = false →
      Settled session uri (lastPublished published uri) (standings uri)) :
    let step := session.publishAll environment.recording
    Reported uris standings step.session (published ++ step.published) := by
  have finished : Publishing uris standings published []
      (session.publishAll environment.recording) := by
    apply Session.publishAll_pending
    · refine ⟨documented, fun document listed =>
        ⟨documented.named document listed, documented.isOpen listed⟩, fun uri known ready => ?_⟩
      refine (List.append_nil published).symm ▸ settled uri known ?_
      simpa [documented.mem_uris_iff known] using ready
    · intro document rest step publishing
      exact publishing.next injective environment
  exact ⟨finished.toDocumented, fun uri known => finished.settled uri known List.not_mem_nil⟩

/-! ## Messages -/

theorem publish_uris {session : Session σ} {uri : Uri} {document : Document}
    (found : session.documents.find? uri.fileName = some document) (environment : Environment σ) :
    (session.publish environment uri).published.map (·.uri) = [uri] := by
  simp only [Session.publish, found, List.map_cons, List.map_nil]

theorem publishAll_uris {session : Session σ} (environment : Environment σ)
    (opened : ∀ document ∈ session.documents.values,
      session.documents.find? document.uri.fileName = some document) :
    (session.publishAll environment).published.map (·.uri) =
      session.documents.values.map (·.uri) := by
  have finished : (∀ document ∈ ([] : List Document),
      (session.publishAll environment).session.documents.find? document.uri.fileName =
        some document) ∧
      (session.publishAll environment).published.map (·.uri) ++ [] =
        session.documents.values.map (·.uri) := by
    apply Session.publishAll_pending (motive := fun pending step =>
      (∀ document ∈ pending,
        step.session.documents.find? document.uri.fileName = some document) ∧
      step.published.map (·.uri) ++ pending.map (·.uri) = session.documents.values.map (·.uri))
    · exact ⟨opened, rfl⟩
    · rintro document rest step ⟨opened, uris_eq⟩
      obtain ⟨here, later⟩ := List.forall_mem_cons.mp opened
      refine ⟨by simpa only [Step.andThen, Session.publish_documents] using later, ?_⟩
      rw [← uris_eq]
      simp only [Step.andThen, List.map_append, publish_uris here, List.map_cons,
        List.append_assoc, List.singleton_append]
  exact (List.append_nil _).symm.trans finished.2

theorem settled_of_not_isOpen {session later : Session (List Exchange × σ)} {uri : Uri}
    {last : Option Publication} {standing : Standing} (closed : standing.isOpen = false)
    (settled : Settled session uri last standing) : Settled later uri last standing := by
  cases standing with
  | unopened => exact settled
  | closed => exact settled
  | opened version text => cases closed

/-- A message that publishes everything anew need only find settled what is not open. -/
theorem refresh_reported (injective : uris.InjOn Uri.fileName)
    (documented : Documented uris session.documents standings) (environment : Environment σ)
    {message : Message} (refreshes : message.refreshes)
    (settled : ∀ uri ∈ uris, (standings uri).isOpen = false →
      Settled session uri (lastPublished published uri) (standings uri)) :
    let step := (session.handle environment.recording message).1
    Reported uris (message.standings standings) step.session (published ++ step.published) := by
  obtain ⟨stored, reloads⟩ := Session.exists_reloading refreshes session
  have same : message.standings standings = standings := by
    cases message <;> first | rfl | cases refreshes
  have handled := Session.handle_reloading_eq reloads environment.recording
  simp only [refreshes, if_true] at handled
  intro step
  rw [same, show step.session = _ from handled.1, show step.published = _ from handled.2]
  refine publishAll_reported injective ?_ environment fun uri known closed =>
    settled_of_not_isOpen closed (settled uri known closed)
  rw [Session.reload_documents, (Session.reloading_keeps reloads).1]
  exact documented

theorem setText_reported (injective : uris.InjOn Uri.fileName)
    (reported : Reported uris standings session published) (member : uri ∈ uris)
    (environment : Environment σ) (version : Int) (text : String) :
    let step := (session.setText uri version text).publish environment.recording uri
    Reported uris (Function.update standings uri (.opened version text)) step.session
      (published ++ step.published) := by
  refine publish_reported injective
    (insert_documented injective reported.toDocumented member version text) member
    (by simp [Standing.isOpen]) environment fun other known different => ?_
  rw [Function.update_of_ne different]
  exact reported.settled other known

theorem didClose_reported (injective : uris.InjOn Uri.fileName)
    (reported : Reported uris standings session published) (member : uri ∈ uris) :
    let step := session.didClose uri
    Reported uris (Function.update standings uri .closed) step.session
      (published ++ step.published) := by
  have asked : Asked session (session.didClose uri).session uri.fileName :=
    ⟨rfl, fun _ _ => rfl⟩
  refine ⟨erase_documented injective reported.toDocumented member, fun other known => ?_⟩
  simp only [Session.didClose, lastPublished_append]
  by_cases same : other = uri
  · subst same
    rw [lastPublished_singleton_self ⟨other, [], none⟩, Function.update_self]
    rfl
  · rw [lastPublished_singleton_of_ne (Ne.symm same), Function.update_of_ne same]
    exact asked.settled (injective.ne known member same) (reported.settled other known)

theorem handle_reported (injective : uris.InjOn Uri.fileName)
    (reported : Reported uris standings session published) (environment : Environment σ)
    {message : Message} (named : ∀ uri ∈ message.documents, uri ∈ uris)
    (goesOn : ∀ root options, message ≠ .start root options) :
    let step := (session.handle environment.recording message).1
    Reported uris (message.standings standings) step.session (published ++ step.published) := by
  by_cases refreshes : message.refreshes
  · exact refresh_reported injective reported.toDocumented environment refreshes
      fun uri known _ => reported.settled uri known
  have unchanged : Reported uris standings session (published ++ []) :=
    (List.append_nil published).symm ▸ reported
  cases message with
  | start root options => exact absurd rfl (goesOn root options)
  | started => exact unchanged
  | codeAction uri diagnostics => exact unchanged
  | didOpen uri version text =>
      exact setText_reported injective reported (named uri (List.mem_singleton_self uri))
        environment version text
  | didChange uri version texts =>
      have member := named uri (List.mem_singleton_self uri)
      simp only [Session.handle, Session.didChange, Message.standings]
      cases texts.getLast? with
      | none => exact publish_keeps_reported injective reported member environment
      | some text => exact setText_reported injective reported member environment version text
  | didSave uri =>
      have ordinary : ¬ Session.isSettingsFile uri := refreshes
      simp only [Session.handle, Session.didSave, ordinary, Bool.false_eq_true, if_false]
      exact publish_keeps_reported injective reported (named uri (List.mem_singleton_self uri))
        environment
  | didClose uri =>
      exact didClose_reported injective reported (named uri (List.mem_singleton_self uri))
  | didChangeConfiguration value => exact absurd rfl refreshes

/-! ## Turns -/

theorem turn_reported (injective : uris.InjOn Uri.fileName)
    {dialogue : Dialogue (List Exchange × σ)}
    (reported : Reported uris standings dialogue.session published) (turn : Turn σ)
    (named : ∀ uri ∈ turn.message.documents, uri ∈ uris)
    (goesOn : ∀ root options, turn.message ≠ .start root options) :
    Reported uris (turn.message.standings standings) (dialogue.recordedTurn turn).session
      (published ++ (dialogue.unrecorded.session.handle turn.environment
        turn.message).1.published) := by
  let entered := if dialogue.session.renews turn.environment.files turn.message then
    dialogue.session.clearRecord else dialogue.session
  have published_eq : (dialogue.unrecorded.session.handle turn.environment
      turn.message).1.published =
        (entered.handle turn.environment.recording turn.message).1.published := by
    have cleared : entered.unrecorded = dialogue.session.unrecorded := by
      simp only [entered]
      split <;> rfl
    have handled := Session.handle_unrecorded entered turn.environment turn.message
    rw [cleared] at handled
    exact congrArg Step.published handled.symm
  rw [published_eq]
  show Reported uris _ (entered.handle turn.environment.recording turn.message).1.session _
  by_cases refreshes : turn.message.refreshes
  · have documents : entered.documents = dialogue.session.documents := by
      simp only [entered]
      split <;> rfl
    exact refresh_reported injective (documents ▸ reported.toDocumented) turn.environment refreshes
      fun uri known closed => settled_of_not_isOpen closed (reported.settled uri known)
  · have stays := Session.reloading_eq_none refreshes goesOn dialogue.session
    have same : entered = dialogue.session := by
      simp only [entered, Session.renews, stays, Option.any_none, Bool.false_eq_true, if_false]
    rw [same]
    exact handle_reported injective reported turn.environment named goesOn

theorem run_reported (injective : uris.InjOn Uri.fileName)
    {dialogue : Dialogue (List Exchange × σ)}
    (reported : Reported uris standings dialogue.session published) (turns : List (Turn σ))
    (named : ∀ turn ∈ turns, ∀ uri ∈ turn.message.documents, uri ∈ uris)
    (goesOn : ∀ turn ∈ turns, ∀ root options, turn.message ≠ .start root options) :
    Reported uris (turns.foldl (fun standings turn => turn.message.standings standings) standings)
      (dialogue.recordedRun turns).session
      (published ++ dialogue.unrecorded.published turns) := by
  induction turns generalizing dialogue standings published with
  | nil => exact (List.append_nil published).symm ▸ reported
  | cons turn rest ih =>
      obtain ⟨here, laterNamed⟩ := List.forall_mem_cons.mp named
      obtain ⟨hereGoesOn, laterGoesOn⟩ := List.forall_mem_cons.mp goesOn
      have later :=
        ih (turn_reported injective reported turn here hereGoesOn) laterNamed laterGoesOn
      rw [Dialogue.recordedTurn_unrecorded, List.append_assoc] at later
      exact later

theorem start_reported (uris : Set Uri) (environment : Environment σ) (world : σ)
    (opening : Environment σ) (root : Option Uri) (options : Option Json.Value) :
    let turn : Turn σ := ⟨opening, .start root options⟩
    let fresh := Dialogue.fresh environment.recording ([], world)
    Reported uris (fun _ => .unopened) (fresh.recordedTurn turn).session
      (fresh.unrecorded.session.handle opening turn.message).1.published := by
  intro turn fresh
  have reloads : fresh.unrecorded.session.reloading turn.message = some _ := rfl
  have silent : (fresh.unrecorded.session.handle opening turn.message).1.published = [] :=
    (Session.handle_reloading_eq reloads opening).2
  have documents : (fresh.recordedTurn turn).session.documents = {} := by
    simp only [Dialogue.recordedTurn, Dialogue.turn, Session.handle_spec]
    split <;> rfl
  rw [silent]
  refine ⟨?_, fun _ _ => rfl⟩
  rw [documents]
  exact ⟨.nil, List.forall_mem_nil _, List.forall_mem_nil _, fun _ _ => rfl⟩

/-! ## What the service says -/

theorem verdict_of_skips {service : Service} {file : String}
    (skips : service.settings.skipsFile file) (text : String) (answer : Except LintError Report) :
    service.verdict file text answer = [] := if_pos skips

theorem verdict_of_not_accepts {service : Service} {host : Host} {file text : String}
    (shows : host.Shows file text) {answer : Except LintError Report}
    (refused : ¬ service.Accepts host file fun _ => answer) :
    service.verdict file text answer = [] := by
  by_cases skips : service.settings.skipsFile file
  · exact verdict_of_skips skips text answer
  have tries : service.Tries host file :=
    ⟨fun suppresses => suppresses.2 shows.quiet, by simpa using skips⟩
  have said := Service.diagnostics_eq_verdict shows service (Engine.constant fun _ => answer) ()
  rcases service.exists_lints_or_failsWith host file (fun _ => answer) with lints | ⟨error, fails⟩
  · exact absurd (Service.exists_lints_iff.mp lints) refused
  · have failed : (service.semanticDiagnostics host (Engine.constant fun _ => answer) file
        ()).diagnostics = host.semanticDiagnostics file := by
      rw [Service.semanticDiagnostics_of_failsWith tries fails]
    exact said.symm.trans (failed.trans shows.quiet)

theorem countP_publishAll {session : Session σ} {uris : Set Uri} {standings : Uri → Standing}
    (documented : Documented uris session.documents standings) (environment : Environment σ)
    {uri : Uri} (member : uri ∈ uris) :
    (session.publishAll environment).published.countP (·.uri = uri) =
      if (standings uri).isOpen then 1 else 0 := by
  have counted : (session.publishAll environment).published.countP (·.uri = uri) =
      ((session.publishAll environment).published.map (·.uri)).count uri := by
    rw [List.count, List.countP_map]
    rfl
  rw [counted, publishAll_uris environment fun document => documented.find?_uri,
    documented.nodup_uris.count]
  exact if_congr (documented.mem_uris_iff member) rfl rfl

/-- As long as a session goes on, an editor sees what the service in use says about the texts that
it has written. -/
theorem published_is_last_verdict {uris : Set Uri} (injective : uris.InjOn Uri.fileName)
    (environment : Environment σ) (world : σ) (opening : Environment σ) (root : Option Uri)
    (options : Option Json.Value) (later : List (Turn σ))
    (named : ∀ turn ∈ later, ∀ uri ∈ turn.message.documents, uri ∈ uris)
    (goesOn : ∀ turn ∈ later, ∀ root options, turn.message ≠ .start root options) :
    let turns := ⟨opening, .start root options⟩ :: later
    let session := ((Dialogue.fresh environment world).run turns).session
    let published := (Dialogue.fresh environment world).published turns
    let record := Dialogue.record environment world turns
    (∀ uri ∈ uris, match standingsAfter turns uri with
      | .unopened => lastPublished published uri = none
      | .closed => lastPublished published uri = some { uri, diagnostics := [] }
      | .opened version text =>
        let file := uri.fileName
        ∃ answer shown, lastPublished published uri = some ⟨uri, shown, some version⟩ ∧
          shown = (session.service.semanticDiagnostics session.host
            (Engine.constant fun _ => answer) file ()).diagnostics.map
              (ShownDiagnostic.ofDiagnostic (.ofText text)) ∧
          if session.service.settings.skipsFile file then shown = []
          else
            lastAbout record file = some (session.service.lintCall file text, answer) ∧
              (¬ session.service.Accepts session.host file (fun _ => answer) → shown = [])) ∧
    ∀ environment message, message.refreshes → ∀ uri ∈ uris,
      (session.handle environment message).1.published.countP (·.uri = uri) =
        if (standingsAfter turns uri).isOpen then 1 else 0 := by
  intro turns session published record
  let fresh := Dialogue.fresh environment.recording ([], world)
  let recorded := (fresh.recordedRun turns).session
  have reported : Reported uris (standingsAfter turns) recorded published := by
    have started := start_reported uris environment world opening root options
    have run := run_reported injective started later named goesOn
    rw [Dialogue.recordedTurn_unrecorded] at run
    exact run
  have session_eq : session = recorded.unrecorded :=
    congrArg Dialogue.session (Dialogue.recordedRun_unrecorded fresh turns).symm
  have documented : Documented uris session.documents (standingsAfter turns) :=
    session_eq ▸ reported.toDocumented
  refine ⟨fun uri member => ?_, fun environment message refreshes uri member => ?_⟩
  · have settled := reported.settled uri member
    have found := documented.stands uri member
    cases stands : standingsAfter turns uri with
    | unopened =>
        rw [stands] at settled
        exact settled
    | closed =>
        rw [stands] at settled
        exact settled
    | opened version text =>
        rw [stands] at settled found
        obtain ⟨-, last, answer, asked, rfl⟩ := settled
        have shows : session.host.Shows uri.fileName text :=
          Host.ofDocuments_shows (by rw [found]; rfl)
        have said := Service.diagnostics_eq_verdict shows session.service
          (Engine.constant fun _ => answer) ()
        have service_eq : recorded.service = session.service := by rw [session_eq]; rfl
        rw [service_eq] at last asked
        refine ⟨answer, _, last, by rw [said]; rfl, ?_⟩
        split
        · next skips => rw [verdict_of_skips skips, List.map_nil]
        · next considered =>
            refine ⟨asked (by simpa using considered), fun refused => ?_⟩
            rw [verdict_of_not_accepts shows refused, List.map_nil]
  · obtain ⟨stored, reloads⟩ := Session.exists_reloading refreshes session
    have handled := Session.handle_reloading_eq reloads environment
    simp only [refreshes, if_true] at handled
    rw [handled.2]
    refine countP_publishAll ?_ environment member
    rw [Session.reload_documents, (Session.reloading_keeps reloads).1]
    exact documented

def otherUri : Uri := { scheme := "untitled", path := "b" }

/-- The linter finds something when it is asked for the third time. -/
def lateAnswers : List (Except LintError Report) :=
  [.ok { results := [{}] }, .ok { results := [{}] }, .ok semicolonReport]

def lateTurns : List (Turn (List (Except LintError Report))) :=
  [⟨semicolonEnvironment, .didOpen semicolonUri 1 ""⟩,
    ⟨semicolonEnvironment, .didChange semicolonUri 2 ["var a", "var a = 1\n"]⟩,
    ⟨semicolonEnvironment, .didClose otherUri⟩,
    ⟨semicolonEnvironment, .didChangeConfiguration .null⟩]

theorem published_is_last_verdict_two_documents :
    let fresh := Dialogue.fresh semicolonEnvironment lateAnswers
    let turns := ⟨semicolonEnvironment, .start none none⟩ :: lateTurns
    let session := (fresh.run turns).session
    let published := fresh.published turns
    Set.InjOn Uri.fileName {semicolonUri, otherUri} ∧
      standingsAfter turns semicolonUri = .opened 2 "var a = 1\n" ∧
      standingsAfter turns otherUri = .closed ∧
      lastPublished published otherUri = some { uri := otherUri, diagnostics := [] } ∧
      ∃ answer shown, lastPublished published semicolonUri = some ⟨semicolonUri, shown, some 2⟩ ∧
        shown = (session.service.semanticDiagnostics session.host
          (Engine.constant fun _ => answer) semicolonUri.fileName ()).diagnostics.map
            (ShownDiagnostic.ofDiagnostic (.ofText "var a = 1\n")) ∧
        shown.map (·.message) = ["Missing semicolon. (semi)"] := by
  have injective : Set.InjOn Uri.fileName {semicolonUri, otherUri} := by
    have different : semicolonUri.fileName ≠ otherUri.fileName := by
      have first : semicolonUri.fileName = "untitled:a" := by cbv
      have second : otherUri.fileName = "untitled:b" := by cbv
      rw [first, second]
      decide
    rintro uri (rfl | rfl) other (rfl | rfl) same
    · rfl
    · exact absurd same different
    · exact absurd same.symm different
    · rfl
  have opened : standingsAfter (⟨semicolonEnvironment, .start none none⟩ :: lateTurns)
      semicolonUri = .opened 2 "var a = 1\n" := by cbv
  have closed : standingsAfter (⟨semicolonEnvironment, .start none none⟩ :: lateTurns)
      otherUri = .closed := by cbv
  have messages : (lastPublished ((Dialogue.fresh semicolonEnvironment lateAnswers).published
      (⟨semicolonEnvironment, .start none none⟩ :: lateTurns)) semicolonUri).map
        (fun publication => publication.diagnostics.map (·.message)) =
          some ["Missing semicolon. (semi)"] := by cbv
  obtain ⟨each, -⟩ := published_is_last_verdict injective semicolonEnvironment lateAnswers
    semicolonEnvironment none none lateTurns (by simp [lateTurns, Message.documents])
    (by simp [lateTurns])
  have atFirst := each semicolonUri (by simp)
  have atOther := each otherUri (by simp)
  simp only [opened] at atFirst
  simp only [closed] at atOther
  obtain ⟨answer, shown, last, said, -⟩ := atFirst
  rw [last] at messages
  exact ⟨injective, opened, closed, atOther, answer, shown, last, said, Option.some.inj messages⟩

end

end Server

end EditorLint
