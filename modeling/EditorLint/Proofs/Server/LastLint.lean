import EditorLint.Proofs.Server.Publication

/-!
What the service knows of an open document is what the last lint of its text has found, if that
lint has succeeded. A new text is linted at once, so that nothing is known of it before.
-/

namespace EditorLint

/-- The last exchange about a text of a file. -/
def lastExchange (record : List Exchange) (file text : String) : Option Exchange :=
  (record.filter fun (call, _) => call.file = file ∧ call.text = text).getLast?

theorem lastExchange_concat (record : List Exchange) (exchange : Exchange) (file text : String) :
    lastExchange (record ++ [exchange]) file text =
      if exchange.1.file = file ∧ exchange.1.text = text then some exchange
      else lastExchange record file text := by
  simp only [lastExchange, List.filter_append, List.getLast?_append]
  by_cases about : exchange.1.file = file ∧ exchange.1.text = text <;> simp [about]

theorem mem_of_lastExchange {record : List Exchange} {file text : String} {exchange : Exchange}
    (last : lastExchange record file text = some exchange) :
    exchange ∈ record ∧ exchange.1.file = file ∧ exchange.1.text = text := by
  simpa using List.mem_filter.mp (List.mem_of_getLast? last)

theorem Service.lint_of_exchange {σ : Type} {service : Service} {engine : Engine σ}
    {file text : String} {world : σ} {lint : Lint} (locates : service.Locates file lint)
    (asked : (service.lintCall file text, (engine (service.lintCall file text) world).1) =
      service.exchange file lint) :
    (service.lint engine file text world).1 = .ok lint := by
  obtain ⟨call, answer⟩ := Prod.mk.inj asked
  obtain rfl : text = lint.text := congrArg LintCall.text call
  simp only [Service.lint, answer, Except.bind]
  rw [locates, Except.map]

namespace Server

variable {σ : Type}

/-- If the last lint of a text has succeeded, its findings are the ones that are known. -/
def KnowsLast (session : Session (List Exchange × σ)) (file text : String) : Prop :=
  ∀ lint, lastExchange session.world.1 file text = some (session.service.exchange file lint) →
    session.service.Locates file lint → session.service.findings file = some lint.index

/-- The linter is never asked about files that are skipped. -/
def PassesOver (session : Session (List Exchange × σ)) : Prop :=
  ∀ exchange ∈ session.world.1, ¬ session.service.settings.skipsFile exchange.1.file

/-- What holds after each message. -/
structure UpToDate (session : Session (List Exchange × σ)) : Prop where
  tabled : Tabled session.documents
  passesOver : PassesOver session
  known : ∀ file document, session.documents.find? file = some document →
    KnowsLast session file document.lines.text

/-! ## Publishing -/

section

variable {session : Session (List Exchange × σ)} {uri : Uri}

theorem Linted.exchange_eq {later : Session (List Exchange × σ)} {file : String}
    (linted : Linted session later file) : later.service.exchange = session.service.exchange := by
  rw [linted.service_eq]
  rfl

theorem Linted.locates_eq {later : Session (List Exchange × σ)} {file : String}
    (linted : Linted session later file) : later.service.Locates = session.service.Locates := by
  rw [linted.service_eq]
  rfl

theorem upToDate_of_linted {later : Session (List Exchange × σ)} {document : Document}
    {answer : Except LintError Report} (tabled : Tabled session.documents)
    (passesOver : PassesOver session)
    (known : ∀ file document, file ≠ uri.fileName → session.documents.find? file = some document →
      KnowsLast session file document.lines.text)
    (considered : ¬ session.service.settings.skipsFile uri.fileName)
    (found : session.documents.find? uri.fileName = some document)
    (linted : Linted session later uri.fileName)
    (record : later.world.1 = session.world.1 ++
      [(session.service.lintCall uri.fileName document.lines.text, answer)])
    (here : ∀ lint, (session.service.lintCall uri.fileName document.lines.text, answer) =
        session.service.exchange uri.fileName lint →
      session.service.Locates uri.fileName lint →
        later.service.findings uri.fileName = some lint.index) :
    UpToDate later where
  tabled := linted.documents_eq ▸ tabled
  passesOver := by
    have settings : later.service.settings = session.service.settings := by rw [linted.service_eq]
    rw [PassesOver, record, settings]
    exact List.forall_mem_append.mpr ⟨passesOver, List.forall_mem_singleton.mpr considered⟩
  known file other opened lint last locates := by
    rw [record, lastExchange_concat, linted.exchange_eq] at last
    rw [linted.documents_eq] at opened
    rw [linted.locates_eq] at locates
    by_cases same : file = uri.fileName
    · subst same
      obtain rfl := Option.some.inj (found.symm.trans opened)
      rw [if_pos ⟨rfl, rfl⟩] at last
      exact here lint (Option.some.inj last) locates
    · rw [if_neg fun about => same about.1.symm] at last
      rw [linted.others file same]
      exact known file other same opened lint last locates

/-- Whatever was known of a document before, publishing brings it up to date. -/
theorem publish_upToDate (environment : Environment σ) (tabled : Tabled session.documents)
    (passesOver : PassesOver session)
    (known : ∀ file document, file ≠ uri.fileName → session.documents.find? file = some document →
      KnowsLast session file document.lines.text) :
    UpToDate (session.publish environment.recording uri).session := by
  cases found : session.documents.find? uri.fileName with
  | none =>
      rw [publish_closed found]
      refine ⟨tabled, passesOver, fun file document opened => known file document ?_ opened⟩
      rintro rfl
      rw [found] at opened
      cases opened
  | some document =>
      rw [publish_eq found (tabled _ document found)]
      split
      · next skipped =>
          refine ⟨tabled, passesOver, fun file other opened lint last => ?_⟩
          by_cases same : file = uri.fileName
          · subst same
            obtain ⟨member, about, -⟩ := mem_of_lastExchange last
            exact absurd (about ▸ skipped) (passesOver _ member)
          · exact known file other same opened lint last
      · next considered =>
          have recorded := Service.lint_recording session.service
            (environment.linter session.service.settings) uri.fileName document.lines.text
            session.world.1 session.world.2
          have remembered {lint : Lint} := @Service.lint_of_exchange σ session.service
            (environment.linter session.service.settings) uri.fileName document.lines.text
            session.world.2 lint
          simp only [Environment.recording]
          rw [recorded]
          cases outcome : (session.service.lint (environment.linter session.service.settings)
              uri.fileName document.lines.text session.world.2).1 with
          | error error =>
              refine upToDate_of_linted tabled passesOver known considered found
                ⟨rfl, rfl, fun _ _ => rfl, fun _ => List.mem_append_left _⟩ rfl ?_
              intro lint asked locates
              rw [outcome] at remembered
              cases remembered locates asked
          | ok lint =>
              refine upToDate_of_linted tabled passesOver known considered found
                ⟨rfl, rfl, fun other different => ?_, fun _ => List.mem_append_left _⟩ rfl ?_
              · exact Service.findings_remember_of_ne _ _ different.symm
              · intro known asked locates
                rw [outcome] at remembered
                rw [Except.ok.inj (remembered locates asked)]
                exact Service.findings_remember ..

theorem publishAll_upToDate (environment : Environment σ) (upToDate : UpToDate session) :
    UpToDate (session.publishAll environment.recording).session := by
  apply Session.publishAll_induction (motive := fun step => UpToDate step.session) upToDate
  intro step uri before
  exact publish_upToDate environment before.tabled before.passesOver
    fun file document _ => before.known file document

/-! ## Opening, changing and closing -/

theorem setText_publish_upToDate (environment : Environment σ) (upToDate : UpToDate session)
    (version : Int) (text : String) :
    UpToDate ((session.setText uri version text).publish environment.recording uri).session := by
  have passesOver : PassesOver (session.setText uri version text) := upToDate.passesOver
  apply publish_upToDate environment (insert_tabled upToDate.tabled uri version text) passesOver
  intro file document different opened
  rw [Session.setText, InsertionMap.find?_insert_of_ne _ _ different.symm] at opened
  exact upToDate.known file document opened

theorem didClose_upToDate (upToDate : UpToDate session) :
    UpToDate (session.didClose uri).session := by
  refine ⟨erase_tabled upToDate.tabled _, upToDate.passesOver, ?_⟩
  intro file document opened lint last locates
  simp only [Session.didClose, InsertionMap.find?_erase] at opened
  split at opened
  · cases opened
  · next different =>
      simp only [Session.didClose, Service.findings, Service.forget, InsertionMap.find?_erase,
        different, if_false]
      exact upToDate.known file document opened lint last locates

/-! ## Reloads -/

theorem reload_upToDate {stored : Session (List Exchange × σ)} (upToDate : UpToDate session)
    (documents : stored.documents = session.documents) (service : stored.service = session.service)
    (world : stored.world = session.world) (environment : Environment σ) (complaint : String) :
    let kept := if (stored.currentSettings environment.files).toBool then
      stored.clearRecord else stored
    UpToDate (kept.reload environment.recording complaint).session := by
  cases current : stored.currentSettings environment.files with
  | error reason =>
      have unchanged : (stored.reload environment.recording complaint).session = stored := by
        rw [Session.reload, show environment.recording.files = environment.files from rfl, current]
      simp only [Except.toBool, Bool.false_eq_true, if_false, unchanged]
      obtain ⟨documentsOf, serviceOf, root, clientSettings, worldOf⟩ := stored
      obtain rfl := documents
      obtain rfl := service
      obtain rfl := world
      exact ⟨upToDate.tabled, upToDate.passesOver, upToDate.known⟩
  | ok settings =>
      -- The new service has not asked for a lint yet.
      have renewed : stored.clearRecord.currentSettings environment.recording.files =
          .ok settings := current
      simp only [Except.toBool, if_true, Session.reload, renewed]
      refine ⟨documents ▸ upToDate.tabled, List.forall_mem_nil _, ?_⟩
      intro file document opened lint last
      cases last

end

/-! ## Turns -/

theorem recordedTurn_staying {dialogue : Dialogue (List Exchange × σ)} {turn : Turn σ}
    (stays : dialogue.session.reloading turn.message = none) :
    (dialogue.recordedTurn turn).session =
      (dialogue.session.handle turn.environment.recording turn.message).1.session := by
  simp only [Dialogue.recordedTurn, Dialogue.turn, Session.renews, stays, Option.any_none,
    Bool.false_eq_true, if_false]

theorem recordedTurn_reloading {dialogue : Dialogue (List Exchange × σ)} {turn : Turn σ}
    {stored : Session (List Exchange × σ)}
    (reloads : dialogue.session.reloading turn.message = some stored) :
    let environment := turn.environment.recording
    let later := (dialogue.recordedTurn turn).session
    let kept := if (stored.currentSettings turn.environment.files).toBool then
      stored.clearRecord else stored
    ∃ complaint, let reloaded := (kept.reload environment complaint).session
      later = reloaded ∨ later = (reloaded.publishAll environment).session := by
  obtain ⟨environment, message⟩ := turn
  obtain ⟨session, client⟩ := dialogue
  simp only [Dialogue.recordedTurn, Dialogue.turn] at reloads ⊢
  -- Whether the record is cleared depends on the message, and clearing it changes no settings.
  have renews : session.renews environment.files message =
      (stored.currentSettings environment.files).toBool := by
    rw [Session.renews, reloads, Option.any_some]
  have kept : (if (stored.currentSettings environment.files).toBool then
        session.clearRecord else session).reloading message =
      some (if (stored.currentSettings environment.files).toBool then
        stored.clearRecord else stored) := by
    split
    · rw [Session.reloading_clearRecord, reloads, Option.map_some]
    · exact reloads
  obtain ⟨complaint, handled⟩ := Session.handle_reloading kept environment.recording
  rw [renews]
  exact ⟨complaint, handled.imp And.left And.left⟩

theorem turn_upToDate {dialogue : Dialogue (List Exchange × σ)}
    (upToDate : UpToDate dialogue.session) (turn : Turn σ) :
    UpToDate (dialogue.recordedTurn turn).session := by
  obtain ⟨environment, message⟩ := turn
  cases reloads : dialogue.session.reloading message with
  | some stored =>
      obtain ⟨documents, service, world⟩ := Session.reloading_keeps reloads
      obtain ⟨complaint, alone | all⟩ := @recordedTurn_reloading _ _ ⟨environment, message⟩ _ reloads
      · rw [alone]
        exact reload_upToDate upToDate documents service world environment complaint
      · rw [all]
        exact publishAll_upToDate environment
          (reload_upToDate upToDate documents service world environment complaint)
  | none =>
      have publish (uri : Uri) :
          UpToDate (dialogue.session.publish environment.recording uri).session :=
        publish_upToDate environment upToDate.tabled upToDate.passesOver
          fun file document _ => upToDate.known file document
      rw [@recordedTurn_staying _ _ ⟨environment, message⟩ reloads]
      cases message with
      | start root options => cases reloads
      | started => exact upToDate
      | didOpen uri version text => exact setText_publish_upToDate environment upToDate version text
      | didChange uri version texts =>
          simp only [Session.handle, Session.didChange]
          cases texts.getLast? with
          | none => exact publish uri
          | some text => exact setText_publish_upToDate environment upToDate version text
      | didSave uri =>
          have settings : Session.isSettingsFile uri = false := by
            simpa [Session.reloading] using reloads
          simp only [Session.handle, Session.didSave, settings, Bool.false_eq_true, if_false]
          exact publish uri
      | didClose uri => exact didClose_upToDate upToDate
      | didChangeConfiguration value => cases reloads
      | codeAction uri diagnostics => exact upToDate

theorem fresh_upToDate (environment : Environment σ) (world : σ) :
    UpToDate (Dialogue.fresh environment.recording ([], world)).session where
  tabled := nofun
  passesOver := nofun
  known _ _ opened := nomatch opened

theorem run_upToDate {dialogue : Dialogue (List Exchange × σ)}
    (upToDate : UpToDate dialogue.session) (turns : List (Turn σ)) :
    UpToDate (dialogue.recordedRun turns).session := by
  induction turns generalizing dialogue with
  | nil => exact upToDate
  | cons turn rest ih => exact ih (turn_upToDate upToDate turn)

/-- After any turns, what is known of an open document was found by the last lint of its text, if
that lint has succeeded. -/
theorem findings_of_lastExchange (environment : Environment σ) (world : σ) (turns : List (Turn σ))
    {file : String} {document : Document} {lint : Lint} :
    let session := ((Dialogue.fresh environment world).run turns).session
    session.documents.find? file = some document →
    lastExchange (Dialogue.record environment world turns) file document.lines.text =
      some (session.service.exchange file lint) →
    session.service.Locates file lint →
      document.lines = .ofText lint.text ∧ session.service.findings file = some lint.index := by
  have upToDate := run_upToDate (fresh_upToDate environment world) turns
  have same := Dialogue.recordedRun_unrecorded
    (Dialogue.fresh environment.recording ([], world)) turns
  rw [show (Dialogue.fresh environment.recording ([], world)).unrecorded =
    Dialogue.fresh environment world from rfl] at same
  rw [← same]
  intro session opened last locates
  obtain ⟨-, -, text_eq⟩ := mem_of_lastExchange last
  refine ⟨?_, upToDate.known file document opened lint last locates⟩
  rw [upToDate.tabled file document opened]
  exact congrArg _ text_eq.symm

end Server

end EditorLint
