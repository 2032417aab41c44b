import EditorLint.Proofs.Server.Faithful
import EditorLint.Proofs.Service.Batches

/-!
What an editor is offered when it asks for code actions. An editor that asks for diagnostics which
it has been shown is only offered edits that were found in its own text.
-/

namespace EditorLint.Server

variable {σ : Type}

theorem mem_of_mem_distinctOffers {seen : List (FixKind × String × List Edit)}
    {offers : List Session.Offer} {offer : Session.Offer}
    (member : offer ∈ Session.distinctOffers seen offers) : offer ∈ offers := by
  induction offers generalizing seen with
  | nil => exact member
  | cons first rest ih =>
      simp only [Session.distinctOffers] at member
      split at member
      · exact List.mem_cons_of_mem _ (ih member)
      · rcases List.mem_cons.mp member with same | later
        · exact List.mem_cons.mpr (Or.inl same)
        · exact List.mem_cons_of_mem _ (ih later)

/-- What is offered for diagnostics of a document, each fix once. -/
def Session.answered (session : Session σ) (uri : Uri) (lines : LineTable)
    (diagnostics : List ShownDiagnostic) : List Session.Offer :=
  Session.distinctOffers [] (session.offers uri.fileName lines diagnostics).1

theorem codeActions_eq {session : Session σ} {uri : Uri} {document : Document}
    (opened : session.documents.find? uri.fileName = some document)
    (diagnostics : List ShownDiagnostic) :
    session.codeActions uri diagnostics =
      ((session.answered uri document.lines diagnostics).map fun offer =>
          CodeAction.ofFix uri document.lines offer.1 offer.2,
        (session.offers uri.fileName document.lines diagnostics).2) := by
  simp only [Session.codeActions, opened]
  rfl

/-- A fix is one of those that are assembled for the span of a diagnostic. -/
structure AssembledFor (session : Session σ) (file text : String) (lines : LineTable)
    (offer : Session.Offer) (index : FindingIndex) (start stop : Nat) : Prop where
  known : session.service.findings file = some index
  placed : offer.2.offsets? lines = some (start, stop)
  assembled : ∃ fixes, FixAction.assemble session.service.settings.batchPolicy file index start stop
    ((LineTable.ofText text).positionOf file) = .ok fixes ∧ offer.1 ∈ fixes

theorem exists_assembled {session : Session σ} {file : String} {lines : LineTable}
    {diagnostics : List ShownDiagnostic} {offer : Session.Offer}
    (member : offer ∈ (session.offers file lines diagnostics).1) :
    offer.2 ∈ diagnostics ∧ ∃ index start stop fixes,
      session.service.findings file = some index ∧ offer.2.offsets? lines = some (start, stop) ∧
      FixAction.assemble session.service.settings.batchPolicy file index start stop
        (session.host.positionOf file) = .ok fixes ∧ offer.1 ∈ fixes := by
  simp only [Session.offers, List.mem_flatMap, List.mem_map] at member
  obtain ⟨-, ⟨diagnostic, listed, rfl⟩, member⟩ := member
  split at member
  · cases member
  · split at member
    · cases member
    · next start stop placed =>
        obtain ⟨fix, offered, rfl⟩ := List.mem_map.mp member
        obtain ⟨remedies, split, origin⟩ := session.service.exists_codeFixes_eq_append session.host
          file start stop [diagnosticCode]
        have quiet : session.host.codeFixes file start stop [diagnosticCode] = [] := rfl
        rw [split, quiet, List.nil_append] at offered
        obtain ⟨index, fixes, known, assembled, present⟩ := origin fix offered
        exact ⟨listed, index, start, stop, fixes, known, placed, assembled, present⟩

theorem exists_assembledFor {session : Session σ} {file text : String} {lines : LineTable}
    {diagnostics : List ShownDiagnostic} {offer : Session.Offer}
    (shows : session.host.Shows file text)
    (member : offer ∈ (session.offers file lines diagnostics).1) :
    offer.2 ∈ diagnostics ∧
      ∃ index start stop, AssembledFor session file text lines offer index start stop := by
  obtain ⟨listed, index, start, stop, fixes, known, placed, assembled, present⟩ :=
    exists_assembled member
  rw [shows.positions] at assembled
  exact ⟨listed, index, start, stop, known, placed, fixes, assembled, present⟩

theorem offers_from_findings {session : Session σ} {file text : String} {lines : LineTable}
    {diagnostics : List ShownDiagnostic} {offer : Session.Offer}
    (shows : session.host.Shows file text)
    (member : offer ∈ (session.offers file lines diagnostics).1) :
    offer.2 ∈ diagnostics ∧ ∃ index, session.service.findings file = some index ∧
      ∀ edit ∈ offer.1.edits, index.Offers ((LineTable.ofText text).positionOf file) edit := by
  obtain ⟨listed, index, start, stop, known, -, fixes, assembled, offered⟩ :=
    exists_assembledFor shows member
  exact ⟨listed, index, known, FixAction.assemble_offers assembled offer.1 offered⟩

/-- When the editor asks for diagnostics that it has been shown, every edit that it is offered
comes from the index of a lint of the text that it has. -/
theorem codeActions_faithful {uris : Set Uri} {session : Session (List Exchange × σ)}
    {client : Client} {uri : Uri} {text : String} {diagnostics : List ShownDiagnostic}
    (faithful : Faithful uris session client) (member : uri ∈ uris)
    (opened : client.text uri = some text) (honest : ∀ shown ∈ diagnostics, shown ∈ client.shown uri) :
    ∀ action ∈ (session.codeActions uri diagnostics).1,
      ∃ index, session.service.findings uri.fileName = some index ∧
        FoundIn session uri text index ∧
        ∀ change ∈ action.edits, ∃ edit, change = TextEdit.ofEdit (.ofText text) edit ∧
          index.Offers ((LineTable.ofText text).positionOf uri.fileName) edit := by
  intro action answered
  obtain ⟨document, present, lines⟩ := faithful.exists_document member opened
  have shows : session.host.Shows uri.fileName text :=
    Host.ofDocuments_shows (by rw [present, Option.map_some, lines])
  rw [codeActions_eq present, lines] at answered
  obtain ⟨offer, offered, rfl⟩ := List.mem_map.mp answered
  obtain ⟨listed, index, known, comes⟩ :=
    offers_from_findings shows (mem_of_mem_distinctOffers offered)
  have shown : client.shown uri ≠ [] := List.ne_nil_of_mem (honest _ listed)
  refine ⟨index, known, faithful.fresh uri member text index opened shown known, ?_⟩
  intro change changed
  obtain ⟨edit, edited, rfl⟩ := List.mem_map.mp changed
  exact ⟨edit, rfl, comes edit edited⟩

theorem codeActions_closed {uris : Set Uri} {session : Session (List Exchange × σ)}
    {client : Client} {uri : Uri} (faithful : Faithful uris session client) (member : uri ∈ uris)
    (closed : client.text uri = none) (diagnostics : List ShownDiagnostic) :
    session.service.findings uri.fileName = none ∧
      session.codeActions uri diagnostics = ([], []) := by
  have absent := faithful.find?_eq_none member closed
  exact ⟨faithful.forgets _ absent, by simp only [Session.codeActions, absent]⟩

/-- No stale edit reaches an editor that asks only for diagnostics which it has been shown. After
any turns, the edits of a code action come from the index of a successful lint that the service in
use has made of the very text that the editor has, and of a document that is not open nothing is
known. -/
theorem codeActions_from_current_text {uris : Set Uri} (distinct : uris.InjOn Uri.fileName)
    (environment : Environment σ) (world : σ) (turns : List (Turn σ))
    (named : ∀ turn ∈ turns, ∀ uri ∈ turn.message.documents, uri ∈ uris) {uri : Uri}
    (member : uri ∈ uris) {diagnostics : List ShownDiagnostic}
    (honest : ∀ shown ∈ diagnostics,
      shown ∈ ((Dialogue.fresh environment world).run turns).client.shown uri) :
    let dialogue := (Dialogue.fresh environment world).run turns
    let service := dialogue.session.service
    let file := uri.fileName
    match dialogue.client.text uri with
    | none =>
      service.findings file = none ∧ dialogue.session.codeActions uri diagnostics = ([], [])
    | some text =>
      ∀ action ∈ (dialogue.session.codeActions uri diagnostics).1, ∃ lint : Lint,
        lint.text = text ∧ service.Locates file lint ∧
          service.exchange file lint ∈ Dialogue.record environment world turns ∧
          service.findings file = some lint.index ∧
          ∀ change ∈ action.edits, ∃ edit, change = TextEdit.ofEdit (.ofText text) edit ∧
            lint.index.Offers ((LineTable.ofText text).positionOf file) edit := by
  have faithful := run_faithful distinct (fresh_faithful uris environment world) turns named
  have same := Dialogue.recordedRun_unrecorded
    (Dialogue.fresh environment.recording ([], world)) turns
  rw [show (Dialogue.fresh environment.recording ([], world)).unrecorded =
    Dialogue.fresh environment world from rfl] at same
  rw [← same] at honest ⊢
  intro dialogue service file
  cases opened : dialogue.client.text uri with
  | none => exact codeActions_closed faithful member opened diagnostics
  | some text =>
      intro action answered
      obtain ⟨index, known, ⟨lint, text_eq, rfl, located, recorded⟩, comes⟩ :=
        codeActions_faithful faithful member opened honest action answered
      exact ⟨lint, text_eq, located, recorded, known, comes⟩

def semicolonUri : Uri := { scheme := "untitled", path := "a" }

def semicolonEnvironment : Environment (List (Except LintError Report)) where
  files := {}
  linter _ := .prepared

def semicolonTurns : List (Turn (List (Except LintError Report))) :=
  [⟨semicolonEnvironment, .start none none⟩,
    ⟨semicolonEnvironment, .didOpen semicolonUri 1 "var a = 1\n"⟩]

theorem codeActions_from_current_text_semicolon :
    let dialogue := (Dialogue.fresh semicolonEnvironment [.ok semicolonReport]).run semicolonTurns
    let service := dialogue.session.service
    let file := semicolonUri.fileName
    let actions := (dialogue.session.codeActions semicolonUri (dialogue.client.shown semicolonUri)).1
    dialogue.client.text semicolonUri = some "var a = 1\n" ∧
      actions.map (·.title) =
        ["Fix: Missing semicolon.", "Fix all auto-fixable eslint failures",
          "Disable rule 'semi'"] ∧
      ∀ action ∈ actions, ∃ lint : Lint,
        lint.text = "var a = 1\n" ∧ service.Locates file lint ∧
          service.exchange file lint ∈
            Dialogue.record semicolonEnvironment [.ok semicolonReport] semicolonTurns ∧
          service.findings file = some lint.index ∧
          ∀ change ∈ action.edits, ∃ edit,
            change = TextEdit.ofEdit (.ofText "var a = 1\n") edit ∧
            lint.index.Offers ((LineTable.ofText "var a = 1\n").positionOf file) edit := by
  have opened : ((Dialogue.fresh semicolonEnvironment [.ok semicolonReport]).run
      semicolonTurns).client.text semicolonUri = some "var a = 1\n" := by cbv
  have fresh := codeActions_from_current_text (Set.injOn_singleton Uri.fileName semicolonUri)
    semicolonEnvironment [.ok semicolonReport] semicolonTurns
    (by simp [semicolonTurns, Message.documents]) rfl (fun _ shown => shown)
  simp only [opened] at fresh
  exact ⟨opened, by cbv, fresh⟩

end EditorLint.Server
