import EditorLint.Proofs.Server.Faithful
import EditorLint.Proofs.Service.Located

/-!
Which documents a message leaves open, and which diagnostics it publishes. The documents depend on
the messages alone, and every published diagnostic lies in the text that its document then has.
-/

namespace EditorLint.Server

variable {σ : Type}

/-- The documents that are open after a message. -/
def Message.documentsAfter (documents : InsertionMap String Document) :
    Message → InsertionMap String Document
  | .didOpen uri version text =>
    documents.insert uri.fileName ⟨uri, version, LineTable.ofText text⟩
  | .didChange uri version texts =>
    match texts.getLast? with
    | some text => documents.insert uri.fileName ⟨uri, version, LineTable.ofText text⟩
    | none => documents
  | .didClose uri => documents.erase uri.fileName
  | .start .. | .started | .didSave _ | .didChangeConfiguration _ | .codeAction .. => documents

/-- The lines of each document are those of its text. -/
def Tabled (documents : InsertionMap String Document) : Prop :=
  ∀ file document, documents.find? file = some document →
    document.lines = .ofText document.lines.text

theorem insert_tabled {documents : InsertionMap String Document} (tabled : Tabled documents)
    (uri : Uri) (version : Int) (text : String) :
    Tabled (documents.insert uri.fileName ⟨uri, version, .ofText text⟩) := by
  intro file document found
  rw [InsertionMap.find?_insert] at found
  split at found
  · obtain rfl := Option.some.inj found
    rfl
  · exact tabled file document found

theorem erase_tabled {documents : InsertionMap String Document} (tabled : Tabled documents)
    (name : String) : Tabled (documents.erase name) := by
  intro file document found
  rw [InsertionMap.find?_erase] at found
  split at found
  · cases found
  · exact tabled file document found

theorem documentsAfter_tabled {documents : InsertionMap String Document} (tabled : Tabled documents)
    (message : Message) : Tabled (message.documentsAfter documents) := by
  cases message with
  | didOpen uri version text => exact insert_tabled tabled uri version text
  | didChange uri version texts =>
      simp only [Message.documentsAfter]
      split
      · exact insert_tabled tabled uri version _
      · exact tabled
  | didClose uri => exact erase_tabled tabled _
  | start root options => exact tabled
  | started => exact tabled
  | didSave uri => exact tabled
  | didChangeConfiguration value => exact tabled
  | codeAction uri diagnostics => exact tabled

namespace Session

@[simp] theorem publish_documents (session : Session σ) (environment : Environment σ) (uri : Uri) :
    (session.publish environment uri).session.documents = session.documents := by
  simp only [publish]
  split <;> rfl

@[simp] theorem reload_documents (session : Session σ) (environment : Environment σ)
    (complaint : String) :
    (session.reload environment complaint).session.documents = session.documents := by
  unfold reload
  split <;> rfl

/-- A publication comes from the lint of a document while the given ones are open. -/
def PublishedFrom (documents : InsertionMap String Document) (environment : Environment σ)
    (publication : Publication) : Prop :=
  ∃ session : Session σ, session.documents = documents ∧
    publication ∈ (session.publish environment publication.uri).published

theorem publish_publishedFrom {session : Session σ} {environment : Environment σ} {uri : Uri}
    {publication : Publication} (published : publication ∈ (session.publish environment uri).published) :
    PublishedFrom session.documents environment publication := by
  have same : publication.uri = uri := by
    simp only [publish] at published
    split at published
    · cases published
    · rw [List.mem_singleton.mp published]
  exact ⟨session, rfl, same ▸ published⟩

/-- One document is published after the other, until none is pending. -/
theorem publishAll_pending {session : Session σ} {environment : Environment σ}
    {motive : List Document → Step σ → Prop} (start : motive session.documents.values { session })
    (next : ∀ document rest step, motive (document :: rest) step →
      motive rest (step.andThen (publish environment document.uri))) :
    motive [] (session.publishAll environment) := by
  have each (pending : List Document) (step : Step σ) (before : motive pending step) :
      motive [] (pending.foldl
        (fun step document => step.andThen (publish environment document.uri)) step) := by
    induction pending generalizing step with
    | nil => exact before
    | cons document rest ih => exact ih _ (next document rest step before)
  exact each session.documents.values { session } start

theorem publishAll_induction {session : Session σ} {environment : Environment σ}
    {motive : Step σ → Prop} (start : motive { session })
    (next : ∀ step uri, motive step → motive (step.andThen (publish environment uri))) :
    motive (session.publishAll environment) :=
  publishAll_pending (motive := fun _ step => motive step) start
    fun document _ step before => next step document.uri before

theorem publishAll_spec (session : Session σ) (environment : Environment σ) :
    let step := session.publishAll environment
    step.session.documents = session.documents ∧
      ∀ publication ∈ step.published, PublishedFrom session.documents environment publication := by
  -- One document is linted after the other, and all of them stay open.
  apply publishAll_induction (motive := fun step => step.session.documents = session.documents ∧
    ∀ publication ∈ step.published, PublishedFrom session.documents environment publication)
  · exact ⟨rfl, List.forall_mem_nil _⟩
  · rintro step uri ⟨kept, before⟩
    refine ⟨(publish_documents ..).trans kept, fun publication published => ?_⟩
    rcases List.mem_append.mp published with earlier | here
    · exact before publication earlier
    · exact kept ▸ publish_publishedFrom here

theorem handle_reloading_spec {session stored : Session σ} {message : Message}
    (reloads : session.reloading message = some stored) (environment : Environment σ) :
    let step := (session.handle environment message).1
    step.session.documents = session.documents ∧
      ∀ publication ∈ step.published, PublishedFrom session.documents environment publication := by
  obtain ⟨documents, -, -⟩ := reloading_keeps reloads
  obtain ⟨complaint, ⟨session_eq, published_eq⟩ | ⟨session_eq, published_eq⟩⟩ :=
    handle_reloading reloads environment
  · intro step
    rw [session_eq, published_eq, reload_documents]
    exact ⟨documents, List.forall_mem_nil _⟩
  · have all := publishAll_spec (stored.reload environment complaint).session environment
    simp only [reload_documents, documents] at all
    intro step
    rw [session_eq, published_eq]
    exact all

/-- A publication takes diagnostics back, or it comes from the lint of a document that the message
leaves open. -/
theorem handle_spec (session : Session σ) (environment : Environment σ) (message : Message) :
    let step := (session.handle environment message).1
    let documents := message.documentsAfter session.documents
    step.session.documents = documents ∧
      ∀ publication ∈ step.published,
        publication.diagnostics = [] ∨ PublishedFrom documents environment publication := by
  cases reloads : session.reloading message with
  | some stored =>
      obtain ⟨documents, published⟩ := handle_reloading_spec reloads environment
      have same : message.documentsAfter session.documents = session.documents := by
        cases message <;> first | rfl | cases reloads
      rw [same]
      exact ⟨documents, fun publication listed => Or.inr (published publication listed)⟩
  | none =>
      have one (stage : Session σ) (uri : Uri) :
          (stage.publish environment uri).session.documents = stage.documents ∧
            ∀ publication ∈ (stage.publish environment uri).published,
              publication.diagnostics = [] ∨
                PublishedFrom stage.documents environment publication :=
        ⟨publish_documents .., fun _ published => Or.inr (publish_publishedFrom published)⟩
      cases message with
      | start root options => cases reloads
      | started => exact ⟨rfl, List.forall_mem_nil _⟩
      | didOpen uri version text => exact one (session.setText uri version text) uri
      | didChange uri version texts =>
          simp only [handle, didChange, Message.documentsAfter]
          cases texts.getLast? with
          | none => exact one session uri
          | some text => exact one (session.setText uri version text) uri
      | didSave uri =>
          have settings : isSettingsFile uri = false := by simpa [reloading] using reloads
          simp only [handle, didSave, settings, Bool.false_eq_true, if_false]
          exact one session uri
      | didClose uri =>
          refine ⟨rfl, fun publication published => Or.inl ?_⟩
          rw [List.mem_singleton.mp published]
      | didChangeConfiguration value => cases reloads
      | codeAction uri diagnostics => exact ⟨rfl, List.forall_mem_nil _⟩

theorem mem_of_publishedFrom {documents : InsertionMap String Document} (tabled : Tabled documents)
    {environment : Environment σ} {publication : Publication}
    (published : PublishedFrom documents environment publication) {shown : ShownDiagnostic}
    (listed : shown ∈ publication.diagnostics) :
    ∃ document diagnostic, documents.find? publication.uri.fileName = some document ∧
      diagnostic.LiesIn document.lines.text ∧ shown = .ofDiagnostic document.lines diagnostic := by
  obtain ⟨session, rfl, published⟩ := published
  cases found : session.documents.find? publication.uri.fileName with
  | none =>
      rw [publish_closed found] at published
      cases published
  | some document =>
      have lines := tabled _ document found
      rw [publish_eq found lines] at published
      split at published
      · rw [List.mem_singleton.mp published] at listed
        cases listed
      · split at published
        · rw [List.mem_singleton.mp published] at listed
          cases listed
        · next lint after linted =>
            rw [List.mem_singleton.mp published] at listed
            obtain ⟨diagnostic, reported, rfl⟩ := List.mem_map.mp listed
            obtain ⟨same, locates⟩ := Service.locates_of_lint linted
            refine ⟨document, diagnostic, rfl, ?_, by rw [← lines]⟩
            rw [← same]
            exact locates.liesIn reported

end Session

namespace Dialogue

theorem fresh_tabled (environment : Environment σ) (world : σ) :
    Tabled (fresh environment world).session.documents := nofun

theorem run_tabled {dialogue : Dialogue σ} (tabled : Tabled dialogue.session.documents)
    (turns : List (Turn σ)) : Tabled (dialogue.run turns).session.documents := by
  induction turns generalizing dialogue with
  | nil => exact tabled
  | cons turn rest ih =>
      apply ih
      simp only [Dialogue.turn, Session.handle_spec]
      exact documentsAfter_tabled tabled turn.message

theorem run_concat (dialogue : Dialogue σ) (turns : List (Turn σ)) (turn : Turn σ) :
    dialogue.run (turns ++ [turn]) = (dialogue.run turns).turn turn := by
  rw [run, List.foldl_append]
  rfl

/-- Whatever is published in a turn is a diagnostic of the linter, in the text that the document
has after that turn. -/
theorem published_liesIn (environment : Environment σ) (world : σ) (turns : List (Turn σ))
    (turn : Turn σ) {publication : Publication} {shown : ShownDiagnostic} {text : String}
    (published : publication ∈ (((fresh environment world).run turns).session.handle
      turn.environment turn.message).1.published)
    (listed : shown ∈ publication.diagnostics)
    (current : (((fresh environment world).run (turns ++ [turn])).session.documents.find?
      publication.uri.fileName).map (·.lines.text) = some text) :
    ∃ diagnostic : Diagnostic, diagnostic.LiesIn text ∧
      shown = .ofDiagnostic (.ofText text) diagnostic := by
  have tabled := run_tabled (fresh_tabled environment world) turns
  obtain ⟨documents, origin⟩ := Session.handle_spec
    ((fresh environment world).run turns).session turn.environment turn.message
  rw [run_concat] at current
  simp only [Dialogue.turn, documents] at current
  rcases origin publication published with empty | linted
  · simp [empty] at listed
  · have laterTabled := documentsAfter_tabled tabled turn.message
    obtain ⟨document, diagnostic, found, lies, rfl⟩ :=
      Session.mem_of_publishedFrom laterTabled linted listed
    rw [found, Option.map_some, Option.some.injEq] at current
    rw [laterTabled _ _ found, current]
    exact ⟨diagnostic, current ▸ lies, rfl⟩

end Dialogue

end EditorLint.Server
