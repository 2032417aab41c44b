import EditorLint.Proofs.Server.Publication

/-!
How documents stand for an editor. It has opened them with a version and a text, it has closed them,
or it has done neither; the server has a document of exactly those that are open.
-/

namespace EditorLint.Server

variable {σ : Type}

/-! ## What the editor has done -/

inductive Standing where
  | unopened
  | opened (version : Int) (text : String)
  | closed
  deriving DecidableEq, Repr

def Standing.isOpen : Standing → Bool
  | opened .. => true
  | unopened | closed => false

def Standing.document? (uri : Uri) : Standing → Option Document
  | opened version text => some ⟨uri, version, .ofText text⟩
  | unopened | closed => none

/-- How documents stand after a message. A change without a text leaves its document as it is. -/
def Message.standings (standings : Uri → Standing) : Message → Uri → Standing
  | .didOpen uri version text => Function.update standings uri (.opened version text)
  | .didChange uri version texts =>
    match texts.getLast? with
    | some text => Function.update standings uri (.opened version text)
    | none => standings
  | .didClose uri => Function.update standings uri .closed
  | .start .. | .started | .didSave _ | .didChangeConfiguration _ | .codeAction .. => standings

def standingsAfter (turns : List (Turn σ)) : Uri → Standing :=
  turns.foldl (fun standings turn => turn.message.standings standings) fun _ => .unopened

def Dialogue.published (dialogue : Dialogue σ) : List (Turn σ) → List Publication
  | [] => []
  | turn :: rest =>
    (dialogue.session.handle turn.environment turn.message).1.published
      ++ (dialogue.turn turn).published rest

def lastPublished (published : List Publication) (uri : Uri) : Option Publication :=
  (published.filter (·.uri = uri)).getLast?

theorem lastPublished_append (earlier later : List Publication) (uri : Uri) :
    lastPublished (earlier ++ later) uri =
      (lastPublished later uri).or (lastPublished earlier uri) := by
  simp only [lastPublished, List.filter_append, List.getLast?_append]

theorem lastPublished_singleton_self (publication : Publication) :
    lastPublished [publication] publication.uri = some publication := by
  simp [lastPublished]

theorem lastPublished_singleton_of_ne {publication : Publication} {uri : Uri}
    (different : publication.uri ≠ uri) : lastPublished [publication] uri = none := by
  simp [lastPublished, different]

/-! ## Documents -/

/-- The server has the documents that are open, each under its own name. -/
structure Documented (uris : Set Uri) (documents : InsertionMap String Document)
    (standings : Uri → Standing) : Prop where
  distinct : documents.keys.Nodup
  own : ∀ entry ∈ documents.entries, entry.1 = entry.2.uri.fileName
  named : ∀ document ∈ documents.values, document.uri ∈ uris
  stands : ∀ uri ∈ uris, documents.find? uri.fileName = (standings uri).document? uri

section

variable {uris : Set Uri} {documents : InsertionMap String Document} {standings : Uri → Standing}

theorem Documented.find?_uri (documented : Documented uris documents standings)
    {document : Document} (listed : document ∈ documents.values) :
    documents.find? document.uri.fileName = some document := by
  obtain ⟨entry, member, rfl⟩ := List.mem_map.mp listed
  rw [← documented.own entry member]
  exact InsertionMap.find?_of_mem documented.distinct member

theorem Documented.isOpen (documented : Documented uris documents standings)
    {document : Document} (listed : document ∈ documents.values) :
    (standings document.uri).isOpen := by
  have found := documented.stands document.uri (documented.named document listed)
  rw [documented.find?_uri listed] at found
  cases stands : standings document.uri with
  | opened version text => rfl
  | unopened => simp [stands, Standing.document?] at found
  | closed => simp [stands, Standing.document?] at found

theorem Documented.mem_uris_iff (documented : Documented uris documents standings) {uri : Uri}
    (member : uri ∈ uris) :
    uri ∈ documents.values.map (·.uri) ↔ (standings uri).isOpen := by
  constructor
  · intro listed
    obtain ⟨document, present, rfl⟩ := List.mem_map.mp listed
    exact documented.isOpen present
  · intro isOpen
    have found := documented.stands uri member
    cases stands : standings uri with
    | unopened => simp [stands, Standing.isOpen] at isOpen
    | closed => simp [stands, Standing.isOpen] at isOpen
    | opened version text =>
        rw [stands] at found
        exact List.mem_map.mpr ⟨_, InsertionMap.mem_values_of_find? found, rfl⟩

theorem Documented.nodup_uris (documented : Documented uris documents standings) :
    (documents.values.map (·.uri)).Nodup := by
  have keys : documents.keys = (documents.values.map (·.uri)).map Uri.fileName := by
    simp only [InsertionMap.keys, InsertionMap.values, List.map_map]
    exact List.map_congr_left documented.own
  exact List.Nodup.of_map Uri.fileName (keys ▸ documented.distinct)

theorem insert_documented (injective : uris.InjOn Uri.fileName)
    (documented : Documented uris documents standings) {uri : Uri} (member : uri ∈ uris)
    (version : Int) (text : String) :
    Documented uris (documents.insert uri.fileName ⟨uri, version, .ofText text⟩)
      (Function.update standings uri (.opened version text)) where
  distinct := InsertionMap.nodup_keys_insert documented.distinct _ _
  own entry listed := by
    rcases InsertionMap.mem_entries_insert listed with rfl | kept
    · rfl
    · exact documented.own entry kept
  named document listed := by
    rcases InsertionMap.mem_values_insert listed with rfl | kept
    · exact member
    · exact documented.named document kept
  stands other known := by
    by_cases same : other = uri
    · subst same
      rw [InsertionMap.find?_insert_self, Function.update_self]
      rfl
    · have different := injective.ne member known (Ne.symm same)
      rw [InsertionMap.find?_insert_of_ne _ _ different, Function.update_of_ne same]
      exact documented.stands other known

theorem erase_documented (injective : uris.InjOn Uri.fileName)
    (documented : Documented uris documents standings) {uri : Uri} (member : uri ∈ uris) :
    Documented uris (documents.erase uri.fileName) (Function.update standings uri .closed) where
  distinct := documented.distinct.sublist (List.filter_sublist.map _)
  own entry listed := documented.own entry (List.mem_filter.mp listed).1
  named document listed := documented.named document (InsertionMap.mem_values_erase listed)
  stands other known := by
    by_cases same : other = uri
    · subst same
      rw [InsertionMap.find?_erase_self, Function.update_self]
      rfl
    · have different := injective.ne member known (Ne.symm same)
      rw [InsertionMap.find?_erase, if_neg different, Function.update_of_ne same]
      exact documented.stands other known

end

end EditorLint.Server
