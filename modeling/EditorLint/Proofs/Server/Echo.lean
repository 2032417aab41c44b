import EditorLint.Proofs.Remedies
import EditorLint.Proofs.Server.CodeAction
import EditorLint.Proofs.Server.LastLint

/-!
A published diagnostic leads back to its finding. An editor may send a diagnostic back with the
exact offsets that came with it, or with its range alone; both name the span that was published.
-/

namespace EditorLint.Server

/-! ## Positions and ranges -/

instance : LE Position where
  le first second :=
    first.line < second.line ∨ first.line = second.line ∧ first.character ≤ second.character

/-- The positions of a document whose lines and characters can be counted in 32 bits. -/
structure Addressable (lines : LineTable) : Prop extends lines.WellFormed where
  fewLines : lines.lineCount < 2 ^ 32
  fewUnits : lines.length < 2 ^ 32

namespace Addressable

variable {lines : LineTable} {start stop : Nat}

theorem ofOffset_eq (addressable : Addressable lines) {offset : Nat} (bound : offset ≤ lines.length) :
    Position.ofOffset lines offset =
      ⟨(lines.positionAt offset).1, (lines.positionAt offset).2⟩ := by
  obtain ⟨lineBound, characterBound⟩ := LineTable.positionAt_lt addressable.toWellFormed bound
  have fewLines := addressable.fewLines
  have fewUnits := addressable.fewUnits
  simp only [Position.ofOffset, Nat.one_shiftLeft, Position.mk.injEq]
  exact ⟨Nat.mod_eq_of_lt (by omega), Nat.mod_eq_of_lt (by omega)⟩

theorem offset?_ofOffset (addressable : Addressable lines) {offset : Nat}
    (bound : offset ≤ lines.length) :
    (Position.ofOffset lines offset).offset? lines = some offset := by
  rw [addressable.ofOffset_eq bound]
  exact LineTable.offsetAt_positionAt addressable.toWellFormed bound

theorem offsets?_ofOffsets (addressable : Addressable lines) (order : start ≤ stop)
    (bound : stop ≤ lines.length) :
    (Range.ofOffsets lines start stop).offsets? lines = some (start, stop) := by
  simp only [Range.offsets?, Range.ofOffsets, addressable.offset?_ofOffset (order.trans bound),
    addressable.offset?_ofOffset bound]
  rfl

theorem ofOffset_mono (addressable : Addressable lines) (order : start ≤ stop)
    (bound : stop ≤ lines.length) :
    Position.ofOffset lines start ≤ Position.ofOffset lines stop := by
  rw [addressable.ofOffset_eq (order.trans bound), addressable.ofOffset_eq bound]
  exact LineTable.positionAt_mono addressable.toWellFormed order bound

end Addressable

/-! ## Echoes -/

namespace ShownDiagnostic

/-- A diagnostic as it may come back: with its data, or without. -/
structure Echoes (echoed shown : ShownDiagnostic) : Prop where
  range_eq : echoed.range = shown.range
  source_eq : echoed.source = shown.source
  data : echoed.data = shown.data ∨ echoed.data = none

theorem dataOffsets?_offsetData {diagnostic : ShownDiagnostic} {start stop : Nat}
    (given : diagnostic.data = some (offsetData start stop)) (startBound : start < 2 ^ 64)
    (stopBound : stop < 2 ^ 64) : diagnostic.dataOffsets? = some (start, stop) := by
  have bits (offset : Nat) (bound : offset < 2 ^ 64) :
      (Json.Value.ofNat offset).unsigned? 64 = some offset := by
    have within : offset ≤ 2 ^ 64 - 1 := by omega
    simpa [Json.Value.unsigned?, Json.Value.ofNat, Json.Value.integerWithin?] using within
  have startMember : (offsetData start stop).member? "start" = some (.ofNat start) := by
    simp [offsetData, Json.Value.member?]
  have stopMember : (offsetData start stop).member? "end" = some (.ofNat stop) := by
    simp [offsetData, Json.Value.member?]
  simp only [dataOffsets?, given, Option.bind_eq_bind, Option.bind_some, startMember, stopMember,
    bits start startBound, bits stop stopBound]
  rfl

/-- Either way, a diagnostic that comes back has the offsets of the diagnostic behind it. -/
theorem Echoes.offsets? {lines : LineTable} {echoed : ShownDiagnostic} {diagnostic : Diagnostic}
    (addressable : Addressable lines) (bound : diagnostic.stop ≤ lines.length)
    (echoes : echoed.Echoes (.ofDiagnostic lines diagnostic)) :
    echoed.offsets? lines = some (diagnostic.start, diagnostic.stop) := by
  have order := diagnostic.start_le_stop
  have fewUnits := addressable.fewUnits
  rcases echoes.data with kept | dropped
  · rw [ShownDiagnostic.offsets?, dataOffsets?_offsetData kept (by omega) (by omega)]
    rfl
  · have ranged := addressable.offsets?_ofOffsets order bound
    rw [ShownDiagnostic.offsets?, echoes.range_eq]
    simp only [dataOffsets?, dropped]
    exact ranged

end ShownDiagnostic

/-! ## Code actions -/

variable {σ : Type}

theorem distinctOffers_eq_self {seen : List (FixKind × String × List Edit)}
    {offers : List Session.Offer} (new : ∀ offer ∈ offers, Session.offerKey offer.1 ∉ seen)
    (distinct : (offers.map fun offer => Session.offerKey offer.1).Nodup) :
    Session.distinctOffers seen offers = offers := by
  induction offers generalizing seen with
  | nil => rfl
  | cons offer rest ih =>
      obtain ⟨here, later⟩ := List.forall_mem_cons.mp new
      obtain ⟨apart, restDistinct⟩ := List.nodup_cons.mp distinct
      rw [Session.distinctOffers, if_neg here, ih _ restDistinct]
      intro other listed known
      rcases List.mem_cons.mp known with same | old
      · exact apart (List.mem_map.mpr ⟨other, listed, same⟩)
      · exact later other listed old

theorem distinctOffers_offered (lint : Lint) (policy : BatchPolicy) (file : String)
    (start stop : Nat) (diagnostic : ShownDiagnostic) :
    let offers := (lint.offered policy file start stop).map (·, diagnostic)
    Session.distinctOffers [] offers = offers := by
  refine distinctOffers_eq_self (fun _ _ => List.not_mem_nil) ?_
  -- The remedies are of different kinds, and the kind is a part of the key.
  have kinds := (lint.offered_kinds policy file start stop).nodup (by decide)
  rw [List.map_map]
  exact List.Nodup.of_map Prod.fst (by rwa [List.map_map])

/-- What the service knows of an open document is what a lint of its text has found. -/
structure Current (session : Session σ) (uri : Uri) (document : Document) (lint : Lint) : Prop where
  opened : session.documents.find? uri.fileName = some document
  lines : document.lines = .ofText lint.text
  locates : session.service.Locates uri.fileName lint
  known : session.service.findings uri.fileName = some lint.index

section

variable {session : Session σ} {uri : Uri} {document : Document} {lint : Lint}

theorem Current.shows (current : Current session uri document lint) :
    session.host.Shows uri.fileName lint.text :=
  Host.ofDocuments_shows (by rw [current.opened, Option.map_some, current.lines])

variable {echoed : ShownDiagnostic} {start stop : Nat}

/-- A request with one diagnostic, whose offsets are known, is answered from the lint that the
service remembers. -/
theorem Current.offers_eq (current : Current session uri document lint)
    (source : echoed.source = some diagnosticSource)
    (placed : echoed.offsets? document.lines = some (start, stop)) :
    session.offers uri.fileName document.lines [echoed] =
      ((lint.offered session.service.settings.batchPolicy uri.fileName start stop).map
        (·, echoed), []) := by
  have fixes := Service.codeFixes_eq_offered current.locates current.known current.shows.positions
    start stop [diagnosticCode] rfl
  simp only [Session.offers, List.map_cons, List.map_nil, source, ne_eq, not_true_eq_false,
    if_false, placed, fixes, List.flatMap_cons, List.flatMap_nil, List.append_nil]

theorem Current.answered_eq (current : Current session uri document lint)
    (source : echoed.source = some diagnosticSource)
    (placed : echoed.offsets? document.lines = some (start, stop)) :
    session.answered uri document.lines [echoed] =
      (lint.offered session.service.settings.batchPolicy uri.fileName start stop).map
        (·, echoed) := by
  rw [Session.answered, current.offers_eq source placed]
  exact distinctOffers_offered lint _ uri.fileName start stop echoed

theorem codeActions_eq_offered
    (opened : session.documents.find? uri.fileName = some document)
    (lines : document.lines = .ofText lint.text)
    (locates : session.service.Locates uri.fileName lint)
    (known : session.service.findings uri.fileName = some lint.index)
    (source : echoed.source = some diagnosticSource)
    (placed : echoed.offsets? document.lines = some (start, stop)) :
    session.codeActions uri [echoed] =
      ((lint.offered session.service.settings.batchPolicy uri.fileName start stop).map fun fix =>
        CodeAction.ofFix uri document.lines fix echoed, []) := by
  have current : Current session uri document lint := ⟨opened, lines, locates, known⟩
  rw [codeActions_eq opened, current.answered_eq source placed, current.offers_eq source placed,
    List.map_map]
  rfl

end

/-- A published diagnostic leads back to its finding. As long as its document has the text in which
it was published, it has the span of the diagnostic behind it, with its data or without. When the
last lint of that text has succeeded, it is answered with the remedies for the last finding of that
lint at this span, and there is one if the lint has the diagnostic. -/
theorem published_leads_back (environment : Environment σ) (world : σ) (before : List (Turn σ))
    (turn : Turn σ) (after : List (Turn σ)) {publication : Publication} {shown : ShownDiagnostic}
    {document : Document}
    (published : publication ∈ (((Dialogue.fresh environment world).run before).session.handle
      turn.environment turn.message).1.published)
    (listed : shown ∈ publication.diagnostics)
    (opened : ((Dialogue.fresh environment world).run
      (before ++ turn :: after)).session.documents.find? publication.uri.fileName = some document)
    (unchanged : (((Dialogue.fresh environment world).run
      (before ++ [turn])).session.documents.find? publication.uri.fileName).map (·.lines.text) =
        some document.lines.text)
    (fewLines : document.lines.lineCount < 2 ^ 32) (fewUnits : document.lines.length < 2 ^ 32) :
    let turns := before ++ turn :: after
    let session := ((Dialogue.fresh environment world).run turns).session
    let file := publication.uri.fileName
    ∃ diagnostic : Diagnostic, diagnostic.isLint ∧ shown = .ofDiagnostic document.lines diagnostic ∧
      shown.range.start ≤ shown.range.stop ∧
      ∀ echoed : ShownDiagnostic, echoed.Echoes shown →
        echoed.offsets? document.lines = some (diagnostic.start, diagnostic.stop) ∧
        ∀ lint : Lint,
          lastExchange (Dialogue.record environment world turns) file document.lines.text =
            some (session.service.exchange file lint) →
          session.service.Locates file lint →
            match lastAt lint.located diagnostic.start diagnostic.stop with
            | none => diagnostic ∉ lint.diagnostics ∧
                session.codeActions publication.uri [echoed] = ([], [])
            | some (finding, _) =>
                let target : IndexedFinding := ⟨finding, diagnostic.start, diagnostic.stop⟩
                let remedies := lint.remedies session.service.settings.batchPolicy file target
                session.codeActions publication.uri [echoed] =
                  (remedies.map fun fix =>
                    CodeAction.ofFix publication.uri document.lines fix echoed, []) := by
  intro turns session file
  have lines : document.lines = .ofText document.lines.text :=
    Dialogue.run_tabled (Dialogue.fresh_tabled environment world) turns _ _ opened
  have wellFormed : document.lines.WellFormed := by
    rw [lines]
    exact LineTable.ofText_wellFormed _
  obtain ⟨diagnostic, lies, rfl⟩ :=
    Dialogue.published_liesIn environment world before turn published listed unchanged
  rw [← lines]
  have addressable : Addressable document.lines := ⟨wellFormed, fewLines, fewUnits⟩
  have bound : diagnostic.stop ≤ document.lines.length := lines ▸ lies.bound
  refine ⟨diagnostic, lies.isLint, rfl, addressable.ofOffset_mono diagnostic.start_le_stop bound, ?_⟩
  intro echoed echoes
  have placed := echoes.offsets? addressable bound
  refine ⟨placed, fun lint last locates => ?_⟩
  obtain ⟨lintLines, known⟩ := findings_of_lastExchange environment world turns opened last locates
  have answered := codeActions_eq_offered opened lintLines locates known
    (echoes.source_eq.trans lies.source_eq) placed
  split
  · next missing =>
      rw [Lint.offered, missing] at answered
      refine ⟨fun reported => ?_, answered⟩
      obtain ⟨entry, member, rfl⟩ := List.mem_map.mp reported
      exact lastAt_eq_none_iff.mp missing entry member ⟨rfl, rfl⟩
  · next finding _ found =>
      rw [Lint.offered, found] at answered
      exact answered

def semicolonDocument : Document := ⟨semicolonUri, 1, .ofText "var a = 1\n"⟩

def semicolonDiagnostic : Diagnostic :=
  ⟨semicolonUri.fileName, 9, 0, "Missing semicolon. (semi)", .error, some diagnosticSource,
    diagnosticCode⟩

def semicolonShown : ShownDiagnostic := .ofDiagnostic semicolonDocument.lines semicolonDiagnostic

def semicolonReply : Lint :=
  ⟨"var a = 1\n", semicolonReport, [(semicolonFinding, semicolonDiagnostic)]⟩

def semicolonOpening : Turn (List (Except LintError Report)) :=
  ⟨semicolonEnvironment, .didOpen semicolonUri 1 "var a = 1\n"⟩

theorem published_leads_back_semicolon :
    let fresh := Dialogue.fresh semicolonEnvironment [.ok semicolonReport]
    let started := fresh.run [⟨semicolonEnvironment, .start none none⟩]
    let session := (fresh.run semicolonTurns).session
    let file := semicolonUri.fileName
    let record := Dialogue.record semicolonEnvironment [.ok semicolonReport] semicolonTurns
    (started.session.handle semicolonEnvironment semicolonOpening.message).1.published =
        [⟨semicolonUri, [semicolonShown], some 1⟩] ∧
      session.documents.find? file = some semicolonDocument ∧
      lastExchange record file semicolonDocument.lines.text =
        some (session.service.exchange file semicolonReply) ∧
      session.service.Locates file semicolonReply ∧
      ∃ diagnostic : Diagnostic, diagnostic.isLint ∧
        semicolonShown = .ofDiagnostic semicolonDocument.lines diagnostic ∧
        semicolonShown.range.start ≤ semicolonShown.range.stop ∧
        ∀ echoed : ShownDiagnostic, echoed.Echoes semicolonShown →
          echoed.offsets? semicolonDocument.lines = some (diagnostic.start, diagnostic.stop) ∧
          ∀ lint : Lint,
            lastExchange record file semicolonDocument.lines.text =
              some (session.service.exchange file lint) →
            session.service.Locates file lint →
              match lastAt lint.located diagnostic.start diagnostic.stop with
              | none => diagnostic ∉ lint.diagnostics ∧
                  session.codeActions semicolonUri [echoed] = ([], [])
              | some (finding, _) =>
                  let target : IndexedFinding := ⟨finding, diagnostic.start, diagnostic.stop⟩
                  let remedies := lint.remedies session.service.settings.batchPolicy file target
                  session.codeActions semicolonUri [echoed] =
                    (remedies.map fun fix =>
                      CodeAction.ofFix semicolonUri semicolonDocument.lines fix echoed, []) := by
  have published : (((Dialogue.fresh semicolonEnvironment [.ok semicolonReport]).run
      [⟨semicolonEnvironment, .start none none⟩]).session.handle semicolonEnvironment
        semicolonOpening.message).1.published = [⟨semicolonUri, [semicolonShown], some 1⟩] := by cbv
  have opened : ((Dialogue.fresh semicolonEnvironment [.ok semicolonReport]).run
      semicolonTurns).session.documents.find? semicolonUri.fileName = some semicolonDocument := by
    cbv
  have listed : (⟨semicolonUri, [semicolonShown], some 1⟩ : Publication) ∈
      (((Dialogue.fresh semicolonEnvironment [.ok semicolonReport]).run
        [⟨semicolonEnvironment, .start none none⟩]).session.handle semicolonEnvironment
          semicolonOpening.message).1.published := by
    rw [published]
    exact List.mem_singleton_self _
  have asked : lastExchange
      (Dialogue.record semicolonEnvironment [.ok semicolonReport] semicolonTurns)
      semicolonUri.fileName semicolonDocument.lines.text =
        some (((Dialogue.fresh semicolonEnvironment [.ok semicolonReport]).run
          semicolonTurns).session.service.exchange semicolonUri.fileName semicolonReply) := by cbv
  have locates : ((Dialogue.fresh semicolonEnvironment [.ok semicolonReport]).run
      semicolonTurns).session.service.Locates semicolonUri.fileName semicolonReply := by
    unfold Service.Locates
    cbv
  exact ⟨published, opened, asked, locates,
    published_leads_back semicolonEnvironment [.ok semicolonReport]
      [⟨semicolonEnvironment, .start none none⟩] semicolonOpening [] listed
      (List.mem_singleton_self _) opened (congrArg (Option.map _) opened) (by cbv) (by cbv)⟩

end EditorLint.Server
