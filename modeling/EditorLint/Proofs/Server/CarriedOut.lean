import EditorLint.Proofs.Server.ClientText
import EditorLint.Proofs.Server.Echo

/-!
What an editor gets when it carries out a code action. It gets what the edits of the fix make of
the text, if none of these ends behind a line end that only the linter has or inside of `\r\n`.
-/

namespace EditorLint.Server

open Text

variable {σ : Type}

/-! ## A document with one finding -/

/-- A finding at the very start of its document; its fix may be anywhere. -/
def looseFinding (edit : Edit) : Finding :=
  { line := 1, column := 1, message := "Missing semicolon."
    fix := some ⟨edit.start, edit.stop, edit.text⟩ }

def looseReport (edit : Edit) : Report := { results := [{ messages := [looseFinding edit] }] }

def looseDiagnostic : Diagnostic :=
  ⟨semicolonUri.fileName, 0, 0, "Missing semicolon.", .error, some diagnosticSource, diagnosticCode⟩

def looseLint (text : String) (edit : Edit) : Lint :=
  ⟨text, looseReport edit, [(looseFinding edit, looseDiagnostic)]⟩

/-- An editor opens a document in which the linter has one finding. -/
def openedWith (text : String) (edit : Edit) : Dialogue (List (Except LintError Report)) :=
  (Dialogue.fresh semicolonEnvironment [.ok (looseReport edit)]).run
    [⟨semicolonEnvironment, .start none none⟩,
      ⟨semicolonEnvironment, .didOpen semicolonUri 1 text⟩]

theorem offsetAt_origin (text : String) : (LineTable.ofText text).offsetAt 0 0 = some 0 := by
  simp [LineTable.offsetAt, LineTable.ofText, lineStarts]

theorem looseLint_locates (root text : String) (edit : Edit) :
    ({ settings := {}, root } : Service).Locates semicolonUri.fileName (looseLint text edit) := by
  have placed : (looseFinding edit).toDiagnostic semicolonUri.fileName
      ((LineTable.ofText text).positionOf semicolonUri.fileName) false = .ok looseDiagnostic := by
    have start : (LineTable.ofText text).positionOf semicolonUri.fileName 0 0 = .ok 0 :=
      LineTable.positionOf_eq_ok_iff.mpr (offsetAt_origin text)
    simp only [Finding.toDiagnostic, looseFinding, Finding.startLine, Finding.startColumn,
      Finding.stopLine, Finding.stopColumn, oneBased]
    simp [start, bind, Except.bind]
    rfl
  have kept : [looseFinding edit].filter ({} : Settings).keepsFinding = [looseFinding edit] := rfl
  have text_eq : (looseLint text edit).text = text := rfl
  rw [Service.Locates, Service.locateReport_of_first rfl]
  simp only [Service.locate, (Host.ofText_shows _ _).positions, kept, List.mapM_cons, text_eq,
    placed]
  rfl

/-- A document is known from the lint of its text once it has been opened, if that succeeds. -/
theorem didOpen_current {session : Session σ} {environment : Environment σ} {uri : Uri}
    {text : String} {lint : Lint} {after : σ} (version : Int)
    (considered : ¬ session.service.settings.skipsFile uri.fileName)
    (linted : session.service.lint (environment.linter session.service.settings) uri.fileName text
      session.world = (.ok lint, after)) :
    let step := session.didOpen environment uri version text
    Current step.session uri ⟨uri, version, .ofText text⟩ lint ∧
      step.published = [{
        uri
        diagnostics := lint.diagnostics.map (ShownDiagnostic.ofDiagnostic (.ofText text))
        version := some version }] := by
  let stage := session.setText uri version text
  have opened : stage.documents.find? uri.fileName = some ⟨uri, version, .ofText text⟩ :=
    InsertionMap.find?_insert_self ..
  have goesOn : ¬ stage.service.settings.skipsFile uri.fileName := considered
  have reply : stage.service.lint (environment.linter stage.service.settings) uri.fileName text
      stage.world = (.ok lint, after) := linted
  obtain ⟨same, locates⟩ := Service.locates_of_lint linted
  have published : session.didOpen environment uri version text = _ :=
    publish_eq opened rfl environment
  simp only [goesOn, reply] at published
  rw [published]
  exact ⟨⟨opened, by rw [same], locates, Service.findings_remember ..⟩, rfl⟩

theorem openedWith_current (text : String) (edit : Edit) :
    Current (openedWith text edit).session semicolonUri ⟨semicolonUri, 1, .ofText text⟩
        (looseLint text edit) ∧
      (openedWith text edit).client.shown semicolonUri =
        [.ofDiagnostic (.ofText text) looseDiagnostic] := by
  let started : Session (List (Except LintError Report)) :=
    { service := { settings := {}, root := semicolonEnvironment.files.workingPath }
      world := [.ok (looseReport edit)] }
  have linted : started.service.lint Engine.prepared semicolonUri.fileName text started.world =
      (.ok (looseLint text edit), []) := by
    have located : started.service.locateReport (.ofText semicolonUri.fileName text)
      semicolonUri.fileName (looseReport edit) = .ok _ := looseLint_locates _ text edit
    simp only [Service.lint, started, Engine.prepared, List.headD_cons, Except.bind, located]
    rfl
  have considered : started.service.settings.skipsFile semicolonUri.fileName = false := by cbv
  obtain ⟨current, published⟩ := @didOpen_current _ started semicolonEnvironment _ _ _ _ 1
    (by simp [considered]) linted
  have shown : (openedWith text edit).client.shown semicolonUri =
      ((({} : Client).setText semicolonUri text).receiveAll
        (started.didOpen semicolonEnvironment semicolonUri 1 text).published).shown
          semicolonUri := rfl
  rw [shown, published]
  exact ⟨current, Client.shown_receive_self ..⟩

theorem openedWith_offers (text : String) (edit : Edit) :
    let dialogue := openedWith text edit
    let shown := dialogue.client.shown semicolonUri
    ∃ offer ∈ dialogue.session.answered semicolonUri (.ofText text) shown,
      offer.1.kind = .single ∧ offer.1.edits = [edit] ∧
        CodeAction.ofFix semicolonUri (.ofText text) offer.1 offer.2 ∈
          (dialogue.session.codeActions semicolonUri shown).1 := by
  intro dialogue shown
  obtain ⟨current, shown_eq⟩ := openedWith_current text edit
  have placed : (ShownDiagnostic.ofDiagnostic (.ofText text) looseDiagnostic).offsets?
      (.ofText text) = some (0, 0) := rfl
  have answered := current.answered_eq rfl placed
  rw [← shown_eq] at answered
  let fix : FixAction :=
    .onFile .single "unknown" "Fix: Missing semicolon." semicolonUri.fileName [edit]
  let offer : Session.Offer := (fix, .ofDiagnostic (.ofText text) looseDiagnostic)
  have offered (policy : BatchPolicy) :
      fix ∈ (looseLint text edit).offered policy semicolonUri.fileName 0 0 := List.mem_cons_self
  have member : offer ∈ dialogue.session.answered semicolonUri (.ofText text) shown :=
    answered ▸ List.mem_map_of_mem (offered _)
  refine ⟨offer, member, rfl, FixAction.edits_onFile .., ?_⟩
  rw [codeActions_eq current.opened]
  exact List.mem_map.mpr ⟨offer, member, rfl⟩

/-! ## What the editor gets -/

/-- After any turns, a code action whose edits can be applied to the text of its document makes of
it in the editor what these edits make of it, where the editor and the server mean the same places.
They do exactly behind those parts of the text in which both see the same lines. -/
theorem codeActions_carried_out (environment : Environment σ) (world : σ) (turns : List (Turn σ))
    (uri : Uri) (diagnostics : List ShownDiagnostic) {document : Document}
    (opened : ((Dialogue.fresh environment world).run turns).session.documents.find?
      uri.fileName = some document) :
    let session := ((Dialogue.fresh environment world).run turns).session
    let text := document.lines.text
    let offers := session.answered uri document.lines diagnostics
    (session.codeActions uri diagnostics).1 =
        offers.map (fun offer => CodeAction.ofFix uri document.lines offer.1 offer.2) ∧
      (∀ front back, text.toList = front ++ back → Narrow document.lines (units front) →
        (clientOffset? text.toList (.ofOffset document.lines (units front)) =
          some (units front) ↔ SharedPlace front back)) ∧
      ∀ offer ∈ offers, ∀ result, Edit.applyAll text offer.1.edits = .ok result →
        (∀ edit ∈ offer.1.edits, Meant text edit.start ∧ Meant text edit.stop) →
          carryOut? text.toList (CodeAction.ofFix uri document.lines offer.1 offer.2).edits =
            some result.toList := by
  intro session text offers
  have lines : document.lines = .ofText text :=
    Dialogue.run_tabled (Dialogue.fresh_tabled environment world) turns _ _ opened
  refine ⟨by rw [codeActions_eq opened], fun front back split narrow => ?_,
    fun offer _ result applied meant => ?_⟩
  · rw [lines] at narrow ⊢
    exact clientOffset?_ofOffset_iff split narrow
  · rw [lines]
    exact carryOut?_ofEdit applied meant

theorem codeActions_carried_out_surrogates :
    let text := "😀\r\nvar a = 1\n"
    let edit := Edit.insertion 13 ";"
    let dialogue := openedWith text edit
    let document : Document := ⟨semicolonUri, 1, .ofText text⟩
    dialogue.session.documents.find? semicolonUri.fileName = some document ∧ Meant text 13 ∧
      ∃ offer ∈ dialogue.session.answered semicolonUri document.lines
          (dialogue.client.shown semicolonUri),
        let action := CodeAction.ofFix semicolonUri document.lines offer.1 offer.2
        offer.1.edits = [edit] ∧ action.edits = [⟨⟨⟨1, 9⟩, ⟨1, 9⟩⟩, ";"⟩] ∧
          carryOut? text.toList action.edits = some "😀\r\nvar a = 1;\n".toList := by
  intro text edit dialogue document
  obtain ⟨current, -⟩ := openedWith_current text edit
  obtain ⟨offer, answered, -, edits, -⟩ := openedWith_offers text edit
  have meant : Meant text 13 := by
    refine ⟨⟨"😀\r\nvar a = 1".toList, ['\n'], by decide, by decide, by decide, by decide,
      by decide⟩, ?_⟩
    unfold Narrow
    cbv
  have applied : Edit.applyAll text [edit] = .ok "😀\r\nvar a = 1;\n" := by cbv
  obtain ⟨-, -, carried⟩ := codeActions_carried_out semicolonEnvironment [.ok (looseReport edit)]
    [⟨semicolonEnvironment, .start none none⟩, ⟨semicolonEnvironment, .didOpen semicolonUri 1 text⟩]
    semicolonUri (dialogue.client.shown semicolonUri) current.opened
  refine ⟨current.opened, meant, offer, answered, edits, ?_, ?_⟩
  · rw [CodeAction.ofFix, edits]
    cbv
  · refine carried offer answered _ (edits ▸ applied) fun other member => ?_
    rw [edits, List.mem_singleton] at member
    subst member
    exact ⟨meant, meant⟩

/-! ## Where the editor and the server differ -/

/-- The editor does not get from a code action what the edits of its fix make of the text. -/
def Misplaces (text : String) (edit : Edit) : Prop :=
  let dialogue := openedWith text edit
  let shown := dialogue.client.shown semicolonUri
  ∃ document, dialogue.session.documents.find? semicolonUri.fileName = some document ∧
    document.lines.text = text ∧
    ∃ offer ∈ dialogue.session.answered semicolonUri document.lines shown,
      let action := CodeAction.ofFix semicolonUri document.lines offer.1 offer.2
      action ∈ (dialogue.session.codeActions semicolonUri shown).1 ∧
        ∃ result, Edit.applyAll text offer.1.edits = .ok result ∧
          carryOut? text.toList action.edits ≠ some result.toList

theorem misplaces_of_differs {text result : String} {edit : Edit}
    (applied : Edit.applyAll text [edit] = .ok result)
    (differs : carryOut? text.toList [.ofEdit (.ofText text) edit] ≠ some result.toList) :
    Misplaces text edit := by
  obtain ⟨current, -⟩ := openedWith_current text edit
  obtain ⟨offer, answered, -, edits, acted⟩ := openedWith_offers text edit
  refine ⟨_, current.opened, rfl, offer, answered, acted, result, ?_, ?_⟩
  · rw [edits, applied]
  · rw [CodeAction.ofFix, edits]
    exact differs

theorem units_replicate (count : Nat) : units (List.replicate count 'a') = count := by
  induction count with
  | zero => rfl
  | succ count ih =>
      have one : charUnits 'a' = 1 := rfl
      rw [List.replicate_succ, units, ih, one, Nat.add_comm]

theorem place_replicate (count : Nat) : place (List.replicate count 'a') [] = (0, count) := by
  induction count with
  | zero => rfl
  | succ count ih =>
      have one : charUnits 'a' = 1 := rfl
      rw [List.replicate_succ, place_inner (by decide) (by decide), ih, if_pos rfl, one,
        Nat.add_comm]

def oneLine (count : Nat) : String := String.ofList (List.replicate count 'a')

theorem applyAll_oneLine (count : Nat) :
    Edit.applyAll (oneLine count) [.insertion count ";"] =
      .ok (String.ofList (List.replicate count 'a' ++ [';'])) := by
  rw [Edit.applyAll_singleton_eq_ok_iff]
  exact ⟨List.replicate count 'a', [], [], by simp [oneLine], (units_replicate count).symm,
    by simp [units_replicate, Edit.insertion], by simp [Edit.insertion]⟩

/-- A character that 32 bits cannot count starts anew at the start of its line. -/
theorem ofOffset_oneLine {count : Nat} (wraps : count % 2 ^ 32 = 0) :
    Position.ofOffset (.ofText (oneLine count)) count = ⟨0, 0⟩ := by
  have split : (oneLine count).toList = List.replicate count 'a' ++ [] := by simp [oneLine]
  have located := LineTable.positionAt_units split
  rw [units_replicate, place_replicate] at located
  rw [Position.ofOffset, located]
  exact congrArg (Position.mk 0) wraps

theorem misplaces_oneLine {count : Nat} (positive : 0 < count) (wraps : count % 2 ^ 32 = 0) :
    Misplaces (oneLine count) (.insertion count ";") := by
  have first (chars : List Char) : clientOffset? chars ⟨0, 0⟩ = some 0 := by
    obtain ⟨line, later, lines⟩ := List.exists_cons_of_ne_nil (clientLines_ne_nil chars)
    simp [clientOffset?, offsetAmong?, lines, units]
  have carried : carryOut? (oneLine count).toList
      [.ofEdit (.ofText (oneLine count)) (.insertion count ";")] =
        some (';' :: (oneLine count).toList) := by
    simp [carryOut?, TextEdit.edit?, TextEdit.ofEdit, Range.ofOffsets, Edit.insertion,
      ofOffset_oneLine wraps, first, Edit.sortByStart, replaceFrom?, cutAt?]
  refine misplaces_of_differs (applyAll_oneLine count) ?_
  obtain ⟨count, rfl⟩ := Nat.exists_eq_add_one.mpr positive
  rw [carried]
  simp [oneLine, List.replicate_succ]

theorem codeActions_misplaced :
    Misplaces "var a = \"\u2028\"\n" (.insertion 11 ";") ∧ Misplaces "a\r\n" ⟨1, 2, ""⟩ ∧
      Misplaces (oneLine (2 ^ 32)) (.insertion (2 ^ 32) ";") := by
  refine ⟨?_, ?_, misplaces_oneLine (Nat.two_pow_pos 32) (Nat.mod_self _)⟩
  · have applied : Edit.applyAll "var a = \"\u2028\"\n" [.insertion 11 ";"] =
        .ok "var a = \"\u2028\";\n" := by cbv
    have carried : carryOut? "var a = \"\u2028\"\n".toList
        [.ofEdit (.ofText "var a = \"\u2028\"\n") (.insertion 11 ";")] =
          some "var a = \"\u2028\"\n;".toList := by cbv
    refine misplaces_of_differs applied ?_
    rw [carried]
    decide
  · have applied : Edit.applyAll "a\r\n" [⟨1, 2, ""⟩] = .ok "a\n" := by cbv
    have carried : carryOut? "a\r\n".toList [.ofEdit (.ofText "a\r\n") ⟨1, 2, ""⟩] =
        some "a\r\n".toList := by cbv
    refine misplaces_of_differs applied ?_
    rw [carried]
    decide

end EditorLint.Server
