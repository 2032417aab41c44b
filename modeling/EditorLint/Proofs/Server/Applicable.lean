import EditorLint.Proofs.Edit.Acceptance
import EditorLint.Proofs.Server.CarriedOut

/-!
Which of the offered fixes can be applied. A fix is offered as the linter has reported it, and its
range is cut to the text when it is written as positions.
-/

namespace EditorLint.Server

open Text

variable {σ : Type}

/-! ## Edits that can be applied -/

theorem fits_insertion_of_positionOf {text file : String} {line lineStart : Nat} (comment : String)
    (placed : (LineTable.ofText text).positionOf file line 0 = .ok lineStart) :
    Edit.Fits text.toList (.insertion lineStart comment) := by
  obtain ⟨start, atLine, rfl, -⟩ :=
    LineTable.offsetAt_eq_some_iff.mp (LineTable.positionOf_eq_ok_iff.mp placed)
  obtain ⟨front, back, split, place⟩ := (LineTable.ofText_wellFormed text).places line start atLine
  have boundary : IsBoundary text.toList (start.units + 0) :=
    (isBoundary_iff_exists_split _ _).mpr ⟨front, back, split, by rw [place, Nat.add_zero]⟩
  exact ⟨Nat.le_refl _, boundary, boundary⟩

theorem stop_le_of_fits {text : String} {edit : Edit} (fits : Edit.Fits text.toList edit) :
    edit.stop ≤ (LineTable.ofText text).length := by
  rw [(LineTable.ofText_wellFormed text).length_eq]
  exact fits.stop_boundary.1

/-! ## Ranges that lead back -/

theorem ofOffset_min (lines : LineTable) (offset : Nat) :
    Position.ofOffset lines (min offset lines.length) = Position.ofOffset lines offset := by
  simp only [Position.ofOffset, LineTable.positionAt, Nat.min_assoc, Nat.min_self]

/-- A range leads back to its ends, cut to the text. -/
theorem Addressable.offsets?_ofOffsets_min {lines : LineTable} (addressable : Addressable lines)
    (start stop : Nat) :
    (Range.ofOffsets lines start stop).offsets? lines =
      some (min start lines.length, min stop lines.length) := by
  have back (offset : Nat) :
      (Position.ofOffset lines offset).offset? lines = some (min offset lines.length) := by
    rw [← ofOffset_min]
    exact addressable.offset?_ofOffset (Nat.min_le_right ..)
  simp only [Range.offsets?, Range.ofOffsets, back]
  rfl

/-! ## What is offered -/

/-- The fix of one of the findings of a lint. -/
def Lint.Fixes (lint : Lint) (edit : Edit) : Prop :=
  ∃ entry ∈ lint.located, entry.1.edit = some edit

theorem fixes_or_fits_of_offers {lint : Lint} {file : String} {edit : Edit}
    (offers : lint.index.Offers ((LineTable.ofText lint.text).positionOf file) edit) :
    Lint.Fixes lint edit ∨ Edit.Fits lint.text.toList edit := by
  cases offers with
  | fix member fixes =>
      obtain ⟨reported, located, same⟩ := exists_located_of_mem_indexOf member
      exact Or.inl ⟨reported, located, same ▸ fixes⟩
  | comment member named placed => exact Or.inr (fits_insertion_of_positionOf _ placed)

/-- A fix that has been offered on the ground of a lint. -/
structure Remedy (session : Session σ) (uri : Uri) (lint : Lint) (fix : FixAction) : Prop where
  fixes_or_fits : ∀ edit ∈ fix.edits, Lint.Fixes lint edit ∨ Edit.Fits lint.text.toList edit
  comment_fits : fix.kind = .disableRule → ∀ edit ∈ fix.edits, Edit.Fits lint.text.toList edit
  apart : (fix.kind = .fixAllOfRule → session.service.settings.batchPolicy = .nonOverlapping) →
    fix.edits.Pairwise (·.stop < ·.start)

theorem Current.remedy {session : Session σ} {uri : Uri} {document : Document} {lint : Lint}
    (current : Current session uri document lint) {diagnostics : List ShownDiagnostic}
    {offer : Session.Offer} (member : offer ∈ session.answered uri document.lines diagnostics) :
    Remedy session uri lint offer.1 := by
  obtain ⟨-, index, start, stop, known, -, fixes, assembled, offered⟩ :=
    exists_assembledFor current.shows (mem_of_mem_distinctOffers member)
  obtain rfl := Option.some.inj (current.known.symm.trans known)
  refine ⟨fun edit edited => ?_, fun isComment => ?_, FixAction.assemble_apart assembled offered⟩
  · exact fixes_or_fits_of_offers (FixAction.assemble_offers assembled _ offered edit edited)
  · obtain ⟨target, -, own | rule | all | ⟨disable, disabled, comment⟩⟩ :=
      FixAction.assemble_cases assembled offered
    · cases (FixAction.kind_single _ own).symm.trans isComment
    · cases (FixAction.kind_allOfRule _ rule).symm.trans isComment
    · cases (FixAction.kind_allAutoFixable _ all).symm.trans isComment
    · obtain ⟨-, rfl⟩ | ⟨rule, lineStart, -, placed, rfl⟩ := FixAction.disableRule_cases disabled
      · cases comment
      · obtain same := Option.some.inj comment
        rw [← same, FixAction.edits_onFile]
        exact List.forall_mem_singleton.mpr (fits_insertion_of_positionOf _ placed)

/-- Everything that is offered on the ground of a lint of the text can be applied to it, if the
fixes can that the linter has reported. Ranges lead back to the edits that they come from, with
what lies behind the text cut off. -/
theorem codeActions_applicable {session : Session σ} {uri : Uri} {document : Document} {lint : Lint}
    (current : Current session uri document lint)
    (fewLines : document.lines.lineCount < 2 ^ 32) (fewUnits : document.lines.length < 2 ^ 32)
    (diagnostics : List ShownDiagnostic) :
    let applies (edits : List Edit) : Prop := ∃ result, Edit.applyAll lint.text edits = .ok result
    let length := document.lines.length
    let offers := session.answered uri document.lines diagnostics
    (session.codeActions uri diagnostics).1 =
        offers.map (fun offer => CodeAction.ofFix uri document.lines offer.1 offer.2) ∧
      ∀ offer ∈ offers,
        (offer.1.kind = .fixAllOfRule →
          session.service.settings.batchPolicy = .nonOverlapping) →
        let edits := offer.1.edits
        let action := CodeAction.ofFix uri document.lines offer.1 offer.2
        (applies edits ↔ ∀ edit ∈ edits, Lint.Fixes lint edit → applies [edit]) ∧
          (offer.1.kind = .disableRule → applies edits) ∧
          action.edits.map (·.range.offsets? document.lines) =
            edits.map (fun edit => some (min edit.start length, min edit.stop length)) ∧
          (applies edits → action.edits.map (·.range.offsets? document.lines) =
            edits.map fun edit => some (edit.start, edit.stop)) := by
  intro applies length offers
  have applies_iff (edits : List Edit) : applies edits ↔ Edit.Accepted lint.text.toList edits :=
    Edit.exists_applyAll_iff lint.text edits
  have wellFormed : document.lines.WellFormed :=
    current.lines ▸ LineTable.ofText_wellFormed lint.text
  have addressable : Addressable document.lines := ⟨wellFormed, fewLines, fewUnits⟩
  refine ⟨by rw [codeActions_eq current.opened], fun offer member selected => ?_⟩
  intro edits action
  obtain ⟨fixes_or_fits, comment_fits, apart⟩ := current.remedy member
  have accepted_iff : Edit.Accepted lint.text.toList edits ↔
      ∀ edit ∈ edits, Edit.Fits lint.text.toList edit :=
    Edit.accepted_iff_of_apart (apart selected)
  have back : action.edits.map (·.range.offsets? document.lines) =
      edits.map fun edit => some (min edit.start length, min edit.stop length) := by
    rw [show action.edits = edits.map (TextEdit.ofEdit document.lines) from rfl, List.map_map]
    exact List.map_congr_left fun edit _ =>
      addressable.offsets?_ofOffsets_min edit.start edit.stop
  refine ⟨?_, fun isComment => ?_, back, fun applied => ?_⟩
  · simp only [applies_iff, Edit.accepted_singleton_iff]
    rw [accepted_iff]
    exact ⟨fun fits edit edited _ => fits edit edited, fun fits edit edited =>
      (fixes_or_fits edit edited).elim (fits edit edited) id⟩
  · rw [applies_iff, accepted_iff]
    exact comment_fits isComment
  · rw [applies_iff, accepted_iff] at applied
    rw [back]
    refine List.map_congr_left fun edit edited => ?_
    have fits := applied edit edited
    have stop_le : edit.stop ≤ document.lines.length := by
      rw [current.lines]
      exact stop_le_of_fits fits
    rw [Nat.min_eq_left (fits.ordered.trans stop_le), Nat.min_eq_left stop_le]

theorem codeActions_applicable_semicolon :
    let text := "var a = 1\n"
    let edit := Edit.insertion 9 ";"
    let dialogue := openedWith text edit
    let document : Document := ⟨semicolonUri, 1, .ofText text⟩
    Current dialogue.session semicolonUri document (looseLint text edit) ∧
      document.lines.lineCount < 2 ^ 32 ∧ document.lines.length < 2 ^ 32 ∧
      ∃ offer ∈ dialogue.session.answered semicolonUri document.lines
          (dialogue.client.shown semicolonUri),
        let action := CodeAction.ofFix semicolonUri document.lines offer.1 offer.2
        offer.1.kind = .single ∧ (∃ result, Edit.applyAll text offer.1.edits = .ok result) ∧
          action.edits.map (·.range.offsets? document.lines) = [some (9, 9)] := by
  intro text edit dialogue document
  obtain ⟨current, -⟩ := openedWith_current text edit
  obtain ⟨offer, answered, isSingle, edits, -⟩ := openedWith_offers text edit
  have fewLines : document.lines.lineCount < 2 ^ 32 := by cbv
  have fewUnits : document.lines.length < 2 ^ 32 := by cbv
  obtain ⟨-, each⟩ := codeActions_applicable current fewLines fewUnits
    (dialogue.client.shown semicolonUri)
  obtain ⟨applies_iff, -, -, leadBack⟩ := each offer answered fun ofRule => by
    cases isSingle.symm.trans ofRule
  have alone : ∃ result, Edit.applyAll text [edit] = .ok result := ⟨"var a = 1;\n", by cbv⟩
  have applies : ∃ result, Edit.applyAll text offer.1.edits = .ok result := by
    refine applies_iff.mpr fun other edited _ => ?_
    rw [edits, List.mem_singleton] at edited
    rwa [edited]
  refine ⟨current, fewLines, fewUnits, offer, answered, isSingle, applies, ?_⟩
  rw [leadBack applies, edits]
  rfl

/-! ## Where the fix that is offered is another one -/

/-- A fix is offered whose range leads back to other offsets than its own. -/
def Moves (text : String) (edit : Edit) (back : Nat × Nat) : Prop :=
  let dialogue := openedWith text edit
  let shown := dialogue.client.shown semicolonUri
  ∃ document, Current dialogue.session semicolonUri document (looseLint text edit) ∧
    ∃ offer ∈ dialogue.session.answered semicolonUri document.lines shown,
      let action := CodeAction.ofFix semicolonUri document.lines offer.1 offer.2
      offer.1.kind = .single ∧ offer.1.edits = [edit] ∧
        action ∈ (dialogue.session.codeActions semicolonUri shown).1 ∧
        action.edits.map (·.range.offsets? document.lines) = [some back]

theorem moves_of_offsets? {text : String} {edit : Edit} {back : Nat × Nat}
    (leads : (Range.ofOffsets (.ofText text) edit.start edit.stop).offsets? (.ofText text) =
      some back) : Moves text edit back := by
  obtain ⟨current, -⟩ := openedWith_current text edit
  obtain ⟨offer, answered, isSingle, edits, acted⟩ := openedWith_offers text edit
  refine ⟨_, current, offer, answered, isSingle, edits, acted, ?_⟩
  rw [CodeAction.ofFix, edits]
  exact congrArg (fun place => [place]) leads

theorem moves_oneLine {count : Nat} (wraps : count % 2 ^ 32 = 0) :
    Moves (oneLine count) (.insertion count ";") (0, 0) := by
  apply moves_of_offsets?
  have back : (⟨0, 0⟩ : Position).offset? (.ofText (oneLine count)) = some 0 := offsetAt_origin _
  simp only [Range.ofOffsets, Range.offsets?, Edit.insertion, ofOffset_oneLine wraps, back]
  rfl

theorem codeActions_moved :
    (Moves "var a = 1\n" ⟨100, 100, ";"⟩ (10, 10) ∧
        Edit.applyAll "var a = 1\n" [⟨100, 100, ";"⟩] = .error (.invalidEdit 100 100)) ∧
      Moves (oneLine (2 ^ 32)) (.insertion (2 ^ 32) ";") (0, 0) ∧
        ∃ result, Edit.applyAll (oneLine (2 ^ 32)) [.insertion (2 ^ 32) ";"] = .ok result :=
  ⟨⟨moves_of_offsets? (by cbv), by cbv⟩, moves_oneLine (Nat.mod_self _), _, applyAll_oneLine _⟩

end EditorLint.Server
