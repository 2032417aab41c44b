import EditorLint.Proofs.Edit.Layout
import EditorLint.Proofs.FixAction
import EditorLint.Proofs.Service.Located
import EditorLint.Proofs.Text.InsertedLine

/-!
The remedy that turns a rule off, carried out. It puts one line into the text, right above the line
of the finding, and moves all that stands behind by that line.
-/

namespace EditorLint

open Text

namespace FixAction

variable {rule : String}

theorem disableComment_standsApart (unbroken : Unbroken rule.toList) :
    StandsApart (disableComment rule).toList := by
  have chars : (disableComment rule).toList =
      "// eslint-disable-next-line ".toList ++ rule.toList ++ ['\n'] := by
    simp [disableComment, diagnosticSource]
  have plain : Unbroken "// eslint-disable-next-line ".toList := by
    intro c member ends
    cases ends <;> exact absurd member (by decide)
  rw [chars]
  constructor
  · refine ⟨_, _, rfl, ?_, .lineFeed⟩
    intro c member
    rcases List.mem_append.mp member with fixed | named
    · exact plain c fixed
    · exact unbroken c named
  · simp
  · rw [List.getLast?_concat]
    decide

theorem applyAll_comment {text : String} {line lineStart : Nat} (comment : String)
    (placed : (LineTable.ofText text).offsetAt line 0 = some lineStart) :
    Edit.applyAll text [.insertion lineStart comment] =
      .ok (String.ofList (insertLine text.toList line comment.toList)) := by
  obtain ⟨content, -, -, rfl⟩ := LineTable.offsetAt_ofText.mp placed
  apply (Edit.applyAll_singleton_eq_ok_iff _ _ _).mpr
  refine ⟨beforeLine text.toList line, [], fromLine text.toList line, ?_, rfl, ?_, rfl⟩
  · rw [List.append_nil, beforeLine_append_fromLine]
  · rw [List.append_nil]
    rfl

variable {policy : BatchPolicy} {file : String} {index : FindingIndex} {target : IndexedFinding}
  {positionOf : Nat → Nat → Except LintError Nat}

theorem disableRule_of_placed {lineStart : Nat} (named : target.rule = some rule)
    (placed : positionOf (target.finding.startLine - 1) 0 = .ok lineStart) :
    disableRule file target positionOf =
      .ok (some (onFile .disableRule "disable-rule" ("Disable rule '" ++ rule ++ "'") file
        [.insertion lineStart (disableComment rule)])) := by
  simp only [disableRule, named, placed]
  rfl

/-- Where the rule of a finding can be turned off, the remedies for the finding are assembled, and
one of them does it. -/
theorem assemble_of_disableRule {start stop : Nat} {action : FixAction}
    (disabled : disableRule file target positionOf = .ok (some action))
    (found : index.lookup start stop = some target) :
    ∃ actions, assemble policy file index start stop positionOf = .ok actions ∧
      actions.filter (·.kind = .disableRule) = [action] := by
  have others {remedy : Option FixAction} {kind : FixKind} (other : kind ≠ .disableRule)
      (kinds : ∀ action ∈ remedy, action.kind = kind) :
      remedy.toList.filter (·.kind = .disableRule) = [] := by
    apply List.filter_eq_nil_iff.mpr
    intro action listed
    rw [kinds action (Option.mem_toList.mp listed), decide_eq_true_eq]
    exact other
  have own : [action].filter (·.kind = .disableRule) = [action] := by
    apply List.filter_eq_self.mpr
    intro listed member
    obtain rfl := List.mem_singleton.mp member
    rw [kind_disableRule disabled listed rfl, decide_eq_true_eq]
  refine ⟨(single file target).toList ++ (allOfRule policy file index target).toList
    ++ (allAutoFixable file index).toList ++ [action], ?_, ?_⟩
  · simp only [assemble, found, disabled]
    rfl
  · rw [List.filter_append, List.filter_append, List.filter_append,
      others (by decide) kind_single, others (by decide) kind_allOfRule,
      others (by decide) kind_allAutoFixable, own]
    rfl

/-- Turning a rule off inserts exactly one line. The lines in front of the finding's line stay, the
comment stands right above that line, and from it on each position is found on the next line with
the same text behind it. -/
theorem disableRule_inserts_line {target : IndexedFinding} {text : String} (file : String)
    (named : target.rule = some rule) (unbroken : Unbroken rule.toList)
    (onLine : target.finding.startLine - 1 < (LineTable.ofText text).lineCount) :
    let line := target.finding.startLine - 1
    let comment := "// eslint-disable-next-line " ++ rule ++ "\n"
    let table := LineTable.ofText text
    let old := lines text.toList
    ∃ action edited,
      disableRule file target (table.positionOf file) = .ok (some action) ∧
      (∀ policy index start stop, index.lookup start stop = some target →
        ∃ actions, assemble policy file index start stop (table.positionOf file) = .ok actions ∧
          actions.filter (·.kind = .disableRule) = [action]) ∧
      Edit.applyAll text action.edits = .ok edited ∧
      CutIntoLines text.toList old ∧
      CutIntoLines edited.toList (old.take line ++ comment.toList :: old.drop line) ∧
      (LineTable.ofText edited).line? line = some comment.toList ∧
      ∀ later, line ≤ later →
        (LineTable.ofText edited).line? (later + 1) = table.line? later ∧
        ∀ character,
          (LineTable.ofText edited).offsetAt (later + 1) character =
            (table.offsetAt later character).map (· + units comment.toList) ∧
          ∀ offset, table.offsetAt later character = some offset →
            behind? edited.toList (offset + units comment.toList) = behind? text.toList offset := by
  intro line comment table old
  have apart : StandsApart comment.toList := disableComment_standsApart unbroken
  have inside : line < old.length := by
    rw [LineTable.lineCount_ofText] at onLine
    exact onLine
  have placed : table.offsetAt line 0 = some (units (beforeLine text.toList line)) := by
    apply LineTable.offsetAt_ofText.mpr
    exact ⟨old[line], List.getElem?_eq_getElem inside, Nat.zero_le _, rfl⟩
  let action := onFile .disableRule "disable-rule" ("Disable rule '" ++ rule ++ "'") file
    [.insertion (units (beforeLine text.toList line)) comment]
  have disabled : disableRule file target (table.positionOf file) = .ok (some action) :=
    disableRule_of_placed named (LineTable.positionOf_eq_ok_iff.mpr placed)
  let edited := String.ofList (insertLine text.toList line comment.toList)
  have edited_eq : edited.toList = insertLine text.toList line comment.toList := String.toList_ofList
  have applied : Edit.applyAll text action.edits = .ok edited := by
    rw [edits_onFile]
    exact applyAll_comment comment placed
  refine ⟨action, edited, disabled, ?_, applied, lines_cutIntoLines text.toList, ?_, ?_, ?_⟩
  · intro policy index start stop found
    exact assemble_of_disableRule disabled found
  · rw [edited_eq]
    exact insertLine_cutIntoLines inside apart
  · rw [LineTable.line?_ofText, edited_eq, lines_insertLine inside apart,
      List.getElem?_append_right (List.length_take_le _ _), List.length_take_of_le (Nat.le_of_lt inside),
      Nat.sub_self, List.getElem?_cons_zero]
  · intro later behind
    constructor
    · rw [LineTable.line?_ofText, LineTable.line?_ofText, edited_eq,
        lines_insertLine_behind inside apart behind]
    · intro character
      constructor
      · exact LineTable.offsetAt_insertLine edited_eq inside apart behind character
      · intro offset found
        rw [edited_eq]
        exact behind?_insertLine _ _ (LineTable.le_offsetAt behind found)

/-- The comment goes behind a lone carriage return, which stays a terminator of its own. -/
theorem disableRule_inserts_line_carriageReturn :
    let target : IndexedFinding := ⟨{ semicolonFinding with line := 3, column := 1 }, 5, 5⟩
    target.rule = some "semi" ∧ Unbroken "semi".toList ∧
      target.finding.startLine - 1 < (LineTable.ofText "a\r\nb\rc").lineCount ∧
      ∃ action edited,
        disableRule "a.js" target ((LineTable.ofText "a\r\nb\rc").positionOf "a.js") =
          .ok (some action) ∧
        Edit.applyAll "a\r\nb\rc" action.edits = .ok edited ∧
        CutIntoLines edited.toList ["a\r\n".toList, "b\r".toList,
          "// eslint-disable-next-line semi\n".toList, "c".toList] := by
  intro target
  have unbroken : Unbroken "semi".toList := by
    intro c member ends
    cases ends <;> exact absurd member (by decide)
  have onLine : target.finding.startLine - 1 < (LineTable.ofText "a\r\nb\rc").lineCount := by decide
  obtain ⟨action, edited, disabled, -, applied, -, cut, -⟩ :=
    disableRule_inserts_line "a.js" (rfl : target.rule = some "semi") unbroken onLine
  exact ⟨rfl, unbroken, onLine, action, edited, disabled, applied, cut⟩

end FixAction

end EditorLint
