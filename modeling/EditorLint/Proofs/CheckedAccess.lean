import EditorLint.Proofs.Edit.Acceptance
import EditorLint.Proofs.Text.PlainScan
import EditorLint.Proofs.WordArithmetic
import Mathlib

/-!
Positions, byte offsets and edited texts computed with every access checked: each line that is looked
up must be in the table, each difference must not go below zero, and each cut must be one between
characters of the text. No check ever fails, whatever the offsets and the edits are.
-/

namespace EditorLint

open Text

/-! ## Cuts of a text -/

theorem isValid_iff_exists_bytes {text : String} {byte : Nat} :
    (⟨byte⟩ : String.Pos.Raw).IsValid text ↔
      ∃ front back, text.toList = front ++ back ∧ bytes front = byte := by
  rw [String.Pos.Raw.isValid_iff_exists_append]
  constructor
  · rintro ⟨front, back, rfl, place⟩
    refine ⟨front.toList, back.toList, String.toList_append, ?_⟩
    rw [← utf8ByteSize_eq_bytes]
    exact (congrArg (·.byteIdx) place).symm
  · rintro ⟨front, back, split, rfl⟩
    refine ⟨String.ofList front, String.ofList back, ?_, ?_⟩
    · rw [← String.ofList_append, ← split, String.ofList_toList]
    · have size : (String.ofList front).utf8ByteSize = bytes front := by
        rw [utf8ByteSize_eq_bytes, String.toList_ofList]
      rw [← size]
      rfl

theorem dropBytes?_isSome_iff {text : String} {byte : Nat} :
    (dropBytes? text.toList byte).isSome ↔ (⟨byte⟩ : String.Pos.Raw).IsValid text := by
  simp only [Option.isSome_iff_exists, dropBytes?_eq_some_iff, isValid_iff_exists_bytes]
  exact exists_comm

/-- A text can be cut between two bytes exactly if they are in order, inside the text, and both
boundaries between characters. -/
theorem slice?_isSome_iff {text : String} {start stop : Nat} :
    (slice? text.toList start stop).isSome ↔
      start ≤ stop ∧ stop ≤ text.utf8ByteSize ∧ (⟨start⟩ : String.Pos.Raw).IsValid text ∧
        (⟨stop⟩ : String.Pos.Raw).IsValid text := by
  simp only [Option.isSome_iff_exists, slice?_eq_some_iff, isValid_iff_exists_bytes,
    utf8ByteSize_eq_bytes]
  constructor
  · rintro ⟨middle, front, back, split, rfl, rfl⟩
    refine ⟨by simp, by simp [split], ⟨front, middle ++ back, ?_, rfl⟩, front ++ middle, back,
      split, rfl⟩
    rw [split, List.append_assoc]
  · rintro ⟨order, -, ⟨front, behind, split, rfl⟩, before, back, otherSplit, rfl⟩
    obtain ⟨middle, rfl, rfl⟩ :=
      bytes_isMeasure.split_between (split.symm.trans otherSplit) order
    exact ⟨middle, front, back, otherSplit, rfl, rfl⟩

/-! ## Offsets -/

namespace LineTable

variable {table : LineTable}

/-- The line of an offset; there is none when the search ends before the first line. -/
def checkedLineOf (table : LineTable) (offset : Nat) : Option Nat :=
  match probe table.starts offset 0 table.starts.size with
  | .startsHere line => some line
  | .before count => Word.difference? count 1

def checkedPositionAt (table : LineTable) (offset : Nat) : Option (Nat × Nat) := do
  let clamped := min offset table.length
  let line ← table.checkedLineOf clamped
  let start ← table.starts[line]?
  return (line, ← Word.difference? clamped start.units)

def checkedByteOffset (table : LineTable) (offset : Nat) : Option (Option Nat) :=
  if table.length < offset then some none
  else do
    let (line, character) ← table.checkedPositionAt offset
    let start ← table.starts[line]?
    let rest ← dropBytes? table.text.toList start.bytes
    return bytesBefore start.bytes character rest

theorem checkedLineOf_eq (wellFormed : table.WellFormed) (offset : Nat) :
    table.checkedLineOf offset = some (table.lineOf offset) := by
  unfold checkedLineOf lineOf
  cases outcome : probe table.starts offset 0 table.starts.size with
  | startsHere line => rfl
  | before count => exact Word.difference?_of_le (probe_before wellFormed outcome).1

theorem checkedPositionAt_eq (wellFormed : table.WellFormed) (offset : Nat) :
    table.checkedPositionAt offset = some (table.positionAt offset) := by
  obtain ⟨start, atLine, before, -⟩ := lineOf_spec wellFormed (min offset table.length)
  simp only [checkedPositionAt, positionAt, checkedLineOf_eq wellFormed, startOf, atLine,
    Word.difference?_of_le before, Option.bind_eq_bind, Option.bind_some, Option.getD_some]
  rfl

theorem checkedByteOffset_eq (wellFormed : table.WellFormed) (offset : Nat) :
    table.checkedByteOffset offset = some (table.byteOffset offset) := by
  unfold checkedByteOffset byteOffset
  by_cases past : table.length < offset
  · rw [if_pos past, if_pos past]
  · obtain ⟨start, atLine, -⟩ := lineOf_spec wellFormed (min offset table.length)
    obtain ⟨front, back, split, rfl⟩ := wellFormed.places _ start atLine
    have dropped : dropBytes? table.text.toList (bytes front) = some back := by
      rw [split, dropBytes?_append]
    have line : (table.positionAt offset).1 = table.lineOf (min offset table.length) := rfl
    simp only [if_neg past, checkedPositionAt_eq wellFormed, Option.bind_eq_bind, Option.bind_some,
      line, startOf, atLine, Option.getD_some, dropped]
    rfl

end LineTable

/-! ## Edited texts -/

namespace Edit

/-- The edited text from the byte `cursor` of the old one on, or the refusal of an edit. There is
neither when a cut is not one of the text. -/
def checkedApplyFrom (table : LineTable) (cursor : Nat) :
    List Edit → Option (Except LintError (List Char))
  | [] => (slice? table.text.toList cursor (bytes table.text.toList)).map .ok
  | edit :: rest => do
    let refusal : LintError := .invalidEdit edit.start edit.stop
    if edit.stop < edit.start then return .error refusal
    let some start ← table.checkedByteOffset edit.start | return .error refusal
    let some stop ← table.checkedByteOffset edit.stop | return .error refusal
    if start < cursor then return .error refusal
    let kept ← slice? table.text.toList cursor start
    let later ← checkedApplyFrom table stop rest
    return later.map (kept ++ edit.text.toList ++ ·)

def checkedApplyAll (text : String) (edits : List Edit) : Option (Except LintError String) :=
  (checkedApplyFrom (LineTable.ofText text) 0 edits).map (·.map String.ofList)

theorem checkedApplyFrom_eq {table : LineTable} (wellFormed : table.WellFormed)
    {front back : List Char} (split : table.text.toList = front ++ back) (edits : List Edit) :
    checkedApplyFrom table (bytes front) edits =
      some ((piecesFrom table (bytes front) edits).map
        (·.flatMap (Piece.chars table.text.toList))) := by
  -- The cursor stays on a place of the text, so that the next cut starts at one.
  induction edits generalizing front back with
  | nil =>
      have cut : slice? table.text.toList (bytes front) (bytes table.text.toList) = some back :=
        slice?_eq_some_iff.mpr ⟨front, [], by rw [split, List.append_nil], rfl, by rw [split]⟩
      simp [checkedApplyFrom, piecesFrom, Piece.chars, cut, Except.map]
  | cons edit rest ih =>
      unfold checkedApplyFrom piecesFrom
      simp only [LineTable.checkedByteOffset_eq wellFormed, Option.bind_eq_bind, Option.bind_some]
      by_cases reversed : edit.stop < edit.start
      · simp [reversed, Except.map]
      cases startFound : table.byteOffset edit.start with
      | none => simp [reversed, Except.map]
      | some start =>
          cases stopFound : table.byteOffset edit.stop with
          | none => simp [reversed, Except.map]
          | some stop =>
              by_cases early : start < bytes front
              · simp [reversed, early, Except.map]
              obtain ⟨before, behind, startSplit, startPlace⟩ :=
                (LineTable.byteOffset_eq_some_iff_isPlace wellFormed _ _).mp startFound
              obtain ⟨untilStop, afterStop, stopSplit, stopPlace⟩ :=
                (LineTable.byteOffset_eq_some_iff_isPlace wellFormed _ _).mp stopFound
              obtain ⟨-, rfl⟩ := LineStart.mk.inj startPlace
              obtain ⟨-, rfl⟩ := LineStart.mk.inj stopPlace
              obtain ⟨kept, rfl, -⟩ :=
                bytes_isMeasure.split_between (split.symm.trans startSplit) (Nat.not_lt.mp early)
              have cut : slice? table.text.toList (bytes front) (bytes (front ++ kept)) = some kept :=
                slice?_eq_some_iff.mpr ⟨front, behind, startSplit, rfl, rfl⟩
              simp only [reversed, early, if_false, Option.bind_some, cut, ih stopSplit]
              cases piecesFrom table (bytes untilStop) rest with
              | error error => rfl
              | ok pieces =>
                  simp only [Except.map, List.flatMap_cons, Piece.chars, cut, Option.getD_some,
                    List.append_assoc]
                  rfl

theorem checkedApplyAll_eq (text : String) (edits : List Edit) :
    checkedApplyAll text edits = some (applyAll text edits) := by
  have start : (LineTable.ofText text).text.toList = [] ++ text.toList := rfl
  have scanned : checkedApplyFrom (LineTable.ofText text) 0 edits = _ :=
    checkedApplyFrom_eq (LineTable.ofText_wellFormed text) start edits
  rw [checkedApplyAll, applyAll, scanned]
  simp only [bytes]
  cases piecesFrom (LineTable.ofText text) 0 edits <;> rfl

end Edit

/-- No offset and no edit leads outside of a text. The search for the line of an offset never ends
before the first line, and the line it finds starts at or before the offset and between two
characters. Computed with every access checked, positions, byte offsets and edited texts come to the
same as without, also when a batch is refused halfway. -/
theorem accesses_stay_in_text (text : String) :
    let table := LineTable.ofText text
    (∀ offset,
      let clamped := min offset table.length
      LineTable.probe table.starts clamped 0 table.starts.size ≠ .before 0 ∧
        (∃ start, table.starts[(table.positionAt offset).1]? = some start ∧
          start.units ≤ clamped ∧ start.bytes ≤ text.utf8ByteSize ∧
          (⟨start.bytes⟩ : String.Pos.Raw).IsValid text) ∧
        table.checkedPositionAt offset = some (table.positionAt offset) ∧
        table.checkedByteOffset offset = some (table.byteOffset offset)) ∧
      (∀ byte, (dropBytes? text.toList byte).isSome ↔ (⟨byte⟩ : String.Pos.Raw).IsValid text) ∧
      (∀ start stop, (slice? text.toList start stop).isSome ↔
        start ≤ stop ∧ stop ≤ text.utf8ByteSize ∧ (⟨start⟩ : String.Pos.Raw).IsValid text ∧
          (⟨stop⟩ : String.Pos.Raw).IsValid text) ∧
      ∀ edits, Edit.checkedApplyAll text edits = some (Edit.applyAll text edits) := by
  intro table
  have wellFormed := LineTable.ofText_wellFormed text
  refine ⟨fun offset => ⟨?_, ?_, LineTable.checkedPositionAt_eq wellFormed offset,
    LineTable.checkedByteOffset_eq wellFormed offset⟩, fun _ => dropBytes?_isSome_iff,
    fun _ _ => slice?_isSome_iff, Edit.checkedApplyAll_eq text⟩
  · intro outcome
    exact absurd (LineTable.probe_before wellFormed outcome).1 (Nat.lt_irrefl 0)
  · obtain ⟨start, atLine, before, -⟩ := LineTable.lineOf_spec wellFormed (min offset table.length)
    obtain ⟨front, back, split, rfl⟩ := wellFormed.places _ start atLine
    have split : text.toList = front ++ back := split
    refine ⟨_, atLine, before, ?_, isValid_iff_exists_bytes.mpr ⟨front, back, split, rfl⟩⟩
    simp [utf8ByteSize_eq_bytes, split]

end EditorLint
