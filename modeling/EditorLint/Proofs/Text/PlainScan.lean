import EditorLint.Proofs.Text.Offset
import Mathlib.Data.Set.Function

/-!
The byte offset that is counted from the start of a line is the one that a scan of the whole text
finds. It takes the offsets at which the text can be cut to the boundaries between its characters,
in their order and onto all of them.
-/

namespace EditorLint

namespace Text

theorem utf8ByteSize_eq_bytes (text : String) : text.utf8ByteSize = bytes text.toList := by
  have ofChars (chars : List Char) : (String.ofList chars).utf8ByteSize = bytes chars := by
    induction chars with
    | nil => rfl
    | cons c rest ih =>
        rw [String.ofList_cons, String.utf8ByteSize_append, String.utf8ByteSize_singleton, ih, bytes]
  rw [← ofChars, String.ofList_toList]

end Text

open Text

theorem isPlace_iff_exists_append {text : String} {offset byte : Nat} :
    IsPlace text.toList ⟨offset, byte⟩ ↔
      ∃ front back : String, text = front ++ back ∧ units front.toList = offset ∧
        front.utf8ByteSize = byte := by
  constructor
  · rintro ⟨front, back, split, place⟩
    obtain ⟨rfl, rfl⟩ := LineStart.mk.inj place
    refine ⟨String.ofList front, String.ofList back, ?_, by simp, ?_⟩
    · rw [← String.ofList_append, ← split, String.ofList_toList]
    · rw [utf8ByteSize_eq_bytes, String.toList_ofList]
  · rintro ⟨front, back, rfl, rfl, rfl⟩
    exact ⟨front.toList, back.toList, String.toList_append, by rw [utf8ByteSize_eq_bytes]⟩

namespace LineTable

variable {table : LineTable} {offset byte : Nat}

theorem byteOffset_eq_bytesBefore (wellFormed : table.WellFormed) (offset : Nat) :
    table.byteOffset offset = bytesBefore 0 offset table.text.toList := by
  ext byte
  rw [byteOffset_eq_some_iff_isPlace wellFormed, bytesBefore_eq_some_iff]
  constructor
  · rintro ⟨front, back, split, place⟩
    obtain ⟨rfl, rfl⟩ := LineStart.mk.inj place
    exact ⟨front, back, split, rfl, (Nat.zero_add _).symm⟩
  · rintro ⟨front, back, split, rfl, rfl⟩
    exact ⟨front, back, split, by rw [Nat.zero_add]⟩

theorem byteOffset_eq_none_iff (wellFormed : table.WellFormed) :
    table.byteOffset offset = none ↔
      table.length < offset ∨ InsidePair table.text.toList offset := by
  rw [wellFormed.length_eq]
  constructor
  · intro missing
    by_cases past : units table.text.toList < offset
    · exact Or.inl past
    · refine Or.inr (Classical.byContradiction fun apart => ?_)
      obtain ⟨byte, found⟩ := exists_byteOffset wellFormed ⟨Nat.not_lt.mp past, apart⟩
      cases missing.symm.trans found
  · intro outside
    cases found : table.byteOffset offset with
    | none => rfl
    | some byte =>
        obtain ⟨bound, apart⟩ := byteOffset_isBoundary wellFormed found
        rcases outside with past | inside
        · omega
        · exact absurd inside apart

theorem byteOffset_lt (wellFormed : table.WellFormed) {later laterByte : Nat}
    (found : table.byteOffset offset = some byte)
    (laterFound : table.byteOffset later = some laterByte) (less : offset < later) :
    byte < laterByte := by
  rw [byteOffset_eq_some_iff_isPlace wellFormed] at found laterFound
  exact (found.bytes_lt_iff laterFound).mpr less

theorem byteOffset_eq_some_iff_exists_append {text : String} :
    (ofText text).byteOffset offset = some byte ↔
      ∃ front back : String, text = front ++ back ∧ units front.toList = offset ∧
        front.utf8ByteSize = byte :=
  (byteOffset_eq_some_iff_isPlace (ofText_wellFormed text) _ _).trans isPlace_iff_exists_append

/-- The offsets at which a text can be cut belong to the boundaries between its characters. -/
theorem exists_byteOf (text : String) :
    ∃ byteOf : Nat → Nat,
      (∀ offset, IsBoundary text.toList offset →
        (ofText text).byteOffset offset = some (byteOf offset)) ∧
      StrictMonoOn byteOf {offset | IsBoundary text.toList offset} ∧
      Set.BijOn byteOf {offset | IsBoundary text.toList offset}
        {byte | (⟨byte⟩ : String.Pos.Raw).IsValid text} := by
  have wellFormed := ofText_wellFormed text
  let byteOf (offset : Nat) : Nat := ((ofText text).byteOffset offset).getD 0
  have known (offset : Nat) (boundary : IsBoundary text.toList offset) :
      (ofText text).byteOffset offset = some (byteOf offset) := by
    obtain ⟨byte, found⟩ := exists_byteOffset wellFormed boundary
    simp only [byteOf, found, Option.getD_some]
  have increasing : StrictMonoOn byteOf {offset | IsBoundary text.toList offset} :=
    fun offset boundary later laterBoundary less =>
      byteOffset_lt wellFormed (known offset boundary) (known later laterBoundary) less
  refine ⟨byteOf, known, increasing, ?mapsTo, increasing.injOn, ?surjOn⟩
  case mapsTo =>
    intro offset boundary
    obtain ⟨front, back, split, -, size⟩ :=
      byteOffset_eq_some_iff_exists_append.mp (known offset boundary)
    exact String.Pos.Raw.isValid_iff_exists_append.mpr ⟨front, back, split, by rw [← size]; rfl⟩
  case surjOn =>
    intro byte valid
    obtain ⟨front, back, split, place⟩ := String.Pos.Raw.isValid_iff_exists_append.mp valid
    have found : (ofText text).byteOffset (units front.toList) = some byte :=
      byteOffset_eq_some_iff_exists_append.mpr
        ⟨front, back, split, rfl, (congrArg (·.byteIdx) place).symm⟩
    refine ⟨units front.toList, byteOffset_isBoundary wellFormed found, ?_⟩
    simp only [byteOf, found, Option.getD_some]

/-- A byte offset counted from the start of a line is the one that a scan of the text finds. There is
none past the end of the text and inside a surrogate pair, and from all other offsets on the byte
offsets go in order through the boundaries between the characters. -/
theorem byteOffset_scans_text (text : String) :
    let table := ofText text
    (∀ offset byte, table.byteOffset offset = some byte ↔
        ∃ front back : String, text = front ++ back ∧ units front.toList = offset ∧
          front.utf8ByteSize = byte) ∧
      (∀ offset, table.byteOffset offset = bytesBefore 0 offset text.toList) ∧
      (∀ offset, table.byteOffset offset = none ↔
        table.length < offset ∨ InsidePair text.toList offset) ∧
      ∃ byteOf : Nat → Nat,
        (∀ offset, IsBoundary text.toList offset →
          table.byteOffset offset = some (byteOf offset)) ∧
        StrictMonoOn byteOf {offset | IsBoundary text.toList offset} ∧
        Set.BijOn byteOf {offset | IsBoundary text.toList offset}
          {byte | (⟨byte⟩ : String.Pos.Raw).IsValid text} := by
  have wellFormed := ofText_wellFormed text
  exact ⟨fun _ _ => byteOffset_eq_some_iff_exists_append, byteOffset_eq_bytesBefore wellFormed,
    fun _ => byteOffset_eq_none_iff wellFormed, exists_byteOf text⟩

end LineTable

end EditorLint
