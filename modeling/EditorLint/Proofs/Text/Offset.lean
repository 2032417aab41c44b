import EditorLint.Proofs.Text.LineTable

/-!
The offsets at which a text can be cut: all up to its length but those between the two units of
one character. Where both have one, a place further on has more units and more bytes before it.
-/

namespace EditorLint

namespace Text

def InsidePair (chars : List Char) (offset : Nat) : Prop :=
  ∃ front c back, chars = front ++ c :: back ∧ charUnits c = 2 ∧ offset = units front + 1

def IsBoundary (chars : List Char) (offset : Nat) : Prop :=
  offset ≤ units chars ∧ ¬InsidePair chars offset

theorem not_insidePair_units {chars front back : List Char} (split : chars = front ++ back) :
    ¬InsidePair chars (units front) := by
  rintro ⟨lead, c, rest, pairSplit, pair, inside⟩
  -- The places before and behind the pair would have to enclose the cut.
  obtain ⟨middle, front_eq, rest_eq⟩ :=
    units_isMeasure.split_between (pairSplit.symm.trans split) (by omega)
  cases middle with
  | nil => simp [front_eq] at inside
  | cons d middle =>
      obtain ⟨rfl, -⟩ := List.cons.inj rest_eq
      simp only [front_eq, units_append, units] at inside
      omega

theorem isBoundary_iff_exists_split (chars : List Char) (offset : Nat) :
    IsBoundary chars offset ↔ ∃ front back, chars = front ++ back ∧ units front = offset := by
  constructor
  · rintro ⟨bound, apart⟩
    induction chars generalizing offset with
    | nil => exact ⟨[], [], rfl, by simpa [units, eq_comm] using bound⟩
    | cons c rest ih =>
        have positive := charUnits_pos c
        have small := charUnits_le_two c
        simp only [units] at bound
        by_cases first : offset = 0
        · exact ⟨[], c :: rest, rfl, first.symm⟩
        · by_cases inside : offset < charUnits c
          · exact absurd ⟨[], c, rest, rfl, by omega, by simp only [units]; omega⟩ apart
          · have restApart : ¬InsidePair rest (offset - charUnits c) := by
              rintro ⟨front, d, back, split, pair, place⟩
              refine apart ⟨c :: front, d, back, by simp [split], pair, ?_⟩
              simp only [units]
              omega
            obtain ⟨front, back, split, size⟩ := ih _ (by omega) restApart
            refine ⟨c :: front, back, by simp [split], ?_⟩
            simp only [units]
            omega
  · rintro ⟨front, back, split, rfl⟩
    exact ⟨by simp [split], not_insidePair_units split⟩

/-- The text before an offset, and the text from it on. -/
def cutAt? : List Char → Nat → Option (List Char × List Char)
  | chars, 0 => some ([], chars)
  | [], _ + 1 => none
  | c :: rest, offset =>
    if charUnits c ≤ offset then
      (cutAt? rest (offset - charUnits c)).map fun (front, back) => (c :: front, back)
    else none

theorem cutAt?_append (front back : List Char) :
    cutAt? (front ++ back) (units front) = some (front, back) := by
  induction front with
  | nil => cases back <;> rfl
  | cons c rest ih =>
      have positive := charUnits_pos c
      rw [List.cons_append, units, cutAt?, if_pos (Nat.le_add_right ..), Nat.add_sub_cancel_left,
        ih, Option.map_some]
      omega

end Text

open Text

/-- What has more before it in one measure has more before it in any other. -/
theorem Text.IsMeasure.lt_of_lt {size other : List Char → Nat} (measure : IsMeasure size)
    (otherMeasure : IsMeasure other) {front back front' back' : List Char}
    (same : front ++ back = front' ++ back') (less : size front < size front') :
    other front < other front' := by
  obtain ⟨middle, rfl, -⟩ := measure.split_between same (Nat.le_of_lt less)
  cases middle with
  | nil => simp at less
  | cons c rest =>
      have positive := otherMeasure.positive c rest
      rw [otherMeasure.append]
      omega

theorem IsPlace.bytes_lt_iff {chars : List Char} {first second : LineStart}
    (firstPlace : IsPlace chars first) (secondPlace : IsPlace chars second) :
    first.bytes < second.bytes ↔ first.units < second.units := by
  obtain ⟨front, back, split, rfl⟩ := firstPlace
  obtain ⟨front', back', split', rfl⟩ := secondPlace
  have same := split.symm.trans split'
  exact ⟨bytes_isMeasure.lt_of_lt units_isMeasure same,
    units_isMeasure.lt_of_lt bytes_isMeasure same⟩

namespace LineTable

theorem byteOffset_isBoundary {table : LineTable} (wellFormed : table.WellFormed) {offset byte : Nat}
    (found : table.byteOffset offset = some byte) : IsBoundary table.text.toList offset := by
  obtain ⟨front, back, split, place⟩ := (byteOffset_eq_some_iff_isPlace wellFormed _ _).mp found
  exact (isBoundary_iff_exists_split _ _).mpr ⟨front, back, split, (LineStart.mk.inj place).1.symm⟩

theorem exists_byteOffset {table : LineTable} (wellFormed : table.WellFormed) {offset : Nat}
    (boundary : IsBoundary table.text.toList offset) : ∃ byte, table.byteOffset offset = some byte := by
  obtain ⟨front, back, split, rfl⟩ := (isBoundary_iff_exists_split _ _).mp boundary
  exact ⟨bytes front, (byteOffset_eq_some_iff_isPlace wellFormed _ _).mpr ⟨front, back, split, rfl⟩⟩

end LineTable

end EditorLint
