import EditorLint.Proofs.Text.Lines
import Mathlib.Data.Prod.Lex
import Mathlib.Order.Interval.Set.Defs

/-!
Offsets and positions can be read back from each other. Only the position behind the terminator of
a line is read back as another one, the start of the next line.
-/

namespace EditorLint.LineTable

open Text

variable {text : String} {line character offset : Nat}

theorem positionAt_of_length_le {table : LineTable} (beyond : table.length ≤ offset) :
    table.positionAt offset = table.positionAt table.length := by
  simp only [positionAt, Nat.min_eq_right beyond, Nat.min_self]

theorem positionAt_strictMonoOn {table : LineTable} (wellFormed : table.WellFormed) :
    StrictMonoOn (fun offset => toLex (table.positionAt offset)) (Set.Iic table.length) := by
  intro offset _ later bound less
  rw [Prod.Lex.toLex_lt_toLex]
  have apart : (table.positionAt offset).1 = (table.positionAt later).1 →
      (table.positionAt offset).2 ≠ (table.positionAt later).2 := by
    intro sameLine sameCharacter
    -- Both offsets could be read back from the one position.
    have back := offsetAt_positionAt wellFormed (Nat.le_trans (Nat.le_of_lt less) bound)
    rw [sameLine, sameCharacter, offsetAt_positionAt wellFormed bound] at back
    exact Nat.ne_of_gt less (Option.some.inj back)
  rcases positionAt_mono wellFormed (Nat.le_of_lt less) bound with earlier | ⟨sameLine, order⟩
  · exact Or.inl earlier
  · exact Or.inr ⟨sameLine, Nat.lt_of_le_of_ne order (apart sameLine)⟩

theorem exists_offsetAt_iff :
    (∃ offset, (ofText text).offsetAt line character = some offset) ↔
      ∃ content, (lines text.toList)[line]? = some content ∧ character ≤ units content := by
  simp only [offsetAt_ofText]
  constructor
  · rintro ⟨offset, content, found, inside, -⟩
    exact ⟨content, found, inside⟩
  · rintro ⟨content, found, inside⟩
    exact ⟨_, content, found, inside, rfl⟩

theorem positionAt_offsetAt_of_lt {table : LineTable} (wellFormed : table.WellFormed)
    (found : table.offsetAt line character = some offset)
    (before : ∀ next : LineStart, table.starts[line + 1]? = some next → offset < next.units) :
    table.positionAt offset = (line, character) := by
  rw [positionAt_of_le (offsetAt_le_length wellFormed found)]
  obtain ⟨start, atLine, rfl, -⟩ := offsetAt_eq_some_iff.mp found
  rw [lineOf_eq wellFormed atLine (Nat.le_add_right _ _) before, startOf, atLine, Option.getD_some,
    Nat.add_sub_cancel_left]

/-- The position behind the last character of a line is read back as the start of the next line. -/
theorem positionAt_offsetAt (found : (ofText text).offsetAt line character = some offset) :
    (ofText text).positionAt offset =
      if line + 1 < (lines text.toList).length ∧
          (lines text.toList)[line]?.map units = some character then (line + 1, 0)
      else (line, character) := by
  have wellFormed := ofText_wellFormed text
  obtain ⟨content, listed, inside, place⟩ := offsetAt_ofText.mp found
  obtain ⟨front, -, -, before, behind⟩ := exists_around_line listed
  have nextLine := starts_ofText text (line + 1)
  rw [behind, units_append] at nextLine
  rw [before] at place
  simp only [listed, Option.map_some, Option.some.injEq]
  by_cases passes : line + 1 < (lines text.toList).length ∧ units content = character
  · -- The offset is also that of the first position of the next line, which is the one read back.
    rw [if_pos passes]
    obtain ⟨later, rfl⟩ := passes
    rw [if_pos later, ← place] at nextLine
    have first : (ofText text).offsetAt (line + 1) 0 = some offset := by
      rw [offsetAt_ofText]
      exact ⟨_, List.getElem?_eq_getElem later, Nat.zero_le _, by simpa [behind] using place⟩
    refine positionAt_offsetAt_of_lt wellFormed first fun next atNext => ?_
    exact wellFormed.increasing _ _ _ _ (Nat.lt_succ_self _) nextLine atNext
  · rw [if_neg passes]
    refine positionAt_offsetAt_of_lt wellFormed found fun next atNext => ?_
    rw [nextLine, Option.ite_none_right_eq_some] at atNext
    obtain ⟨later, same⟩ := atNext
    obtain rfl := Option.some.inj same
    have short : units content ≠ character := fun full => passes ⟨later, full⟩
    simp only
    omega

/-- Positions stand for offsets. The position of an offset is on a line of the text and stands for
that offset, and positions come in the order of the offsets up to the end of the text. -/
theorem positions_stand_for_offsets (text : String) :
    let table := ofText text
    let lines := lines text.toList
    CutIntoLines text.toList lines ∧
      (∀ offset ≤ table.length, (table.positionAt offset).1 < lines.length ∧
        table.offsetAt (table.positionAt offset).1 (table.positionAt offset).2 = some offset) ∧
      StrictMonoOn (fun offset => toLex (table.positionAt offset)) (Set.Iic table.length) ∧
      (∀ offset, table.length ≤ offset →
        table.positionAt offset = table.positionAt table.length) ∧
      (∀ line character, (∃ offset, table.offsetAt line character = some offset) ↔
        ∃ content, lines[line]? = some content ∧ character ≤ units content) ∧
      ∀ line character offset, table.offsetAt line character = some offset →
        table.positionAt offset =
          if line + 1 < lines.length ∧ lines[line]?.map units = some character then (line + 1, 0)
          else (line, character) := by
  have wellFormed := ofText_wellFormed text
  refine ⟨lines_cutIntoLines text.toList,
    fun offset bound => ⟨?_, offsetAt_positionAt wellFormed bound⟩,
    positionAt_strictMonoOn wellFormed, fun _ => positionAt_of_length_le,
    fun _ _ => exists_offsetAt_iff, fun _ _ _ => positionAt_offsetAt⟩
  rw [← lineCount_ofText]
  exact (positionAt_lt wellFormed bound).1

end EditorLint.LineTable
