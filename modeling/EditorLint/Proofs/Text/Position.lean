import EditorLint.Proofs.Text.LineTable

/-!
The positions of offsets. A position keeps the offset that it stands for, and positions come in the
order of their offsets. A position that points behind the terminator of a line stands for the same
offset as the start of the next line.
-/

namespace EditorLint.LineTable

variable {table : LineTable} {line character offset : Nat}

theorem units_le_length (wellFormed : table.WellFormed) {start : LineStart}
    (found : table.starts[line]? = some start) : start.units ≤ table.length := by
  rw [wellFormed.length_eq]
  exact (wellFormed.places line start found).units_le

theorem offsetAt_eq_some_iff :
    table.offsetAt line character = some offset ↔
      ∃ start, table.starts[line]? = some start ∧ offset = start.units + character ∧
        offset ≤ (table.starts[line + 1]?.map (·.units)).getD table.length := by
  unfold offsetAt
  cases table.starts[line]? with
  | none => simp
  | some start =>
      simp only [Option.ite_none_right_eq_some, Option.some.injEq]
      constructor
      · rintro ⟨inside, rfl⟩
        exact ⟨start, rfl, rfl, inside⟩
      · rintro ⟨_, rfl, rfl, inside⟩
        exact ⟨inside, rfl⟩

theorem offsetAt_le_length (wellFormed : table.WellFormed)
    (found : table.offsetAt line character = some offset) : offset ≤ table.length := by
  obtain ⟨start, -, -, inside⟩ := offsetAt_eq_some_iff.mp found
  cases next : table.starts[line + 1]? with
  | none => simpa [next] using inside
  | some nextStart =>
      rw [next] at inside
      exact Nat.le_trans inside (units_le_length wellFormed next)

/-- A line on which there is a position has a first position. -/
theorem offsetAt_zero (found : table.offsetAt line character = some offset) :
    table.offsetAt line 0 = some (table.startOf line).units := by
  obtain ⟨start, atLine, rfl, inside⟩ := offsetAt_eq_some_iff.mp found
  refine offsetAt_eq_some_iff.mpr ⟨start, atLine, by simp [startOf, atLine], ?_⟩
  simp only [startOf, atLine, Option.getD_some]
  omega

/-- Every line of a text has a first position. -/
theorem offsetAt_zero_eq_none_iff (wellFormed : table.WellFormed) :
    table.offsetAt line 0 = none ↔ table.lineCount ≤ line := by
  rw [lineCount, ← Array.getElem?_eq_none_iff]
  constructor
  · intro missing
    cases atLine : table.starts[line]? with
    | none => rfl
    | some start =>
        have first : table.offsetAt line 0 = some start.units := by
          rw [offsetAt_eq_some_iff]
          refine ⟨start, atLine, rfl, ?_⟩
          cases next : table.starts[line + 1]? with
          | none => exact units_le_length wellFormed atLine
          | some later =>
              exact Nat.le_of_lt (wellFormed.increasing _ _ _ _ (by omega) atLine next)
        cases missing.symm.trans first
  · intro beyond
    rw [offsetAt, beyond]

theorem positionAt_of_le (bound : offset ≤ table.length) :
    table.positionAt offset =
      (table.lineOf offset, offset - (table.startOf (table.lineOf offset)).units) := by
  simp only [positionAt, Nat.min_eq_left bound]

/-- The position of an offset stands for that offset. -/
theorem offsetAt_positionAt (wellFormed : table.WellFormed) (bound : offset ≤ table.length) :
    table.offsetAt (table.positionAt offset).1 (table.positionAt offset).2 = some offset := by
  obtain ⟨start, atLine, before, behind⟩ := lineOf_spec wellFormed offset
  have same : offset = start.units + (offset - start.units) := by omega
  rw [positionAt_of_le bound]
  refine offsetAt_eq_some_iff.mpr ⟨start, atLine, by simpa [startOf, atLine] using same, ?_⟩
  cases next : table.starts[table.lineOf offset + 1]? with
  | none => exact bound
  | some nextStart => exact Nat.le_of_lt (behind nextStart next)

/-- A line that starts at or before an offset does not come after one whose next line starts behind
that offset. -/
theorem line_le (wellFormed : table.WellFormed) {other : Nat} {start : LineStart}
    (atLine : table.starts[line]? = some start) (before : start.units ≤ offset)
    (behind : ∀ next : LineStart, table.starts[other + 1]? = some next → offset < next.units) :
    line ≤ other := by
  rw [← Nat.not_lt]
  intro less
  obtain ⟨size, -⟩ := Array.getElem?_eq_some_iff.mp atLine
  have next := Array.getElem?_eq_getElem (by omega : other + 1 < table.starts.size)
  have far := behind _ next
  rcases Nat.eq_or_lt_of_le less with here | further
  · rw [← here] at atLine
    rw [Option.some.inj (atLine.symm.trans next)] at before
    omega
  · have apart := wellFormed.increasing _ _ _ _ further next atLine
    omega

/-- The line of an offset is the one that starts at or before it, if the next one starts behind. -/
theorem lineOf_eq (wellFormed : table.WellFormed) {start : LineStart}
    (atLine : table.starts[line]? = some start) (before : start.units ≤ offset)
    (behind : ∀ next : LineStart, table.starts[line + 1]? = some next → offset < next.units) :
    table.lineOf offset = line := by
  obtain ⟨found, atFound, foundBefore, foundBehind⟩ := lineOf_spec wellFormed offset
  exact Nat.le_antisymm (line_le wellFormed atFound foundBefore behind)
    (line_le wellFormed atLine before foundBehind)

/-- Of two positions the one on the earlier line comes first, and on one line the one with fewer
characters before it. -/
theorem positionAt_mono (wellFormed : table.WellFormed) {later : Nat} (order : offset ≤ later)
    (bound : later ≤ table.length) :
    (table.positionAt offset).1 < (table.positionAt later).1 ∨
      (table.positionAt offset).1 = (table.positionAt later).1 ∧
        (table.positionAt offset).2 ≤ (table.positionAt later).2 := by
  rw [positionAt_of_le (Nat.le_trans order bound), positionAt_of_le bound]
  rcases Nat.lt_trichotomy (table.lineOf offset) (table.lineOf later) with less | same | more
  · exact Or.inl less
  · refine Or.inr ⟨same, ?_⟩
    simp only [same]
    omega
  · obtain ⟨start, atLine, before, -⟩ := lineOf_spec wellFormed offset
    obtain ⟨-, -, -, behind⟩ := lineOf_spec wellFormed later
    have least := line_le wellFormed atLine (Nat.le_trans before order) behind
    omega

theorem positionAt_lt (wellFormed : table.WellFormed) (bound : offset ≤ table.length) :
    (table.positionAt offset).1 < table.lineCount ∧ (table.positionAt offset).2 ≤ table.length := by
  obtain ⟨start, atLine, -⟩ := lineOf_spec wellFormed offset
  obtain ⟨inside, -⟩ := Array.getElem?_eq_some_iff.mp atLine
  rw [positionAt_of_le bound]
  exact ⟨inside, by omega⟩

end EditorLint.LineTable
