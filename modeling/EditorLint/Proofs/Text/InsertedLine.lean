import EditorLint.Proofs.Text.Lines

/-!
A text into which a line has been put. There is only one way to cut a text into its lines, so that
the lines of the new text are those of the old one and the line put between them.
-/

namespace EditorLint

namespace Text

theorem endsLine_of_plain {c : Char} (plain : ¬IsTerminator [c]) (rest : List Char) :
    endsLine c rest = false := by
  rw [← Bool.not_eq_true, endsLine_iff]
  exact fun ends => plain ends.1

theorem lines_of_unbroken {chars : List Char} (unbroken : Unbroken chars) : lines chars = [chars] := by
  induction chars with
  | nil => rfl
  | cons c rest ih =>
      obtain ⟨plain, later⟩ := unbroken_cons.mp unbroken
      rw [lines, endsLine_of_plain plain, ih later]
      rfl

/-- A line in front of a text is a line of the whole, unless the text goes on with the second half
of its terminator. -/
theorem lines_append_of_terminated {line rest : List Char} (terminated : Terminated line)
    (whole : ¬CutsPair line rest) : lines (line ++ rest) = line :: lines rest := by
  obtain ⟨content, terminator, rfl, unbroken, ends⟩ := terminated
  induction content with
  | nil =>
      have single {c : Char} (ends : endsLine c rest = true) :
          lines ([c] ++ rest) = [c] :: lines rest := if_pos ends
      cases ends with
      | lineFeed => exact single rfl
      | lineSeparator => exact single rfl
      | paragraphSeparator => exact single rfl
      | carriageReturn =>
          apply single
          rw [endsLine_iff]
          exact ⟨.carriageReturn, fun pair => whole ⟨rfl, pair.2⟩⟩
      | returnAndFeed =>
          have goesOn : endsLine '\r' ('\n' :: rest) = false := rfl
          have feed : lines ('\n' :: rest) = ['\n'] :: lines rest := if_pos rfl
          rw [List.nil_append, List.cons_append, List.singleton_append, lines, goesOn, feed]
          rfl
  | cons c content ih =>
      obtain ⟨plain, later⟩ := unbroken_cons.mp unbroken
      have apart : ¬CutsPair (content ++ terminator) rest := by
        intro pair
        refine whole ⟨?_, pair.2⟩
        have filled : content ++ terminator ≠ [] := by cases ends <;> simp
        rw [List.cons_append, List.getLast?_cons_of_ne_nil filled]
        exact pair.1
      rw [List.cons_append, List.cons_append, lines, endsLine_of_plain plain, ih apart later]
      rfl

/-- A line that makes no pair with what stands before or behind it. -/
structure StandsApart (line : List Char) : Prop where
  terminated : Terminated line
  noFeed : line.head? ≠ some '\n'
  noReturn : line.getLast? ≠ some '\r'

namespace CutIntoLines

variable {chars line next : List Char} {more : List (List Char)}

theorem tail (cut : CutIntoLines chars (line :: next :: more)) :
    CutIntoLines (next :: more).flatten (next :: more) where
  whole := rfl
  terminated other listed := cut.terminated other (by simp [listed])
  last := by
    obtain ⟨final, found, unbroken⟩ := cut.last
    rw [List.getLast?_cons_cons] at found
    exact ⟨final, found, unbroken⟩
  pairs := (List.isChain_cons_cons.mp cut.pairs).2

theorem not_cutsPair (cut : CutIntoLines chars (line :: next :: more)) :
    ¬CutsPair line (next :: more).flatten := by
  rintro ⟨carriage, feed⟩
  cases next with
  | cons c rest => exact (List.isChain_cons_cons.mp cut.pairs).1 ⟨carriage, feed⟩
  | nil =>
      -- Only the last line may be empty, and then there is no text behind.
      cases more with
      | nil => simp at feed
      | cons other more => exact (cut.terminated [] (by simp)).ne_nil rfl

/-- The lines of a text are the only cut. -/
theorem eq_lines {cut : List (List Char)} (isCut : CutIntoLines chars cut) : lines chars = cut := by
  induction cut generalizing chars with
  | nil =>
      obtain ⟨final, found, -⟩ := isCut.last
      cases found
  | cons line more ih =>
      cases more with
      | nil =>
          obtain ⟨final, found, unbroken⟩ := isCut.last
          obtain rfl : line = final := by simpa using found
          obtain rfl : line = chars := by simpa using isCut.whole
          exact lines_of_unbroken unbroken
      | cons next more =>
          have terminated : Terminated line := isCut.terminated line (by simp)
          rw [← isCut.whole, List.flatten_cons,
            lines_append_of_terminated terminated isCut.not_cutsPair, ih isCut.tail]

theorem insert {before after : List (List Char)} {inserted : List Char}
    (cut : CutIntoLines chars (before ++ after)) (goesOn : after ≠ []) (apart : StandsApart inserted) :
    CutIntoLines (before.flatten ++ inserted ++ after.flatten) (before ++ inserted :: after) := by
  obtain ⟨beforePairs, afterPairs, -⟩ := List.isChain_append.mp cut.pairs
  have earlier := cut.terminated
  obtain ⟨final, found, unbroken⟩ := cut.last
  rw [List.dropLast_append_of_ne_nil goesOn] at earlier
  rw [List.getLast?_append_of_ne_nil _ goesOn] at found
  constructor
  · simp
  · intro line listed
    rw [List.dropLast_append_of_ne_nil (List.cons_ne_nil _ _), List.dropLast_cons_of_ne_nil goesOn]
      at listed
    simp only [List.mem_append, List.mem_cons] at listed earlier
    rcases listed with front | rfl | back
    · exact earlier line (Or.inl front)
    · exact apart.terminated
    · exact earlier line (Or.inr back)
  · refine ⟨final, ?_, unbroken⟩
    rw [List.getLast?_append_of_ne_nil _ (List.cons_ne_nil _ _),
      List.getLast?_cons_of_ne_nil goesOn]
    exact found
  · apply List.isChain_append.mpr
    refine ⟨beforePairs, List.isChain_cons.mpr ⟨?_, afterPairs⟩, ?_⟩
    · intro line _ pair
      exact apart.noReturn pair.1
    · intro line _ first isFirst pair
      obtain rfl : inserted = first := by simpa using isFirst
      exact apart.noFeed pair.2

end CutIntoLines

/-! ## The new text -/

/-- The text from a line on. -/
def fromLine (chars : List Char) (line : Nat) : List Char := ((lines chars).drop line).flatten

def insertLine (chars : List Char) (line : Nat) (inserted : List Char) : List Char :=
  beforeLine chars line ++ inserted ++ fromLine chars line

theorem beforeLine_append_fromLine (chars : List Char) (line : Nat) :
    beforeLine chars line ++ fromLine chars line = chars := by
  rw [beforeLine, fromLine, ← List.flatten_append, List.take_append_drop,
    (lines_cutIntoLines chars).whole]

theorem units_beforeLine_mono (chars : List Char) {line later : Nat} (order : line ≤ later) :
    units (beforeLine chars line) ≤ units (beforeLine chars later) := by
  obtain ⟨between, rfl⟩ := Nat.exists_eq_add_of_le order
  rw [beforeLine, beforeLine, List.take_add, List.flatten_append, units_append]
  omega

variable {chars inserted : List Char} {line : Nat}

theorem insertLine_cutIntoLines (inside : line < (lines chars).length)
    (apart : StandsApart inserted) :
    CutIntoLines (insertLine chars line inserted)
      ((lines chars).take line ++ inserted :: (lines chars).drop line) := by
  have cut := lines_cutIntoLines chars
  rw [← List.take_append_drop line (lines chars)] at cut
  refine cut.insert ?_ apart
  intro nothing
  have beyond := List.drop_eq_nil_iff.mp nothing
  omega

theorem lines_insertLine (inside : line < (lines chars).length) (apart : StandsApart inserted) :
    lines (insertLine chars line inserted) =
      (lines chars).take line ++ inserted :: (lines chars).drop line :=
  (insertLine_cutIntoLines inside apart).eq_lines

theorem lines_insertLine_behind (inside : line < (lines chars).length)
    (apart : StandsApart inserted) {later : Nat} (behind : line ≤ later) :
    (lines (insertLine chars line inserted))[later + 1]? = (lines chars)[later]? := by
  obtain ⟨between, rfl⟩ := Nat.exists_eq_add_of_le behind
  have length : ((lines chars).take line).length = line := List.length_take_of_le (by omega)
  rw [lines_insertLine inside apart, List.getElem?_append_right (by omega), length,
    show line + between + 1 - line = between + 1 by omega, List.getElem?_cons_succ,
    List.getElem?_drop]

theorem units_beforeLine_insertLine (inside : line < (lines chars).length)
    (apart : StandsApart inserted) {later : Nat} (behind : line ≤ later) :
    units (beforeLine (insertLine chars line inserted) (later + 1)) =
      units (beforeLine chars later) + units inserted := by
  obtain ⟨between, rfl⟩ := Nat.exists_eq_add_of_le behind
  have length : ((lines chars).take line).length = line := List.length_take_of_le (by omega)
  rw [beforeLine, beforeLine, lines_insertLine inside apart, List.take_append, length,
    List.take_of_length_le (by omega), show line + between + 1 - line = between + 1 by omega,
    List.take_succ_cons, List.take_add]
  simp only [List.flatten_append, List.flatten_cons, units_append]
  omega

/-! ## The text behind an offset -/

theorem cutAt?_append_add (front rest : List Char) (offset : Nat) :
    cutAt? (front ++ rest) (units front + offset) =
      (cutAt? rest offset).map fun (before, behind) => (front ++ before, behind) := by
  induction front with
  | nil =>
      rw [List.nil_append, units, Nat.zero_add]
      cases cutAt? rest offset <;> rfl
  | cons c front ih =>
      have positive := charUnits_pos c
      rw [List.cons_append, units, cutAt?]
      · rw [if_pos (by omega), show charUnits c + units front + offset - charUnits c =
          units front + offset by omega, ih, Option.map_map]
        rfl
      · omega

/-- The text from an offset on; none inside a surrogate pair. -/
def behind? (chars : List Char) (offset : Nat) : Option (List Char) :=
  (cutAt? chars offset).map (·.2)

theorem behind?_append_add (front rest : List Char) (offset : Nat) :
    behind? (front ++ rest) (units front + offset) = behind? rest offset := by
  rw [behind?, cutAt?_append_add, Option.map_map]
  rfl

theorem behind?_insertLine (chars inserted : List Char) {line offset : Nat}
    (reached : units (beforeLine chars line) ≤ offset) :
    behind? (insertLine chars line inserted) (offset + units inserted) = behind? chars offset := by
  obtain ⟨further, rfl⟩ := Nat.exists_eq_add_of_le reached
  have before := behind?_append_add (beforeLine chars line) (fromLine chars line) further
  rw [beforeLine_append_fromLine] at before
  rw [before, insertLine, Nat.add_right_comm, ← units_append, behind?_append_add]

end Text

open Text

namespace LineTable

variable {text edited : String} {line later : Nat} {inserted : List Char}

theorem offsetAt_insertLine (edited_eq : edited.toList = insertLine text.toList line inserted)
    (inside : line < (lines text.toList).length) (apart : StandsApart inserted)
    (behind : line ≤ later) (character : Nat) :
    (ofText edited).offsetAt (later + 1) character =
      ((ofText text).offsetAt later character).map (· + units inserted) := by
  ext offset
  rw [Option.map_eq_some_iff, offsetAt_ofText, edited_eq, lines_insertLine_behind inside apart behind,
    units_beforeLine_insertLine inside apart behind]
  simp only [offsetAt_ofText]
  constructor
  · rintro ⟨content, found, fits, rfl⟩
    exact ⟨_, ⟨content, found, fits, rfl⟩, Nat.add_right_comm ..⟩
  · rintro ⟨_, ⟨content, found, fits, rfl⟩, rfl⟩
    exact ⟨content, found, fits, Nat.add_right_comm ..⟩

theorem le_offsetAt {character offset : Nat} (behind : line ≤ later)
    (found : (ofText text).offsetAt later character = some offset) :
    units (beforeLine text.toList line) ≤ offset := by
  obtain ⟨content, -, -, rfl⟩ := offsetAt_ofText.mp found
  have order := units_beforeLine_mono text.toList behind
  omega

end LineTable

end EditorLint
