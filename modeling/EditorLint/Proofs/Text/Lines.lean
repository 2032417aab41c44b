import EditorLint.Proofs.Text.Offset
import EditorLint.Proofs.Text.Position
import Mathlib.Data.List.Chain

/-!
The lines of a text, each with its terminator. The starts that a line table records are the places
between them, and the table finds the offset of a line and a character on the line itself.
-/

namespace EditorLint

namespace Text

/-- What ends a line. -/
inductive IsTerminator : List Char → Prop
  | lineFeed : IsTerminator ['\n']
  | carriageReturn : IsTerminator ['\r']
  | returnAndFeed : IsTerminator ['\r', '\n']
  | lineSeparator : IsTerminator ['\u2028']
  | paragraphSeparator : IsTerminator ['\u2029']

def Unbroken (chars : List Char) : Prop := ∀ c ∈ chars, ¬IsTerminator [c]

/-- A line with the terminator behind it, and none before. -/
def Terminated (line : List Char) : Prop :=
  ∃ content terminator, line = content ++ terminator ∧ Unbroken content ∧ IsTerminator terminator

def CutsPair (line next : List Char) : Prop :=
  line.getLast? = some '\r' ∧ next.head? = some '\n'

/-- A text cut into its lines. Each but the last has one terminator, at its end. -/
structure CutIntoLines (chars : List Char) (lines : List (List Char)) : Prop where
  whole : lines.flatten = chars
  terminated : ∀ line ∈ lines.dropLast, Terminated line
  last : ∃ line, lines.getLast? = some line ∧ Unbroken line
  pairs : lines.IsChain fun line next => ¬CutsPair line next

theorem unbroken_cons {c : Char} {chars : List Char} :
    Unbroken (c :: chars) ↔ ¬IsTerminator [c] ∧ Unbroken chars := List.forall_mem_cons

theorem endsLine_iff {c : Char} {rest : List Char} :
    endsLine c rest = true ↔ IsTerminator [c] ∧ ¬(c = '\r' ∧ rest.head? = some '\n') := by
  unfold endsLine
  split
  · exact ⟨fun _ => ⟨.lineFeed, by simp⟩, fun _ => rfl⟩
  · exact ⟨fun _ => ⟨.lineSeparator, by simp⟩, fun _ => rfl⟩
  · exact ⟨fun _ => ⟨.paragraphSeparator, by simp⟩, fun _ => rfl⟩
  · simp [IsTerminator.carriageReturn]
  · next feed separator paragraph carriage =>
      simp only [Bool.false_eq_true, false_iff, not_and]
      intro ends
      cases ends <;> contradiction

theorem Terminated.ne_nil {line : List Char} (terminated : Terminated line) : line ≠ [] := by
  obtain ⟨content, terminator, rfl, -, ends⟩ := terminated
  cases ends <;> simp

theorem Terminated.cons_carriageReturn {line : List Char} (terminated : Terminated line)
    (feed : line.head? = some '\n') : Terminated ('\r' :: line) := by
  obtain ⟨content, terminator, rfl, unbroken, ends⟩ := terminated
  cases content with
  | nil =>
      cases ends <;> simp at feed
      exact ⟨[], _, rfl, nofun, .returnAndFeed⟩
  | cons c content =>
      obtain rfl : c = '\n' := by simpa using feed
      exact absurd .lineFeed (unbroken_cons.mp unbroken).1

theorem Terminated.cons {c : Char} {line : List Char} (terminated : Terminated line)
    (plain : ¬IsTerminator [c]) : Terminated (c :: line) := by
  obtain ⟨content, terminator, rfl, unbroken, ends⟩ := terminated
  exact ⟨c :: content, terminator, rfl, unbroken_cons.mpr ⟨plain, unbroken⟩, ends⟩

/-- The lines of a text, each with its terminator. -/
def lines : List Char → List (List Char)
  | [] => [[]]
  | c :: rest =>
    if endsLine c rest then [c] :: lines rest else (lines rest).modifyHead (c :: ·)

theorem exists_lines_eq_cons (chars : List Char) : ∃ line more, lines chars = line :: more := by
  induction chars with
  | nil => exact ⟨[], [], rfl⟩
  | cons c rest ih =>
      obtain ⟨line, more, first⟩ := ih
      simp only [lines, first]
      split
      · exact ⟨_, _, rfl⟩
      · exact ⟨_, _, rfl⟩

namespace CutIntoLines

variable {c : Char} {rest line : List Char} {more : List (List Char)}

theorem cons_terminator (cut : CutIntoLines rest (line :: more)) (ends : endsLine c rest) :
    CutIntoLines (c :: rest) ([c] :: line :: more) := by
  obtain ⟨terminator, unpaired⟩ := endsLine_iff.mp ends
  refine ⟨by simp [← cut.whole], ?_, ?_, ?_⟩
  · intro other listed
    rw [List.dropLast_cons_cons] at listed
    rcases List.mem_cons.mp listed with rfl | later
    · exact ⟨[], [c], rfl, nofun, terminator⟩
    · exact cut.terminated other later
  · obtain ⟨final, found, unbroken⟩ := cut.last
    exact ⟨final, by rwa [List.getLast?_cons_cons], unbroken⟩
  · refine List.isChain_cons_cons.mpr ⟨?_, cut.pairs⟩
    rintro ⟨carriage, feed⟩
    obtain rfl : c = '\r' := by simpa using carriage
    exact unpaired ⟨rfl, by simp [← cut.whole, feed]⟩

theorem cons_plain (cut : CutIntoLines rest (line :: more)) (goesOn : ¬endsLine c rest) :
    CutIntoLines (c :: rest) ((c :: line) :: more) := by
  -- A terminator that ends no line is the first half of a pair.
  have kind : ¬IsTerminator [c] ∨ c = '\r' ∧ rest.head? = some '\n' := by
    by_cases terminator : IsTerminator [c]
    · by_cases paired : c = '\r' ∧ rest.head? = some '\n'
      · exact Or.inr paired
      · exact absurd (endsLine_iff.mpr ⟨terminator, paired⟩) goesOn
    · exact Or.inl terminator
  cases more with
  | nil =>
      obtain ⟨final, found, unbroken⟩ := cut.last
      obtain rfl : line = final := by simpa using found
      have plain : ¬IsTerminator [c] := by
        rcases kind with plain | ⟨-, feed⟩
        · exact plain
        · rw [← cut.whole, List.flatten_singleton] at feed
          exact absurd .lineFeed (unbroken _ (List.mem_of_head? feed))
      exact ⟨by simp [← cut.whole], nofun, ⟨c :: line, rfl, unbroken_cons.mpr ⟨plain, unbroken⟩⟩,
        .singleton _⟩
  | cons next more =>
      have terminated : Terminated line := cut.terminated line (by simp)
      have extended : Terminated (c :: line) := by
        rcases kind with plain | ⟨rfl, feed⟩
        · exact terminated.cons plain
        · refine terminated.cons_carriageReturn ?_
          rwa [← cut.whole, List.flatten_cons, List.head?_append_of_ne_nil _ terminated.ne_nil]
            at feed
      obtain ⟨apart, chain⟩ := List.isChain_cons_cons.mp cut.pairs
      refine ⟨by simp [← cut.whole], ?_, ?_, ?_⟩
      · intro other listed
        rw [List.dropLast_cons_cons] at listed
        rcases List.mem_cons.mp listed with rfl | later
        · exact extended
        · exact cut.terminated other (by simp [later])
      · obtain ⟨final, found, unbroken⟩ := cut.last
        exact ⟨final, by rwa [List.getLast?_cons_cons] at found ⊢, unbroken⟩
      · refine List.isChain_cons_cons.mpr ⟨?_, chain⟩
        rintro ⟨carriage, feed⟩
        refine apart ⟨?_, feed⟩
        rwa [List.getLast?_cons_of_ne_nil terminated.ne_nil] at carriage

end CutIntoLines

theorem lines_cutIntoLines (chars : List Char) : CutIntoLines chars (lines chars) := by
  induction chars with
  | nil => exact ⟨rfl, nofun, ⟨[], rfl, nofun⟩, .singleton _⟩
  | cons c rest ih =>
      obtain ⟨line, more, first⟩ := exists_lines_eq_cons rest
      rw [first] at ih
      rw [lines, first]
      by_cases ends : endsLine c rest
      · rw [if_pos ends]
        exact ih.cons_terminator ends
      · rw [if_neg ends]
        exact ih.cons_plain ends

example : lines "a\r\r\nb\u2028".toList =
    ["a\r".toList, "\r\n".toList, "b\u2028".toList, []] := by decide

end Text

open Text

/-! ## Line starts -/

def LineStart.after (start : LineStart) (part : List Char) : LineStart :=
  ⟨start.units + Text.units part, start.bytes + Text.bytes part⟩

theorem foldl_after (start : LineStart) (parts : List (List Char)) :
    parts.foldl LineStart.after start = start.after parts.flatten := by
  induction parts generalizing start with
  | nil => rfl
  | cons part rest ih => simp [ih, LineStart.after, Nat.add_assoc]

/-- The places between the lines are the starts of the lines and the end of the text. -/
theorem scanl_after_lines (here : LineStart) (chars : List Char) :
    (lines chars).scanl LineStart.after here =
      here :: laterLineStarts here chars ++ [here.after chars] := by
  induction chars generalizing here with
  | nil => rfl
  | cons c rest ih =>
      have next : here.after [c] = ⟨here.units + charUnits c, here.bytes + c.utf8Size⟩ := rfl
      have behind (part : List Char) : here.after (c :: part) = (here.after [c]).after part := by
        simp [LineStart.after, units, bytes, Nat.add_assoc]
      have later := ih (here.after [c])
      rw [lines, laterLineStarts, ← next, behind rest]
      by_cases ends : endsLine c rest
      · rw [if_pos ends, if_pos ends, List.scanl_cons, later]
        rfl
      · obtain ⟨line, more, first⟩ := exists_lines_eq_cons rest
        rw [first, List.scanl_cons] at later
        rw [if_neg ends, if_neg ends, first, List.modifyHead_cons, List.scanl_cons, behind line]
        exact congrArg (here :: ·) (List.cons.inj later).2

theorem lineStarts_eq_scanl (chars : List Char) :
    lineStarts chars = ((lines chars).scanl LineStart.after ⟨0, 0⟩).dropLast := by
  rw [scanl_after_lines, List.dropLast_concat]
  rfl

/-- The text in front of a line. -/
def beforeLine (chars : List Char) (line : Nat) : List Char := ((lines chars).take line).flatten

theorem beforeLine_of_length_le {chars : List Char} {line : Nat}
    (beyond : (lines chars).length ≤ line) : beforeLine chars line = chars := by
  rw [beforeLine, List.take_of_length_le beyond, (lines_cutIntoLines chars).whole]

theorem exists_around_line {chars content : List Char} {line : Nat}
    (found : (lines chars)[line]? = some content) :
    ∃ front back, chars = front ++ content ++ back ∧ beforeLine chars line = front ∧
      beforeLine chars (line + 1) = front ++ content := by
  obtain ⟨inside, here⟩ := List.getElem?_eq_some_iff.mp found
  refine ⟨_, ((lines chars).drop (line + 1)).flatten, ?_, rfl, ?_⟩
  · rw [beforeLine, List.append_assoc, ← List.flatten_cons, ← here, ← List.drop_eq_getElem_cons inside,
      ← List.flatten_append, List.take_append_drop, (lines_cutIntoLines chars).whole]
  · simp [beforeLine, List.take_add_one, found]

namespace LineTable

variable {text : String} {line : Nat}

/-- The part of the text from the start of a line to that of the next, or to the end. -/
def line? (table : LineTable) (line : Nat) : Option (List Char) :=
  table.starts[line]?.bind fun start =>
    slice? table.text.toList start.bytes
      ((table.starts[line + 1]?.map (·.bytes)).getD (bytes table.text.toList))

theorem starts_ofText (text : String) (line : Nat) :
    (ofText text).starts[line]? =
      if line < (lines text.toList).length then
        some ⟨units (beforeLine text.toList line), bytes (beforeLine text.toList line)⟩
      else none := by
  simp only [ofText, List.getElem?_toArray, lineStarts_eq_scanl, List.getElem?_dropLast,
    List.length_scanl, Nat.add_sub_cancel, List.getElem?_scanl, foldl_after]
  by_cases inside : line < (lines text.toList).length
  · simp [inside, Nat.le_of_lt inside, LineStart.after, beforeLine]
  · simp [inside]

theorem lineCount_ofText (text : String) : (ofText text).lineCount = (lines text.toList).length := by
  simp [lineCount, ofText, lineStarts_eq_scanl, List.length_scanl]

theorem nextStart_ofText {α : Type} (measure : LineStart → α)
    (inside : line < (lines text.toList).length) :
    ((ofText text).starts[line + 1]?.map measure).getD
        (measure ⟨units text.toList, bytes text.toList⟩) =
      measure ⟨units (beforeLine text.toList (line + 1)),
        bytes (beforeLine text.toList (line + 1))⟩ := by
  rw [starts_ofText]
  by_cases later : line + 1 < (lines text.toList).length
  · rw [if_pos later, Option.map_some, Option.getD_some]
  · rw [if_neg later, Option.map_none, Option.getD_none, beforeLine_of_length_le (by omega)]

theorem line?_ofText (text : String) (line : Nat) :
    (ofText text).line? line = (lines text.toList)[line]? := by
  cases found : (lines text.toList)[line]? with
  | none =>
      rw [line?, starts_ofText, if_neg (Nat.not_lt.mpr (List.getElem?_eq_none_iff.mp found)),
        Option.bind_none]
  | some content =>
      have inside := (List.getElem?_eq_some_iff.mp found).1
      obtain ⟨front, back, split, before, behind⟩ := exists_around_line found
      have stop : ((ofText text).starts[line + 1]?.map (·.bytes)).getD (bytes text.toList) = _ :=
        nextStart_ofText (·.bytes) inside
      rw [line?, starts_ofText, if_pos inside, Option.bind_some, ofText_text, stop, before, behind,
        split, slice?_append]

/-- The offset of a character of a line is counted from the start of the line, up to its end. -/
theorem offsetAt_ofText {character offset : Nat} :
    (ofText text).offsetAt line character = some offset ↔
      ∃ content, (lines text.toList)[line]? = some content ∧ character ≤ units content ∧
        offset = units (beforeLine text.toList line) + character := by
  rw [offsetAt_eq_some_iff, starts_ofText]
  cases found : (lines text.toList)[line]? with
  | none =>
      rw [if_neg (Nat.not_lt.mpr (List.getElem?_eq_none_iff.mp found))]
      simp
  | some content =>
      have inside := (List.getElem?_eq_some_iff.mp found).1
      obtain ⟨front, back, split, before, behind⟩ := exists_around_line found
      have stop : ((ofText text).starts[line + 1]?.map (·.units)).getD (ofText text).length = _ :=
        nextStart_ofText (·.units) inside
      rw [if_pos inside, stop, before, behind, units_append]
      simp only [Option.some.injEq, exists_eq_left']
      constructor
      · rintro ⟨rfl, bound⟩
        exact ⟨by omega, rfl⟩
      · rintro ⟨bound, rfl⟩
        exact ⟨rfl, by omega⟩

theorem starts_increasing (text : String) :
    (ofText text).starts.toList.Pairwise fun start later =>
      start.units < later.units ∧ start.bytes < later.bytes := by
  refine (lineStarts_increasing text.toList).imp_of_mem fun first second less => ⟨less, ?_⟩
  exact ((lineStarts_place first).bytes_lt_iff (lineStarts_place second)).mpr less

/-- The starts of a table cut its text into its lines. Each start is a place between two characters
of the text, and in both measures the starts increase from zero. -/
theorem ofText_cuts_lines (text : String) :
    let table := ofText text
    let lines := lines text.toList
    CutIntoLines text.toList lines ∧ table.lineCount = lines.length ∧
      (∀ line, table.line? line = lines[line]?) ∧
      (∀ start ∈ table.starts, IsPlace text.toList start) ∧
      table.starts[0]? = some ⟨0, 0⟩ ∧
      table.starts.toList.Pairwise (fun start later =>
        start.units < later.units ∧ start.bytes < later.bytes) ∧
      table.length = units text.toList := by
  have wellFormed := ofText_wellFormed text
  refine ⟨lines_cutIntoLines text.toList, lineCount_ofText text, line?_ofText text,
    fun start member => ?_, wellFormed.first, starts_increasing text, wellFormed.length_eq⟩
  obtain ⟨line, bound, here⟩ := Array.mem_iff_getElem.mp member
  exact wellFormed.places line start (Array.getElem?_eq_some_iff.mpr ⟨bound, here⟩)

end LineTable

end EditorLint
