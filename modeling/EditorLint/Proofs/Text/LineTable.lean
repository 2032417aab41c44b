import EditorLint.Proofs.Text.Boundary
import EditorLint.Text.LineTable

/-!
What a line table knows about its text. The search finds the line of an offset, and the byte
offset counted from the start of that line is that of a plain scan of the whole text.
-/

namespace EditorLint

open Text

/-- A place between two characters of a text, by the units and bytes before it. -/
def IsPlace (chars : List Char) (place : LineStart) : Prop :=
  ∃ front back, chars = front ++ back ∧ place = ⟨units front, bytes front⟩

theorem IsPlace.units_le {chars : List Char} {place : LineStart} (isPlace : IsPlace chars place) :
    place.units ≤ units chars := by
  obtain ⟨front, back, rfl, rfl⟩ := isPlace
  simp

/-! ## Line starts -/

theorem laterLineStarts_place {here start : LineStart} {chars : List Char}
    (member : start ∈ laterLineStarts here chars) :
    ∃ front back, chars = front ++ back ∧ front ≠ [] ∧
      start = ⟨here.units + units front, here.bytes + bytes front⟩ := by
  induction chars generalizing here with
  | nil => simp [laterLineStarts] at member
  | cons c rest ih =>
      have found : start = ⟨here.units + charUnits c, here.bytes + c.utf8Size⟩ ∨
          start ∈ laterLineStarts ⟨here.units + charUnits c, here.bytes + c.utf8Size⟩ rest := by
        simp only [laterLineStarts] at member
        split at member
        · exact List.mem_cons.mp member
        · exact Or.inr member
      rcases found with first | later
      · exact ⟨[c], rest, rfl, by simp, by simp [first, units, bytes]⟩
      · obtain ⟨front, back, split, _, place⟩ := ih later
        refine ⟨c :: front, back, by simp [split], by simp, ?_⟩
        simp [place, units, bytes, Nat.add_assoc]

theorem laterLineStarts_after {here start : LineStart} {chars : List Char}
    (member : start ∈ laterLineStarts here chars) : here.units < start.units := by
  obtain ⟨front, back, _, nonempty, place⟩ := laterLineStarts_place member
  have positive : units front ≠ 0 := fun zero => nonempty (units_isMeasure.eq_nil zero)
  rw [place]
  show here.units < here.units + units front
  omega

theorem laterLineStarts_increasing (here : LineStart) (chars : List Char) :
    (laterLineStarts here chars).Pairwise (·.units < ·.units) := by
  induction chars generalizing here with
  | nil => exact List.Pairwise.nil
  | cons c rest ih =>
      simp only [laterLineStarts]
      split
      · exact List.pairwise_cons.mpr ⟨fun _ member => laterLineStarts_after member, ih _⟩
      · exact ih _

theorem lineStarts_increasing (chars : List Char) :
    (lineStarts chars).Pairwise (·.units < ·.units) :=
  List.pairwise_cons.mpr
    ⟨fun _ member => laterLineStarts_after member, laterLineStarts_increasing _ chars⟩

theorem lineStarts_place {chars : List Char} {start : LineStart}
    (member : start ∈ lineStarts chars) : IsPlace chars start := by
  rcases List.mem_cons.mp member with first | later
  · exact ⟨[], chars, rfl, first⟩
  · obtain ⟨front, back, split, _, place⟩ := laterLineStarts_place later
    exact ⟨front, back, split, by simpa using place⟩

namespace LineTable

/-- A table whose lines are those of its text, as far as its answers depend on them. -/
structure WellFormed (table : LineTable) : Prop where
  first : table.starts[0]? = some ⟨0, 0⟩
  increasing : ∀ (line later : Nat) (start laterStart : LineStart), line < later →
    table.starts[line]? = some start → table.starts[later]? = some laterStart →
      start.units < laterStart.units
  places : ∀ (line : Nat) (start : LineStart), table.starts[line]? = some start → IsPlace table.text.toList start
  length_eq : table.length = units table.text.toList

theorem ofText_wellFormed (text : String) : (ofText text).WellFormed := by
  constructor
  · rfl
  · intro line later start laterStart order found laterFound
    simp only [ofText, List.getElem?_toArray] at found laterFound
    obtain ⟨lineBound, lineEq⟩ := List.getElem?_eq_some_iff.mp found
    obtain ⟨laterBound, laterEq⟩ := List.getElem?_eq_some_iff.mp laterFound
    rw [← lineEq, ← laterEq]
    exact List.pairwise_iff_getElem.mp (lineStarts_increasing text.toList) line later
      lineBound laterBound order
  · intro line start found
    simp only [ofText, List.getElem?_toArray] at found
    exact lineStarts_place (List.mem_of_getElem? found)
  · rfl

@[simp] theorem ofText_text (text : String) : (ofText text).text = text := rfl

/-! ## The line of an offset -/

/-- What a search that has narrowed the lines down to those from `low` up to `high` knows. -/
structure Narrowed (starts : Array LineStart) (offset low high : Nat) : Prop where
  bounded : high ≤ starts.size
  before : ∀ (line : Nat) (start : LineStart), line < low → starts[line]? = some start → start.units < offset
  behind : ∀ (line : Nat) (start : LineStart), high ≤ line → starts[line]? = some start → offset < start.units

theorem probe_spec {table : LineTable} (wellFormed : table.WellFormed) (offset low high : Nat)
    (order : low ≤ high) (narrowed : Narrowed table.starts offset low high) :
    match probe table.starts offset low high with
    | .startsHere line => ∃ start, table.starts[line]? = some start ∧ start.units = offset
    | .before count => Narrowed table.starts offset count count := by
  fun_induction probe table.starts offset low high with
  | case1 low high open_ middle missing =>
      have bound : middle < table.starts.size := by have := narrowed.bounded; omega
      simp [bound] at missing
  | case2 low high open_ middle start found here => exact ⟨start, found, here⟩
  | case3 low high open_ middle start found apart less ih =>
      refine ih (by omega) ⟨narrowed.bounded, ?_, narrowed.behind⟩
      intro line other bound otherFound
      by_cases same : line = middle
      · subst same
        rw [found] at otherFound
        cases otherFound
        exact less
      · have earlier := wellFormed.increasing line middle other start (by omega) otherFound found
        omega
  | case4 low high open_ middle start found apart notLess ih =>
      have bounded := narrowed.bounded
      refine ih (by omega) ⟨by omega, narrowed.before, ?_⟩
      intro line other bound otherFound
      by_cases same : line = middle
      · subst same
        rw [found] at otherFound
        cases otherFound
        omega
      · have later := wellFormed.increasing middle line start other (by omega) found otherFound
        omega
  | case5 low high closed =>
      have same : low = high := by omega
      subst same
      exact narrowed

theorem narrowed_all (starts : Array LineStart) (offset : Nat) :
    Narrowed starts offset 0 starts.size := by
  refine ⟨Nat.le_refl _, fun _ _ impossible => absurd impossible (Nat.not_lt_zero _), ?_⟩
  intro line start beyond found
  simp [Nat.not_lt.mpr beyond] at found

/-- A search through all lines finds the first line at least, and what it has narrowed down to. -/
theorem probe_before {table : LineTable} (wellFormed : table.WellFormed) {offset count : Nat}
    (outcome : probe table.starts offset 0 table.starts.size = .before count) :
    0 < count ∧ Narrowed table.starts offset count count := by
  have found := probe_spec wellFormed offset 0 table.starts.size (Nat.zero_le _)
    (narrowed_all table.starts offset)
  rw [outcome] at found
  refine ⟨?_, found⟩
  rcases Nat.eq_zero_or_pos count with zero | positive
  · have impossible := found.behind 0 ⟨0, 0⟩ (by omega) wellFormed.first
    exact absurd impossible (Nat.not_lt_zero _)
  · exact positive

/-- The line of an offset starts at or before it, and the next line starts behind it. -/
theorem lineOf_spec {table : LineTable} (wellFormed : table.WellFormed) (offset : Nat) :
    ∃ start, table.starts[table.lineOf offset]? = some start ∧ start.units ≤ offset ∧
      ∀ next : LineStart, table.starts[table.lineOf offset + 1]? = some next → offset < next.units := by
  cases outcome : probe table.starts offset 0 table.starts.size with
  | startsHere line =>
      have found := probe_spec wellFormed offset 0 table.starts.size (Nat.zero_le _)
        (narrowed_all table.starts offset)
      rw [outcome] at found
      obtain ⟨start, atLine, here⟩ := found
      have line_eq : table.lineOf offset = line := by rw [lineOf, outcome]
      rw [line_eq]
      refine ⟨start, atLine, Nat.le_of_eq here, ?_⟩
      intro next atNext
      have later := wellFormed.increasing line (line + 1) start next (by omega) atLine atNext
      omega
  | before count =>
      obtain ⟨positive, found⟩ := probe_before wellFormed outcome
      have line_eq : table.lineOf offset = count - 1 := by rw [lineOf, outcome]
      rw [line_eq]
      have bounded := found.bounded
      have inside : count - 1 < table.starts.size := by omega
      refine ⟨table.starts[count - 1], by simp [inside], ?_, ?_⟩
      · exact Nat.le_of_lt (found.before (count - 1) _ (by omega) (by simp [inside]))
      · intro next atNext
        exact found.behind (count - 1 + 1) next (by omega) atNext

/-! ## Byte offsets -/

theorem bytesBefore_eq_some_iff (byte unitsLeft : Nat) (chars : List Char) (result : Nat) :
    bytesBefore byte unitsLeft chars = some result ↔
      ∃ front back, chars = front ++ back ∧ units front = unitsLeft ∧
        result = byte + bytes front := by
  induction chars generalizing byte unitsLeft with
  | nil =>
      by_cases done : unitsLeft = 0
      · simp [bytesBefore, done, units, bytes, eq_comm]
      · simp only [bytesBefore, done, if_false, reduceCtorEq, false_iff]
        rintro ⟨front, back, split, size, _⟩
        have empty : front = [] := (List.nil_eq_append_iff.mp split).1
        subst empty
        exact done (by simpa [units] using size.symm)
  | cons c rest ih =>
      have positive := charUnits_pos c
      by_cases done : unitsLeft = 0
      · simp only [bytesBefore, done, if_true, Option.some.injEq]
        constructor
        · intro here
          exact ⟨[], c :: rest, rfl, rfl, by simp [bytes, here]⟩
        · rintro ⟨front, back, _, size, total⟩
          have empty : front = [] := units_isMeasure.eq_nil size
          simp [total, empty, bytes]
      · -- An offset that is inside a surrogate pair belongs to no place.
        by_cases inside : unitsLeft < charUnits c
        · simp only [bytesBefore, done, inside, if_false, if_true, reduceCtorEq, false_iff]
          rintro ⟨front, back, split, size, _⟩
          cases front with
          | nil => exact done (by simpa [units] using size.symm)
          | cons d front =>
              have same : c = d := (List.cons.inj split).1
              subst same
              simp only [units] at size
              omega
        · simp only [bytesBefore, done, inside, if_false, ih]
          constructor
          · rintro ⟨front, back, split, size, total⟩
            refine ⟨c :: front, back, by simp [split], ?_, ?_⟩
            · simp only [units]
              omega
            · simp only [bytes]
              omega
          · rintro ⟨front, back, split, size, total⟩
            cases front with
            | nil => exact absurd (by simpa [units] using size.symm) done
            | cons d front =>
                obtain ⟨same, tail⟩ := List.cons.inj split
                subst same
                simp only [units] at size
                simp only [bytes] at total
                exact ⟨front, back, tail, by omega, by omega⟩

/-- A byte offset counted from the start of a line is the one that a plain scan of the text finds:
there is one exactly for the places between two characters. -/
theorem byteOffset_eq_some_iff_isPlace {table : LineTable} (wellFormed : table.WellFormed)
    (offset byte : Nat) :
    table.byteOffset offset = some byte ↔ IsPlace table.text.toList ⟨offset, byte⟩ := by
  by_cases past : table.length < offset
  · simp only [byteOffset, past, if_true, reduceCtorEq, false_iff]
    intro isPlace
    have bound := isPlace.units_le
    rw [wellFormed.length_eq] at past
    exact absurd bound (by simpa using past)
  · obtain ⟨start, atLine, before, _⟩ := lineOf_spec wellFormed offset
    have clamped : min offset table.length = offset := Nat.min_eq_left (by omega)
    obtain ⟨lead, line, text, rfl⟩ := wellFormed.places _ start atLine
    simp only [byteOffset, past, if_false, positionAt, clamped, startOf, atLine,
      Option.getD_some]
    rw [text, dropBytes?_append, Option.bind_some, bytesBefore_eq_some_iff]
    constructor
    · rintro ⟨front, back, split, size, total⟩
      refine ⟨lead ++ front, back, by simp [split], ?_⟩
      simp only [units_append, bytes_append, LineStart.mk.injEq]
      simp only at before
      exact ⟨by omega, total⟩
    · rintro ⟨front, back, split, place⟩
      obtain ⟨offsetEq, byteEq⟩ := LineStart.mk.inj place
      obtain ⟨middle, front_eq, line_eq⟩ :=
        units_isMeasure.split_between split (by simpa [offsetEq] using before)
      refine ⟨middle, back, line_eq, ?_, ?_⟩
      · simp [offsetEq, front_eq]
      · simp [byteEq, front_eq]

end LineTable

end EditorLint
