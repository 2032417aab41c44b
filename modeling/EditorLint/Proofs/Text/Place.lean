import EditorLint.Proofs.Text.Position

/-!
Lines and characters counted along a text. The search in the table of line starts gives the place
behind a part of the text the line and the character that a walk through that part counts.
-/

namespace EditorLint

open Text

/-- The line and the character of the place between two parts of a text. -/
def place : List Char → List Char → Nat × Nat
  | [], _ => (0, 0)
  | c :: front, back =>
    let (line, character) := place front back
    if endsLine c (front ++ back) then (line + 1, character)
    else (line, if line = 0 then charUnits c + character else character)

/-- What a walk from `here` on to a place finds among the lines that start later: the one that the
place is on, unless it is on the line of the walk's start, and those that start behind the place. -/
structure Walked (here : LineStart) (front back : List Char) (line character : Nat) : Prop where
  first : line = 0 → character = units front
  later : ∀ before, line = before + 1 →
    ∃ start, (laterLineStarts here (front ++ back))[before]? = some start ∧
      start.units + character = here.units + units front
  behind : ∀ next, (laterLineStarts here (front ++ back))[line]? = some next →
    here.units + units front < next.units

theorem place_walked (here : LineStart) (front back : List Char) :
    Walked here front back (place front back).1 (place front back).2 := by
  induction front generalizing here with
  | nil =>
      refine ⟨fun _ => rfl, fun before same => absurd same.symm (Nat.succ_ne_zero before),
        fun next found => ?_⟩
      simpa [units] using laterLineStarts_after (List.mem_of_getElem? found)
  | cons c front ih =>
      obtain ⟨first, later, behind⟩ := ih ⟨here.units + charUnits c, here.bytes + c.utf8Size⟩
      simp only at later behind
      by_cases ends : endsLine c (front ++ back)
      · have starts : laterLineStarts here (c :: front ++ back) = _ := if_pos ends
        simp only [place, ends, if_true]
        refine ⟨fun zero => absurd zero (Nat.succ_ne_zero _), fun before same => ?_,
          fun next found => ?_⟩
        · obtain rfl : (place front back).1 = before := by omega
          rw [starts]
          cases line : (place front back).1 with
          | zero =>
              refine ⟨_, rfl, ?_⟩
              simp only [units, first line]
              omega
          | succ before =>
              obtain ⟨start, found, sum⟩ := later before line
              refine ⟨start, found, ?_⟩
              simp only [units]
              omega
        · rw [starts] at found
          have further := behind next found
          simp only [units]
          omega
      · have starts : laterLineStarts here (c :: front ++ back) = _ := if_neg ends
        simp only [place, ends, Bool.false_eq_true, if_false]
        refine ⟨fun zero => ?_, fun before same => ?_, fun next found => ?_⟩
        · rw [if_pos zero, first zero, units]
        · obtain ⟨start, found, sum⟩ := later before same
          rw [starts, if_neg (by omega)]
          refine ⟨start, found, ?_⟩
          simp only [units]
          omega
        · rw [starts] at found
          have further := behind next found
          simp only [units]
          omega

namespace LineTable

/-- The position of the place behind a part of a text is what a walk through that part counts. -/
theorem positionAt_units {text : String} {front back : List Char}
    (split : text.toList = front ++ back) :
    (ofText text).positionAt (units front) = place front back := by
  have wellFormed := ofText_wellFormed text
  obtain ⟨first, later, behind⟩ := place_walked ⟨0, 0⟩ front back
  have starts : (ofText text).starts =
      (⟨0, 0⟩ :: laterLineStarts ⟨0, 0⟩ (front ++ back)).toArray := by
    rw [← split]
    rfl
  have bound : units front ≤ (ofText text).length := by
    rw [wellFormed.length_eq, ofText_text, split, units_append]
    omega
  have found : ∃ start, (ofText text).starts[(place front back).1]? = some start ∧
      start.units + (place front back).2 = units front := by
    rw [starts, List.getElem?_toArray]
    cases line : (place front back).1 with
    | zero => exact ⟨⟨0, 0⟩, rfl, by simp [first line]⟩
    | succ before => simpa using later before line
  obtain ⟨start, atLine, sum⟩ := found
  have line : (ofText text).lineOf (units front) = (place front back).1 := by
    refine lineOf_eq wellFormed atLine (by omega) fun next atNext => ?_
    rw [starts, List.getElem?_toArray] at atNext
    simpa using behind next atNext
  rw [positionAt_of_le bound, line, startOf, atLine, Option.getD_some]
  exact Prod.ext rfl (by simp only; omega)

end LineTable

end EditorLint
