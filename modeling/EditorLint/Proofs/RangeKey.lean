import EditorLint.FindingIndex
import Mathlib

/-!
The key of a span is the decimal text of its two offsets with a comma between them. No digit is a
comma, so that both offsets can be read back from the key, and spans are told apart by their keys.
-/

namespace EditorLint

theorem notMem_toDigits_ten {c : Char} (noDigit : c.isDigit = false) (number : Nat) :
    c ∉ Nat.toDigits 10 number := by
  intro member
  have digit := Nat.isDigit_of_mem_toDigits (by omega) (by omega) member
  simp [noDigit] at digit

namespace RangeKey

theorem toList_text_of (start stop : Nat) :
    (of start stop).text.toList = Nat.toDigits 10 start ++ ',' :: Nat.toDigits 10 stop := by
  simp [of]

/-- The numbers before and behind the first comma of a key. -/
def span? (key : RangeKey) : Option (Nat × Nat) :=
  let written := key.text.toList
  match written.dropWhile (· ≠ ',') with
  | [] => none
  | _ :: second =>
    some (Nat.ofDigitChars 10 (written.takeWhile (· ≠ ',')) 0, Nat.ofDigitChars 10 second 0)

theorem span?_of (start stop : Nat) : (of start stop).span? = some (start, stop) := by
  have noComma : ∀ c ∈ Nat.toDigits 10 start, decide (c ≠ ',') = true := by
    intro c member
    rw [decide_eq_true_eq]
    rintro rfl
    exact notMem_toDigits_ten rfl start member
  have behind : (of start stop).text.toList.dropWhile (· ≠ ',') =
      ',' :: Nat.toDigits 10 stop := by
    rw [toList_text_of, List.dropWhile_append_of_pos noComma, List.dropWhile_cons_of_neg (by simp)]
  have before : (of start stop).text.toList.takeWhile (· ≠ ',') = Nat.toDigits 10 start := by
    rw [toList_text_of, List.takeWhile_append_of_pos noComma, List.takeWhile_cons_of_neg (by simp),
      List.append_nil]
  simp only [span?, behind, before, Nat.ofDigitChars_ten_toDigits]

theorem of_inj {start stop start' stop' : Nat} :
    of start stop = of start' stop' ↔ start = start' ∧ stop = stop' := by
  constructor
  · intro same
    have readBack := congrArg span? same
    rw [span?_of, span?_of] at readBack
    exact Prod.mk.inj (Option.some.inj readBack)
  · rintro ⟨rfl, rfl⟩
    rfl

/-- A key is the text of two numbers around a comma, both can be read back from it, and so two
spans have one key only if they are the same. -/
theorem of_tells_spans_apart (start stop start' stop' : Nat) :
    (of start stop).text.toList = Nat.toDigits 10 start ++ ',' :: Nat.toDigits 10 stop ∧
      (of start stop).span? = some (start, stop) ∧
      (of start stop = of start' stop' ↔ start = start' ∧ stop = stop') :=
  ⟨toList_text_of start stop, span?_of start stop, of_inj⟩

example : of 1 23 ≠ of 12 3 := by decide

end RangeKey

end EditorLint
