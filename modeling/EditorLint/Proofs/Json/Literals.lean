import EditorLint.Json.Printer
import EditorLint.Json.Raw
import Mathlib

/-!
Strings and integers that are written are read back.
-/

namespace EditorLint.Json

namespace Raw

/-! ## Strings -/

/-- How a character may stand in a string: as itself, behind a backslash, as a letter behind a
backslash, or by its number. -/
inductive Escape : Char → List Char → Prop
  | plain {c : Char} (quote : c ≠ '"') (backslash : c ≠ '\\') (visible : ¬c < ' ') : Escape c [c]
  | marked {c : Char} (listed : c ∈ ['"', '\\']) : Escape c ['\\', c]
  | lettered {c letter : Char}
      (listed : (letter, c) ∈
        [('b', '\x08'), ('f', '\x0c'), ('n', '\n'), ('r', '\r'), ('t', '\t')]) :
      Escape c ['\\', letter]
  | numbered {code : Nat} {a b c d : Char} (control : code < 32)
      (digits : Text.numberIn? 16 [a, b, c, d] = some code) :
      Escape (Char.ofNat code) ['\\', 'u', a, b, c, d]

theorem hexDigits_of_control : ∀ code < 32, (Text.hexDigits 4 code).length = 4 ∧
    Text.numberIn? 16 (Text.hexDigits 4 code) = some code := by decide

theorem escape_escapeChar (c : Char) : Escape c (escapeChar c) := by
  unfold escapeChar
  split
  case h_8 quote backslash _ _ _ _ _ =>
    split
    case isTrue control =>
      have control : c.toNat < 32 := control
      obtain ⟨length, digits⟩ := hexDigits_of_control _ control
      have numbered : Escape (Char.ofNat c.toNat) ('\\' :: 'u' :: Text.hexDigits 4 c.toNat) := by
        match Text.hexDigits 4 c.toNat, length, digits with
        | [_, _, _, _], _, digits => exact .numbered control digits
      rwa [Char.ofNat_toNat] at numbered
    case isFalse visible => exact .plain quote backslash visible
  · exact .marked (by decide)
  · exact .marked (by decide)
  all_goals exact .lettered (by decide)

variable {c : Char} {written : List Char}

theorem readString_append (escape : Escape c written) (rest : List Char) :
    readString (written ++ rest) =
      (readString rest).map fun (tail, after) => (written ++ tail, after) := by
  cases escape with
  | plain quote backslash visible =>
      rw [List.singleton_append, readString.eq_def]
      split <;> simp_all
  | marked listed => fin_cases listed <;> simp [readString]
  | lettered listed => fin_cases listed <;> simp [readString]
  | numbered _ digits => simp [readString, digits]

theorem unescape_number {a b c d : Char} (high : isHighSurrogate (codeUnit a b c d) = false)
    (low : isLowSurrogate (codeUnit a b c d) = false) (rest : List Char) :
    unescape ('\\' :: 'u' :: a :: b :: c :: d :: rest) =
      (unescape rest).map (Char.ofNat (codeUnit a b c d) :: ·) := by
  rw [unescape.eq_def]
  split
  all_goals simp_all
  case h_4 different same => exact absurd same.2.symm (different _ _ _ _ _ same.1.symm)
  case h_5 different same => exact absurd same.2.symm (different _ _ same.1.symm)

theorem unescape_append (escape : Escape c written) (rest : List Char) :
    unescape (written ++ rest) = (unescape rest).map (c :: ·) := by
  cases escape with
  | plain quote backslash visible =>
      rw [List.singleton_append, unescape.eq_def]
      split <;> simp_all
  | marked listed => fin_cases listed <;> rfl
  | lettered listed => fin_cases listed <;> rfl
  | @numbered code a b c d control digits =>
      have unit : codeUnit a b c d = code := by rw [codeUnit, digits, Option.getD_some]
      have high : isHighSurrogate code = false := by simp [isHighSurrogate]; omega
      have low : isLowSurrogate code = false := by simp [isLowSurrogate]; omega
      rw [← unit] at high low ⊢
      exact unescape_number high low rest

theorem readString_escaped (text rest : List Char) :
    readString (text.flatMap escapeChar ++ '"' :: rest) =
      some (text.flatMap escapeChar, rest) := by
  induction text with
  | nil => rw [List.flatMap_nil, List.nil_append, readString]
  | cons c text ih =>
      rw [List.flatMap_cons, List.append_assoc, readString_append (escape_escapeChar c), ih,
        Option.map_some]

theorem unescape_escaped (text : List Char) : unescape (text.flatMap escapeChar) = some text := by
  induction text with
  | nil => rfl
  | cons c text ih =>
      rw [List.flatMap_cons, unescape_append (escape_escapeChar c), ih, Option.map_some]

/-! ## Integers -/

/-- Whether a number is over where the text begins. -/
def EndsNumber (rest : List Char) : Prop :=
  ∀ c ∈ rest.head?, c.isDigit = false ∧ c ∉ ['.', 'e', 'E']

theorem head?_toDigits_ne {number : Nat} (positive : 0 < number) :
    (Nat.toDigits 10 number).head? ≠ some '0' := by
  induction number using Nat.strong_induction_on with
  | _ number ih =>
      by_cases small : number < 10
      · rw [Nat.toDigits_of_lt_base small]
        simp [positive.ne']
      · rw [Nat.toDigits_of_base_le (by omega) (by omega),
          List.head?_append_of_ne_nil _ Nat.toDigits_ne_nil]
        exact ih (number / 10) (by omega) (by omega)

theorem readWhole_toDigits {rest : List Char} (ends : EndsNumber rest) (number : Nat) :
    readWhole (Nat.toDigits 10 number ++ rest) = some (Nat.toDigits 10 number, rest) := by
  have digits : ∀ c ∈ Nat.toDigits 10 number, c.isDigit = true := fun c member =>
    Nat.isDigit_of_mem_toDigits (by omega) (by omega) member
  have span : (Nat.toDigits 10 number ++ rest).span Char.isDigit =
      (Nat.toDigits 10 number, rest) := by
    rw [List.span_eq_takeWhile_dropWhile, List.takeWhile_append_of_pos digits,
      List.dropWhile_append_of_pos digits]
    cases rest with
    | nil => simp
    | cons c rest =>
        have ended : c.isDigit = false := (ends c rfl).1
        simp [ended]
  have whole : (!(Nat.toDigits 10 number).isEmpty && ((Nat.toDigits 10 number).head? != some '0' ||
      (Nat.toDigits 10 number).length == 1)) = true := by
    obtain rfl | positive := Nat.eq_zero_or_pos number
    · decide
    · simp [head?_toDigits_ne positive]
  simp only [readWhole, span, if_pos whole]

theorem readFraction_of_endsNumber {rest : List Char} (ends : EndsNumber rest) :
    readFraction rest = some (none, rest) := by
  unfold readFraction
  split
  · exact absurd (ends '.' rfl).2 (by decide)
  · rfl

theorem readExponent_of_endsNumber {rest : List Char} (ends : EndsNumber rest) :
    readExponent rest = some (none, rest) := by
  unfold readExponent
  split
  · exact absurd (ends 'e' rfl).2 (by decide)
  · exact absurd (ends 'E' rfl).2 (by decide)
  · rfl

theorem readMinus_toDigits (number : Nat) (rest : List Char) :
    readMinus (Nat.toDigits 10 number ++ rest) = (false, Nat.toDigits 10 number ++ rest) := by
  unfold readMinus
  split
  case h_1 starts =>
    have minus : '-' ∈ Nat.toDigits 10 number := by
      apply List.mem_of_head?
      rw [← List.head?_append_of_ne_nil _ Nat.toDigits_ne_nil, starts, List.head?_cons]
    exact absurd (Nat.isDigit_of_mem_toDigits (by omega) (by omega) minus) (by decide)
  · rfl

theorem toList_toString_int (number : Int) :
    (toString number).toList =
      if 0 ≤ number then Nat.toDigits 10 number.natAbs
      else '-' :: Nat.toDigits 10 number.natAbs := by
  rw [Int.toString_eq_repr, Int.repr_eq_if]
  split
  case isTrue positive =>
    rw [Nat.toList_repr, show number.toNat = number.natAbs by omega]
  case isFalse negative =>
    rw [String.toList_append, Nat.toList_repr, show (-number).toNat = number.natAbs by omega]
    rfl

theorem exists_toString_int (number : Int) : ∃ first others,
    (toString number).toList = first :: others ∧ (first = '-' ∨ first.isDigit = true) := by
  rw [toList_toString_int]
  split
  · obtain ⟨first, others, written⟩ :=
      List.exists_cons_of_ne_nil (Nat.toDigits_ne_nil (b := 10) (n := number.natAbs))
    have digit : first.isDigit = true := by
      apply Nat.isDigit_of_mem_toDigits (b := 10) (n := number.natAbs) (by omega) (by omega)
      rw [written]
      exact List.mem_cons_self
    exact ⟨first, others, written, .inr digit⟩
  · exact ⟨'-', Nat.toDigits 10 number.natAbs, rfl, .inl rfl⟩

/-- An integer as it is written. -/
def integerText (number : Int) : NumberText :=
  ⟨decide (number < 0), Nat.toDigits 10 number.natAbs, none, none⟩

theorem readNumber_toString {rest : List Char} (ends : EndsNumber rest) (number : Int) :
    readNumber ((toString number).toList ++ rest) = some (integerText number, rest) := by
  have minus : readMinus ((toString number).toList ++ rest) =
      (decide (number < 0), Nat.toDigits 10 number.natAbs ++ rest) := by
    rw [toList_toString_int]
    split
    case isTrue positive => rw [readMinus_toDigits, decide_eq_false (not_lt.mpr positive)]
    case isFalse negative =>
      rw [List.cons_append, readMinus, decide_eq_true (not_le.mp negative)]
  simp only [readNumber, minus, readWhole_toDigits ends, readFraction_of_endsNumber ends,
    readExponent_of_endsNumber ends, Option.bind_eq_bind, Option.bind_some, Option.pure_def,
    integerText]

theorem value?_integerText {number : Int} (small : number.natAbs ≤ 2 ^ 64) :
    NumberText.value? (integerText number) = some (.integer number) := by
  have coefficient : digitsValue (Nat.toDigits 10 number.natAbs) = number.natAbs :=
    Nat.ofDigitChars_ten_toDigits
  have short : (Nat.toDigits 10 number.natAbs).length ≤ 20 :=
    (Nat.length_toDigits_le_iff (by omega) (by omega)).mpr (by omega)
  have finite : isFinite number.natAbs 0 = true := by
    have digits : ((Nat.toDigits 10 number.natAbs).length : Int) + 0 < 309 := by omega
    simp only [isFinite, digits, decide_true, Bool.or_true, if_true]
  have signed : (if number < 0 then -(number.natAbs : Int) else number.natAbs) = number := by
    split <;> omega
  have plain : (decide (number < 0) && number.natAbs == 0) = false := by
    rw [Bool.and_eq_false_imp, decide_eq_true_eq, beq_eq_false_iff_ne]
    omega
  simp only [NumberText.value?, integerText, Option.getD_none, List.append_nil, coefficient,
    List.length_nil, Nat.cast_zero, sub_self, finite, decide_eq_true_eq, signed, Option.isNone_none,
    plain, Bool.not_true, Bool.not_false, Bool.false_eq_true, Bool.and_self, if_false, if_true]

end Raw

end EditorLint.Json
