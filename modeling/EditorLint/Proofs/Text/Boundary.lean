import EditorLint.Text.Units

/-!
Places between two characters of a text. A place is known by the units or by the bytes before it,
and cutting a text at byte offsets gives the parts that stand between the places.
-/

namespace EditorLint.Text

/-- A size of texts that adds up and counts every character. -/
structure IsMeasure (size : List Char → Nat) : Prop where
  append : ∀ left right, size (left ++ right) = size left + size right
  positive : ∀ c rest, 0 < size (c :: rest)

theorem units_isMeasure : IsMeasure units := by
  refine ⟨units_append, ?_⟩
  intro c rest
  have first := charUnits_pos c
  simp only [units]
  omega

theorem bytes_isMeasure : IsMeasure bytes := by
  refine ⟨bytes_append, ?_⟩
  intro c rest
  have first := c.utf8Size_pos
  simp only [bytes]
  omega

namespace IsMeasure

variable {size : List Char → Nat}

theorem eq_nil (measure : IsMeasure size) {chars : List Char} (zero : size chars = 0) :
    chars = [] := by
  cases chars with
  | nil => rfl
  | cons c rest =>
      have positive := measure.positive c rest
      omega

/-- Of two places in a text, the one with less before it comes first. -/
theorem split_between (measure : IsMeasure size) {front back front' back' : List Char}
    (same : front ++ back = front' ++ back') (order : size front ≤ size front') :
    ∃ middle, front' = front ++ middle ∧ back = middle ++ back' := by
  rcases List.append_eq_append_iff.mp same with ⟨middle, later, rest⟩ | ⟨middle, earlier, rest⟩
  · exact ⟨middle, later, rest⟩
  · rw [earlier, measure.append] at order
    have empty : middle = [] := measure.eq_nil (by omega)
    subst empty
    exact ⟨[], by simpa using earlier.symm, by simpa using rest.symm⟩

end IsMeasure

/-! ## Cutting at bytes -/

@[simp] theorem dropBytes?_zero (chars : List Char) : dropBytes? chars 0 = some chars := by
  cases chars <;> rfl

@[simp] theorem takeBytes?_zero (chars : List Char) : takeBytes? chars 0 = some [] := by
  cases chars <;> rfl

theorem dropBytes?_append (front back : List Char) :
    dropBytes? (front ++ back) (bytes front) = some back := by
  induction front with
  | nil => simp [bytes]
  | cons c rest ih =>
      have positive := c.utf8Size_pos
      rw [List.cons_append, bytes, dropBytes?, if_pos (Nat.le_add_right ..),
        Nat.add_sub_cancel_left, ih]
      omega

theorem takeBytes?_append (front back : List Char) :
    takeBytes? (front ++ back) (bytes front) = some front := by
  induction front with
  | nil => simp [bytes]
  | cons c rest ih =>
      have positive := c.utf8Size_pos
      rw [List.cons_append, bytes, takeBytes?, if_pos (Nat.le_add_right ..),
        Nat.add_sub_cancel_left, ih, Option.map_some]
      omega

theorem slice?_append (front middle back : List Char) :
    slice? (front ++ middle ++ back) (bytes front) (bytes (front ++ middle)) = some middle := by
  rw [slice?, if_pos (by simp), List.append_assoc, dropBytes?_append, Option.bind_some,
    bytes_append, Nat.add_sub_cancel_left, takeBytes?_append]

theorem dropBytes?_eq_some_iff {chars back : List Char} {count : Nat} :
    dropBytes? chars count = some back ↔ ∃ front, chars = front ++ back ∧ bytes front = count := by
  constructor
  · intro found
    fun_induction dropBytes? chars count with
    | case1 chars => exact ⟨[], Option.some.inj found, rfl⟩
    | case2 => cases found
    | case3 c rest count _ wide ih =>
        obtain ⟨front, split, size⟩ := ih found
        exact ⟨c :: front, by rw [split, List.cons_append], by rw [bytes, size]; omega⟩
    | case4 => cases found
  · rintro ⟨front, rfl, rfl⟩
    exact dropBytes?_append front back

theorem takeBytes?_eq_some_iff {chars front : List Char} {count : Nat} :
    takeBytes? chars count = some front ↔ front <+: chars ∧ bytes front = count := by
  constructor
  · intro found
    fun_induction takeBytes? chars count generalizing front with
    | case1 chars =>
        obtain rfl := Option.some.inj found
        exact ⟨List.nil_prefix, rfl⟩
    | case2 => cases found
    | case3 c rest count _ wide ih =>
        obtain ⟨tail, taken, rfl⟩ := Option.map_eq_some_iff.mp found
        obtain ⟨starts, size⟩ := ih taken
        exact ⟨List.cons_prefix_cons.mpr ⟨rfl, starts⟩, by rw [bytes, size]; omega⟩
    | case4 => cases found
  · rintro ⟨⟨back, rfl⟩, rfl⟩
    exact takeBytes?_append front back

theorem slice?_eq_some_iff {chars middle : List Char} {start stop : Nat} :
    slice? chars start stop = some middle ↔
      ∃ front back, chars = front ++ middle ++ back ∧ start = bytes front ∧
        stop = bytes (front ++ middle) := by
  constructor
  · intro cut
    obtain ⟨order, cut⟩ := Option.ite_none_right_eq_some.mp cut
    obtain ⟨behind, dropped, taken⟩ := Option.bind_eq_some_iff.mp cut
    obtain ⟨front, rfl, rfl⟩ := dropBytes?_eq_some_iff.mp dropped
    obtain ⟨⟨back, rfl⟩, size⟩ := takeBytes?_eq_some_iff.mp taken
    exact ⟨front, back, by rw [List.append_assoc], rfl, by rw [bytes_append, size]; omega⟩
  · rintro ⟨front, back, rfl, rfl, rfl⟩
    exact slice?_append front middle back

end EditorLint.Text
