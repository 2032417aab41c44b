import EditorLint.Proofs.Json.Literals
import Mathlib

/-!
A value that is written on one line is read back, as long as it does not nest too deep.
-/

namespace EditorLint.Json

open Raw

namespace Value

/-- A value without fractions whose arrays and objects nest no deeper than the given depth, whose
integers have 64 bits and whose objects hold each name once. -/
inductive Plain : Nat → Value → Prop
  | null {depth : Nat} : Plain depth null
  | bool {depth : Nat} (value : Bool) : Plain depth (bool value)
  | integer {depth : Nat} {number : Int} (small : number.natAbs ≤ 2 ^ 64) :
      Plain depth (integer number)
  | string {depth : Nat} (text : String) : Plain depth (string text)
  | array {depth : Nat} {items : List Value} (plain : ∀ item ∈ items, Plain depth item) :
      Plain (depth + 1) (array items)
  | object {depth : Nat} {members : List (String × Value)}
      (distinct : (members.map Prod.fst).Nodup)
      (plain : ∀ member ∈ members, Plain depth member.2) : Plain (depth + 1) (object members)

namespace Plain

variable {depth : Nat}

theorem ofNat {number : Nat} (small : number ≤ 2 ^ 64) : (Value.ofNat number).Plain depth :=
  .integer (by omega)

variable {α : Type} {encode : α → Value}

theorem ofOption {value : Option α} (plain : ∀ given ∈ value, (encode given).Plain depth) :
    (Value.ofOption encode value).Plain depth := by
  cases value with
  | none => exact .null
  | some given => exact plain given rfl

theorem map {items : List α} (plain : ∀ item ∈ items, (encode item).Plain depth) :
    (Value.array (items.map encode)).Plain (depth + 1) :=
  .array (List.forall_mem_map.mpr plain)

end Plain

end Value

/-- Whether the characters are read as the value, whatever follows them. -/
def ReadAs (depth : Nat) (chars : List Char) (value : Value) : Prop :=
  ∃ raw, Raw.value? depth raw = some value ∧
    ∀ fuel rest, 2 * chars.length < fuel → EndsNumber rest →
      readValue fuel (chars ++ rest) = some (raw, rest)

section Rest

variable {rest : List Char}

theorem endsNumber_cons {c : Char} (ends : c.isDigit = false ∧ c ∉ ['.', 'e', 'E']) :
    EndsNumber (c :: rest) := by
  rintro other same
  obtain rfl : c = other := Option.some.inj same
  exact ends

theorem skipBlanks_cons {c : Char} (visible : isBlank c = false) :
    skipBlanks (c :: rest) = c :: rest := by
  rw [skipBlanks, List.dropWhile_cons_of_neg (by simp [visible])]

theorem isBlank_of_isDigit {c : Char} (digit : c.isDigit = true) : isBlank c = false := by
  simp only [isBlank, Bool.or_eq_false_iff, beq_eq_false_iff_ne]
  refine ⟨⟨⟨?_, ?_⟩, ?_⟩, ?_⟩ <;> rintro rfl <;> exact absurd digit (by decide)

theorem readValue_number {c : Char} (starts : c = '-' ∨ c.isDigit = true) (fuel : Nat) :
    readValue (fuel + 1) (c :: rest) =
      (readNumber (c :: rest)).map fun (written, rest) => (.number written, rest) := by
  have visible : isBlank c = false := by
    obtain rfl | digit := starts
    · rfl
    · exact isBlank_of_isDigit digit
  rw [readValue, skipBlanks_cons visible]
  split
  all_goals simp_all

/-- No value starts with a closing bracket, so that a value that is read is not taken for the end
of an empty array. -/
theorem skipBlanks_ne_of_readValue {fuel : Nat} {chars : List Char} {result : Raw × List Char}
    (read : readValue fuel chars = some result) : skipBlanks chars ≠ ']' :: rest := by
  intro closes
  cases fuel with
  | zero => rw [readValue] at read; cases read
  | succ fuel =>
      have whole : readWhole (']' :: rest) = none := by simp [readWhole]
      rw [readValue, closes] at read
      simp [readNumber, readMinus, whole] at read

end Rest

/-! ## Values without parts -/

theorem ReadAs.of_raw {depth : Nat} {chars : List Char} {value : Value} {raw : Raw}
    (means : Raw.value? depth raw = some value)
    (reads : ∀ fuel rest, 2 * chars.length ≤ fuel → EndsNumber rest →
      readValue (fuel + 1) (chars ++ rest) = some (raw, rest)) : ReadAs depth chars value := by
  refine ⟨raw, means, ?_⟩
  rintro (_ | fuel) rest enough ends
  · omega
  · exact reads fuel rest (by omega) ends

theorem readAs_null (depth : Nat) : ReadAs depth "null".toList .null :=
  @ReadAs.of_raw _ _ _ .null rfl fun _ _ _ _ => rfl

theorem readAs_bool (depth : Nat) (value : Bool) :
    ReadAs depth (if value then "true" else "false").toList (.bool value) := by
  refine @ReadAs.of_raw _ _ _ (.bool value) rfl fun fuel rest _ _ => ?_
  cases value <;> rfl

theorem toList_quote (text : String) :
    (quote text).toList = '"' :: (text.toList.flatMap escapeChar ++ ['"']) := by
  simp [quote]

theorem readAs_string (depth : Nat) (text : String) :
    ReadAs depth (quote text).toList (.string text) := by
  have means : Raw.value? depth (.string (text.toList.flatMap escapeChar)) =
      some (.string text) := by
    rw [Raw.value?, unescape_escaped, Option.map_some, String.ofList_toList]
  refine .of_raw means fun fuel rest _ _ => ?_
  rw [toList_quote, List.cons_append, List.append_assoc, List.singleton_append, readValue,
    skipBlanks_cons rfl]
  simp only [readString_escaped, Option.map_some]

theorem readAs_integer (depth : Nat) {number : Int} (small : number.natAbs ≤ 2 ^ 64) :
    ReadAs depth (toString number).toList (.integer number) := by
  have means : Raw.value? depth (.number (integerText number)) = some (.integer number) := by
    rw [Raw.value?, value?_integerText small]
  refine .of_raw means fun fuel rest _ ends => ?_
  obtain ⟨first, others, written, starts⟩ := exists_toString_int number
  have read := readNumber_toString ends number
  rw [written, List.cons_append] at read ⊢
  rw [readValue_number starts, read, Option.map_some]

/-! ## Arrays -/

theorem readItems_intercalate {depth : Nat} {text : List Char} {texts : List (List Char)}
    {value : Value} {values : List Value} (read : ReadAs depth text value)
    (others : List.Forall₂ (ReadAs depth) texts values) :
    ∃ raws, itemValues? depth raws = some (value :: values) ∧
      ∀ fuel rest, 2 * ([','].intercalate (text :: texts)).length + 1 < fuel →
        readItems fuel ([','].intercalate (text :: texts) ++ ']' :: rest) = some (raws, rest) := by
  induction others generalizing text value with
  | nil =>
      obtain ⟨raw, means, reads⟩ := read
      refine ⟨[raw], by simp [itemValues?, means], ?_⟩
      rintro (_ | fuel) rest enough
      · omega
      · rw [List.intercalate_singleton] at enough ⊢
        rw [readItems, reads fuel _ (by omega) (endsNumber_cons (by decide))]
        rfl
  | cons next _ ih =>
      obtain ⟨raw, means, reads⟩ := read
      obtain ⟨raws, itemsMean, itemsRead⟩ := ih next
      refine ⟨raw :: raws, by simp [itemValues?, means, itemsMean], ?_⟩
      rintro (_ | fuel) rest enough
      · omega
      · rw [List.intercalate_cons_cons] at enough ⊢
        simp only [List.length_append, List.length_singleton] at enough
        rw [List.append_assoc, List.append_assoc, List.singleton_append, readItems,
          reads fuel _ (by omega) (endsNumber_cons (by decide))]
        simp only [Option.bind_eq_bind, Option.bind_some, skipBlanks_cons (c := ',') rfl,
          itemsRead fuel rest (by omega), Option.pure_def]

theorem readValue_array {fuel : Nat} {chars rest : List Char} {raws : List Raw}
    (items : readItems fuel chars = some (raws, rest)) :
    readValue (fuel + 1) ('[' :: chars) = some (.array raws, rest) := by
  have notEmpty : ∀ behind, skipBlanks chars ≠ ']' :: behind := by
    intro behind
    cases fuel with
    | zero => rw [readItems] at items; cases items
    | succ fuel =>
        obtain ⟨first, read, -⟩ := Option.bind_eq_some_iff.mp items
        exact skipBlanks_ne_of_readValue read
  rw [readValue, skipBlanks_cons rfl]
  -- `notEmpty` leaves only the branch with items
  simp only [items, Option.map_some]

theorem readAs_array {depth : Nat} {texts : List (List Char)} {values : List Value}
    (read : List.Forall₂ (ReadAs depth) texts values) :
    ReadAs (depth + 1) ('[' :: ([','].intercalate texts ++ [']'])) (.array values) := by
  cases read with
  | nil =>
      have means : Raw.value? (depth + 1) (.array []) = some (.array []) := by
        rw [Raw.value?, itemValues?, Option.map_some]
      exact .of_raw means fun _ _ _ _ => rfl
  | cons first others =>
      obtain ⟨raws, mean, reads⟩ := readItems_intercalate first others
      refine @ReadAs.of_raw _ _ _ (.array raws) ?_ fun fuel rest enough _ => ?_
      · rw [Raw.value?, mean, Option.map_some]
      · simp only [List.length_cons, List.length_append, List.length_nil] at enough
        rw [List.cons_append, List.append_assoc, List.singleton_append]
        exact readValue_array (reads fuel rest (by omega))

/-! ## Objects -/

theorem setMember_of_notMem {name : String} {members : List (String × Value)} (value : Value)
    (fresh : name ∉ members.map Prod.fst) :
    setMember name value members = members ++ [(name, value)] := by
  induction members with
  | nil => rfl
  | cons member members ih =>
      rw [List.map_cons, List.mem_cons, not_or] at fresh
      rw [setMember, if_neg (Ne.symm fresh.1), ih fresh.2, List.cons_append]

section Members

variable {fuel : Nat} {name : String} {chars rest : List Char} {raw : Raw}

theorem readMembers_last (read : readValue fuel chars = some (raw, '\x7d' :: rest)) :
    readMembers (fuel + 1) ((quote name).toList ++ ':' :: chars) =
      some ([(name.toList.flatMap escapeChar, raw)], rest) := by
  rw [toList_quote, List.cons_append, List.append_assoc, List.singleton_append, readMembers,
    skipBlanks_cons rfl]
  simp only [readString_escaped, Option.bind_eq_bind, Option.bind_some,
    skipBlanks_cons (c := ':') rfl, read, skipBlanks_cons (c := '\x7d') rfl, Option.pure_def]

theorem readMembers_more {behind : List Char} {raws : List (List Char × Raw)}
    (read : readValue fuel chars = some (raw, ',' :: behind))
    (others : readMembers fuel behind = some (raws, rest)) :
    readMembers (fuel + 1) ((quote name).toList ++ ':' :: chars) =
      some ((name.toList.flatMap escapeChar, raw) :: raws, rest) := by
  rw [toList_quote, List.cons_append, List.append_assoc, List.singleton_append, readMembers,
    skipBlanks_cons rfl]
  simp only [readString_escaped, Option.bind_eq_bind, Option.bind_some,
    skipBlanks_cons (c := ':') rfl, read, skipBlanks_cons (c := ',') rfl, others, Option.pure_def]

theorem readValue_object {raws : List (List Char × Raw)}
    (members : readMembers fuel chars = some (raws, rest)) :
    readValue (fuel + 1) ('\x7b' :: chars) = some (.object raws, rest) := by
  have notEmpty : ∀ behind, skipBlanks chars ≠ '\x7d' :: behind := by
    intro behind closes
    cases fuel with
    | zero => rw [readMembers] at members; cases members
    | succ fuel =>
        rw [readMembers, closes] at members
        cases members
  rw [readValue, skipBlanks_cons rfl]
  -- `notEmpty` leaves only the branch with members
  simp only [members, Option.map_some]

theorem memberValues?_cons {depth : Nat} {value : Value} (means : Raw.value? depth raw = some value)
    (before : List (String × Value)) (raws : List (List Char × Raw)) :
    memberValues? depth before ((name.toList.flatMap escapeChar, raw) :: raws) =
      memberValues? depth (setMember name value before) raws := by
  rw [memberValues?, unescape_escaped, Option.bind_eq_bind, Option.bind_some, means,
    Option.bind_eq_bind, Option.bind_some, String.ofList_toList]

end Members

/-- Whether the characters are a member with its name. -/
def ReadAsMember (depth : Nat) (chars : List Char) (member : String × Value) : Prop :=
  ∃ written, chars = (quote member.1).toList ++ ':' :: written ∧ ReadAs depth written member.2

theorem readMembers_intercalate {depth : Nat} {text : List Char} {texts : List (List Char)}
    {member : String × Value} {members : List (String × Value)}
    (read : ReadAsMember depth text member)
    (others : List.Forall₂ (ReadAsMember depth) texts members) :
    ∃ raws, (∀ before, ((before ++ member :: members).map Prod.fst).Nodup →
        memberValues? depth before raws = some (before ++ member :: members)) ∧
      ∀ fuel rest, 2 * ([','].intercalate (text :: texts)).length + 1 < fuel →
        readMembers fuel ([','].intercalate (text :: texts) ++ '\x7d' :: rest) =
          some (raws, rest) := by
  have fresh {name : String} {value : Value} {before behind : List (String × Value)}
      (distinct : ((before ++ (name, value) :: behind).map Prod.fst).Nodup) :
      setMember name value before = before ++ [(name, value)] := by
    rw [List.map_append, List.map_cons, List.nodup_append] at distinct
    exact setMember_of_notMem value fun member =>
      distinct.2.2 name member name List.mem_cons_self rfl
  induction others generalizing text member with
  | nil =>
      obtain ⟨written, rfl, raw, means, reads⟩ := read
      refine ⟨[(member.1.toList.flatMap escapeChar, raw)], ?_, ?_⟩
      · intro before distinct
        rw [memberValues?_cons means, fresh distinct, memberValues?]
      · rintro (_ | fuel) rest enough
        · omega
        · rw [List.intercalate_singleton] at enough ⊢
          rw [List.length_append, List.length_cons] at enough
          rw [List.append_assoc, List.cons_append]
          exact readMembers_last (reads fuel _ (by omega) (endsNumber_cons (by decide)))
  | cons next _ ih =>
      obtain ⟨written, rfl, raw, means, reads⟩ := read
      obtain ⟨raws, mean, membersRead⟩ := ih next
      refine ⟨(member.1.toList.flatMap escapeChar, raw) :: raws, ?_, ?_⟩
      · intro before distinct
        rw [memberValues?_cons means, fresh distinct, mean _ (by simpa using distinct),
          List.append_assoc, List.singleton_append]
      · rintro (_ | fuel) rest enough
        · omega
        · rw [List.intercalate_cons_cons] at enough ⊢
          simp only [List.length_append, List.length_cons, List.length_nil] at enough
          simp only [List.append_assoc, List.cons_append, List.nil_append]
          exact readMembers_more (reads fuel _ (by omega) (endsNumber_cons (by decide)))
            (membersRead fuel rest (by omega))

theorem readAs_object {depth : Nat} {texts : List (List Char)} {members : List (String × Value)}
    (distinct : (members.map Prod.fst).Nodup)
    (read : List.Forall₂ (ReadAsMember depth) texts members) :
    ReadAs (depth + 1) ('\x7b' :: ([','].intercalate texts ++ ['\x7d'])) (.object members) := by
  cases read with
  | nil =>
      have means : Raw.value? (depth + 1) (.object []) = some (.object []) := by
        rw [Raw.value?, memberValues?, Option.map_some]
      exact .of_raw means fun _ _ _ _ => rfl
  | cons first others =>
      obtain ⟨raws, mean, reads⟩ := readMembers_intercalate first others
      refine @ReadAs.of_raw _ _ _ (.object raws) ?_ fun fuel rest enough _ => ?_
      · rw [Raw.value?, mean [] distinct, Option.map_some, List.nil_append]
      · simp only [List.length_cons, List.length_append, List.length_nil] at enough
        rw [List.cons_append, List.append_assoc, List.singleton_append]
        exact readValue_object (reads fuel rest (by omega))

/-! ## Whole values -/

theorem compactItems_eq (items : List Value) :
    Value.compactItems items = items.map Value.compact := by
  induction items with
  | nil => rfl
  | cons item items ih => rw [Value.compactItems, ih, List.map_cons]

theorem compactMembers_eq (members : List (String × Value)) :
    Value.compactMembers members =
      members.map fun member => quote member.1 ++ ":" ++ member.2.compact := by
  induction members with
  | nil => rfl
  | cons member members ih => rw [Value.compactMembers, ih, List.map_cons]

theorem readAs_compact {depth : Nat} {value : Value} (plain : value.Plain depth) :
    ReadAs depth value.compact.toList value := by
  induction plain with
  | null => exact readAs_null _
  | bool value => exact readAs_bool _ value
  | integer small => exact readAs_integer _ small
  | string text => exact readAs_string _ text
  | @array depth items _ ih =>
      have written : (Value.array items).compact.toList =
          '[' :: ([','].intercalate (items.map fun item => item.compact.toList) ++ [']']) := by
        simp [Value.compact, compactItems_eq, String.toList_intercalate, Function.comp_def]
      rw [written]
      exact readAs_array (List.forall₂_map_left_iff.mpr (List.forall₂_same.mpr ih))
  | @object depth members distinct _ ih =>
      have written : (Value.object members).compact.toList =
          '\x7b' :: ([','].intercalate (members.map fun member =>
            (quote member.1).toList ++ ':' :: member.2.compact.toList) ++ ['\x7d']) := by
        simp [Value.compact, compactMembers_eq, String.toList_intercalate, Function.comp_def]
      rw [written]
      exact readAs_object distinct (List.forall₂_map_left_iff.mpr
        (List.forall₂_same.mpr fun member within => ⟨_, rfl, ih member within⟩))

theorem read_compact {depth : Nat} {value : Value} (plain : value.Plain depth) :
    Value.readWithin depth value.compact = some value := by
  obtain ⟨raw, means, reads⟩ := readAs_compact plain
  have read : Raw.read value.compact = some raw := by
    have whole := reads (2 * value.compact.toList.length + 2) [] (by omega) nofun
    rw [List.append_nil] at whole
    simp only [Raw.read, whole, Option.bind_eq_bind, Option.bind_some]
    rfl
  rw [Value.readWithin, read, Option.bind_some, means]

end EditorLint.Json
