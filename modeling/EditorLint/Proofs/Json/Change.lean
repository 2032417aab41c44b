import EditorLint.Json.Raw
import EditorLint.Json.Record
import Mathlib

/-!
Changes to the text of a record that its reader does not see. From an object the reader takes, for
each of its fields, the last member of that name; all else in the object only has to be readable.
-/

namespace EditorLint.Json

theorem rel_cases {α : Type} {relation : α → α → Prop} {held held' : Option α}
    (related : Option.Rel relation held held') :
    (held = none ∧ held' = none) ∨
      ∃ value value', held = some value ∧ held' = some value' ∧ relation value value' := by
  cases related with
  | none => exact .inl ⟨rfl, rfl⟩
  | some related => exact .inr ⟨_, _, rfl, rfl, related⟩

theorem rel_mono {relation relation' : Value → Value → Prop} {held held' : Option Value}
    (related : Option.Rel relation held held')
    (weaker : ∀ value value', relation value value' → relation' value value') :
    Option.Rel relation' held held' := by
  cases related with
  | none => exact .none
  | some related => exact .some (weaker _ _ related)

theorem rel_eq_iff {held held' : Option Value} :
    Option.Rel (fun value value' => value = value') held held' ↔ held = held' := by
  cases held <;> cases held' <;> simp

/-! ## Members that are read -/

namespace Value

theorem member?_cons (name other : String) (value : Value) (members : List (String × Value)) :
    (object ((other, value) :: members)).member? name =
      ((object members).member? name).or (if other = name then some value else none) := by
  simp only [member?, List.reverse_cons, List.find?_append, Option.map_or]
  by_cases same : other = name <;> simp [same]

theorem member?_of_notMem {name : String} {members : List (String × Value)}
    (absent : name ∉ members.map Prod.fst) : (object members).member? name = none := by
  induction members with
  | nil => rfl
  | cons member members ih =>
      rw [List.map_cons, List.mem_cons, not_or] at absent
      rw [member?_cons, ih absent.2, if_neg (Ne.symm absent.1), Option.or_none]

end Value

theorem names_setMember (name : String) (value : Value) (members : List (String × Value)) :
    (setMember name value members).map Prod.fst =
      if name ∈ members.map Prod.fst then members.map Prod.fst
      else members.map Prod.fst ++ [name] := by
  induction members with
  | nil => rfl
  | cons member members ih =>
      rw [setMember]
      by_cases same : member.1 = name
      · simp [same]
      · by_cases present : name ∈ members.map Prod.fst
        · simp [same, ih, present]
        · simp [same, ih, present, Ne.symm same]

theorem nodup_setMember {members : List (String × Value)} (distinct : (members.map Prod.fst).Nodup)
    (name : String) (value : Value) : ((setMember name value members).map Prod.fst).Nodup := by
  rw [names_setMember]
  split
  case isTrue => exact distinct
  case isFalse absent =>
    rw [← List.concat_eq_append]
    exact List.Nodup.concat absent distinct

theorem member?_setMember {members : List (String × Value)}
    (distinct : (members.map Prod.fst).Nodup) (name other : String) (value : Value) :
    (Value.object (setMember name value members)).member? other =
      if name = other then some value else (Value.object members).member? other := by
  induction members with
  | nil => rw [setMember, Value.member?_cons, Value.member?_of_notMem (by simp), Option.none_or]
  | cons member members ih =>
      obtain ⟨absent, distinct⟩ := List.nodup_cons.mp distinct
      rw [setMember]
      by_cases same : member.1 = name
      · rw [if_pos same, Value.member?_cons, Value.member?_cons]
        by_cases asked : name = other
        · rw [if_pos asked, if_pos asked, Value.member?_of_notMem (asked ▸ same ▸ absent),
            Option.none_or]
        · rw [if_neg asked, if_neg asked, if_neg (same ▸ asked)]
      · rw [if_neg same, Value.member?_cons, Value.member?_cons, ih distinct]
        by_cases asked : name = other
        · rw [if_pos asked, if_pos asked, Option.some_or]
        · rw [if_neg asked, if_neg asked]

namespace Raw

/-- The name that a member goes by. -/
def nameOf? (member : List Char × Raw) : Option String :=
  (unescape member.1).map String.ofList

/-- The members that go by a name. -/
def called (name : String) (members : List (List Char × Raw)) : List (List Char × Raw) :=
  members.filter fun member => nameOf? member = some name

/-- Whether the name and the value of a member can be read at all. -/
def Readable (depth : Nat) (member : List Char × Raw) : Prop :=
  (nameOf? member).isSome ∧ (value? depth member.2).isSome

/-- The value that stands last under a name. -/
def lastCalled? (depth : Nat) (name : String) (members : List (List Char × Raw)) : Option Value :=
  ((called name members).filterMap (value? depth ·.2)).getLast?

theorem lastCalled?_append (depth : Nat) (name : String)
    (before after : List (List Char × Raw)) :
    lastCalled? depth name (before ++ after) =
      (lastCalled? depth name after).or (lastCalled? depth name before) := by
  rw [lastCalled?, called, List.filter_append, List.filterMap_append, List.getLast?_append]
  rfl

theorem lastCalled?_cons (depth : Nat) (name : String) (member : List Char × Raw)
    (after : List (List Char × Raw)) :
    lastCalled? depth name (member :: after) = (lastCalled? depth name after).or
      (if nameOf? member = some name then value? depth member.2 else none) := by
  rw [← List.singleton_append, lastCalled?_append]
  by_cases same : nameOf? member = some name
  · cases means : value? depth member.2 <;> simp [lastCalled?, called, same, means]
  · simp [lastCalled?, called, same]

theorem lastCalled?_of_called_eq_nil {name : String} {members : List (List Char × Raw)}
    (absent : called name members = []) (depth : Nat) : lastCalled? depth name members = none := by
  rw [lastCalled?, absent]
  rfl

/-- An object means, for one who asks for a name, what stands last under it. -/
theorem memberValues?_of_readable {depth : Nat} {members : List (List Char × Raw)}
    (readable : ∀ member ∈ members, Readable depth member) {before : List (String × Value)}
    (distinct : (before.map Prod.fst).Nodup) :
    ∃ values, memberValues? depth before members = some values ∧ ∀ name,
      (Value.object values).member? name =
        (lastCalled? depth name members).or ((Value.object before).member? name) := by
  induction members generalizing before with
  | nil => exact ⟨before, rfl, fun name => rfl⟩
  | cons member members ih =>
      obtain ⟨⟨named, valued⟩, readable⟩ := List.forall_mem_cons.mp readable
      obtain ⟨written, unescaped⟩ := Option.isSome_iff_exists.mp (Option.isSome_map ▸ named)
      obtain ⟨value, means⟩ := Option.isSome_iff_exists.mp valued
      obtain ⟨values, rest, held⟩ :=
        ih readable (nodup_setMember distinct (String.ofList written) value)
      refine ⟨values, ?_, fun name => ?_⟩
      · rw [memberValues?, unescaped, means]
        exact rest
      · have called : nameOf? member = some (String.ofList written) := by
          rw [nameOf?, unescaped, Option.map_some]
        rw [held, member?_setMember distinct, lastCalled?_cons, called, means, Option.or_assoc]
        simp only [Option.some.injEq]
        split <;> simp

theorem readable_of_memberValues? {depth : Nat} {members : List (List Char × Raw)}
    {before values : List (String × Value)}
    (read : memberValues? depth before members = some values) :
    ∀ member ∈ members, Readable depth member := by
  induction members generalizing before with
  | nil => simp
  | cons member members ih =>
      simp only [memberValues?, Option.bind_eq_bind, Option.bind_eq_some_iff] at read
      obtain ⟨name, named, value, means, rest⟩ := read
      refine List.forall_mem_cons.mpr ⟨?_, ih rest⟩
      simp [Readable, nameOf?, named, means]

theorem value?_object_cases (depth : Nat) (members : List (List Char × Raw)) :
    (∃ values, value? (depth + 1) (.object members) = some (.object values) ∧
      (∀ member ∈ members, Readable depth member) ∧
      ∀ name, (Value.object values).member? name = lastCalled? depth name members) ∨
    (value? (depth + 1) (.object members) = none ∧ ¬∀ member ∈ members, Readable depth member) := by
  by_cases readable : ∀ member ∈ members, Readable depth member
  · have empty : (([] : List (String × Value)).map Prod.fst).Nodup := List.nodup_nil
    obtain ⟨values, read, held⟩ := memberValues?_of_readable readable empty
    refine .inl ⟨values, by rw [value?, read, Option.map_some], readable, fun name => ?_⟩
    rw [held, Value.member?_of_notMem (by simp), Option.or_none]
  · refine .inr ⟨?_, readable⟩
    cases read : memberValues? depth [] members with
    | none => rw [value?, read, Option.map_none]
    | some values => exact absurd (readable_of_memberValues? read) readable

/-- Items of which only one changes are read as values of which only that one changes. -/
theorem itemValues?_change {depth : Nat} {same : Value → Value → Prop} {item item' : Raw}
    (change : Option.Rel same (value? depth item) (value? depth item')) (before after : List Raw) :
    Option.Rel (fun values values' => ∃ front value value' back,
        values = front ++ value :: back ∧ values' = front ++ value' :: back ∧
          front.length = before.length ∧ same value value')
      (itemValues? depth (before ++ item :: after)) (itemValues? depth (before ++ item' :: after)) := by
  induction before with
  | nil =>
      simp only [List.nil_append, itemValues?]
      obtain ⟨read, read'⟩ | ⟨value, value', read, read', related⟩ := rel_cases change
      · rw [read, read']
        exact .none
      · rw [read, read']
        cases itemValues? depth after with
        | none => exact .none
        | some values => exact .some ⟨[], value, value', values, rfl, rfl, rfl, related⟩
  | cons first before ih =>
      simp only [List.cons_append, itemValues?]
      cases value? depth first with
      | none => exact .none
      | some other =>
          obtain ⟨read, read'⟩ | ⟨_, _, read, read', front, value, value', back, rfl, rfl, length,
            related⟩ := rel_cases ih
          · rw [read, read']
            exact .none
          · rw [read, read']
            exact .some ⟨other :: front, value, value', back, rfl, rfl, by simp [length], related⟩

end Raw

/-! ## Records -/

/-- How a record is read: the names of its fields, in the order of its array form, what those fields
hold that may be left out, the values of a field that make no difference, and the record itself
from what its fields hold. -/
structure RecordReader (α : Type) where
  names : List String
  fallbacks : List (String × Value)
  alike : String → Value → Value → Prop
  build : List (Option Value) → Option α
  distinct : names.Nodup
  alike_refl : ∀ name value, alike name value value
  build_filled : ∀ held : String → Option Value,
    build (names.map fun name => (held name).or (fallbacks.lookup name)) = build (names.map held)
  build_alike : ∀ held held' : String → Option Value,
    (∀ name ∈ names, Option.Rel (alike name) (held name) (held' name)) →
      build (names.map held) = build (names.map held')

namespace RecordReader

variable {α : Type} (reader : RecordReader α)

def decode (value : Value) : Option α := (value.fields? reader.names).bind reader.build

/-- A change to the members of an object that is no change to the record. -/
inductive MembersChange (inside : Nat → String → Raw → Raw → Prop) (depth : Nat) :
    List (List Char × Raw) → List (List Char × Raw) → Prop
  /-- One more member that no field is named after. -/
  | unknown {before after : List (List Char × Raw)} {member : List Char × Raw}
      (unknown : ∀ name ∈ reader.names, Raw.nameOf? member ≠ some name)
      (readable : Raw.Readable depth member) :
      MembersChange inside depth (before ++ after) (before ++ member :: after)
  /-- One more member, the first of its name, that holds what its field falls back to. -/
  | fallback {before after : List (List Char × Raw)} {member : List Char × Raw} {name : String}
      {value : Value} (named : Raw.nameOf? member = some name)
      (fallback : reader.fallbacks.lookup name = some value)
      (means : Raw.value? depth member.2 = some value) (first : Raw.called name before = []) :
      MembersChange inside depth (before ++ after) (before ++ member :: after)
  /-- Another order, in which members of one name keep theirs. -/
  | reordered {members members' : List (List Char × Raw)} (perm : members.Perm members')
      (order : ∀ name, Raw.called name members = Raw.called name members') :
      MembersChange inside depth members members'
  /-- A change inside the value of one member. -/
  | within {before after : List (List Char × Raw)} {member : List Char × Raw} {name : String}
      {item : Raw} (named : Raw.nameOf? member = some name)
      (change : inside depth name member.2 item) :
      MembersChange inside depth (before ++ member :: after) (before ++ (member.1, item) :: after)

/-- A change to the text of a record, in one of its two forms, that is no change to the record. -/
inductive Change (inside : Nat → String → Raw → Raw → Prop) : Nat → Raw → Raw → Prop
  | object {depth : Nat} {members members' : List (List Char × Raw)}
      (change : reader.MembersChange inside depth members members') :
      Change inside (depth + 1) (.object members) (.object members')
  | array {depth : Nat} {before after : List Raw} {name : String} {item item' : Raw}
      (place : reader.names[before.length]? = some name) (change : inside depth name item item') :
      Change inside (depth + 1) (.array (before ++ item :: after)) (.array (before ++ item' :: after))

/-- What the reader makes of the members of a name. -/
def held (depth : Nat) (members : List (List Char × Raw)) (name : String) : Option Value :=
  (Raw.lastCalled? depth name members).or (reader.fallbacks.lookup name)

variable {reader} {inside : Nat → String → Raw → Raw → Prop}

theorem rel_refl (name : String) (value : Option Value) :
    Option.Rel (reader.alike name) value value := by
  cases value with
  | none => exact .none
  | some value => exact .some (reader.alike_refl name value)

/-- Members of different names may stand in any order. -/
theorem MembersChange.of_distinct {depth : Nat} {members members' : List (List Char × Raw)}
    (perm : members.Perm members') (distinct : (members.map Raw.nameOf?).Nodup) :
    reader.MembersChange inside depth members members' := by
  refine .reordered perm fun name => ?_
  have filtered : (Raw.called name members).Perm (Raw.called name members') := perm.filter _
  have different : (Raw.called name members).Pairwise (Raw.nameOf? · ≠ Raw.nameOf? ·) :=
    (List.pairwise_map.mp distinct).filter _
  have named : ∀ member ∈ Raw.called name members, Raw.nameOf? member = some name :=
    fun member held => of_decide_eq_true (List.mem_filter.mp held).2
  -- at most one member has the name, and a list of at most one has one order only
  match only : Raw.called name members with
  | [] => exact (List.nil_perm.mp (only ▸ filtered)).symm
  | [member] => exact List.singleton_perm.mp (only ▸ filtered)
  | first :: second :: rest =>
      rw [only] at different named
      have same : Raw.nameOf? first = Raw.nameOf? second := by
        rw [named first (by simp), named second (by simp)]
      exact absurd same (List.rel_of_pairwise_cons different (by simp))

section Held

variable {depth : Nat} {before after : List (List Char × Raw)} {member : List Char × Raw}
  {name : String}

theorem held_append (before after : List (List Char × Raw)) (name : String) :
    reader.held depth (before ++ after) name =
      (Raw.lastCalled? depth name after).or (reader.held depth before name) := by
  rw [held, Raw.lastCalled?_append, Option.or_assoc]
  rfl

theorem held_insert_of_ne (different : Raw.nameOf? member ≠ some name) :
    reader.held depth (before ++ member :: after) name =
      reader.held depth (before ++ after) name := by
  rw [held_append, held_append, Raw.lastCalled?_cons, if_neg different, Option.or_none]

theorem held_insert_self (named : Raw.nameOf? member = some name) :
    reader.held depth (before ++ member :: after) name =
      (Raw.lastCalled? depth name after).or ((Raw.value? depth member.2).or
        (reader.held depth before name)) := by
  rw [held_append, Raw.lastCalled?_cons, if_pos named, Option.or_assoc]

end Held

theorem MembersChange.held {depth : Nat} {members members' : List (List Char × Raw)}
    (keeps : ∀ name raw raw', inside depth name raw raw' →
      Option.Rel (reader.alike name) (Raw.value? depth raw) (Raw.value? depth raw'))
    (change : reader.MembersChange inside depth members members') :
    ∀ name ∈ reader.names,
      Option.Rel (reader.alike name) (reader.held depth members name)
        (reader.held depth members' name) := by
  intro asked known
  cases change with
  | unknown unknown _ =>
      rw [held_insert_of_ne (unknown asked known)]
      exact rel_refl asked _
  | @fallback before after member name value named fallback means first =>
      by_cases same : name = asked
      · subst same
        have unset : reader.held depth before name = some value := by
          rw [RecordReader.held, Raw.lastCalled?_of_called_eq_nil first, Option.none_or, fallback]
        rw [held_insert_self named, held_append, unset, means, Option.or_self]
        exact rel_refl name _
      · rw [held_insert_of_ne (by simpa [named] using same)]
        exact rel_refl asked _
  | reordered _ order =>
      rw [RecordReader.held, RecordReader.held, Raw.lastCalled?, Raw.lastCalled?, order asked]
      exact rel_refl asked _
  | @within before after member name item named change =>
      have named' : Raw.nameOf? (member.1, item) = some name := named
      by_cases same : name = asked
      · subst same
        rw [held_insert_self named, held_insert_self named']
        cases Raw.lastCalled? depth name after with
        | some later => exact rel_refl name _
        | none =>
            obtain ⟨read, read'⟩ | ⟨value, value', read, read', related⟩ :=
              rel_cases (keeps name _ _ change)
            · rw [read, read']
              exact rel_refl name _
            · rw [read, read']
              exact .some related
      · rw [held_insert_of_ne (by simpa [named] using same),
          held_insert_of_ne (by simpa [named'] using same)]
        exact rel_refl asked _

theorem MembersChange.readable {depth : Nat} {members members' : List (List Char × Raw)}
    (keeps : ∀ name raw raw', inside depth name raw raw' →
      Option.Rel (reader.alike name) (Raw.value? depth raw) (Raw.value? depth raw'))
    (change : reader.MembersChange inside depth members members') :
    (∀ member ∈ members, Raw.Readable depth member) ↔
      ∀ member ∈ members', Raw.Readable depth member := by
  cases change with
  | unknown _ readable => simp [or_imp, forall_and, readable]
  | fallback named _ means _ =>
      have readable : Raw.Readable depth _ := ⟨by rw [named]; rfl, by rw [means]; rfl⟩
      simp [or_imp, forall_and, readable]
  | reordered perm _ => simp only [perm.mem_iff]
  | @within before after member name item named change =>
      have readable : Raw.Readable depth member ↔ Raw.Readable depth (member.1, item) := by
        unfold Raw.Readable
        obtain ⟨read, read'⟩ | ⟨value, value', read, read', -⟩ := rel_cases (keeps name _ _ change)
        · rw [read, read']
          rfl
        · rw [read, read']
          rfl
      simp [or_imp, forall_and, readable]

theorem decode_object {depth : Nat} {members : List (List Char × Raw)}
    {values : List (String × Value)} (held : ∀ name,
      (Value.object values).member? name = Raw.lastCalled? depth name members) :
    reader.decode (.object values) = reader.build (reader.names.map (reader.held depth members)) := by
  have fields : (Value.object values).fields? reader.names =
      some (reader.names.map (Raw.lastCalled? depth · members)) :=
    congrArg some (List.map_congr_left fun name _ => held name)
  rw [decode, fields, Option.bind_some]
  exact (reader.build_filled (Raw.lastCalled? depth · members)).symm

theorem fields?_array {names : List String} (distinct : names.Nodup) {items : List Value}
    (short : items.length ≤ names.length) :
    (Value.array items).fields? names = some (names.map fun name => items[names.idxOf name]?) := by
  rw [Value.fields?, if_pos short]
  congr 1
  apply List.ext_getElem
  · simp [short]
  · intro place _ within
    have bound : place < names.length := by simpa using within
    rw [List.getElem_map, distinct.idxOf_getElem place bound, List.getElem_append]
    split
    case isTrue given => rw [List.getElem_map, List.getElem?_eq_getElem (by simpa using given)]
    case isFalse missing => rw [List.getElem_replicate, List.getElem?_eq_none (by simpa using missing)]

theorem getElem?_append_cons_of_ne {front : List Value} {place : Nat} (value value' : Value)
    (back : List Value) (different : place ≠ front.length) :
    (front ++ value :: back)[place]? = (front ++ value' :: back)[place]? := by
  rw [List.getElem?_append, List.getElem?_append]
  split
  case isTrue => rfl
  case isFalse behind =>
    obtain ⟨further, position⟩ : ∃ further, place - front.length = further + 1 :=
      Nat.exists_eq_add_one.mpr (by omega)
    rw [position, List.getElem?_cons_succ, List.getElem?_cons_succ]

theorem decode_array {front back : List Value} {name : String} {value value' : Value}
    (place : reader.names[front.length]? = some name) (alike : reader.alike name value value') :
    reader.decode (.array (front ++ value :: back)) =
      reader.decode (.array (front ++ value' :: back)) := by
  have length : (front ++ value :: back).length = (front ++ value' :: back).length := by simp
  by_cases short : (front ++ value :: back).length ≤ reader.names.length
  · rw [decode, decode, fields?_array reader.distinct short,
      fields?_array reader.distinct (length ▸ short), Option.bind_some, Option.bind_some]
    apply reader.build_alike
    intro asked known
    by_cases same : reader.names.idxOf asked = front.length
    · obtain rfl : asked = name := by
        rw [← same, List.getElem?_idxOf known] at place
        exact Option.some.inj place
      simpa [same] using alike
    · rw [getElem?_append_cons_of_ne value value' back same]
      exact rel_refl asked _
  · rw [decode, decode, Value.fields?, Value.fields?, if_neg short, if_neg (length ▸ short)]

theorem MembersChange.decode {depth : Nat} {members members' : List (List Char × Raw)}
    (keeps : ∀ name raw raw', inside depth name raw raw' →
      Option.Rel (reader.alike name) (Raw.value? depth raw) (Raw.value? depth raw'))
    (change : reader.MembersChange inside depth members members') :
    Option.Rel (fun value value' => ∃ read read', value = .object read ∧ value' = .object read' ∧
        reader.decode value = reader.decode value')
      (Raw.value? (depth + 1) (.object members)) (Raw.value? (depth + 1) (.object members')) := by
  have readable := change.readable keeps
  obtain ⟨values, read, all, held⟩ | ⟨read, unreadable⟩ := Raw.value?_object_cases depth members
  · obtain ⟨values', read', -, held'⟩ | ⟨-, unreadable'⟩ := Raw.value?_object_cases depth members'
    · rw [read, read']
      refine .some ⟨values, values', rfl, rfl, ?_⟩
      rw [decode_object held, decode_object held']
      exact reader.build_alike _ _ (change.held keeps)
    · exact absurd (readable.mp all) unreadable'
  · obtain ⟨-, -, all, -⟩ | ⟨read', -⟩ := Raw.value?_object_cases depth members'
    · exact absurd (readable.mpr all) unreadable
    · rw [read, read']
      exact .none

theorem Change.decode {depth : Nat} {raw raw' : Raw}
    (keeps : ∀ depth name raw raw', inside depth name raw raw' →
      Option.Rel (reader.alike name) (Raw.value? depth raw) (Raw.value? depth raw'))
    (change : reader.Change inside depth raw raw') :
    Option.Rel (fun value value' => value ≠ .null ∧ value' ≠ .null ∧
        reader.decode value = reader.decode value')
      (Raw.value? depth raw) (Raw.value? depth raw') := by
  cases change with
  | @object depth members members' change =>
      refine rel_mono (change.decode (keeps depth)) ?_
      rintro _ _ ⟨read, read', rfl, rfl, same⟩
      exact ⟨nofun, nofun, same⟩
  | @array depth before after name item item' place change =>
      obtain ⟨read, read'⟩ | ⟨_, _, read, read', front, value, value', back, rfl, rfl, length,
        alike⟩ := rel_cases (Raw.itemValues?_change (keeps depth name item item' change) before after)
      · rw [Raw.value?, Raw.value?, read, read']
        exact .none
      · rw [Raw.value?, Raw.value?, read, read']
        exact .some ⟨nofun, nofun, decode_array (length ▸ place) alike⟩

end RecordReader

/-! ## Lists -/

/-- A change to one item of an array. -/
inductive ItemsChange (inside : Nat → Raw → Raw → Prop) : Nat → Raw → Raw → Prop
  | item {depth : Nat} {before after : List Raw} {item item' : Raw}
      (change : inside depth item item') :
      ItemsChange inside (depth + 1) (.array (before ++ item :: after))
        (.array (before ++ item' :: after))

theorem ItemsChange.decode {α : Type} {decode : Value → Option α}
    {inside : Nat → Raw → Raw → Prop} {depth : Nat} {raw raw' : Raw}
    (keeps : ∀ depth raw raw', inside depth raw raw' →
      Option.Rel (decode · = decode ·) (Raw.value? depth raw) (Raw.value? depth raw'))
    (change : ItemsChange inside depth raw raw') :
    Option.Rel (fun value value' => ∃ items items', value = .array items ∧ value' = .array items' ∧
        items.mapM decode = items'.mapM decode)
      (Raw.value? depth raw) (Raw.value? depth raw') := by
  obtain @⟨depth, before, after, item, item', change⟩ := change
  obtain ⟨read, read'⟩ | ⟨_, _, read, read', front, value, value', back, rfl, rfl, -, same⟩ :=
    rel_cases (Raw.itemValues?_change (keeps depth item item' change) before after)
  · rw [Raw.value?, Raw.value?, read, read']
    exact .none
  · rw [Raw.value?, Raw.value?, read, read']
    refine .some ⟨_, _, rfl, rfl, ?_⟩
    simp only [List.mapM_append, List.mapM_cons, same]

end EditorLint.Json
