import EditorLint.Json.Value

/-!
Records in JSON. A record is written as an object, where unknown members are ignored, or as an
array of its fields in the order of their declaration, where fields at the end may be missing.
-/

namespace EditorLint.Json

/-- What a record holds for each of its fields, in the order of `names`. -/
def Value.fields? (names : List String) : Value → Option (List (Option Value))
  | .object members => some (names.map ((Value.object members).member? ·))
  | .array items =>
    if items.length ≤ names.length then
      some (items.map some ++ List.replicate (names.length - items.length) none)
    else none
  | _ => none

/-- What a record holds for each of its fields, when an array must hold them all. -/
def Value.allFields? (names : List String) : Value → Option (List (Option Value))
  | .array items => if items.length = names.length then some (items.map some) else none
  | value => value.fields? names

def required {α : Type} (decode : Value → Option α) (field : Option Value) : Option α :=
  field.bind decode

/-- A field that has a default when it is not there. -/
def defaulted {α : Type} (fallback : α) (decode : Value → Option α) :
    Option Value → Option α
  | none => some fallback
  | some value => decode value

def optional {α : Type} (decode : Value → Option α) : Option Value → Option (Option α) :=
  defaulted none (Value.nullable? decode)

end EditorLint.Json
