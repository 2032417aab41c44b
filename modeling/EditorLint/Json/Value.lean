/-!
JSON values. A number written without fraction and exponent is an integer, any other number keeps
its decimal digits; the members of an object keep the order in which they were written.
-/

namespace EditorLint.Json

inductive Value where
  | null
  | bool (value : Bool)
  | integer (value : Int)
  /-- The number `coefficient * 10 ^ exponent`, not written as an integer. -/
  | real (coefficient : Int) (exponent : Int)
  | string (value : String)
  | array (items : List Value)
  | object (members : List (String × Value))
  deriving Inhabited, Repr

/-- Sets a member: a member that is there already keeps its place. -/
def setMember (name : String) (value : Value) : List (String × Value) → List (String × Value)
  | [] => [(name, value)]
  | (other, old) :: rest =>
    if other = name then (name, value) :: rest else (other, old) :: setMember name value rest

namespace Value

/-- The last member of the given name. -/
def member? (name : String) : Value → Option Value
  | object members => (members.reverse.find? (·.1 = name)).map (·.2)
  | _ => none

def bool? : Value → Option Bool
  | bool value => some value
  | _ => none

def string? : Value → Option String
  | string value => some value
  | _ => none

def array? : Value → Option (List Value)
  | array items => some items
  | _ => none

/-- An integer within the given bounds, both included. -/
def integerWithin? (low high : Int) : Value → Option Int
  | integer value => if low ≤ value ∧ value ≤ high then some value else none
  | _ => none

def unsigned? (bits : Nat) (value : Value) : Option Nat :=
  (value.integerWithin? 0 ((1 <<< bits) - 1 : Nat)).map Int.toNat

def signed? (bits : Nat) (value : Value) : Option Int :=
  value.integerWithin? (-(1 <<< (bits - 1) : Nat)) ((1 <<< (bits - 1)) - 1 : Nat)

def ofNat (value : Nat) : Value := integer value

def ofOption {α : Type} (encode : α → Value) : Option α → Value
  | none => null
  | some value => encode value

/-- A list read item by item; one bad item makes the whole list bad. -/
def list? {α : Type} (decode : Value → Option α) (value : Value) : Option (List α) :=
  value.array?.bind fun items => items.mapM decode

/-- Null as nothing, any other value through `decode`. -/
def nullable? {α : Type} (decode : Value → Option α) : Value → Option (Option α)
  | null => some none
  | value => (decode value).map some

end Value

end EditorLint.Json
