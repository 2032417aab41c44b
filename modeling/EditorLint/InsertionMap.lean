/-!
Finite maps that keep their entries in the order in which the keys were first inserted. Setting a
key again replaces its value and keeps its place.
-/

namespace EditorLint

structure InsertionMap (κ ν : Type) where
  entries : List (κ × ν) := []
  deriving DecidableEq, Repr

namespace InsertionMap

variable {κ ν : Type} [DecidableEq κ]

def empty : InsertionMap κ ν := {}

instance : Inhabited (InsertionMap κ ν) := ⟨empty⟩

/-- Sets a key in a list of entries, at its place if it has one and else at the end. -/
def insertEntry (key : κ) (value : ν) : List (κ × ν) → List (κ × ν)
  | [] => [(key, value)]
  | (other, old) :: rest =>
    if other = key then (key, value) :: rest else (other, old) :: insertEntry key value rest

def insert (map : InsertionMap κ ν) (key : κ) (value : ν) : InsertionMap κ ν :=
  ⟨insertEntry key value map.entries⟩

def find? (map : InsertionMap κ ν) (key : κ) : Option ν :=
  (map.entries.find? (·.1 = key)).map (·.2)

def contains (map : InsertionMap κ ν) (key : κ) : Bool := (map.find? key).isSome

def erase (map : InsertionMap κ ν) (key : κ) : InsertionMap κ ν :=
  ⟨map.entries.filter (·.1 ≠ key)⟩

def keys (map : InsertionMap κ ν) : List κ := map.entries.map (·.1)

def values (map : InsertionMap κ ν) : List ν := map.entries.map (·.2)

def size (map : InsertionMap κ ν) : Nat := map.entries.length

def isEmpty (map : InsertionMap κ ν) : Bool := map.entries.isEmpty

def ofList (entries : List (κ × ν)) : InsertionMap κ ν :=
  entries.foldl (fun map (entry : κ × ν) => map.insert entry.1 entry.2) empty

end InsertionMap

end EditorLint
