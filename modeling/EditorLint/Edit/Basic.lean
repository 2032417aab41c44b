/-!
A replacement over a half-open range of UTF-16 offsets, and the selection of edits that can be
applied together in one pass.
-/

namespace EditorLint

structure Edit where
  start : Nat
  stop : Nat
  text : String
  deriving DecidableEq, Repr, Inhabited

namespace Edit

/-- A reversed range has size zero. -/
def size (edit : Edit) : Nat := edit.stop - edit.start

def isEmpty (edit : Edit) : Bool := edit.size == 0

def insertion (offset : Nat) (text : String) : Edit := ⟨offset, offset, text⟩

/-- Edits in the order of their starts; edits with one start keep their order. -/
def sortByStart (edits : List Edit) : List Edit :=
  edits.mergeSort fun left right => left.start ≤ right.start

/-- Goes through edits in order and takes those that start after the last one taken has ended;
`reach` is where that one ended. -/
def takeDisjoint (reach : Option Nat) : List Edit → List Edit
  | [] => []
  | edit :: rest =>
    if reach.any (edit.start ≤ ·) then takeDisjoint reach rest
    else edit :: takeDisjoint (some edit.stop) rest

/-- The edits that can be applied together: in the order of their starts, an edit is dropped when
the last one taken ends at or after its start. Touching edits never share a batch. -/
def nonOverlapping (edits : List Edit) : List Edit :=
  takeDisjoint none (sortByStart edits)

end Edit

end EditorLint
