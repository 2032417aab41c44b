import EditorLint.Finding
import EditorLint.InsertionMap

/-!
Which finding produced which span of a document. The index of one lint pass is keyed by span, and
the registry holds the index of the last pass for each document.
-/

namespace EditorLint

/-- The text that identifies the span from one offset to another. -/
structure RangeKey where
  text : String
  deriving DecidableEq, Repr

def RangeKey.of (start stop : Nat) : RangeKey := ⟨toString start ++ "," ++ toString stop⟩

structure IndexedFinding where
  finding : Finding
  start : Nat
  stop : Nat
  deriving DecidableEq, Repr

namespace IndexedFinding

def edit (entry : IndexedFinding) : Option Edit := entry.finding.edit

def rule (entry : IndexedFinding) : Option String := entry.finding.ruleId

end IndexedFinding

/-- The findings of one lint pass, in the order in which their spans were first reported. -/
structure FindingIndex where
  entries : InsertionMap RangeKey IndexedFinding := {}
  deriving DecidableEq, Repr

namespace FindingIndex

/-- Records a finding; it takes the place of an earlier one with the same span. -/
def record (index : FindingIndex) (finding : Finding) (start stop : Nat) : FindingIndex :=
  ⟨index.entries.insert (.of start stop) ⟨finding, start, stop⟩⟩

def lookup (index : FindingIndex) (start stop : Nat) : Option IndexedFinding :=
  index.entries.find? (.of start stop)

def toList (index : FindingIndex) : List IndexedFinding := index.entries.values

def size (index : FindingIndex) : Nat := index.entries.size

def edits (index : FindingIndex) : List Edit := index.toList.filterMap IndexedFinding.edit

def editsForRule (index : FindingIndex) (rule : String) : List Edit :=
  (index.toList.filter (·.rule = some rule)).filterMap IndexedFinding.edit

end FindingIndex

abbrev Registry : Type := InsertionMap String FindingIndex

/-- The entry of a document at exactly the given span. -/
def Registry.lookup (registry : Registry) (document : String) (start stop : Nat) :
    Option IndexedFinding :=
  (registry.find? document).bind (·.lookup start stop)

end EditorLint
