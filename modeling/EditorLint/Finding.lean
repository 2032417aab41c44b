import EditorLint.Edit.Basic
import EditorLint.Json.Raw
import EditorLint.Json.Record

/-!
What a linter reports about one place of a document. Lines and columns count from one; values
below one stand for one.
-/

namespace EditorLint

open Json (Value Raw)

structure FixSuggestion where
  start : Nat
  stop : Nat
  text : String
  deriving DecidableEq, Repr

structure Finding where
  line : Int
  column : Int
  endLine : Option Int := none
  endColumn : Option Int := none
  severity : Nat := 0
  ruleId : Option String := none
  message : String
  fix : Option FixSuggestion := none
  deriving DecidableEq, Repr

def warningSeverity : Nat := 1

/-- Lines and columns start at one. -/
def oneBased (value : Int) : Nat := (max value 1).toNat

namespace Finding

def startLine (finding : Finding) : Nat := oneBased finding.line

def startColumn (finding : Finding) : Nat := oneBased finding.column

/-- A finding without an end line ends on its line. -/
def stopLine (finding : Finding) : Nat := oneBased (finding.endLine.getD finding.line)

/-- A finding without an end column ends at its column. -/
def stopColumn (finding : Finding) : Nat := oneBased (finding.endColumn.getD finding.column)

def edit (finding : Finding) : Option Edit :=
  finding.fix.map fun fix => ⟨fix.start, fix.stop, fix.text⟩

/-- The message, followed by the rule in parentheses when there is one. -/
def displayMessage (finding : Finding) : String :=
  match finding.ruleId with
  | some rule => finding.message ++ " (" ++ rule ++ ")"
  | none => finding.message

end Finding

/-! ## Reading and writing -/

namespace FixSuggestion

def fieldNames : List String := ["range", "text"]

def range? : Value → Option (Nat × Nat)
  | .array [start, stop] => do return (← start.unsigned? 64, ← stop.unsigned? 64)
  | _ => none

def ofFields? : List (Option Value) → Option FixSuggestion
  | [range, text] => do
    let (start, stop) ← Json.required range? range
    return ⟨start, stop, ← Json.required Value.string? text⟩
  | _ => none

def ofValue? (value : Value) : Option FixSuggestion :=
  (value.fields? fieldNames).bind ofFields?

def toValue (fix : FixSuggestion) : Value :=
  .object [("range", .array [.ofNat fix.start, .ofNat fix.stop]), ("text", .string fix.text)]

end FixSuggestion

namespace Finding

def fieldNames : List String :=
  ["line", "column", "endLine", "endColumn", "severity", "ruleId", "message", "fix"]

def ofFields? : List (Option Value) → Option Finding
  | [line, column, endLine, endColumn, severity, ruleId, message, fix] => do
    return {
      line := ← Json.required (·.signed? 64) line
      column := ← Json.required (·.signed? 64) column
      endLine := ← Json.optional (·.signed? 64) endLine
      endColumn := ← Json.optional (·.signed? 64) endColumn
      severity := ← Json.defaulted 0 (·.unsigned? 8) severity
      ruleId := ← Json.optional Value.string? ruleId
      message := ← Json.required Value.string? message
      fix := ← Json.optional FixSuggestion.ofValue? fix }
  | _ => none

def ofValue? (value : Value) : Option Finding := (value.fields? fieldNames).bind ofFields?

def toValue (finding : Finding) : Value :=
  .object [
    ("line", .integer finding.line),
    ("column", .integer finding.column),
    ("endLine", .ofOption .integer finding.endLine),
    ("endColumn", .ofOption .integer finding.endColumn),
    ("severity", .ofNat finding.severity),
    ("ruleId", .ofOption .string finding.ruleId),
    ("message", .string finding.message),
    ("fix", .ofOption FixSuggestion.toValue finding.fix)]

/-- The known members of a record as it is written, each at most once. Every member is read by
the reader for its name; a member without one is unknown, and its value is skipped unread. -/
def knownMembers? (reader? : String → Option (Raw → Option Value)) :
    List (List Char × Raw) → Option (List (String × Value))
  | [] => some []
  | (name, item) :: rest => do
    let name := String.ofList (← Raw.unescape name)
    let later ← knownMembers? reader? rest
    match reader? name with
    | none => return later
    | some reader =>
      if later.any (·.1 == name) then none else return (name, ← reader item) :: later

/-- A record as it is written, without its unknown members. -/
def recordText? (names : List String) (reader : String → Raw → Option Value) :
    Raw → Option Value
  | .object members =>
    (knownMembers? (fun name => if name ∈ names then some (reader name) else none) members).map
      .object
  | .array items => do
    guard (items.length ≤ names.length)
    return .array (← (names.zip items).mapM fun (name, item) => reader name item)
  | other => other.value? Json.nestingLimit

/-- The reader of each member of a finding: a fix may have unknown members of its own. -/
def memberText? (name : String) : Raw → Option Value :=
  if name = "fix" then
    recordText? FixSuggestion.fieldNames fun _ => Raw.value? Json.nestingLimit
  else Raw.value? Json.nestingLimit

/-- Reads one finding from text. A known member may stand only once, and the values of unknown
members only have to be well formed. -/
def read (text : String) : Option Finding := do
  ofValue? (← recordText? fieldNames memberText? (← Raw.read text))

end Finding

end EditorLint
