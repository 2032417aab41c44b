import EditorLint.Finding
import EditorLint.LintError

/-!
The report of one run of the linter: the findings of each file it looked at, with counts. A bare
array of results is a report too; its counts are the sums over the results.
-/

namespace EditorLint

open Json (Value)

structure LintResult where
  filePath : String := ""
  messages : List Finding := []
  errorCount : Nat := 0
  warningCount : Nat := 0
  deriving DecidableEq, Repr

structure Report where
  errorCount : Nat := 0
  warningCount : Nat := 0
  results : List LintResult := []
  deriving DecidableEq, Repr

namespace LintResult

def fieldNames : List String := ["filePath", "messages", "errorCount", "warningCount"]

def ofFields? : List (Option Value) → Option LintResult
  | [filePath, messages, errorCount, warningCount] => do
    return {
      filePath := ← Json.defaulted "" Value.string? filePath
      messages := ← Json.defaulted [] (Value.list? Finding.ofValue?) messages
      errorCount := ← Json.defaulted 0 (·.unsigned? 64) errorCount
      warningCount := ← Json.defaulted 0 (·.unsigned? 64) warningCount }
  | _ => none

def ofValue? (value : Value) : Option LintResult := (value.fields? fieldNames).bind ofFields?

def toValue (result : LintResult) : Value :=
  .object [
    ("filePath", .string result.filePath),
    ("messages", .array (result.messages.map Finding.toValue)),
    ("errorCount", .ofNat result.errorCount),
    ("warningCount", .ofNat result.warningCount)]

end LintResult

namespace Report

def fieldNames : List String := ["errorCount", "warningCount", "results"]

def ofResults (results : List LintResult) : Report :=
  { errorCount := results.foldl (fun total result => total + result.errorCount) 0
    warningCount := results.foldl (fun total result => total + result.warningCount) 0
    results }

def ofFields? : List (Option Value) → Option Report
  | [errorCount, warningCount, results] => do
    return {
      errorCount := ← Json.defaulted 0 (·.unsigned? 64) errorCount
      warningCount := ← Json.defaulted 0 (·.unsigned? 64) warningCount
      results := ← Json.defaulted [] (Value.list? LintResult.ofValue?) results }
  | _ => none

def ofValue? : Value → Option Report
  | .array items => (items.mapM LintResult.ofValue?).map ofResults
  | value => (value.fields? fieldNames).bind ofFields?

def toValue (report : Report) : Value :=
  .object [
    ("errorCount", .ofNat report.errorCount),
    ("warningCount", .ofNat report.warningCount),
    ("results", .array (report.results.map LintResult.toValue))]

def read (text : String) : Except LintError Report :=
  match (Value.read text).bind ofValue? with
  | some report => .ok report
  | none => .error .json

/-- The part about the only file a run looks at; later results do not count. -/
def firstResult (report : Report) : Except LintError LintResult :=
  match report.results with
  | result :: _ => .ok result
  | [] => .error (.malformedReport "report has no results")

end Report

end EditorLint
