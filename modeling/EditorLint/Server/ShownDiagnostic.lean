import EditorLint.Diagnostic
import EditorLint.Server.Range
import EditorLint.Uri.Reading

/-!
Diagnostics as an editor shows them and sends them back. The server puts the exact offsets of a
diagnostic into its data, so that a diagnostic that comes back leads to the finding behind it.
-/

namespace EditorLint

open Json (Value)

/-- A URI in JSON is its text, which is brought into normal form. -/
def Uri.ofValue? (value : Value) : Option Uri := value.string?.bind Uri.read?

namespace Server

/-- Members of an object that are left out when there is no value. -/
def present {α : Type} (name : String) (encode : α → Value) : Option α → List (String × Value)
  | some value => [(name, encode value)]
  | none => []

inductive DiagnosticCode where
  | number (value : Int)
  | text (value : String)
  deriving DecidableEq, Repr

namespace DiagnosticCode

def toValue : DiagnosticCode → Value
  | number value => .integer value
  | text value => .string value

def ofValue? : Value → Option DiagnosticCode
  | .string value => some (text value)
  | value => (value.signed? 32).map number

end DiagnosticCode

/-- A place in another document that has to do with a diagnostic. -/
structure RelatedPlace where
  uri : Uri
  range : Range
  message : String
  deriving DecidableEq, Repr

namespace RelatedPlace

def toValue (place : RelatedPlace) : Value :=
  .object [
    ("location", .object [("uri", .string place.uri.text), ("range", place.range.toValue)]),
    ("message", .string place.message)]

def ofValue? (value : Value) : Option RelatedPlace := do
  match ← value.allFields? ["location", "message"] with
  | [location, message] =>
    match ← (← location).allFields? ["uri", "range"] with
    | [uri, range] =>
      return {
        uri := ← Json.required Uri.ofValue? uri
        range := ← Json.required Range.ofValue? range
        message := ← Json.required Value.string? message }
    | _ => none
  | _ => none

end RelatedPlace

structure ShownDiagnostic where
  range : Range
  severity : Option Int := none
  code : Option DiagnosticCode := none
  codeDescription : Option Uri := none
  source : Option String := none
  message : String
  related : Option (List RelatedPlace) := none
  tags : Option (List Int) := none
  data : Option Value := none

/-- Errors are 1, warnings 2, informations 3 and hints 4. -/
def severityNumber : Category → Int
  | .error => 1
  | .warning => 2
  | .message => 3
  | .suggestion => 4

namespace ShownDiagnostic

/-- The exact offsets of a diagnostic, as data. -/
def offsetData (start stop : Nat) : Value :=
  .object [("start", .ofNat start), ("end", .ofNat stop)]

def ofDiagnostic (lines : LineTable) (diagnostic : Diagnostic) : ShownDiagnostic where
  range := .ofOffsets lines diagnostic.start diagnostic.stop
  severity := some (severityNumber diagnostic.category)
  code := some (.number diagnostic.code)
  source := diagnostic.source
  message := diagnostic.message
  data := some (offsetData diagnostic.start diagnostic.stop)

def dataOffsets? (diagnostic : ShownDiagnostic) : Option (Nat × Nat) := do
  let data ← diagnostic.data
  return (← (← data.member? "start").unsigned? 64, ← (← data.member? "end").unsigned? 64)

/-- The offsets of a diagnostic: those in its data, or else those of its range. -/
def offsets? (lines : LineTable) (diagnostic : ShownDiagnostic) : Option (Nat × Nat) :=
  diagnostic.dataOffsets? <|> diagnostic.range.offsets? lines

def toValue (diagnostic : ShownDiagnostic) : Value :=
  .object (
    [("range", diagnostic.range.toValue)]
      ++ present "severity" .integer diagnostic.severity
      ++ present "code" DiagnosticCode.toValue diagnostic.code
      ++ present "codeDescription" (fun uri => .object [("href", .string uri.text)])
        diagnostic.codeDescription
      ++ present "source" .string diagnostic.source
      ++ [("message", .string diagnostic.message)]
      ++ present "relatedInformation" (fun places => .array (places.map RelatedPlace.toValue))
        diagnostic.related
      ++ present "tags" (fun tags => .array (tags.map .integer)) diagnostic.tags
      ++ present "data" id diagnostic.data)

def fieldNames : List String :=
  ["range", "severity", "code", "codeDescription", "source", "message", "relatedInformation",
    "tags", "data"]

def descriptionOfValue? (value : Value) : Option Uri := do
  match ← value.allFields? ["href"] with
  | [href] => Json.required Uri.ofValue? href
  | _ => none

def ofValue? (value : Value) : Option ShownDiagnostic := do
  match ← value.allFields? fieldNames with
  | [range, severity, code, codeDescription, source, message, related, tags, data] =>
    return {
      range := ← Json.required Range.ofValue? range
      severity := ← Json.optional (·.signed? 32) severity
      code := ← Json.optional DiagnosticCode.ofValue? code
      codeDescription := ← Json.optional descriptionOfValue? codeDescription
      source := ← Json.optional Value.string? source
      message := ← Json.required Value.string? message
      related := ← Json.optional (Value.list? RelatedPlace.ofValue?) related
      tags := ← Json.optional (Value.list? (·.signed? 32)) tags
      data := ← Json.optional some data }
  | _ => none

end ShownDiagnostic

end Server

end EditorLint
