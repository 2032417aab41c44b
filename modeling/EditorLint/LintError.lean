/-!
Why a lint computation failed. Every cause is recoverable: the service logs it and falls back to
the diagnostics of the host.
-/

namespace EditorLint

inductive LintError where
  /-- The linter crashed or ended with output that cannot be used. -/
  | engine (detail : String)
  /-- The linter answered, but its report lacks a required part. -/
  | malformedReport (detail : String)
  | moduleNotFound (name : String)
  | unknownFile (file : String)
  | positionOutOfRange (file : String) (line character : Nat)
  | invalidEdit (start stop : Nat)
  | config (detail : String)
  | io
  | json
  deriving DecidableEq, Repr

namespace LintError

def origin : LintError → String
  | engine _ | malformedReport _ | json => "lint engine"
  | moduleNotFound _ => "module resolution"
  | unknownFile _ | positionOutOfRange .. => "offset translation"
  | invalidEdit .. => "edit application"
  | config _ => "configuration"
  | io => "io"

def message : LintError → String
  | engine detail => "lint engine failed: " ++ detail
  | malformedReport detail => "malformed lint report: " ++ detail
  | moduleNotFound name =>
    "failed to load module '" ++ name ++ "': not found in any search root"
  | unknownFile file => "file '" ++ file ++ "' is not known to the language service"
  | positionOutOfRange file line character =>
    "position " ++ toString line ++ ":" ++ toString character ++ " is outside of '" ++ file ++ "'"
  | invalidEdit start stop =>
    "edit range [" ++ toString start ++ ", " ++ toString stop ++ ") cannot be applied"
  | config detail => "invalid configuration: " ++ detail
  | io => "input or output failed"
  | json => "not a JSON document of the expected shape"

end LintError

end EditorLint
