import EditorLint.FixAction
import EditorLint.Json.Record
import EditorLint.Path

/-!
The settings of the integration: how findings are shown and filtered, and how the linter is run.
-/

namespace EditorLint

open Json (Value)

structure Settings where
  /-- Show every finding as a warning. -/
  forceWarnings : Bool := false
  skipDefinitionFiles : Bool := true
  configFile : Option String := none
  /-- Drop findings about unused variables, which the host reports itself. -/
  dropUnusedVariables : Bool := false
  /-- Do not lint a document while the host has diagnostics for it. -/
  suppressOnTypeErrors : Bool := false
  batchPolicy : BatchPolicy := .unfiltered
  linter : String := "eslint"
  deriving DecidableEq, Repr, Inhabited

def settingsFileName : String := "lintbridge.yml"

def unusedVariableRules : List String := ["no-unused-vars", "no-unused-variable"]

namespace Settings

/-- The configuration file below a project root; an empty name stands for none. -/
def resolvedConfigFile (settings : Settings) (root : String) : Option String :=
  settings.configFile.bind fun file => if file.isEmpty then none else some (Path.join root file)

def skipsFile (settings : Settings) (file : String) : Bool :=
  settings.skipDefinitionFiles && file.endsWith ".d.ts"

def keepsFinding (settings : Settings) (finding : Finding) : Bool :=
  !settings.dropUnusedVariables || !finding.ruleId.any (· ∈ unusedVariableRules)

/-- The names of the settings, in the order of the fields. -/
def fieldNames : List String :=
  ["alwaysShowRuleFailuresAsWarnings", "ignoreDefinitionFiles", "configFile",
    "disableNoUnusedVariableRule", "supressWhileTypeErrorsPresent", "ruleFixAllPolicy", "linter"]

end Settings

namespace BatchPolicy

def ofName? : String → Option BatchPolicy
  | "unfiltered" => some .unfiltered
  | "nonOverlapping" => some .nonOverlapping
  | _ => none

def name : BatchPolicy → String
  | unfiltered => "unfiltered"
  | nonOverlapping => "nonOverlapping"

/-- A policy is its name, or an object whose only member has that name and no value. -/
def ofValue? : Value → Option BatchPolicy
  | .string name => ofName? name
  | .object [(name, .null)] => ofName? name
  | _ => none

end BatchPolicy

namespace Settings

/-- Settings from a JSON value; null stands for the defaults. -/
def ofValue? : Value → Option Settings
  | .null => some {}
  | value => do
    match ← value.fields? fieldNames with
    | [forceWarnings, skipDefinitionFiles, configFile, dropUnusedVariables,
        suppressOnTypeErrors, batchPolicy, linter] =>
      return {
        forceWarnings := ← Json.defaulted false Value.bool? forceWarnings
        skipDefinitionFiles := ← Json.defaulted true Value.bool? skipDefinitionFiles
        configFile := ← Json.optional Value.string? configFile
        dropUnusedVariables := ← Json.defaulted false Value.bool? dropUnusedVariables
        suppressOnTypeErrors := ← Json.defaulted false Value.bool? suppressOnTypeErrors
        batchPolicy := ← Json.defaulted .unfiltered BatchPolicy.ofValue? batchPolicy
        linter := ← Json.defaulted "eslint" Value.string? linter }
    | _ => none

end Settings

end EditorLint
