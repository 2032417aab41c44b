import EditorLint.Settings.Basic
import EditorLint.Text.Blank
import EditorLint.Yaml.Node

/-!
Settings as a YAML document: a mapping from the names of the settings to their values. Unknown
names are ignored, and a text without a document stands for the defaults.
-/

namespace EditorLint.Settings

open Yaml (Node Style)

/-- A node without anchors and aliases in front, each alias replaced by the last node of its
number. -/
def plainNode (marked : List (Nat × Node)) (node : Node) : Node :=
  let target := match node with
    | .repeated number => ((marked.reverse.lookup number).getD .empty)
    | other => other
  match target with
  | .anchored _ inner => inner
  | other => other

structure ScalarNode where
  text : String
  style : Style
  tag : Option String

def scalar? : Node → Option ScalarNode
  | .scalar text style tag => some ⟨text, style, tag⟩
  | _ => none

namespace ScalarNode

def isNullWord (text : String) : Bool := text ∈ ["null", "Null", "NULL", "~"]

def boolTag : String := "tag:yaml.org,2002:bool"

def nullTag : String := "tag:yaml.org,2002:null"

def isPlain (node : ScalarNode) : Bool := node.style == .plain

/-- A plain scalar that is empty or a word for null. -/
def isNull (node : ScalarNode) : Bool :=
  node.isPlain && (node.text.isEmpty || isNullWord node.text)

/-- Any plain scalar may be a boolean, and so may a literal one that is tagged as one. -/
def bool? (node : ScalarNode) : Option Bool :=
  if node.isPlain || (node.style == .literal && node.tag == some boolTag) then
    match node.text with
    | "true" | "True" | "TRUE" => some true
    | "false" | "False" | "FALSE" => some false
    | _ => none
  else none

/-- The text of a scalar unless it is null. A tag other than that of null makes any scalar a
text. -/
def optionalText? (node : ScalarNode) : Option (Option String) :=
  match node.isPlain, node.tag with
  | true, some tag =>
    if tag ≠ nullTag then some (some node.text)
    else if isNullWord node.text then some none
    else none
  | true, none => some (if node.isNull then none else some node.text)
  | false, _ => some (some node.text)

/-- The name of a tag that belongs to the document alone. -/
def localTag? (node : ScalarNode) : Option String :=
  node.tag.bind fun tag =>
    if tag == "!" then some tag
    else if tag.startsWith "!" then some (String.ofList (tag.toList.drop 1))
    else none

/-- A policy is a scalar of its name, or a null that has the name as its tag. -/
def policy? (node : ScalarNode) : Option BatchPolicy :=
  match node.localTag? with
  | some name => if node.isNull then BatchPolicy.ofName? name else none
  | none => BatchPolicy.ofName? node.text

end ScalarNode

def withNode? (settings : Settings) (name : String) (node : Node) : Option Settings := do
  let scalar := scalar? node
  match name with
  | "alwaysShowRuleFailuresAsWarnings" =>
    return { settings with forceWarnings := ← (← scalar).bool? }
  | "ignoreDefinitionFiles" =>
    return { settings with skipDefinitionFiles := ← (← scalar).bool? }
  | "configFile" => return { settings with configFile := ← (← scalar).optionalText? }
  | "disableNoUnusedVariableRule" =>
    return { settings with dropUnusedVariables := ← (← scalar).bool? }
  | "supressWhileTypeErrorsPresent" =>
    return { settings with suppressOnTypeErrors := ← (← scalar).bool? }
  | "ruleFixAllPolicy" => return { settings with batchPolicy := ← (← scalar).policy? }
  | "linter" => return { settings with linter := (← scalar).text }
  | _ => return settings

/-- The settings with the entries of a mapping. Keys are scalars, and a setting stands only
once. -/
def withEntries? (marked : List (Nat × Node)) (settings : Settings) (seen : List String) :
    List (Node × Node) → Option Settings
  | [] => some settings
  | (key, value) :: rest => do
    let name := (← scalar? (plainNode marked key)).text
    guard (name ∉ seen)
    let settings ← settings.withNode? name (plainNode marked value)
    withEntries? marked settings (if name ∈ fieldNames then name :: seen else seen) rest

/-- Settings from the root of a document; an empty document is one without settings. -/
def ofNode? (root : Node) : Option Settings :=
  match plainNode root.marked root with
  | .mapping entries => withEntries? root.marked {} [] entries
  | .scalar "" .plain _ => some {}
  | _ => none

/-- Reads settings from text. A blank text is one without settings. -/
def parse? (text : String) : Option Settings := do
  if Text.isBlankText text then return {}
  match ← Yaml.Document.read text with
  | some root => ofNode? root
  | none => some {}

end EditorLint.Settings
