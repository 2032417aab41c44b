import EditorLint.Diagnostic
import EditorLint.FindingIndex

/-!
The remedies offered for a finding: its own fix, all fixes of its rule, all fixes of the document,
and a comment that turns its rule off.
-/

namespace EditorLint

inductive FixKind where
  | single
  | fixAllOfRule
  | fixAllAutoFixable
  | disableRule
  /-- Proposed by the host itself. -/
  | host
  deriving DecidableEq, Repr

structure FileChanges where
  file : String
  edits : List Edit
  deriving DecidableEq, Repr

structure FixAction where
  fixName : String
  description : String
  kind : FixKind
  changes : List FileChanges
  deriving DecidableEq, Repr

/-- How the edits of a fix-all batch for one rule are chosen. -/
inductive BatchPolicy where
  /-- Every fix of the rule, as reported. -/
  | unfiltered
  /-- Only fixes that can be applied together. -/
  | nonOverlapping
  deriving DecidableEq, Repr

namespace FixAction

def edits (action : FixAction) : List Edit := action.changes.flatMap (·.edits)

/-- An action on one file; its name starts with the source of the diagnostics. -/
def onFile (kind : FixKind) (name description file : String) (edits : List Edit) : FixAction :=
  { fixName := diagnosticSource ++ ":" ++ name, description, kind, changes := [⟨file, edits⟩] }

def single (file : String) (target : IndexedFinding) : Option FixAction :=
  target.edit.map fun edit =>
    onFile .single (target.rule.getD "unknown") ("Fix: " ++ target.finding.message) file [edit]

/-- All fixes of the finding's rule, offered when there are at least two. -/
def allOfRule (policy : BatchPolicy) (file : String) (index : FindingIndex)
    (target : IndexedFinding) : Option FixAction :=
  target.rule.bind fun rule =>
    let edits := index.editsForRule rule
    if edits.length < 2 then none
    else
      let batch := match policy with
        | .unfiltered => edits
        | .nonOverlapping => Edit.nonOverlapping edits
      some (onFile .fixAllOfRule "fix-all-same" ("Fix all '" ++ rule ++ "'") file batch)

/-- All fixes of the document that can be applied together, when there is any. -/
def allAutoFixable (file : String) (index : FindingIndex) : Option FixAction :=
  let batch := Edit.nonOverlapping index.edits
  if batch.isEmpty then none
  else
    some (onFile .fixAllAutoFixable "fix-all"
      ("Fix all auto-fixable " ++ diagnosticSource ++ " failures") file batch)

/-- The comment that turns a rule off for the next line. -/
def disableComment (rule : String) : String :=
  "// " ++ diagnosticSource ++ "-disable-next-line " ++ rule ++ "\n"

/-- A comment on a line of its own above the finding that turns its rule off. -/
def disableRule (file : String) (target : IndexedFinding)
    (positionOf : Nat → Nat → Except LintError Nat) : Except LintError (Option FixAction) :=
  match target.rule with
  | none => .ok none
  | some rule =>
    (positionOf (target.finding.startLine - 1) 0).map fun lineStart =>
      some (onFile .disableRule "disable-rule" ("Disable rule '" ++ rule ++ "'") file
        [.insertion lineStart (disableComment rule)])

/-- The actions for the finding at exactly the given span; none when nothing was reported there. -/
def assemble (policy : BatchPolicy) (file : String) (index : FindingIndex) (start stop : Nat)
    (positionOf : Nat → Nat → Except LintError Nat) : Except LintError (List FixAction) :=
  match index.lookup start stop with
  | none => .ok []
  | some target =>
    (disableRule file target positionOf).map fun disable =>
      (single file target).toList ++ (allOfRule policy file index target).toList
        ++ (allAutoFixable file index).toList ++ disable.toList

end FixAction

end EditorLint
