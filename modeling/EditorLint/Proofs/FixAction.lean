import EditorLint.FixAction
import EditorLint.Proofs.Edit.Selection

/-!
Which remedies there are for a finding, and where their edits come from. Every remedy for a finding
is made of the findings of one index.
-/

namespace EditorLint

namespace FindingIndex

/-- The edits that an index gives rise to: the fixes of its findings, and comments above them that
turn their rules off. -/
inductive Offers (index : FindingIndex) (positionOf : Nat → Nat → Except LintError Nat) :
    Edit → Prop
  | fix {entry : IndexedFinding} {edit : Edit} (member : entry ∈ index.toList)
      (fixes : entry.edit = some edit) : Offers index positionOf edit
  | comment {entry : IndexedFinding} {rule : String} {lineStart : Nat}
      (member : entry ∈ index.toList) (named : entry.rule = some rule)
      (placed : positionOf (entry.finding.startLine - 1) 0 = .ok lineStart) :
      Offers index positionOf (.insertion lineStart (FixAction.disableComment rule))

/-- How many findings of a rule have a fix. -/
def fixCount (index : FindingIndex) (rule : String) : Nat :=
  index.toList.countP fun entry => entry.rule = some rule ∧ entry.edit ≠ none

/-- The kinds of remedies that an index has for one of its findings. -/
def Provides (index : FindingIndex) (target : IndexedFinding) : FixKind → Prop
  | .single => target.edit ≠ none
  | .fixAllOfRule => ∃ rule ∈ target.rule, 2 ≤ index.fixCount rule
  | .fixAllAutoFixable => ∃ entry ∈ index.toList, entry.edit ≠ none
  | .disableRule => target.rule ≠ none
  | .host => False

instance (index : FindingIndex) (target : IndexedFinding) : DecidablePred (index.Provides target)
  | .single => inferInstanceAs (Decidable (target.edit ≠ none))
  | .fixAllOfRule => inferInstanceAs (Decidable (∃ rule ∈ target.rule, 2 ≤ index.fixCount rule))
  | .fixAllAutoFixable => inferInstanceAs (Decidable (∃ entry ∈ index.toList, entry.edit ≠ none))
  | .disableRule => inferInstanceAs (Decidable (target.rule ≠ none))
  | .host => inferInstanceAs (Decidable False)

theorem length_editsForRule (index : FindingIndex) (rule : String) :
    (index.editsForRule rule).length = index.fixCount rule := by
  rw [editsForRule, List.length_filterMap_eq_countP, List.countP_filter, fixCount]
  congr 1
  funext entry
  cases entry.edit <;> simp

theorem edits_ne_nil_iff {index : FindingIndex} :
    index.edits ≠ [] ↔ ∃ entry ∈ index.toList, entry.edit ≠ none := by
  simp [edits]

theorem mem_of_lookup {index : FindingIndex} {start stop : Nat} {entry : IndexedFinding}
    (found : index.lookup start stop = some entry) : entry ∈ index.toList := by
  obtain ⟨pair, located, rfl⟩ := Option.map_eq_some_iff.mp found
  exact List.mem_map_of_mem (List.mem_of_find?_eq_some located)

theorem mem_edits_of_mem_editsForRule {index : FindingIndex} {rule : String} {edit : Edit}
    (member : edit ∈ index.editsForRule rule) : edit ∈ index.edits := by
  obtain ⟨entry, listed, fixes⟩ := List.mem_filterMap.mp member
  exact List.mem_filterMap.mpr ⟨entry, (List.mem_filter.mp listed).1, fixes⟩

theorem offers_of_mem_edits {index : FindingIndex} {edit : Edit}
    (positionOf : Nat → Nat → Except LintError Nat) (member : edit ∈ index.edits) :
    index.Offers positionOf edit := by
  obtain ⟨entry, listed, fixes⟩ := List.mem_filterMap.mp member
  exact .fix listed fixes

end FindingIndex

/-- The batch that is made of the fixes of a rule. -/
def BatchPolicy.batch : BatchPolicy → List Edit → List Edit
  | .unfiltered, edits => edits
  | .nonOverlapping, edits => Edit.nonOverlapping edits

namespace FixAction

variable {policy : BatchPolicy} {file : String} {index : FindingIndex} {target : IndexedFinding}
  {positionOf : Nat → Nat → Except LintError Nat}

@[simp] theorem edits_onFile (kind : FixKind) (name description file : String)
    (edits : List Edit) : (onFile kind name description file edits).edits = edits := by
  simp [onFile, FixAction.edits]

/-- A comment is due above the finding, and its line cannot be found. -/
def Unplaced (target : IndexedFinding) (positionOf : Nat → Nat → Except LintError Nat)
    (error : LintError) : Prop :=
  target.rule ≠ none ∧ positionOf (target.finding.startLine - 1) 0 = .error error

theorem disableRule_eq_error_iff {error : LintError} :
    disableRule file target positionOf = .error error ↔ Unplaced target positionOf error := by
  unfold disableRule Unplaced
  cases target.rule with
  | none => simp
  | some rule => cases positionOf (target.finding.startLine - 1) 0 <;> simp [Except.map]

theorem allOfRule_cases {action : FixAction} (offered : action ∈ allOfRule policy file index target) :
    ∃ rule, target.rule = some rule ∧ 2 ≤ (index.editsForRule rule).length ∧
      action = onFile .fixAllOfRule "fix-all-same" ("Fix all '" ++ rule ++ "'") file
        (policy.batch (index.editsForRule rule)) := by
  obtain ⟨rule, named, offered⟩ := Option.bind_eq_some_iff.mp offered
  simp only [Option.ite_none_left_eq_some, Option.some.injEq, Nat.not_lt] at offered
  obtain ⟨enough, rfl⟩ := offered
  refine ⟨rule, named, enough, ?_⟩
  cases policy <;> rfl

theorem allAutoFixable_cases {action : FixAction} (offered : action ∈ allAutoFixable file index) :
    index.edits ≠ [] ∧
      action = onFile .fixAllAutoFixable "fix-all"
        ("Fix all auto-fixable " ++ diagnosticSource ++ " failures") file
        (Edit.nonOverlapping index.edits) := by
  simp only [allAutoFixable, Option.mem_def, Option.ite_none_left_eq_some, Option.some.injEq,
    List.isEmpty_iff, Edit.nonOverlapping_eq_nil_iff] at offered
  exact ⟨offered.1, offered.2.symm⟩

theorem disableRule_cases {disable : Option FixAction}
    (disabled : disableRule file target positionOf = .ok disable) :
    (target.rule = none ∧ disable = none) ∨
      ∃ rule lineStart, target.rule = some rule ∧
        positionOf (target.finding.startLine - 1) 0 = .ok lineStart ∧
        disable = some (onFile .disableRule "disable-rule" ("Disable rule '" ++ rule ++ "'") file
          [.insertion lineStart (disableComment rule)]) := by
  unfold disableRule at disabled
  split at disabled
  · next unnamed => exact .inl ⟨unnamed, (Except.ok.inj disabled).symm⟩
  · next rule named =>
      cases placed : positionOf (target.finding.startLine - 1) 0 with
      | error error => simp [placed, Except.map] at disabled
      | ok lineStart =>
          rw [placed] at disabled
          exact .inr ⟨rule, lineStart, named, rfl, (Except.ok.inj disabled).symm⟩

theorem exists_disableRule_of_assemble {start stop : Nat} {actions : List FixAction}
    (found : index.lookup start stop = some target)
    (assembled : assemble policy file index start stop positionOf = .ok actions) :
    ∃ disable, disableRule file target positionOf = .ok disable ∧
      actions = (single file target).toList ++ (allOfRule policy file index target).toList
        ++ (allAutoFixable file index).toList ++ disable.toList := by
  simp only [assemble, found] at assembled
  cases disabled : disableRule file target positionOf with
  | error error => simp [disabled, Except.map] at assembled
  | ok disable =>
      rw [disabled] at assembled
      exact ⟨disable, rfl, (Except.ok.inj assembled).symm⟩

theorem assemble_eq_error_iff {start stop : Nat} {error : LintError}
    (found : index.lookup start stop = some target) :
    assemble policy file index start stop positionOf = .error error ↔
      Unplaced target positionOf error := by
  rw [← @disableRule_eq_error_iff file]
  simp only [assemble, found]
  cases disableRule file target positionOf <;> simp [Except.map]

/-! ## Which remedies there are -/

theorem kind_single : ∀ action ∈ single file target, action.kind = .single := by
  intro action offered
  obtain ⟨edit, -, rfl⟩ := Option.map_eq_some_iff.mp offered
  rfl

theorem kind_allOfRule :
    ∀ action ∈ allOfRule policy file index target, action.kind = .fixAllOfRule := by
  intro action offered
  obtain ⟨rule, -, -, rfl⟩ := allOfRule_cases offered
  rfl

theorem kind_allAutoFixable :
    ∀ action ∈ allAutoFixable file index, action.kind = .fixAllAutoFixable := by
  intro action offered
  rw [(allAutoFixable_cases offered).2]
  rfl

theorem kind_disableRule {disable : Option FixAction}
    (disabled : disableRule file target positionOf = .ok disable) :
    ∀ action ∈ disable, action.kind = .disableRule := by
  intro action offered
  obtain ⟨-, rfl⟩ | ⟨rule, lineStart, -, -, rfl⟩ := disableRule_cases disabled
  · cases offered
  · obtain rfl := Option.some.inj offered
    rfl

theorem isSome_single_iff :
    (single file target).isSome ↔ index.Provides target .single := by
  rw [single, Option.isSome_map, Option.isSome_iff_ne_none, FindingIndex.Provides]

theorem isSome_allOfRule_iff :
    (allOfRule policy file index target).isSome ↔ index.Provides target .fixAllOfRule := by
  unfold allOfRule FindingIndex.Provides
  cases target.rule with
  | none => simp
  | some rule =>
      simp only [Option.bind_some, index.length_editsForRule, Option.mem_some_iff, exists_eq_left']
      by_cases few : index.fixCount rule < 2
      · simp [few, Nat.not_le.mpr few]
      · simp [few, Nat.not_lt.mp few]

theorem isSome_allAutoFixable_iff :
    (allAutoFixable file index).isSome ↔ index.Provides target .fixAllAutoFixable := by
  rw [FindingIndex.Provides, ← FindingIndex.edits_ne_nil_iff, ne_eq,
    ← Edit.nonOverlapping_eq_nil_iff]
  simp [allAutoFixable]

theorem isSome_disableRule_iff {disable : Option FixAction}
    (disabled : disableRule file target positionOf = .ok disable) :
    disable.isSome ↔ index.Provides target .disableRule := by
  obtain ⟨unnamed, rfl⟩ | ⟨rule, lineStart, named, -, rfl⟩ := disableRule_cases disabled
  · simp [FindingIndex.Provides, unnamed]
  · simp [FindingIndex.Provides, named]

theorem map_kind_toList {remedy : Option FixAction} {kind : FixKind}
    (kinds : ∀ action ∈ remedy, action.kind = kind)
    (provided : remedy.isSome ↔ index.Provides target kind) :
    remedy.toList.map (·.kind) = [kind].filter (index.Provides target) := by
  cases remedy with
  | none =>
      have absent : ¬ index.Provides target kind := by simpa using provided
      simp [absent]
  | some action =>
      have present : index.Provides target kind := provided.mp rfl
      simp [present, kinds action rfl]

/-- The remedies for a finding are of exactly the kinds that the index has for it, in a fixed
order. -/
theorem map_kind_remedies {disable : Option FixAction}
    (disabled : disableRule file target positionOf = .ok disable) :
    ((single file target).toList ++ (allOfRule policy file index target).toList
        ++ (allAutoFixable file index).toList ++ disable.toList).map (·.kind) =
      [.single, .fixAllOfRule, .fixAllAutoFixable, .disableRule].filter (index.Provides target) := by
  rw [List.map_append, List.map_append, List.map_append,
    map_kind_toList kind_single isSome_single_iff,
    map_kind_toList kind_allOfRule isSome_allOfRule_iff,
    map_kind_toList kind_allAutoFixable isSome_allAutoFixable_iff,
    map_kind_toList (kind_disableRule disabled) (isSome_disableRule_iff disabled)]
  rw [← List.filter_append, ← List.filter_append, ← List.filter_append]
  rfl

/-- A remedy that fixes one finding is the fix of the finding it is offered for. -/
theorem changes_of_kind_single {start stop : Nat} {actions : List FixAction}
    (found : index.lookup start stop = some target)
    (assembled : assemble policy file index start stop positionOf = .ok actions) :
    ∀ action ∈ actions, action.kind = .single →
      ∃ edit, target.edit = some edit ∧ action.changes = [⟨file, [edit]⟩] := by
  obtain ⟨disable, disabled, rfl⟩ := exists_disableRule_of_assemble found assembled
  intro action offered isSingle
  simp only [List.mem_append, Option.mem_toList] at offered
  rcases offered with ((own | rule) | all) | comment
  · obtain ⟨edit, fixes, rfl⟩ := Option.map_eq_some_iff.mp own
    exact ⟨edit, fixes, rfl⟩
  · cases (kind_allOfRule action rule).symm.trans isSingle
  · cases (kind_allAutoFixable action all).symm.trans isSingle
  · cases (kind_disableRule disabled action comment).symm.trans isSingle

/-! ## Where their edits come from -/

theorem single_offers {action : FixAction} (member : target ∈ index.toList)
    (offered : action ∈ single file target) : ∀ edit ∈ action.edits, index.Offers positionOf edit := by
  obtain ⟨edit, fixes, rfl⟩ := Option.map_eq_some_iff.mp offered
  simpa using FindingIndex.Offers.fix member fixes

theorem allOfRule_offers {action : FixAction} (offered : action ∈ allOfRule policy file index target) :
    ∀ edit ∈ action.edits, index.Offers positionOf edit := by
  obtain ⟨rule, -, -, rfl⟩ := allOfRule_cases offered
  intro edit member
  rw [edits_onFile] at member
  have listed : edit ∈ index.editsForRule rule := by
    cases policy with
    | unfiltered => exact member
    | nonOverlapping => exact Edit.mem_of_mem_nonOverlapping member
  exact FindingIndex.offers_of_mem_edits _ (FindingIndex.mem_edits_of_mem_editsForRule listed)

theorem allAutoFixable_offers {action : FixAction} (offered : action ∈ allAutoFixable file index) :
    ∀ edit ∈ action.edits, index.Offers positionOf edit := by
  obtain ⟨-, rfl⟩ := allAutoFixable_cases offered
  intro edit member
  rw [edits_onFile] at member
  exact FindingIndex.offers_of_mem_edits _ (Edit.mem_of_mem_nonOverlapping member)

theorem disableRule_offers {action : FixAction} {disable : Option FixAction}
    (member : target ∈ index.toList) (disabled : disableRule file target positionOf = .ok disable)
    (offered : action ∈ disable) : ∀ edit ∈ action.edits, index.Offers positionOf edit := by
  obtain ⟨-, rfl⟩ | ⟨rule, lineStart, named, placed, rfl⟩ := disableRule_cases disabled
  · cases offered
  · obtain rfl := Option.some.inj offered
    simpa using FindingIndex.Offers.comment member named placed

/-- What is assembled are the remedies for one finding. -/
theorem assemble_cases {start stop : Nat} {actions : List FixAction} {action : FixAction}
    (assembled : assemble policy file index start stop positionOf = .ok actions)
    (offered : action ∈ actions) :
    ∃ target, index.lookup start stop = some target ∧
      (action ∈ single file target ∨ action ∈ allOfRule policy file index target ∨
        action ∈ allAutoFixable file index ∨
          ∃ disable, disableRule file target positionOf = .ok disable ∧ action ∈ disable) := by
  cases found : index.lookup start stop with
  | none =>
      simp only [assemble, found, Except.ok.injEq] at assembled
      subst assembled
      cases offered
  | some target =>
      obtain ⟨disable, disabled, rfl⟩ := exists_disableRule_of_assemble found assembled
      simp only [List.mem_append, Option.mem_toList, or_assoc] at offered
      exact ⟨target, rfl, offered.imp_right (Or.imp_right (Or.imp_right fun comment =>
        ⟨disable, disabled, comment⟩))⟩

/-- A batch of a rule is determined by the rule, and the rule is that of the finding at the span. -/
theorem exists_eq_of_kind_fixAllOfRule {start stop : Nat} {actions : List FixAction}
    {action : FixAction} (assembled : assemble policy file index start stop positionOf = .ok actions)
    (offered : action ∈ actions) (batch : action.kind = .fixAllOfRule) :
    ∃ target rule, index.lookup start stop = some target ∧ target.rule = some rule ∧
      2 ≤ (index.editsForRule rule).length ∧
      action = onFile .fixAllOfRule "fix-all-same" ("Fix all '" ++ rule ++ "'") file
        (policy.batch (index.editsForRule rule)) := by
  obtain ⟨target, found, own | rule | all | ⟨disable, disabled, comment⟩⟩ :=
    assemble_cases assembled offered
  · cases (kind_single action own).symm.trans batch
  · obtain ⟨rule, named, enough, same⟩ := allOfRule_cases rule
    exact ⟨target, rule, found, named, enough, same⟩
  · cases (kind_allAutoFixable action all).symm.trans batch
  · cases (kind_disableRule disabled action comment).symm.trans batch

theorem eq_of_kind_fixAllAutoFixable {start stop : Nat} {actions : List FixAction}
    {action : FixAction} (assembled : assemble policy file index start stop positionOf = .ok actions)
    (offered : action ∈ actions) (batch : action.kind = .fixAllAutoFixable) :
    index.edits ≠ [] ∧
      action = onFile .fixAllAutoFixable "fix-all"
        ("Fix all auto-fixable " ++ diagnosticSource ++ " failures") file
        (Edit.nonOverlapping index.edits) := by
  obtain ⟨target, -, own | rule | all | ⟨disable, disabled, comment⟩⟩ :=
    assemble_cases assembled offered
  · cases (kind_single action own).symm.trans batch
  · cases (kind_allOfRule action rule).symm.trans batch
  · exact allAutoFixable_cases all
  · cases (kind_disableRule disabled action comment).symm.trans batch

/-- All edits of all remedies come from the index that they were looked up in. -/
theorem assemble_offers {start stop : Nat} {actions : List FixAction}
    (assembled : assemble policy file index start stop positionOf = .ok actions) :
    ∀ action ∈ actions, ∀ edit ∈ action.edits, index.Offers positionOf edit := by
  intro action offered
  obtain ⟨target, found, own | rule | all | ⟨disable, disabled, comment⟩⟩ :=
    assemble_cases assembled offered
  · exact single_offers (FindingIndex.mem_of_lookup found) own
  · exact allOfRule_offers rule
  · exact allAutoFixable_offers all
  · exact disableRule_offers (FindingIndex.mem_of_lookup found) disabled comment

/-! ## Which of them are batches -/

theorem single_apart {action : FixAction} (offered : action ∈ single file target) :
    action.edits.Pairwise (·.stop < ·.start) := by
  obtain ⟨edit, -, rfl⟩ := Option.map_eq_some_iff.mp offered
  simp

theorem allOfRule_apart {action : FixAction}
    (offered : action ∈ allOfRule .nonOverlapping file index target) :
    action.edits.Pairwise (·.stop < ·.start) := by
  obtain ⟨rule, -, -, rfl⟩ := allOfRule_cases offered
  rw [edits_onFile]
  exact Edit.nonOverlapping_apart _

theorem allAutoFixable_apart {action : FixAction} (offered : action ∈ allAutoFixable file index) :
    action.edits.Pairwise (·.stop < ·.start) := by
  obtain ⟨-, rfl⟩ := allAutoFixable_cases offered
  rw [edits_onFile]
  exact Edit.nonOverlapping_apart _

theorem disableRule_apart {action : FixAction} {disable : Option FixAction}
    (disabled : disableRule file target positionOf = .ok disable) (offered : action ∈ disable) :
    action.edits.Pairwise (·.stop < ·.start) := by
  obtain ⟨-, rfl⟩ | ⟨rule, lineStart, -, -, rfl⟩ := disableRule_cases disabled
  · cases offered
  · obtain rfl := Option.some.inj offered
    simp

/-- The edits of a remedy stand in order and apart, unless it takes all fixes of a rule as they
were reported. -/
theorem assemble_apart {start stop : Nat} {actions : List FixAction} {action : FixAction}
    (assembled : assemble policy file index start stop positionOf = .ok actions)
    (offered : action ∈ actions)
    (selected : action.kind = .fixAllOfRule → policy = .nonOverlapping) :
    action.edits.Pairwise (·.stop < ·.start) := by
  obtain ⟨target, -, own | rule | all | ⟨disable, disabled, comment⟩⟩ :=
    assemble_cases assembled offered
  · exact single_apart own
  · obtain rfl := selected (kind_allOfRule action rule)
    exact allOfRule_apart rule
  · exact allAutoFixable_apart all
  · exact disableRule_apart disabled comment

end FixAction

end EditorLint
