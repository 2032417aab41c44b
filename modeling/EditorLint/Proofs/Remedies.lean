import EditorLint.Proofs.FindingIndex
import EditorLint.Proofs.FixAction
import EditorLint.Proofs.Service.Located

/-!
What is offered at a span after a lint: the remedies for the last finding there, each of another
kind.
-/

namespace EditorLint

theorem FixAction.disableRule_eq {file : String} {target : IndexedFinding}
    {positionOf : Nat → Nat → Except LintError Nat} {lineStart : Nat}
    (placed : positionOf (target.finding.startLine - 1) 0 = .ok lineStart) :
    disableRule file target positionOf =
      .ok (target.rule.map fun rule =>
        onFile .disableRule "disable-rule" ("Disable rule '" ++ rule ++ "'") file
          [.insertion lineStart (disableComment rule)]) := by
  unfold disableRule
  split
  · next unnamed => rw [unnamed, Option.map_none]
  · next rule named => rw [placed, named, Except.map, Option.map_some]

namespace Lint

variable (lint : Lint) (policy : BatchPolicy) (file : String)

/-- The remedies for a finding, the last one a comment on a line of its own above that of the
finding. -/
def remedies (target : IndexedFinding) : List FixAction :=
  let lineStart := ((LineTable.ofText lint.text).startOf (target.finding.startLine - 1)).units
  (FixAction.single file target).toList
    ++ (FixAction.allOfRule policy file lint.index target).toList
    ++ (FixAction.allAutoFixable file lint.index).toList
    ++ (target.rule.map fun rule =>
      FixAction.onFile .disableRule "disable-rule" ("Disable rule '" ++ rule ++ "'") file
        [.insertion lineStart (FixAction.disableComment rule)]).toList

/-- What is offered at a span: the remedies for the last finding there. -/
def offered (start stop : Nat) : List FixAction :=
  match lastAt lint.located start stop with
  | none => []
  | some (finding, _) => lint.remedies policy file ⟨finding, start, stop⟩

theorem remedies_kinds (target : IndexedFinding) :
    ((lint.remedies policy file target).map (·.kind)).Sublist
      [.single, .fixAllOfRule, .fixAllAutoFixable, .disableRule] := by
  have comment := @FixAction.disableRule_eq file target
    (fun line _ => .ok ((LineTable.ofText lint.text).startOf line).units) _ rfl
  unfold remedies
  rw [FixAction.map_kind_remedies comment]
  exact List.filter_sublist

theorem offered_kinds (start stop : Nat) :
    ((lint.offered policy file start stop).map (·.kind)).Sublist
      [.single, .fixAllOfRule, .fixAllAutoFixable, .disableRule] := by
  unfold offered
  split
  · exact List.nil_sublist _
  · exact lint.remedies_kinds policy file _

end Lint

namespace Service

variable {service : Service} {file : String} {lint : Lint}

theorem assemble_eq_offered (locates : service.Locates file lint) (policy : BatchPolicy)
    (start stop : Nat) :
    FixAction.assemble policy file lint.index start stop
      ((LineTable.ofText lint.text).positionOf file) = .ok (lint.offered policy file start stop) := by
  simp only [FixAction.assemble, Lint.offered, Lint.index, lookup_indexOf]
  cases found : lastAt lint.located start stop with
  | none => rfl
  | some entry =>
      have member := (List.mem_filter.mp (List.mem_of_getLast? found)).1
      have disable := @FixAction.disableRule_eq file ⟨entry.1, start, stop⟩ _ _
        (locates.lineStart member)
      simp only [Option.map_some, disable, Except.map]
      rfl

theorem codeFixes_eq_offered {host : Host} (locates : service.Locates file lint)
    (known : service.findings file = some lint.index)
    (positions : host.positionOf file = (LineTable.ofText lint.text).positionOf file)
    (start stop : Nat) (codes : List Nat) (quiet : host.codeFixes file start stop codes = []) :
    service.codeFixes host file start stop codes =
      (lint.offered service.settings.batchPolicy file start stop, []) := by
  simp only [codeFixes, known, positions, quiet, assemble_eq_offered locates, List.nil_append]

end Service

end EditorLint
