import EditorLint.Proofs.Edit.Maximal
import EditorLint.Proofs.FixAction
import EditorLint.Service

/-!
The batches that a service has. The batch of a document is the same wherever it is asked for, and
the edits of a selected batch stand apart and leave none out that could be taken with them.
-/

namespace EditorLint.Service

variable {service : Service} {host : Host} {file : String}

/-- Behind the fixes of the host come the actions that are assembled from what is known of the
document, if there are any. -/
theorem exists_codeFixes_eq_append (service : Service) (host : Host) (file : String)
    (start stop : Nat) (codes : List Nat) :
    ∃ remedies,
      (service.codeFixes host file start stop codes).1 =
        host.codeFixes file start stop codes ++ remedies ∧
      ∀ remedy ∈ remedies, ∃ index actions, service.findings file = some index ∧
        FixAction.assemble service.settings.batchPolicy file index start stop
          (host.positionOf file) = .ok actions ∧ remedy ∈ actions := by
  unfold codeFixes
  cases service.findings file with
  | none => exact ⟨[], (List.append_nil _).symm, List.forall_mem_nil _⟩
  | some index =>
      cases assembled : FixAction.assemble service.settings.batchPolicy file index start stop
          (host.positionOf file) with
      | error error => exact ⟨[], by simp [assembled], List.forall_mem_nil _⟩
      | ok actions =>
          refine ⟨actions, by simp [assembled], fun remedy offered => ?_⟩
          exact ⟨index, actions, rfl, assembled, offered⟩

theorem fixAllEdits_eq_nil_iff :
    service.fixAllEdits file = [] ↔
      ∀ index, service.findings file = some index → ∀ entry ∈ index.toList, entry.edit = none := by
  unfold fixAllEdits
  cases service.findings file with
  | none => simp
  | some index => simp [Edit.nonOverlapping_eq_nil_iff, FindingIndex.edits]

/-- The batch of a document is what the service has for all of it, and it is empty only if no
finding has a fix. The batch of a rule holds all of its fixes as they were reported, or else those
that can be applied together, and then no fix of the rule can be taken as well. No batch that is
offered is empty. -/
theorem codeFixes_batches (service : Service) (host : Host) (file : String) (start stop : Nat)
    (codes : List Nat) :
    (service.fixAllEdits file = [] ↔
        ∀ index, service.findings file = some index →
          ∀ entry ∈ index.toList, entry.edit = none) ∧
      ∃ remedies,
        (service.codeFixes host file start stop codes).1 =
          host.codeFixes file start stop codes ++ remedies ∧
        ∀ remedy ∈ remedies,
          (remedy.kind = .fixAllAutoFixable →
            remedy.edits = service.fixAllEdits file ∧ remedy.edits ≠ [] ∧
              remedy.edits.Pairwise (·.start ≤ ·.start) ∧
              remedy.edits.Pairwise (·.stop < ·.start)) ∧
          (remedy.kind = .fixAllOfRule →
            ∃ index target rule, service.findings file = some index ∧
              index.lookup start stop = some target ∧ target.rule = some rule ∧
              let fixes := (index.toList.filter (·.rule = some rule)).filterMap (·.edit)
              remedy.edits ≠ [] ∧
                (service.settings.batchPolicy = .unfiltered → remedy.edits = fixes) ∧
                (service.settings.batchPolicy = .nonOverlapping →
                  remedy.edits.Pairwise (·.stop < ·.start) ∧
                    (∀ edit ∈ remedy.edits, edit ∈ fixes) ∧
                    ∃ order, Edit.StableOrder (·.start) fixes (order.map (·.1)) ∧
                      Edit.marked order = remedy.edits ∧ Edit.Full order)) := by
  refine ⟨fixAllEdits_eq_nil_iff, ?_⟩
  obtain ⟨remedies, split, origin⟩ := service.exists_codeFixes_eq_append host file start stop codes
  refine ⟨remedies, split, fun remedy offered => ?_⟩
  obtain ⟨index, actions, known, assembled, listed⟩ := origin remedy offered
  constructor
  · intro batch
    obtain ⟨fixable, rfl⟩ := FixAction.eq_of_kind_fixAllAutoFixable assembled listed batch
    have same : service.fixAllEdits file = Edit.nonOverlapping index.edits := by
      simp only [fixAllEdits, known]
    rw [FixAction.edits_onFile, same]
    exact ⟨rfl, mt Edit.nonOverlapping_eq_nil_iff.mp fixable, Edit.nonOverlapping_increasing _,
      Edit.nonOverlapping_apart _⟩
  · intro batch
    obtain ⟨target, rule, found, named, enough, rfl⟩ :=
      FixAction.exists_eq_of_kind_fixAllOfRule assembled listed batch
    refine ⟨index, target, rule, known, found, named, ?_⟩
    intro fixes
    have fixable : fixes ≠ [] := List.ne_nil_of_length_pos (by
      have enough : 2 ≤ fixes.length := enough
      omega)
    rw [FixAction.edits_onFile]
    cases service.settings.batchPolicy with
    | unfiltered => exact ⟨fixable, fun _ => rfl, nofun⟩
    | nonOverlapping =>
        obtain ⟨order, selects, -, sameEdits⟩ := Edit.exists_selects fixes
        refine ⟨mt Edit.nonOverlapping_eq_nil_iff.mp fixable, nofun, fun _ => ?_⟩
        exact ⟨Edit.nonOverlapping_apart _, fun _ => Edit.mem_of_mem_nonOverlapping, order,
          selects.ordered, sameEdits, selects.full⟩

end EditorLint.Service
