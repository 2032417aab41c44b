import EditorLint.CommandLine.FileLint
import EditorLint.Proofs.Service.Trail

/-!
The passes over a workspace follow the trail of the text: whenever a batch is taken from the
registry, it was found in the text that the host has.
-/

namespace EditorLint.CommandLine

namespace Workspace

/-- The text of a lint is open, and what is known of the document was found by that lint. -/
structure Holds (workspace : Workspace) (file : String) (lint : Lint) : Prop where
  opened : workspace.documents.find? file = some (.ofText lint.text)
  known : workspace.service.findings file = some lint.index

def holding (workspace : Workspace) (file : String) (lint : Lint) : Workspace :=
  { workspace.setText file lint.text with service := workspace.service.remember file lint.index }

theorem holding_holds (workspace : Workspace) (file : String) (lint : Lint) :
    (workspace.holding file lint).Holds file lint :=
  ⟨InsertionMap.find?_insert_self .., Service.findings_remember ..⟩

theorem setText_shows (workspace : Workspace) (file text : String) :
    (workspace.setText file text).host.Shows file text :=
  Host.ofDocuments_shows (InsertionMap.find?_insert_self ..)

namespace Holds

variable {workspace : Workspace} {file : String} {lint : Lint}

theorem shows (holds : workspace.Holds file lint) : workspace.host.Shows file lint.text :=
  Host.ofDocuments_shows holds.opened

theorem fixAllEdits (holds : workspace.Holds file lint) :
    workspace.service.fixAllEdits file = lint.batch := by
  rw [Service.fixAllEdits, holds.known, Lint.batch]

end Holds

end Workspace

variable {σ : Type} {engine : Engine σ} {file : String} {workspace : Workspace} {current : Lint}

/-! ## One pass -/

theorem fixPass_refused {error : LintError} (holds : workspace.Holds file current)
    (refused : Edit.applyAll current.text current.batch = .error error) (world : σ) :
    fixPass engine file current.batch workspace world = (.error error, workspace, world) := by
  simp only [fixPass, holds.shows.source, refused]

theorem fixPass_unlinted {error : LintError} {text : String} {world after : σ}
    (holds : workspace.Holds file current)
    (applied : Edit.applyAll current.text current.batch = .ok text)
    (failed : workspace.service.lint engine file text world = (.error error, after)) :
    fixPass engine file current.batch workspace world =
      (.error error, workspace.setText file text, after) := by
  have linted := Service.recompute_eq_lint (workspace.setText_shows file text)
    (workspace.setText file text).service engine world
  simp only [Workspace.setText, failed] at linted
  simp only [fixPass, holds.shows.source, applied, Workspace.setText, linted, Except.map]

theorem fixPass_next {text : String} {next : Lint} {world after : σ}
    (holds : workspace.Holds file current)
    (applied : Edit.applyAll current.text current.batch = .ok text)
    (linted : workspace.service.lint engine file text world = (.ok next, after)) :
    fixPass engine file current.batch workspace world =
      (.ok next.diagnostics, workspace.holding file next, after) := by
  have relinted := Service.recompute_eq_lint (workspace.setText_shows file text)
    (workspace.setText file text).service engine world
  have quiet := (workspace.setText_shows file text).quiet
  obtain ⟨rfl, -⟩ := Service.locates_of_lint linted
  simp only [Workspace.setText, linted] at relinted quiet
  simp only [fixPass, holds.shows.source, applied, Workspace.setText, relinted, Except.map, quiet,
    List.nil_append, Workspace.holding]

/-! ## All passes -/

def outcomeOf (outcome : Option FixOutcome) (current : Lint) (visits : List Lint) :
    Option FixOutcome :=
  match visits.getLast? with
  | none => outcome
  | some last =>
    some ⟨(outcome.map (·.fixed)).getD 0 + Lint.applied (current :: visits), last.diagnostics⟩

theorem outcomeOf_cons (outcome : Option FixOutcome) (current next : Lint) (visits : List Lint) :
    outcomeOf outcome current (next :: visits) =
      outcomeOf (some ⟨(outcome.map (·.fixed)).getD 0 + current.batch.length, next.diagnostics⟩)
        next visits := by
  cases found : visits.getLast? with
  | none =>
      obtain rfl := List.getLast?_eq_none_iff.mp found
      simp [outcomeOf, Lint.applied]
  | some last =>
      have later : (next :: visits).getLast? = some last := by
        rw [List.getLast?_cons, found, Option.getD_some]
      simp only [outcomeOf, found, later, Option.map_some, Option.getD_some,
        Lint.applied_cons_cons, Nat.add_assoc]

theorem outcomeOf_none_cons (first second : Lint) (rest : List Lint) :
    outcomeOf none first (second :: rest) =
      some ⟨Lint.applied (first :: second :: rest),
        ((second :: rest).getLastD first).diagnostics⟩ := by
  simp only [outcomeOf, List.getLast?_cons, List.getLastD_eq_getLast?, Option.getD_some,
    Option.map_none, Option.getD_none, Nat.zero_add]

/-- The passes fail where the trail does. Else they end with the last lint of the trail, its text
in the host and its findings in the registry. -/
theorem fixPasses_follows_trail (passes : Nat) (outcome : Option FixOutcome) (world : σ)
    (holds : workspace.Holds file current) :
    let trail := workspace.service.trail engine file passes current world
    let run := fixPasses engine file passes outcome workspace world
    run.2.2 = trail.world ∧
      match trail.failure with
      | some error => run.1 = .error error
      | none => run.1 = .ok (outcomeOf outcome current trail.visits) ∧
          run.2.1.Holds file (trail.visits.getLastD current) := by
  -- Each pass hands over a workspace that holds the next lint: its text, and its index.
  induction passes generalizing outcome workspace current world with
  | zero => exact ⟨rfl, rfl, holds⟩
  | succ passes ih =>
      by_cases found : current.batch.isEmpty
      · rw [Service.trail_done found, fixPasses, holds.fixAllEdits, if_pos found]
        exact ⟨rfl, rfl, holds⟩
      · rw [fixPasses, holds.fixAllEdits, if_neg found]
        cases applied : Edit.applyAll current.text current.batch with
        | error error =>
            rw [Service.trail_refused found applied, fixPass_refused holds applied]
            exact ⟨rfl, rfl⟩
        | ok text =>
            cases linted : workspace.service.lint engine file text world with
            | mk answer after =>
                cases answer with
                | error error =>
                    rw [Service.trail_unlinted found applied linted,
                      fixPass_unlinted holds applied linted]
                    exact ⟨rfl, rfl⟩
                | ok next =>
                    rw [Service.trail_next found applied linted, fixPass_next holds applied linted]
                    have later := @ih (workspace.holding file next) next
                    simp only [Workspace.holding, Service.trail_remember] at later
                    simp only [outcomeOf_cons, List.getLastD_cons]
                    exact later _ after (workspace.holding_holds file next)

end EditorLint.CommandLine
