import EditorLint.Proofs.CommandLine.FixPasses
import EditorLint.Proofs.Service.Stages

/-!
Linting with linters that answer alike. A run comes to the same with one as with the other, and so a
linter whose answers are a function of the calls can be replaced by that function.
-/

namespace EditorLint

/-- A linter that answers with a function of the call as long as its state is as usual, and leaves
its state as usual. -/
structure Engine.Steady {σ : Type} (engine : Engine σ)
    (answer : LintCall → Except LintError Report) (usual : σ → Prop) : Prop where
  answers : ∀ call world, usual world → (engine call world).1 = answer call
  goesOn : ∀ call world, usual world → usual (engine call world).2

variable {σ τ : Type} {engine : Engine σ} {other : Engine τ} {related : σ → τ → Prop}
  {answer : LintCall → Except LintError Report} {usual : σ → Prop} {world : σ} {twin : τ}

theorem Engine.Steady.agrees (steady : engine.Steady answer usual) :
    engine.Agrees (.constant answer) fun world _ => usual world where
  answers call world _ := steady.answers call world
  goesOn call world _ := steady.goesOn call world

namespace CommandLine

variable (workspace : Workspace) (file : String)

theorem fixPass_of_agrees (agrees : engine.Agrees other related) (start : related world twin)
    (edits : List Edit) :
    let plain := fixPass other file edits workspace twin
    ∃ after, related after plain.2.2 ∧
      fixPass engine file edits workspace world = (plain.1, plain.2.1, after) := by
  intro plain
  simp only [plain, fixPass]
  cases workspace.host.sourceText file with
  | none => exact ⟨world, start, rfl⟩
  | some current =>
      simp only
      cases Edit.applyAll current edits with
      | error error => exact ⟨world, start, rfl⟩
      | ok text =>
          obtain ⟨after, still, recomputed⟩ := workspace.service.recompute_of_agrees
            (workspace.setText file text).host file agrees start
          exact ⟨after, still, by simp only [Workspace.setText] at recomputed ⊢; rw [recomputed]⟩

theorem fixPasses_of_agrees (agrees : engine.Agrees other related) (start : related world twin)
    (passes : Nat) (outcome : Option FixOutcome) :
    let plain := fixPasses other file passes outcome workspace twin
    ∃ after, related after plain.2.2 ∧
      fixPasses engine file passes outcome workspace world = (plain.1, plain.2.1, after) := by
  induction passes generalizing outcome workspace world twin with
  | zero => exact ⟨world, start, rfl⟩
  | succ passes ih =>
      intro plain
      simp only [plain, fixPasses]
      split
      · exact ⟨world, start, rfl⟩
      · obtain ⟨after, still, passed⟩ := fixPass_of_agrees workspace file agrees start
          (workspace.service.fixAllEdits file)
        rw [passed]
        generalize fixPass other file (workspace.service.fixAllEdits file) workspace twin = pass
          at still ⊢
        obtain ⟨error | diagnostics, later, reached⟩ := pass
        · exact ⟨after, still, rfl⟩
        · exact ih _ still _

theorem lintText_of_agrees (agrees : engine.Agrees other related) (start : related world twin)
    (text : String) (fix : Bool) :
    let plain := lintText other file text fix workspace twin
    ∃ after, related after plain.world ∧ lintText engine file text fix workspace world =
      ⟨plain.fixed, plain.diagnostics, plain.fixedText, plain.logs, plain.workspace, after⟩ := by
  intro plain
  simp only [plain, lintText]
  obtain ⟨after, still, passed⟩ := (workspace.setText file text).service.semanticDiagnostics_of_agrees
    (workspace.setText file text).host file agrees start
  rw [passed]
  cases fix with
  | false => exact ⟨after, still, rfl⟩
  | true =>
      simp only [Bool.not_true, Bool.false_eq_true, if_false]
      generalize Service.semanticDiagnostics _ _ _ file twin = first at still ⊢
      obtain ⟨later, goesOn, fixed⟩ := fixPasses_of_agrees
        { workspace.setText file text with service := first.service } file agrees still
        maxFixPasses none
      simp only [Workspace.setText] at goesOn fixed ⊢
      rw [fixed]
      generalize fixPasses _ file maxFixPasses none _ first.world = ended at goesOn ⊢
      obtain ⟨(error | (_ | outcome)), reached, end_⟩ := ended
      · exact ⟨later, goesOn, rfl⟩
      · exact ⟨later, goesOn, rfl⟩
      · exact ⟨later, goesOn, rfl⟩

theorem lintText_of_steady (steady : engine.Steady answer usual) (start : usual world)
    (text : String) (fix : Bool) :
    let alone := lintText (.constant answer) file text fix workspace ()
    ∃ after, usual after ∧ lintText engine file text fix workspace world =
      ⟨alone.fixed, alone.diagnostics, alone.fixedText, alone.logs, alone.workspace, after⟩ :=
  lintText_of_agrees workspace file steady.agrees start text fix

/-- A linter that is steady on all files that are as usual. They stay as usual when one of them is
written over. -/
structure Steady (engine : FileTree → Engine σ) (answer : LintCall → Except LintError Report)
    (usual : FileTree → σ → Prop) : Prop where
  asked : ∀ files, (engine files).Steady answer (usual files)
  written : ∀ files path text written world, files.overwrite path text = .ok written →
    usual files world → usual written world

theorem constant_steady (answer : LintCall → Except LintError Report) :
    Steady (fun _ => .constant answer) answer fun _ _ => True :=
  ⟨fun _ => ⟨fun _ _ _ => rfl, fun _ _ _ => trivial⟩, fun _ _ _ _ _ _ _ => trivial⟩

end CommandLine

end EditorLint
