import EditorLint.Proofs.CommandLine.FixPasses
import EditorLint.Proofs.Service.Agreement
import EditorLint.Proofs.Service.OwnDiagnostics

/-!
What linting a text leaves behind. Only what belongs to the file changes in the workspace, so that
closing the file takes it all away.
-/

namespace EditorLint

theorem Finding.category_of_toDiagnostic {finding : Finding} {file : String}
    {positionOf : Nat → Nat → Except LintError Nat} {forceWarnings : Bool} {diagnostic : Diagnostic}
    (built : finding.toDiagnostic file positionOf forceWarnings = .ok diagnostic) :
    diagnostic.category = finding.category forceWarnings := by
  simp only [toDiagnostic, bind, Except.bind] at built
  split at built
  · cases built
  · split at built
    · cases built
    · rw [← Except.ok.inj built]

namespace Service

variable {σ : Type} {service : Service} {host : Host} {engine : Engine σ} {file : String} {world : σ}

theorem forget_remember (index : FindingIndex) :
    (service.remember file index).forget file = service.forget file := by
  simp only [forget, remember, InsertionMap.erase_insert_self]

/-- A pass has found nothing and changed nothing, or it has linted the document and remembers what
was found. -/
theorem semanticDiagnostics_cases (service : Service) (host : Host) (engine : Engine σ)
    (file : String) (world : σ) :
    let pass := service.semanticDiagnostics host engine file world
    (pass.diagnostics = host.semanticDiagnostics file ∧ pass.service = service) ∨
      ∃ lint, service.Lints host file (engine.answer world) lint ∧
        pass.diagnostics = host.semanticDiagnostics file ++ lint.diagnostics ∧
        pass.service = service.remember file lint.index := by
  intro pass
  by_cases suppresses : service.Suppresses host file
  · have ended : pass = _ := semanticDiagnostics_of_suppresses suppresses
    rw [ended]
    exact Or.inl ⟨rfl, rfl⟩
  by_cases skips : service.settings.skipsFile file = true
  · have ended : pass = _ := semanticDiagnostics_of_skips suppresses skips
    rw [ended]
    exact Or.inl ⟨rfl, rfl⟩
  have tries : service.Tries host file := ⟨suppresses, by simpa using skips⟩
  rcases service.exists_lints_or_failsWith host file (engine.answer world) with
    ⟨lint, lints⟩ | ⟨error, fails⟩
  · have ended : pass = _ := semanticDiagnostics_of_lints tries lints
    rw [ended]
    exact Or.inr ⟨lint, lints, rfl, rfl⟩
  · have ended : pass = _ := semanticDiagnostics_of_failsWith tries fails
    rw [ended]
    exact Or.inl ⟨rfl, rfl⟩

/-- Linting anew changes what is known of the file alone. -/
theorem forget_recompute (service : Service) (host : Host) (engine : Engine σ) (file : String)
    (world : σ) :
    (service.recompute host engine file world).2.1.forget file = service.forget file := by
  rcases service.exists_lints_or_failsWith host file (engine.answer world) with
    ⟨lint, lints⟩ | ⟨error, fails⟩
  · rw [recompute_of_lints lints, forget_remember]
  · obtain ⟨after, ended⟩ := recompute_of_failsWith fails
    rw [ended]

theorem forget_semanticDiagnostics (service : Service) (host : Host) (engine : Engine σ)
    (file : String) (world : σ) :
    (service.semanticDiagnostics host engine file world).service.forget file =
      service.forget file := by
  rcases service.semanticDiagnostics_cases host engine file world with
    ⟨-, same⟩ | ⟨lint, -, -, remembered⟩
  · rw [same]
  · rw [remembered, forget_remember]

/-- With warnings forced, a lint finds nothing but warnings. -/
theorem Lints.category_eq {answer : LintCall → Except LintError Report} {lint : Lint}
    (lints : service.Lints host file answer lint) (forced : service.settings.forceWarnings = true) :
    ∀ diagnostic ∈ lint.diagnostics, diagnostic.category = .warning := by
  obtain ⟨-, -, -, -, each⟩ := locateReport_eq_ok lints.found
  intro diagnostic listed
  obtain ⟨entry, member, rfl⟩ := List.mem_map.mp listed
  rw [Finding.category_of_toDiagnostic (each entry member), Finding.category, forced]
  rfl

theorem category_of_semanticDiagnostics (forced : service.settings.forceWarnings = true)
    (quiet : host.semanticDiagnostics file = []) (engine : Engine σ) (world : σ) :
    ∀ diagnostic ∈ (service.semanticDiagnostics host engine file world).diagnostics,
      diagnostic.category = .warning := by
  rcases service.semanticDiagnostics_cases host engine file world with
    ⟨same, -⟩ | ⟨lint, lints, found, -⟩
  · rw [same, quiet]
    nofun
  · rw [found, quiet, List.nil_append]
    exact lints.category_eq forced

end Service

namespace CommandLine

variable {σ : Type}

namespace Workspace

def fresh (settings : Settings) (root : String) : Workspace := { service := { settings, root } }

variable {workspace : Workspace} {file : String}

theorem close_setText (workspace : Workspace) (file text : String) :
    (workspace.setText file text).close file = workspace.close file := by
  simp only [setText, close, InsertionMap.erase_insert_self]

theorem close_of_forget {service : Service}
    (forgotten : service.forget file = workspace.service.forget file) :
    ({ workspace with service } : Workspace).close file = workspace.close file := by
  rw [close, close, forgotten]

theorem settings_of_close {later : Workspace} (closed : later.close file = workspace.close file) :
    later.service.settings = workspace.service.settings :=
  congrArg (·.service.settings) closed

end Workspace

variable {engine : Engine σ} {file text : String} {workspace : Workspace} {world : σ}

theorem close_fixPass (engine : Engine σ) (file : String) (edits : List Edit)
    (workspace : Workspace) (world : σ) :
    (fixPass engine file edits workspace world).2.1.close file = workspace.close file := by
  unfold fixPass
  split
  · rfl
  · split
    · rfl
    · next text _ =>
        refine (Workspace.close_of_forget ?_).trans (workspace.close_setText file text)
        exact Service.forget_recompute ..

theorem close_fixPasses (engine : Engine σ) (file : String) (passes : Nat)
    (outcome : Option FixOutcome) (workspace : Workspace) (world : σ) :
    (fixPasses engine file passes outcome workspace world).2.1.close file =
      workspace.close file := by
  induction passes generalizing outcome workspace world with
  | zero => rfl
  | succ passes ih =>
      have closed :=
        close_fixPass engine file (workspace.service.fixAllEdits file) workspace world
      simp only [fixPasses]
      generalize fixPass engine file _ workspace world = passed at closed ⊢
      obtain ⟨error | diagnostics, later, after⟩ := passed
      · split
        · rfl
        · exact closed
      · split
        · rfl
        · exact (ih ..).trans closed

/-- Whatever linting a text comes to, closing it leaves the workspace as closing would have before. -/
theorem close_lintText (engine : Engine σ) (file text : String) (fix : Bool)
    (workspace : Workspace) (world : σ) :
    (lintText engine file text fix workspace world).workspace.close file = workspace.close file := by
  have linted : _ = (workspace.setText file text).close file := Workspace.close_of_forget
    ((workspace.setText file text).service.forget_semanticDiagnostics
      (workspace.setText file text).host engine file world)
  rw [Workspace.close_setText] at linted
  simp only [lintText]
  generalize Service.semanticDiagnostics _ _ _ _ _ = first at linted ⊢
  cases fix with
  | false => exact linted
  | true =>
      have passed := close_fixPasses engine file maxFixPasses none
        { workspace.setText file text with service := first.service } first.world
      rw [linted] at passed
      simp only [Bool.not_true, Bool.false_eq_true, if_false]
      generalize fixPasses _ _ _ _ _ _ = ended at passed ⊢
      obtain ⟨error | (_ | outcome), later, after⟩ := ended
      · exact (later.close_setText file text).trans passed
      · exact passed
      · exact passed

theorem category_of_fixPass (forced : workspace.service.settings.forceWarnings = true)
    {edits : List Edit} {diagnostics : List Diagnostic}
    (passed : (fixPass engine file edits workspace world).1 = .ok diagnostics) :
    ∀ diagnostic ∈ diagnostics, diagnostic.category = .warning := by
  unfold fixPass at passed
  split at passed
  · cases passed
  · split at passed
    · cases passed
    · next text _ =>
        dsimp only at passed
        cases computed : ((workspace.setText file text).service.recompute
          (workspace.setText file text).host engine file world).1 with
        | error error =>
            rw [computed] at passed
            cases passed
        | ok found =>
            rw [computed] at passed
            obtain rfl := Except.ok.inj passed
            obtain ⟨lint, lints, rfl⟩ := Service.exists_lints_of_recompute computed
            exact lints.category_eq forced

theorem category_of_fixPasses (forced : workspace.service.settings.forceWarnings = true)
    (passes : Nat) {outcome ended : Option FixOutcome}
    (before : ∀ reached ∈ outcome, ∀ diagnostic ∈ reached.diagnostics, diagnostic.category = .warning)
    (passed : (fixPasses engine file passes outcome workspace world).1 = .ok ended) :
    ∀ reached ∈ ended, ∀ diagnostic ∈ reached.diagnostics, diagnostic.category = .warning := by
  induction passes generalizing outcome workspace world with
  | zero =>
      obtain rfl := Except.ok.inj passed
      exact before
  | succ passes ih =>
      have closed :=
        close_fixPass engine file (workspace.service.fixAllEdits file) workspace world
      have reported {diagnostics : List Diagnostic}
          (passed : (fixPass engine file (workspace.service.fixAllEdits file) workspace world).1 =
            .ok diagnostics) := category_of_fixPass forced passed
      simp only [fixPasses] at passed
      generalize fixPass engine file _ workspace world = pass at closed reported passed
      obtain ⟨error | diagnostics, later, after⟩ := pass
      · split at passed
        · obtain rfl := Except.ok.inj passed
          exact before
        · cases passed
      · split at passed
        · obtain rfl := Except.ok.inj passed
          exact before
        · refine ih ((Workspace.settings_of_close closed).symm ▸ forced) ?_ passed
          intro reached same
          obtain rfl := Option.some.inj same
          exact reported rfl

theorem category_of_lintText (forced : workspace.service.settings.forceWarnings = true)
    (fix : Bool) :
    ∀ diagnostic ∈ (lintText engine file text fix workspace world).diagnostics,
      diagnostic.category = .warning := by
  let opened := workspace.setText file text
  have forcedHere : opened.service.settings.forceWarnings = true := forced
  have quiet : opened.host.semanticDiagnostics file = [] := rfl
  have reported := Service.category_of_semanticDiagnostics forcedHere quiet engine world
  have kept := Workspace.settings_of_close (Workspace.close_of_forget
    (opened.service.forget_semanticDiagnostics opened.host engine file world))
  simp only [lintText]
  generalize Service.semanticDiagnostics _ _ _ _ _ = first at reported kept ⊢
  cases fix with
  | false => exact reported
  | true =>
      let linted : Workspace := { opened with service := first.service }
      have forcedLater : linted.service.settings.forceWarnings = true := kept ▸ forced
      have nothing : ∀ reached ∈ (none : Option FixOutcome),
          ∀ diagnostic ∈ reached.diagnostics, diagnostic.category = .warning := nofun
      simp only [Bool.not_true, Bool.false_eq_true, if_false]
      generalize ran : fixPasses _ _ _ _ _ _ = ended
      obtain ⟨error | (_ | outcome), later, after⟩ := ended
      · exact reported
      · exact reported
      · have passed := congrArg Prod.fst ran
        exact category_of_fixPasses forcedLater maxFixPasses nothing passed outcome rfl

end CommandLine

end EditorLint
