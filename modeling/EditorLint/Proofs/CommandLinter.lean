import EditorLint.CommandLinter
import EditorLint.Proofs.CommandLine.Steady
import EditorLint.Proofs.FileTree
import EditorLint.Proofs.Resolution

/-!
A linter that is run as a program. If the program answers an invocation always in the same way, the
linter answers a call always in the same way, whatever has been resolved and written before.
-/

namespace EditorLint

/-- A memory that has for one name and single roots what a search finds, or nothing. -/
def ResolutionCache.Truthful (cache : ResolutionCache) (files : FileTree)
    (source : GlobalDirectories) (name : String) : Prop :=
  ∃ known, cache.Recalls source.directories known ∧
    ∀ root found, known (ResolutionCache.key name [root]) = some found →
      found = Resolution.Request.probe files ⟨source, name, [root]⟩

theorem ResolutionCache.empty_truthful (files : FileTree) (source : GlobalDirectories)
    (name : String) : ResolutionCache.Truthful {} files source name :=
  ⟨fun _ => none, ⟨fun _ => rfl, nofun⟩, nofun⟩

theorem Resolution.probe_alike {files other : FileTree} (alike : files.Alike other)
    (request : Request) : request.probe files = request.probe other := by
  rw [Request.probe, Request.probe, alike.isFile_eq]

theorem ResolutionCache.Truthful.alike {cache : ResolutionCache} {files other : FileTree}
    {source : GlobalDirectories} {name : String} (truthful : cache.Truthful files source name)
    (alike : files.Alike other) : cache.Truthful other source name := by
  obtain ⟨known, recalls, each⟩ := truthful
  refine ⟨known, recalls, ?_⟩
  intro root found hit
  rw [← Resolution.probe_alike alike]
  exact each root found hit

/-- A search for a single root finds the same with a truthful memory as without one. -/
theorem Resolution.resolve_of_truthful {files : FileTree} {source : GlobalDirectories}
    {name : String} {cache : ResolutionCache} (truthful : cache.Truthful files source name)
    (root : String) :
    ∃ later, resolve files source name [root] cache =
        (Request.probe files ⟨source, name, [root]⟩, later) ∧
      later.Truthful files source name := by
  obtain ⟨known, recalls, each⟩ := truthful
  obtain ⟨later, resolved, laterRecalls⟩ :=
    resolve_of_recalls files ⟨source, name, [root]⟩ recalls rfl
  have answered : (known (ResolutionCache.key name [root])).getD
      (Request.probe files ⟨source, name, [root]⟩) =
        Request.probe files ⟨source, name, [root]⟩ := by
    cases hit : known (ResolutionCache.key name [root]) with
    | none => rfl
    | some found => exact each root found hit
  simp only [Request.key, answered] at resolved laterRecalls
  refine ⟨later, resolved, _, laterRecalls, ?_⟩
  intro other found hit
  by_cases same : root = other
  · subst same
    rw [Function.update_self] at hit
    exact (Option.some.inj hit).symm
  · have apart : ResolutionCache.key name [other] ≠ ResolutionCache.key name [root] := by
      intro keys
      exact same (ResolutionCache.key_singleton_inj keys).symm
    rw [Function.update_of_ne apart] at hit
    exact each other found hit

/-- A program that answers an invocation always in the same way as long as its state is as usual,
and leaves its state as usual. -/
structure Runner.Steady {σ : Type} (runner : Runner σ) (program : Invocation → Completion)
    (usual : σ → Prop) : Prop where
  answers : ∀ invocation state, usual state → (runner invocation state).1 = program invocation
  goesOn : ∀ invocation state, usual state → usual (runner invocation state).2

namespace CommandLinter

variable {σ : Type} {linter : CommandLinter} {runner : Runner σ} {files now : FileTree}

theorem canStart_alike (alike : files.Alike now) (invocation : Invocation) :
    canStart files invocation = canStart now invocation := by
  have started (names : List String) :
      FileTree.Alike { files with workingDirectory := names }
        { now with workingDirectory := names } :=
    ⟨rfl, alike.listing_eq, alike.executable_eq⟩
  unfold canStart
  by_cases here : invocation.directory.isEmpty
  · simp only [here, if_true, Option.any_some, alike.isExecutable_eq]
  · simp only [here, Bool.false_eq_true, if_false, alike.resolve_eq]
    cases now.resolve invocation.directory with
    | none => rfl
    | some names =>
        simp only [Option.bind_some]
        by_cases directory : ∃ entries, now.root.at? names = some (.directory entries)
        · obtain ⟨entries, there⟩ := directory
          obtain ⟨others, first⟩ := (alike.directory_iff names).mpr ⟨entries, there⟩
          simp only [first, there, Option.any_some, (started names).isExecutable_eq]
        · have apart := mt (alike.directory_iff names).mp directory
          split
          · next first => exact absurd ⟨_, first⟩ apart
          · split
            · next there => exact absurd ⟨_, there⟩ directory
            · rfl

/-- What a linter answers for which nothing has been resolved yet. -/
def answer (linter : CommandLinter) (files : FileTree) (program : Invocation → Completion)
    (call : LintCall) : Except LintError Report :=
  (linter.lint files (fun invocation (state : Unit) => (program invocation, state)) call
    { programs := () }).1

structure Usual (linter : CommandLinter) (files : FileTree) (usual : σ → Prop) (now : FileTree)
    (state : LinterState σ) : Prop where
  alike : files.Alike now
  truthful : state.cache.Truthful files linter.globals linter.name
  programs : usual state.programs

theorem usual_start {usual : σ → Prop} {state : σ} (start : usual state) (linter : CommandLinter)
    (files : FileTree) : linter.Usual files usual files { programs := state } :=
  ⟨.refl files, ResolutionCache.empty_truthful files linter.globals linter.name, start⟩

theorem lint_steady {program : Invocation → Completion} {usual : σ → Prop}
    (steady : runner.Steady program usual) (linter : CommandLinter) (files : FileTree) :
    CommandLine.Steady (fun now => linter.lint now runner) (linter.answer files program)
      (linter.Usual files usual) := by
  constructor
  · intro now
    constructor
    · rintro call state ⟨alike, truthful, programs⟩
      obtain ⟨later, resolved, -⟩ :=
        Resolution.resolve_of_truthful (truthful.alike alike) call.directory
      obtain ⟨laterFresh, fresh, -⟩ := Resolution.resolve_of_truthful
        (ResolutionCache.empty_truthful files linter.globals linter.name) call.directory
      rw [Resolution.probe_alike alike] at fresh
      simp only [lint, answer, resolved, fresh, canStart_alike alike]
      cases Resolution.Request.probe now ⟨linter.globals, linter.name, [call.directory]⟩ with
      | none => rfl
      | some program =>
          simp only
          split
          · rw [steady.answers _ _ programs]
          · rfl
    · rintro call state ⟨alike, truthful, programs⟩
      obtain ⟨later, resolved, still⟩ :=
        Resolution.resolve_of_truthful (truthful.alike alike) call.directory
      have truthfulLater := still.alike alike.symm
      simp only [lint, resolved]
      cases Resolution.Request.probe now ⟨linter.globals, linter.name, [call.directory]⟩ with
      | none => exact ⟨alike, truthfulLater, programs⟩
      | some program =>
          simp only
          split
          · exact ⟨alike, truthfulLater, steady.goesOn _ _ programs⟩
          · exact ⟨alike, truthfulLater, programs⟩
  · rintro now path text written state overwritten ⟨alike, truthful, programs⟩
    exact ⟨FileTree.overwrite_alike alike overwritten, truthful, programs⟩

end CommandLinter

end EditorLint
