import EditorLint.Proofs.FindingIndex
import EditorLint.Proofs.Service.Stages

/-!
The diagnostics and the index of one pass agree. Each finding that is kept has its diagnostic, and
the index has for each span of a diagnostic the last finding with that span, in the order in which
the spans came first.
-/

namespace EditorLint

theorem exists_place_of_lastAt {located : List (Finding × Diagnostic)} {start stop : Nat}
    {entry : Finding × Diagnostic} (last : lastAt located start stop = some entry) :
    ∃ place, IsGreatest {other : Nat | (located[other]?).map (·.2.span) = some (start, stop)} place ∧
      located[place]? = some entry := by
  induction located using List.reverseRecOn with
  | nil => cases last
  | append_singleton earlier newest ih =>
      obtain ⟨finding, diagnostic⟩ := newest
      rw [lastAt_append] at last
      have within {other : Nat} {span : Nat × Nat}
          (reported : ((earlier ++ [(finding, diagnostic)])[other]?).map (·.2.span) = some span) :
          other ≤ earlier.length := by
        obtain ⟨_, found, -⟩ := Option.map_eq_some_iff.mp reported
        have bound := (List.getElem?_eq_some_iff.mp found).1
        rw [List.length_append, List.length_singleton] at bound
        omega
      by_cases here : diagnostic.start = start ∧ diagnostic.stop = stop
      · -- The newest finding has the span, so no other place comes after its own.
        obtain ⟨rfl, rfl⟩ := here
        have same : (finding, diagnostic) = entry := by simpa [lastAt] using last
        exact ⟨earlier.length, ⟨by simp [Diagnostic.span], fun other => within⟩, by simp [same]⟩
      · have before : lastAt earlier start stop = some entry := by simpa [lastAt, here] using last
        obtain ⟨place, ⟨reported, greatest⟩, found⟩ := ih before
        have bound := (List.getElem?_eq_some_iff.mp found).1
        refine ⟨place, ⟨?_, ?_⟩, ?_⟩
        · change ((earlier ++ [_])[place]?).map _ = _
          rwa [List.getElem?_append_left bound]
        · intro other listed
          change ((earlier ++ [_])[other]?).map _ = _ at listed
          rcases Nat.lt_or_eq_of_le (within listed) with inside | rfl
          · rw [List.getElem?_append_left inside] at listed
            exact greatest listed
          · simp [Diagnostic.span, here] at listed
        · rwa [List.getElem?_append_left bound]

namespace Service

variable {σ : Type} {service : Service} {host : Host} {engine : Engine σ} {file : String} {world : σ}

/-- The diagnostics and the index that come of the findings that are kept. Each diagnostic is that
of its finding. At the span of a diagnostic the index has the last finding with this span, and it
has no other entries; they stand in the order in which their spans came first. -/
structure Agree (service : Service) (host : Host) (file : String) (kept : List Finding)
    (found : List Diagnostic) (index : FindingIndex) : Prop where
  built : List.Forall₂ (fun finding diagnostic =>
    finding.toDiagnostic file (host.positionOf file) service.settings.forceWarnings =
      .ok diagnostic) kept found
  last : ∀ diagnostic ∈ found, ∃ (place : Nat) (finding : Finding),
    IsGreatest {other : Nat | (found[other]?).map Diagnostic.span = some diagnostic.span} place ∧
      kept[place]? = some finding ∧
      index.lookup diagnostic.start diagnostic.stop =
        some ⟨finding, diagnostic.start, diagnostic.stop⟩
  only : ∀ entry ∈ index.toList, ∃ diagnostic ∈ found,
    index.lookup diagnostic.start diagnostic.stop = some entry
  ordered : index.toList.map IndexedFinding.span = (found.map Diagnostic.span).eraseDups

theorem indexOf_agree {located : List (Finding × Diagnostic)}
    (each : ∀ entry ∈ located, entry.1.toDiagnostic file (host.positionOf file)
      service.settings.forceWarnings = .ok entry.2) :
    service.Agree host file (located.map (·.1)) (located.map (·.2)) (indexOf located) where
  built := forall₂_map_fst_snd each
  last := by
    intro diagnostic listed
    cases last : lastAt located diagnostic.start diagnostic.stop with
    | none =>
        obtain ⟨entry, member, rfl⟩ := List.mem_map.mp listed
        exact absurd ⟨rfl, rfl⟩ (lastAt_eq_none_iff.mp last entry member)
    | some entry =>
        obtain ⟨place, greatest, found⟩ := exists_place_of_lastAt last
        have spans (other : Nat) : ((located.map (·.2))[other]?).map Diagnostic.span =
            (located[other]?).map (·.2.span) := by
          rw [List.getElem?_map, Option.map_map]
          rfl
        refine ⟨place, entry.1, ?_, ?_, ?_⟩
        · simp only [spans]
          exact greatest
        · rw [List.getElem?_map, found, Option.map_some]
        · rw [lookup_indexOf, last, Option.map_some]
  only := by
    intro entry listed
    have span : entry.span ∈ (located.map (·.2.span)).eraseDups := by
      rw [← spans_indexOf]
      exact List.mem_map_of_mem listed
    obtain ⟨pair, member, same⟩ := List.mem_map.mp (List.mem_eraseDups.mp span)
    obtain ⟨starts, stops⟩ := Prod.mk.inj same
    refine ⟨pair.2, List.mem_map_of_mem member, ?_⟩
    rw [starts, stops]
    exact (indexOf_keyed located).lookup_of_mem listed
  ordered := by
    rw [List.map_map]
    exact spans_indexOf located

theorem exists_lints_of_recompute {found : List Diagnostic}
    (succeeded : (service.recompute host engine file world).1 = .ok found) :
    ∃ lint, service.Lints host file (engine.answer world) lint ∧ lint.diagnostics = found := by
  rcases service.exists_lints_or_failsWith host file (engine.answer world) with
    ⟨lint, lints⟩ | ⟨error, fails⟩
  · rw [recompute_of_lints lints] at succeeded
    exact ⟨lint, lints, Except.ok.inj succeeded⟩
  · obtain ⟨after, ended⟩ := recompute_of_failsWith fails
    rw [ended] at succeeded
    cases succeeded

/-- What linting a document anew returns and what it remembers agree, and both depend on nothing
but the findings of the first result of the report. -/
theorem recompute_agrees {service : Service} {host : Host} {engine : Engine σ} {file : String}
    {world : σ} {found : List Diagnostic}
    (succeeded : (service.recompute host engine file world).1 = .ok found) :
    let later := (service.recompute host engine file world).2.1
    ∃ text report result others index, host.sourceText file = some text ∧
      engine.answer world (service.lintCall file text) = .ok report ∧
      report.results = result :: others ∧ later.findings file = some index ∧
      service.Agree host file (result.messages.filter service.settings.keepsFinding) found index ∧
      ∀ {τ : Type} (other : Engine τ) (another : τ) (same : Report),
        other.answer another (service.lintCall file text) = .ok same →
        same.results.head?.map (·.messages) = some result.messages →
        (service.recompute host other file another).1 = .ok found ∧
          (service.recompute host other file another).2.1 = later := by
  intro later
  obtain ⟨lint, lints, rfl⟩ := exists_lints_of_recompute succeeded
  obtain ⟨result, others, first, kept, each⟩ := locateReport_eq_ok lints.found
  have remembered : later = service.remember file lint.index :=
    congrArg (·.2.1) (recompute_of_lints lints)
  refine ⟨lint.text, lint.report, result, others, lint.index, lints.known, lints.reported, first,
    ?_, kept ▸ indexOf_agree each, ?_⟩
  · rw [remembered, findings_remember]
  · intro τ other another same answered messages
    obtain ⟨head, found, equal⟩ := Option.map_eq_some_iff.mp messages
    obtain ⟨rest, results⟩ := List.head?_eq_some_iff.mp found
    have located : service.locateReport host file same = .ok lint.located := by
      rw [locateReport_of_first results, equal, ← locateReport_of_first first, lints.found]
    have alike : service.Lints host file (other.answer another) ⟨lint.text, same, lint.located⟩ :=
      ⟨lints.known, answered, located⟩
    rw [recompute_of_lints alike, remembered]
    exact ⟨rfl, rfl⟩

/-- An unused variable, and three findings of which the last has the span of the first. -/
def crowdedFindings : List Finding :=
  [{ line := 1, column := 5, ruleId := some "no-unused-vars", message := "Unused." },
    semicolonFinding,
    { line := 1, column := 1, ruleId := some "no-var", message := "Unexpected var." },
    { line := 0, column := 10, message := "Unexpected end of line." }]

def crowdedReport : Report := { results := [{ messages := crowdedFindings }, {}] }

def crowdedDiagnostics : List Diagnostic :=
  [⟨"a", 9, 0, "Missing semicolon. (semi)", .error, some diagnosticSource, diagnosticCode⟩,
    ⟨"a", 0, 0, "Unexpected var. (no-var)", .error, some diagnosticSource, diagnosticCode⟩,
    ⟨"a", 9, 0, "Unexpected end of line.", .error, some diagnosticSource, diagnosticCode⟩]

def usedService : Service := { settings := { dropUnusedVariables := true }, root := "/" }

theorem recompute_agrees_crowded :
    let host := Host.ofText "a" "var a = 1\n"
    let outcome := usedService.recompute host .prepared "a" [.ok crowdedReport]
    outcome.1 = .ok crowdedDiagnostics ∧ ∃ index, outcome.2.1.findings "a" = some index ∧
      usedService.Agree host "a" (crowdedFindings.drop 1) crowdedDiagnostics index := by
  have succeeded : (usedService.recompute (Host.ofText "a" "var a = 1\n") .prepared "a"
      [.ok crowdedReport]).1 = .ok crowdedDiagnostics := by cbv
  have kept : crowdedFindings.filter usedService.settings.keepsFinding = crowdedFindings.drop 1 := by
    cbv
  obtain ⟨_, report, result, _, index, -, reported, first, known, agree, -⟩ :=
    recompute_agrees succeeded
  obtain rfl : crowdedReport = report := Except.ok.inj reported
  obtain rfl := (List.cons.inj first).1
  exact ⟨succeeded, index, known, kept ▸ agree⟩

end Service

end EditorLint
