import EditorLint.Proofs.FindingIndex
import EditorLint.Proofs.FixAction
import EditorLint.Proofs.Service.History

/-!
What is offered at a span. The fixes of the host come first, and behind them the remedies for the
finding that has been reported at exactly this span.
-/

namespace EditorLint.Service

variable {σ : Type} {service : Service} {host : Host} {file : String} {start stop : Nat} {codes : List Nat}
  {index : FindingIndex} {target : IndexedFinding}

/-! ## What is known of the documents is keyed by span -/

def Keyed (service : Service) : Prop :=
  ∀ file index, service.findings file = some index → index.Keyed

theorem attempt_keyed {engine : Engine σ} {world : σ}
    (linted : (service.attempt host engine file world).1 = .linted index) : index.Keyed := by
  unfold attempt at linted
  cases known : host.sourceText file with
  | none =>
      rw [known] at linted
      cases linted
  | some text =>
      simp only [known] at linted
      split at linted
      · cases linted
      · next located _ =>
          obtain rfl := Outcome.linted.inj linted
          exact indexOf_keyed located

theorem outcome_keyed {moment : Moment σ} {world : σ}
    (linted : (service.outcome moment world).1 = .linted index) : index.Keyed := by
  obtain ⟨host, engine, call⟩ := moment
  cases call with
  | semanticDiagnostics file =>
      simp only [outcome] at linted
      split at linted
      · cases linted
      · split at linted
        · cases linted
        · exact attempt_keyed linted
  | recompute file => exact attempt_keyed linted
  | forget file => cases linted
  | codeFixes file start stop codes => cases linted
  | fixAllEdits file => cases linted
  | findings file => cases linted
  | delegated => cases linted

theorem perform_keyed (keyed : service.Keyed) (moment : Moment σ) (world : σ) :
    (service.perform moment world).1.Keyed := by
  intro file index known
  rw [perform_eq_after, findings_after] at known
  split at known
  · split at known
    · next linted =>
        obtain rfl := Option.some.inj known
        exact outcome_keyed linted
    · cases known
    · exact keyed file index known
  · exact keyed file index known

theorem run_keyed (keyed : service.Keyed) (moments : List (Moment σ)) (world : σ) :
    (service.run moments world).1.Keyed := by
  induction moments generalizing service world with
  | nil => exact keyed
  | cons moment rest ih => exact ih (perform_keyed keyed moment world) _

theorem fresh_keyed (settings : Settings) (root : String) :
    ({ settings, root } : Service).Keyed := nofun

/-! ## What is offered -/

theorem codeFixes_of_unreported
    (unreported : ∀ index, service.findings file = some index → index.lookup start stop = none) :
    service.codeFixes host file start stop codes = (host.codeFixes file start stop codes, []) := by
  unfold codeFixes
  cases known : service.findings file with
  | none => rfl
  | some index => simp only [FixAction.assemble, unreported index known, List.append_nil]

/-- The remedies for a finding of an index, with what is logged. They are of the kinds that the
index has for it, each kind once and in a fixed order. Only when a comment is due whose line the
host cannot find, there is a line in the log and no remedy at all. -/
structure Remedied (host : Host) (file : String) (index : FindingIndex) (target : IndexedFinding)
    (remedies : List FixAction) (logs : List LogEntry) : Prop where
  unplaced : ∀ error, FixAction.Unplaced target (host.positionOf file) error →
    remedies = [] ∧ logs = [failureLog file error]
  placed : (¬ ∃ error, FixAction.Unplaced target (host.positionOf file) error) →
    logs = [] ∧ remedies.map (·.kind) =
      [.single, .fixAllOfRule, .fixAllAutoFixable, .disableRule].filter (index.Provides target)
  single : ∀ remedy ∈ remedies, remedy.kind = .single →
    ∃ edit, target.edit = some edit ∧ remedy.changes = [⟨file, [edit]⟩]

theorem exists_remedied (known : service.findings file = some index)
    (found : index.lookup start stop = some target) :
    ∃ remedies logs,
      service.codeFixes host file start stop codes =
        (host.codeFixes file start stop codes ++ remedies, logs) ∧
      Remedied host file index target remedies logs := by
  cases assembled : FixAction.assemble service.settings.batchPolicy file index start stop
      (host.positionOf file) with
  | error error =>
      have unplaced := (FixAction.assemble_eq_error_iff found).mp assembled
      refine ⟨[], [failureLog file error],
        by simp only [codeFixes, known, assembled, List.append_nil], ?_, ?_, nofun⟩
      · intro other also
        have same : error = other := Except.error.inj (unplaced.2.symm.trans also.2)
        exact ⟨rfl, by rw [same]⟩
      · intro placed
        exact absurd ⟨error, unplaced⟩ placed
  | ok remedies =>
      refine ⟨remedies, [], by simp only [codeFixes, known, assembled], ?_, ?_,
        FixAction.changes_of_kind_single found assembled⟩
      · intro error unplaced
        rw [← FixAction.assemble_eq_error_iff found, assembled] at unplaced
        cases unplaced
      · intro _
        obtain ⟨disable, disabled, rfl⟩ := FixAction.exists_disableRule_of_assemble found assembled
        exact ⟨rfl, FixAction.map_kind_remedies disabled⟩

/-- After any calls, what is offered at a span begins with the fixes of the host and leaves what is
known as it is. Behind them come the remedies for the finding with exactly this span, when there is
one, and else nothing. -/
theorem codeFixes_offers (settings : Settings) (root : String) (moments : List (Moment σ))
    (world : σ) (host : Host) (file : String) (start stop : Nat) (codes : List Nat) :
    let service := (({ settings, root } : Service).run moments world).1
    let fixes := service.codeFixes host file start stop codes
    ∃ remedies, fixes.1 = host.codeFixes file start stop codes ++ remedies ∧
      (∀ (engine : Engine σ) (world : σ),
        service.perform ⟨host, engine, .codeFixes file start stop codes⟩ world =
          (service, world)) ∧
      ((∀ index, service.findings file = some index →
          ∀ entry ∈ index.toList, entry.span ≠ (start, stop)) →
        remedies = [] ∧ fixes.2 = []) ∧
      ∀ index target, service.findings file = some index → target ∈ index.toList →
        target.span = (start, stop) → Remedied host file index target remedies fixes.2 := by
  intro service fixes
  have keyed : service.Keyed := run_keyed (fresh_keyed settings root) moments world
  by_cases reported : ∃ index target, service.findings file = some index ∧
      index.lookup start stop = some target
  · obtain ⟨index, target, known, found⟩ := reported
    obtain ⟨remedies, logs, ended, remedied⟩ := exists_remedied known found
    refine ⟨remedies, congrArg (·.1) ended, fun _ _ => rfl, ?_, ?_⟩
    · intro apart
      have span : target.span = (start, stop) := (keyed file index known).span_of_lookup found
      exact absurd span (apart index known target (FindingIndex.mem_of_lookup found))
    · -- No other entry has the span, so what is offered for this one is all there is.
      intro other entry knownToo listed same
      obtain rfl := Option.some.inj (known.symm.trans knownToo)
      obtain ⟨rfl, rfl⟩ := Prod.mk.inj same
      have foundToo := (keyed file index known).lookup_of_mem listed
      obtain rfl := Option.some.inj (found.symm.trans foundToo)
      have logged : fixes.2 = logs := congrArg (·.2) ended
      rwa [logged]
  · have unreported (index : FindingIndex) (known : service.findings file = some index) :
        index.lookup start stop = none := by
      cases found : index.lookup start stop with
      | none => rfl
      | some target => exact absurd ⟨index, target, known, found⟩ reported
    have ended : fixes = _ := codeFixes_of_unreported unreported
    refine ⟨[], by rw [ended, List.append_nil], fun _ _ => rfl, fun _ => ⟨rfl, by rw [ended]⟩, ?_⟩
    intro index target known listed span
    obtain ⟨rfl, rfl⟩ := Prod.mk.inj span
    cases (unreported index known).symm.trans ((keyed file index known).lookup_of_mem listed)

end EditorLint.Service
