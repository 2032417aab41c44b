import EditorLint.Proofs.Service.Lint
import Mathlib.Data.List.Induction

/-!
What a service remembers is the history of its lints. The history is told without a registry: each
call comes to something for its document, and the last lint that has succeeded since a document was
forgotten is what the registry holds for it.
-/

namespace EditorLint

/-- What a service is called for. Everything that it passes on to the host is one kind of call. -/
inductive ServiceCall where
  | semanticDiagnostics (file : String)
  | recompute (file : String)
  | codeFixes (file : String) (start stop : Nat) (codes : List Nat)
  | fixAllEdits (file : String)
  | findings (file : String)
  | forget (file : String)
  | delegated
  deriving DecidableEq, Repr

inductive Outcome where
  | suppressed
  | skipped
  | failed (error : LintError)
  | linted (index : FindingIndex)
  | forgotten
  | answered
  deriving DecidableEq, Repr

structure ServiceEvent where
  call : ServiceCall
  outcome : Outcome
  deriving DecidableEq, Repr

/-- A call, with the host and the linter as they are at that moment. -/
structure Moment (σ : Type) where
  host : Host
  engine : Engine σ
  call : ServiceCall

def ServiceCall.file? : ServiceCall → Option String
  | semanticDiagnostics file | recompute file | codeFixes file _ _ _ | fixAllEdits file
  | findings file | forget file => some file
  | delegated => none

def Outcome.isIdle : Outcome → Bool
  | suppressed | skipped | failed _ | answered => true
  | linted _ | forgotten => false

def Outcome.index? : Outcome → Option FindingIndex
  | linted index => some index
  | _ => none

/-- The index of the last lint of a document that has succeeded since it was last forgotten. -/
def lastIndex (file : String) (history : List ServiceEvent) : Option FindingIndex :=
  let sinceForgotten := history.reverse.takeWhile fun event =>
    ¬(event.call.file? = some file ∧ event.outcome = .forgotten)
  sinceForgotten.findSome? fun event =>
    if event.call.file? = some file then event.outcome.index? else none

theorem lastIndex_concat (file : String) (history : List ServiceEvent) (event : ServiceEvent) :
    lastIndex file (history ++ [event]) =
      if event.call.file? = some file then
        match event.outcome with
        | .linted index => some index
        | .forgotten => none
        | _ => lastIndex file history
      else lastIndex file history := by
  simp only [lastIndex, List.reverse_append, List.reverse_cons, List.reverse_nil, List.nil_append,
    List.singleton_append, List.takeWhile_cons]
  by_cases about : event.call.file? = some file
  · cases outcome : event.outcome <;> simp [about, outcome, Outcome.index?]
  · simp [about]

namespace Service

variable {σ : Type}

def perform (service : Service) (moment : Moment σ) (world : σ) : Service × σ :=
  match moment.call with
  | .semanticDiagnostics file =>
    let pass := service.semanticDiagnostics moment.host moment.engine file world
    (pass.service, pass.world)
  | .recompute file => (service.recompute moment.host moment.engine file world).2
  | .forget file => (service.forget file, world)
  | .codeFixes .. | .fixAllEdits _ | .findings _ | .delegated => (service, world)

def run (service : Service) (moments : List (Moment σ)) (world : σ) : Service × σ :=
  moments.foldl (fun (service, world) moment => service.perform moment world) (service, world)

/-! ## The history of a service -/

def attempt (service : Service) (host : Host) (engine : Engine σ) (file : String) (world : σ) :
    Outcome × σ :=
  match host.sourceText file with
  | none => (.failed (.unknownFile file), world)
  | some text =>
    let (answer, world) := engine (service.lintCall file text) world
    match answer.bind (service.locateReport host file) with
    | .error error => (.failed error, world)
    | .ok located => (.linted (indexOf located), world)

/-- What a call comes to, with the settings and the root of a service. -/
def outcome (service : Service) (moment : Moment σ) (world : σ) : Outcome × σ :=
  match moment.call with
  | .semanticDiagnostics file =>
    if service.settings.suppressOnTypeErrors && !(moment.host.semanticDiagnostics file).isEmpty then
      (.suppressed, world)
    else if service.settings.skipsFile file then (.skipped, world)
    else service.attempt moment.host moment.engine file world
  | .recompute file => service.attempt moment.host moment.engine file world
  | .forget _ => (.forgotten, world)
  | .codeFixes .. | .fixAllEdits _ | .findings _ | .delegated => (.answered, world)

def history (service : Service) : List (Moment σ) → σ → List ServiceEvent × σ
  | [], world => ([], world)
  | moment :: rest, world =>
    let (outcome, world) := service.outcome moment world
    let (later, world) := service.history rest world
    (⟨moment.call, outcome⟩ :: later, world)

/-! ## One call -/

def after (service : Service) (event : ServiceEvent) : Service :=
  match event.call.file?, event.outcome with
  | some file, .linted index => service.remember file index
  | some file, .forgotten => service.forget file
  | _, _ => service

theorem recompute_eq_attempt (service : Service) (host : Host) (engine : Engine σ) (file : String)
    (world : σ) (call : ServiceCall) (about : call.file? = some file) :
    (service.recompute host engine file world).2 =
      (service.after ⟨call, (service.attempt host engine file world).1⟩,
        (service.attempt host engine file world).2) := by
  simp only [recompute, attempt, after, about]
  cases host.sourceText file with
  | none => rfl
  | some text =>
      simp only
      cases (engine (service.lintCall file text) world).1.bind (service.locateReport host file) <;>
        rfl

/-- A call leaves of a service what its outcome says. -/
theorem perform_eq_after (service : Service) (moment : Moment σ) (world : σ) :
    service.perform moment world =
      (service.after ⟨moment.call, (service.outcome moment world).1⟩,
        (service.outcome moment world).2) := by
  obtain ⟨host, engine, call⟩ := moment
  cases call with
  | semanticDiagnostics file =>
      have computed :=
        service.recompute_eq_attempt host engine file world (.semanticDiagnostics file) rfl
      simp only [perform, semanticDiagnostics, outcome]
      split
      · rfl
      · split
        · rfl
        · rw [← computed]
          rcases service.recompute host engine file world with ⟨answer | answer, later⟩ <;> rfl
  | recompute file => exact service.recompute_eq_attempt host engine file world _ rfl
  | forget file => rfl
  | codeFixes file start stop codes => rfl
  | fixAllEdits file => rfl
  | findings file => rfl
  | delegated => rfl

theorem findings_after (service : Service) (event : ServiceEvent) (file : String) :
    (service.after event).findings file =
      if event.call.file? = some file then
        match event.outcome with
        | .linted index => some index
        | .forgotten => none
        | _ => service.findings file
      else service.findings file := by
  obtain ⟨call, outcome⟩ := event
  cases about : call.file? with
  | none => simp [after, about]
  | some other =>
      cases outcome <;>
        simp [after, about, remember, forget, findings, InsertionMap.find?_insert,
          InsertionMap.find?_erase]

theorem after_eq (service : Service) (event : ServiceEvent) :
    service.after event = { service with registry := (service.after event).registry } := by
  unfold after
  split <;> rfl

theorem semanticDiagnostics_service (service : Service) (host : Host) (engine : Engine σ)
    (file : String) (world : σ) :
    let pass := service.semanticDiagnostics host engine file world
    pass.service = { service with registry := pass.service.registry } := by
  intro pass
  have left := congrArg Prod.fst
    (service.perform_eq_after ⟨host, engine, .semanticDiagnostics file⟩ world)
  rw [show pass.service = _ from left]
  exact after_eq ..

/-! ## All calls -/

theorem history_after (service : Service) (event : ServiceEvent) (moments : List (Moment σ))
    (world : σ) : (service.after event).history moments world = service.history moments world := by
  have same : @outcome σ (service.after event) = @outcome σ service := by
    rw [after_eq]
    rfl
  induction moments generalizing world with
  | nil => rfl
  | cons moment rest ih => simp only [history, same, ih]

/-- A run leaves of a service what its history says. -/
theorem run_eq_foldl_after (service : Service) (moments : List (Moment σ)) (world : σ) :
    service.run moments world =
      ((service.history moments world).1.foldl after service,
        (service.history moments world).2) := by
  induction moments generalizing service world with
  | nil => rfl
  | cons moment rest ih =>
      simp only [run, List.foldl_cons] at ih ⊢
      rw [perform_eq_after, ih, history_after]
      rfl

theorem findings_foldl_after (service : Service) (empty : service.registry = {})
    (history : List ServiceEvent) (file : String) :
    (history.foldl after service).findings file = lastIndex file history := by
  induction history using List.reverseRecOn with
  | nil => simp [findings, empty, InsertionMap.find?, lastIndex]
  | append_singleton history event ih =>
      rw [List.foldl_append, List.foldl_cons, List.foldl_nil, findings_after, lastIndex_concat, ih]

/-- What is offered besides the fixes of the host depends on the document and on what is known of
it. -/
theorem codeFixes_eq_append {service later : Service} {host laterHost : Host} {file : String}
    (settings : later.settings = service.settings)
    (known : later.findings file = service.findings file)
    (positions : laterHost.positionOf file = host.positionOf file) (start stop : Nat)
    (codes : List Nat) :
    ∃ remedies,
      (service.codeFixes host file start stop codes).1 =
        host.codeFixes file start stop codes ++ remedies ∧
      (later.codeFixes laterHost file start stop codes).1 =
        laterHost.codeFixes file start stop codes ++ remedies := by
  simp only [codeFixes, settings, known, positions]
  cases service.findings file with
  | none => exact ⟨[], by simp⟩
  | some index =>
      simp only
      cases FixAction.assemble service.settings.batchPolicy file index start stop
          (host.positionOf file) with
      | error error => exact ⟨[], by simp⟩
      | ok actions => exact ⟨actions, rfl, rfl⟩

/-- After any calls, what a service knows of a document is the index of the last lint of it that
has succeeded since it was last forgotten. A call for another document, and one in which the
document is neither linted with success nor forgotten, changes nothing of what is known of it, of
its batch, and of the remedies that are offered for it while the host has the same document. -/
theorem findings_run_eq_lastIndex (settings : Settings) (root : String) (moments : List (Moment σ))
    (world : σ) (file : String) :
    let service : Service := { settings, root }
    let now := (service.run moments world).1
    let reached := (service.run moments world).2
    now.findings file = lastIndex file (service.history moments world).1 ∧
    ∀ moment : Moment σ,
      moment.call.file? ≠ some file ∨ (now.outcome moment reached).1.isIdle →
      let later := (now.perform moment reached).1
      later.findings file = now.findings file ∧
      later.fixAllEdits file = now.fixAllEdits file ∧
      ∀ host laterHost : Host, laterHost.positionOf file = host.positionOf file →
        ∀ start stop codes, ∃ remedies,
          (now.codeFixes host file start stop codes).1 =
            host.codeFixes file start stop codes ++ remedies ∧
          (later.codeFixes laterHost file start stop codes).1 =
            laterHost.codeFixes file start stop codes ++ remedies := by
  intro service now reached
  have told := service.run_eq_foldl_after moments world
  refine ⟨?_, fun moment aside => ?_⟩
  · simp only [now, service, told]
    exact findings_foldl_after service rfl _ file
  · intro later
    have performed : later = now.after ⟨moment.call, (now.outcome moment reached).1⟩ :=
      congrArg Prod.fst (now.perform_eq_after moment reached)
    have known : later.findings file = now.findings file := by
      rw [performed, findings_after]
      rcases aside with other | idle
      · rw [if_neg other]
      · split
        · cases outcome : (now.outcome moment reached).1 <;> simp_all [Outcome.isIdle]
        · rfl
    have settings_eq : later.settings = now.settings := by rw [performed, after_eq]
    refine ⟨known, by simp only [fixAllEdits, known], ?_⟩
    intro host laterHost positions start stop codes
    exact codeFixes_eq_append settings_eq known positions start stop codes

end Service

end EditorLint
