import EditorLint.Proofs.Path
import EditorLint.Proofs.Server.CodeAction
import EditorLint.Proofs.Server.SettingsInForce
import EditorLint.Proofs.Service.OwnDiagnostics

/-!
Where the linter is run. Every call is one of the service in use, which has the root of the session
from the first reload on that has loaded settings. A service that was there before has none.
-/

namespace EditorLint

variable {σ : Type}

def Service.Makes (service : Service) (call : LintCall) : Prop :=
  call.directory = service.root ∧
    call.configFile = service.settings.resolvedConfigFile call.directory

theorem Service.Makes.of_eq {service later : Service} {call : LintCall} (makes : service.Makes call)
    (same : later = { service with registry := later.registry }) : later.Makes call := by
  rw [same]
  exact makes

theorem Service.semanticDiagnostics_makes (service : Service) (host : Host) (engine : Engine σ)
    (file : String) (world : List Exchange × σ) :
    ∃ made, (service.semanticDiagnostics host engine.recording file world).world.1 =
        world.1 ++ made ∧ ∀ exchange ∈ made, service.Makes exchange.1 := by
  have recorded := service.recompute_record host engine file world.1 world.2
  simp only [semanticDiagnostics]
  split
  · exact ⟨[], (List.append_nil _).symm, List.forall_mem_nil _⟩
  · split
    · exact ⟨[], (List.append_nil _).symm, List.forall_mem_nil _⟩
    · have asked : ∀ exchange ∈ ((host.sourceText file).map fun text =>
          (service.lintCall file text,
            engine.answer world.2 (service.lintCall file text))).toList,
          service.Makes exchange.1 := by
        intro exchange member
        obtain ⟨text, -, rfl⟩ := Option.map_eq_some_iff.mp (Option.mem_toList.mp member)
        exact ⟨rfl, rfl⟩
      refine ⟨_, ?_, asked⟩
      rw [← recorded]
      obtain ⟨found | error, later, -⟩ := service.recompute host engine.recording file world <;> rfl

namespace Server

namespace Session

variable {session : Session (List Exchange × σ)} {environment : Environment σ}

/-- What has been added to a record are calls of the service that is in use then. -/
def Adds (record : List Exchange) (session : Session (List Exchange × σ)) : Prop :=
  ∃ made, session.world.1 = record ++ made ∧ ∀ exchange ∈ made, session.service.Makes exchange.1

theorem Adds.nothing (session : Session (List Exchange × σ)) : Adds session.world.1 session :=
  ⟨[], (List.append_nil _).symm, List.forall_mem_nil _⟩

theorem Adds.publish {record : List Exchange} (adds : Adds record session)
    (environment : Environment σ) (uri : Uri) :
    Adds record (session.publish environment.recording uri).session := by
  obtain ⟨made, recorded, asked⟩ := adds
  have setup := (publish_sameSetup session environment.recording uri).service_eq
  simp only [Session.publish] at setup ⊢
  split
  · exact ⟨made, recorded, asked⟩
  · next document opened =>
      simp only [opened] at setup
      obtain ⟨more, added, askedMore⟩ := session.service.semanticDiagnostics_makes session.host
        (environment.linter session.service.settings) uri.fileName session.world
      refine ⟨made ++ more, ?_, ?_⟩
      · rw [← List.append_assoc, ← recorded]
        exact added
      · intro exchange member
        rcases List.mem_append.mp member with before | here
        · exact (asked exchange before).of_eq setup
        · exact (askedMore exchange here).of_eq setup

theorem Adds.publishAll {record : List Exchange} (adds : Adds record session)
    (environment : Environment σ) :
    Adds record (session.publishAll environment.recording).session := by
  apply publishAll_induction (motive := fun step => Adds record step.session)
  · exact adds
  · intro step uri before
    exact before.publish environment uri

/-- All calls that a message leads to are made by the service that is in use after it. -/
theorem handle_adds (session : Session (List Exchange × σ)) (environment : Environment σ)
    (message : Message) :
    Adds session.world.1 (session.handle environment.recording message).1.session := by
  by_cases reloads : message.reloads
  · obtain ⟨outcome, -, handled, -⟩ := exists_handle_eq reloads session environment.recording
    rw [handled]
    split
    · exact (Adds.nothing _).publishAll environment
    · exact Adds.nothing _
  · have nothing := Adds.nothing session
    cases message with
    | start root options => exact absurd rfl reloads
    | didChangeConfiguration value => exact absurd rfl reloads
    | started => exact nothing
    | codeAction uri diagnostics => exact nothing
    | didOpen uri version text =>
        have stored : Adds session.world.1 (session.setText uri version text) := nothing
        exact stored.publish environment uri
    | didChange uri version texts =>
        simp only [handle, didChange]
        split
        · next text last =>
            have stored : Adds session.world.1 (session.setText uri version text) := nothing
            exact stored.publish environment uri
        · exact nothing.publish environment uri
    | didSave uri =>
        have other : ¬ isSettingsFile uri := reloads
        simp only [handle, didSave, other, Bool.false_eq_true, if_false]
        exact nothing.publish environment uri
    | didClose uri => exact nothing

end Session

/-! ## What a session has loaded -/

/-- A turn reloads the settings, and there are some to be had. -/
def Loads (before : List (Turn σ)) (turn : Turn σ) (settings : Settings) : Prop :=
  turn.message.reloads ∧ InForce turn.environment.files (lastGiven (before ++ [turn]))
    (lastRoot (before ++ [turn])) (.ok settings)

/-- What the last turn that has loaded any settings has loaded. -/
inductive LastLoaded : List (Turn σ) → Option Settings → Prop
  | nothing : LastLoaded [] none
  | loads {turns : List (Turn σ)} {turn : Turn σ} {settings : Settings}
      (loads : Loads turns turn settings) : LastLoaded (turns ++ [turn]) (some settings)
  | keeps {turns : List (Turn σ)} {turn : Turn σ} {loaded : Option Settings}
      (idle : ∀ settings, ¬ Loads turns turn settings) (before : LastLoaded turns loaded) :
      LastLoaded (turns ++ [turn]) loaded

theorem exists_lastLoaded (turns : List (Turn σ)) : ∃ loaded, LastLoaded turns loaded := by
  induction turns using List.reverseRecOn with
  | nil => exact ⟨none, .nothing⟩
  | append_singleton turns turn ih =>
      by_cases loading : ∃ settings, Loads turns turn settings
      · obtain ⟨settings, loads⟩ := loading
        exact ⟨some settings, .loads loads⟩
      · obtain ⟨loaded, before⟩ := ih
        exact ⟨loaded, .keeps (not_exists.mp loading) before⟩

theorem lastLoaded_concat {turns : List (Turn σ)} {turn : Turn σ} {loaded : Option Settings} :
    LastLoaded (turns ++ [turn]) loaded ↔
      (∃ settings, Loads turns turn settings ∧ loaded = some settings) ∨
        (∀ settings, ¬ Loads turns turn settings) ∧ LastLoaded turns loaded := by
  constructor
  · intro last
    generalize whole : turns ++ [turn] = all at last
    cases last with
    | nothing => simp at whole
    | loads loads =>
        obtain ⟨rfl, same⟩ := List.append_inj' whole rfl
        obtain rfl := List.singleton_inj.mp same
        exact Or.inl ⟨_, loads, rfl⟩
    | keeps idle before =>
        obtain ⟨rfl, same⟩ := List.append_inj' whole rfl
        obtain rfl := List.singleton_inj.mp same
        exact Or.inr ⟨idle, before⟩
  · rintro (⟨settings, loads, rfl⟩ | ⟨idle, before⟩)
    · exact .loads loads
    · exact .keeps idle before

theorem lastLoaded_nil {loaded : Option Settings} :
    LastLoaded ([] : List (Turn σ)) loaded ↔ loaded = none := by
  constructor
  · intro last
    generalize whole : ([] : List (Turn σ)) = all at last
    cases last with
    | nothing => rfl
    | loads => simp at whole
    | keeps => simp at whole
  · rintro rfl
    exact .nothing

theorem LastLoaded.unique {turns : List (Turn σ)} {loaded other : Option Settings}
    (last : LastLoaded turns loaded) (alike : LastLoaded turns other) : loaded = other := by
  induction turns using List.reverseRecOn generalizing loaded other with
  | nil => rw [lastLoaded_nil.mp last, lastLoaded_nil.mp alike]
  | append_singleton turns turn ih =>
      rcases lastLoaded_concat.mp last with ⟨settings, loads, rfl⟩ | ⟨idle, before⟩
      · rcases lastLoaded_concat.mp alike with ⟨others, otherLoads, rfl⟩ | ⟨idle, -⟩
        · rw [Except.ok.inj (loads.2.unique otherLoads.2)]
        · exact absurd loads (idle settings)
      · rcases lastLoaded_concat.mp alike with ⟨settings, loads, -⟩ | ⟨-, otherBefore⟩
        · exact absurd loads (idle settings)
        · exact ih before otherBefore

namespace Dialogue

def service (environment : Environment σ) (world : σ) (turns : List (Turn σ)) : Service :=
  ((fresh environment world).run turns).session.service

variable {turns : List (Turn σ)} {turn : Turn σ} {settings : Settings} {root : String}

theorem service_concat (environment : Environment σ) (world : σ) (turns : List (Turn σ))
    (turn : Turn σ) :
    service environment world (turns ++ [turn]) =
      (((fresh environment world).run turns).session.handle turn.environment
        turn.message).1.session.service := by
  simp only [service, run_concat, Dialogue.turn]

/-- The outcome of a turn that reloads the settings decides about the service. -/
theorem exists_service_eq (reloads : turn.message.reloads) (environment : Environment σ)
    (world : σ) :
    ∃ outcome, InForce turn.environment.files (lastGiven (turns ++ [turn]))
        (lastRoot (turns ++ [turn])) outcome ∧
      let before := service environment world turns
      let now := service environment world (turns ++ [turn])
      let reloaded := serviceAfter before
        ((lastRoot (turns ++ [turn])).getD turn.environment.files.workingPath) outcome
      now.settings = reloaded.settings ∧ now.root = reloaded.root := by
  obtain ⟨given, named⟩ := run_clientSettings_root environment world turns
  obtain ⟨outcome, inForce, -, same⟩ :=
    exists_handle_eq reloads ((fresh environment world).run turns).session turn.environment
  rw [lastGiven_concat, lastRoot_concat, ← given, ← named]
  refine ⟨outcome, inForce, ?_⟩
  rw [service_concat, same.service_eq]
  exact ⟨rfl, rfl⟩

theorem service_of_loads (loads : Loads turns turn settings)
    (rooted : lastRoot (turns ++ [turn]) = some root) (environment : Environment σ) (world : σ) :
    let now := service environment world (turns ++ [turn])
    now.settings = settings ∧ now.root = root := by
  obtain ⟨outcome, inForce, now⟩ := exists_service_eq loads.1 environment world
  obtain rfl := inForce.unique loads.2
  rw [rooted] at now
  exact now

theorem service_of_idle (idle : ∀ settings, ¬ Loads turns turn settings)
    (environment : Environment σ) (world : σ) :
    let before := service environment world turns
    let now := service environment world (turns ++ [turn])
    now.settings = before.settings ∧ now.root = before.root := by
  by_cases reloads : turn.message.reloads
  · obtain ⟨outcome, inForce, now⟩ := exists_service_eq reloads environment world
    cases outcome with
    | ok settings => exact absurd ⟨reloads, inForce⟩ (idle settings)
    | error failure => exact now
  · have same := Session.handle_sameSetup reloads ((fresh environment world).run turns).session
      turn.environment
    rw [service_concat, same.service_eq]
    exact ⟨rfl, rfl⟩

/-- The service in use has what was loaded last, and with it the root of the session. One that is
there before any settings are loaded has neither. -/
theorem service_of_lastLoaded {loaded : Option Settings} (last : LastLoaded turns loaded)
    (rooted : ∀ before turn, before ++ [turn] <+: turns → lastRoot (before ++ [turn]) = some root)
    (environment : Environment σ) (world : σ) :
    let now := service environment world turns
    match loaded with
    | some settings => now.settings = settings ∧ now.root = root
    | none => now.settings = {} ∧ now.root = environment.files.workingPath := by
  induction last with
  | nothing => exact ⟨rfl, rfl⟩
  | loads loads =>
      exact service_of_loads loads (rooted _ _ List.prefix_rfl) environment world
  | @keeps turns turn loaded idle _ ih =>
      intro now
      obtain ⟨settings_eq, root_eq⟩ := service_of_idle idle environment world
      have before := ih fun earlier other within =>
        rooted earlier other (within.trans (List.prefix_append turns [turn]))
      simp only [now, settings_eq, root_eq]
      exact before

/-! ## All calls of a session -/

/-- All that a session has had to do with linters in some turns. -/
def exchanges (environment : Environment σ) (world : σ) (turns : List (Turn σ)) : List Exchange :=
  ((fresh environment.recording ([], world)).run (turns.map Turn.recording)).session.world.1

theorem run_unrecorded (dialogue : Dialogue (List Exchange × σ)) (turns : List (Turn σ)) :
    (dialogue.run (turns.map Turn.recording)).unrecorded = dialogue.unrecorded.run turns := by
  induction turns generalizing dialogue with
  | nil => rfl
  | cons turn rest ih =>
      exact (ih _).trans (congrArg (run · rest) (turn_unrecorded dialogue turn))

/-- The calls that are made in a turn are those of the service that is in use after it. -/
theorem exchanges_concat (environment : Environment σ) (world : σ) (turns : List (Turn σ))
    (turn : Turn σ) :
    ∃ made, exchanges environment world (turns ++ [turn]) =
        exchanges environment world turns ++ made ∧
      ∀ exchange ∈ made, (service environment world (turns ++ [turn])).Makes exchange.1 := by
  let recorded := (fresh environment.recording ([], world)).run (turns.map Turn.recording)
  have unrecorded : (recorded.turn turn.recording).unrecorded =
      (fresh environment world).run (turns ++ [turn]) := by
    rw [turn_unrecorded, run_unrecorded, run_concat]
    rfl
  obtain ⟨made, added, asked⟩ :=
    Session.handle_adds recorded.session turn.environment turn.message
  refine ⟨made, ?_, ?_⟩
  · simp only [exchanges, List.map_append, List.map_cons, List.map_nil, run_concat]
    exact added
  · have inUse : service environment world (turns ++ [turn]) =
        (recorded.turn turn.recording).session.service :=
      (congrArg (fun dialogue => dialogue.session.service) unrecorded).symm
    rw [inUse]
    exact asked

end Dialogue

theorem lastRoot_of_started {opening : Environment σ} {root : Option Uri}
    {options : Option Json.Value} {later : List (Turn σ)} {path : String}
    (isPath : root.bind Uri.filePath = some path)
    (once : ∀ turn ∈ later, ∀ root options, turn.message ≠ .start root options) :
    lastRoot (⟨opening, .start root options⟩ :: later) = some path := by
  have named : (Message.start root options).root? = some path := isPath
  have silent : (later.filterMap fun turn => turn.message.root?) = [] := by
    apply List.filterMap_eq_nil_iff.mpr
    intro turn member
    cases message : turn.message with
    | start root options => exact absurd message (once turn member root options)
    | _ => rfl
  simp only [lastRoot, List.filterMap_cons, named, silent]
  rfl

/-- Once a session has loaded settings, all its calls of linters are made in its workspace and with
the configuration file of the settings that were loaded last. Calls from before are made where the
server runs, and without a configuration file. -/
theorem calls_in_workspace (environment : Environment σ) (world : σ) (opening : Environment σ)
    (root : Option Uri) (options : Option Json.Value) (later : List (Turn σ)) {path : String}
    (isPath : root.bind Uri.filePath = some path)
    (once : ∀ turn ∈ later, ∀ root options, turn.message ≠ .start root options) :
    let exchanges := Dialogue.exchanges environment world
    ∀ before turn, before ++ [turn] <+: ⟨opening, .start root options⟩ :: later →
      ∃ loaded made, LastLoaded (before ++ [turn]) loaded ∧
        exchanges (before ++ [turn]) = exchanges before ++ made ∧
        ∀ exchange ∈ made,
          let call := exchange.1
          match loaded with
          | some settings =>
            call.directory = path ∧ call.configFile = settings.resolvedConfigFile path
          | none =>
            call.directory = environment.files.workingPath ∧ call.configFile = none := by
  intro exchanges before turn within
  have rooted (earlier : List (Turn σ)) (other : Turn σ)
      (inside : earlier ++ [other] <+: before ++ [turn]) :
      lastRoot (earlier ++ [other]) = some path := by
    obtain ⟨rest, split⟩ := inside.trans within
    cases earlier with
    | nil =>
        obtain ⟨rfl, -⟩ := List.cons.inj split
        exact lastRoot_of_started isPath nofun
    | cons first earlier =>
        obtain ⟨rfl, rfl⟩ := List.cons.inj split
        apply lastRoot_of_started isPath
        intro turn member
        exact once turn (List.mem_append_left _ member)
  obtain ⟨loaded, last⟩ := exists_lastLoaded (before ++ [turn])
  obtain ⟨made, added, asked⟩ := Dialogue.exchanges_concat environment world before turn
  have inUse := Dialogue.service_of_lastLoaded last rooted environment world
  refine ⟨loaded, made, last, added, ?_⟩
  intro exchange member call
  obtain ⟨directory, configFile⟩ := asked exchange member
  cases loaded with
  | some settings =>
      obtain ⟨rfl, rfl⟩ := inUse
      exact ⟨directory, configFile.trans (by rw [directory])⟩
  | none =>
      obtain ⟨default, working⟩ := inUse
      refine ⟨directory.trans working, ?_⟩
      rw [configFile, default]
      rfl

def workspaceUri : Uri := { scheme := "file", path := "/w" }

def workspaceFile : Uri := { scheme := "file", path := "/w/a" }

/-- The settings file of the workspace is no document of settings. -/
def brokenFiles : FileTree :=
  { root := .directory
      [("w", .directory [("lintbridge.yml", .file "linter: [".toUTF8 false)])] }

def brokenEnvironment : Environment (List (Except LintError Report)) where
  files := brokenFiles
  linter _ := .prepared

def brokenStart : Turn (List (Except LintError Report)) :=
  ⟨brokenEnvironment, .start (some workspaceUri) none⟩

def workspaceOpening : Turn (List (Except LintError Report)) :=
  ⟨brokenEnvironment, .didOpen workspaceFile 1 "var a = 1\n"⟩

def workspaceRepair : Turn (List (Except LintError Report)) :=
  ⟨brokenEnvironment, .didChangeConfiguration (.object [("configFile", .string "c")])⟩

theorem filePath_workspaceUri : workspaceUri.filePath = some "/w" := by cbv

theorem not_inForce_brokenFiles (settings : Settings) :
    ¬ InForce brokenFiles none (some "/w") (.ok settings) := by
  have path : Path.join "/w" settingsFileName = "/w/lintbridge.yml" := by cbv
  have text : brokenFiles.readText "/w/lintbridge.yml" = .ok "linter: [" := by
    simp only [FileTree.readText, FileTree.find?, FileTree.resolve, Path.splitOn_slash]
    decide +kernel
  have unread : Settings.parse? "linter: [" = none := by decide +kernel
  rw [← path] at text
  intro inForce
  cases inForce with
  | missing missing => simp [FileTree.readText, missing] at text
  | loaded loads => simp [Settings.load, text, Except.bind, unread] at loads

/-- The start of the session fails to load settings. It only takes over the root. -/
theorem session_brokenStart (world : List Exchange × List (Except LintError Report)) :
    ((Dialogue.fresh brokenEnvironment.recording world).turn brokenStart.recording).session =
      { Session.fresh brokenEnvironment.recording world with root := some "/w" } := by
  have reloads : (Message.start (some workspaceUri) none).reloads := rfl
  obtain ⟨outcome, inForce, handled, -⟩ := exists_handle_eq reloads
    (Session.fresh brokenEnvironment.recording world) brokenEnvironment.recording
  simp only [Message.root?, Option.bind_some, filePath_workspaceUri] at inForce handled
  cases outcome with
  | ok settings => exact absurd inForce (not_inForce_brokenFiles settings)
  | error failure => exact congrArg Step.session handled

theorem exchanges_workspace :
    (Dialogue.exchanges brokenEnvironment [.ok semicolonReport, .ok semicolonReport]
      [brokenStart, workspaceOpening, workspaceRepair]).map
        (fun exchange => (exchange.1.directory, exchange.1.configFile)) =
      [("/", none), ("/w", some "/w/c")] := by
  simp only [Dialogue.exchanges, Dialogue.run, List.map_cons, List.map_nil, List.foldl_cons,
    List.foldl_nil]
  have started := session_brokenStart ([], [.ok semicolonReport, .ok semicolonReport])
  generalize (Dialogue.fresh brokenEnvironment.recording _).turn brokenStart.recording = dialogue
    at started ⊢
  obtain ⟨session, client⟩ := dialogue
  obtain rfl : session = _ := started
  cbv

theorem calls_in_workspace_repaired :
    let exchanges := Dialogue.exchanges brokenEnvironment [.ok semicolonReport, .ok semicolonReport]
    let before := [brokenStart, workspaceOpening]
    (exchanges (before ++ [workspaceRepair])).length = 2 ∧
      ∃ made, exchanges (before ++ [workspaceRepair]) = exchanges before ++ made ∧
        ∀ exchange ∈ made,
          exchange.1.directory = "/w" ∧ exchange.1.configFile = some "/w/c" := by
  intro exchanges before
  obtain ⟨loaded, made, last, added, asked⟩ := calls_in_workspace brokenEnvironment
    [.ok semicolonReport, .ok semicolonReport] brokenEnvironment (some workspaceUri) none
    [workspaceOpening, workspaceRepair] filePath_workspaceUri
    (by simp [workspaceOpening, workspaceRepair]) before workspaceRepair List.prefix_rfl
  have loads : Loads before workspaceRepair { configFile := some "c" } := by
    have given : lastGiven (before ++ [workspaceRepair]) = some { configFile := some "c" } := by cbv
    refine ⟨rfl, ?_⟩
    rw [given]
    exact .client _ _
  obtain rfl := last.unique (.loads loads)
  have resolved : Settings.resolvedConfigFile { configFile := some "c" } "/w" = some "/w/c" := by cbv
  refine ⟨?_, made, added, fun exchange member => ?_⟩
  · exact (List.length_map _).symm.trans (congrArg List.length exchanges_workspace)
  · exact resolved ▸ asked exchange member

/-- The law fails before any settings have been loaded. -/
theorem calls_outside_workspace :
    let turns := [brokenStart, workspaceOpening, workspaceRepair]
    workspaceUri.filePath = some "/w" ∧
      ¬ ∀ exchange ∈ Dialogue.exchanges brokenEnvironment
          [.ok semicolonReport, .ok semicolonReport] turns, exchange.1.directory = "/w" := by
  intro turns
  refine ⟨filePath_workspaceUri, fun inside => ?_⟩
  have first : ("/", none) ∈ (Dialogue.exchanges brokenEnvironment
      [.ok semicolonReport, .ok semicolonReport] turns).map fun exchange =>
        (exchange.1.directory, exchange.1.configFile) :=
    exchanges_workspace ▸ List.mem_cons_self
  obtain ⟨exchange, member, same⟩ := List.mem_map.mp first
  have outside : exchange.1.directory = "/" := congrArg Prod.fst same
  exact absurd (outside.symm.trans (inside exchange member)) (by decide)

end Server

end EditorLint
