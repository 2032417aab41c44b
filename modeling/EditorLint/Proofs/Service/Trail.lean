import EditorLint.Edit.Application
import EditorLint.Proofs.Service.Lint
import Mathlib

/-!
The way of a text that is fixed pass by pass: each lint finds a batch, the batch makes the next
text, and the next text is linted. Hosts, documents and registries have no part in it.
-/

namespace EditorLint

namespace Lint

/-- One pass leads from a lint to the lint of the text that its own batch makes. -/
def LeadsTo (current next : Lint) : Prop :=
  current.batch ≠ [] ∧ Edit.applyAll current.text current.batch = .ok next.text

/-- How many edits have been applied on the way to the last of some lints. -/
def applied (lints : List Lint) : Nat := (lints.dropLast.map (·.batch.length)).sum

theorem applied_cons_cons (first second : Lint) (rest : List Lint) :
    applied (first :: second :: rest) = first.batch.length + applied (second :: rest) := rfl

theorem applied_pos_iff {first : Lint} {rest : List Lint}
    (chain : (first :: rest).IsChain LeadsTo) : 0 < applied (first :: rest) ↔ rest ≠ [] := by
  cases rest with
  | nil => simp [applied]
  | cons second rest =>
      have some := List.length_pos_iff.mpr (List.isChain_cons_cons.mp chain).1.1
      simp only [applied_cons_cons, ne_eq, reduceCtorEq, not_false_eq_true, iff_true]
      omega

end Lint

/-- Where a way has led: the lints after the first one, and the failure that ended it, if it was
ended by one. -/
structure Trail (σ : Type) where
  visits : List Lint := []
  failure : Option LintError := none
  world : σ

namespace Service

variable {σ : Type}

/-- The way from a lint on, over at most so many passes. -/
def trail (service : Service) (engine : Engine σ) (file : String) : Nat → Lint → σ → Trail σ
  | 0, _, world => { world }
  | passes + 1, current, world =>
    if current.batch.isEmpty then { world }
    else
      match Edit.applyAll current.text current.batch with
      | .error error => { failure := some error, world }
      | .ok text =>
        match service.lint engine file text world with
        | (.error error, world) => { failure := some error, world }
        | (.ok next, world) =>
          let later := service.trail engine file passes next world
          { later with visits := next :: later.visits }

theorem trail_done {service : Service} {engine : Engine σ} {file : String} {current : Lint}
    (done : current.batch.isEmpty) (passes : Nat) (world : σ) :
    service.trail engine file (passes + 1) current world = { world } := by
  simp only [trail, done, if_true]

theorem trail_refused {service : Service} {engine : Engine σ} {file : String} {current : Lint}
    {error : LintError} (found : ¬ current.batch.isEmpty)
    (refused : Edit.applyAll current.text current.batch = .error error) (passes : Nat)
    (world : σ) :
    service.trail engine file (passes + 1) current world = { failure := some error, world } := by
  simp only [trail, found, refused, Bool.false_eq_true, if_false]

theorem trail_unlinted {service : Service} {engine : Engine σ} {file text : String}
    {current : Lint} {error : LintError} {world after : σ} (found : ¬ current.batch.isEmpty)
    (applied : Edit.applyAll current.text current.batch = .ok text)
    (failed : service.lint engine file text world = (.error error, after)) (passes : Nat) :
    service.trail engine file (passes + 1) current world =
      { failure := some error, world := after } := by
  simp only [trail, found, applied, failed, Bool.false_eq_true, if_false]

theorem trail_next {service : Service} {engine : Engine σ} {file text : String}
    {current next : Lint} {world after : σ} (found : ¬ current.batch.isEmpty)
    (applied : Edit.applyAll current.text current.batch = .ok text)
    (linted : service.lint engine file text world = (.ok next, after)) (passes : Nat) :
    service.trail engine file (passes + 1) current world =
      let later := service.trail engine file passes next after
      { later with visits := next :: later.visits } := by
  simp only [trail, found, applied, linted, Bool.false_eq_true, if_false]

theorem trail_remember (service : Service) (engine : Engine σ) (file known : String)
    (index : FindingIndex) (passes : Nat) (current : Lint) (world : σ) :
    (service.remember known index).trail engine file passes current world =
      service.trail engine file passes current world := by
  have lints : (service.remember known index).lint engine file = service.lint engine file := rfl
  induction passes generalizing current world with
  | zero => rfl
  | succ passes ih => simp only [trail, lints, ih]

theorem trail_isChain (service : Service) (engine : Engine σ) (file : String) (passes : Nat)
    (current : Lint) (world : σ) :
    (current :: (service.trail engine file passes current world).visits).IsChain Lint.LeadsTo := by
  induction passes, current, world using trail.induct service engine file with
  | case1 current world => exact .singleton _
  | case2 passes current world done =>
      rw [trail_done done]
      exact .singleton _
  | case3 passes current world found error refused =>
      rw [trail_refused found refused]
      exact .singleton _
  | case4 passes current world found text applied error after failed =>
      rw [trail_unlinted found applied failed]
      exact .singleton _
  | case5 passes current world found text applied next after linted ih =>
      rw [trail_next found applied linted]
      refine .cons_cons ⟨by simpa using found, ?_⟩ ih
      rw [applied, (locates_of_lint linted).1]

theorem trail_locates (service : Service) (engine : Engine σ) (file : String) (passes : Nat)
    (current : Lint) (world : σ) :
    ∀ visit ∈ (service.trail engine file passes current world).visits,
      service.Locates file visit := by
  induction passes, current, world using trail.induct service engine file with
  | case1 current world => nofun
  | case2 passes current world done =>
      rw [trail_done done]
      nofun
  | case3 passes current world found error refused =>
      rw [trail_refused found refused]
      nofun
  | case4 passes current world found text applied error after failed =>
      rw [trail_unlinted found applied failed]
      nofun
  | case5 passes current world found text applied next after linted ih =>
      rw [trail_next found applied linted]
      exact List.forall_mem_cons.mpr ⟨(locates_of_lint linted).2, ih⟩

/-- A way without a failure ends when the passes are used up, or where nothing is left to fix. -/
theorem trail_length (service : Service) (engine : Engine σ) (file : String) (passes : Nat)
    (current : Lint) (world : σ) :
    let trail := service.trail engine file passes current world
    trail.visits.length ≤ passes ∧ (trail.failure = none →
      trail.visits.length = passes ∨ (trail.visits.getLastD current).batch = []) := by
  induction passes, current, world using trail.induct service engine file with
  | case1 current world => exact ⟨Nat.le_refl _, fun _ => Or.inl rfl⟩
  | case2 passes current world done =>
      rw [trail_done done]
      exact ⟨Nat.zero_le _, fun _ => Or.inr (by simpa using done)⟩
  | case3 passes current world found error refused =>
      rw [trail_refused found refused]
      exact ⟨Nat.zero_le _, nofun⟩
  | case4 passes current world found text applied error after failed =>
      rw [trail_unlinted found applied failed]
      exact ⟨Nat.zero_le _, nofun⟩
  | case5 passes current world found text applied next after linted ih =>
      rw [trail_next found applied linted]
      refine ⟨Nat.succ_le_succ ih.1, fun clean => ?_⟩
      rcases ih.2 clean with full | done
      · exact Or.inl (congrArg Nat.succ full)
      · exact Or.inr (by rwa [List.getLastD_cons])

/-- Some lints have led from one to the next for a text, until the passes were used up or nothing
was left to fix. Each of them looks at the report of its own text. -/
structure Leads (service : Service) (file text : String) (passes : Nat) (first : Lint)
    (later : List Lint) : Prop where
  starts : first.text = text
  bounded : later.length ≤ passes
  steps : (first :: later).IsChain Lint.LeadsTo
  locates : ∀ lint ∈ first :: later, service.Locates file lint
  ends : later.length = passes ∨ (later.getLastD first).batch = []

theorem trail_leads {service : Service} {engine : Engine σ} {file text : String} {first : Lint}
    {world after : σ} {passes : Nat}
    (linted : service.lint engine file text world = (.ok first, after))
    (clean : (service.trail engine file passes first after).failure = none) :
    service.Leads file text passes first (service.trail engine file passes first after).visits where
  starts := (locates_of_lint linted).1
  bounded := (service.trail_length engine file passes first after).1
  steps := service.trail_isChain engine file passes first after
  locates := List.forall_mem_cons.mpr
    ⟨(locates_of_lint linted).2, service.trail_locates engine file passes first after⟩
  ends := (service.trail_length engine file passes first after).2 clean

/-- Taking down the exchanges changes nothing else, and without a failure there is one exchange for
each lint. -/
theorem trail_recording (service : Service) (engine : Engine σ) (file : String) (passes : Nat)
    (current : Lint) (record : List Exchange) (world : σ) :
    let plain := service.trail engine file passes current world
    ∃ later, service.trail engine.recording file passes current (record, world) =
        { plain with world := (record ++ later, plain.world) } ∧
      (plain.failure = none → later = plain.visits.map (service.exchange file)) := by
  induction passes, current, world using trail.induct service engine file generalizing record with
  | case1 current world => exact ⟨[], by simp [trail], fun _ => rfl⟩
  | case2 passes current world done =>
      rw [trail_done done, trail_done done]
      exact ⟨[], by simp, fun _ => rfl⟩
  | case3 passes current world found error refused =>
      rw [trail_refused found refused, trail_refused found refused]
      exact ⟨[], by simp, nofun⟩
  | case4 passes current world found text applied error after failed =>
      have recorded := lint_recording service engine file text record world
      rw [failed] at recorded
      rw [trail_unlinted found applied failed, trail_unlinted found applied recorded]
      exact ⟨_, rfl, nofun⟩
  | case5 passes current world found text applied next after linted ih =>
      rw [trail_next found applied linted,
        trail_next found applied (lint_recording_ok linted record)]
      obtain ⟨later, equal, clean⟩ := ih (record ++ [service.exchange file next])
      refine ⟨service.exchange file next :: later, ?_, fun noFailure => ?_⟩
      · simp only [equal, List.append_assoc, List.cons_append, List.nil_append]
      · rw [clean noFailure, List.map_cons]

end Service

end EditorLint
