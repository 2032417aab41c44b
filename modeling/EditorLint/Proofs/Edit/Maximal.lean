import EditorLint.Proofs.Edit.Selection
import Mathlib.Data.List.Induction

/-!
The selection of edits leaves nothing out without a reason. An edit that is dropped is reached by
one that has been taken before it, so that no batch that can be applied together takes more.
-/

namespace EditorLint.Edit

/-! ## One more edit -/

/-- The edit that is considered next is dropped exactly if it is reached by one that has been taken
before it. -/
theorem takeDisjoint_concat (reach : Option Nat) {edits : List Edit} {edit : Edit}
    (increasing : (edits ++ [edit]).Pairwise (·.start ≤ ·.start)) :
    takeDisjoint reach (edits ++ [edit]) =
      if reach.any (edit.start ≤ ·) ∨ ∃ taken ∈ takeDisjoint reach edits, edit.start ≤ taken.stop
      then takeDisjoint reach edits
      else takeDisjoint reach edits ++ [edit] := by
  induction edits generalizing reach with
  | nil => simp [takeDisjoint]
  | cons first rest ih =>
      obtain ⟨least, restIncreasing⟩ := List.pairwise_cons.mp increasing
      have before : first.start ≤ edit.start := least edit (by simp)
      rw [List.cons_append, takeDisjoint, takeDisjoint]
      by_cases dropped : reach.any (first.start ≤ ·)
      · rw [if_pos dropped, if_pos dropped, ih reach restIncreasing]
      · -- What has not reached the first edit does not reach a later one.
        have behind : ¬ reach.any (edit.start ≤ ·) := by
          cases reach with
          | none => simp
          | some place =>
              simp only [Option.any_some, decide_eq_true_eq] at dropped ⊢
              omega
        rw [if_neg dropped, if_neg dropped, ih _ restIncreasing]
        simp only [behind, Bool.false_eq_true, false_or, Option.any_some, decide_eq_true_eq,
          List.mem_cons, exists_eq_or_imp]
        split <;> rfl

/-! ## All edits, each with a mark -/

/-- The edits that bear a mark. -/
def marked (order : List (Edit × Bool)) : List Edit := (order.filter (·.2)).map (·.1)

@[simp] theorem marked_append (front back : List (Edit × Bool)) :
    marked (front ++ back) = marked front ++ marked back := by
  simp [marked]

@[simp] theorem marked_cons (edit : Edit) (mark : Bool) (rest : List (Edit × Bool)) :
    marked ((edit, mark) :: rest) = if mark then edit :: marked rest else marked rest := by
  cases mark <;> simp [marked]

@[simp] theorem marked_nil : marked [] = [] := rfl

@[simp] theorem mem_marked_iff {order : List (Edit × Bool)} {edit : Edit} :
    edit ∈ marked order ↔ (edit, true) ∈ order := by
  simp [marked]

/-- Edits in order, of which the marked ones are taken: each of these ends before the later ones
start, and each of the others is reached by one that is taken before it. -/
structure Selects (edits : List Edit) (order : List (Edit × Bool)) : Prop where
  ordered : StableOrder (·.start) edits (order.map (·.1))
  apart : (marked order).Pairwise (·.stop < ·.start)
  reached : ∀ front edit back, order = front ++ (edit, false) :: back →
    ∃ taken ∈ marked front, taken.start ≤ edit.start ∧ edit.start ≤ taken.stop

theorem split_of_concat {α : Type} {list front back : List α} {last item : α}
    (split : list ++ [last] = front ++ item :: back) :
    (back = [] ∧ list = front ∧ last = item) ∨
      ∃ rest, back = rest ++ [last] ∧ list = front ++ item :: rest := by
  rcases List.eq_nil_or_concat back with rfl | ⟨rest, final, rfl⟩
  · obtain ⟨rfl, same⟩ := List.append_inj' split rfl
    exact .inl ⟨rfl, rfl, List.singleton_inj.mp same⟩
  · rw [List.concat_eq_append, ← List.cons_append, ← List.append_assoc] at split
    obtain ⟨rfl, same⟩ := List.append_inj' split rfl
    rw [List.singleton_inj.mp same, List.concat_eq_append]
    exact .inr ⟨rest, rfl, rfl⟩

theorem exists_marks {edits : List Edit} (increasing : edits.Pairwise (·.start ≤ ·.start)) :
    ∃ order : List (Edit × Bool), order.map (·.1) = edits ∧
      marked order = takeDisjoint none edits ∧
      ∀ front edit back, order = front ++ (edit, false) :: back →
        ∃ taken ∈ marked front, taken.start ≤ edit.start ∧ edit.start ≤ taken.stop := by
  induction edits using List.reverseRecOn with
  | nil => exact ⟨[], rfl, rfl, by simp⟩
  | append_singleton edits edit ih =>
      obtain ⟨earlierIncreasing, -, last⟩ := List.pairwise_append.mp increasing
      obtain ⟨order, sameEdits, sameTaken, reached⟩ := ih earlierIncreasing
      have step := takeDisjoint_concat none increasing
      simp only [Option.any_none, Bool.false_eq_true, false_or, ← sameTaken] at step
      by_cases dropped : ∃ taken ∈ marked order, edit.start ≤ taken.stop
      · refine ⟨order ++ [(edit, false)], by simp [sameEdits], by rw [step, if_pos dropped]; simp, ?_⟩
        intro front other back split
        rcases split_of_concat split with ⟨-, rfl, same⟩ | ⟨rest, -, earlier⟩
        · obtain ⟨rfl, -⟩ := Prod.mk.inj same
          obtain ⟨taken, member, reaches⟩ := dropped
          have listed : taken ∈ edits := by
            rw [← sameEdits]
            exact List.mem_map_of_mem (mem_marked_iff.mp member)
          exact ⟨taken, member, last taken listed edit (List.mem_singleton_self _), reaches⟩
        · exact reached front other rest earlier
      · refine ⟨order ++ [(edit, true)], by simp [sameEdits], by rw [step, if_neg dropped]; simp, ?_⟩
        intro front other back split
        rcases split_of_concat split with ⟨-, -, same⟩ | ⟨rest, -, earlier⟩
        · cases (Prod.mk.inj same).2
        · exact reached front other rest earlier

theorem exists_selects (edits : List Edit) :
    ∃ order, Selects edits order ∧ order.map (·.1) = sortByStart edits ∧
      marked order = nonOverlapping edits := by
  obtain ⟨order, sameEdits, sameTaken, reached⟩ := exists_marks (sortByStart_increasing edits)
  refine ⟨order, ⟨?_, ?_, reached⟩, sameEdits, sameTaken⟩
  · rw [sameEdits]
    exact sortByStart_stable edits
  · rw [sameTaken]
    exact nonOverlapping_apart edits

/-! ## Nothing can be added -/

/-- The same edits, of which at least the same ones are marked. -/
def Widens (order wider : List (Edit × Bool)) : Prop :=
  List.Forall₂ (fun mine other => other.1 = mine.1 ∧ (mine.2 → other.2)) order wider

/-- No edit besides the marked ones can be taken with them. -/
def Full (order : List (Edit × Bool)) : Prop :=
  ∀ wider, Widens order wider → (marked wider).Pairwise (·.stop < ·.start) → wider = order

theorem eq_of_widens (front : List (Edit × Bool)) {order wider : List (Edit × Bool)}
    (reached : ∀ front' edit back, front ++ order = front' ++ (edit, false) :: back →
      ∃ taken ∈ marked front', taken.start ≤ edit.start ∧ edit.start ≤ taken.stop)
    (widens : Widens order wider) (apart : (marked (front ++ wider)).Pairwise (·.stop < ·.start)) :
    wider = order := by
  induction widens generalizing front with
  | nil => rfl
  | @cons mine other order wider same rest ih =>
      obtain ⟨edit, mark⟩ := mine
      obtain ⟨other, otherMark⟩ := other
      obtain ⟨rfl, kept⟩ := same
      have marks : otherMark = mark := by
        by_contra differ
        obtain ⟨rfl, rfl⟩ : mark = false ∧ otherMark = true := by
          cases mark <;> cases otherMark <;> simp_all
        obtain ⟨taken, member, -, reaches⟩ := reached front other order rfl
        have ends : taken.stop < other.start := by
          rw [marked_append, List.pairwise_append] at apart
          exact apart.2.2 taken member other (by simp)
        omega
      subst marks
      have split : front ++ (other, otherMark) :: order = (front ++ [(other, otherMark)]) ++ order := by
        simp
      rw [ih (front ++ [(other, otherMark)]) (by rwa [← split]) (by simpa using apart)]

theorem Selects.full {edits : List Edit} {order : List (Edit × Bool)}
    (selects : Selects edits order) : Full order :=
  fun _ widens apart => eq_of_widens [] selects.reached widens apart

theorem head?_takeDisjoint (edits : List Edit) : (takeDisjoint none edits).head? = edits.head? := by
  cases edits <;> simp [takeDisjoint]

/-- What is selected is a part of the batch in its stable order, and each edit of it ends before the
later ones start. The first edit of that order is always among it. An edit that is dropped has a
selected one before it that starts at or before it and ends at or behind its start, so that no
dropped edit can be taken as well. -/
theorem nonOverlapping_maximal (edits : List Edit) :
    let selected := nonOverlapping edits
    StableOrder (·.start) edits (sortByStart edits) ∧
      selected.Sublist (sortByStart edits) ∧
      selected.Pairwise (·.stop < ·.start) ∧
      selected.head? = (sortByStart edits).head? ∧ (selected = [] ↔ edits = []) ∧
      ∃ order : List (Edit × Bool), order.map (·.1) = sortByStart edits ∧ marked order = selected ∧
        (∀ front edit back, order = front ++ (edit, false) :: back →
          ∃ taken ∈ marked front, taken.start ≤ edit.start ∧ edit.start ≤ taken.stop) ∧
        Full order := by
  intro selected
  obtain ⟨order, selects, sameEdits, sameTaken⟩ := exists_selects edits
  exact ⟨sortByStart_stable edits, takeDisjoint_sublist _ _, nonOverlapping_apart edits,
    head?_takeDisjoint _, nonOverlapping_eq_nil_iff, order, sameEdits, sameTaken, selects.reached,
    selects.full⟩

-- A reversed edit reaches none that starts with it, so that both are taken.
example : nonOverlapping [⟨6, 8, "late"⟩, ⟨5, 3, "back"⟩, ⟨5, 6, "wide"⟩, ⟨5, 3, "again"⟩] =
    [⟨5, 3, "back"⟩, ⟨5, 6, "wide"⟩] := by
  cbv

end EditorLint.Edit
