import EditorLint.Proofs.Edit.StableOrder

/-!
What the selection of edits promises: it takes edits of the batch only, and each one taken ends
before every later one starts.
-/

namespace EditorLint.Edit

theorem sortByStart_perm (edits : List Edit) : (sortByStart edits).Perm edits :=
  List.mergeSort_perm edits _

theorem sortByStart_increasing (edits : List Edit) :
    (sortByStart edits).Pairwise (·.start ≤ ·.start) :=
  (sortByStart_stable edits).increasing

theorem takeDisjoint_sublist (reach : Option Nat) (edits : List Edit) :
    (takeDisjoint reach edits).Sublist edits := by
  induction edits generalizing reach with
  | nil => exact List.Sublist.slnil
  | cons edit rest ih =>
      simp only [takeDisjoint]
      split
      · exact (ih reach).cons _
      · exact (ih _).cons_cons _

theorem takeDisjoint_after {reach : Nat} {edits : List Edit}
    (sorted : edits.Pairwise (·.start ≤ ·.start)) {edit : Edit}
    (taken : edit ∈ takeDisjoint (some reach) edits) : reach < edit.start := by
  induction edits with
  | nil => simp [takeDisjoint] at taken
  | cons first rest ih =>
      obtain ⟨firstLe, restSorted⟩ := List.pairwise_cons.mp sorted
      simp only [takeDisjoint, Option.any_some, decide_eq_true_eq] at taken
      split at taken
      · exact ih restSorted taken
      · rename_i apart
        rcases List.mem_cons.mp taken with same | later
        · subst same
          omega
        · have order := firstLe edit ((takeDisjoint_sublist _ _).subset later)
          omega

theorem takeDisjoint_apart (reach : Option Nat) {edits : List Edit}
    (sorted : edits.Pairwise (·.start ≤ ·.start)) :
    (takeDisjoint reach edits).Pairwise (·.stop < ·.start) := by
  induction edits generalizing reach with
  | nil => exact List.Pairwise.nil
  | cons edit rest ih =>
      obtain ⟨_, restSorted⟩ := List.pairwise_cons.mp sorted
      simp only [takeDisjoint]
      split
      · exact ih reach restSorted
      · exact List.pairwise_cons.mpr
          ⟨fun _ taken => takeDisjoint_after restSorted taken, ih _ restSorted⟩

theorem mem_of_mem_nonOverlapping {edit : Edit} {edits : List Edit}
    (taken : edit ∈ nonOverlapping edits) : edit ∈ edits :=
  (sortByStart_perm edits).subset ((takeDisjoint_sublist _ _).subset taken)

theorem nonOverlapping_increasing (edits : List Edit) :
    (nonOverlapping edits).Pairwise (·.start ≤ ·.start) :=
  (sortByStart_increasing edits).sublist (takeDisjoint_sublist none _)

/-- Every selected edit ends before each later one starts. -/
theorem nonOverlapping_apart (edits : List Edit) :
    (nonOverlapping edits).Pairwise (·.stop < ·.start) :=
  takeDisjoint_apart none (sortByStart_increasing edits)

theorem nonOverlapping_eq_nil_iff {edits : List Edit} : nonOverlapping edits = [] ↔ edits = [] := by
  have sameLength := (sortByStart_perm edits).length_eq
  unfold nonOverlapping
  cases sorted : sortByStart edits with
  | nil =>
      rw [sorted, List.length_nil, eq_comm, List.length_eq_zero_iff] at sameLength
      simp [sameLength, takeDisjoint]
  | cons first rest =>
      -- Nothing has been taken before the first edit, so it is taken.
      rw [sorted, List.length_cons] at sameLength
      simp only [takeDisjoint, Option.any_none, Bool.false_eq_true, if_false, reduceCtorEq, false_iff]
      rintro rfl
      cases sameLength

end EditorLint.Edit
