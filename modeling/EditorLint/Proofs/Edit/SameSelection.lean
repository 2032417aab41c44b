import EditorLint.Proofs.Edit.Maximal
import Mathlib

/-!
Batches with one selection. A selection is its own selection, edits with different starts can come
in any order, and edits that are reached by a selected one before them can come and go.
-/

namespace EditorLint.Edit

theorem takeDisjoint_prefix (reach : Option Nat) (front back : List Edit) :
    takeDisjoint reach front <+: takeDisjoint reach (front ++ back) := by
  induction front generalizing reach with
  | nil => exact List.nil_prefix
  | cons edit front ih =>
      rw [List.cons_append, takeDisjoint, takeDisjoint]
      split
      · exact ih reach
      · exact (List.prefix_cons_inj edit).mpr (ih _)

theorem takeDisjoint_eq_self {reach : Option Nat} {edits : List Edit}
    (behind : ∀ edit ∈ edits, ¬ reach.any (edit.start ≤ ·))
    (apart : edits.Pairwise (·.stop < ·.start)) : takeDisjoint reach edits = edits := by
  induction edits generalizing reach with
  | nil => rfl
  | cons edit rest ih =>
      obtain ⟨first, restApart⟩ := List.pairwise_cons.mp apart
      have later : ∀ next ∈ rest, ¬ (some edit.stop).any (next.start ≤ ·) := by
        intro next member
        simpa using first next member
      rw [takeDisjoint, if_neg (behind edit List.mem_cons_self), ih later restApart]

theorem nonOverlapping_nonOverlapping (edits : List Edit) :
    nonOverlapping (nonOverlapping edits) = nonOverlapping edits := by
  rw [nonOverlapping, sortByStart_eq_self (nonOverlapping_increasing edits)]
  exact takeDisjoint_eq_self (by simp) (nonOverlapping_apart edits)

theorem nonOverlapping_congr {edits other : List Edit}
    (same : ∀ offset, other.filter (·.start = offset) = edits.filter (·.start = offset)) :
    nonOverlapping other = nonOverlapping edits := by
  have ordered : StableOrder (·.start) other (sortByStart edits) :=
    ⟨sortByStart_increasing edits, fun offset =>
      ((sortByStart_stable edits).stable offset).trans (same offset).symm⟩
  rw [nonOverlapping, ordered.sortByStart_eq, nonOverlapping]

/-! ## Edits that are reached -/

theorem mem_or_reached {edits : List Edit} (increasing : edits.Pairwise (·.start ≤ ·.start))
    {edit : Edit} (member : edit ∈ edits) :
    edit ∈ takeDisjoint none edits ∨
      ∃ taken ∈ takeDisjoint none edits, edit.start ≤ taken.stop := by
  obtain ⟨order, rfl, sameTaken, reached⟩ := exists_marks increasing
  obtain ⟨⟨edit, mark⟩, listed, rfl⟩ := List.mem_map.mp member
  rw [← sameTaken]
  cases mark with
  | true => exact .inl (mem_marked_iff.mpr listed)
  | false =>
      obtain ⟨front, back, split⟩ := List.append_of_mem listed
      obtain ⟨taken, before, -, reaches⟩ := reached front edit back split
      refine .inr ⟨taken, ?_, reaches⟩
      rw [split, marked_append]
      exact List.mem_append_left _ before

/-- An edit that is taken in the end has been taken when the scan is past it. -/
theorem mem_takeDisjoint_of_append {front back : List Edit}
    (increasing : (front ++ back).Pairwise (·.start ≤ ·.start)) {edit : Edit}
    (passed : edit ∈ front) (taken : edit ∈ takeDisjoint none (front ++ back)) :
    edit ∈ takeDisjoint none front := by
  obtain ⟨later, split⟩ := takeDisjoint_prefix none front back
  rw [← split] at taken
  rcases List.mem_append.mp taken with earlier | later
  · exact earlier
  · rcases mem_or_reached (List.pairwise_append.mp increasing).1 passed with earlier | reached
    · exact earlier
    · obtain ⟨other, otherTaken, reaches⟩ := reached
      have apart := takeDisjoint_apart none increasing
      rw [← split, List.pairwise_append] at apart
      have ends := apart.2.2 other otherTaken edit later
      omega

/-- The edits without a mark are dropped if each is reached by one that has been taken among the
marked ones before it. -/
theorem takeDisjoint_marked {order : List (Edit × Bool)}
    (increasing : (order.map (·.1)).Pairwise (·.start ≤ ·.start))
    (reached : ∀ front edit back, order = front ++ (edit, false) :: back →
      ∃ taken ∈ takeDisjoint none (marked front), edit.start ≤ taken.stop) :
    takeDisjoint none (order.map (·.1)) = takeDisjoint none (marked order) := by
  induction order using List.reverseRecOn with
  | nil => rfl
  | append_singleton order item ih =>
      obtain ⟨edit, mark⟩ := item
      rw [List.map_append, List.map_singleton] at increasing ⊢
      have same := ih (List.pairwise_append.mp increasing).1 fun front other back split =>
        reached front other (back ++ [(edit, mark)]) (by simp [split])
      rw [takeDisjoint_concat none increasing, same]
      cases mark with
      | true =>
          have kept : marked (order ++ [(edit, true)]) = marked order ++ [edit] := by simp
          have markedIncreasing : (marked order ++ [edit]).Pairwise (·.start ≤ ·.start) := by
            rw [← kept]
            refine List.Pairwise.sublist (List.filter_sublist.map _) ?_
            simpa using increasing
          rw [kept, takeDisjoint_concat none markedIncreasing]
      | false =>
          rw [if_pos (.inr (reached order edit [] rfl))]
          simp

theorem nonOverlapping_map_eq {more order : List (Edit × Bool)}
    (ordered : StableOrder (·.1.start) more order)
    (reached : ∀ front edit back, order = front ++ (edit, false) :: back →
      ∃ taken ∈ nonOverlapping (marked more), taken ∈ marked front ∧ edit.start ≤ taken.stop) :
    nonOverlapping (more.map (·.1)) = nonOverlapping (marked more) := by
  have allOrdered : StableOrder (·.start) (more.map (·.1)) (order.map (·.1)) :=
    ordered.map Prod.fst
  have markedOrdered : StableOrder (·.start) (marked more) (marked order) :=
    (ordered.filter (·.2)).map Prod.fst
  have increasing := markedOrdered.increasing
  simp only [nonOverlapping, allOrdered.sortByStart_eq, markedOrdered.sortByStart_eq] at reached ⊢
  refine takeDisjoint_marked (List.pairwise_map.mpr ordered.increasing) ?_
  intro front edit back split
  obtain ⟨taken, member, before, reaches⟩ := reached front edit back split
  rw [split, marked_append] at increasing member
  exact ⟨taken, mem_takeDisjoint_of_append increasing before member, reaches⟩

/-- A selection is its own selection. It does not depend on the order in which the edits come,
except for those with one start. It stays the same when edits are added, as many as there may be
and at any place, of which each comes behind a selected one that starts at or before it and ends at
or behind its start. -/
theorem nonOverlapping_settled (edits : List Edit) :
    let selected := nonOverlapping edits
    nonOverlapping selected = selected ∧
      (∀ other : List Edit,
        (∀ offset, other.filter (·.start = offset) = edits.filter (·.start = offset)) →
          nonOverlapping other = selected) ∧
      ∀ more order : List (Edit × Bool), marked more = edits →
        StableOrder (·.1.start) more order →
        (∀ front edit back, order = front ++ (edit, false) :: back →
          ∃ taken ∈ selected, taken ∈ marked front ∧
            taken.start ≤ edit.start ∧ edit.start ≤ taken.stop) →
        nonOverlapping (more.map (·.1)) = selected := by
  intro selected
  refine ⟨nonOverlapping_nonOverlapping edits, fun _ same => nonOverlapping_congr same, ?_⟩
  rintro more order rfl ordered reached
  refine nonOverlapping_map_eq ordered fun front edit back split => ?_
  obtain ⟨taken, member, before, -, reaches⟩ := reached front edit back split
  exact ⟨taken, member, before, reaches⟩

/-- The selection from two edits, which are given in the other order, and to which an insertion at
the end of one and an edit that starts within the other are added. -/
theorem nonOverlapping_settled_touched :
    let early : Edit := ⟨0, 4, "early"⟩
    let late : Edit := ⟨10, 12, "late"⟩
    let more := [(late, true), (insertion 4 "touching", false), (⟨11, 20, "across"⟩, false),
      (early, true)]
    nonOverlapping [early, late] = nonOverlapping [late, early] ∧
      nonOverlapping (more.map (·.1)) = [early, late] := by
  intro early late more
  have sorted : sortByStart [late, early] = [early, late] := by cbv
  have moreSorted : more.mergeSort (·.1.start ≤ ·.1.start) = [(early, true),
      (insertion 4 "touching", false), (late, true), (⟨11, 20, "across"⟩, false)] := by cbv
  have stable := sortByStart_stable [late, early]
  have moreStable := mergeSort_stable (·.1.start) more
  rw [sorted] at stable
  rw [moreSorted] at moreStable
  have selected : nonOverlapping [late, early] = [early, late] := by cbv
  obtain ⟨-, reordered, added⟩ := nonOverlapping_settled [late, early]
  refine ⟨reordered [early, late] stable.stable, ?_⟩
  rw [← selected]
  refine added more _ rfl moreStable fun front edit back split => ?_
  rw [selected]
  simp only [List.cons_eq_append_iff, List.nil_eq_append_iff, List.cons.injEq, Prod.mk.injEq,
    Bool.false_eq_true, reduceCtorEq, and_false, false_and, and_true, exists_false, or_false,
    false_or] at split
  rcases split with ⟨_, rfl, ⟨rfl, rfl, -⟩ | ⟨_, rfl, _, rfl, rfl, rfl, -⟩⟩
  · exact ⟨early, by simp, by simp, by decide, by decide⟩
  · exact ⟨late, by simp, by simp, by decide, by decide⟩
end EditorLint.Edit
