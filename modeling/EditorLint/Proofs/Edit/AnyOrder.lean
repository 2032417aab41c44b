import EditorLint.Proofs.Edit.Layout
import EditorLint.Proofs.Edit.Selection
import Mathlib

/-!
The selected edits of a batch give one text, whether they are applied in one scan or one at a time
in any order. What carries the argument is the layout of the text: it says what stands at each
place when some of the edits have been applied, and each step replaces the text at one place.
-/

namespace EditorLint.Edit

open Text

def lengthChange (edit : Edit) : Int :=
  (units edit.text.toList : Int) - ((edit.stop : Int) - edit.start)

/-- An edit of the original text as an edit of the text in which others have been applied: its
offsets move by the change in length of those to its left. -/
def shifted (applied : List Edit) (edit : Edit) : Edit :=
  let shift := ((applied.filter (·.stop ≤ edit.start)).map lengthChange).sum
  { edit with start := (edit.start + shift).toNat, stop := (edit.stop + shift).toNat }

/-- Applies edits of an original text one at a time, to the text in which some have been applied
already. -/
def applyInTurn (text : String) (applied : List Edit) : List Edit → Except LintError String
  | [] => .ok text
  | edit :: rest =>
    (applyAll text [edit.shifted applied]).bind fun text => applyInTurn text (edit :: applied) rest

/-! ## Places -/

theorem Placed.ordered {here : Nat} {spots : List Spot} (placed : Placed here spots) :
    ∀ edit ∈ spots.map (·.edit), edit.start ≤ edit.stop := by
  induction spots generalizing here with
  | nil => simp
  | cons spot spots ih =>
      obtain ⟨_, stopEq, rest⟩ := placed
      intro edit member
      rcases List.mem_cons.mp member with same | later
      · subst same
        show spot.edit.start ≤ spot.edit.stop
        omega
      · exact ih rest edit later

theorem Placed.front {here : Nat} {before after : List Spot}
    (placed : Placed here (before ++ after)) : Placed here before := by
  induction before generalizing here with
  | nil => trivial
  | cons first before ih => exact ⟨placed.1, placed.2.1, ih placed.2.2⟩

theorem Placed.range {here : Nat} {before after : List Spot} {spot : Spot}
    (placed : Placed here (before ++ spot :: after)) :
    spot.edit.start = here + units (layout [] before []) + units spot.lead ∧
      spot.edit.stop = spot.edit.start + units spot.old := by
  induction before generalizing here with
  | nil => exact ⟨by simpa [layout, units] using placed.1, placed.2.1⟩
  | cons first before ih =>
      obtain ⟨startEq, stopEq, rest⟩ := placed
      obtain ⟨position, size⟩ := ih rest
      refine ⟨?_, size⟩
      rw [position, stopEq, startEq]
      simp only [layout, Spot.current_nil, units_append]
      omega

theorem nodup_of_apart {edits : List Edit} (apart : edits.Pairwise (·.stop < ·.start))
    (ordered : ∀ edit ∈ edits, edit.start ≤ edit.stop) : edits.Nodup := by
  refine List.Pairwise.imp_of_mem ?_ apart
  intro left right leftMem _ less same
  have range := ordered left leftMem
  rw [← same] at less
  omega

theorem units_layout {here : Nat} {spots : List Spot} (placed : Placed here spots)
    (applied : List Edit) (tail : List Char) :
    (units (layout applied spots tail) : Int) = units (layout [] spots tail) +
      (((spots.map (·.edit)).filter (· ∈ applied)).map lengthChange).sum := by
  induction spots generalizing here with
  | nil => simp [layout]
  | cons spot spots ih =>
      obtain ⟨startEq, stopEq, rest⟩ := placed
      have later := ih rest
      simp only [layout, units_append, List.map_cons, Spot.current]
      by_cases member : spot.edit ∈ applied
      · simp only [member, decide_true, List.filter_cons_of_pos, List.map_cons, List.sum_cons,
          if_true, List.not_mem_nil, if_false, lengthChange]
        omega
      · simp only [member, decide_false, Bool.false_eq_true, not_false_eq_true,
          List.filter_cons_of_neg, if_false, List.not_mem_nil]
        omega

/-! ## One edit at a time -/

theorem sum_changes_left {before after applied : List Edit} {edit : Edit}
    (apart : (before ++ edit :: after).Pairwise (·.stop < ·.start))
    (ordered : ∀ other ∈ before ++ edit :: after, other.start ≤ other.stop)
    (distinct : (edit :: applied).Nodup)
    (known : ∀ other ∈ applied, other ∈ before ++ edit :: after) :
    ((applied.filter (·.stop ≤ edit.start)).map lengthChange).sum =
      ((before.filter (· ∈ applied)).map lengthChange).sum := by
  obtain ⟨beforeApart, afterApart, between⟩ := List.pairwise_append.mp apart
  obtain ⟨behind, _⟩ := List.pairwise_cons.mp afterApart
  obtain ⟨fresh, appliedDistinct⟩ := List.nodup_cons.mp distinct
  have beforeDistinct : before.Nodup :=
    nodup_of_apart beforeApart fun other member => ordered other (by simp [member])
  -- The applied edits stand in another order than the spots, and a sum does not mind.
  apply List.Perm.sum_eq
  apply List.Perm.map
  rw [List.perm_ext_iff_of_nodup (appliedDistinct.filter _) (beforeDistinct.filter _)]
  intro other
  simp only [List.mem_filter, decide_eq_true_eq]
  constructor
  · rintro ⟨member, left⟩
    refine ⟨?_, member⟩
    rcases List.mem_append.mp (known other member) with inBefore | notBefore
    · exact inBefore
    · rcases List.mem_cons.mp notBefore with same | inAfter
      · subst same
        exact absurd member fresh
      · have right := behind other inAfter
        have range := ordered other (by simp [inAfter])
        have editRange := ordered edit (by simp)
        omega
  · rintro ⟨inBefore, member⟩
    exact ⟨member, Nat.le_of_lt (between other inBefore edit (by simp))⟩

/-- Applying one more edit, shifted, replaces the text at its place. -/
theorem applyAll_shifted {spots : List Spot} (tail : List Char) (edit : Edit)
    (applied : List Edit) (placed : Placed 0 spots)
    (apart : (spots.map (·.edit)).Pairwise (·.stop < ·.start))
    (distinct : (edit :: applied).Nodup)
    (known : ∀ other ∈ edit :: applied, other ∈ spots.map (·.edit)) :
    applyAll (String.ofList (layout applied spots tail)) [edit.shifted applied] =
      .ok (String.ofList (layout (edit :: applied) spots tail)) := by
  obtain ⟨spot, spotMem, rfl⟩ := List.mem_map.mp (known edit (by simp))
  obtain ⟨before, after, rfl⟩ := List.append_of_mem spotMem
  have unique := nodup_of_apart apart placed.ordered
  have ordered := placed.ordered
  simp only [List.map_append, List.map_cons] at apart unique ordered known
  obtain ⟨fresh, _⟩ := List.nodup_cons.mp distinct
  obtain ⟨startEq, stopEq⟩ := placed.range
  have shift := sum_changes_left apart ordered distinct
    fun other member => known other (by simp [member])
  have length := units_layout placed.front applied []
  rw [← shift] at length
  -- The other spots do not notice the new edit.
  have beforeSame := layout_congr applied (spot.edit :: applied) before [] (by
    intro other member
    have different : other.edit ≠ spot.edit :=
      (List.nodup_append.mp unique).2.2 _ (List.mem_map_of_mem member) _ (by simp)
    simp [different])
  have afterSame := layout_congr applied (spot.edit :: applied) after tail (by
    intro other member
    have absent := (List.nodup_cons.mp (List.nodup_append.mp unique).2.1).1
    have different : other.edit ≠ spot.edit := by
      intro same
      rw [← same] at absent
      exact absent (List.mem_map_of_mem member)
    simp [different])
  rw [applyAll_singleton_eq_ok_iff]
  refine ⟨layout applied before [] ++ spot.lead, spot.old, layout applied after tail, ?_, ?_, ?_, ?_⟩
  · rw [String.toList_ofList, layout_append, layout_tail]
    simp [layout, Spot.current, fresh]
  · simp only [shifted, units_append]
    omega
  · simp only [shifted, units_append]
    omega
  · rw [layout_append, layout_tail, ← beforeSame]
    simp [layout, Spot.current, ← afterSame, shifted]

/-- Applying edits one at a time replaces the text at each of their places. -/
theorem applyInTurn_layout {spots : List Spot} (tail : List Char) (order applied : List Edit)
    (placed : Placed 0 spots) (apart : (spots.map (·.edit)).Pairwise (·.stop < ·.start))
    (distinct : (order ++ applied).Nodup)
    (known : ∀ edit ∈ order ++ applied, edit ∈ spots.map (·.edit)) :
    applyInTurn (String.ofList (layout applied spots tail)) applied order =
      .ok (String.ofList (layout (order ++ applied) spots tail)) := by
  induction order generalizing applied with
  | nil => rfl
  | cons edit order ih =>
      have moved : (order ++ edit :: applied).Perm (edit :: order ++ applied) :=
        List.perm_middle
      have first : (edit :: applied).Sublist (edit :: order ++ applied) := by simp
      have step := applyAll_shifted tail edit applied placed apart (distinct.sublist first)
        fun other member => known other (first.subset member)
      have later := ih (edit :: applied) (moved.nodup_iff.mpr distinct)
        fun other member => known other (moved.subset member)
      have same := layout_congr (order ++ edit :: applied) (edit :: order ++ applied) spots tail
        fun spot _ => moved.mem_iff
      simp only [applyInTurn, step, Except.bind]
      rw [later, same]

theorem sum_lengthChange (edits : List Edit) :
    (edits.map lengthChange).sum =
      (edits.map fun edit => (units edit.text.toList : Int)).sum -
        (edits.map fun edit => (edit.stop : Int) - edit.start).sum := by
  induction edits with
  | nil => rfl
  | cons edit edits ih =>
      simp only [List.map_cons, List.sum_cons, ih, lengthChange]
      omega

/-- Edits that can each be applied alone leave, once selected, a batch that can be applied. Its
result does not depend on the order in which the selected edits are applied one at a time, and its
length is that of the text without what was replaced and with the replacements. -/
theorem applyAll_nonOverlapping_any_order (text : String) (edits : List Edit)
    (applicable : ∀ edit ∈ edits, ∃ result, applyAll text [edit] = .ok result) :
    ∃ result, applyAll text (nonOverlapping edits) = .ok result ∧
      (∀ order, order.Perm (nonOverlapping edits) → applyInTurn text [] order = .ok result) ∧
      (units result.toList : Int) = units text.toList
        - ((nonOverlapping edits).map fun edit => (edit.stop : Int) - edit.start).sum
        + ((nonOverlapping edits).map fun edit => (units edit.text.toList : Int)).sum := by
  have apart := nonOverlapping_apart edits
  obtain ⟨spots, tail, mapped, laidOut, placed⟩ := exists_spots_of_apart [] text.toList apart
    (fun _ _ => Nat.zero_le _) (by
      intro edit member
      obtain ⟨_, accepted⟩ := applicable edit (mem_of_mem_nonOverlapping member)
      obtain ⟨lead, old, rest, split, startEq, stopEq, _⟩ :=
        (applyAll_singleton_eq_ok_iff _ _ _).mp accepted
      exact ⟨lead, old, rest, split, startEq, stopEq⟩)
  refine ⟨String.ofList (layout (nonOverlapping edits) spots tail), ?_, ?_, ?_⟩
  · exact (applyAll_eq_ok_iff _ _ _).mpr ⟨spots, tail, mapped, laidOut, placed, rfl⟩
  · intro order perm
    have distinct : (nonOverlapping edits).Nodup :=
      nodup_of_apart apart (by simpa [mapped] using placed.ordered)
    have turned := applyInTurn_layout tail order [] placed (by rwa [mapped])
      (by simpa using perm.nodup_iff.mpr distinct)
      (by intro edit member; rw [mapped]; exact perm.subset (by simpa using member))
    have same := layout_congr order (nonOverlapping edits) spots tail fun spot _ => perm.mem_iff
    rw [← laidOut, String.ofList_toList, List.append_nil, same] at turned
    exact turned
  · have length := units_layout placed (nonOverlapping edits) tail
    rw [mapped, List.filter_eq_self.mpr (by simp), ← laidOut, sum_lengthChange] at length
    rw [String.toList_ofList]
    omega

theorem applyAll_nonOverlapping_any_order_surrogates :
    (∀ edit ∈ [Edit.mk 3 4 "", ⟨0, 1, "xy"⟩, ⟨1, 3, "z"⟩],
      ∃ result, applyAll "a😀b" [edit] = .ok result) ∧
    ∃ result, applyAll "a😀b" (nonOverlapping [⟨3, 4, ""⟩, ⟨0, 1, "xy"⟩, ⟨1, 3, "z"⟩]) = .ok result ∧
      applyInTurn "a😀b" [] [⟨0, 1, "xy"⟩, ⟨3, 4, ""⟩] = .ok result ∧
      applyInTurn "a😀b" [] [⟨3, 4, ""⟩, ⟨0, 1, "xy"⟩] = .ok result ∧
      (units result.toList : Int) = 4 := by
  have applicable : ∀ edit ∈ [Edit.mk 3 4 "", ⟨0, 1, "xy"⟩, ⟨1, 3, "z"⟩],
      ∃ result, applyAll "a😀b" [edit] = .ok result := by
    simp only [List.forall_mem_cons]
    exact ⟨⟨"a😀", by cbv⟩, ⟨"xy😀b", by cbv⟩, ⟨"azb", by cbv⟩, by simp⟩
  have selected : nonOverlapping [⟨3, 4, ""⟩, ⟨0, 1, "xy"⟩, ⟨1, 3, "z"⟩] =
      [⟨0, 1, "xy"⟩, ⟨3, 4, ""⟩] := by cbv
  obtain ⟨result, accepted, inTurn, length⟩ :=
    applyAll_nonOverlapping_any_order "a😀b" _ applicable
  rw [selected] at inTurn length
  exact ⟨applicable, result, accepted, inTurn _ (List.Perm.refl _), inTurn _ (List.Perm.swap ..),
    length⟩

end EditorLint.Edit
