import EditorLint.Edit.Basic

/-!
The order in which edits are considered: by their starts, and those with one start as they came.
The two rules leave one order only, and it is the same whether edits are left out before or after
they are put in order.
-/

namespace EditorLint.Edit

/-- Items in the order of their starts; items with one start keep their order. -/
structure StableOrder {α : Type} (start : α → Nat) (items order : List α) : Prop where
  increasing : order.Pairwise (start · ≤ start ·)
  stable : ∀ offset, order.filter (start · = offset) = items.filter (start · = offset)

section

variable {α β : Type} {start : α → Nat} {items order : List α}

theorem mem_iff_of_filter_eq {first second : List α}
    (same : ∀ offset, first.filter (start · = offset) = second.filter (start · = offset))
    (item : α) : item ∈ first ↔ item ∈ second := by
  have member : item ∈ first.filter (start · = start item) ↔
      item ∈ second.filter (start · = start item) := by rw [same]
  simpa using member

theorem eq_of_increasing {first second : List α} (increasing : first.Pairwise (start · ≤ start ·))
    (increasingToo : second.Pairwise (start · ≤ start ·))
    (same : ∀ offset, first.filter (start · = offset) = second.filter (start · = offset)) :
    first = second := by
  have mem_iff := mem_iff_of_filter_eq same
  induction first generalizing second with
  | nil =>
      exact (List.eq_nil_iff_forall_not_mem.mpr fun item member =>
        List.not_mem_nil ((mem_iff item).mpr member)).symm
  | cons item first ih =>
      obtain ⟨least, restIncreasing⟩ := List.pairwise_cons.mp increasing
      cases second with
      | nil => cases (mem_iff item).mp List.mem_cons_self
      | cons other second =>
          obtain ⟨leastToo, restIncreasingToo⟩ := List.pairwise_cons.mp increasingToo
          -- Both lists begin with a least start, so that one subsequence has both first items.
          have below : start item ≤ start other := by
            rcases List.mem_cons.mp ((mem_iff other).mpr List.mem_cons_self) with rfl | later
            · exact Nat.le_refl _
            · exact least other later
          have above : start other ≤ start item := by
            rcases List.mem_cons.mp ((mem_iff item).mp List.mem_cons_self) with rfl | later
            · exact Nat.le_refl _
            · exact leastToo item later
          have heads := same (start item)
          simp only [List.filter_cons, Nat.le_antisymm above below, decide_true, if_true,
            List.cons.injEq] at heads
          obtain ⟨rfl, -⟩ := heads
          have rest (offset : Nat) :
              first.filter (start · = offset) = second.filter (start · = offset) := by
            have both := same offset
            simp only [List.filter_cons] at both
            split at both
            · exact (List.cons.inj both).2
            · exact both
          rw [ih restIncreasing restIncreasingToo rest (mem_iff_of_filter_eq rest)]

theorem StableOrder.unique {other : List α} (ordered : StableOrder start items order)
    (orderedToo : StableOrder start items other) : order = other :=
  eq_of_increasing ordered.increasing orderedToo.increasing fun offset =>
    (ordered.stable offset).trans (orderedToo.stable offset).symm

theorem StableOrder.filter (ordered : StableOrder start items order) (keeps : α → Bool) :
    StableOrder start (items.filter keeps) (order.filter keeps) where
  increasing := ordered.increasing.filter keeps
  stable offset := by
    have commute (list : List α) : (list.filter keeps).filter (start · = offset) =
        (list.filter (start · = offset)).filter keeps := by
      simp only [List.filter_filter, Bool.and_comm]
    rw [commute, commute, ordered.stable]

theorem StableOrder.map {items order : List β} (view : β → α)
    (ordered : StableOrder (start <| view ·) items order) :
    StableOrder start (items.map view) (order.map view) where
  increasing := List.pairwise_map.mpr ordered.increasing
  stable offset := by
    rw [List.filter_map, List.filter_map]
    exact congrArg (List.map view) (ordered.stable offset)

theorem mergeSort_stable (start : α → Nat) (items : List α) :
    StableOrder start items (items.mergeSort fun left right => start left ≤ start right) := by
  have transitive (first second third : α) (less : decide (start first ≤ start second) = true)
      (lessToo : decide (start second ≤ start third) = true) :
      decide (start first ≤ start third) = true := by
    simp only [decide_eq_true_eq] at less lessToo ⊢
    omega
  have total (first second : α) :
      (decide (start first ≤ start second) || decide (start second ≤ start first)) = true := by
    simp only [Bool.or_eq_true, decide_eq_true_eq]
    omega
  refine ⟨by simpa using List.pairwise_mergeSort transitive total items, fun offset => ?_⟩
  have tied : (items.filter (start · = offset)).Pairwise
      fun left right => decide (start left ≤ start right) = true := by
    refine List.pairwise_of_forall_mem_list fun left leftMember right rightMember => ?_
    simp only [List.mem_filter, decide_eq_true_eq] at leftMember rightMember ⊢
    omega
  -- Ties are sorted already, so the sort keeps them as a subsequence, and it adds nothing.
  have kept := (List.sublist_mergeSort transitive total tied List.filter_sublist).filter
    (start · = offset)
  simp only [List.filter_filter, Bool.and_self] at kept
  exact (kept.eq_of_length ((List.mergeSort_perm items _).filter _).length_eq.symm).symm

end

theorem sortByStart_stable (edits : List Edit) : StableOrder (·.start) edits (sortByStart edits) :=
  mergeSort_stable (·.start) edits

theorem StableOrder.sortByStart_eq {edits order : List Edit}
    (ordered : StableOrder (·.start) edits order) : sortByStart edits = order :=
  (sortByStart_stable edits).unique ordered

theorem sortByStart_eq_self {edits : List Edit}
    (increasing : edits.Pairwise (·.start ≤ ·.start)) : sortByStart edits = edits :=
  StableOrder.sortByStart_eq ⟨increasing, fun _ => rfl⟩

end EditorLint.Edit
