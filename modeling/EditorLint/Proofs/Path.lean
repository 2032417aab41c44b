import EditorLint.Path
import Mathlib

/-!
The pieces of a path, read off its characters, and the paths that are put together from names.
-/

namespace EditorLint.Path

/-- From the place behind `front` and `piece` on, where `piece` is what has been read since the
last separator. -/
theorem splitOnAux_slash (front piece rest : List Char) (before : List String) :
    String.splitOnAux (String.ofList (front ++ piece ++ rest)) "/" ⟨String.utf8Len front⟩
        ⟨String.utf8Len (front ++ piece)⟩ 0 before =
      before.reverse ++
        (List.splitOnPPrepend (· == '/') rest piece.reverse).map String.ofList := by
  induction rest generalizing front piece before with
  | nil =>
      have extracted := String.extract_of_valid front piece []
      rw [← String.utf8Len_append] at extracted
      rw [String.splitOnAux.eq_1, if_pos ((String.atEnd_of_valid (front ++ piece) []).mpr rfl),
        extracted]
      simp
  | cons c rest ih =>
      have current : String.Pos.Raw.get (String.ofList (front ++ piece ++ c :: rest))
          ⟨String.utf8Len (front ++ piece)⟩ = c := String.get_of_valid (front ++ piece) (c :: rest)
      have next := String.next_of_valid (front ++ piece) c rest
      have width : String.utf8Len (front ++ piece ++ [c]) =
          String.utf8Len (front ++ piece) + c.utf8Size := by
        rw [String.utf8Len_append, String.utf8Len_cons, String.utf8Len_nil, Nat.zero_add]
      have notAtEnd : ¬ String.Pos.Raw.atEnd (String.ofList (front ++ piece ++ c :: rest))
          ⟨String.utf8Len (front ++ piece)⟩ = true := by
        rw [String.atEnd_of_valid]
        exact List.cons_ne_nil c rest
      have text : front ++ piece ++ c :: rest = front ++ piece ++ [c] ++ rest := by simp
      have slash : String.Pos.Raw.get "/" 0 = '/' := by decide
      rw [String.splitOnAux.eq_1, if_neg notAtEnd, current, slash, next,
        List.splitOnPPrepend_cons_eq_if]
      by_cases separates : c = '/'
      · subst separates
        have later := ih (front ++ piece ++ ['/']) [] (String.ofList piece :: before)
        rw [List.append_nil, width, ← text] at later
        have slashNext : String.Pos.Raw.next "/" 0 = ⟨1⟩ := by decide
        have slashEnd : String.Pos.Raw.atEnd "/" ⟨1⟩ = true := by decide
        have back : String.Pos.Raw.unoffsetBy
            ⟨String.utf8Len (front ++ piece) + '/'.utf8Size⟩ ⟨1⟩ =
              ⟨String.utf8Len (front ++ piece)⟩ := rfl
        have extracted := String.extract_of_valid front piece ('/' :: rest)
        rw [← String.utf8Len_append] at extracted
        simp only [beq_self_eq_true, if_true, slashNext, slashEnd]
        rw [back, extracted, later]
        simp
      · have later := ih front (piece ++ [c]) before
        rw [← List.append_assoc, width, ← text] at later
        have other : ¬ (c == '/') = true := by simpa using separates
        have unmoved : String.Pos.Raw.unoffsetBy ⟨String.utf8Len (front ++ piece)⟩ 0 =
            ⟨String.utf8Len (front ++ piece)⟩ := rfl
        rw [if_neg other, if_neg other, unmoved, next, later]
        simp

theorem splitOn_slash (path : String) :
    path.splitOn "/" = (path.toList.splitOn '/').map String.ofList := by
  have separator : ¬ ("/" == "") = true := by decide
  have pieces := splitOnAux_slash [] [] path.toList []
  rw [List.nil_append, List.nil_append, String.ofList_toList] at pieces
  rw [String.splitOn, if_neg separator]
  exact pieces

/-! ## Names below a directory -/

/-- What an entry of a directory can be called: some text without a separator. -/
@[mk_iff]
structure IsName (name : String) : Prop where
  nonempty : name ≠ ""
  plain : '/' ∉ name.toList

/-- The path that leads from a path down along some names. -/
def below (path : String) (names : List String) : String := names.foldl join path

/-- A path up to where the names below it begin. -/
def lead (path : String) : List Char :=
  if path.endsWith "/" then path.toList else path.toList ++ ['/']

variable {path name : String}

theorem endsWith_slash_iff : path.endsWith "/" ↔ path.toList.getLast? = some '/' := by
  rw [← String.endsWith_toSlice, String.Slice.endsWith_string_iff, String.copy_toSlice]
  exact List.singleton_suffix_iff_getLast?_eq_some

theorem toList_join (nonempty : path ≠ "") (isName : IsName name) :
    (join path name).toList = lead path ++ name.toList := by
  have relative : isAbsolute name = false := by
    rw [isAbsolute, String.startsWith_string_eq_false_iff]
    exact fun leads => isName.plain (leads.subset (List.mem_singleton_self _))
  have here : path.isEmpty = false := by simpa using nonempty
  rw [join, lead, relative, here]
  by_cases ends : path.endsWith "/" <;> simp [ends]

theorem lead_join (nonempty : path ≠ "") (isName : IsName name) :
    lead (join path name) = lead path ++ (name.toList ++ ['/']) := by
  have joined := toList_join nonempty isName
  have inside : ¬ (join path name).endsWith "/" := by
    intro ends
    rw [endsWith_slash_iff, joined, List.getLast?_append] at ends
    cases last : name.toList.getLast? with
    | none => exact isName.nonempty (String.toList_eq_nil_iff.mp (List.getLast?_eq_none_iff.mp last))
    | some c =>
        rw [last, Option.some_or] at ends
        exact isName.plain (List.mem_of_getLast? (last.trans ends))
  rw [lead, if_neg inside, joined, List.append_assoc]

theorem join_ne_empty (nonempty : path ≠ "") (isName : IsName name) : join path name ≠ "" := by
  intro none
  have joined := toList_join nonempty isName
  rw [none, String.toList_empty, eq_comm, List.append_eq_nil_iff] at joined
  exact isName.nonempty (String.toList_eq_nil_iff.mp joined.2)

theorem lead_below {names : List String} (nonempty : path ≠ "") (areNames : ∀ name ∈ names, IsName name) :
    lead (below path names) = lead path ++ names.flatMap (·.toList ++ ['/']) := by
  induction names generalizing path with
  | nil => simp [below]
  | cons name rest ih =>
      obtain ⟨first, others⟩ := List.forall_mem_cons.mp areNames
      have later := ih (join_ne_empty nonempty first) others
      rw [lead_join nonempty first, List.append_assoc] at later
      exact later

theorem eq_of_append_slash {left right rest others : List Char} (leftPlain : '/' ∉ left)
    (rightPlain : '/' ∉ right) (same : left ++ '/' :: rest = right ++ '/' :: others) :
    left = right ∧ rest = others := by
  rcases List.append_eq_append_iff.mp same with ⟨more, rfl, tail⟩ | ⟨more, rfl, tail⟩ <;>
    cases more <;> simp_all

/-- Different names lead to different paths. -/
theorem below_injective {names others : List String} (nonempty : path ≠ "")
    (areNames : ∀ name ∈ names, IsName name) (othersAreNames : ∀ name ∈ others, IsName name)
    (same : below path names = below path others) : names = others := by
  have leads := congrArg lead same
  rw [lead_below nonempty areNames, lead_below nonempty othersAreNames, List.append_right_inj]
    at leads
  clear same
  induction names generalizing others with
  | nil => cases others <;> simp_all
  | cons name names ih =>
      cases others with
      | nil => simp at leads
      | cons other others =>
          obtain ⟨first, rest⟩ := List.forall_mem_cons.mp areNames
          obtain ⟨otherFirst, otherRest⟩ := List.forall_mem_cons.mp othersAreNames
          simp only [List.flatMap_cons, List.append_assoc, List.singleton_append] at leads
          obtain ⟨sameName, sameRest⟩ := eq_of_append_slash first.plain otherFirst.plain leads
          rw [String.toList_inj.mp sameName, ih rest otherRest sameRest]

end EditorLint.Path
