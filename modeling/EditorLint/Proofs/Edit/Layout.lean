import EditorLint.Edit.Application
import EditorLint.Proofs.Text.LineTable

/-!
A text laid out along a batch of edits: the text kept in front of each edit, the text that it
replaces, and what is left behind the last one. A batch can be applied exactly when the text can
be laid out along it, and the result has the replacements in the places of what they replace.
-/

namespace EditorLint.Edit

open Text

/-- An edit at its place in a text. -/
structure Spot where
  lead : List Char
  old : List Char
  edit : Edit

/-- What stands at the place of an edit when the edits in `applied` have been carried out. -/
def Spot.current (applied : List Edit) (spot : Spot) : List Char :=
  if spot.edit ∈ applied then spot.edit.text.toList else spot.old

def layout (applied : List Edit) : List Spot → List Char → List Char
  | [], tail => tail
  | spot :: spots, tail => spot.lead ++ spot.current applied ++ layout applied spots tail

/-- The edits of the spots have the ranges at which the old text stands, counted from `here`. -/
def Placed (here : Nat) : List Spot → Prop
  | [] => True
  | spot :: spots =>
    spot.edit.start = here + units spot.lead ∧
      spot.edit.stop = spot.edit.start + units spot.old ∧ Placed spot.edit.stop spots

theorem Placed.reached {here : Nat} {spots : List Spot} (placed : Placed here spots) :
    ∀ edit ∈ spots.map (·.edit), here ≤ edit.start := by
  induction spots generalizing here with
  | nil => exact List.forall_mem_nil _
  | cons spot spots ih =>
      obtain ⟨startEq, stopEq, rest⟩ := placed
      rw [List.map_cons, List.forall_mem_cons]
      refine ⟨by omega, fun edit member => ?_⟩
      have behind := ih rest edit member
      omega

theorem Placed.increasing {here : Nat} {spots : List Spot} (placed : Placed here spots) :
    (spots.map (·.edit)).Pairwise (·.start ≤ ·.start) := by
  induction spots generalizing here with
  | nil => exact List.Pairwise.nil
  | cons spot spots ih =>
      obtain ⟨-, stopEq, rest⟩ := placed
      refine List.pairwise_cons.mpr ⟨fun edit member => ?_, ih rest⟩
      have behind := rest.reached edit member
      show spot.edit.start ≤ edit.start
      omega

theorem Spot.current_eq_text {applied : List Edit} {spot : Spot}
    (member : spot.edit ∈ applied) : spot.current applied = spot.edit.text.toList := by
  simp [current, member]

@[simp] theorem Spot.current_nil (spot : Spot) : spot.current [] = spot.old := by
  simp [current]

theorem layout_append (applied : List Edit) (first second : List Spot) (tail : List Char) :
    layout applied (first ++ second) tail = layout applied first (layout applied second tail) := by
  induction first with
  | nil => rfl
  | cons spot first ih => simp [layout, ih]

theorem layout_tail (applied : List Edit) (spots : List Spot) (tail : List Char) :
    layout applied spots tail = layout applied spots [] ++ tail := by
  induction spots with
  | nil => rfl
  | cons spot spots ih => simp only [layout, ih, List.append_assoc]

theorem layout_congr (applied other : List Edit) (spots : List Spot) (tail : List Char)
    (same : ∀ spot ∈ spots, spot.edit ∈ applied ↔ spot.edit ∈ other) :
    layout applied spots tail = layout other spots tail := by
  induction spots with
  | nil => rfl
  | cons spot spots ih =>
      have head : spot.current applied = spot.current other := by
        simp only [Spot.current, same spot (by simp)]
      simp only [layout, head]
      rw [ih fun next member => same next (by simp [member])]

/-! ## Applying a batch -/

theorem piecesFrom_layout {table : LineTable} (wellFormed : table.WellFormed)
    {applied : List Edit} (front : List Char) {spots : List Spot} {tail : List Char}
    (split : table.text.toList = front ++ layout [] spots tail)
    (placed : Placed (units front) spots) (all : ∀ spot ∈ spots, spot.edit ∈ applied) :
    ∃ pieces, piecesFrom table (bytes front) (spots.map (·.edit)) = .ok pieces ∧
      pieces.flatMap (Piece.chars table.text.toList) = layout applied spots tail := by
  induction spots generalizing front with
  | nil =>
      refine ⟨_, rfl, ?_⟩
      have slice := slice?_append front tail []
      simp only [layout, List.append_nil] at split slice ⊢
      simp only [List.flatMap_singleton, Piece.chars, split, slice, Option.getD_some]
  | cons spot spots ih =>
      obtain ⟨startEq, stopEq, rest⟩ := placed
      simp only [layout, Spot.current_nil] at split
      -- Both ends of the edit are places between two characters, so the scan finds them.
      have startPlace : table.byteOffset spot.edit.start = some (bytes (front ++ spot.lead)) := by
        rw [LineTable.byteOffset_eq_some_iff_isPlace wellFormed]
        exact ⟨front ++ spot.lead, spot.old ++ layout [] spots tail, by simp [split],
          by simp [startEq]⟩
      have stopPlace : table.byteOffset spot.edit.stop =
          some (bytes (front ++ spot.lead ++ spot.old)) := by
        rw [LineTable.byteOffset_eq_some_iff_isPlace wellFormed]
        exact ⟨front ++ spot.lead ++ spot.old, layout [] spots tail, by simp [split],
          by simp [startEq, stopEq, Nat.add_assoc]⟩
      obtain ⟨pieces, scanned, flat⟩ := ih (front ++ spot.lead ++ spot.old)
        (by simp [split]) (by simpa [startEq, stopEq, Nat.add_assoc] using rest)
        (fun next member => all next (by simp [member]))
      have ordered : ¬spot.edit.stop < spot.edit.start := by omega
      have behind : ¬bytes (front ++ spot.lead) < bytes front := by simp
      refine ⟨.kept (bytes front) (bytes (front ++ spot.lead)) :: .inserted spot.edit.text :: pieces,
        ?_, ?_⟩
      · simp only [List.map_cons, piecesFrom, ordered, if_false, startPlace, stopPlace, behind]
        rw [scanned]
        rfl
      · have slice := slice?_append front spot.lead (spot.old ++ layout [] spots tail)
        rw [show front ++ spot.lead ++ (spot.old ++ layout [] spots tail) = table.text.toList by
          simp [split]] at slice
        simp only [List.flatMap_cons, flat, layout, Spot.current_eq_text (all spot (by simp)),
          Piece.chars, slice, Option.getD_some, List.append_assoc]

theorem exists_spots_of_piecesFrom {table : LineTable} (wellFormed : table.WellFormed)
    {edits : List Edit} (front back : List Char) {pieces : List Piece}
    (split : table.text.toList = front ++ back)
    (scanned : piecesFrom table (bytes front) edits = .ok pieces) :
    ∃ spots tail, spots.map (·.edit) = edits ∧ back = layout [] spots tail ∧
      Placed (units front) spots := by
  induction edits generalizing front back pieces with
  | nil => exact ⟨[], back, rfl, rfl, trivial⟩
  | cons edit edits ih =>
      simp only [piecesFrom] at scanned
      split at scanned
      · cases scanned
      · rename_i ordered
        split at scanned
        · rename_i start stop startFound stopFound
          split at scanned
          · cases scanned
          · rename_i behind
            obtain ⟨untilStart, afterStart, startSplit, startEq⟩ :=
              (LineTable.byteOffset_eq_some_iff_isPlace wellFormed _ _).mp startFound
            obtain ⟨untilStop, afterStop, stopSplit, stopEq⟩ :=
              (LineTable.byteOffset_eq_some_iff_isPlace wellFormed _ _).mp stopFound
            obtain ⟨startUnits, startBytes⟩ := LineStart.mk.inj startEq
            obtain ⟨stopUnits, stopBytes⟩ := LineStart.mk.inj stopEq
            -- The scan compares bytes with the end of the last edit, but units within this one.
            obtain ⟨lead, untilStartEq, backEq⟩ := bytes_isMeasure.split_between
              (split.symm.trans startSplit) (by omega)
            obtain ⟨old, untilStopEq, afterStartEq⟩ := units_isMeasure.split_between
              (startSplit.symm.trans stopSplit) (by omega)
            rw [stopBytes] at scanned
            cases rest : piecesFrom table (bytes untilStop) edits with
            | error error => simp [rest, Except.map] at scanned
            | ok later =>
                obtain ⟨spots, tail, mapped, laidOut, placed⟩ := ih untilStop afterStop stopSplit rest
                refine ⟨⟨lead, old, edit⟩ :: spots, tail, by simp [mapped], ?_, ?_, ?_, ?_⟩
                · simp [layout, backEq, afterStartEq, laidOut]
                · simp [startUnits, untilStartEq]
                · simp [stopUnits, untilStopEq, startUnits]
                · rw [stopUnits]
                  exact placed
        · cases scanned

/-- A batch can be applied exactly when the text can be laid out along it; the result is the
layout with the replacements in place. -/
theorem applyAll_eq_ok_iff (text : String) (edits : List Edit) (result : String) :
    applyAll text edits = .ok result ↔
      ∃ spots tail, spots.map (·.edit) = edits ∧ text.toList = layout [] spots tail ∧
        Placed 0 spots ∧ result = String.ofList (layout edits spots tail) := by
  have wellFormed := LineTable.ofText_wellFormed text
  have applied {spots : List Spot} {tail : List Char} (mapped : spots.map (·.edit) = edits)
      (laidOut : text.toList = layout [] spots tail) (placed : Placed 0 spots) :
      applyAll text edits = .ok (String.ofList (layout edits spots tail)) := by
    obtain ⟨pieces, scanned, flat⟩ := piecesFrom_layout wellFormed []
      (by simpa using laidOut) placed (fun spot member => List.mem_map_of_mem member)
    simp only [LineTable.ofText_text, bytes, mapped] at scanned flat
    simp [applyAll, scanned, flat, Except.map]
  constructor
  · intro accepted
    simp only [applyAll] at accepted
    cases scanned : piecesFrom (LineTable.ofText text) 0 edits with
    | error error => simp [scanned, Except.map] at accepted
    | ok pieces =>
        obtain ⟨spots, tail, mapped, laidOut, placed⟩ :=
          exists_spots_of_piecesFrom wellFormed [] text.toList rfl scanned
        have again := applied mapped laidOut placed
        simp only [applyAll] at again
        exact ⟨spots, tail, mapped, laidOut, placed, Except.ok.inj (accepted.symm.trans again)⟩
  · rintro ⟨spots, tail, mapped, laidOut, placed, rfl⟩
    exact applied mapped laidOut placed

theorem applyAll_singleton_eq_ok_iff (text : String) (edit : Edit) (result : String) :
    applyAll text [edit] = .ok result ↔
      ∃ front old back, text.toList = front ++ old ++ back ∧ edit.start = units front ∧
        edit.stop = units (front ++ old) ∧
        result = String.ofList (front ++ edit.text.toList ++ back) := by
  rw [applyAll_eq_ok_iff]
  constructor
  · rintro ⟨spots, tail, mapped, laidOut, placed, rfl⟩
    obtain ⟨spot, rfl, rfl⟩ := List.map_eq_singleton_iff.mp mapped
    obtain ⟨startEq, stopEq, _⟩ := placed
    refine ⟨spot.lead, spot.old, tail, by simpa [layout] using laidOut, by simpa using startEq,
      ?_, ?_⟩
    · simp [stopEq, startEq]
    · simp [layout, Spot.current]
  · rintro ⟨front, old, back, split, startEq, stopEq, rfl⟩
    refine ⟨[⟨front, old, edit⟩], back, rfl, by simpa [layout] using split, ?_, ?_⟩
    · exact ⟨by simpa using startEq, by simp [startEq, stopEq], trivial⟩
    · simp [layout, Spot.current]

/-- Edits in order that each can be applied alone have their spots in the text. -/
theorem exists_spots_of_apart (front back : List Char) {edits : List Edit}
    (apart : edits.Pairwise (·.stop < ·.start))
    (reached : ∀ edit ∈ edits, units front ≤ edit.start)
    (fits : ∀ edit ∈ edits, ∃ lead old rest, front ++ back = lead ++ old ++ rest ∧
      edit.start = units lead ∧ edit.stop = units (lead ++ old)) :
    ∃ spots tail, spots.map (·.edit) = edits ∧ back = layout [] spots tail ∧
      Placed (units front) spots := by
  induction edits generalizing front back with
  | nil => exact ⟨[], back, rfl, rfl, trivial⟩
  | cons edit edits ih =>
      obtain ⟨firstApart, restApart⟩ := List.pairwise_cons.mp apart
      obtain ⟨untilStart, old, rest, split, startEq, stopEq⟩ := fits edit (by simp)
      have before := reached edit (by simp)
      obtain ⟨lead, untilStartEq, backEq⟩ := units_isMeasure.split_between
        (split.trans (List.append_assoc ..)) (by omega)
      obtain ⟨spots, tail, mapped, laidOut, placed⟩ := ih (untilStart ++ old) rest restApart
        (fun next member => by have := firstApart next member; omega)
        (fun next member => by rw [← split]; exact fits next (by simp [member]))
      refine ⟨⟨lead, old, edit⟩ :: spots, tail, by simp [mapped], ?_, ?_, ?_, ?_⟩
      · simp [layout, backEq, laidOut]
      · simp [startEq, untilStartEq]
      · simp [stopEq, startEq]
      · rw [stopEq]
        exact placed

end EditorLint.Edit
