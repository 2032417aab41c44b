import EditorLint.Proofs.Edit.Layout
import EditorLint.Proofs.Text.Offset
import Mathlib.Data.List.Chain

/-!
Which batches of edits can be applied, which edit is named when one cannot, and what a batch makes
of a text. The scan compares bytes, and the rule is about units: what carries the argument is that
both put the places of a text in the same order.
-/

namespace EditorLint.Edit

open Text

/-- The range of an edit is one of the text. -/
structure Fits (chars : List Char) (edit : Edit) : Prop where
  ordered : edit.start ≤ edit.stop
  start_boundary : IsBoundary chars edit.start
  stop_boundary : IsBoundary chars edit.stop

/-- Every edit fits, and starts where the one before it in the batch ends or later. -/
structure Accepted (chars : List Char) (edits : List Edit) : Prop where
  fits : ∀ edit ∈ edits, Fits chars edit
  inOrder : edits.IsChain (·.stop ≤ ·.start)

/-- Replaces the range of an edit by its text. -/
def replaceRange? (edit : Edit) (chars : List Char) : Option (List Char) := do
  let (front, _) ← cutAt? chars edit.start
  let (_, back) ← cutAt? chars edit.stop
  return front ++ edit.text.toList ++ back

/-! ## The scan -/

def AcceptedFrom (chars : List Char) (reach : Nat) : List Edit → Prop
  | [] => True
  | edit :: rest => Fits chars edit ∧ reach ≤ edit.start ∧ AcceptedFrom chars edit.stop rest

theorem acceptedFrom_iff (chars : List Char) (reach : Nat) (edits : List Edit) :
    AcceptedFrom chars reach edits ↔
      Accepted chars edits ∧ ∀ first ∈ edits.head?, reach ≤ first.start := by
  induction edits generalizing reach with
  | nil => exact ⟨fun _ => ⟨⟨nofun, .nil⟩, nofun⟩, fun _ => trivial⟩
  | cons edit rest ih =>
      simp only [AcceptedFrom, ih]
      constructor
      · rintro ⟨fits, reached, ⟨restFits, inOrder⟩, behind⟩
        exact ⟨⟨List.forall_mem_cons.mpr ⟨fits, restFits⟩, List.isChain_cons.mpr ⟨behind, inOrder⟩⟩,
          by simpa using reached⟩
      · rintro ⟨⟨fits, inOrder⟩, reached⟩
        obtain ⟨here, restFits⟩ := List.forall_mem_cons.mp fits
        obtain ⟨behind, restOrder⟩ := List.isChain_cons.mp inOrder
        exact ⟨here, reached edit rfl, ⟨restFits, restOrder⟩, behind⟩

theorem accepted_iff (chars : List Char) (edits : List Edit) :
    Accepted chars edits ↔ AcceptedFrom chars 0 edits := by
  rw [acceptedFrom_iff]
  exact ⟨fun accepted => ⟨accepted, fun _ _ => Nat.zero_le _⟩, And.left⟩

variable {table : LineTable}

theorem piecesFrom_cons_of_fits (wellFormed : table.WellFormed) {front back : List Char}
    (split : table.text.toList = front ++ back) {edit : Edit} (fits : Fits table.text.toList edit)
    (reached : units front ≤ edit.start) (rest : List Edit) :
    ∃ untilStop afterStop start, table.text.toList = untilStop ++ afterStop ∧
      units untilStop = edit.stop ∧
      piecesFrom table (bytes front) (edit :: rest) =
        (piecesFrom table (bytes untilStop) rest).map fun pieces =>
          .kept (bytes front) start :: .inserted edit.text :: pieces := by
  obtain ⟨untilStop, afterStop, stopSplit, stopUnits⟩ :=
    (isBoundary_iff_exists_split _ _).mp fits.stop_boundary
  obtain ⟨start, startFound⟩ := LineTable.exists_byteOffset wellFormed fits.start_boundary
  have stopFound : table.byteOffset edit.stop = some (bytes untilStop) :=
    (LineTable.byteOffset_eq_some_iff_isPlace wellFormed _ _).mpr
      ⟨untilStop, afterStop, stopSplit, by rw [stopUnits]⟩
  have startPlace := (LineTable.byteOffset_eq_some_iff_isPlace wellFormed _ _).mp startFound
  have frontPlace : IsPlace table.text.toList ⟨units front, bytes front⟩ := ⟨front, back, split, rfl⟩
  have behind : ¬start < bytes front :=
    mt (startPlace.bytes_lt_iff frontPlace).mp (Nat.not_lt.mpr reached)
  refine ⟨untilStop, afterStop, start, stopSplit, stopUnits, ?_⟩
  simp only [piecesFrom, Nat.not_lt.mpr fits.ordered, startFound, stopFound, behind, if_false]

theorem piecesFrom_cons_of_misfit (wellFormed : table.WellFormed) {front back : List Char}
    (split : table.text.toList = front ++ back) {edit : Edit}
    (misfit : ¬(Fits table.text.toList edit ∧ units front ≤ edit.start)) (rest : List Edit) :
    piecesFrom table (bytes front) (edit :: rest) = .error (.invalidEdit edit.start edit.stop) := by
  by_cases ordered : edit.stop < edit.start
  · simp only [piecesFrom, ordered, if_true]
  cases startFound : table.byteOffset edit.start with
  | none => simp only [piecesFrom, ordered, startFound, if_false]
  | some start =>
      cases stopFound : table.byteOffset edit.stop with
      | none => simp only [piecesFrom, ordered, startFound, stopFound, if_false]
      | some stop =>
          have early : edit.start < units front := by
            rw [← Nat.not_le]
            exact fun reached => misfit
              ⟨⟨Nat.not_lt.mp ordered, LineTable.byteOffset_isBoundary wellFormed startFound,
                LineTable.byteOffset_isBoundary wellFormed stopFound⟩, reached⟩
          have startPlace := (LineTable.byteOffset_eq_some_iff_isPlace wellFormed _ _).mp startFound
          have frontPlace : IsPlace table.text.toList ⟨units front, bytes front⟩ :=
            ⟨front, back, split, rfl⟩
          have before : start < bytes front := (startPlace.bytes_lt_iff frontPlace).mpr early
          simp only [piecesFrom, ordered, startFound, stopFound, before, if_false, if_true]

/-- A scan either accepts all edits or names the first one that it cannot accept. -/
theorem piecesFrom_accepts (wellFormed : table.WellFormed) (front back : List Char)
    (split : table.text.toList = front ++ back) (edits : List Edit) :
    match piecesFrom table (bytes front) edits with
    | .ok _ => AcceptedFrom table.text.toList (units front) edits
    | .error error => ∃ before edit after, edits = before ++ edit :: after ∧
        AcceptedFrom table.text.toList (units front) before ∧
        ¬AcceptedFrom table.text.toList (units front) (before ++ [edit]) ∧
        error = .invalidEdit edit.start edit.stop := by
  induction edits generalizing front back with
  | nil => trivial
  | cons edit rest ih =>
      by_cases good : Fits table.text.toList edit ∧ units front ≤ edit.start
      · obtain ⟨fits, reached⟩ := good
        obtain ⟨untilStop, afterStop, start, stopSplit, stopUnits, scanned⟩ :=
          piecesFrom_cons_of_fits wellFormed split fits reached rest
        have later := ih untilStop afterStop stopSplit
        rw [scanned]
        rw [stopUnits] at later
        cases outcome : piecesFrom table (bytes untilStop) rest with
        | ok pieces =>
            rw [outcome] at later
            exact ⟨fits, reached, later⟩
        | error error =>
            rw [outcome] at later
            obtain ⟨before, misfit, after, rfl, accepted, refused, named⟩ := later
            exact ⟨edit :: before, misfit, after, rfl, ⟨fits, reached, accepted⟩,
              fun all => refused all.2.2, named⟩
      · rw [piecesFrom_cons_of_misfit wellFormed split good rest]
        exact ⟨[], edit, rest, rfl, trivial, fun all => good ⟨all.1, all.2.1⟩, rfl⟩

/-! ## From the last edit to the first -/

theorem replaceRange?_append (front old back : List Char) {edit : Edit}
    (start_eq : edit.start = units front) (stop_eq : edit.stop = units (front ++ old)) :
    replaceRange? edit (front ++ old ++ back) = some (front ++ edit.text.toList ++ back) := by
  have startCut := cutAt?_append front (old ++ back)
  have stopCut := cutAt?_append (front ++ old) back
  rw [← List.append_assoc] at startCut
  simp only [replaceRange?, start_eq, stop_eq, startCut, stopCut]
  rfl

/-- The edits behind a spot are replaced first, so that nothing before it has moved. -/
theorem foldrM_replaceRange?_layout {applied : List Edit} (front tail : List Char)
    {spots : List Spot} (placed : Placed (units front) spots)
    (all : ∀ spot ∈ spots, spot.edit ∈ applied) :
    (spots.map (·.edit)).foldrM replaceRange? (front ++ layout [] spots tail) =
      some (front ++ layout applied spots tail) := by
  induction spots generalizing front with
  | nil => rfl
  | cons spot spots ih =>
      obtain ⟨startEq, stopEq, rest⟩ := placed
      obtain ⟨here, later⟩ := List.forall_mem_cons.mp all
      have untilStop : spot.edit.stop = units (front ++ spot.lead ++ spot.old) := by
        simp only [units_append]
        omega
      have behind := ih (front ++ spot.lead ++ spot.old) (by rwa [← untilStop]) later
      have replaced := replaceRange?_append (front ++ spot.lead) spot.old (layout applied spots tail)
        (by simpa using startEq) untilStop
      simp only [List.append_assoc] at behind replaced
      simp only [List.map_cons, List.foldrM_cons, layout, Spot.current_nil,
        Spot.current_eq_text here, List.append_assoc, behind]
      exact replaced

/-! ## Applying a batch -/

theorem Accepted.front {chars : List Char} {before after : List Edit}
    (accepted : Accepted chars (before ++ after)) : Accepted chars before where
  fits edit member := accepted.fits edit (List.mem_append_left _ member)
  inOrder := (List.isChain_append.mp accepted.inOrder).1

theorem applyAll_accepts (text : String) (edits : List Edit) :
    match applyAll text edits with
    | .ok _ => Accepted text.toList edits
    | .error error => ∃ before edit after, edits = before ++ edit :: after ∧
        Accepted text.toList before ∧ ¬Accepted text.toList (before ++ [edit]) ∧
        error = .invalidEdit edit.start edit.stop := by
  have scanned := piecesFrom_accepts (LineTable.ofText_wellFormed text) [] text.toList rfl edits
  simp only [bytes, units, LineTable.ofText_text, ← accepted_iff] at scanned
  rw [applyAll]
  cases outcome : piecesFrom (LineTable.ofText text) 0 edits with
  | ok pieces =>
      rw [outcome] at scanned
      exact scanned
  | error error =>
      rw [outcome] at scanned
      exact scanned

theorem exists_applyAll_iff (text : String) (edits : List Edit) :
    (∃ result, applyAll text edits = .ok result) ↔ Accepted text.toList edits := by
  have accepts := applyAll_accepts text edits
  cases applied : applyAll text edits with
  | ok result =>
      rw [applied] at accepts
      exact ⟨fun _ => accepts, fun _ => ⟨result, rfl⟩⟩
  | error error =>
      rw [applied] at accepts
      refine ⟨nofun, fun all => ?_⟩
      obtain ⟨before, edit, after, rfl, -, refused, -⟩ := accepts
      rw [List.append_cons] at all
      exact absurd all.front refused

theorem accepted_singleton_iff {chars : List Char} {edit : Edit} :
    Accepted chars [edit] ↔ Fits chars edit :=
  ⟨fun accepted => accepted.fits edit List.mem_cons_self,
    fun fits => ⟨List.forall_mem_singleton.mpr fits, .singleton edit⟩⟩

theorem accepted_iff_of_apart {chars : List Char} {edits : List Edit}
    (apart : edits.Pairwise (·.stop < ·.start)) :
    Accepted chars edits ↔ ∀ edit ∈ edits, Fits chars edit :=
  ⟨fun accepted => accepted.fits, fun fits =>
    ⟨fits, (apart.imp fun less => Nat.le_of_lt less).isChain⟩⟩

/-- A batch can be applied exactly when every edit has a range of the text, and starts where the
one before it ends or later. Applying it replaces the ranges one at a time, from the last edit to
the first; a batch that is refused is refused for the first edit that does not go with those
before it. -/
theorem applyAll_replaces_from_last (text : String) (edits : List Edit) :
    ((∃ result, applyAll text edits = .ok result) ↔ Accepted text.toList edits) ∧
    match applyAll text edits with
    | .ok result => edits.foldrM replaceRange? text.toList = some result.toList
    | .error error => ∃ before edit after, edits = before ++ edit :: after ∧
        Accepted text.toList before ∧ ¬Accepted text.toList (before ++ [edit]) ∧
        error = .invalidEdit edit.start edit.stop := by
  have accepts := applyAll_accepts text edits
  cases applied : applyAll text edits with
  | ok result =>
      rw [applied] at accepts
      obtain ⟨spots, tail, rfl, laidOut, placed, rfl⟩ := (applyAll_eq_ok_iff _ _ _).mp applied
      have replaced := foldrM_replaceRange?_layout [] tail placed
        (fun spot member => List.mem_map_of_mem member)
      refine ⟨⟨fun _ => accepts, fun _ => ⟨_, rfl⟩⟩, ?_⟩
      simpa only [laidOut, List.nil_append, String.toList_ofList] using replaced
  | error error =>
      rw [applied] at accepts
      refine ⟨⟨nofun, fun all => ?_⟩, accepts⟩
      obtain ⟨before, edit, after, rfl, -, refused, -⟩ := accepts
      rw [List.append_cons] at all
      exact absurd all.front refused

/-- Insertions at one offset stand in the order of the batch. -/
example : applyAll "ab" [.insertion 1 "x", .insertion 1 "y"] = .ok "axyb" := by cbv

end EditorLint.Edit
