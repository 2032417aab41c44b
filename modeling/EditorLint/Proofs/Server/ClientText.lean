import EditorLint.Proofs.Edit.Acceptance
import EditorLint.Proofs.Edit.StableOrder
import EditorLint.Proofs.Text.Place
import EditorLint.Server.Range
import Mathlib

/-!
The text of a document in an editor. By the protocol, lines end at `\n`, `\r\n` or a lone `\r` and
at nothing else, and a character behind the end of its line stands for that end. The linter has two
more line ends, so that the server and the editor mean the same place only where none of these
stands before it.
-/

namespace EditorLint.Server

open Text

/-! ## Lines and offsets -/

structure ClientLine where
  content : List Char
  ending : List Char

def ClientLine.chars (line : ClientLine) : List Char := line.content ++ line.ending

def ClientLine.cons (c : Char) (line : ClientLine) : ClientLine :=
  { line with content := c :: line.content }

def clientLines : List Char → List ClientLine
  | [] => [⟨[], []⟩]
  | '\r' :: '\n' :: rest => ⟨[], ['\r', '\n']⟩ :: clientLines rest
  | c :: rest =>
    if c = '\n' ∨ c = '\r' then ⟨[], [c]⟩ :: clientLines rest
    else (clientLines rest).modifyHead (.cons c)

/-- The offset of a position among lines; there is none behind the last line. -/
def offsetAmong? (lines : List ClientLine) (position : Position) : Option Nat :=
  lines[position.line]?.map fun line =>
    units ((lines.take position.line).flatMap ClientLine.chars)
      + min position.character (units line.content)

def clientOffset? (chars : List Char) (position : Position) : Option Nat :=
  offsetAmong? (clientLines chars) position

theorem offsetAmong?_succ (first : ClientLine) (lines : List ClientLine) (line character : Nat) :
    offsetAmong? (first :: lines) ⟨line + 1, character⟩ =
      (offsetAmong? lines ⟨line, character⟩).map (units first.chars + ·) := by
  simp only [offsetAmong?, List.getElem?_cons_succ, List.take_succ_cons, List.flatMap_cons,
    units_append, Option.map_map, Function.comp_def, Nat.add_assoc]

theorem clientLines_ne_nil (chars : List Char) : clientLines chars ≠ [] := by
  induction chars using clientLines.induct with
  | case1 => simp [clientLines]
  | case2 rest ih => simp [clientLines]
  | case3 c rest apart ends ih => simp [clientLines, ends]
  | case4 c rest apart plain ih => simpa [clientLines, plain] using ih

theorem offsetAmong?_modifyHead (c : Char) (lines : List ClientLine) (line character : Nat) :
    offsetAmong? (lines.modifyHead (.cons c))
        ⟨line, if line = 0 then charUnits c + character else character⟩ =
      (offsetAmong? lines ⟨line, character⟩).map (charUnits c + ·) := by
  cases lines with
  | nil => rfl
  | cons first later =>
      cases line with
      | zero =>
          simp only [offsetAmong?, List.modifyHead_cons, ClientLine.cons, if_true,
            List.getElem?_cons_zero, List.take_zero, List.flatMap_nil, units, Option.map_some,
            Nat.zero_add, Nat.add_min_add_left]
      | succ line =>
          have longer : units (ClientLine.cons c first).chars =
              charUnits c + units first.chars := rfl
          rw [List.modifyHead_cons, if_neg (Nat.succ_ne_zero line), offsetAmong?_succ,
            offsetAmong?_succ, longer, Option.map_map]
          simp only [Function.comp_def, Nat.add_assoc]

theorem clientOffset?_pair (rest : List Char) (line character : Nat) :
    clientOffset? ('\r' :: '\n' :: rest) ⟨line + 1, character⟩ =
      (clientOffset? rest ⟨line, character⟩).map (2 + ·) := by
  simp only [clientOffset?, clientLines, offsetAmong?_succ]
  rfl

theorem clientOffset?_ending {c : Char} {rest : List Char} (ending : c = '\n' ∨ c = '\r')
    (alone : ¬ (c = '\r' ∧ rest.head? = some '\n')) (line character : Nat) :
    clientOffset? (c :: rest) ⟨line + 1, character⟩ =
      (clientOffset? rest ⟨line, character⟩).map (charUnits c + ·) := by
  have lines : clientLines (c :: rest) = ⟨[], [c]⟩ :: clientLines rest := by
    rw [clientLines, if_pos ending]
    rintro tail rfl rfl
    exact alone ⟨rfl, rfl⟩
  rw [clientOffset?, lines, offsetAmong?_succ]
  rfl

theorem clientOffset?_plain {c : Char} (plain : ¬ (c = '\n' ∨ c = '\r')) (rest : List Char)
    (line character : Nat) :
    clientOffset? (c :: rest) ⟨line, if line = 0 then charUnits c + character else character⟩ =
      (clientOffset? rest ⟨line, character⟩).map (charUnits c + ·) := by
  have lines : clientLines (c :: rest) = (clientLines rest).modifyHead (.cons c) := by
    rw [clientLines, if_neg plain]
    rintro tail rfl -
    exact plain (Or.inr rfl)
  rw [clientOffset?, lines, offsetAmong?_modifyHead]
  rfl

/-- A line behind another one does not start where the text does. -/
theorem clientOffset?_pos {chars : List Char} {line character offset : Nat}
    (found : clientOffset? chars ⟨line + 1, character⟩ = some offset) : 0 < offset := by
  cases chars with
  | nil => simp [clientOffset?, clientLines, offsetAmong?] at found
  | cons c rest =>
      have positive := charUnits_pos c
      by_cases ends : c = '\n' ∨ c = '\r'
      · by_cases pair : c = '\r' ∧ rest.head? = some '\n'
        · obtain ⟨rfl, next⟩ := pair
          obtain ⟨tail, rfl⟩ := List.head?_eq_some_iff.mp next
          rw [clientOffset?_pair] at found
          obtain ⟨behind, -, rfl⟩ := Option.map_eq_some_iff.mp found
          omega
        · rw [clientOffset?_ending ends pair] at found
          obtain ⟨behind, -, rfl⟩ := Option.map_eq_some_iff.mp found
          omega
      · have shifted := clientOffset?_plain ends rest (line + 1) character
        rw [if_neg (Nat.succ_ne_zero line), found] at shifted
        obtain ⟨behind, -, rfl⟩ := Option.map_eq_some_iff.mp shifted.symm
        omega

/-! ## Places -/

/-- A place that has the same line and character for the editor: none of the line ends that the
linter has alone stands before it, and it is not inside of one. -/
structure SharedPlace (front back : List Char) : Prop where
  noLineSeparator : '\u2028' ∉ front
  noParagraphSeparator : '\u2029' ∉ front
  apart : ¬ (front.getLast? = some '\r' ∧ back.head? = some '\n')

theorem sharedPlace_nil (back : List Char) : SharedPlace [] back := ⟨nofun, nofun, nofun⟩

theorem sharedPlace_cons_iff {c : Char} {front back : List Char}
    (own : ¬ (c = '\u2028' ∨ c = '\u2029'))
    (next : front = [] → ¬ (c = '\r' ∧ back.head? = some '\n')) :
    SharedPlace (c :: front) back ↔ SharedPlace front back := by
  rw [not_or] at own
  have last : (c :: front).getLast? = some '\r' ∧ back.head? = some '\n' ↔
      front.getLast? = some '\r' ∧ back.head? = some '\n' := by
    cases front with
    | nil => simpa using next rfl
    | cons d front => rw [List.getLast?_cons_cons]
  constructor
  · rintro ⟨noLine, noParagraph, apart⟩
    exact ⟨List.not_mem_of_not_mem_cons noLine, List.not_mem_of_not_mem_cons noParagraph,
      mt last.mpr apart⟩
  · rintro ⟨noLine, noParagraph, apart⟩
    exact ⟨List.not_mem_cons_of_ne_of_not_mem (Ne.symm own.1) noLine,
      List.not_mem_cons_of_ne_of_not_mem (Ne.symm own.2) noParagraph, mt last.mp apart⟩

/-- Going through a text by the line ends of the editor. -/
theorem place_induction {motive : List Char → List Char → Prop}
    (start : ∀ back, motive [] back)
    (inside : ∀ back, motive ['\r'] ('\n' :: back))
    (pair : ∀ front back, motive front back → motive ('\r' :: '\n' :: front) back)
    (ending : ∀ c front back, c = '\n' ∨ c = '\r' →
      ¬ (c = '\r' ∧ (front ++ back).head? = some '\n') → motive front back →
        motive (c :: front) back)
    (plain : ∀ c front back, ¬ (c = '\n' ∨ c = '\r') → motive front back →
      motive (c :: front) back)
    (front back : List Char) : motive front back :=
  match front with
  | [] => start back
  | c :: front => by
      by_cases ends : c = '\n' ∨ c = '\r'
      · by_cases next : c = '\r' ∧ (front ++ back).head? = some '\n'
        · obtain ⟨rfl, next⟩ := next
          cases front with
          | nil =>
              obtain ⟨tail, rfl⟩ := List.head?_eq_some_iff.mp next
              exact inside tail
          | cons d front =>
              obtain rfl : d = '\n' := by simpa using next
              exact pair front back
                (place_induction start inside pair ending plain front back)
        · exact ending c front back ends next
            (place_induction start inside pair ending plain front back)
      · exact plain c front back ends (place_induction start inside pair ending plain front back)

theorem place_pair (front back : List Char) :
    place ('\r' :: '\n' :: front) back = ((place front back).1 + 1, (place front back).2) := rfl

theorem place_ending {c : Char} {front back : List Char} (ends : c = '\n' ∨ c = '\r')
    (alone : ¬ (c = '\r' ∧ (front ++ back).head? = some '\n')) :
    place (c :: front) back = ((place front back).1 + 1, (place front back).2) := by
  have ended : endsLine c (front ++ back) := by
    rcases ends with rfl | rfl
    · rfl
    · simpa [endsLine] using alone
  simp only [place, ended, if_true]

theorem place_foreign {c : Char} (foreign : c = '\u2028' ∨ c = '\u2029') (front back : List Char) :
    place (c :: front) back = ((place front back).1 + 1, (place front back).2) := by
  rcases foreign with rfl | rfl <;> rfl

theorem place_inner {c : Char} (plain : ¬ (c = '\n' ∨ c = '\r'))
    (own : ¬ (c = '\u2028' ∨ c = '\u2029')) (front back : List Char) :
    place (c :: front) back =
      ((place front back).1,
        if (place front back).1 = 0 then charUnits c + (place front back).2
        else (place front back).2) := by
  have goesOn : endsLine c (front ++ back) = false := by
    unfold endsLine
    split <;> simp_all
  simp only [place, goesOn, Bool.false_eq_true, if_false]

theorem place_le_plain {c : Char} (plain : ¬ (c = '\n' ∨ c = '\r')) (front back : List Char) :
    (place front back).1 ≤ (place (c :: front) back).1 := by
  by_cases foreign : c = '\u2028' ∨ c = '\u2029'
  · rw [place_foreign foreign]
    exact Nat.le_succ _
  · rw [place_inner plain foreign]

/-- Lines behind that of a place start behind it. -/
theorem units_lt_of_later (front back : List Char) {later character offset : Nat}
    (behind : (place front back).1 < later)
    (found : clientOffset? (front ++ back) ⟨later, character⟩ = some offset) :
    units front < offset := by
  obtain ⟨later, rfl⟩ := Nat.exists_eq_add_one.mpr (Nat.zero_lt_of_lt behind)
  induction front, back using place_induction generalizing later offset with
  | start back => exact clientOffset?_pos found
  | inside back =>
      rw [List.singleton_append, clientOffset?_pair] at found
      obtain ⟨further, -, rfl⟩ := Option.map_eq_some_iff.mp found
      have one : units ['\r'] = 1 := rfl
      omega
  | pair front back ih =>
      rw [List.cons_append, List.cons_append, clientOffset?_pair] at found
      obtain ⟨further, located, rfl⟩ := Option.map_eq_some_iff.mp found
      rw [place_pair] at behind
      obtain ⟨later, rfl⟩ := Nat.exists_eq_add_one.mpr (by omega : 0 < later)
      have shorter := ih later (by omega) located
      have size : units ('\r' :: '\n' :: front) = 1 + (1 + units front) := rfl
      omega
  | ending c front back ends alone ih =>
      rw [List.cons_append, clientOffset?_ending ends alone] at found
      obtain ⟨further, located, rfl⟩ := Option.map_eq_some_iff.mp found
      rw [place_ending ends alone] at behind
      obtain ⟨later, rfl⟩ := Nat.exists_eq_add_one.mpr (by omega : 0 < later)
      have shorter := ih later (by omega) located
      simp only [units]
      omega
  | plain c front back plain ih =>
      have shifted := clientOffset?_plain plain (front ++ back) (later + 1) character
      rw [if_neg (Nat.succ_ne_zero later), ← List.cons_append, found] at shifted
      obtain ⟨further, located, rfl⟩ := Option.map_eq_some_iff.mp shifted.symm
      have order := place_le_plain plain front back
      have shorter := ih later (by omega) located
      simp only [units]
      omega

/-- The editor finds the place that the server means exactly where both count alike. -/
theorem clientOffset?_place_iff (front back : List Char) :
    clientOffset? (front ++ back) ⟨(place front back).1, (place front back).2⟩ =
      some (units front) ↔ SharedPlace front back := by
  have shift (size offset : Nat) (located : Option Nat) :
      located.map (size + ·) = some (size + offset) ↔ located = some offset := by
    cases located <;> simp
  induction front, back using place_induction with
  | start back =>
      refine iff_of_true ?_ (sharedPlace_nil back)
      obtain ⟨first, later, lines⟩ := List.exists_cons_of_ne_nil (clientLines_ne_nil back)
      simp [place, clientOffset?, offsetAmong?, lines, units]
  | inside back =>
      refine iff_of_false (fun found => ?_) fun shared => shared.apart ⟨rfl, rfl⟩
      cases found
  | pair front back ih =>
      have size : units ('\r' :: '\n' :: front) = 2 + units front := by
        rw [units, units, ← Nat.add_assoc]
        rfl
      have outer : SharedPlace ('\r' :: '\n' :: front) back ↔ SharedPlace ('\n' :: front) back :=
        sharedPlace_cons_iff (by decide) (by simp)
      have inner : SharedPlace ('\n' :: front) back ↔ SharedPlace front back :=
        sharedPlace_cons_iff (by decide) (by simp)
      rw [outer, inner, place_pair, List.cons_append, List.cons_append, clientOffset?_pair, size,
        shift]
      exact ih
  | ending c front back ends alone ih =>
      have own : ¬ (c = '\u2028' ∨ c = '\u2029') := by rcases ends with rfl | rfl <;> decide
      have next (empty : front = []) : ¬ (c = '\r' ∧ back.head? = some '\n') := by
        rwa [empty] at alone
      rw [sharedPlace_cons_iff own next, place_ending ends alone, List.cons_append,
        clientOffset?_ending ends alone, units, shift]
      exact ih
  | plain c front back plain ih =>
      by_cases foreign : c = '\u2028' ∨ c = '\u2029'
      · refine iff_of_false (fun found => ?_) fun shared => ?_
        · have shifted := clientOffset?_plain plain (front ++ back) ((place front back).1 + 1)
            (place front back).2
          rw [place_foreign foreign, List.cons_append] at found
          rw [if_neg (Nat.succ_ne_zero _), found, units, eq_comm, shift] at shifted
          have behind := units_lt_of_later front back (Nat.lt_succ_self _) shifted
          omega
        · rcases foreign with rfl | rfl
          · exact shared.noLineSeparator List.mem_cons_self
          · exact shared.noParagraphSeparator List.mem_cons_self
      · have next (_ : front = []) : ¬ (c = '\r' ∧ back.head? = some '\n') :=
          fun both => plain (Or.inr both.1)
        rw [sharedPlace_cons_iff foreign next, place_inner plain foreign, List.cons_append,
          clientOffset?_plain plain, units, shift]
        exact ih

/-! ## Positions of the server -/

def Narrow (lines : LineTable) (offset : Nat) : Prop :=
  (lines.positionAt offset).1 < 2 ^ 32 ∧ (lines.positionAt offset).2 < 2 ^ 32

/-- An offset whose position means the same place to the editor: that place is shared, and its line
and character have 32 bits. -/
structure Meant (text : String) (offset : Nat) : Prop where
  shared : ∃ front back, text.toList = front ++ back ∧ units front = offset ∧ SharedPlace front back
  narrow : Narrow (.ofText text) offset

theorem Narrow.ofOffset_eq {lines : LineTable} {offset : Nat} (narrow : Narrow lines offset) :
    Position.ofOffset lines offset =
      ⟨(lines.positionAt offset).1, (lines.positionAt offset).2⟩ := by
  simp only [Position.ofOffset, Nat.one_shiftLeft, Nat.mod_eq_of_lt narrow.1,
    Nat.mod_eq_of_lt narrow.2]

theorem clientOffset?_ofOffset_iff {text : String} {front back : List Char}
    (split : text.toList = front ++ back) (narrow : Narrow (.ofText text) (units front)) :
    clientOffset? text.toList (.ofOffset (.ofText text) (units front)) = some (units front) ↔
      SharedPlace front back := by
  rw [narrow.ofOffset_eq, LineTable.positionAt_units split, split]
  exact clientOffset?_place_iff front back

theorem Meant.clientOffset? {text : String} {offset : Nat} (meant : Meant text offset) :
    clientOffset? text.toList (.ofOffset (.ofText text) offset) = some offset := by
  obtain ⟨⟨front, back, split, rfl, shared⟩, narrow⟩ := meant
  exact (clientOffset?_ofOffset_iff split narrow).mpr shared

/-! ## Text edits -/

/-- The edit that a text edit stands for in a text. -/
def TextEdit.edit? (chars : List Char) (change : TextEdit) : Option Edit := do
  return ⟨← clientOffset? chars change.range.start, ← clientOffset? chars change.range.stop,
    change.newText⟩

/-- Replaces ranges of a text of which `chars` is the part from `here` on. The ranges are in order,
and none of them starts before `here`. -/
def replaceFrom? (here : Nat) (chars : List Char) : List Edit → Option (List Char)
  | [] => some chars
  | edit :: rest =>
    if here ≤ edit.start ∧ edit.start ≤ edit.stop then do
      let (kept, behind) ← cutAt? chars (edit.start - here)
      let (_, after) ← cutAt? behind (edit.stop - edit.start)
      return kept ++ edit.text.toList ++ (← replaceFrom? edit.stop after rest)
    else none

/-- What an editor makes of a text with text edits. Their ranges are all ranges of that text and
must not overlap; insertions at one place stand in the order of the list. -/
def carryOut? (chars : List Char) (changes : List TextEdit) : Option (List Char) := do
  replaceFrom? 0 chars (Edit.sortByStart (← changes.mapM (TextEdit.edit? chars)))

open Edit (Spot layout Placed)

theorem replaceFrom?_layout {applied : List Edit} {here : Nat} {spots : List Spot}
    (tail : List Char) (placed : Placed here spots) (all : ∀ spot ∈ spots, spot.edit ∈ applied) :
    replaceFrom? here (layout [] spots tail) (spots.map (·.edit)) =
      some (layout applied spots tail) := by
  induction spots generalizing here with
  | nil => rfl
  | cons spot spots ih =>
      obtain ⟨startEq, stopEq, rest⟩ := placed
      obtain ⟨first, later⟩ := List.forall_mem_cons.mp all
      have inOrder : here ≤ spot.edit.start ∧ spot.edit.start ≤ spot.edit.stop := by omega
      have startCut := cutAt?_append spot.lead (spot.old ++ layout [] spots tail)
      have stopCut := cutAt?_append spot.old (layout [] spots tail)
      rw [show units spot.lead = spot.edit.start - here by omega] at startCut
      rw [show units spot.old = spot.edit.stop - spot.edit.start by omega] at stopCut
      simp only [List.map_cons, layout, Spot.current_nil, Edit.Spot.current_eq_text first,
        List.append_assoc, replaceFrom?, inOrder, and_self, if_true, startCut, Option.bind_eq_bind,
        Option.bind_some, stopCut, ih rest later]
      rfl

theorem Meant.edit? {text : String} {edit : Edit} (start : Meant text edit.start)
    (stop : Meant text edit.stop) :
    (TextEdit.ofEdit (.ofText text) edit).edit? text.toList = some edit := by
  simp only [TextEdit.edit?, TextEdit.ofEdit, Range.ofOffsets, start.clientOffset?,
    stop.clientOffset?]
  rfl

theorem mapM_edit? {text : String} {edits : List Edit}
    (meant : ∀ edit ∈ edits, Meant text edit.start ∧ Meant text edit.stop) :
    (edits.map (TextEdit.ofEdit (.ofText text))).mapM (TextEdit.edit? text.toList) =
      some edits := by
  induction edits with
  | nil => rfl
  | cons edit edits ih =>
      obtain ⟨⟨start, stop⟩, later⟩ := List.forall_mem_cons.mp meant
      rw [List.map_cons, List.mapM_cons, start.edit? stop, ih later]
      rfl

/-- Where the editor and the server mean the same places, the text edits of a batch make of a text
what the batch makes of it. -/
theorem carryOut?_ofEdit {text result : String} {edits : List Edit}
    (applied : Edit.applyAll text edits = .ok result)
    (meant : ∀ edit ∈ edits, Meant text edit.start ∧ Meant text edit.stop) :
    carryOut? text.toList (edits.map (TextEdit.ofEdit (.ofText text))) = some result.toList := by
  obtain ⟨spots, tail, rfl, laidOut, placed, rfl⟩ := (Edit.applyAll_eq_ok_iff _ _ _).mp applied
  have carried := replaceFrom?_layout tail placed
    (fun spot member => List.mem_map_of_mem (f := Spot.edit) member)
  rw [carryOut?, mapM_edit? meant]
  simp only [Option.bind_eq_bind, Option.bind_some]
  rw [Edit.sortByStart_eq_self placed.increasing, laidOut, carried, String.toList_ofList]

end EditorLint.Server
