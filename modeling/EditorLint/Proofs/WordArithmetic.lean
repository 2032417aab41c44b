import EditorLint.Proofs.Service.Stages
import EditorLint.Proofs.Text.PlainScan
import EditorLint.Proofs.Text.RoundTrip
import Mathlib

/-!
The place of a finding computed with words of 64 bits. Every sum and every difference is checked;
none of them wraps, so that the words come to what the numbers come to.
-/

namespace EditorLint

open Text

/-! ## Words -/

namespace Word

def sum? (left right : Nat) : Option Nat :=
  if left + right < 2 ^ 64 then some (left + right) else none

def difference? (left right : Nat) : Option Nat :=
  if right ≤ left then some (left - right) else none

/-- A signed number taken as a word. -/
def ofSigned? (value : Int) : Option Nat :=
  if 0 ≤ value ∧ value < 2 ^ 64 then some value.toNat else none

/-- A line or column that counts from one, counted from zero. Less than one stands for one. -/
def zeroBased? (value : Int) : Option Nat := do
  let clamped ← ofSigned? (max value 1)
  difference? clamped 1

theorem sum?_of_lt {left right : Nat} (bound : left + right < 2 ^ 64) :
    sum? left right = some (left + right) := if_pos bound

theorem difference?_of_le {left right : Nat} (order : right ≤ left) :
    difference? left right = some (left - right) := if_pos order

/-- A number that fits in 64 bits with a sign. -/
def IsSigned (value : Int) : Prop := -2 ^ 63 ≤ value ∧ value < 2 ^ 63

theorem zeroBased?_of_isSigned {value : Int} (signed : IsSigned value) :
    zeroBased? value = some (oneBased value - 1) ∧ oneBased value - 1 < 2 ^ 63 := by
  obtain ⟨-, upper⟩ := signed
  have fits : 0 ≤ max value 1 ∧ max value 1 < 2 ^ 64 := by omega
  have counted : 1 ≤ (max value 1).toNat := by omega
  constructor
  · simp only [zeroBased?, ofSigned?, if_pos fits, Option.bind_eq_bind, Option.bind_some]
    exact difference?_of_le counted
  · unfold oneBased
    omega

theorem isSigned_of_signed? {value : Json.Value} {number : Int}
    (read : value.signed? 64 = some number) : IsSigned number := by
  unfold Json.Value.signed? Json.Value.integerWithin? at read
  split at read
  · obtain ⟨⟨lower, upper⟩, same⟩ := Option.ite_none_right_eq_some.mp read
    obtain rfl := Option.some.inj same
    have half : (1 <<< (64 - 1) : Nat) = 2 ^ 63 := rfl
    rw [half] at lower upper
    constructor <;> omega
  · cases read

theorem isSigned_of_optional {field : Option Json.Value} {number : Option Int}
    (read : Json.optional (·.signed? 64) field = some number) :
    ∀ value ∈ number, IsSigned value := by
  rintro value rfl
  cases field with
  | none => cases read
  | some given =>
      rw [Json.optional, Json.defaulted] at read
      unfold Json.Value.nullable? at read
      split at read
      · cases read
      · obtain ⟨number, decoded, same⟩ := Option.map_eq_some_iff.mp read
        obtain rfl := Option.some.inj same
        exact isSigned_of_signed? decoded

end Word

/-! ## The line table -/

/-- The starts of the lines after the first, and the end of the text. -/
def checkedLineStarts (here : LineStart) : List Char → Option (List LineStart × LineStart)
  | [] => some ([], here)
  | c :: rest => do
    let units ← Word.sum? here.units (charUnits c)
    let bytes ← Word.sum? here.bytes c.utf8Size
    let (later, stop) ← checkedLineStarts ⟨units, bytes⟩ rest
    return (if endsLine c rest then ⟨units, bytes⟩ :: later else later, stop)

theorem charUnits_le_utf8Size (c : Char) : charUnits c ≤ c.utf8Size := by
  have positive := c.utf8Size_pos
  by_cases small : c.toNat < 0x10000
  · rw [charUnits, if_pos small]
    exact positive
  · have several : c.utf8Size ≠ 1 := by
      intro single
      have bound : c.toNat ≤ 127 := Char.utf8Size_eq_one_iff.mp single
      omega
    rw [charUnits, if_neg small]
    omega

theorem units_le_bytes (chars : List Char) : units chars ≤ bytes chars := by
  induction chars with
  | nil => exact Nat.le_refl _
  | cons c rest ih => exact Nat.add_le_add (charUnits_le_utf8Size c) ih

theorem checkedLineStarts_eq {here : LineStart} {chars : List Char}
    (units_lt : here.units + units chars < 2 ^ 64) (bytes_lt : here.bytes + bytes chars < 2 ^ 64) :
    checkedLineStarts here chars = some (laterLineStarts here chars, here.after chars) := by
  induction chars generalizing here with
  | nil => rfl
  | cons c rest ih =>
      simp only [units, bytes] at units_lt bytes_lt
      have later := @ih ⟨here.units + charUnits c, here.bytes + c.utf8Size⟩ (by simp only; omega)
        (by simp only; omega)
      have stop : here.after (c :: rest) =
          LineStart.after ⟨here.units + charUnits c, here.bytes + c.utf8Size⟩ rest := by
        simp only [LineStart.after, units, bytes, Nat.add_assoc]
      rw [stop]
      have unitSum : Word.sum? here.units (charUnits c) = _ := Word.sum?_of_lt (by omega)
      have byteSum : Word.sum? here.bytes c.utf8Size = _ := Word.sum?_of_lt (by omega)
      simp only [checkedLineStarts, laterLineStarts, unitSum, byteSum, later, Option.bind_eq_bind,
        Option.bind_some]
      rfl

namespace LineTable

def checkedOfText (text : String) : Option LineTable := do
  let (later, stop) ← checkedLineStarts ⟨0, 0⟩ text.toList
  return { text, starts := (⟨0, 0⟩ :: later).toArray, length := stop.units }

/-- The offset of a position, or none outside of the text. -/
def checkedOffsetAt (table : LineTable) (line character : Nat) : Option (Option Nat) :=
  match table.starts[line]? with
  | none => some none
  | some start => do
    let next ← Word.sum? line 1
    let offset ← Word.sum? start.units character
    let limit := (table.starts[next]?.map (·.units)).getD table.length
    return if offset ≤ limit then some offset else none

def checkedPositionOf (table : LineTable) (file : String) (line character : Nat) :
    Option (Except LintError Nat) := do
  match ← table.checkedOffsetAt line character with
  | some offset => return .ok offset
  | none => return .error (.positionOutOfRange file line character)

variable {text : String} {line character : Nat}

theorem length_lt_of_short (short : text.utf8ByteSize ≤ 2 ^ 63 - 1) :
    units text.toList < 2 ^ 63 ∧ bytes text.toList < 2 ^ 63 := by
  rw [utf8ByteSize_eq_bytes] at short
  have fewer := units_le_bytes text.toList
  omega

theorem checkedOfText_eq (short : text.utf8ByteSize ≤ 2 ^ 63 - 1) :
    checkedOfText text = some (ofText text) := by
  obtain ⟨units_lt, bytes_lt⟩ := length_lt_of_short short
  have scanned : checkedLineStarts ⟨0, 0⟩ text.toList = _ :=
    checkedLineStarts_eq (by simp only; omega) (by simp only; omega)
  simp only [checkedOfText, scanned, Option.bind_eq_bind, Option.bind_some, LineStart.after,
    Nat.zero_add]
  rfl

theorem checkedOffsetAt_eq (short : text.utf8ByteSize ≤ 2 ^ 63 - 1) (line_lt : line < 2 ^ 63)
    (character_lt : character < 2 ^ 63) :
    (ofText text).checkedOffsetAt line character = some ((ofText text).offsetAt line character) := by
  unfold checkedOffsetAt offsetAt
  cases atLine : (ofText text).starts[line]? with
  | none => rfl
  | some start =>
      have bound := units_le_length (ofText_wellFormed text) atLine
      have length_eq : (ofText text).length = units text.toList := rfl
      have units_lt := (length_lt_of_short short).1
      have next : Word.sum? line 1 = _ := Word.sum?_of_lt (by omega)
      have offset : Word.sum? start.units character = _ := Word.sum?_of_lt (by omega)
      simp only [next, offset, Option.bind_eq_bind, Option.bind_some]
      rfl

theorem checkedPositionOf_eq (file : String) (short : text.utf8ByteSize ≤ 2 ^ 63 - 1)
    (line_lt : line < 2 ^ 63) (character_lt : character < 2 ^ 63) :
    (ofText text).checkedPositionOf file line character =
      some ((ofText text).positionOf file line character) := by
  rw [checkedPositionOf, checkedOffsetAt_eq short line_lt character_lt]
  simp only [positionOf, Option.bind_eq_bind, Option.bind_some]
  cases (ofText text).offsetAt line character <;> rfl

end LineTable

/-- A line of a text has room for a character at a place, or ends there. -/
def Text.HasPosition (chars : List Char) (line character : Nat) : Prop :=
  ∃ content, (lines chars)[line]? = some content ∧ character ≤ units content

/-! ## The diagnostic -/

namespace Finding

/-- All numbers of a finding that stand for lines and columns fit in 64 bits with a sign. -/
structure IsSigned (finding : Finding) : Prop where
  line : Word.IsSigned finding.line
  column : Word.IsSigned finding.column
  endLine : ∀ value ∈ finding.endLine, Word.IsSigned value
  endColumn : ∀ value ∈ finding.endColumn, Word.IsSigned value

/-- The diagnostic of a finding with its start and its stop. -/
def checkedDiagnostic (finding : Finding) (file : String) (table : LineTable)
    (forceWarnings : Bool) : Option (Except LintError (Diagnostic × Nat × Nat)) := do
  let line ← Word.zeroBased? finding.line
  let column ← Word.zeroBased? finding.column
  match ← table.checkedPositionOf file line column with
  | .error error => return .error error
  | .ok start =>
    let endLine ← Word.zeroBased? (finding.endLine.getD finding.line)
    let endColumn ← Word.zeroBased? (finding.endColumn.getD finding.column)
    match ← table.checkedPositionOf file endLine endColumn with
    | .error error => return .error error
    | .ok position =>
      let stop := max position start
      let length ← Word.difference? stop start
      let diagnostic : Diagnostic :=
        { file, start, length
          message := finding.displayMessage
          category := finding.category forceWarnings
          source := some diagnosticSource
          code := diagnosticCode }
      return .ok (diagnostic, start, stop)

variable {finding : Finding} {text : String}

/-- A finding that has been read has such numbers. -/
theorem isSigned_of_ofValue? {value : Json.Value} (read : ofValue? value = some finding) :
    finding.IsSigned := by
  obtain ⟨fields, -, read⟩ := Option.bind_eq_some_iff.mp read
  unfold ofFields? at read
  split at read
  · simp only [Option.bind_eq_bind, Option.bind_eq_some_iff, Option.pure_def, Option.some.injEq]
      at read
    obtain ⟨line, lineRead, column, columnRead, endLine, endLineRead, endColumn, endColumnRead, _, _,
      _, _, _, _, _, _, rfl⟩ := read
    obtain ⟨_, _, lineDecoded⟩ := Option.bind_eq_some_iff.mp lineRead
    obtain ⟨_, _, columnDecoded⟩ := Option.bind_eq_some_iff.mp columnRead
    exact ⟨Word.isSigned_of_signed? lineDecoded, Word.isSigned_of_signed? columnDecoded,
      Word.isSigned_of_optional endLineRead, Word.isSigned_of_optional endColumnRead⟩
  · cases read

theorem IsSigned.stop (signed : finding.IsSigned) :
    Word.IsSigned (finding.endLine.getD finding.line) ∧
      Word.IsSigned (finding.endColumn.getD finding.column) := by
  constructor
  · cases given : finding.endLine with
    | none => exact signed.line
    | some value => exact signed.endLine value given
  · cases given : finding.endColumn with
    | none => exact signed.column
    | some value => exact signed.endColumn value given

theorem checkedDiagnostic_eq (signed : finding.IsSigned) (short : text.utf8ByteSize ≤ 2 ^ 63 - 1)
    (file : String) (forceWarnings : Bool) :
    let table := LineTable.ofText text
    finding.checkedDiagnostic file table forceWarnings =
      some ((finding.toDiagnostic file (table.positionOf file) forceWarnings).map
        fun diagnostic => (diagnostic, diagnostic.start, diagnostic.stop)) := by
  intro table
  obtain ⟨line_eq, line_lt⟩ := Word.zeroBased?_of_isSigned signed.line
  obtain ⟨column_eq, column_lt⟩ := Word.zeroBased?_of_isSigned signed.column
  obtain ⟨endLine_eq, endLine_lt⟩ := Word.zeroBased?_of_isSigned signed.stop.1
  obtain ⟨endColumn_eq, endColumn_lt⟩ := Word.zeroBased?_of_isSigned signed.stop.2
  have startPosition := LineTable.checkedPositionOf_eq file short line_lt column_lt
  have stopPosition := LineTable.checkedPositionOf_eq file short endLine_lt endColumn_lt
  simp only [checkedDiagnostic, line_eq, column_eq, endLine_eq, endColumn_eq, table, startPosition,
    stopPosition, Option.bind_eq_bind, Option.bind_some]
  unfold toDiagnostic startLine startColumn stopLine stopColumn
  cases (LineTable.ofText text).positionOf file (oneBased finding.line - 1)
      (oneBased finding.column - 1) with
  | error error => rfl
  | ok start =>
      cases (LineTable.ofText text).positionOf file
          (oneBased (finding.endLine.getD finding.line) - 1)
          (oneBased (finding.endColumn.getD finding.column) - 1) with
      | error error => rfl
      | ok position =>
          have behind : start ≤ max position start := Nat.le_max_right _ _
          have length : Word.difference? (max position start) start = _ :=
            Word.difference?_of_le behind
          have stop : start + (max position start - start) = max position start := by omega
          simp only [length, Option.bind_some]
          simp only [bind, Except.bind, pure, Except.pure, Except.map, Diagnostic.stop, stop]

theorem exists_positionOf_iff {file : String} {line character : Nat} :
    (∃ offset, (LineTable.ofText text).positionOf file line character = .ok offset) ↔
      HasPosition text.toList line character := by
  simp only [LineTable.positionOf_eq_ok_iff]
  exact LineTable.exists_offsetAt_iff

theorem positionOf_eq_error_iff {file : String} {line character : Nat} {error : LintError} :
    (LineTable.ofText text).positionOf file line character = .error error ↔
      ¬HasPosition text.toList line character ∧
        error = .positionOutOfRange file line character := by
  rw [← @exists_positionOf_iff text file, LineTable.positionOf]
  cases (LineTable.ofText text).offsetAt line character <;> simp [eq_comm]

theorem toDiagnostic_spans {file : String} {forceWarnings : Bool} {diagnostic : Diagnostic}
    {positionOf : Nat → Nat → Except LintError Nat}
    (built : finding.toDiagnostic file positionOf forceWarnings = .ok diagnostic) :
    positionOf (finding.startLine - 1) (finding.startColumn - 1) = .ok diagnostic.start ∧
      ∃ position, positionOf (finding.stopLine - 1) (finding.stopColumn - 1) = .ok position ∧
        diagnostic.stop = max diagnostic.start position := by
  obtain ⟨⟨start, startPlaced⟩, ⟨position, stopPlaced⟩⟩ :=
    (exists_toDiagnostic_iff file forceWarnings).mp ⟨diagnostic, built⟩
  rw [toDiagnostic, startPlaced, stopPlaced] at built
  obtain rfl := Except.ok.inj built
  refine ⟨startPlaced, position, stopPlaced, ?_⟩
  simp only [Diagnostic.stop]
  omega

/-- Building the diagnostic of a finding is safe. Computed with words of 64 bits, it comes to the
same without wrapping. It succeeds exactly if both ends of the finding are positions of the text,
and then the diagnostic goes from the start to the larger of both offsets; else the error names the
first of them that is none. -/
theorem toDiagnostic_within_words (signed : finding.IsSigned)
    (short : text.utf8ByteSize ≤ 2 ^ 63 - 1) (file : String) (forceWarnings : Bool) :
    let table := LineTable.ofText text
    let built := finding.toDiagnostic file (table.positionOf file) forceWarnings
    let startsInText := HasPosition text.toList (finding.startLine - 1) (finding.startColumn - 1)
    let stopsInText := HasPosition text.toList (finding.stopLine - 1) (finding.stopColumn - 1)
    LineTable.checkedOfText text = some table ∧
      finding.checkedDiagnostic file table forceWarnings =
        some (built.map fun diagnostic => (diagnostic, diagnostic.start, diagnostic.stop)) ∧
      ((∃ diagnostic, built = .ok diagnostic) ↔ startsInText ∧ stopsInText) ∧
      (∀ diagnostic, built = .ok diagnostic →
        Word.sum? diagnostic.start diagnostic.length = some diagnostic.stop ∧
        table.offsetAt (finding.startLine - 1) (finding.startColumn - 1) = some diagnostic.start ∧
        (∃ offset, table.offsetAt (finding.stopLine - 1) (finding.stopColumn - 1) = some offset ∧
          diagnostic.stop = max diagnostic.start offset) ∧
        (finding.endLine = none → finding.endColumn = none → diagnostic.stop = diagnostic.start) ∧
        diagnostic.start ≤ diagnostic.stop ∧ diagnostic.stop ≤ table.length) ∧
      ∀ error, built = .error error ↔
        ¬startsInText ∧ error =
          .positionOutOfRange file (finding.startLine - 1) (finding.startColumn - 1) ∨
        startsInText ∧ ¬stopsInText ∧ error =
          .positionOutOfRange file (finding.stopLine - 1) (finding.stopColumn - 1) := by
  intro table built startsInText stopsInText
  refine ⟨LineTable.checkedOfText_eq short, checkedDiagnostic_eq signed short file forceWarnings,
    ?_, ?_, ?_⟩
  · rw [exists_toDiagnostic_iff]
    constructor
    · intro placed
      exact ⟨exists_positionOf_iff.mp placed.start, exists_positionOf_iff.mp placed.stop⟩
    · rintro ⟨start, stop⟩
      exact ⟨exists_positionOf_iff.mpr start, exists_positionOf_iff.mpr stop⟩
  · intro diagnostic found
    obtain ⟨startPlaced, position, stopPlaced, stop_eq⟩ := toDiagnostic_spans found
    have bound := (toDiagnostic_eq_ok found).2.bound
    have length_lt : table.length < 2 ^ 63 := (LineTable.length_lt_of_short short).1
    refine ⟨?_, LineTable.positionOf_eq_ok_iff.mp startPlaced,
      ⟨position, LineTable.positionOf_eq_ok_iff.mp stopPlaced, stop_eq⟩, ?_,
      diagnostic.start_le_stop, bound⟩
    · apply Word.sum?_of_lt
      exact Nat.lt_trans (Nat.lt_of_le_of_lt bound length_lt) (by decide)
    · intro noLine noColumn
      have same : position = diagnostic.start := by
        simp only [stopLine, stopColumn, noLine, noColumn, Option.getD_none] at stopPlaced
        exact Except.ok.inj (stopPlaced.symm.trans startPlaced)
      rw [stop_eq, same, Nat.max_self]
  · intro error
    rw [toDiagnostic_eq_error_iff]
    constructor
    · intro misplaced
      cases misplaced with
      | start failed => exact Or.inl (positionOf_eq_error_iff.mp failed)
      | stop placed failed =>
          exact Or.inr ⟨exists_positionOf_iff.mp ⟨_, placed⟩, positionOf_eq_error_iff.mp failed⟩
    · rintro (failed | ⟨placed, failed⟩)
      · exact .start (positionOf_eq_error_iff.mpr failed)
      · obtain ⟨offset, found⟩ := (@exists_positionOf_iff text file _ _).mpr placed
        exact .stop found (positionOf_eq_error_iff.mpr failed)

/-- The lowest numbers stand for the first line and column. -/
theorem toDiagnostic_within_words_lowest :
    let finding : Finding :=
      { line := -2 ^ 63, column := -2 ^ 63, endColumn := some 2, message := "Unexpected var." }
    let diagnostic : Diagnostic :=
      ⟨"a.js", 0, 1, "Unexpected var.", .error, some diagnosticSource, diagnosticCode⟩
    finding.IsSigned ∧ "var a".utf8ByteSize ≤ 2 ^ 63 - 1 ∧
      finding.checkedDiagnostic "a.js" (LineTable.ofText "var a") false =
        some (.ok (diagnostic, 0, 1)) ∧
      HasPosition "var a".toList 0 0 ∧ HasPosition "var a".toList 0 1 ∧
      Word.sum? diagnostic.start diagnostic.length = some 1 := by
  intro finding diagnostic
  have signed : finding.IsSigned := by
    constructor
    · exact ⟨by decide, by decide⟩
    · exact ⟨by decide, by decide⟩
    · nofun
    · rintro value same
      obtain rfl : 2 = value := Option.some.inj same
      exact ⟨by decide, by decide⟩
  have short : "var a".utf8ByteSize ≤ 2 ^ 63 - 1 := by decide
  have built : finding.toDiagnostic "a.js" ((LineTable.ofText "var a").positionOf "a.js") false =
      .ok diagnostic := by cbv
  obtain ⟨-, checked, exists_iff, spans, -⟩ := toDiagnostic_within_words signed short "a.js" false
  rw [built] at checked
  obtain ⟨starts, stops⟩ := exists_iff.mp ⟨diagnostic, built⟩
  exact ⟨signed, short, checked, starts, stops, (spans diagnostic built).1⟩

end Finding

end EditorLint
