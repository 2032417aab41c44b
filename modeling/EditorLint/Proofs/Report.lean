import EditorLint.Report
import EditorLint.Proofs.Json.RoundTrip
import EditorLint.Proofs.Json.Change
import EditorLint.Proofs.WordArithmetic
import Mathlib

/-!
A report is read the same however it is printed: as an object or as a bare array of results, with
unknown members, in any order of the members, and with or without the members that hold defaults.
-/

namespace EditorLint

open Json (Value Raw RecordReader ItemsChange)

/-! ## Fields -/

namespace Json

section Fields

variable {α : Type} {decode : Value → Option α}

theorem defaulted_or {fallback : α} {value : Value} (means : decode value = some fallback)
    (held : Option Value) :
    defaulted fallback decode (held.or (some value)) = defaulted fallback decode held := by
  cases held with
  | none => exact means
  | some held => rfl

theorem defaulted_or_nil (held : Option Value) :
    defaulted [] (Value.list? decode) (held.or (some (.array []))) =
      defaulted [] (Value.list? decode) held :=
  defaulted_or (show Value.list? decode (.array []) = some [] from rfl) held

theorem optional_or (held : Option Value) :
    optional decode (held.or (some .null)) = optional decode held :=
  defaulted_or (show Value.nullable? decode .null = some none from rfl) held

theorem defaulted_congr (fallback : α) {held held' : Option Value}
    (same : Option.Rel (decode · = decode ·) held held') :
    defaulted fallback decode held = defaulted fallback decode held' := by
  cases same with
  | none => rfl
  | some same => exact same

theorem optional_congr {held held' : Option Value}
    (same : Option.Rel (fun value value' => Value.nullable? decode value =
      Value.nullable? decode value') held held') :
    optional decode held = optional decode held' :=
  defaulted_congr none same

theorem optional_ofOption {encode : α → Value} {value : Option α}
    (readBack : ∀ given ∈ value, decode (encode given) = some given)
    (notNull : ∀ given, encode given ≠ .null) :
    optional decode (some (Value.ofOption encode value)) = some value := by
  cases value with
  | none => rfl
  | some given =>
      have read := readBack given rfl
      show Value.nullable? decode (encode given) = _
      unfold Value.nullable?
      split
      case h_1 null => exact absurd null (notNull given)
      case h_2 => rw [read, Option.map_some]

theorem list?_map {encode : α → Value} {items : List α}
    (readBack : ∀ item ∈ items, decode (encode item) = some item) :
    Value.list? decode (.array (items.map encode)) = some items := by
  simp only [Value.list?, Value.array?, Option.bind_some]
  induction items with
  | nil => rfl
  | cons item items ih =>
      obtain ⟨first, others⟩ := List.forall_mem_cons.mp readBack
      rw [List.map_cons, List.mapM_cons, first, ih others]
      rfl

end Fields

theorem signed?_integer {number : Int} (signed : Word.IsSigned number) :
    (Value.integer number).signed? 64 = some number := by
  obtain ⟨lower, upper⟩ := signed
  have half : (1 <<< (64 - 1) : Nat) = 2 ^ 63 := rfl
  rw [Value.signed?, Value.integerWithin?, half, if_pos (by omega)]

theorem unsigned?_ofNat {bits number : Nat} (fits : number < 2 ^ bits) :
    (Value.ofNat number).unsigned? bits = some number := by
  rw [Value.unsigned?, Value.ofNat, Value.integerWithin?, Nat.one_shiftLeft, if_pos (by omega),
    Option.map_some, Int.toNat_natCast]

theorem defaulted_or_zero (bits : Nat) (held : Option Value) :
    defaulted 0 (·.unsigned? bits) (held.or (some (.ofNat 0))) =
      defaulted 0 (·.unsigned? bits) held :=
  defaulted_or (unsigned?_ofNat (Nat.two_pow_pos bits)) held

end Json

/-! ## Readers -/

def FixSuggestion.reader : RecordReader FixSuggestion where
  names := FixSuggestion.fieldNames
  fallbacks := []
  alike _ := Eq
  build := FixSuggestion.ofFields?
  distinct := by decide
  alike_refl _ _ := rfl
  build_filled held := by simp only [List.lookup_nil, Option.or_none]
  build_alike held held' same := by
    congr 1
    exact List.map_congr_left fun name known => Json.rel_eq_iff.mp (same name known)

namespace Finding

def reader : RecordReader Finding where
  names := fieldNames
  fallbacks := [("endLine", .null), ("endColumn", .null), ("severity", .ofNat 0), ("ruleId", .null),
    ("fix", .null)]
  alike name value value' :=
    if name = "fix" then
      Value.nullable? FixSuggestion.ofValue? value = Value.nullable? FixSuggestion.ofValue? value'
    else value = value'
  build := ofFields?
  distinct := by decide
  alike_refl name value := by split <;> rfl
  build_filled held := by
    simp [fieldNames, ofFields?, List.lookup, -Option.or_some, Json.optional_or,
      Json.defaulted_or_zero]
  build_alike held held' same := by
    simp only [fieldNames, List.forall_mem_cons, String.reduceEq, if_false, if_true,
      Json.rel_eq_iff] at same
    obtain ⟨line, column, endLine, endColumn, severity, ruleId, message, fix, -⟩ := same
    simp only [fieldNames, List.map_cons, List.map_nil, ofFields?, line, column, endLine, endColumn,
      severity, ruleId, message, Json.optional_congr fix]

end Finding

namespace LintResult

def reader : RecordReader LintResult where
  names := fieldNames
  fallbacks := [("filePath", .string ""), ("messages", .array []), ("errorCount", .ofNat 0),
    ("warningCount", .ofNat 0)]
  alike name value value' :=
    if name = "messages" then
      value.list? Finding.ofValue? = value'.list? Finding.ofValue?
    else value = value'
  build := ofFields?
  distinct := by decide
  alike_refl name value := by split <;> rfl
  build_filled held := by
    have filePath := Json.defaulted_or (show Value.string? (.string "") = some "" from rfl)
    simp [fieldNames, ofFields?, List.lookup, -Option.or_some, filePath, Json.defaulted_or_nil,
      Json.defaulted_or_zero]
  build_alike held held' same := by
    simp only [fieldNames, List.forall_mem_cons, String.reduceEq, if_false, if_true,
      Json.rel_eq_iff] at same
    obtain ⟨filePath, messages, errorCount, warningCount, -⟩ := same
    simp only [fieldNames, List.map_cons, List.map_nil, ofFields?, filePath, errorCount,
      warningCount, Json.defaulted_congr [] messages]

end LintResult

namespace Report

/-- The reader of a report that is written as an object. -/
def reader : RecordReader Report where
  names := fieldNames
  fallbacks := [("errorCount", .ofNat 0), ("warningCount", .ofNat 0), ("results", .array [])]
  alike name value value' :=
    if name = "results" then
      value.list? LintResult.ofValue? = value'.list? LintResult.ofValue?
    else value = value'
  build := ofFields?
  distinct := by decide
  alike_refl name value := by split <;> rfl
  build_filled held := by
    simp [fieldNames, ofFields?, List.lookup, -Option.or_some, Json.defaulted_or_nil,
      Json.defaulted_or_zero]
  build_alike held held' same := by
    simp only [fieldNames, List.forall_mem_cons, String.reduceEq, if_false, if_true,
      Json.rel_eq_iff] at same
    obtain ⟨errorCount, warningCount, results, -⟩ := same
    simp only [fieldNames, List.map_cons, List.map_nil, ofFields?, errorCount, warningCount,
      Json.defaulted_congr [] results]

end Report

/-! ## Changes that are not seen -/

/-- A change to the text of a fix, at a depth that allows so many further arrays and objects. -/
abbrev FixSuggestion.Change : Nat → Raw → Raw → Prop :=
  FixSuggestion.reader.Change fun _ _ _ _ => False

/-- A change inside the value of one field. -/
def Finding.Inside (depth : Nat) (name : String) (raw raw' : Raw) : Prop :=
  name = "fix" ∧ FixSuggestion.Change depth raw raw'

abbrev Finding.Change : Nat → Raw → Raw → Prop := Finding.reader.Change Finding.Inside

def LintResult.Inside (depth : Nat) (name : String) (raw raw' : Raw) : Prop :=
  name = "messages" ∧ ItemsChange Finding.Change depth raw raw'

abbrev LintResult.Change : Nat → Raw → Raw → Prop := LintResult.reader.Change LintResult.Inside

def Report.Inside (depth : Nat) (name : String) (raw raw' : Raw) : Prop :=
  name = "results" ∧ ItemsChange LintResult.Change depth raw raw'

/-- A change to the text of a report: to an object, or to one result of a bare array. -/
inductive Report.Change : Nat → Raw → Raw → Prop
  | object {depth : Nat} {members members' : List (List Char × Raw)}
      (change : Report.reader.MembersChange Report.Inside depth members members') :
      Change (depth + 1) (.object members) (.object members')
  | bare {depth : Nat} {raw raw' : Raw} (change : ItemsChange LintResult.Change depth raw raw') :
      Change depth raw raw'

section Unseen

variable {depth : Nat} {raw raw' : Raw}

theorem FixSuggestion.Change.nullable? (change : FixSuggestion.Change depth raw raw') :
    Option.Rel (fun value value' => Value.nullable? FixSuggestion.ofValue? value =
        Value.nullable? FixSuggestion.ofValue? value')
      (raw.value? depth) (raw'.value? depth) := by
  refine Json.rel_mono (change.decode fun _ _ _ _ impossible => impossible.elim) ?_
  rintro value value' ⟨notNull, notNull', same⟩
  have present {value : Value} (notNull : value ≠ .null) :
      Value.nullable? FixSuggestion.ofValue? value =
        (FixSuggestion.reader.decode value).map some := by
    unfold Value.nullable?
    split
    case h_1 => exact absurd rfl notNull
    case h_2 => rfl
  rw [present notNull, present notNull', same]

theorem Finding.Change.ofValue? (change : Finding.Change depth raw raw') :
    Option.Rel (fun value value' => Finding.ofValue? value = Finding.ofValue? value')
      (raw.value? depth) (raw'.value? depth) := by
  refine Json.rel_mono (change.decode ?_) fun _ _ ⟨_, _, same⟩ => same
  rintro depth name raw raw' ⟨rfl, change⟩
  exact change.nullable?

theorem LintResult.Change.ofValue? (change : LintResult.Change depth raw raw') :
    Option.Rel (fun value value' => LintResult.ofValue? value = LintResult.ofValue? value')
      (raw.value? depth) (raw'.value? depth) := by
  refine Json.rel_mono (change.decode ?_) fun _ _ ⟨_, _, same⟩ => same
  rintro depth name raw raw' ⟨rfl, change⟩
  refine Json.rel_mono (change.decode fun depth raw raw' change => change.ofValue?) ?_
  rintro _ _ ⟨items, items', rfl, rfl, same⟩
  exact same

theorem Report.Change.ofValue? (change : Report.Change depth raw raw') :
    Option.Rel (fun value value' => Report.ofValue? value = Report.ofValue? value')
      (raw.value? depth) (raw'.value? depth) := by
  have results {depth : Nat} {raw raw' : Raw}
      (change : ItemsChange LintResult.Change depth raw raw') :=
    change.decode fun depth raw raw' change => change.ofValue?
  cases change with
  | object change =>
      refine Json.rel_mono (change.decode ?_) ?_
      · rintro name raw raw' ⟨rfl, change⟩
        refine Json.rel_mono (results change) ?_
        rintro _ _ ⟨items, items', rfl, rfl, same⟩
        exact same
      · rintro _ _ ⟨read, read', rfl, rfl, same⟩
        exact same
  | bare change =>
      refine Json.rel_mono (results change) ?_
      rintro _ _ ⟨items, items', rfl, rfl, same⟩
      exact congrArg (Option.map Report.ofResults) same

/-- A report is read the same from two texts that differ by unseen changes. -/
theorem Report.read_eq_of_changes {text text' : String} (read : Raw.read text = some raw)
    (read' : Raw.read text' = some raw')
    (changes : Relation.EqvGen (Report.Change Json.nestingLimit) raw raw') :
    Report.read text = Report.read text' := by
  have same : (raw.value? Json.nestingLimit).bind Report.ofValue? =
      (raw'.value? Json.nestingLimit).bind Report.ofValue? := by
    clear read read'
    induction changes with
    | rel raw raw' change =>
        obtain ⟨means, means'⟩ | ⟨value, value', means, means', same⟩ :=
          Json.rel_cases change.ofValue?
        · rw [means, means']
        · rw [means, means']
          exact same
    | refl raw => rfl
    | symm raw raw' _ ih => exact ih.symm
    | trans raw middle raw' _ _ first second => exact first.trans second
  unfold Report.read Value.read Value.readWithin
  rw [read, read', Option.bind_some, Option.bind_some, same]

end Unseen

/-! ## Reports that are written -/

/-- A finding whose numbers have the width of their fields. -/
structure Finding.Fits (finding : Finding) : Prop extends finding.IsSigned where
  severity : finding.severity < 2 ^ 8
  fix : ∀ fix ∈ finding.fix, fix.start < 2 ^ 64 ∧ fix.stop < 2 ^ 64

structure LintResult.Fits (result : LintResult) : Prop where
  messages : ∀ finding ∈ result.messages, finding.Fits
  errorCount : result.errorCount < 2 ^ 64
  warningCount : result.warningCount < 2 ^ 64

/-- A report whose counts have 64 bits, also when they are added up over its results. -/
structure Report.Fits (report : Report) : Prop where
  results : ∀ result ∈ report.results, result.Fits
  errorCount : report.errorCount < 2 ^ 64
  warningCount : report.warningCount < 2 ^ 64
  errorSum : (report.results.map (·.errorCount)).sum < 2 ^ 64
  warningSum : (report.results.map (·.warningCount)).sum < 2 ^ 64

theorem FixSuggestion.ofValue?_toValue {fix : FixSuggestion}
    (fits : fix.start < 2 ^ 64 ∧ fix.stop < 2 ^ 64) :
    FixSuggestion.ofValue? fix.toValue = some fix := by
  have fields : fix.toValue.fields? FixSuggestion.fieldNames =
      some [some (.array [.ofNat fix.start, .ofNat fix.stop]), some (.string fix.text)] := rfl
  rw [FixSuggestion.ofValue?, fields, Option.bind_some]
  simp only [FixSuggestion.ofFields?, Json.required, Option.bind_some, FixSuggestion.range?,
    Json.unsigned?_ofNat fits.1, Json.unsigned?_ofNat fits.2, Value.string?, Option.bind_eq_bind,
    Option.pure_def]

theorem Finding.ofValue?_toValue {finding : Finding} (fits : finding.Fits) :
    Finding.ofValue? finding.toValue = some finding := by
  have fields : finding.toValue.fields? Finding.fieldNames =
      some [some (.integer finding.line), some (.integer finding.column),
        some (.ofOption .integer finding.endLine), some (.ofOption .integer finding.endColumn),
        some (.ofNat finding.severity), some (.ofOption .string finding.ruleId),
        some (.string finding.message), some (.ofOption FixSuggestion.toValue finding.fix)] := rfl
  have endLine : Json.optional (·.signed? 64) (some (.ofOption .integer finding.endLine)) =
      some finding.endLine :=
    Json.optional_ofOption (fun given held => Json.signed?_integer (fits.endLine given held)) nofun
  have endColumn : Json.optional (·.signed? 64) (some (.ofOption .integer finding.endColumn)) =
      some finding.endColumn :=
    Json.optional_ofOption (fun given held => Json.signed?_integer (fits.endColumn given held)) nofun
  have ruleId : Json.optional Value.string? (some (.ofOption .string finding.ruleId)) =
      some finding.ruleId := Json.optional_ofOption (fun _ _ => rfl) nofun
  have fix : Json.optional FixSuggestion.ofValue?
      (some (.ofOption FixSuggestion.toValue finding.fix)) = some finding.fix :=
    Json.optional_ofOption
      (fun given held => FixSuggestion.ofValue?_toValue (fits.fix given held)) nofun
  rw [Finding.ofValue?, fields, Option.bind_some]
  simp only [Finding.ofFields?, Json.required, Json.defaulted, Option.bind_some,
    Json.signed?_integer fits.line, Json.signed?_integer fits.column, endLine, endColumn,
    Json.unsigned?_ofNat fits.severity, ruleId, Value.string?, fix, Option.bind_eq_bind,
    Option.pure_def]

theorem LintResult.ofValue?_toValue {result : LintResult} (fits : result.Fits) :
    LintResult.ofValue? result.toValue = some result := by
  have fields : result.toValue.fields? LintResult.fieldNames =
      some [some (.string result.filePath), some (.array (result.messages.map Finding.toValue)),
        some (.ofNat result.errorCount), some (.ofNat result.warningCount)] := rfl
  rw [LintResult.ofValue?, fields, Option.bind_some]
  simp only [LintResult.ofFields?, Json.defaulted, Value.string?,
    Json.list?_map fun finding held => Finding.ofValue?_toValue (fits.messages finding held),
    Json.unsigned?_ofNat fits.errorCount, Json.unsigned?_ofNat fits.warningCount,
    Option.bind_eq_bind, Option.bind_some, Option.pure_def]

section Plain

variable {depth : Nat}

theorem plain_integer {number : Int} (signed : Word.IsSigned number) :
    (Value.integer number).Plain depth := by
  obtain ⟨lower, upper⟩ := signed
  exact .integer (by omega)

theorem FixSuggestion.plain_toValue {fix : FixSuggestion}
    (fits : fix.start < 2 ^ 64 ∧ fix.stop < 2 ^ 64) : fix.toValue.Plain (depth + 2) := by
  refine .object (by simp) ?_
  simp only [List.forall_mem_cons, List.not_mem_nil, false_imp_iff, implies_true, and_true]
  refine ⟨.array ?_, .string fix.text⟩
  simp only [List.forall_mem_cons, List.not_mem_nil, false_imp_iff, implies_true, and_true]
  exact ⟨Value.Plain.ofNat fits.1.le, Value.Plain.ofNat fits.2.le⟩

theorem Finding.plain_toValue {finding : Finding} (fits : finding.Fits) :
    finding.toValue.Plain (depth + 3) := by
  refine .object (by simp) ?_
  simp only [List.forall_mem_cons, List.not_mem_nil, false_imp_iff, implies_true, and_true]
  have severity := fits.severity
  exact ⟨plain_integer fits.line, plain_integer fits.column,
    Value.Plain.ofOption fun given held => plain_integer (fits.endLine given held),
    Value.Plain.ofOption fun given held => plain_integer (fits.endColumn given held),
    Value.Plain.ofNat (by omega), Value.Plain.ofOption fun _ _ => .string _, .string finding.message,
    Value.Plain.ofOption fun given held => FixSuggestion.plain_toValue (fits.fix given held)⟩

theorem LintResult.plain_toValue {result : LintResult} (fits : result.Fits) :
    result.toValue.Plain (depth + 5) := by
  refine .object (by simp) ?_
  simp only [List.forall_mem_cons, List.not_mem_nil, false_imp_iff, implies_true, and_true]
  exact ⟨.string result.filePath,
    Value.Plain.map fun finding held => Finding.plain_toValue (fits.messages finding held),
    Value.Plain.ofNat fits.errorCount.le, Value.Plain.ofNat fits.warningCount.le⟩

end Plain

namespace Report

variable {report : Report}

theorem list?_results (fits : report.Fits) :
    Value.list? LintResult.ofValue? (.array (report.results.map LintResult.toValue)) =
      some report.results :=
  Json.list?_map fun result held => LintResult.ofValue?_toValue (fits.results result held)

theorem ofValue?_toValue (fits : report.Fits) : ofValue? report.toValue = some report := by
  have fields : report.toValue.fields? fieldNames =
      some [some (.ofNat report.errorCount), some (.ofNat report.warningCount),
        some (.array (report.results.map LintResult.toValue))] := rfl
  show (report.toValue.fields? fieldNames).bind ofFields? = some report
  rw [fields, Option.bind_some]
  simp only [ofFields?, Json.defaulted, list?_results fits, Json.unsigned?_ofNat fits.errorCount,
    Json.unsigned?_ofNat fits.warningCount, Option.bind_eq_bind, Option.bind_some, Option.pure_def]

/-- The results alone, as a bare array. -/
def bareValue (report : Report) : Value := .array (report.results.map LintResult.toValue)

theorem plain_bareValue {depth : Nat} (fits : report.Fits) : report.bareValue.Plain (depth + 6) :=
  Value.Plain.map fun result held => LintResult.plain_toValue (fits.results result held)

theorem plain_toValue {depth : Nat} (fits : report.Fits) : report.toValue.Plain (depth + 7) := by
  refine .object (by simp) ?_
  simp only [List.forall_mem_cons, List.not_mem_nil, false_imp_iff, implies_true, and_true]
  exact ⟨Value.Plain.ofNat fits.errorCount.le, Value.Plain.ofNat fits.warningCount.le, plain_bareValue fits⟩

/-- The report with the sums over its results for counts. -/
def recounted (report : Report) : Report where
  errorCount := (report.results.map (·.errorCount)).sum
  warningCount := (report.results.map (·.warningCount)).sum
  results := report.results

theorem ofValue?_bareValue (fits : report.Fits) :
    ofValue? report.bareValue = some report.recounted := by
  have read : (report.results.map LintResult.toValue).mapM LintResult.ofValue? =
      some report.results := list?_results fits
  rw [bareValue, ofValue?, read, Option.map_some, ofResults, recounted, List.sum_eq_foldl,
    List.sum_eq_foldl, List.foldl_map, List.foldl_map]

/-- Adding up in words comes to the sum when the sum is a word. -/
theorem foldlM_sum? (count : LintResult → Nat) {results : List LintResult} {total : Nat}
    (fits : total + (results.map count).sum < 2 ^ 64) :
    results.foldlM (fun total result => Word.sum? total (count result)) total =
      some (total + (results.map count).sum) := by
  induction results generalizing total with
  | nil => rfl
  | cons result results ih =>
      rw [List.map_cons, List.sum_cons, ← Nat.add_assoc] at fits ⊢
      rw [List.foldlM_cons, Word.sum?_of_lt (by omega)]
      exact ih fits

theorem read_of_value {text : String} (fits : report.Fits)
    (written : Value.read text = some report.toValue) : Report.read text = .ok report := by
  rw [Report.read, written, Option.bind_some, ofValue?_toValue fits]

theorem read_of_bareValue {text : String} (fits : report.Fits)
    (written : Value.read text = some report.bareValue) :
    Report.read text = .ok report.recounted := by
  rw [Report.read, written, Option.bind_some, ofValue?_bareValue fits]

/-- A report is read back from its own text and from every other text of its value, and with
counts that are added up, without wrapping, from the texts of its results alone. Texts that differ
by unknown members, by the order of members and by members that hold their defaults are read the
same, be they reports or not. -/
theorem read_however_printed :
    (∀ report : Report, report.Fits →
      Report.read report.toValue.compact = .ok report ∧
      Report.read report.bareValue.compact = .ok report.recounted ∧
      report.results.foldlM (fun total result => Word.sum? total result.errorCount) 0 =
        some report.recounted.errorCount ∧
      report.results.foldlM (fun total result => Word.sum? total result.warningCount) 0 =
        some report.recounted.warningCount ∧
      ∀ text,
        (Value.read text = some report.toValue → Report.read text = .ok report) ∧
        (Value.read text = some report.bareValue → Report.read text = .ok report.recounted)) ∧
    ∀ text text' raw raw', Raw.read text = some raw → Raw.read text' = some raw' →
      Relation.EqvGen (Report.Change Json.nestingLimit) raw raw' →
        Report.read text = Report.read text' := by
  constructor
  · intro report fits
    refine ⟨?_, ?_, ?_, ?_, fun text => ⟨read_of_value fits, read_of_bareValue fits⟩⟩
    · exact read_of_value fits (Json.read_compact (plain_toValue fits))
    · exact read_of_bareValue fits (Json.read_compact (plain_bareValue fits))
    · simpa [recounted] using
        @foldlM_sum? (·.errorCount) report.results 0 (by simpa using fits.errorSum)
    · simpa [recounted] using
        @foldlM_sum? (·.warningCount) report.results 0 (by simpa using fits.warningSum)
  · intro text text' raw raw' read read' changes
    exact read_eq_of_changes read read' changes

/-- A note and a count of zero among the members of a bare result. -/
theorem read_however_printed_note :
    let report : Report := { results := [{ filePath := "a.js" }] }
    let text := "[\x7b\"filePath\":\"a.js\"\x7d]"
    let noted := "[\x7b\"errorCount\":0,\"filePath\":\"a.js\",\"note\":[]\x7d]"
    report.Fits ∧ Report.read report.toValue.compact = .ok report ∧
      Report.read text = .ok report ∧ Report.read noted = .ok report := by
  intro report text noted
  have fits : report.Fits := by
    constructor <;> simp [report]
    constructor <;> simp
  let path : List Char × Raw := ("filePath".toList, .string "a.js".toList)
  let note : List Char × Raw := ("note".toList, .array [])
  let count : List Char × Raw := ("errorCount".toList, .number ⟨false, ['0'], none, none⟩)
  let whole (members : List (List Char × Raw)) : Raw := .array [.object members]
  have read : Raw.read text = some (whole [path]) := by cbv
  have readNoted : Raw.read noted = some (whole [count, path, note]) := by cbv
  have changes : Relation.EqvGen (Report.Change Json.nestingLimit) (whole [path])
      (whole [count, path, note]) := by
    let Changed := LintResult.reader.MembersChange LintResult.Inside (Json.nestingLimit - 2)
    have inArray {members members' : List (List Char × Raw)} (change : Changed members members') :
        Report.Change Json.nestingLimit (whole members) (whole members') :=
      .bare (@ItemsChange.item _ _ [] [] _ _ (.object change))
    have counted : Changed [path] [path, count] :=
      @RecordReader.MembersChange.fallback _ _ _ _ [path] [] count "errorCount" (.ofNat 0)
        rfl rfl rfl rfl
    have extended : Changed [path, count] [note, path, count] :=
      @RecordReader.MembersChange.unknown _ _ _ _ [] [path, count] note (by decide) ⟨rfl, rfl⟩
    have reordered : Changed [note, path, count] [count, path, note] :=
      .of_distinct (List.reverse_perm _).symm (by decide)
    exact .trans _ _ _ (.rel _ _ (inArray counted))
      (.trans _ _ _ (.rel _ _ (inArray extended)) (.rel _ _ (inArray reordered)))
  have written : Report.read text = .ok report := by
    rw [Report.read, Value.read, Value.readWithin, read]
    rfl
  obtain ⟨readBack, changed⟩ := read_however_printed
  exact ⟨fits, (readBack report fits).1, written,
    (changed text noted _ _ read readNoted changes).symm.trans written⟩

end Report

end EditorLint
