import EditorLint.Proofs.RangeKey
import EditorLint.Proofs.Service.Lint
import Mathlib

/-!
An index answers for a span with the last finding that was recorded there, and lists the spans in
the order in which they were first recorded; the index of a lint does so with the findings of its
report.
-/

namespace EditorLint

def IndexedFinding.span (entry : IndexedFinding) : Nat × Nat := (entry.start, entry.stop)

def Diagnostic.span (diagnostic : Diagnostic) : Nat × Nat := (diagnostic.start, diagnostic.stop)

def RangeKey.ofSpan (span : Nat × Nat) : RangeKey := .of span.1 span.2

theorem RangeKey.ofSpan_injective : Function.Injective RangeKey.ofSpan := by
  intro span other same
  obtain ⟨starts, stops⟩ := RangeKey.of_inj.mp same
  exact Prod.ext starts stops

theorem eraseDups_concat {α : Type} [BEq α] [LawfulBEq α] (items : List α) (item : α) :
    (items ++ [item]).eraseDups =
      if item ∈ items then items.eraseDups else items.eraseDups ++ [item] := by
  rw [List.eraseDups_append]
  by_cases known : item ∈ items <;> simp [List.removeAll, known, List.eraseDups_cons]

namespace FindingIndex

theorem lookup_record (index : FindingIndex) (finding : Finding) (start stop start' stop' : Nat) :
    (index.record finding start stop).lookup start' stop' =
      if start = start' ∧ stop = stop' then some ⟨finding, start, stop⟩
      else index.lookup start' stop' := by
  simp only [record, lookup, InsertionMap.find?_insert, RangeKey.of_inj]

def spans (index : FindingIndex) : List (Nat × Nat) := index.toList.map IndexedFinding.span

/-- Every entry stands at the key of its own span, and no key has two entries. -/
structure Keyed (index : FindingIndex) : Prop where
  distinct : index.entries.keys.Nodup
  own : ∀ pair ∈ index.entries.entries, pair.1 = RangeKey.ofSpan pair.2.span

theorem empty_keyed : ({} : FindingIndex).Keyed := ⟨.nil, nofun⟩

theorem record_keyed {index : FindingIndex} (keyed : index.Keyed) (finding : Finding)
    (start stop : Nat) : (index.record finding start stop).Keyed := by
  constructor
  · exact InsertionMap.nodup_keys_insert keyed.distinct _ _
  · intro pair listed
    rcases InsertionMap.mem_entries_insert listed with rfl | kept
    · rfl
    · exact keyed.own pair kept

theorem Keyed.keys_eq {index : FindingIndex} (keyed : index.Keyed) :
    index.entries.keys = index.spans.map RangeKey.ofSpan := by
  simp only [InsertionMap.keys, spans, toList, InsertionMap.values, List.map_map]
  exact List.map_congr_left keyed.own

theorem Keyed.lookup_of_mem {index : FindingIndex} (keyed : index.Keyed) {entry : IndexedFinding}
    (listed : entry ∈ index.toList) : index.lookup entry.start entry.stop = some entry := by
  obtain ⟨pair, member, rfl⟩ := List.mem_map.mp listed
  have own : pair.1 = RangeKey.of pair.2.start pair.2.stop := keyed.own pair member
  rw [lookup, ← own]
  exact InsertionMap.find?_of_mem keyed.distinct member

theorem Keyed.span_of_lookup {index : FindingIndex} (keyed : index.Keyed) {start stop : Nat}
    {entry : IndexedFinding} (found : index.lookup start stop = some entry) :
    entry.span = (start, stop) := by
  obtain ⟨pair, located, rfl⟩ := Option.map_eq_some_iff.mp found
  have key := List.find?_some located
  rw [decide_eq_true_eq, keyed.own pair (List.mem_of_find?_eq_some located)] at key
  exact RangeKey.ofSpan_injective key

/-- A span that is recorded anew goes to the end, and one that is there keeps its place. -/
theorem spans_record {index : FindingIndex} (keyed : index.Keyed) (finding : Finding)
    (start stop : Nat) :
    (index.record finding start stop).spans =
      if (start, stop) ∈ index.spans then index.spans else index.spans ++ [(start, stop)] := by
  have keys : (index.record finding start stop).entries.keys = _ :=
    InsertionMap.keys_insert index.entries (RangeKey.ofSpan (start, stop)) ⟨finding, start, stop⟩
  rw [(record_keyed keyed finding start stop).keys_eq, keyed.keys_eq] at keys
  apply List.map_injective_iff.mpr RangeKey.ofSpan_injective
  simp only [keys, List.mem_map_of_injective RangeKey.ofSpan_injective]
  split
  · rfl
  · rw [List.map_append, List.map_singleton]

theorem Keyed.spans_nodup {index : FindingIndex} (keyed : index.Keyed) : index.spans.Nodup :=
  .of_map RangeKey.ofSpan (keyed.keys_eq ▸ keyed.distinct)

theorem Keyed.eq_of_toList {index other : FindingIndex} (keyed : index.Keyed)
    (otherKeyed : other.Keyed) (same : index.toList = other.toList) : index = other := by
  have entries {index : FindingIndex} (keyed : index.Keyed) : index.entries.entries =
      index.toList.map fun entry => (RangeKey.ofSpan entry.span, entry) := by
    rw [toList, InsertionMap.values, List.map_map, List.map_congr_left, List.map_id]
    exact fun pair listed => Prod.ext (keyed.own pair listed).symm rfl
  obtain ⟨⟨listed⟩⟩ := index
  obtain ⟨⟨otherListed⟩⟩ := other
  have equal : listed = otherListed := (entries keyed).trans (same ▸ (entries otherKeyed).symm)
  rw [equal]

/-! ## Findings recorded one after another -/

/-- The index after findings have been recorded in turn, each at its span. -/
def ofRecords (records : List IndexedFinding) : FindingIndex :=
  records.foldl (fun index entry => index.record entry.finding entry.start entry.stop) {}

/-- The last of some records that has the given span. -/
def lastRecord (records : List IndexedFinding) (span : Nat × Nat) : Option IndexedFinding :=
  (records.filter (·.span = span)).getLast?

theorem ofRecords_concat (earlier : List IndexedFinding) (entry : IndexedFinding) :
    ofRecords (earlier ++ [entry]) =
      (ofRecords earlier).record entry.finding entry.start entry.stop :=
  List.foldl_append

theorem lastRecord_append (earlier later : List IndexedFinding) (span : Nat × Nat) :
    lastRecord (earlier ++ later) span = (lastRecord later span).or (lastRecord earlier span) := by
  rw [lastRecord, List.filter_append, List.getLast?_append]
  rfl

theorem lastRecord_eq_none_iff {records : List IndexedFinding} {span : Nat × Nat} :
    lastRecord records span = none ↔ ∀ entry ∈ records, entry.span ≠ span := by
  simp [lastRecord]

theorem ofRecords_keyed (records : List IndexedFinding) : (ofRecords records).Keyed := by
  induction records using List.reverseRecOn with
  | nil => exact empty_keyed
  | append_singleton earlier entry ih =>
      rw [ofRecords_concat]
      exact record_keyed ih _ _ _

theorem lookup_ofRecords (records : List IndexedFinding) (start stop : Nat) :
    (ofRecords records).lookup start stop = lastRecord records (start, stop) := by
  induction records using List.reverseRecOn with
  | nil => rfl
  | append_singleton earlier entry ih =>
      rw [ofRecords_concat, lookup_record, lastRecord_append, ih]
      by_cases here : entry.start = start ∧ entry.stop = stop
      · obtain ⟨rfl, rfl⟩ := here
        simp [lastRecord, IndexedFinding.span]
      · simp [lastRecord, IndexedFinding.span, here]

theorem spans_ofRecords (records : List IndexedFinding) :
    (ofRecords records).spans = (records.map IndexedFinding.span).eraseDups := by
  induction records using List.reverseRecOn with
  | nil => rfl
  | append_singleton earlier entry ih =>
      have recorded : entry.span ∈ (ofRecords earlier).spans ↔
          entry.span ∈ earlier.map IndexedFinding.span := by rw [ih, List.mem_eraseDups]
      rw [ofRecords_concat, spans_record (ofRecords_keyed earlier), List.map_append,
        List.map_singleton, eraseDups_concat, ← ih]
      exact if_congr recorded rfl rfl

/-- At each of its spans an index has the last finding that was recorded there. -/
theorem map_some_toList_ofRecords (records : List IndexedFinding) :
    (ofRecords records).toList.map some =
      (records.map IndexedFinding.span).eraseDups.map (lastRecord records) := by
  rw [← spans_ofRecords, spans, List.map_map]
  refine List.map_congr_left fun entry listed => ?_
  rw [← (ofRecords_keyed records).lookup_of_mem listed, lookup_ofRecords]
  rfl

theorem toList_ofRecords (records : List IndexedFinding) :
    (ofRecords records).toList =
      (records.map IndexedFinding.span).eraseDups.filterMap (lastRecord records) := by
  have each := congrArg (List.filterMap id) (map_some_toList_ofRecords records)
  rw [List.filterMap_map, List.filterMap_map] at each
  exact List.filterMap_some.symm.trans each

theorem size_ofRecords (records : List IndexedFinding) :
    (ofRecords records).size = (records.map IndexedFinding.span).toFinset.card := by
  have distinct := (ofRecords_keyed records).spans_nodup
  have size : (ofRecords records).size = (ofRecords records).spans.length := by
    simp [FindingIndex.size, InsertionMap.size, spans, toList, InsertionMap.values]
  have same : (ofRecords records).spans.toFinset = (records.map IndexedFinding.span).toFinset := by
    ext span
    rw [spans_ofRecords, List.mem_toFinset, List.mem_eraseDups, List.mem_toFinset]
  rw [size, ← List.toFinset_card_of_nodup distinct, same]

/-- A finding that is replaced later leaves nothing behind. -/
theorem ofRecords_of_replaced {earlier later : List IndexedFinding} {replaced : IndexedFinding}
    (again : ∃ other ∈ later, other.span = replaced.span) (finding : Finding) :
    ofRecords (earlier ++ ⟨finding, replaced.start, replaced.stop⟩ :: later) =
      ofRecords (earlier ++ replaced :: later) := by
  refine (ofRecords_keyed _).eq_of_toList (ofRecords_keyed _) ?_
  have spans : (earlier ++ ⟨finding, replaced.start, replaced.stop⟩ :: later).map
      IndexedFinding.span = (earlier ++ replaced :: later).map IndexedFinding.span := by
    simp [IndexedFinding.span]
  have last (span : Nat × Nat) :
      lastRecord (earlier ++ ⟨finding, replaced.start, replaced.stop⟩ :: later) span =
        lastRecord (earlier ++ replaced :: later) span := by
    have behind (entry : IndexedFinding) : lastRecord (earlier ++ entry :: later) span =
        (lastRecord later span).or (lastRecord (earlier ++ [entry]) span) := by
      rw [List.append_cons, lastRecord_append]
    rw [behind, behind]
    -- At its own span the finding is hidden by the later one, and at another it is not looked for.
    by_cases here : replaced.span = span
    · obtain ⟨other, listed, same⟩ := again
      cases found : lastRecord later span with
      | some entry => rfl
      | none => exact absurd (same.trans here) (lastRecord_eq_none_iff.mp found other listed)
    · simp only [IndexedFinding.span] at here
      simp [lastRecord, IndexedFinding.span, here]
  rw [toList_ofRecords, toList_ofRecords, spans, funext last]

/-- An index keeps the last finding that was recorded at each span, and has them in the order in
which the spans were first recorded. What it answers depends on nothing else. -/
theorem ofRecords_keeps_last (records : List IndexedFinding) :
    let index := ofRecords records
    let spans := (records.map IndexedFinding.span).eraseDups
    (∀ start stop, index.lookup start stop = lastRecord records (start, stop)) ∧
      index.size = (records.map IndexedFinding.span).toFinset.card ∧
      index.toList.map IndexedFinding.span = spans ∧
      index.toList.map some = spans.map (lastRecord records) ∧
      index.edits = spans.filterMap (fun span => (lastRecord records span).bind (·.edit)) ∧
      (∀ rule, index.editsForRule rule = spans.filterMap fun span =>
        ((lastRecord records span).filter (·.rule = some rule)).bind (·.edit)) ∧
      ∀ earlier replaced later finding, records = earlier ++ replaced :: later →
        (∃ other ∈ later, other.span = replaced.span) →
        ofRecords (earlier ++ ⟨finding, replaced.start, replaced.stop⟩ :: later) = index := by
  refine ⟨lookup_ofRecords records, size_ofRecords records, spans_ofRecords records,
    map_some_toList_ofRecords records, ?_, fun rule => ?_, ?_⟩
  · rw [edits, toList_ofRecords, List.filterMap_filterMap]
  · rw [editsForRule, toList_ofRecords, List.filter_filterMap, List.filterMap_filterMap]
  · rintro earlier replaced later finding rfl again
    exact ofRecords_of_replaced again finding

example :
    let first : IndexedFinding := ⟨{ line := 1, column := 1, message := "first" }, 0, 2⟩
    let middle : IndexedFinding := ⟨{ line := 1, column := 5, message := "middle" }, 4, 5⟩
    let second : IndexedFinding := ⟨{ line := 1, column := 1, message := "second" }, 0, 2⟩
    (ofRecords [first, middle, second]).toList = [second, middle] := by cbv

end FindingIndex

/-- The last of some findings, in the order of the report, whose diagnostic has the given span. -/
def lastAt (located : List (Finding × Diagnostic)) (start stop : Nat) :
    Option (Finding × Diagnostic) :=
  (located.filter fun (_, diagnostic) => diagnostic.start = start ∧ diagnostic.stop = stop).getLast?

theorem lastAt_append (earlier later : List (Finding × Diagnostic)) (start stop : Nat) :
    lastAt (earlier ++ later) start stop =
      (lastAt later start stop).or (lastAt earlier start stop) := by
  rw [lastAt, List.filter_append, List.getLast?_append]
  rfl

theorem lastAt_eq_none_iff {located : List (Finding × Diagnostic)} {start stop : Nat} :
    lastAt located start stop = none ↔
      ∀ entry ∈ located, ¬ (entry.2.start = start ∧ entry.2.stop = stop) := by
  simp [lastAt]

def recordOf (entry : Finding × Diagnostic) : IndexedFinding :=
  ⟨entry.1, entry.2.start, entry.2.stop⟩

theorem indexOf_eq_ofRecords (located : List (Finding × Diagnostic)) :
    Service.indexOf located = .ofRecords (located.map recordOf) := by
  rw [FindingIndex.ofRecords, List.foldl_map]
  rfl

theorem lookup_indexOf (located : List (Finding × Diagnostic)) (start stop : Nat) :
    (Service.indexOf located).lookup start stop =
      (lastAt located start stop).map fun (finding, _) => ⟨finding, start, stop⟩ := by
  have atSpan : (fun entry : IndexedFinding => decide (entry.span = (start, stop))) ∘ recordOf =
      fun (_, diagnostic) => decide (diagnostic.start = start ∧ diagnostic.stop = stop) := by
    funext entry
    exact decide_eq_decide.mpr Prod.mk_inj
  rw [indexOf_eq_ofRecords, FindingIndex.lookup_ofRecords, FindingIndex.lastRecord, List.filter_map,
    List.getLast?_map, atSpan]
  refine Option.map_congr fun entry last => ?_
  have here := (List.mem_filter.mp (List.mem_of_getLast? last)).2
  obtain ⟨starts, stops⟩ := of_decide_eq_true here
  rw [recordOf, starts, stops]

theorem indexOf_keyed (located : List (Finding × Diagnostic)) :
    (Service.indexOf located).Keyed := by
  rw [indexOf_eq_ofRecords]
  exact FindingIndex.ofRecords_keyed _

theorem exists_located_of_mem_indexOf {located : List (Finding × Diagnostic)}
    {entry : IndexedFinding} (member : entry ∈ (Service.indexOf located).toList) :
    ∃ reported ∈ located, reported.1 = entry.finding := by
  have found := (indexOf_keyed located).lookup_of_mem member
  rw [lookup_indexOf] at found
  obtain ⟨reported, last, same⟩ := Option.map_eq_some_iff.mp found
  exact ⟨reported, (List.mem_filter.mp (List.mem_of_getLast? last)).1,
    congrArg IndexedFinding.finding same⟩

/-- The spans of an index stand in the order in which they were first reported. -/
theorem spans_indexOf (located : List (Finding × Diagnostic)) :
    (Service.indexOf located).spans = (located.map (·.2.span)).eraseDups := by
  rw [indexOf_eq_ofRecords, FindingIndex.spans_ofRecords, List.map_map]
  rfl

end EditorLint
