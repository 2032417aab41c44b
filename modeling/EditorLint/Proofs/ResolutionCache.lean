import EditorLint.Proofs.InsertionMap
import EditorLint.Resolution
import Mathlib

/-!
A memory of searches against the history of its calls. Each call is answered with what the first
probe for it has found since the memory was last cleared, and only that first call runs its probe.
-/

namespace EditorLint.ResolutionCache

variable {σ : Type}

/-- A call on a memory. Its probe acts on a world of states `σ` and so may find something else
each time. -/
inductive Call (σ : Type) where
  | get (key : String) (probe : StateM σ (Option String))
  | globals (probe : StateM σ (List String))
  | clear

inductive Reply where
  | found (answer : Option String)
  | directories (answer : List String)
  | cleared
  deriving DecidableEq, Repr

/-- How a call ends: with a reply, a number of keys that are remembered then, and a world. -/
structure Outcome (σ : Type) where
  reply : Reply
  size : Nat
  world : σ

def carryOut (cache : ResolutionCache) : Call σ → StateM σ (Reply × ResolutionCache)
  | .get key probe => do
    let (answer, cache) ← cache.getOrProbeM key fun _ => probe
    return (.found answer, cache)
  | .globals probe => do
    let (answer, cache) ← cache.globalsOrProbeM fun _ => probe
    return (.directories answer, cache)
  | .clear => return (.cleared, cache.clear)

def run (cache : ResolutionCache) (world : σ) : List (Call σ) → List (Outcome σ)
  | [] => []
  | call :: rest =>
    let ((reply, cache), world) := (cache.carryOut call).run world
    ⟨reply, cache.size, world⟩ :: cache.run world rest

/-! ## The history of calls -/

/-- A call with the world in which it is made. -/
structure Visit (σ : Type) where
  call : Call σ
  world : σ

namespace Visit

def isClear (visit : Visit σ) : Bool :=
  match visit.call with
  | .clear => true
  | _ => false

def key? (visit : Visit σ) : Option String :=
  match visit.call with
  | .get key _ => some key
  | _ => none

/-- What the probe of a visit finds when the visit asks for the key. -/
def found? (key : String) (visit : Visit σ) : Option (Option String) :=
  match visit.call with
  | .get other probe => if other = key then some (probe.run visit.world).1 else none
  | _ => none

/-- What the probe of a visit finds when the visit asks for the global directories. -/
def directories? (visit : Visit σ) : Option (List String) :=
  match visit.call with
  | .globals probe => some (probe.run visit.world).1
  | _ => none

end Visit

/-- The visits behind the last one that clears. -/
def sinceClear (visits : List (Visit σ)) : List (Visit σ) := visits.rtakeWhile (!·.isClear)

def firstFound (visits : List (Visit σ)) (key : String) : Option (Option String) :=
  (sinceClear visits).findSome? (·.found? key)

def firstDirectories (visits : List (Visit σ)) : Option (List String) :=
  (sinceClear visits).findSome? Visit.directories?

def keysGot (visits : List (Visit σ)) : List String := (sinceClear visits).filterMap Visit.key?

/-- The reply to a visit and the world behind it: the first probe since the memory was cleared
decides, and the probe of the visit itself acts if there was none before. -/
def Visit.ending (earlier : List (Visit σ)) (visit : Visit σ) : Reply × σ :=
  match visit.call with
  | .get key probe =>
    match firstFound earlier key with
    | some answer => (.found answer, visit.world)
    | none => (.found (probe.run visit.world).1, (probe.run visit.world).2)
  | .globals probe =>
    match firstDirectories earlier with
    | some answer => (.directories answer, visit.world)
    | none => (.directories (probe.run visit.world).1, (probe.run visit.world).2)
  | .clear => (.cleared, visit.world)

/-- The outcomes of calls as they follow from the history alone. -/
def recount (earlier : List (Visit σ)) (world : σ) : List (Call σ) → List (Outcome σ)
  | [] => []
  | call :: rest =>
    let visit : Visit σ := ⟨call, world⟩
    let (reply, world) := visit.ending earlier
    let visits := earlier ++ [visit]
    ⟨reply, (keysGot visits).toFinset.card, world⟩ :: recount visits world rest

section History

variable {visits : List (Visit σ)} {visit : Visit σ}

theorem sinceClear_concat (keeps : visit.isClear = false) :
    sinceClear (visits ++ [visit]) = sinceClear visits ++ [visit] :=
  List.rtakeWhile_concat_pos _ _ _ (by simp [keeps])

theorem sinceClear_concat_of_isClear (clears : visit.isClear = true) :
    sinceClear (visits ++ [visit]) = [] :=
  List.rtakeWhile_concat_neg _ _ _ (by simp [clears])

theorem firstFound_concat (keeps : visit.isClear = false) (key : String) :
    firstFound (visits ++ [visit]) key = (firstFound visits key).or (visit.found? key) := by
  rw [firstFound, sinceClear_concat keeps, List.findSome?_append, List.findSome?_singleton]
  rfl

theorem firstDirectories_concat (keeps : visit.isClear = false) :
    firstDirectories (visits ++ [visit]) =
      (firstDirectories visits).or visit.directories? := by
  rw [firstDirectories, sinceClear_concat keeps, List.findSome?_append, List.findSome?_singleton]
  rfl

theorem mem_keysGot_iff {key : String} :
    key ∈ keysGot visits ↔ (firstFound visits key).isSome := by
  have asks (visit : Visit σ) : visit.key? = some key ↔ (visit.found? key).isSome := by
    obtain ⟨call, world⟩ := visit
    cases call <;> simp [Visit.key?, Visit.found?]
  simp only [keysGot, firstFound, List.mem_filterMap, List.findSome?_isSome_iff, asks]

end History

/-! ## Agreement -/

/-- A memory holds what a history has found first. -/
structure Knows (cache : ResolutionCache) (visits : List (Visit σ)) : Prop where
  modules_eq : ∀ key, cache.modules.find? key = firstFound visits key
  globals_eq : cache.globalDirectories = firstDirectories visits
  distinct : cache.modules.keys.Nodup

variable {cache : ResolutionCache} {visits : List (Visit σ)}

theorem empty_knows : ({} : ResolutionCache).Knows ([] : List (Visit σ)) :=
  ⟨fun _ => rfl, rfl, .nil⟩

theorem Knows.size_eq (knows : cache.Knows visits) :
    cache.size = (keysGot visits).toFinset.card := by
  have size : cache.size = cache.modules.keys.length := (List.length_map _).symm
  have same : cache.modules.keys.toFinset = (keysGot visits).toFinset := by
    ext key
    rw [List.mem_toFinset, List.mem_toFinset, InsertionMap.mem_keys_iff, knows.modules_eq,
      mem_keysGot_iff]
  rw [size, ← List.toFinset_card_of_nodup knows.distinct, same]

/-- A visit that changes neither what was found first nor what is remembered. -/
theorem Knows.concat (knows : cache.Knows visits) {visit : Visit σ}
    (keeps : visit.isClear = false)
    (found : ∀ key, visit.found? key = none ∨ (firstFound visits key).isSome)
    (listed : visit.directories? = none ∨ (firstDirectories visits).isSome) :
    cache.Knows (visits ++ [visit]) := by
  have absorbed {α : Type} {first later : Option α} (known : later = none ∨ first.isSome) :
      first.or later = first := by
    rcases known with rfl | known
    · exact Option.or_none
    · exact Option.or_of_isSome known
  constructor
  · intro key
    rw [firstFound_concat keeps, absorbed (found key), knows.modules_eq]
  · rw [firstDirectories_concat keeps, absorbed listed, knows.globals_eq]
  · exact knows.distinct

theorem carryOut_of_knows (knows : cache.Knows visits) (visit : Visit σ) :
    ∃ later, (cache.carryOut visit.call).run visit.world =
        (((visit.ending visits).1, later), (visit.ending visits).2) ∧
      later.Knows (visits ++ [visit]) := by
  obtain ⟨call, world⟩ := visit
  cases call with
  | get key probe =>
      cases first : firstFound visits key with
      | some answer =>
          have hit := (knows.modules_eq key).trans first
          refine ⟨cache, ?_, knows.concat rfl ?_ (.inl rfl)⟩
          · simp only [carryOut, getOrProbeM, hit, Visit.ending, first]
            rfl
          · intro other
            by_cases same : key = other
            · subst same
              simp [first]
            · simp [Visit.found?, same]
      | none =>
          have miss := (knows.modules_eq key).trans first
          refine ⟨{ cache with
            modules := cache.modules.insert key (probe.run world).1 }, ?_, ?_, ?_, ?_⟩
          · simp only [carryOut, getOrProbeM, miss, Visit.ending, first]
            rfl
          · intro other
            rw [firstFound_concat rfl, InsertionMap.find?_insert, knows.modules_eq]
            by_cases same : key = other
            · subst same
              simp [Visit.found?, first]
            · simp [Visit.found?, same]
          · rw [firstDirectories_concat rfl, ← knows.globals_eq]
            exact Option.or_none.symm
          · exact InsertionMap.nodup_keys_insert knows.distinct _ _
  | globals probe =>
      cases first : firstDirectories visits with
      | some answer =>
          have hit := knows.globals_eq.trans first
          refine ⟨cache, ?_, knows.concat rfl (fun _ => .inl rfl) (.inr (by simp [first]))⟩
          simp only [carryOut, globalsOrProbeM, hit, Visit.ending, first]
          rfl
      | none =>
          have miss := knows.globals_eq.trans first
          refine ⟨{ cache with globalDirectories := some (probe.run world).1 }, ?_, ?_, ?_, ?_⟩
          · simp only [carryOut, globalsOrProbeM, miss, Visit.ending, first]
            rfl
          · intro other
            rw [firstFound_concat rfl, ← knows.modules_eq]
            exact Option.or_none.symm
          · rw [firstDirectories_concat rfl, first]
            rfl
          · exact knows.distinct
  | clear =>
      refine ⟨{}, rfl, ?_, ?_, .nil⟩
      · intro key
        rw [firstFound, sinceClear_concat_of_isClear rfl]
        rfl
      · rw [firstDirectories, sinceClear_concat_of_isClear rfl]
        rfl

theorem run_of_knows (knows : cache.Knows visits) (world : σ) (calls : List (Call σ)) :
    cache.run world calls = recount visits world calls := by
  induction calls generalizing cache visits world with
  | nil => rfl
  | cons call rest ih =>
      obtain ⟨later, carried, laterKnows⟩ := carryOut_of_knows knows ⟨call, world⟩
      simp only at carried
      simp only [run, recount, carried, ih laterKnows, laterKnows.size_eq]

/-- Calls on a new memory end as their history says. A key is answered with what the probe of its
first request since the last clearing has found, nothing included, and that probe is the only one
that acts; the global directories are one more such answer. The size counts the keys that were
requested since the last clearing. -/
theorem run_remembers_first_probes (world : σ) (calls : List (Call σ)) :
    ({} : ResolutionCache).run world calls = recount [] world calls :=
  run_of_knows empty_knows world calls

example :
    let probe : StateM Nat (Option String) := do modify (· + 1); return none
    (({} : ResolutionCache).run 0 [.get "eslint" probe, .clear, .get "eslint" probe,
      .get "eslint" probe]).map (·.world) = [1, 1, 2, 2] := rfl

end EditorLint.ResolutionCache
