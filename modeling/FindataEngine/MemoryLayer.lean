import FindataEngine.StdLib
import Mathlib.Data.List.AList

/-!
# The memory layer

`MemoryLayer` of `memory_layer.cpp`, run one call at a time. The `unordered_map` from symbols to
their `SymbolData` is an association list, whose keys are distinct by construction; a
`SymbolData` keeps the symbol's points and its own counter, and the layer keeps the global counter
`total_points_`. The per-symbol and global `shared_mutex`es only matter when calls overlap.

* `insert` splits the symbol's sequence at `std::lower_bound`, refuses a point whose timestamp is
  already there, and otherwise inserts it at the split.
* `insertBatch` groups the batch by symbol and, per group, sorts it with `std::sort`, merges it
  with the stored sequence by `std::merge`, and keeps the first point of each timestamp by
  `std::unique`.
* `getRange` is the `[lower_bound(start), upper_bound(end))` slice: both ends inclusive.
* `clearCache` empties every sequence and both counters and keeps the symbols.

On a strictly increasing sequence the slice is a filter (`getRange_eq_filter`).
-/

set_option autoImplicit false

namespace FindataEngine

open List

/-- Every value of an association list replaced by `f`, with its keys kept. -/
def mapValues {α β : Type} (f : α → β → β) (s : AList fun _ : α => β) :
    AList fun _ : α => β :=
  ⟨s.entries.map fun e => ⟨e.1, f e.1 e.2⟩, by
    have hk : (s.entries.map fun e => (⟨e.1, f e.1 e.2⟩ : Sigma fun _ : α => β)).keys =
        s.entries.keys := by
      simp [List.keys, Function.comp_def]
    unfold List.NodupKeys
    rw [hk]
    exact s.nodupKeys⟩

section MapValues

variable {α β : Type} (f : α → β → β)

theorem lookup_mapValues [DecidableEq α] (s : AList fun _ : α => β) (a : α) :
    (mapValues f s).lookup a = (s.lookup a).map (f a) := by
  obtain ⟨l, hl⟩ := s
  simp only [AList.lookup, mapValues]
  clear hl
  induction l with
  | nil => rfl
  | cons e l ih =>
    obtain ⟨k, v⟩ := e
    by_cases h : a = k
    · subst h; simp [dlookup_cons_eq]
    · rw [map_cons, dlookup_cons_ne _ ⟨k, _⟩ h,
        dlookup_cons_ne l (⟨k, v⟩ : Sigma fun _ : α => β) h, ih]

end MapValues

/-- `MemoryLayer::Impl::SymbolData`: a symbol's points and its counter `total_points`. -/
structure SymbolData where
  points : List TimeSeriesPoint
  totalPoints : Nat
  deriving DecidableEq, Repr

/-- The `SymbolData` that `std::make_unique<SymbolData>()` creates. -/
def SymbolData.empty : SymbolData := ⟨[], 0⟩

/-- `MemoryLayer::Impl`: the symbol map and the global counter `total_points_`. -/
structure MemoryLayer where
  symbolData : AList fun _ : String => SymbolData
  totalPoints : Nat
  deriving DecidableEq

namespace MemoryLayer

/-- A newly constructed memory layer. -/
def empty : MemoryLayer := ⟨∅, 0⟩

/-- `get_or_create_symbol_data`: the symbol's entry, created empty on first use. -/
def getOrCreateSymbolData (m : MemoryLayer) (symbol : String) : SymbolData × MemoryLayer :=
  match m.symbolData.lookup symbol with
  | some data => (data, m)
  | none => (.empty, { m with symbolData := m.symbolData.insert symbol .empty })

/-- The writes through the `SymbolData*` that `get_or_create_symbol_data` returned. -/
def setSymbolData (m : MemoryLayer) (symbol : String) (data : SymbolData) : MemoryLayer :=
  { m with symbolData := m.symbolData.insert symbol data }

/-- The duplicate test `it != points.end() && it->timestamp == point.timestamp`. -/
def startsAt : List TimeSeriesPoint → Timestamp → Bool
  | p :: _, t => p.timestamp = t
  | [], _ => false

/-- `MemoryLayer::insert`. -/
def insert (m : MemoryLayer) (point : TimeSeriesPoint) : Bool × MemoryLayer :=
  let data := (m.getOrCreateSymbolData point.symbol).1
  let m := (m.getOrCreateSymbolData point.symbol).2
  let split := lowerBound data.points point.timestamp
  if startsAt split.2 point.timestamp then (false, m)
  else (true, { m.setSymbolData point.symbol ⟨split.1 ++ point :: split.2, data.totalPoints + 1⟩ with
    totalPoints := m.totalPoints + 1 })

/-- The body of `insert_batch`'s loop for one symbol group. -/
def insertGroup (sort : StdSort) (m : MemoryLayer) (symbol : String)
    (symbolPoints : List TimeSeriesPoint) : MemoryLayer :=
  let data := (m.getOrCreateSymbolData symbol).1
  let m := (m.getOrCreateSymbolData symbol).2
  let merged := stdUnique (stdMerge data.points (sort.run symbolPoints))
  let newPoints := merged.length - data.points.length
  { m.setSymbolData symbol ⟨merged, data.totalPoints + newPoints⟩ with
    totalPoints := m.totalPoints + newPoints }

/-- `MemoryLayer::insert_batch`. -/
def insertBatch (sort : StdSort) (m : MemoryLayer) (points : List TimeSeriesPoint) :
    Bool × MemoryLayer :=
  if points.isEmpty then (true, m)
  else (true, (groupBySymbol sort points).foldl (fun m g => insertGroup sort m g.1 g.2) m)

/-- `MemoryLayer::get_latest`. -/
def getLatest (m : MemoryLayer) (symbol : String) : Option TimeSeriesPoint :=
  match m.symbolData.lookup symbol with
  | none => none
  | some data => data.points.getLast?

/-- `MemoryLayer::get_range`: the points from `lower_bound(start)` to `upper_bound(end)`. -/
def getRange (m : MemoryLayer) (symbol : String) (start end_ : Timestamp) :
    List TimeSeriesPoint :=
  match m.symbolData.lookup symbol with
  | none => []
  | some data => (upperBound (lowerBound data.points start).2 end_).1

/-- `MemoryLayer::clear_cache`. -/
def clearCache (m : MemoryLayer) : MemoryLayer :=
  ⟨mapValues (fun _ _ => .empty) m.symbolData, 0⟩

/-- `MemoryLayer::cache_size` and `get_total_points`. -/
def cacheSize (m : MemoryLayer) : Nat := m.totalPoints

/-- `MemoryLayer::get_symbols`. -/
def getSymbols (m : MemoryLayer) : List String := m.symbolData.keys

/-! ## Lookups after each update -/

section Lookup

variable (m : MemoryLayer) (s s' : String)

theorem getOrCreateSymbolData_fst :
    (m.getOrCreateSymbolData s).1 = (m.symbolData.lookup s).getD .empty := by
  unfold getOrCreateSymbolData; split <;> simp_all

theorem lookup_getOrCreateSymbolData :
    (m.getOrCreateSymbolData s).2.symbolData.lookup s' =
      if s' = s then some ((m.symbolData.lookup s).getD .empty) else m.symbolData.lookup s' := by
  unfold getOrCreateSymbolData
  split <;> split <;> (try subst s') <;> simp_all [AList.lookup_insert, AList.lookup_insert_ne]

@[simp] theorem totalPoints_getOrCreateSymbolData :
    (m.getOrCreateSymbolData s).2.totalPoints = m.totalPoints := by
  unfold getOrCreateSymbolData; split <;> rfl

theorem lookup_setSymbolData (d : SymbolData) :
    (m.setSymbolData s d).symbolData.lookup s' =
      if s' = s then some d else m.symbolData.lookup s' := by
  unfold setSymbolData
  split
  · subst s'; exact AList.lookup_insert _
  · exact AList.lookup_insert_ne ‹_›

@[simp] theorem totalPoints_setSymbolData (d : SymbolData) :
    (m.setSymbolData s d).totalPoints = m.totalPoints := rfl

theorem lookup_clearCache :
    (m.clearCache).symbolData.lookup s = (m.symbolData.lookup s).map fun _ => .empty :=
  lookup_mapValues _ _ _

end Lookup

/-- On a sorted sequence, `get_range` keeps exactly the points with `start ≤ t ≤ end`. -/
theorem getRange_eq_filter {m : MemoryLayer} {symbol : String} {data : SymbolData}
    (hm : m.symbolData.lookup symbol = some data) (hs : SortedByTime data.points)
    (start end_ : Timestamp) :
    m.getRange symbol start end_ =
      data.points.filter fun p => start ≤ p.timestamp ∧ p.timestamp ≤ end_ := by
  simp only [getRange, hm, lowerBound, upperBound, dropWhile_before_eq_filter hs]
  rw [takeWhile_notAfter_eq_filter (hs.sublist (filter_sublist _)), filter_filter]
  congr 1
  funext p
  simp [Bool.and_comm]

end MemoryLayer

end FindataEngine
