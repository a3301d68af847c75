import FindataEngine.MemoryInvariant

/-!
# Concurrent calls on the memory layer

`MemoryLayer` guards its symbol map with a global `shared_mutex` and each symbol's sequence with
a mutex of its own. A call in progress is a `MemoryThread`, and each locked section of the code is
one atomic step (`MemoryThread.step`):

* `insert` takes the global lock in `get_or_create_symbol_data`, releases it, and then inserts
  under the symbol's lock alone (`insertInto`); `insert_batch` does the same for each group
  (`mergeInto`).
* `clear_cache` holds the global lock across its loop: it clears one symbol per section under
  that symbol's lock, and then resets `total_points_`. While it holds the global lock no other
  call can enter `get_or_create_symbol_data` (`MemoryWorld.step`), but a call that already holds
  its symbol's entry can still run its symbol section.

Each call that runs alone does what the sequential model does (`runAlone_insert`,
`runAlone_insertBatch`, `runAlone_clearCache`). Interleaved, an `insert` whose symbol section
runs after `clear_cache` cleared that symbol and before it reset the counter leaves its point
stored and uncounted: once both calls returned, `cache_size()` is `0` and the symbol holds one
point (`clearCache_drops_count`).
-/

set_option autoImplicit false

namespace FindataEngine

namespace MemoryLayer

open List

/-! ## The locked sections -/

/-- The section of `insert` under the symbol's lock, on the entry `data` it found there. -/
def insertInto (m : MemoryLayer) (data : SymbolData) (point : TimeSeriesPoint) :
    Bool × MemoryLayer :=
  let split := lowerBound data.points point.timestamp
  if startsAt split.2 point.timestamp then (false, m)
  else
    (true, { m.setSymbolData point.symbol ⟨split.1 ++ point :: split.2, data.totalPoints + 1⟩ with
      totalPoints := m.totalPoints + 1 })

/-- The section of `insert_batch` under a group's lock, on the entry `data` it found there. -/
def mergeInto (sort : StdSort) (m : MemoryLayer) (data : SymbolData) (symbol : String)
    (symbolPoints : List TimeSeriesPoint) : MemoryLayer :=
  let merged := stdUnique (stdMerge data.points (sort.run symbolPoints))
  let newPoints := merged.length - data.points.length
  { m.setSymbolData symbol ⟨merged, data.totalPoints + newPoints⟩ with
    totalPoints := m.totalPoints + newPoints }

/-- The entry a symbol section finds through the pointer `get_or_create_symbol_data` returned:
entries are never removed, so it is there. -/
def entryOf (m : MemoryLayer) (symbol : String) : SymbolData :=
  (m.symbolData.lookup symbol).getD .empty

theorem insert_eq_sections (m : MemoryLayer) (point : TimeSeriesPoint) :
    m.insert point = insertInto (m.getOrCreateSymbolData point.symbol).2
      (m.getOrCreateSymbolData point.symbol).1 point := rfl

theorem insertGroup_eq_sections (sort : StdSort) (m : MemoryLayer) (symbol : String)
    (symbolPoints : List TimeSeriesPoint) :
    m.insertGroup sort symbol symbolPoints = mergeInto sort (m.getOrCreateSymbolData symbol).2
      (m.getOrCreateSymbolData symbol).1 symbol symbolPoints := rfl

/-- After `get_or_create_symbol_data`, the symbol section finds the entry it returned. -/
theorem entryOf_getOrCreateSymbolData (m : MemoryLayer) (symbol : String) :
    (m.getOrCreateSymbolData symbol).2.entryOf symbol = (m.getOrCreateSymbolData symbol).1 := by
  rw [entryOf, lookup_getOrCreateSymbolData, if_pos rfl, Option.getD_some,
    getOrCreateSymbolData_fst]

/-! ## Calls in progress -/

/-- Where a memory-layer call stands. -/
inductive MemoryThread where
  /-- `insert` before `get_or_create_symbol_data`. -/
  | insert (point : TimeSeriesPoint)
  /-- `insert` holding its symbol's entry, before the symbol section. -/
  | inserting (point : TimeSeriesPoint)
  /-- `insert_batch` before the `get_or_create_symbol_data` of its next group. -/
  | insertBatch (groups : List (String × List TimeSeriesPoint))
  /-- `insert_batch` holding a group's entry, before the group's symbol section. -/
  | merging (symbol : String) (symbolPoints : List TimeSeriesPoint)
      (groups : List (String × List TimeSeriesPoint))
  /-- `clear_cache` before it takes the global lock. -/
  | clearCache
  /-- `clear_cache` holding the global lock, with the symbols it has still to clear. -/
  | clearing (symbols : List String)
  /-- `insert` or `insert_batch` returned. -/
  | returned (b : Bool)
  /-- `clear_cache` returned. -/
  | cleared
  deriving DecidableEq

/-- The call `insert_batch(points)` before its first section. -/
def MemoryThread.startBatch (sort : StdSort) (points : List TimeSeriesPoint) : MemoryThread :=
  if points.isEmpty then .returned true else .insertBatch (groupBySymbol sort points)

/-- Whether the call's next section takes the global lock. -/
def MemoryThread.needsGlobal : MemoryThread → Bool
  | .insert _ | .insertBatch (_ :: _) | .clearCache => true
  | _ => false

/-- Whether the call holds the global lock. -/
def MemoryThread.holdsGlobal : MemoryThread → Bool
  | .clearing _ => true
  | _ => false

/-- One atomic section of a memory-layer call. -/
def MemoryThread.step (sort : StdSort) (m : MemoryLayer) :
    MemoryThread → MemoryLayer × MemoryThread
  | .insert point => ((m.getOrCreateSymbolData point.symbol).2, .inserting point)
  | .inserting point =>
    ((insertInto m (m.entryOf point.symbol) point).2,
      .returned (insertInto m (m.entryOf point.symbol) point).1)
  | .insertBatch [] => (m, .returned true)
  | .insertBatch ((symbol, symbolPoints) :: groups) =>
    ((m.getOrCreateSymbolData symbol).2, .merging symbol symbolPoints groups)
  | .merging symbol symbolPoints groups =>
    (mergeInto sort m (m.entryOf symbol) symbol symbolPoints, .insertBatch groups)
  | .clearCache => (m, .clearing m.getSymbols)
  | .clearing [] => ({ m with totalPoints := 0 }, .cleared)
  | .clearing (symbol :: symbols) => (m.setSymbolData symbol .empty, .clearing symbols)
  | .returned b => (m, .returned b)
  | .cleared => (m, .cleared)

/-- Up to `fuel` sections of one call, with no other call in between. -/
def runAlone (sort : StdSort) : Nat → MemoryLayer → MemoryThread → MemoryLayer × MemoryThread
  | 0, m, t => (m, t)
  | fuel + 1, m, t => runAlone sort fuel (t.step sort m).1 (t.step sort m).2

/-- An `insert` that runs alone is the sequential `insert`. -/
theorem runAlone_insert (sort : StdSort) (m : MemoryLayer) (point : TimeSeriesPoint) :
    runAlone sort 2 m (.insert point) =
      ((m.insert point).2, .returned (m.insert point).1) := by
  simp only [runAlone, MemoryThread.step, entryOf_getOrCreateSymbolData, insert_eq_sections]

theorem runAlone_returned (sort : StdSort) (b : Bool) :
    ∀ fuel m, runAlone sort fuel m (.returned b) = (m, .returned b)
  | 0, _ => rfl
  | fuel + 1, m => runAlone_returned sort b fuel m

/-- The loop of `insert_batch` over its groups, run alone: the sequential loop. -/
theorem runAlone_groups (sort : StdSort) :
    ∀ (groups : List (String × List TimeSeriesPoint)) (m : MemoryLayer),
      runAlone sort (2 * groups.length + 1) m (.insertBatch groups) =
        (groups.foldl (fun m g => insertGroup sort m g.1 g.2) m, .returned true)
  | [], _ => rfl
  | (symbol, symbolPoints) :: groups, m => by
    rw [show 2 * ((symbol, symbolPoints) :: groups).length + 1 = 2 * groups.length + 1 + 1 + 1 by
      simp only [length_cons]; omega]
    simp only [runAlone, MemoryThread.step, entryOf_getOrCreateSymbolData, foldl_cons,
      ← insertGroup_eq_sections]
    exact runAlone_groups sort groups _

/-- An `insert_batch` that runs alone is the sequential `insert_batch`. -/
theorem runAlone_insertBatch (sort : StdSort) (m : MemoryLayer) (points : List TimeSeriesPoint) :
    runAlone sort (2 * (groupBySymbol sort points).length + 1) m (.startBatch sort points) =
      ((m.insertBatch sort points).2, .returned (m.insertBatch sort points).1) := by
  unfold MemoryThread.startBatch insertBatch
  split
  · exact runAlone_returned sort true _ m
  · exact runAlone_groups sort _ m

/-- The loop of `clear_cache` over `symbols`, run alone, and its counter reset. -/
theorem runAlone_clearing (sort : StdSort) :
    ∀ (symbols : List String) (m : MemoryLayer),
      (runAlone sort (symbols.length + 1) m (.clearing symbols)).2 = .cleared ∧
        (runAlone sort (symbols.length + 1) m (.clearing symbols)).1.totalPoints = 0 ∧
        ∀ s, (runAlone sort (symbols.length + 1) m (.clearing symbols)).1.symbolData.lookup s =
          if s ∈ symbols then some .empty else m.symbolData.lookup s
  | [], m => ⟨rfl, rfl, fun s => by simp [runAlone, MemoryThread.step]⟩
  | symbol :: symbols, m => by
    obtain ⟨hthread, htotal, hlookup⟩ :=
      runAlone_clearing sort symbols (m.setSymbolData symbol .empty)
    refine ⟨hthread, htotal, fun s => ?_⟩
    show AList.lookup s (runAlone sort (symbols.length + 1) (m.setSymbolData symbol .empty)
      (.clearing symbols)).1.symbolData = _
    rw [hlookup, lookup_setSymbolData]
    by_cases hs : s = symbol <;> by_cases hss : s ∈ symbols <;> simp [hs, hss]

/-- A `clear_cache` that runs alone is the sequential `clear_cache`, up to the order of the
symbol map, which an `unordered_map` does not have. -/
theorem runAlone_clearCache (sort : StdSort) (m : MemoryLayer) :
    (runAlone sort (m.getSymbols.length + 2) m .clearCache).2 = .cleared ∧
      (runAlone sort (m.getSymbols.length + 2) m .clearCache).1.cacheSize = m.clearCache.cacheSize ∧
      ∀ s, (runAlone sort (m.getSymbols.length + 2) m .clearCache).1.symbolData.lookup s =
        m.clearCache.symbolData.lookup s := by
  obtain ⟨hthread, htotal, hlookup⟩ := runAlone_clearing sort m.getSymbols m
  refine ⟨hthread, htotal, fun s => ?_⟩
  rw [show runAlone sort (m.getSymbols.length + 2) m .clearCache =
    runAlone sort (m.getSymbols.length + 1) m (.clearing m.getSymbols) from rfl, hlookup,
    lookup_clearCache, getSymbols]
  cases h : m.symbolData.lookup s with
  | none =>
    have hs : s ∉ m.symbolData.keys := fun hk => AList.lookup_eq_none.mp h (AList.mem_keys.mp hk)
    simp [hs]
  | some data =>
    have hs : s ∈ m.symbolData.keys := AList.mem_keys.mpr (AList.lookup_isSome.mp (by simp [h]))
    simp [hs]

/-! ## Interleavings -/

/-- Several calls in progress on one layer. -/
structure MemoryWorld where
  layer : MemoryLayer
  threads : List MemoryThread

/-- The next section of call `i`. A section that takes the global lock waits while another call
holds it. -/
def MemoryWorld.step (sort : StdSort) (w : MemoryWorld) (i : Nat) : MemoryWorld :=
  match w.threads[i]? with
  | none => w
  | some t =>
    if t.needsGlobal && w.threads.any MemoryThread.holdsGlobal then w
    else ⟨(t.step sort w.layer).1, w.threads.set i (t.step sort w.layer).2⟩

/-- The sections of the calls in the order the schedule names them. -/
def runSchedule (sort : StdSort) (w : MemoryWorld) (schedule : List Nat) : MemoryWorld :=
  schedule.foldl (MemoryWorld.step sort) w

/-- A new layer with an `insert` of a point of `FB` at the epoch and a `clear_cache` in
progress. -/
def insertAndClear : MemoryWorld :=
  ⟨empty, [.insert ⟨.ofCount 0, 1, "FB"⟩, .clearCache]⟩

/-- The `insert` creates the entry of `FB`; `clear_cache` takes the global lock and clears `FB`;
the `insert` stores its point under `FB`'s lock and counts it; `clear_cache` resets the counter.
Both calls return, `FB` holds the point and counts it, and `cache_size()` is `0`. -/
theorem clearCache_drops_count :
    (runSchedule stableSort insertAndClear [0, 1, 1, 0, 1]).threads = [.returned true, .cleared] ∧
      (runSchedule stableSort insertAndClear [0, 1, 1, 0, 1]).layer.cacheSize = 0 ∧
      (runSchedule stableSort insertAndClear [0, 1, 1, 0, 1]).layer.symbolData.lookup "FB" =
        some ⟨[⟨.ofCount 0, 1, "FB"⟩], 1⟩ :=
  ⟨rfl, rfl, by decide⟩

end MemoryLayer

end FindataEngine
