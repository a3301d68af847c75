import FindataEngine.MemoryLayer
import Mathlib.Data.List.Sort

/-!
# Invariants M1 and M2 of the memory buffer

Every symbol's sequence is strictly increasing in timestamp and holds only points of that symbol
(`Invariant`). `insert` keeps it because it refuses a timestamp that `lower_bound` finds and
inserts at the split; `insertBatch` keeps it because `std::merge` of two sorted sequences is
sorted and `std::unique` of a sorted sequence is strictly increasing, whatever `std::sort` does
with ties. So it holds after every run of `insert`, `insert_batch` and `clear_cache` from an
empty layer (`run_strictlySorted_and_symbol`).

`insert_batch` does not behave as a loop of `insert` calls: which of a batch's points with one
timestamp survives depends on how `std::sort` orders them, and `std::sort` is not stable
(`insertBatch_keeps_later_duplicate`).
-/

set_option autoImplicit false

namespace FindataEngine

namespace MemoryLayer

open List

/-- Invariants M1 and M2 for one symbol's entry. -/
def SymbolWF (symbol : String) (data : SymbolData) : Prop :=
  StrictlySorted data.points ∧ ∀ p ∈ data.points, p.symbol = symbol

/-- Invariants M1 and M2 for every entry of the layer. -/
def Invariant (m : MemoryLayer) : Prop :=
  ∀ s data, m.symbolData.lookup s = some data → SymbolWF s data

/-! ## One lemma per operation -/

section Steps

variable {m : MemoryLayer}

theorem invariant_empty : Invariant empty := fun _ _ h => by simp [empty] at h

theorem symbolWF_empty (s : String) : SymbolWF s .empty :=
  ⟨sorted_nil, fun _ h => by simp [SymbolData.empty] at h⟩

theorem Invariant.setSymbolData (hm : Invariant m) {s : String} {d : SymbolData}
    (hd : SymbolWF s d) : Invariant (m.setSymbolData s d) := by
  intro s' d' h
  rw [lookup_setSymbolData] at h
  split at h
  · cases h; subst s'; exact hd
  · exact hm s' d' h

theorem Invariant.getOrCreate (hm : Invariant m) (s : String) :
    Invariant (m.getOrCreateSymbolData s).2 ∧ SymbolWF s (m.getOrCreateSymbolData s).1 := by
  have hfst : SymbolWF s (m.getOrCreateSymbolData s).1 := by
    rw [getOrCreateSymbolData_fst]
    cases h : m.symbolData.lookup s with
    | none => exact symbolWF_empty s
    | some d => exact hm s d h
  refine ⟨fun s' d' h => ?_, hfst⟩
  rw [lookup_getOrCreateSymbolData] at h
  split at h
  · cases h; subst s'; rwa [← getOrCreateSymbolData_fst]
  · exact hm s' d' h

/-- Inserting at the `lower_bound` split keeps the sequence strictly increasing unless the split
starts at the point's own timestamp. -/
theorem strictlySorted_insert_split {points : List TimeSeriesPoint} {point : TimeSeriesPoint}
    (hs : StrictlySorted points)
    (hdup : startsAt (lowerBound points point.timestamp).2 point.timestamp = false) :
    StrictlySorted ((lowerBound points point.timestamp).1 ++
      point :: (lowerBound points point.timestamp).2) := by
  have hsplit := lowerBound_append points point.timestamp
  have hs' : StrictlySorted ((lowerBound points point.timestamp).1 ++
      (lowerBound points point.timestamp).2) := by rwa [hsplit]
  have hafter : ∀ q ∈ (lowerBound points point.timestamp).2, point.timestamp < q.timestamp := by
    intro q hq
    obtain ⟨r, rest, hr⟩ : ∃ r rest, (lowerBound points point.timestamp).2 = r :: rest :=
      exists_cons_of_ne_nil (ne_nil_of_mem hq)
    have hr_ge := not_before_head_lowerBound_snd hr
    have hr_ne : r.timestamp ≠ point.timestamp := by
      simpa [hr, startsAt] using hdup
    have hr_lt : point.timestamp < r.timestamp := lt_of_le_of_ne (not_lt.mp hr_ge) hr_ne.symm
    rw [hr] at hq hs'
    rcases mem_cons.mp hq with rfl | hq
    · exact hr_lt
    · exact lt_trans hr_lt (rel_of_sorted_cons (pairwise_append.mp hs').2.1 q hq)
  rw [StrictlySorted, Sorted, pairwise_append] at hs' ⊢
  refine ⟨hs'.1, pairwise_cons.mpr ⟨hafter, hs'.2.1⟩, fun a ha b hb => ?_⟩
  rcases mem_cons.mp hb with rfl | hb
  · exact before_of_mem_lowerBound_fst ha
  · exact hs'.2.2 a ha b hb

theorem Invariant.insert (hm : Invariant m) (point : TimeSeriesPoint) :
    Invariant (m.insert point).2 := by
  obtain ⟨hm', hd⟩ := hm.getOrCreate point.symbol
  unfold MemoryLayer.insert
  dsimp only
  split
  · exact hm'
  · rename_i hdup
    refine hm'.setSymbolData ⟨strictlySorted_insert_split hd.1 (Bool.eq_false_iff.mpr hdup), ?_⟩
    intro p hp
    simp only [mem_append, mem_cons] at hp
    rcases hp with hp | rfl | hp
    · exact hd.2 p ((takeWhile_sublist _).subset hp)
    · rfl
    · exact hd.2 p ((dropWhile_suffix _).subset hp)

theorem Invariant.insertGroup (hm : Invariant m) (sort : StdSort) {symbol : String}
    {symbolPoints : List TimeSeriesPoint} (hsym : ∀ p ∈ symbolPoints, p.symbol = symbol) :
    Invariant (m.insertGroup sort symbol symbolPoints) := by
  obtain ⟨hm', hd⟩ := hm.getOrCreate symbol
  refine hm'.setSymbolData ⟨strictlySorted_stdUnique
    (sortedByTime_stdMerge hd.1.sortedByTime (sort.sorted _)), fun p hp => ?_⟩
  have hp' := stdMerge_perm.subset (mem_of_mem_stdUnique hp)
  rcases mem_append.mp hp' with hp' | hp'
  · exact hd.2 p hp'
  · exact hsym p ((sort.perm _).subset hp')

theorem Invariant.insertBatch (hm : Invariant m) (sort : StdSort)
    (points : List TimeSeriesPoint) : Invariant (m.insertBatch sort points).2 := by
  unfold MemoryLayer.insertBatch
  split
  · exact hm
  · have key : ∀ (gs : List (String × List TimeSeriesPoint)) (m : MemoryLayer), Invariant m →
        (∀ g ∈ gs, ∀ p ∈ g.2, p.symbol = g.1) →
          Invariant (gs.foldl (fun m g => m.insertGroup sort g.1 g.2) m) := by
      intro gs
      induction gs with
      | nil => exact fun _ hm _ => hm
      | cons g gs ih =>
        intro m hm hgs
        exact ih _ (hm.insertGroup sort (hgs g (mem_cons_self _ _)))
          fun g' hg' => hgs g' (mem_cons_of_mem _ hg')
    exact key _ m hm fun g hg _ hp => symbol_eq_of_mem_groupBySymbol hg hp

theorem Invariant.clearCache (_ : Invariant m) : Invariant m.clearCache := by
  intro s d h
  rw [lookup_clearCache] at h
  obtain ⟨_, -, rfl⟩ := Option.map_eq_some'.mp h
  exact symbolWF_empty s

end Steps

/-! ## What the queries read -/

section Queries

/-- The points buffered for a symbol. -/
def symbolPoints (m : MemoryLayer) (symbol : String) : List TimeSeriesPoint :=
  ((m.symbolData.lookup symbol).map (·.points)).getD []

variable {m : MemoryLayer}

/-- `get_latest` is the last buffered point of the symbol. -/
theorem getLatest_eq_last (m : MemoryLayer) (symbol : String) :
    m.getLatest symbol = (m.symbolPoints symbol).getLast? := by
  unfold getLatest symbolPoints
  cases m.symbolData.lookup symbol <;> rfl

theorem Invariant.symbolPoints_wf (hm : Invariant m) (symbol : String) :
    SymbolWF symbol ⟨m.symbolPoints symbol, 0⟩ := by
  unfold symbolPoints
  cases h : m.symbolData.lookup symbol with
  | none => exact symbolWF_empty symbol
  | some data => exact hm symbol data h

theorem Invariant.getRange_eq (hm : Invariant m) (symbol : String) (start end_ : Timestamp) :
    m.getRange symbol start end_ =
      (m.symbolPoints symbol).filter fun p => start ≤ p.timestamp ∧ p.timestamp ≤ end_ := by
  cases h : m.symbolData.lookup symbol with
  | none => simp [getRange, symbolPoints, h]
  | some data =>
    simp only [symbolPoints, h, Option.map_some', Option.getD_some]
    exact getRange_eq_filter h (hm symbol data h).1.sortedByTime start end_

theorem Invariant.symbol_eq (hm : Invariant m) {symbol : String} {p : TimeSeriesPoint}
    (hp : p ∈ m.symbolPoints symbol) : p.symbol = symbol :=
  (hm.symbolPoints_wf symbol).2 p hp

end Queries

/-! ## The keys of the symbol map -/

section Keys

variable {m : MemoryLayer} {s : String}

theorem mem_getSymbols : s ∈ m.getSymbols ↔ (m.symbolData.lookup s).isSome :=
  AList.mem_keys.trans AList.lookup_isSome.symm

theorem mem_getSymbols_getOrCreateSymbolData (symbol : String) :
    s ∈ (m.getOrCreateSymbolData symbol).2.getSymbols ↔ s = symbol ∨ s ∈ m.getSymbols := by
  rw [mem_getSymbols, mem_getSymbols, lookup_getOrCreateSymbolData]
  split_ifs with h <;> simp [h]

theorem mem_getSymbols_setSymbolData (symbol : String) (data : SymbolData) :
    s ∈ (m.setSymbolData symbol data).getSymbols ↔ s = symbol ∨ s ∈ m.getSymbols := by
  rw [mem_getSymbols, mem_getSymbols, lookup_setSymbolData]
  split_ifs with h <;> simp [h]

/-- Writing through the `SymbolData*` of `get_or_create_symbol_data` adds only its key. -/
theorem mem_getSymbols_setSymbolData_getOrCreate (symbol : String) (data : SymbolData) :
    s ∈ ((m.getOrCreateSymbolData symbol).2.setSymbolData symbol data).getSymbols ↔
      s = symbol ∨ s ∈ m.getSymbols := by
  rw [mem_getSymbols_setSymbolData, mem_getSymbols_getOrCreateSymbolData, ← or_assoc, or_self]

/-- `insert` adds its point's symbol, whether it inserts the point or refuses it. -/
theorem mem_getSymbols_insert (point : TimeSeriesPoint) :
    s ∈ (m.insert point).2.getSymbols ↔ s = point.symbol ∨ s ∈ m.getSymbols := by
  dsimp only [insert]
  split
  · exact mem_getSymbols_getOrCreateSymbolData _
  · exact mem_getSymbols_setSymbolData_getOrCreate _ _

theorem mem_getSymbols_insertGroup (sort : StdSort) (symbol : String)
    (symbolPoints : List TimeSeriesPoint) :
    s ∈ (insertGroup sort m symbol symbolPoints).getSymbols ↔
      s = symbol ∨ s ∈ m.getSymbols :=
  mem_getSymbols_setSymbolData_getOrCreate _ _

theorem mem_getSymbols_foldl_insertGroup (sort : StdSort) :
    ∀ (groups : List (String × List TimeSeriesPoint)) (m : MemoryLayer),
      s ∈ (groups.foldl (fun m g => insertGroup sort m g.1 g.2) m).getSymbols ↔
        s ∈ groups.map (·.1) ∨ s ∈ m.getSymbols
  | [], _ => by simp
  | g :: groups, m => by
    rw [foldl_cons, mem_getSymbols_foldl_insertGroup sort groups, mem_getSymbols_insertGroup,
      map_cons, mem_cons, or_assoc]
    exact or_left_comm

/-- `insert_batch` adds the symbol of every point of the batch. -/
theorem mem_getSymbols_insertBatch (sort : StdSort) (points : List TimeSeriesPoint) :
    s ∈ (m.insertBatch sort points).2.getSymbols ↔
      (∃ p ∈ points, p.symbol = s) ∨ s ∈ m.getSymbols := by
  unfold insertBatch
  split
  · rename_i hempty
    simp [isEmpty_iff.mp hempty]
  · rw [mem_getSymbols_foldl_insertGroup, mem_map_fst_groupBySymbol]

@[simp] theorem getSymbols_clearCache (m : MemoryLayer) :
    m.clearCache.getSymbols = m.getSymbols := by
  simp [clearCache, getSymbols, mapValues, AList.keys, List.keys, Function.comp_def]

theorem mem_getSymbols_of_mem_symbolPoints {p : TimeSeriesPoint} (hp : p ∈ m.symbolPoints s) :
    s ∈ m.getSymbols := by
  unfold symbolPoints at hp
  cases h : m.symbolData.lookup s with
  | none => simp [h] at hp
  | some _ => simp [mem_getSymbols, h]

theorem mem_getSymbols_of_mem_getRange {p : TimeSeriesPoint} {start end_ : Timestamp}
    (hp : p ∈ m.getRange s start end_) : s ∈ m.getSymbols := by
  unfold getRange at hp
  split at hp
  · exact absurd hp (not_mem_nil _)
  · simp [mem_getSymbols, *]

end Keys

/-! ## Runs of the public interface -/

/-- A call of the memory layer's interface that changes it. -/
inductive Op where
  | insert (point : TimeSeriesPoint)
  | insertBatch (points : List TimeSeriesPoint)
  | clearCache

/-- The layer after one call. -/
def Op.apply (sort : StdSort) (m : MemoryLayer) : Op → MemoryLayer
  | .insert point => (m.insert point).2
  | .insertBatch points => (m.insertBatch sort points).2
  | .clearCache => m.clearCache

/-- The layer after a sequence of calls, one after another, from a new layer. -/
def run (sort : StdSort) (ops : List Op) : MemoryLayer :=
  ops.foldl (Op.apply sort) empty

theorem Invariant.apply {m : MemoryLayer} (hm : Invariant m) (sort : StdSort) (op : Op) :
    Invariant (op.apply sort m) := by
  cases op with
  | insert point => exact hm.insert point
  | insertBatch points => exact hm.insertBatch sort points
  | clearCache => exact hm.clearCache

theorem invariant_run (sort : StdSort) (ops : List Op) : Invariant (run sort ops) := by
  suffices ∀ m, Invariant m → Invariant (ops.foldl (Op.apply sort) m) from
    this _ invariant_empty
  induction ops with
  | nil => exact fun _ hm => hm
  | cons op ops ih => exact fun m hm => ih _ (hm.apply sort op)

/-- After any run of `insert`, `insert_batch` and `clear_cache` from an empty layer, with any
`std::sort`, every symbol's sequence is strictly increasing and carries only that symbol. -/
theorem run_strictlySorted_and_symbol (sort : StdSort) (ops : List Op) (s : String)
    (data : SymbolData) (h : (run sort ops).symbolData.lookup s = some data) :
    StrictlySorted data.points ∧ ∀ p ∈ data.points, p.symbol = s :=
  invariant_run sort ops s data h

/-- An `insert` before the stored point, then a batch out of timestamp order that repeats the
stored timestamp `5`. -/
def outOfOrderRun : List Op :=
  [.insert ⟨.ofCount 5, 1, "FB"⟩, .insert ⟨.ofCount 2, 2, "FB"⟩,
    .insertBatch [⟨.ofCount 5, 3, "FB"⟩, ⟨.ofCount 3, 4, "FB"⟩, ⟨.ofCount 1, 5, "FB"⟩]]

/-- The run leaves `FB` with its four timestamps once each, in increasing order; the batch's
point at `5` is refused. -/
theorem run_strictlySorted_and_symbol_outOfOrder :
    (run stableSort outOfOrderRun).symbolData.lookup "FB" =
        some ⟨[⟨.ofCount 1, 5, "FB"⟩, ⟨.ofCount 2, 2, "FB"⟩, ⟨.ofCount 3, 4, "FB"⟩,
          ⟨.ofCount 5, 1, "FB"⟩], 4⟩ ∧
      StrictlySorted [⟨.ofCount 1, 5, "FB"⟩, ⟨.ofCount 2, 2, "FB"⟩, ⟨.ofCount 3, 4, "FB"⟩,
        ⟨.ofCount 5, 1, "FB"⟩] ∧
      ∀ p ∈ ([⟨.ofCount 1, 5, "FB"⟩, ⟨.ofCount 2, 2, "FB"⟩, ⟨.ofCount 3, 4, "FB"⟩,
        ⟨.ofCount 5, 1, "FB"⟩] : List TimeSeriesPoint), p.symbol = "FB" :=
  have hlookup : (run stableSort outOfOrderRun).symbolData.lookup "FB" =
      some ⟨[⟨.ofCount 1, 5, "FB"⟩, ⟨.ofCount 2, 2, "FB"⟩, ⟨.ofCount 3, 4, "FB"⟩,
        ⟨.ofCount 5, 1, "FB"⟩], 4⟩ := by
    decide
  ⟨hlookup, run_strictlySorted_and_symbol stableSort outOfOrderRun "FB" _ hlookup⟩

/-- After any run of `insert`, `insert_batch` and `clear_cache` from an empty layer, and for any
bounds (an empty or inverted range, or the extremes `flush` uses), `get_range` returns exactly
the symbol's buffered points in `[start, end]`, in increasing timestamp order; `get_latest`
returns a buffered point with the largest timestamp, and `none` exactly when there is none. -/
theorem run_getRange_getLatest (sort : StdSort) (ops : List Op) (symbol : String)
    (start end_ : Timestamp) :
    (run sort ops).getRange symbol start end_ =
        ((run sort ops).symbolPoints symbol).filter
          (fun p => start ≤ p.timestamp ∧ p.timestamp ≤ end_) ∧
      StrictlySorted ((run sort ops).getRange symbol start end_) ∧
      ((run sort ops).getLatest symbol = none ↔ (run sort ops).symbolPoints symbol = []) ∧
      ∀ p, (run sort ops).getLatest symbol = some p →
        p ∈ (run sort ops).symbolPoints symbol ∧
          ∀ q ∈ (run sort ops).symbolPoints symbol, q.timestamp ≤ p.timestamp := by
  have hm := invariant_run sort ops
  have hs := (hm.symbolPoints_wf symbol).1
  rw [hm.getRange_eq, getLatest_eq_last]
  exact ⟨rfl, hs.filter _, getLast?_eq_none_iff, fun _ hp => hs.sortedByTime.getLast?_latest hp⟩

end MemoryLayer

end FindataEngine
