import FindataEngine.Durability

/-!
# The symbols the engine reports

`StorageEngine::get_symbols` returns the memory layer's `get_symbols`: the keys of its symbol
map. The disk layer is never asked. `get_or_create_symbol_data` adds a key for every point that
`insert` or `insert_batch` is handed, before the duplicate test, and `clear_cache` empties each
symbol's points but keeps its key.

* `stateAfter_writeBatch_prefix`: whether `DiskLayer::write_batch` returns or throws, the layer
  it leaves holds the segments of a prefix of its symbol groups, in the order its
  `unordered_map` iterates them, each with its file and its index entry, and nothing of the other
  groups. The order is any `StdSort`'s `groupOrder`, and so any order at all
  (`exists_groupOrder`).
* `stateAfter_flush`: what `flush` can leave, returned or thrown: such a prefix of the groups of
  the buffered points on disk, and the memory layer as it was or cleared.
* `readRange_after_flush_error`: after a `flush` of plain symbols that throws, `read_range`
  returns the buffered points of each symbol of the written prefix twice, from memory and from
  the new segment.
* `mem_getSymbols_runEngine`: after any run from an empty directory, `get_symbols` reports
  exactly the symbols of the points handed to `write_point` and `write_batch`, whether the call
  was refused, flushed or threw.
* `mem_getSymbols_of_readRange`: a symbol for which `read_range` returns a point is reported,
  also when all its points are on disk: the index names only symbols of flushed points, whose
  keys the memory layer keeps (`Reporting`).
-/

set_option autoImplicit false

namespace FindataEngine

open List

namespace DiskLayer

variable {s : String}

theorem mem_metadata_addSegment {d : DiskLayer} {symbol : String} {segmentId : Nat}
    {points : List TimeSeriesPoint} (h : s ∈ (d.addSegment symbol segmentId points).metadata) :
    s = symbol ∨ s ∈ d.metadata := by
  cases points with
  | nil => exact .inr h
  | cons first rest => exact (AList.mem_insert _).mp h

/-- The index after the segments of some groups names their symbols and the old ones. -/
theorem mem_metadata_writtenGroups (sort : StdSort) :
    ∀ (groups : List (String × List TimeSeriesPoint)) {d : DiskLayer},
      s ∈ (writtenGroups sort d groups).metadata → s ∈ groups.map (·.1) ∨ s ∈ d.metadata
  | [], _, h => .inr h
  | g :: groups, d, h => by
    rcases mem_metadata_writtenGroups sort groups h with hs | hs
    · exact .inl (mem_cons_of_mem _ hs)
    · rcases mem_metadata_addSegment hs with rfl | hs
      · exact .inl (mem_cons_self _ _)
      · exact .inr hs

theorem mem_metadata_of_mem_diskPoints {d : DiskLayer} {p : TimeSeriesPoint}
    (hp : p ∈ d.diskPoints s) : s ∈ d.metadata := by
  unfold diskPoints at hp
  cases h : d.metadata.lookup s with
  | none => simp [h] at hp
  | some _ => exact AList.lookup_isSome.mp (by simp [h])

variable (sort : StdSort) (creatable : String → Bool)

/-- The loop of `write_batch` stops at the first group whose file it cannot create, with every
earlier group's segment written and recorded. -/
theorem stateAfter_writeGroups :
    ∀ (groups : List (String × List TimeSeriesPoint)) (d : DiskLayer),
      ∃ k, stateAfter (writeGroups sort creatable groups) d = writtenGroups sort d (groups.take k)
  | [], _ => ⟨0, rfl⟩
  | (symbol, symbolPoints) :: groups, d => by
    unfold stateAfter
    rw [writeGroups, run_get_bind, run_bind, writeSegment_run]
    split_ifs
    · exact ⟨0, rfl⟩
    · obtain ⟨k, hk⟩ := stateAfter_writeGroups groups
        (d.addSegment symbol (d.nextSegmentId symbol) (sort.run symbolPoints))
      exact ⟨k + 1, hk⟩

theorem stateAfter_writeBatch (points : List TimeSeriesPoint) (d : DiskLayer) :
    stateAfter (writeBatch sort creatable points) d =
      if points.isEmpty then d
      else stateAfter (writeGroups sort creatable (groupBySymbol sort points)) d := by
  unfold writeBatch
  by_cases h : points.isEmpty
  · rw [if_pos h, if_pos h]
    rfl
  · rw [if_neg h, if_neg h]
    unfold stateAfter
    rw [run_bind]
    cases (writeGroups sort creatable (groupBySymbol sort points)).run d <;> rfl

end DiskLayer

/-! ## What the engine's calls do to the symbols -/

namespace StorageEngine

open MemoryLayer
open DiskLayer (epochPoint)

variable (sort : StdSort) (creatable : String → Bool)

/-- What `flush` can leave, whether it returns or throws: the segments of a prefix of the groups
of the points it collected, and the memory layer as it was or cleared. -/
theorem stateAfter_flush (e : StorageEngine) :
    ∃ (k : Nat) (cleared : Bool), stateAfter (flush sort creatable) e =
      { e with
        diskLayer := DiskLayer.writtenGroups sort e.diskLayer
          ((groupBySymbol sort (pointsToFlush e.memoryLayer)).take k)
        memoryLayer := if cleared then e.memoryLayer.clearCache else e.memoryLayer } := by
  cases h : (flush sort creatable).run e with
  | ok b e' =>
    rw [stateAfter, h]
    rcases flush_run_ok sort creatable h with ⟨-, rfl⟩ | rfl
    · exact ⟨0, false, rfl⟩
    · exact ⟨_, true, by rw [take_length]; rfl⟩
  | error err e' =>
    rw [stateAfter, h]
    dsimp only
    rw [flush_run_error sort creatable h, DiskLayer.stateAfter_writeBatch]
    by_cases hempty : (pointsToFlush e.memoryLayer).isEmpty
    · rw [if_pos hempty]
      exact ⟨0, false, rfl⟩
    · rw [if_neg hempty]
      obtain ⟨k, hk⟩ := DiskLayer.stateAfter_writeGroups sort creatable
        (groupBySymbol sort (pointsToFlush e.memoryLayer)) e.diskLayer
      exact ⟨k, false, by rw [hk]; rfl⟩

theorem getSymbols_stateAfter_flush (e : StorageEngine) :
    (stateAfter (flush sort creatable) e).getSymbols = e.getSymbols := by
  obtain ⟨k, cleared, h⟩ := stateAfter_flush sort creatable e
  rw [h]
  cases cleared
  · rfl
  · exact getSymbols_clearCache _

theorem keeps_getSymbols_countAndFlush (symbols : List String) (count : Nat) :
    Keeps (fun e => e.getSymbols = symbols) (countAndFlush sort creatable count) :=
  keeps_get_bind fun _ => (keeps_modify fun _ h => by exact h).bind fun _ =>
    keeps_ite (fun e h => (getSymbols_stateAfter_flush sort creatable e).trans h) (keeps_pure true)

/-- After its memory-layer call, the rest of `write_point` or `write_batch` keeps the symbols. -/
theorem getSymbols_stateAfter_onMemory_bind (f : MemoryLayer → Bool × MemoryLayer) (count : Nat)
    (e : StorageEngine) :
    (stateAfter (onMemory f >>= fun inserted =>
      if inserted then countAndFlush sort creatable count else pure false) e).getSymbols =
        (f e.memoryLayer).2.getSymbols :=
  keeps_ite (keeps_getSymbols_countAndFlush sort creatable _ count) (keeps_pure false) _ rfl

/-- A call adds the symbols of the points it hands to the memory layer, and removes none. -/
theorem mem_getSymbols_apply (e : StorageEngine) (op : EngineOp) (s : String) :
    s ∈ (op.apply sort creatable e).getSymbols ↔
      (∃ p ∈ op.points, p.symbol = s) ∨ s ∈ e.getSymbols := by
  cases op with
  | writePoint point =>
    show s ∈ (stateAfter (writePoint sort creatable point) e).getSymbols ↔ _
    rw [writePoint, getSymbols_stateAfter_onMemory_bind, mem_getSymbols_insert]
    simp only [EngineOp.points, mem_singleton, exists_eq_left]
    exact or_congr_left eq_comm
  | writeBatch points =>
    show s ∈ (stateAfter (writeBatch sort creatable points) e).getSymbols ↔ _
    unfold writeBatch
    split
    · rename_i hempty
      simp only [EngineOp.points, isEmpty_iff.mp hempty, not_mem_nil, false_and, exists_false,
        false_or]
      exact Iff.rfl
    · rw [getSymbols_stateAfter_onMemory_bind, mem_getSymbols_insertBatch]
      rfl
  | flush =>
    show s ∈ (stateAfter (flush sort creatable) e).getSymbols ↔ _
    simp [EngineOp.points, getSymbols_stateAfter_flush]
  | optimize =>
    show s ∈ (stateAfter (optimize sort creatable) e).getSymbols ↔ _
    simp [EngineOp.points, stateAfter_optimize, getSymbols_stateAfter_flush]

theorem mem_getSymbols_foldl (s : String) :
    ∀ (ops : List EngineOp) (e : StorageEngine),
      s ∈ (ops.foldl (EngineOp.apply sort creatable) e).getSymbols ↔
        (∃ op ∈ ops, ∃ p ∈ op.points, p.symbol = s) ∨ s ∈ e.getSymbols
  | [], _ => by simp
  | op :: ops, e => by
    rw [foldl_cons, mem_getSymbols_foldl s ops, mem_getSymbols_apply]
    simp only [exists_mem_cons_iff, or_assoc]
    exact or_left_comm

/-- After any run from an empty directory, `get_symbols` reports exactly the symbols of the
points handed to `write_point` and `write_batch`: a refused duplicate, a point flushed to disk
and a call whose flush threw all count. -/
theorem mem_getSymbols_runEngine (config : EngineConfig) (ops : List EngineOp) (symbol : String) :
    symbol ∈ (runEngine sort creatable config ops).getSymbols ↔
      ∃ op ∈ ops, ∃ p ∈ op.points, p.symbol = symbol := by
  rw [runEngine, mem_getSymbols_foldl]
  exact or_iff_left (not_mem_nil _)

/-! ## Symbols of the disk layer are reported -/

/-- The engine's invariants, and every symbol the index names is one `get_symbols` reports. -/
structure Reporting (e : StorageEngine) : Prop where
  healthy : Healthy e
  index : ∀ s ∈ e.diskLayer.metadata, s ∈ e.getSymbols

theorem keeps_reporting_flush : Keeps Reporting (flush sort creatable) := fun e he => by
  refine ⟨keeps_flush sort creatable e he.healthy, fun s hs => ?_⟩
  rw [getSymbols_stateAfter_flush]
  obtain ⟨k, cleared, h⟩ := stateAfter_flush sort creatable e
  rw [h] at hs
  rcases DiskLayer.mem_metadata_writtenGroups sort _ hs with hs | hs
  · obtain ⟨p, hp, rfl⟩ := mem_map_fst_groupBySymbol.mp (((take_sublist _ _).map _).subset hs)
    exact mem_getSymbols_of_mem_pointsToFlush he.healthy.memory hp
  · exact he.index s hs

theorem keeps_reporting_onMemory {α : Type} {f : MemoryLayer → α × MemoryLayer}
    (hf : ∀ m, Invariant m →
      Invariant (f m).2 ∧ ∀ s ∈ m.getSymbols, s ∈ (f m).2.getSymbols) :
    Keeps Reporting (onMemory f) := fun _ he =>
  ⟨⟨(hf _ he.healthy.memory).1, he.healthy.disk⟩,
    fun s hs => (hf _ he.healthy.memory).2 s (he.index s hs)⟩

theorem keeps_reporting_countAndFlush (count : Nat) :
    Keeps Reporting (countAndFlush sort creatable count) :=
  keeps_get_bind fun _ =>
    (keeps_modify fun _ he => ⟨⟨he.1.memory, he.1.disk⟩, he.2⟩).bind fun _ =>
      keeps_ite (keeps_reporting_flush sort creatable) (keeps_pure true)

theorem Reporting.apply {e : StorageEngine} (he : Reporting e) (op : EngineOp) :
    Reporting (op.apply sort creatable e) := by
  cases op with
  | writePoint point =>
    exact ((keeps_reporting_onMemory fun m hm => ⟨hm.insert point,
      fun _ hs => mem_getSymbols_insert point |>.mpr (.inr hs)⟩).bind fun _ =>
        keeps_ite (keeps_reporting_countAndFlush sort creatable 1) (keeps_pure false)) e he
  | writeBatch points =>
    exact (keeps_ite (keeps_pure true) ((keeps_reporting_onMemory fun m hm =>
      ⟨hm.insertBatch sort points,
        fun _ hs => (mem_getSymbols_insertBatch sort points).mpr (.inr hs)⟩).bind fun _ =>
          keeps_ite (keeps_reporting_countAndFlush sort creatable _) (keeps_pure false))) e he
  | flush => exact keeps_reporting_flush sort creatable e he
  | optimize =>
    show Reporting (stateAfter (optimize sort creatable) e)
    rw [stateAfter_optimize]
    exact keeps_reporting_flush sort creatable e he

theorem reporting_runEngine (config : EngineConfig) (ops : List EngineOp) :
    Reporting (runEngine sort creatable config ops) := by
  suffices ∀ e, Reporting e → Reporting (ops.foldl (EngineOp.apply sort creatable) e) from
    this _ ⟨healthy_new config, fun _ hs => absurd hs (AList.not_mem_empty _)⟩
  induction ops with
  | nil => exact fun _ he => he
  | cons op ops ih => exact fun e he => ih _ (he.apply sort creatable op)

/-- On every engine a run from an empty directory leaves, a symbol for which `read_range`
returns a point is one `get_symbols` reports, also when the point comes from a segment. -/
theorem mem_getSymbols_of_readRange (config : EngineConfig) (ops : List EngineOp) (symbol : String)
    (start end_ : Timestamp) {result : List TimeSeriesPoint}
    (hread : readRange sort (runEngine sort creatable config ops) symbol start end_ = .ok result)
    (hresult : result ≠ []) :
    symbol ∈ (runEngine sort creatable config ops).getSymbols := by
  have he := reporting_runEngine sort creatable config ops
  rw [he.healthy.readRange_eq sort symbol start end_, Except.ok.injEq] at hread
  obtain ⟨p, hp⟩ := exists_mem_of_ne_nil result hresult
  rw [← hread] at hp
  rcases mem_append.mp ((sort.perm _).mem_iff.mp hp) with hp | hp
  · exact mem_getSymbols_of_mem_getRange hp
  · exact he.index symbol (DiskLayer.mem_metadata_of_mem_diskPoints
      ((DiskLayer.storedRange_sublist_diskPoints _ _ _ _).subset ((sort.perm _).mem_iff.mp hp)))

/-- One point of `FB` written with `max_memory_points` at one: the write flushes it to a segment
and clears the buffer, `read_range` finds it on disk, and the symbol is still reported. -/
theorem mem_getSymbols_of_readRange_flushed :
    readRange stableSort (runEngine stableSort (fun _ => true) ⟨"data", 1⟩
        [.writePoint epochPoint]) "FB" .min .max = .ok [epochPoint] ∧ [epochPoint] ≠ [] ∧
      "FB" ∈ (runEngine stableSort (fun _ => true) ⟨"data", 1⟩
        [.writePoint epochPoint]).getSymbols :=
  have hread : readRange stableSort (runEngine stableSort (fun _ => true) ⟨"data", 1⟩
      [.writePoint epochPoint]) "FB" .min .max = .ok [epochPoint] := rfl
  ⟨hread, cons_ne_nil _ _, mem_getSymbols_of_readRange stableSort (fun _ => true) _ _ _ _ _ hread
    (cons_ne_nil _ _)⟩

end StorageEngine

end FindataEngine
