import FindataEngine.Engine

/-!
# Reads across a flush

`flush` moves every buffered point to one new segment per symbol and clears the memory layer
(`flush_run_ok`). A read of `[start, end]` takes the memory points with `start ≤ t ≤ end` and
the disk points with `start ≤ t < end`, and the disk layer stores whole microseconds. So a point
buffered at exactly `end`, or with a sub-microsecond part, reads differently after the flush
(`flush_changes_reads`).

Apart from those, a successful flush leaves every read as it was: on every engine reachable from
an empty directory by calls of plain symbols, if the buffered points of a symbol are whole
microseconds, each read of that symbol after the flush returns, as a multiset, the read before it
less its points at `end` (`flush_keeps_reads_before_end`). With a `/` in a symbol, two symbols
can share a segment file, and a flush of one overwrites the other's segment.
-/

set_option autoImplicit false

namespace FindataEngine

open List

namespace MemoryLayer

variable {m : MemoryLayer}

theorem getRange_clearCache (symbol : String) (start end_ : Timestamp) :
    m.clearCache.getRange symbol start end_ = [] := by
  unfold getRange
  rw [lookup_clearCache]
  cases m.symbolData.lookup symbol <;> rfl

end MemoryLayer

namespace StorageEngine

open MemoryLayer

/-- Over a list without repeats, the one element equal to `a` contributes, if it is there. -/
theorem flatMap_ite_eq {β : Type} {l : List String} (hl : l.Nodup) (a : String)
    (f : String → List β) :
    l.flatMap (fun s => if s = a then f s else []) = if a ∈ l then f a else [] := by
  induction l with
  | nil => simp
  | cons x xs ih =>
    rw [flatMap_cons, ih (nodup_cons.mp hl).2]
    by_cases hx : x = a
    · subst hx
      simp [(nodup_cons.mp hl).1]
    · simp [hx, Ne.symm hx]

/-- The points `flush` collects for a symbol are the points buffered for it. -/
theorem filter_pointsToFlush {m : MemoryLayer} (hm : Invariant m) (symbol : String) :
    (pointsToFlush m).filter (·.symbol = symbol) = m.symbolPoints symbol := by
  have hsym : ∀ s, (m.symbolPoints s).filter (·.symbol = symbol) =
      if s = symbol then m.symbolPoints s else [] := by
    intro s
    split
    · exact filter_eq_self.mpr fun p hp => by simp [hm.symbol_eq hp, *]
    · exact filter_eq_nil_iff.mpr fun p hp => by simp [hm.symbol_eq hp, *]
  have hall : ∀ s, m.getRange s .min .max = m.symbolPoints s := fun s => by
    rw [hm.getRange_eq]
    exact filter_eq_self.mpr fun p _ => decide_eq_true ⟨Timestamp.min_le _, Timestamp.le_max _⟩
  simp only [pointsToFlush, MemoryLayer.getSymbols, hall, filter_flatMap, hsym]
  rw [flatMap_ite_eq (AList.keys_nodup _)]
  split
  · rfl
  · rename_i hnot
    simp [symbolPoints, AList.lookup_eq_none.mpr (fun h => hnot (AList.mem_keys.mp h))]

variable (sort : StdSort) (creatable : String → Bool)

/-- A `flush` that returned either found nothing to flush and changed nothing, or wrote one
segment per buffered symbol and cleared the memory layer. -/
theorem flush_run_ok {e e' : StorageEngine} {b : Bool}
    (h : (flush sort creatable).run e = .ok b e') :
    (pointsToFlush e.memoryLayer = [] ∧ e' = e) ∨
      e' = { e with
        diskLayer :=
          DiskLayer.writtenGroups sort e.diskLayer (groupBySymbol sort (pointsToFlush e.memoryLayer))
        memoryLayer := e.memoryLayer.clearCache } := by
  unfold flush at h
  rw [run_get_bind] at h
  dsimp only at h
  split at h
  · rename_i hempty
    cases h
    exact .inl ⟨isEmpty_iff.mp hempty, rfl⟩
  · rw [run_bind, run_onDisk] at h
    cases hw : (DiskLayer.writeBatch sort creatable (pointsToFlush e.memoryLayer)).run
        e.diskLayer with
    | ok b' d =>
      obtain ⟨rfl, rfl⟩ := DiskLayer.writeBatch_run_ok sort creatable _ hw
      rw [hw] at h
      cases h
      exact .inr rfl
    | error err d => rw [hw] at h; cases h

theorem Healthy.readRange_eq {e : StorageEngine} (he : Healthy e) (symbol : String)
    (start end_ : Timestamp) :
    readRange sort e symbol start end_ =
      .ok (sort.run (e.memoryLayer.getRange symbol start end_ ++
        sort.run (e.diskLayer.storedRange symbol start end_))) := by
  unfold readRange
  rw [he.disk.rangeQuery_eq]
  rfl

/-- After the segments of a batch of plain symbols are written, a symbol's stored range holds the
batch's points of that symbol as the new segment reads them back, then the old range. -/
theorem storedRange_writtenGroups_groupBySymbol {d : DiskLayer} (hd : DiskLayer.Indexed d)
    (hp : DiskLayer.Plain d) {points : List TimeSeriesPoint}
    (hpoints : ∀ p ∈ points, PlainSymbol p.symbol) (symbol : String) (start end_ : Timestamp) :
    (DiskLayer.writtenGroups sort d (groupBySymbol sort points)).storedRange symbol start end_ =
      DiskLayer.writtenRange d.config symbol start end_
          (sort.run (points.filter (·.symbol = symbol))) ++
        d.storedRange symbol start end_ := by
  rw [DiskLayer.storedRange_writtenGroups sort symbol start end_ _ hd hp
    (forall_mem_groupBySymbol hpoints), filter_groupBySymbol]
  split
  · simp
  · rename_i hnot
    have hnone : points.filter (·.symbol = symbol) = [] :=
      filter_eq_nil_iff.mpr fun p hp hs => hnot (mem_map.mpr ⟨p, hp, by simpa using hs⟩)
    simp [hnone, DiskLayer.writtenRange]

/-- `[start, end]` less `end` is `[start, end)`. -/
theorem filter_closed_filter_ne (points : List TimeSeriesPoint) (start end_ : Timestamp) :
    ((points.filter fun p => start ≤ p.timestamp ∧ p.timestamp ≤ end_).filter
        fun p => p.timestamp ≠ end_) = points.filter (DiskLayer.inHalfOpen start end_) := by
  rw [filter_filter]
  refine filter_congr fun p _ => Bool.eq_iff_iff.mpr ?_
  simp only [DiskLayer.inHalfOpen, Bool.and_eq_true, decide_eq_true_eq, lt_iff_le_and_ne]
  tauto

/-- What a read takes from both tiers, less the points at `end`: the buffered points in
`[start, end)`, then the stored range. -/
theorem Healthy.filter_ne_end {e : StorageEngine} (he : Healthy e) (symbol : String)
    (start end_ : Timestamp) :
    (e.memoryLayer.getRange symbol start end_ ++ e.diskLayer.storedRange symbol start end_).filter
        (fun p => p.timestamp ≠ end_) =
      (e.memoryLayer.symbolPoints symbol).filter (DiskLayer.inHalfOpen start end_) ++
        e.diskLayer.storedRange symbol start end_ := by
  rw [filter_append, he.memory.getRange_eq, filter_closed_filter_ne]
  congr 1
  exact filter_eq_self.mpr fun p hp =>
    by simpa using ne_of_lt (DiskLayer.before_end_of_mem_storedRange hp)

/-- After the disk write of a flush, a symbol's stored range holds its buffered points in
`[start, end)`, when they are whole microseconds, and then what it held before. -/
theorem Healthy.storedRange_flushed {e : StorageEngine} (he : Healthy e) (hp : Plain e)
    {symbol : String} (hwhole : ∀ p ∈ e.memoryLayer.symbolPoints symbol, p.timestamp.WholeMicros)
    (start end_ : Timestamp) :
    (DiskLayer.writtenGroups sort e.diskLayer
        (groupBySymbol sort (pointsToFlush e.memoryLayer))).storedRange symbol start end_ ~
      (e.memoryLayer.symbolPoints symbol).filter (DiskLayer.inHalfOpen start end_) ++
        e.diskLayer.storedRange symbol start end_ := by
  rw [storedRange_writtenGroups_groupBySymbol sort he.disk hp.disk
      (fun _ hq => hp.memory _ (mem_getSymbols_of_mem_pointsToFlush he.memory hq)),
    filter_pointsToFlush he.memory,
    DiskLayer.writtenRange_eq_filter _ (sort.sorted _)
      (fun p hp => he.memory.symbol_eq ((sort.perm _).subset hp))
      (fun p hp => hwhole p ((sort.perm _).subset hp))]
  exact ((sort.perm _).filter _).append_right _

/-- On a healthy engine, a successful flush changes a read of a symbol whose buffered points are
whole microseconds only by dropping the buffered points at `end`. -/
theorem Healthy.readRange_flush {e e' : StorageEngine} (he : Healthy e) (hp : Plain e)
    (hflush : (flush sort creatable).run e = .ok true e') (symbol : String)
    (start end_ : Timestamp)
    (hwhole : ∀ p ∈ e.memoryLayer.symbolPoints symbol, p.timestamp.WholeMicros) :
    ∃ r r', readRange sort e symbol start end_ = .ok r ∧
      readRange sort e' symbol start end_ = .ok r' ∧ r' ~ r.filter fun p => p.timestamp ≠ end_ := by
  have hbefore : sort.run (e.memoryLayer.getRange symbol start end_ ++
        sort.run (e.diskLayer.storedRange symbol start end_)) ~
      e.memoryLayer.getRange symbol start end_ ++ e.diskLayer.storedRange symbol start end_ :=
    (sort.perm _).trans ((sort.perm _).append_left _)
  have hcut := he.filter_ne_end symbol start end_
  rcases flush_run_ok sort creatable hflush with ⟨hnil, hsame⟩ | rfl
  · rw [hsame]
    refine ⟨_, _, he.readRange_eq sort symbol start end_, he.readRange_eq sort symbol start end_, ?_⟩
    have hmem : e.memoryLayer.symbolPoints symbol = [] := by
      rw [← filter_pointsToFlush he.memory, hnil, filter_nil]
    calc sort.run (e.memoryLayer.getRange symbol start end_ ++
          sort.run (e.diskLayer.storedRange symbol start end_))
        ~ e.memoryLayer.getRange symbol start end_ ++ e.diskLayer.storedRange symbol start end_ :=
          hbefore
      _ = (e.memoryLayer.getRange symbol start end_ ++
            e.diskLayer.storedRange symbol start end_).filter fun p => p.timestamp ≠ end_ := by
          rw [hcut, he.memory.getRange_eq, hmem, filter_nil, filter_nil]
      _ ~ _ := (hbefore.filter _).symm
  · refine ⟨_, _, he.readRange_eq sort symbol start end_,
      (⟨he.memory.clearCache, he.disk.writtenGroups sort _⟩ : Healthy _).readRange_eq sort symbol
        start end_, ?_⟩
    simp only [getRange_clearCache, nil_append]
    calc _ ~ (DiskLayer.writtenGroups sort e.diskLayer
            (groupBySymbol sort (pointsToFlush e.memoryLayer))).storedRange symbol start end_ :=
          (sort.perm _).trans (sort.perm _)
      _ ~ (e.memoryLayer.symbolPoints symbol).filter (DiskLayer.inHalfOpen start end_) ++
            e.diskLayer.storedRange symbol start end_ :=
          he.storedRange_flushed sort hp hwhole start end_
      _ = _ := hcut.symm
      _ ~ _ := (hbefore.filter _).symm

/-- Flush is transparent to reads, up to the two differences between the tiers: on every engine
reachable by calls of plain symbols from an empty directory whose path has no NUL, a successful
flush changes a read of a symbol whose buffered points are whole microseconds only by dropping
the buffered points at `end`. -/
theorem flush_keeps_reads_before_end (config : EngineConfig)
    (hdir : nul ∉ config.dataDirectory.data) (ops : List EngineOp)
    (hplain : ∀ op ∈ ops, ∀ p ∈ op.points, PlainSymbol p.symbol) {e' : StorageEngine}
    (hflush : (flush sort creatable).run (runEngine sort creatable config ops) = .ok true e')
    (symbol : String) (start end_ : Timestamp)
    (hwhole : ∀ p ∈ (runEngine sort creatable config ops).memoryLayer.symbolPoints symbol,
      p.timestamp.WholeMicros) :
    ∃ r r', readRange sort (runEngine sort creatable config ops) symbol start end_ = .ok r ∧
      readRange sort e' symbol start end_ = .ok r' ∧ r' ~ r.filter fun p => p.timestamp ≠ end_ :=
  (healthy_runEngine sort creatable config ops).readRange_flush sort creatable
    (plain_runEngine sort creatable hdir hplain) hflush symbol start end_ hwhole

/-- The point `p0` of `FB` at the epoch, written with a threshold no write reaches, and the
engine after `flush`: the witness runs of `flush_keeps_reads_before_end`. -/
theorem flush_keeps_reads_before_end_epoch :
    nul ∉ "data".data ∧
    (∀ op ∈ [EngineOp.writePoint DiskLayer.epochPoint], ∀ p ∈ op.points, PlainSymbol p.symbol) ∧
    (flush stableSort (fun _ => true)).run
        (runEngine stableSort (fun _ => true) ⟨"data", 1000000⟩
          [.writePoint DiskLayer.epochPoint]) =
      .ok true (stateAfter (flush stableSort (fun _ => true))
        (runEngine stableSort (fun _ => true) ⟨"data", 1000000⟩
          [.writePoint DiskLayer.epochPoint])) ∧
    (∀ p ∈ (runEngine stableSort (fun _ => true) ⟨"data", 1000000⟩
        [.writePoint DiskLayer.epochPoint]).memoryLayer.symbolPoints "FB",
      p.timestamp.WholeMicros) ∧
    ∃ r r', readRange stableSort (runEngine stableSort (fun _ => true) ⟨"data", 1000000⟩
          [.writePoint DiskLayer.epochPoint]) "FB" (.ofCount 0) (.ofCount 1000) = .ok r ∧
      readRange stableSort (stateAfter (flush stableSort (fun _ => true))
          (runEngine stableSort (fun _ => true) ⟨"data", 1000000⟩
            [.writePoint DiskLayer.epochPoint])) "FB" (.ofCount 0) (.ofCount 1000) = .ok r' ∧
      r' ~ r.filter fun p => p.timestamp ≠ .ofCount 1000 :=
  have hdir : nul ∉ "data".data := by decide
  have hplain : ∀ op ∈ [EngineOp.writePoint DiskLayer.epochPoint], ∀ p ∈ op.points,
      PlainSymbol p.symbol := by
    decide
  ⟨hdir, hplain, rfl, by decide, flush_keeps_reads_before_end stableSort (fun _ => true)
    ⟨"data", 1000000⟩ hdir [.writePoint DiskLayer.epochPoint] hplain rfl "FB" (.ofCount 0)
    (.ofCount 1000) (by decide)⟩

/-- The engine after one `write_point` with a threshold no write reaches. -/
def afterWritePoint (point : TimeSeriesPoint) : StorageEngine :=
  runEngine stableSort (fun _ => true) ⟨"data", 1000000⟩ [.writePoint point]

/-- Two reads that a successful flush changes. A point at the query's `end` is returned from
memory and not from disk; a point at `1 ns` is returned at `1 ns` from memory and at `0 ns` from
disk. -/
theorem flush_changes_reads :
    (flush stableSort (fun _ => true)).run (afterWritePoint DiskLayer.epochPoint) =
        .ok true (stateAfter (flush stableSort (fun _ => true))
          (afterWritePoint DiskLayer.epochPoint)) ∧
      readRange stableSort (afterWritePoint DiskLayer.epochPoint) "FB" (.ofCount 0)
        (.ofCount 0) = .ok [DiskLayer.epochPoint] ∧
      readRange stableSort (stateAfter (flush stableSort (fun _ => true))
        (afterWritePoint DiskLayer.epochPoint)) "FB" (.ofCount 0) (.ofCount 0) = .ok [] ∧
      readRange stableSort (afterWritePoint DiskLayer.nanoPoint) "FB" (.ofCount 0)
        (.ofCount 1000) = .ok [DiskLayer.nanoPoint] ∧
      readRange stableSort (stateAfter (flush stableSort (fun _ => true))
        (afterWritePoint DiskLayer.nanoPoint)) "FB" (.ofCount 0) (.ofCount 1000) =
        .ok [⟨.ofCount 0, 0, "FB"⟩] :=
  ⟨rfl, rfl, rfl, rfl, rfl⟩

end StorageEngine

end FindataEngine
