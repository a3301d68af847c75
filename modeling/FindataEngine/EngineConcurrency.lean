import FindataEngine.FlushReads
import FindataEngine.DiskConcurrency

/-!
# Concurrent calls on the engine

Each engine call runs as a sequence of sections, and a schedule of thread indices interleaves the
sections of several calls (`runThreads`), each section atomic:

* `write_point` and `write_batch`: the insert under the engine lock, then, past
  `max_memory_points`, a `flush`;
* `flush`: the collection of the buffered points under the lock, the sections of the disk layer's
  `write_batch` (`DiskWriter`), and the clear of the memory layer under the lock;
* `read_range`: the memory snapshot under the shared lock, then the disk layer's `range_query`.

`flush` clears the whole memory layer, not the points it wrote: a point admitted while the disk
write runs is cleared without being written (`flush_clears_admitted_point`).

A read whose two sections enclose the disk write of a flush sees the flushed points both in its
memory snapshot and on disk. When they enclose nothing that writes to the disk layer, the read
returns what `read_range` returns in the engine as it was at the snapshot, whatever else runs
(`read_returns_snapshot_read`); writes to the memory layer after the snapshot are not seen. A
read that encloses a flush can return a multiset that no engine state of the run gives
(`concurrent_read_returns_duplicate`).
-/

set_option autoImplicit false

namespace FindataEngine

namespace StorageEngine

open List DiskLayer

/-- Where an engine call stands. -/
inductive EngineThread where
  /-- `write_point` before its locked insert. -/
  | writePoint (point : TimeSeriesPoint)
  /-- `write_batch` before its locked insert. -/
  | writeBatch (points : List TimeSeriesPoint)
  /-- `flush` before it collects the buffered points. -/
  | flush
  /-- `flush` inside the disk layer's `write_batch`. -/
  | flushing (writer : DiskWriter)
  /-- `read_range` before its memory snapshot. -/
  | read (symbol : String) (start end_ : Timestamp)
  /-- `read_range` after its memory snapshot, before the disk query. -/
  | reading (symbol : String) (start end_ : Timestamp) (memoryPoints : List TimeSeriesPoint)
  /-- A write or flush returned. -/
  | returnedBool (b : Bool)
  /-- A read returned. -/
  | returnedPoints (points : List TimeSeriesPoint)
  /-- The call threw. -/
  | threw (e : String)
  deriving DecidableEq

/-- The end of the locked section of `write_point` and `write_batch` once the memory layer
admitted the points: count them, and go on to `flush` when the layer has reached
`max_memory_points`. -/
def afterInsert (e : StorageEngine) (m : MemoryLayer) (count : Nat) : StorageEngine × EngineThread :=
  ({ e with memoryLayer := m, totalPoints := e.totalPoints + count },
    if e.config.maxMemoryPoints ≤ m.cacheSize then .flush else .returnedBool true)

/-- The sections of `flush` from the disk write on: a section of the disk layer's `write_batch`,
then, when it returned, the clear of the memory layer under the lock. -/
def flushStep (sort : StdSort) (creatable : String → Bool) (e : StorageEngine) :
    DiskWriter → StorageEngine × EngineThread
  | .returned => ({ e with memoryLayer := e.memoryLayer.clearCache }, .returnedBool true)
  | .threw err => (e, .threw err)
  | writer => ({ e with diskLayer := (writer.step sort creatable e.diskLayer).1 },
      .flushing (writer.step sort creatable e.diskLayer).2)

/-- One atomic section of an engine call. -/
def EngineThread.step (sort : StdSort) (creatable : String → Bool) (e : StorageEngine) :
    EngineThread → StorageEngine × EngineThread
  | .writePoint point =>
    if (e.memoryLayer.insert point).1 then afterInsert e (e.memoryLayer.insert point).2 1
    else ({ e with memoryLayer := (e.memoryLayer.insert point).2 }, .returnedBool false)
  | .writeBatch points =>
    if points.isEmpty then (e, .returnedBool true)
    else if (e.memoryLayer.insertBatch sort points).1 then
      afterInsert e (e.memoryLayer.insertBatch sort points).2 points.length
    else ({ e with memoryLayer := (e.memoryLayer.insertBatch sort points).2 }, .returnedBool false)
  | .flush =>
    if (pointsToFlush e.memoryLayer).isEmpty then (e, .returnedBool true)
    else (e, .flushing (DiskWriter.start sort (pointsToFlush e.memoryLayer)))
  | .flushing writer => flushStep sort creatable e writer
  | .read symbol start end_ =>
    (e, .reading symbol start end_ (e.memoryLayer.getRange symbol start end_))
  | .reading symbol start end_ memoryPoints =>
    match e.diskLayer.rangeQuery sort symbol start end_ with
    | .ok diskPoints => (e, .returnedPoints (sort.run (memoryPoints ++ diskPoints)))
    | .error err => (e, .threw err)
  | .returnedBool b => (e, .returnedBool b)
  | .returnedPoints points => (e, .returnedPoints points)
  | .threw err => (e, .threw err)

/-- An engine with calls in progress. -/
structure EngineWorld where
  engine : StorageEngine
  threads : List EngineThread

/-- The next section of call `i`, if there is such a call. -/
def EngineWorld.step (sort : StdSort) (creatable : String → Bool) (w : EngineWorld) (i : Nat) :
    EngineWorld :=
  match w.threads[i]? with
  | none => w
  | some t => ⟨(t.step sort creatable w.engine).1, w.threads.set i (t.step sort creatable w.engine).2⟩

/-- The sections of the calls in the order the schedule names them. -/
def runThreads (sort : StdSort) (creatable : String → Bool) (w : EngineWorld)
    (schedule : List Nat) : EngineWorld :=
  schedule.foldl (EngineWorld.step sort creatable) w

/-! ## Reads that no flush overlaps -/

/-- Whether the call's next section writes to the disk layer: a segment file or an index
entry. -/
def EngineThread.writesDisk : EngineThread → Bool
  | .flushing (.writeFile ..) | .flushing (.record ..) => true
  | _ => false

section Frame

variable (sort : StdSort) (creatable : String → Bool)

theorem EngineThread.step_diskLayer {t : EngineThread} (e : StorageEngine)
    (h : t.writesDisk = false) : (t.step sort creatable e).1.diskLayer = e.diskLayer := by
  cases t with
  | writeBatch points =>
    simp only [EngineThread.step]
    split
    · rfl
    · split <;> rfl
  | writePoint | flush | reading =>
    simp only [EngineThread.step]
    split <;> rfl
  | flushing writer =>
    cases writer with
    | nextGroup groups => cases groups <;> rfl
    | writeFile | record => simp [EngineThread.writesDisk] at h
    | returned | threw => rfl
  | read | returnedBool | returnedPoints | threw => rfl

/-- No section of the schedule, run from `w`, writes to the disk layer. -/
def DiskQuiet : EngineWorld → List Nat → Prop
  | _, [] => True
  | w, i :: schedule => (w.threads.getD i (.returnedBool true)).writesDisk = false ∧
      DiskQuiet (w.step sort creatable i) schedule

/-- Sections of other calls leave a call where it stands, and, when none writes to the disk
layer, leave the disk layer as it was. -/
theorem runThreads_frame {i : Nat} :
    ∀ (schedule : List Nat) (w : EngineWorld), i ∉ schedule → DiskQuiet sort creatable w schedule →
      (runThreads sort creatable w schedule).threads[i]? = w.threads[i]? ∧
        (runThreads sort creatable w schedule).engine.diskLayer = w.engine.diskLayer
  | [], _, _, _ => ⟨rfl, rfl⟩
  | j :: schedule, w, hi, ⟨hj, hq⟩ => by
    have ih := runThreads_frame schedule (w.step sort creatable j)
      (fun h => hi (mem_cons_of_mem _ h)) hq
    have hji : j ≠ i := fun h => hi (h ▸ mem_cons_self _ _)
    refine ⟨ih.1.trans ?_, ih.2.trans ?_⟩ <;> unfold EngineWorld.step <;>
      cases ht : w.threads[j]? with
      | none => rfl
      | some t => ?_
    · exact getElem?_set_ne hji
    · have ht' : w.threads.getD j (.returnedBool true) = t := by simp [ht]
      exact EngineThread.step_diskLayer sort creatable w.engine (ht' ▸ hj)

/-- A read that no disk write interrupts returns what `read_range` returns in the engine as it
was at its memory snapshot, whatever the other calls do in memory meanwhile. -/
theorem read_returns_snapshot_read (w : EngineWorld) {i : Nat} {symbol : String}
    {start end_ : Timestamp} (hi : w.threads[i]? = some (.read symbol start end_))
    (schedule : List Nat) (hnot : i ∉ schedule)
    (hquiet : DiskQuiet sort creatable (w.step sort creatable i) schedule) :
    (runThreads sort creatable w (i :: schedule ++ [i])).threads[i]? =
      some (match readRange sort w.engine symbol start end_ with
        | .ok r => .returnedPoints r
        | .error err => .threw err) := by
  have hlen : i < w.threads.length := (getElem?_eq_some.mp hi).1
  have hsnap : w.step sort creatable i = ⟨w.engine, w.threads.set i
      (.reading symbol start end_ (w.engine.memoryLayer.getRange symbol start end_))⟩ := by
    simp only [EngineWorld.step, hi, EngineThread.step]
  obtain ⟨hthread, hdisk⟩ := runThreads_frame sort creatable schedule _ hnot hquiet
  have hrun : runThreads sort creatable w (i :: schedule ++ [i]) =
      (runThreads sort creatable (w.step sort creatable i) schedule).step sort creatable i := by
    simp only [runThreads, foldl_append, foldl_cons, foldl_nil]
  rw [hrun]
  generalize runThreads sort creatable (w.step sort creatable i) schedule = W at hthread hdisk ⊢
  rw [hsnap, getElem?_set_self hlen] at hthread
  rw [hsnap] at hdisk
  have hlen' := (getElem?_eq_some.mp hthread).1
  simp only [EngineWorld.step, hthread, EngineThread.step, hdisk, readRange]
  cases w.engine.diskLayer.rangeQuery sort symbol start end_ <;>
    simp [getElem?_set_self hlen']

end Frame

/-- A read of `[0, 2 µs]` and a `write_point` on a new engine. -/
def readThenWrite : EngineWorld :=
  ⟨new ⟨"data", 1000000⟩, [.read "FB" (.ofCount 0) (.ofCount 2000), .writePoint epochPoint]⟩

/-- The write lands between the read's two sections and writes nothing to disk: the read returns
what the new engine's `read_range` returns. -/
theorem read_returns_snapshot_read_before_write :
    readThenWrite.threads[0]? = some (.read "FB" (.ofCount 0) (.ofCount 2000)) ∧ 0 ∉ [1] ∧
      DiskQuiet stableSort (fun _ => true) (readThenWrite.step stableSort (fun _ => true) 0) [1] ∧
      (runThreads stableSort (fun _ => true) readThenWrite (0 :: [1] ++ [0])).threads[0]? =
        some (match readRange stableSort readThenWrite.engine "FB" (.ofCount 0) (.ofCount 2000) with
          | .ok r => .returnedPoints r
          | .error err => .threw err) :=
  ⟨rfl, by decide, ⟨rfl, trivial⟩, read_returns_snapshot_read stableSort (fun _ => true)
    readThenWrite rfl [1] (by decide) ⟨rfl, trivial⟩⟩

/-! ## Two schedules that break flush durability and read atomicity -/

/-- A `write_point`, a `flush` and a second `write_point` on a new engine whose threshold no
write reaches. -/
def writersAndFlush : EngineWorld :=
  ⟨new ⟨"data", 1000000⟩, [.writePoint epochPoint, .flush, .writePoint secondPoint]⟩

/-- The first point is admitted and collected by `flush`; the second is admitted while the disk
write runs. The flush writes the first point, then clears both. All three calls return `true`,
and no read finds the second point. -/
theorem flush_clears_admitted_point :
    (runThreads stableSort (fun _ => true) writersAndFlush [0, 1, 2, 1, 1, 1, 1, 1]).threads =
        [.returnedBool true, .returnedBool true, .returnedBool true] ∧
      readRange stableSort
          (runThreads stableSort (fun _ => true) writersAndFlush [0, 1, 2, 1, 1, 1, 1, 1]).engine
          "FB" (.ofCount 0) (.ofCount 2000) = .ok [epochPoint] :=
  ⟨rfl, rfl⟩

/-- A `write_point`, a `read_range` of `[0, 2 µs]`, a second `write_point` and a `flush`. -/
def readAcrossFlush : EngineWorld :=
  ⟨new ⟨"data", 1000000⟩,
    [.writePoint epochPoint, .read "FB" (.ofCount 0) (.ofCount 2000), .writePoint secondPoint,
      .flush]⟩

/-- The read snapshots the first point; the second is written; the flush writes both to disk and
clears memory; the read then queries the disk. -/
def readAcrossFlushSchedule : List Nat := [0, 1, 2, 3, 3, 3, 3, 3, 3, 1]

/-- Whether the read of `[0, 2 µs]` after the first `k` sections of the schedule differs, as a
multiset, from `[first, first, second]`. -/
def readDiffers (k : Nat) : Bool :=
  match readRange stableSort
      (runThreads stableSort (fun _ => true) readAcrossFlush (readAcrossFlushSchedule.take k)).engine
      "FB" (.ofCount 0) (.ofCount 2000) with
  | .ok r => !decide (r ~ [epochPoint, epochPoint, secondPoint])
  | .error _ => true

/-- The read returns the first point twice. No engine state from the read's first section to
its last gives that multiset. -/
theorem concurrent_read_returns_duplicate :
    (runThreads stableSort (fun _ => true) readAcrossFlush readAcrossFlushSchedule).threads[1]? =
        some (.returnedPoints [epochPoint, epochPoint, secondPoint]) ∧
      ∀ k ∈ range' 1 readAcrossFlushSchedule.length, ∀ r,
        readRange stableSort (runThreads stableSort (fun _ => true) readAcrossFlush
          (readAcrossFlushSchedule.take k)).engine "FB" (.ofCount 0) (.ofCount 2000) = .ok r →
        ¬ r ~ [epochPoint, epochPoint, secondPoint] := by
  refine ⟨rfl, fun k hk r hr hperm => ?_⟩
  have hall : ∀ k ∈ range' 1 readAcrossFlushSchedule.length, readDiffers k = true := by decide
  have hk' := hall k hk
  simp only [readDiffers, hr, hperm, decide_True, Bool.not_true] at hk'
  exact Bool.false_ne_true hk'

end StorageEngine

end FindataEngine
