import FindataEngine.DiskRead

/-!
# Concurrent `write_batch` calls on the disk layer

`DiskLayer::write_batch` runs three sections per symbol group: a shared hold of the index mutex
that reads the group's next id, the file write of `write_segment` with no hold, and an exclusive
hold that records the segment. A call in progress is a `DiskWriter`; `DiskWriter.step` runs its
next section on the layer as one atomic step, and a schedule of thread indices interleaves the
sections of several calls (`runSchedule`).

A call that runs alone does what the sequential model does (`runWriter_nextGroup`). Two calls for
one symbol can read the same next id before either records its segment; the second then replaces
the first one's file and index entry, and the first call's points are gone although both calls
returned (`concurrent_writeBatch_overwrites_segment`).
-/

set_option autoImplicit false

namespace FindataEngine

namespace DiskLayer

open List

/-- Where a `write_batch` call stands. -/
inductive DiskWriter where
  /-- Before the shared section that reads the next id of the next group. -/
  | nextGroup (groups : List (String × List TimeSeriesPoint))
  /-- Before `write_segment` writes the file of a sorted group at the id that was read. -/
  | writeFile (symbol : String) (points : List TimeSeriesPoint) (segmentId : Nat)
      (groups : List (String × List TimeSeriesPoint))
  /-- Before the exclusive section that records the segment in the index. -/
  | record (symbol : String) (segmentId : Nat) (info : SegmentInfo)
      (groups : List (String × List TimeSeriesPoint))
  /-- The call returned `true`. -/
  | returned
  /-- The call threw. -/
  | threw (e : String)
  deriving DecidableEq

/-- The call `write_batch(points)` before its first section. -/
def DiskWriter.start (sort : StdSort) (points : List TimeSeriesPoint) : DiskWriter :=
  if points.isEmpty then .returned else .nextGroup (groupBySymbol sort points)

/-- One atomic section of a `write_batch` call. -/
def DiskWriter.step (sort : StdSort) (creatable : String → Bool) (d : DiskLayer) :
    DiskWriter → DiskLayer × DiskWriter
  | .nextGroup [] => (d, .returned)
  | .nextGroup ((symbol, symbolPoints) :: groups) =>
    (d, .writeFile symbol (sort.run symbolPoints) (d.nextSegmentId symbol) groups)
  | .writeFile _ [] _ groups => (d, .nextGroup groups)
  | .writeFile symbol (first :: rest) segmentId groups =>
    if creatable (segmentPath d.dataDir symbol segmentId) then
      (d.withFile (segmentPath d.dataDir symbol segmentId)
          (.segment (d.segmentInfo symbol segmentId first rest)
            (segmentPayload d.config (first :: rest))),
        .record symbol segmentId (d.segmentInfo symbol segmentId first rest) groups)
    else (d, .threw ("Failed to create segment file: " ++ segmentPath d.dataDir symbol segmentId))
  | .record symbol segmentId info groups => (d.withEntry symbol segmentId info, .nextGroup groups)
  | .returned => (d, .returned)
  | .threw e => (d, .threw e)

/-- Up to `fuel` sections of one call, with no other call in between. -/
def runWriter (sort : StdSort) (creatable : String → Bool) :
    Nat → DiskLayer → DiskWriter → DiskLayer × DiskWriter
  | 0, d, w => (d, w)
  | fuel + 1, d, w => runWriter sort creatable fuel (w.step sort creatable d).1
      (w.step sort creatable d).2

/-- A call that runs alone writes each non-empty group as `write_batch` does sequentially. -/
theorem runWriter_nextGroup (sort : StdSort) {creatable : String → Bool}
    (hc : ∀ path, creatable path = true) :
    ∀ (groups : List (String × List TimeSeriesPoint)) (d : DiskLayer),
      (∀ g ∈ groups, g.2 ≠ []) →
        runWriter sort creatable (3 * groups.length + 1) d (.nextGroup groups) =
          (writtenGroups sort d groups, .returned)
  | [], _, _ => rfl
  | (symbol, symbolPoints) :: groups, d, hne => by
    obtain ⟨first, rest, hrun⟩ : ∃ first rest, sort.run symbolPoints = first :: rest :=
      exists_cons_of_ne_nil fun h => hne _ (mem_cons_self _ _) <| by
        have hp := sort.perm symbolPoints
        rw [h] at hp
        exact hp.nil_eq.symm
    have ih := runWriter_nextGroup sort hc groups
      (d.addSegment symbol (d.nextSegmentId symbol) (sort.run symbolPoints))
      fun g hg => hne g (mem_cons_of_mem _ hg)
    rw [show 3 * ((symbol, symbolPoints) :: groups).length + 1 =
      3 * groups.length + 1 + 1 + 1 + 1 by simp only [length_cons]; omega]
    rw [runWriter, runWriter, runWriter]
    simp only [DiskWriter.step, hrun, hc, if_true]
    show _ = (writtenGroups sort (d.addSegment symbol (d.nextSegmentId symbol)
      (sort.run symbolPoints)) groups, _)
    rw [hrun] at ih ⊢
    exact ih

/-- Several calls in progress on one layer. -/
structure DiskWorld where
  layer : DiskLayer
  writers : List DiskWriter

/-- The next section of call `i`, if there is such a call. -/
def DiskWorld.step (sort : StdSort) (creatable : String → Bool) (w : DiskWorld) (i : Nat) :
    DiskWorld :=
  match w.writers[i]? with
  | none => w
  | some writer =>
    ⟨(writer.step sort creatable w.layer).1, w.writers.set i (writer.step sort creatable w.layer).2⟩

/-- The sections of the calls in the order the schedule names them. -/
def runSchedule (sort : StdSort) (creatable : String → Bool) (w : DiskWorld)
    (schedule : List Nat) : DiskWorld :=
  schedule.foldl (DiskWorld.step sort creatable) w

/-- A second point of `FB`, one microsecond after `epochPoint`. -/
def secondPoint : TimeSeriesPoint := ⟨.ofCount 1000, 2, "FB"⟩

/-- Two calls for `FB` on an empty directory, each reading next id `0` before the other records
its segment. -/
def racingWriters : DiskWorld :=
  ⟨fresh "data" .default, [.start stableSort [epochPoint], .start stableSort [secondPoint]]⟩

/-- Both calls read id `0`, then each writes and records segment `0`. Both return, and a read
finds only the second call's point; run one after the other, the calls keep both. -/
theorem concurrent_writeBatch_overwrites_segment :
    (runSchedule stableSort (fun _ => true) racingWriters [0, 1, 0, 0, 1, 1, 0, 1]).writers =
        [.returned, .returned] ∧
      rangeQuery stableSort
          (runSchedule stableSort (fun _ => true) racingWriters [0, 1, 0, 0, 1, 1, 0, 1]).layer
          "FB" (.ofCount 0) (.ofCount 1000000) = .ok [secondPoint] ∧
      rangeQuery stableSort
          (runSchedule stableSort (fun _ => true) racingWriters [0, 0, 0, 0, 1, 1, 1, 1]).layer
          "FB" (.ofCount 0) (.ofCount 1000000) = .ok [epochPoint, secondPoint] :=
  ⟨rfl, rfl, rfl⟩

end DiskLayer

end FindataEngine
