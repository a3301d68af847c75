import FindataEngine.EngineConcurrency
import FindataEngine.Durability

/-!
# What a concurrent read returns

Under any interleaving of the engine's calls, every point a `read_range` returns lies in its
window and was held by the engine, buffered or in a segment as `read_segment` decodes it, when
one of the read's own two sections ran (`read_returns_held_points`). The read takes its memory
points at its snapshot and its disk points at its disk query, and neither adds a point: the
memory layer's `get_range` is a slice of the symbol's sequence, and `range_query` returns, when it
does not throw, the points of the relevant segments in `[start, end)` whatever state the index is
in (`rangeQuery_ok`).

The multiset need not be one that any single engine state gives (`concurrent_read_returns_duplicate`
shows a point returned twice): what holds is provenance, point by point.

The memory layer keeps its invariant through every section of every call
(`invariant_runThreads`), so each snapshot is sorted and its slice is a filter of the window.
-/

set_option autoImplicit false

namespace FindataEngine

open List

/-! ## `range_query` on any index -/

namespace DiskLayer

variable {d : DiskLayer} {symbol : String} {start end_ : Timestamp}

theorem readSegment_ok {segmentId : Nat} {points : List TimeSeriesPoint}
    (h : d.readSegment .shared symbol segmentId = .ok points) :
    points = d.segmentPoints symbol segmentId := by
  unfold readSegment at h
  unfold segmentPoints
  cases hinfo : d.findSegment symbol segmentId with
  | none => rw [hinfo] at h; cases h; rfl
  | some info =>
    rw [hinfo] at h
    dsimp only at h ⊢
    cases hfile : d.files.lookup (fileOf info.filePath) with
    | none => rw [hfile] at h; cases h
    | some file => rw [hfile] at h; cases h; rfl

theorem readRelevant_ok :
    ∀ (ids : List Nat) {points : List TimeSeriesPoint},
      d.readRelevant symbol start end_ ids = .ok points →
        points = ids.flatMap fun i => (d.segmentPoints symbol i).filter (inHalfOpen start end_)
  | [], _, h => by cases h; rfl
  | i :: ids, _, h => by
    unfold readRelevant at h
    cases hseg : d.readSegment .shared symbol i with
    | error err => rw [hseg] at h; cases h
    | ok segmentPoints =>
      rw [hseg] at h
      cases hrest : d.readRelevant symbol start end_ ids with
      | error err => rw [hrest] at h; cases h
      | ok rest =>
        rw [hrest] at h
        cases h
        rw [readSegment_ok hseg, readRelevant_ok ids hrest, flatMap_cons]

/-- Whatever state the index is in, a `range_query` that returns gives the stored range, sorted:
a segment whose file is missing makes it throw, never return other points. -/
theorem rangeQuery_ok (sort : StdSort) {points : List TimeSeriesPoint}
    (h : d.rangeQuery sort symbol start end_ = .ok points) :
    points = sort.run (d.storedRange symbol start end_) := by
  unfold rangeQuery at h
  unfold storedRange
  cases hsegments : d.metadata.lookup symbol with
  | none => rw [hsegments] at h; cases h; exact (StdSort.run_nil sort).symm
  | some segments =>
    rw [hsegments] at h
    dsimp only at h ⊢
    cases hread : d.readRelevant symbol start end_ (relevantSegments segments start end_) with
    | error err => rw [hread] at h; cases h
    | ok results => rw [hread] at h; cases h; rw [readRelevant_ok _ hread]

end DiskLayer

namespace StorageEngine

open MemoryLayer DiskLayer

variable (sort : StdSort) (creatable : String → Bool)

/-! ## The memory layer through every section -/

theorem EngineThread.invariant_step (t : EngineThread) {e : StorageEngine}
    (hm : Invariant e.memoryLayer) : Invariant (t.step sort creatable e).1.memoryLayer := by
  cases t with
  | writePoint point =>
    simp only [EngineThread.step]
    split <;> exact hm.insert point
  | writeBatch points =>
    simp only [EngineThread.step]
    split
    · exact hm
    · split <;> exact hm.insertBatch sort points
  | flush =>
    simp only [EngineThread.step]
    split <;> exact hm
  | flushing writer =>
    cases writer with
    | returned => exact hm.clearCache
    | nextGroup | writeFile | record | threw => exact hm
  | reading =>
    simp only [EngineThread.step]
    split <;> exact hm
  | read | returnedBool | returnedPoints | threw => exact hm

theorem invariant_runThreads :
    ∀ (schedule : List Nat) (w : EngineWorld), Invariant w.engine.memoryLayer →
      Invariant (runThreads sort creatable w schedule).engine.memoryLayer
  | [], _, hm => hm
  | j :: schedule, w, hm => by
    refine invariant_runThreads schedule _ ?_
    unfold EngineWorld.step
    cases w.threads[j]? with
    | none => exact hm
    | some t => exact t.invariant_step sort creatable hm

/-! ## Where a read stands -/

section Read

variable (w₀ : EngineWorld) (i : Nat) (symbol : String) (start end_ : Timestamp)

/-- Point `p` lies in the window, and the engine held it, buffered or in a segment, when one of
call `i`'s sections of the schedule ran. -/
def HeldAtSection (schedule : List Nat) (p : TimeSeriesPoint) : Prop :=
  start ≤ p.timestamp ∧ p.timestamp ≤ end_ ∧ ∃ k < schedule.length, schedule[k]? = some i ∧
    p ∈ (runThreads sort creatable w₀ (schedule.take k)).engine.memoryLayer.symbolPoints symbol ++
      (runThreads sort creatable w₀ (schedule.take k)).engine.diskLayer.diskPoints symbol

/-- The read of call `i` has not run, holds its snapshot, has returned, or threw; every point it
has gathered was held at one of its sections. -/
def ReadStage (schedule : List Nat) : Prop :=
  (runThreads sort creatable w₀ schedule).threads[i]? = some (.read symbol start end_) ∨
  (∃ points, (runThreads sort creatable w₀ schedule).threads[i]? =
      some (.reading symbol start end_ points) ∧
    ∀ p ∈ points, HeldAtSection sort creatable w₀ i symbol start end_ schedule p) ∨
  (∃ points, (runThreads sort creatable w₀ schedule).threads[i]? = some (.returnedPoints points) ∧
    ∀ p ∈ points, HeldAtSection sort creatable w₀ i symbol start end_ schedule p) ∨
  ∃ err, (runThreads sort creatable w₀ schedule).threads[i]? = some (.threw err)

variable {w₀ i symbol start end_}

theorem HeldAtSection.snoc {schedule : List Nat} {p : TimeSeriesPoint}
    (h : HeldAtSection sort creatable w₀ i symbol start end_ schedule p) (j : Nat) :
    HeldAtSection sort creatable w₀ i symbol start end_ (schedule ++ [j]) p := by
  obtain ⟨hstart, hend, k, hk, hki, hp⟩ := h
  refine ⟨hstart, hend, k, by simp only [length_append]; omega, ?_, ?_⟩
  · rwa [getElem?_append_left hk]
  · rwa [take_append_of_le_length hk.le]

/-- A point the engine holds when call `i`'s next section runs is held at that section. -/
theorem heldAtSection_last {schedule : List Nat} {p : TimeSeriesPoint}
    (hwindow : start ≤ p.timestamp ∧ p.timestamp ≤ end_)
    (hp : p ∈ (runThreads sort creatable w₀ schedule).engine.memoryLayer.symbolPoints symbol ++
      (runThreads sort creatable w₀ schedule).engine.diskLayer.diskPoints symbol) :
    HeldAtSection sort creatable w₀ i symbol start end_ (schedule ++ [i]) p := by
  refine ⟨hwindow.1, hwindow.2, schedule.length, by simp, by simp, ?_⟩
  rwa [take_left' rfl]

/-- The section of the read itself: the snapshot takes points the memory layer holds, and the
disk query points of the segments. -/
theorem readStage_self {schedule : List Nat}
    (hm : Invariant (runThreads sort creatable w₀ schedule).engine.memoryLayer)
    (h : ReadStage sort creatable w₀ i symbol start end_ schedule) :
    ReadStage sort creatable w₀ i symbol start end_ (schedule ++ [i]) := by
  have hstep : runThreads sort creatable w₀ (schedule ++ [i]) =
      (runThreads sort creatable w₀ schedule).step sort creatable i := by
    rw [runThreads, runThreads, foldl_append, foldl_cons, foldl_nil]
  unfold ReadStage at h ⊢
  rw [hstep]
  rcases h with h | ⟨points, h, hpoints⟩ | ⟨points, h, hpoints⟩ | ⟨err, h⟩
  all_goals
    have hlen := (getElem?_eq_some.mp h).1
    simp only [EngineWorld.step, h, getElem?_set_self hlen, EngineThread.step]
  · refine .inr (.inl ⟨_, rfl, fun p hp => ?_⟩)
    rw [hm.getRange_eq] at hp
    obtain ⟨hp, hwindow⟩ := mem_filter.mp hp
    exact heldAtSection_last sort creatable (by simpa using hwindow) (mem_append_left _ hp)
  · cases hquery :
        (runThreads sort creatable w₀ schedule).engine.diskLayer.rangeQuery sort symbol start end_ with
    | error err => exact .inr (.inr (.inr ⟨err, rfl⟩))
    | ok diskPoints =>
      refine .inr (.inr (.inl ⟨_, rfl, fun p hp => ?_⟩))
      rcases mem_append.mp ((sort.perm _).mem_iff.mp hp) with hp | hp
      · exact (hpoints p hp).snoc sort creatable i
      · rw [rangeQuery_ok sort hquery] at hp
        have hstored := (sort.perm _).mem_iff.mp hp
        have hwindow := window_of_mem_storedRange hstored
        exact heldAtSection_last sort creatable ⟨hwindow.1, le_of_lt hwindow.2⟩
          (mem_append_right _ ((storedRange_sublist_diskPoints _ _ _ _).subset hstored))
  · exact .inr (.inr (.inl ⟨points, rfl, fun p hp => (hpoints p hp).snoc sort creatable i⟩))
  · exact .inr (.inr (.inr ⟨err, rfl⟩))

/-- A section of another call leaves the read where it stands. -/
theorem readStage_other {schedule : List Nat} {j : Nat} (hj : j ≠ i)
    (h : ReadStage sort creatable w₀ i symbol start end_ schedule) :
    ReadStage sort creatable w₀ i symbol start end_ (schedule ++ [j]) := by
  have hthread : (runThreads sort creatable w₀ (schedule ++ [j])).threads[i]? =
      (runThreads sort creatable w₀ schedule).threads[i]? := by
    rw [runThreads, foldl_append, foldl_cons, foldl_nil]
    unfold EngineWorld.step
    split
    · rfl
    · exact getElem?_set_ne hj
  unfold ReadStage at h ⊢
  rw [hthread]
  rcases h with h | ⟨points, h, hpoints⟩ | ⟨points, h, hpoints⟩ | h
  · exact .inl h
  · exact .inr (.inl ⟨points, h, fun p hp => (hpoints p hp).snoc sort creatable j⟩)
  · exact .inr (.inr (.inl ⟨points, h, fun p hp => (hpoints p hp).snoc sort creatable j⟩))
  · exact .inr (.inr (.inr h))

theorem readStage_runThreads (hm : Invariant w₀.engine.memoryLayer)
    (hi : w₀.threads[i]? = some (.read symbol start end_)) (schedule : List Nat) :
    ReadStage sort creatable w₀ i symbol start end_ schedule := by
  induction schedule using reverseRecOn with
  | nil => exact .inl hi
  | append_singleton schedule j ih =>
    by_cases hj : j = i
    · subst hj
      exact readStage_self sort creatable (invariant_runThreads sort creatable schedule w₀ hm) ih
    · exact readStage_other sort creatable hj ih

end Read

/-- Under any interleaving of the engine's calls, from a world whose memory layer keeps its
invariant, every point a `read_range` returns lies in its window and was held by the engine,
buffered or in a segment, when one of the read's own sections ran. -/
theorem read_returns_held_points (w : EngineWorld) (hm : Invariant w.engine.memoryLayer)
    {i : Nat} {symbol : String} {start end_ : Timestamp}
    (hi : w.threads[i]? = some (.read symbol start end_)) (schedule : List Nat)
    {points : List TimeSeriesPoint}
    (hreturned : (runThreads sort creatable w schedule).threads[i]? = some (.returnedPoints points)) :
    ∀ p ∈ points, start ≤ p.timestamp ∧ p.timestamp ≤ end_ ∧
      ∃ k < schedule.length, schedule[k]? = some i ∧
        p ∈ (runThreads sort creatable w (schedule.take k)).engine.memoryLayer.symbolPoints symbol ++
          (runThreads sort creatable w (schedule.take k)).engine.diskLayer.diskPoints symbol := by
  rcases readStage_runThreads sort creatable hm hi schedule with
    h | ⟨_, h, _⟩ | ⟨_, h, hheld⟩ | ⟨_, h⟩
  all_goals rw [hreturned] at h
  · cases h
  · cases h
  · cases h
    exact hheld
  · cases h

/-- The read of `readAcrossFlush` returns the first point twice, and each copy was held, in
memory at the snapshot or on disk at the query. -/
theorem read_returns_held_points_acrossFlush :
    Invariant readAcrossFlush.engine.memoryLayer ∧
      readAcrossFlush.threads[1]? = some (.read "FB" (.ofCount 0) (.ofCount 2000)) ∧
      (runThreads stableSort (fun _ => true) readAcrossFlush readAcrossFlushSchedule).threads[1]? =
        some (.returnedPoints [epochPoint, epochPoint, secondPoint]) ∧
      ∀ p ∈ [epochPoint, epochPoint, secondPoint],
        .ofCount 0 ≤ p.timestamp ∧ p.timestamp ≤ .ofCount 2000 ∧
        ∃ k < readAcrossFlushSchedule.length, readAcrossFlushSchedule[k]? = some 1 ∧
          p ∈ (runThreads stableSort (fun _ => true) readAcrossFlush
              (readAcrossFlushSchedule.take k)).engine.memoryLayer.symbolPoints "FB" ++
            (runThreads stableSort (fun _ => true) readAcrossFlush
              (readAcrossFlushSchedule.take k)).engine.diskLayer.diskPoints "FB" :=
  have hreturned : (runThreads stableSort (fun _ => true) readAcrossFlush
      readAcrossFlushSchedule).threads[1]? =
        some (.returnedPoints [epochPoint, epochPoint, secondPoint]) := rfl
  ⟨invariant_empty, rfl, hreturned, read_returns_held_points stableSort (fun _ => true)
    readAcrossFlush invariant_empty rfl readAcrossFlushSchedule hreturned⟩

end StorageEngine

end FindataEngine
