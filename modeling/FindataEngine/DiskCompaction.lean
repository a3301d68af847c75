import FindataEngine.DiskLayer

/-!
# What the two compaction paths do

`optimize_segments` (behind `compact_segments`) and `optimize_index` take the index mutex
exclusively and then call `read_segment`, which takes it again. glibc reports EDEADLK to the
thread that holds the lock, and libstdc++ throws it as `std::system_error`, before anything is
read, removed or written.

* `compact_segments` throws on every symbol that has a segment and leaves the layer as it was
  (`compactSegments_run`).
* `optimize_index` catches that exception for every such symbol, prints one line for it, and
  leaves the layer as it was (`optimizeIndex_run`).

Neither path changes the layer, whatever it holds (`compaction_keeps_layer`), and on a layer
with one segment both end in EDEADLK (`compaction_relocks_index`). So no symbol is ever
compacted: segments that repeat a timestamp keep repeating it after `optimize_index`
(`optimizeIndex_keeps_duplicates`) and after `compact_segments`
(`compactSegments_keeps_duplicates`).
-/

set_option autoImplicit false

namespace FindataEngine

namespace DiskLayer

/-- A symbol with at least one index entry. -/
def hasSegments (d : DiskLayer) (symbol : String) : Bool :=
  match d.metadata.lookup symbol with
  | some segments => !segments.keys.isEmpty
  | none => false

section Runs

variable (sort : StdSort) (creatable : String → Bool) (d : DiskLayer) (symbol : String)

theorem collectSegments_cons_run (i : Nat) (ids : List Nat) :
    (collectSegments symbol (i :: ids)).run d = .error resourceDeadlockAvoided d := rfl

theorem collectAndRemove_cons_run (e : Σ _ : Nat, SegmentInfo) (es : List (Σ _ : Nat, SegmentInfo)) :
    (collectAndRemove symbol (e :: es)).run d = .error resourceDeadlockAvoided d := by
  obtain ⟨i, info⟩ := e
  rfl

theorem optimizeSymbol_run :
    (optimizeSymbol sort creatable symbol).run d =
      if d.hasSegments symbol then .error resourceDeadlockAvoided d else .ok () d := by
  unfold hasSegments
  cases h : d.metadata.lookup symbol with
  | none =>
    show (match d.metadata.lookup symbol with | none => _ | some _ => _ : DiskM Unit) d = _
    rw [h]; rfl
  | some segments =>
    show (match d.metadata.lookup symbol with | none => _ | some _ => _ : DiskM Unit) d = _
    rw [h]
    dsimp only
    cases segments.keys with
    | nil => rfl
    | cons i ids =>
      show EStateM.bind (collectSegments symbol (i :: ids)) _ d = _
      simp only [EStateM.bind]
      rw [show collectSegments symbol (i :: ids) d = .error resourceDeadlockAvoided d from
        collectSegments_cons_run d symbol i ids]
      rfl

/-- `compact_segments` throws on a symbol with segments and changes nothing. -/
theorem compactSegments_run :
    (compactSegments sort creatable symbol).run d =
      if d.hasSegments symbol then .error resourceDeadlockAvoided d else .ok () d := by
  unfold hasSegments
  cases h : d.metadata.lookup symbol with
  | none =>
    show (match d.metadata.lookup symbol with | none => _ | some _ => _ : DiskM Unit) d = _
    rw [h]; rfl
  | some segments =>
    show (match d.metadata.lookup symbol with | none => _ | some _ => _ : DiskM Unit) d = _
    rw [h]
    dsimp only
    have hk : segments.keys = segments.entries.map (·.1) := rfl
    rw [hk]
    cases segments.entries with
    | nil => rfl
    | cons e es =>
      show EStateM.bind (collectAndRemove symbol (e :: es)) _ d = _
      simp only [EStateM.bind]
      rw [show collectAndRemove symbol (e :: es) d = .error resourceDeadlockAvoided d from
        collectAndRemove_cons_run d symbol e es]
      rfl

theorem optimizeSymbols_run (symbols : List String) :
    (optimizeSymbols sort creatable symbols).run d =
      .ok ((symbols.filter d.hasSegments).map fun s => optimizeErrorLine s resourceDeadlockAvoided)
        d := by
  induction symbols with
  | nil => rfl
  | cons s ss ih =>
    simp only [optimizeSymbols, run_bind, run_tryCatch, optimizeSymbol_run]
    by_cases hs : d.hasSegments s
    · simp [hs, ih, run_pure]
    · simp [hs, ih, run_pure]

/-- `optimize_index` prints one line for every symbol with segments and changes nothing. -/
theorem optimizeIndex_run :
    (optimizeIndex sort creatable).run d =
      .ok ((d.metadata.keys.filter d.hasSegments).map fun s =>
        optimizeErrorLine s resourceDeadlockAvoided) d :=
  optimizeSymbols_run sort creatable d d.metadata.keys

/-- Whichever segment files can be created, neither compaction path changes the layer: each
throws at its first `read_segment`, before it removes a file or writes a segment. -/
theorem compaction_keeps_layer :
    stateAfter (compactSegments sort creatable symbol) d = d ∧
      stateAfter (optimizeIndex sort creatable) d = d := by
  unfold stateAfter
  rw [compactSegments_run, optimizeIndex_run]
  exact ⟨by cases d.hasSegments symbol <;> rfl, rfl⟩

end Runs

/-- A point of `FB` at the epoch. -/
def epochPoint : TimeSeriesPoint := ⟨.ofCount 0, 1, "FB"⟩

/-- A new layer after `n` calls of `write_batch({epochPoint})`. -/
def writtenTimes (n : Nat) : DiskLayer :=
  n.repeat (stateAfter (writeBatch stableSort (fun _ => true) [epochPoint]))
    (fresh "data" .default)

/-- Two segments that both hold `epochPoint`: `optimize_index` prints the deadlock error, keeps
both segments, and a read still returns the point twice. -/
theorem optimizeIndex_keeps_duplicates :
    (optimizeIndex stableSort (fun _ => true)).run (writtenTimes 2) =
        .ok ["Error optimizing symbol FB: Resource deadlock avoided"] (writtenTimes 2) ∧
      rangeQuery stableSort (writtenTimes 2) "FB" (.ofCount 0) (.ofCount 1000) =
        .ok [epochPoint, epochPoint] := by
  refine ⟨?_, rfl⟩
  rw [optimizeIndex_run]
  rfl

/-- The scenario of the `Compaction` test with one point: `compact_segments` throws the deadlock
error and the three copies stay. -/
theorem compactSegments_keeps_duplicates :
    (compactSegments stableSort (fun _ => true) "FB").run (writtenTimes 3) =
        .error "Resource deadlock avoided" (writtenTimes 3) ∧
      rangeQuery stableSort (writtenTimes 3) "FB" (.ofCount 0) (.ofCount 1000) =
        .ok [epochPoint, epochPoint, epochPoint] := by
  refine ⟨?_, rfl⟩
  rw [compactSegments_run]
  rfl

/-- One segment of `FB` is enough: `compact_segments` and `optimize_index` ask for the index
mutex while they hold it exclusively, and glibc's report of the self-deadlock comes back as the
exception `compact_segments` throws and as the line `optimize_index` prints. -/
theorem compaction_relocks_index :
    (compactSegments stableSort (fun _ => true) "FB").run (writtenTimes 1) =
        .error resourceDeadlockAvoided (writtenTimes 1) ∧
      (optimizeIndex stableSort (fun _ => true)).run (writtenTimes 1) =
        .ok [optimizeErrorLine "FB" resourceDeadlockAvoided] (writtenTimes 1) := by
  rw [compactSegments_run, optimizeIndex_run]
  exact ⟨rfl, rfl⟩

end DiskLayer

end FindataEngine
