import FindataEngine.Calls
import FindataEngine.FileNames
import FindataEngine.StdLib
import Mathlib.Data.List.AList

/-!
# The disk layer

`DiskLayer` of `disk_layer.cpp`, run one call at a time. The layer's state is the metadata index
(`symbol -> segment_id -> SegmentInfo`, both `unordered_map`s as association lists), the files of
the data directory by the file their path names (`fileOf`: two paths that the kernel resolves to
one file reach one entry), and the compression switch of its `DiskConfig`.

A call runs in `EStateM String DiskLayer`: a thrown exception carries its `what()` text, and the
state at the throw stays, as in C++ (nothing is rolled back). The external Rust codec is taken to
round-trip losslessly, so a compressed payload is modelled by the `TimePoint` records it encodes.
Opening a file for writing can fail; `creatable` says for which paths it succeeds.

The calls that take the index mutex again while they hold it exclusively (`optimize_segments`,
and `optimize_index` per symbol, through `read_segment` and `write_segment`) follow `acquireIndexLock`.
-/

set_option autoImplicit false

namespace FindataEngine

open List

/-- `DiskConfig`: the compression switch. -/
structure DiskConfig where
  enableCompression : Bool
  deriving DecidableEq, Repr

/-- `DiskConfig{}`: compression on. -/
def DiskConfig.default : DiskConfig := ⟨true⟩

/-- `DiskLayer::Impl::SegmentInfo`: an index entry, and the header of a segment file. -/
structure SegmentInfo where
  startTime : Timestamp
  endTime : Timestamp
  numPoints : Nat
  filePath : String
  compressed : Bool
  deriving DecidableEq, Repr

/-- The bytes of a segment file after its header and `data_size`. -/
inductive Payload where
  /-- The output of the Rust `compress_time_series`, by the records it encodes. -/
  | compressed (points : List TimePoint)
  /-- The `TimeSeriesPoint` records copied with `memcpy`. -/
  | raw (points : List TimeSeriesPoint)
  deriving DecidableEq, Repr

/-- A file of the data directory: one that `write_segment` wrote, or any other. -/
inductive FileContent where
  | segment (header : SegmentInfo) (payload : Payload)
  | other (bytes : List UInt8)
  deriving DecidableEq, Repr

/-- `DiskLayer::Impl`. `files` is the file system below the working directory, each file under
`fileOf` of a path that opens it. -/
structure DiskLayer where
  dataDir : String
  metadata : AList fun _ : String => AList fun _ : Nat => SegmentInfo
  files : AList fun _ : String => FileContent
  config : DiskConfig
  deriving DecidableEq

/-- A disk-layer call: it returns an `α` or throws, and leaves the layer as it stands then. -/
abbrev DiskM := EStateM String DiskLayer

namespace DiskLayer

/-- A disk layer over an empty data directory. -/
def fresh (dataDir : String) (config : DiskConfig) : DiskLayer := ⟨dataDir, ∅, ∅, config⟩

/-- `metadata[symbol][segment_id] = info`; `metadata[symbol]` creates the symbol's map. -/
def setSegment (md : AList fun _ : String => AList fun _ : Nat => SegmentInfo) (symbol : String)
    (segmentId : Nat) (info : SegmentInfo) : AList fun _ : String => AList fun _ : Nat => SegmentInfo :=
  md.insert symbol (((md.lookup symbol).getD ∅).insert segmentId info)

/-- The two-level `find` of `read_segment`. -/
def findSegment (d : DiskLayer) (symbol : String) (segmentId : Nat) : Option SegmentInfo :=
  (d.metadata.lookup symbol).bind fun segments => segments.lookup segmentId

/-- The Rust record of a point: its time point in whole microseconds and its value. -/
def toTimePoint (p : TimeSeriesPoint) : TimePoint := ⟨p.timestamp.toMicros, p.value⟩

/-- A decompressed Rust record as a point of `symbol`. -/
def ofTimePoint (symbol : String) (r : TimePoint) : TimeSeriesPoint :=
  ⟨Timestamp.ofMicros r.timestamp, r.value, symbol⟩

/-- Throw what taking the index mutex throws. -/
def lockIndex (held : Held) : DiskM Unit :=
  match acquireIndexLock held with
  | .ok () => pure ()
  | .error e => throw e

/-- The payload `write_segment` writes: the Rust codec's input, or the records themselves. -/
def segmentPayload (config : DiskConfig) (points : List TimeSeriesPoint) : Payload :=
  if config.enableCompression then .compressed (points.map toTimePoint) else .raw points

/-- The `SegmentInfo` that `write_segment` writes as the header and the index entry of the
non-empty run `first :: rest`. -/
def segmentInfo (d : DiskLayer) (symbol : String) (segmentId : Nat) (first : TimeSeriesPoint)
    (rest : List TimeSeriesPoint) : SegmentInfo :=
  ⟨first.timestamp, ((first :: rest).getLast (cons_ne_nil _ _)).timestamp, rest.length + 1,
    segmentPath d.dataDir symbol segmentId, d.config.enableCompression⟩

/-- The layer with the file that `path` opens written. -/
def withFile (d : DiskLayer) (path : String) (file : FileContent) : DiskLayer :=
  { d with files := d.files.insert (fileOf path) file }

/-- The layer with `metadata[symbol][segment_id] = info`. -/
def withEntry (d : DiskLayer) (symbol : String) (segmentId : Nat) (info : SegmentInfo) :
    DiskLayer :=
  { d with metadata := setSegment d.metadata symbol segmentId info }

@[simp] theorem dataDir_withFile (d : DiskLayer) (path : String) (file : FileContent) :
    (d.withFile path file).dataDir = d.dataDir := rfl

@[simp] theorem config_withFile (d : DiskLayer) (path : String) (file : FileContent) :
    (d.withFile path file).config = d.config := rfl

@[simp] theorem files_withFile (d : DiskLayer) (path : String) (file : FileContent) :
    (d.withFile path file).files = d.files.insert (fileOf path) file := rfl

@[simp] theorem findSegment_withFile (d : DiskLayer) (path : String) (file : FileContent) :
    (d.withFile path file).findSegment = d.findSegment := rfl

@[simp] theorem dataDir_withEntry (d : DiskLayer) (symbol : String) (segmentId : Nat)
    (info : SegmentInfo) : (d.withEntry symbol segmentId info).dataDir = d.dataDir := rfl

@[simp] theorem config_withEntry (d : DiskLayer) (symbol : String) (segmentId : Nat)
    (info : SegmentInfo) : (d.withEntry symbol segmentId info).config = d.config := rfl

@[simp] theorem files_withEntry (d : DiskLayer) (symbol : String) (segmentId : Nat)
    (info : SegmentInfo) : (d.withEntry symbol segmentId info).files = d.files := rfl

theorem findSegment_withEntry (d : DiskLayer) (symbol : String) (segmentId : Nat)
    (info : SegmentInfo) (s : String) (i : Nat) :
    (d.withEntry symbol segmentId info).findSegment s i =
      if s = symbol ∧ i = segmentId then some info else d.findSegment s i := by
  unfold findSegment withEntry setSegment
  by_cases hs : s = symbol
  · subst hs
    rw [AList.lookup_insert]
    by_cases hi : i = segmentId
    · subst hi; simp [AList.lookup_insert]
    · rw [if_neg (fun h => hi h.2), Option.some_bind, AList.lookup_insert_ne hi]
      cases d.metadata.lookup s <;> rfl
  · simp [AList.lookup_insert_ne hs, hs]

/-- `DiskLayer::Impl::write_segment`. The file is written before the index mutex is taken. -/
def writeSegment (creatable : String → Bool) (held : Held) (symbol : String)
    (points : List TimeSeriesPoint) (segmentId : Nat) : DiskM Unit :=
  match points with
  | [] => pure ()
  | first :: rest => do
    let d ← get
    let segmentFile := segmentPath d.dataDir symbol segmentId
    if !creatable segmentFile then throw ("Failed to create segment file: " ++ segmentFile)
    let info := d.segmentInfo symbol segmentId first rest
    set (d.withFile segmentFile (.segment info (segmentPayload d.config (first :: rest))))
    lockIndex held
    modify fun d => d.withEntry symbol segmentId info

/-- The points of a segment file as `read_segment` decodes them under the index entry `info`:
with `info.compressed`, the Rust records as points of `symbol`; otherwise the first
`info.num_points` raw records. Reading one payload kind under the other flag reinterprets bytes
and is not modelled: it gives no points. Copying raw records back copy-constructs `std::string`s
from the pointers of objects that no longer exist, which is undefined: the model gives the
records back, and the results about what a read gives back keep to compression on, as the
engine's `DiskConfig{}` has it. -/
def decodeSegment (symbol : String) (info : SegmentInfo) : FileContent → List TimeSeriesPoint
  | .segment _ (.compressed records) => if info.compressed then records.map (ofTimePoint symbol) else []
  | .segment _ (.raw points) => if info.compressed then [] else points.take info.numPoints
  | .other _ => []

/-- `DiskLayer::Impl::read_segment`. -/
def readSegment (d : DiskLayer) (held : Held) (symbol : String) (segmentId : Nat) :
    Except String (List TimeSeriesPoint) := do
  acquireIndexLock held
  match d.findSegment symbol segmentId with
  | none => pure []
  | some info =>
    match d.files.lookup (fileOf info.filePath) with
    | none => throw ("Failed to open segment file: " ++ info.filePath)
    | some file => pure (decodeSegment symbol info file)

/-- `point.timestamp >= start && point.timestamp < end`. -/
def inHalfOpen (start end_ : Timestamp) (p : TimeSeriesPoint) : Bool :=
  decide (start ≤ p.timestamp) && decide (p.timestamp < end_)

/-- The loop of `range_query` over the relevant segments: each is read and filtered. -/
def readRelevant (d : DiskLayer) (symbol : String) (start end_ : Timestamp) :
    List Nat → Except String (List TimeSeriesPoint)
  | [] => pure []
  | segmentId :: ids => do
    let points ← d.readSegment .shared symbol segmentId
    let rest ← d.readRelevant symbol start end_ ids
    pure (points.filter (inHalfOpen start end_) ++ rest)

/-- `info.start_time <= end && info.end_time >= start`: the segment's recorded bounds meet
`[start, end]`. -/
def relevant (start end_ : Timestamp) (info : SegmentInfo) : Bool :=
  decide (info.startTime ≤ end_) && decide (start ≤ info.endTime)

/-- The segments whose recorded `[start_time, end_time]` meets `[start, end]`, in index order. -/
def relevantSegments (segments : AList fun _ : Nat => SegmentInfo) (start end_ : Timestamp) :
    List Nat :=
  (segments.entries.filter fun e => relevant start end_ e.2).map (·.1)

/-- `DiskLayer::Impl::range_query`, behind `DiskLayer::read_range`. -/
def rangeQuery (sort : StdSort) (d : DiskLayer) (symbol : String) (start end_ : Timestamp) :
    Except String (List TimeSeriesPoint) := do
  acquireIndexLock .unlocked
  match d.metadata.lookup symbol with
  | none => pure []
  | some segments => do
    let results ← d.readRelevant symbol start end_ (relevantSegments segments start end_)
    pure (sort.run results)

/-- `next_segment_id`: one more than the largest id of the symbol (`std::max_element`), or `0`. -/
def nextSegmentId (d : DiskLayer) (symbol : String) : Nat :=
  match d.metadata.lookup symbol with
  | none => 0
  | some segments => segments.keys.foldr (fun k n => max (k + 1) n) 0

/-- The loop of `DiskLayer::write_batch` over the symbol groups. -/
def writeGroups (sort : StdSort) (creatable : String → Bool) :
    List (String × List TimeSeriesPoint) → DiskM Unit
  | [] => pure ()
  | (symbol, symbolPoints) :: groups => do
    let d ← get
    writeSegment creatable .unlocked symbol (sort.run symbolPoints) (d.nextSegmentId symbol)
    writeGroups sort creatable groups

/-- `DiskLayer::write_batch`. -/
def writeBatch (sort : StdSort) (creatable : String → Bool) (points : List TimeSeriesPoint) :
    DiskM Bool :=
  if points.isEmpty then pure true
  else do
    writeGroups sort creatable (groupBySymbol sort points)
    pure true

/-- `DiskLayer::commit_segment`. -/
def commitSegment (_symbol : String) : Bool := true

/-- `std::filesystem::remove(path)`. -/
def removeFile (path : String) : DiskM Unit :=
  modify fun d => { d with files := d.files.erase (fileOf path) }

/-- `points_per_segment` of both compaction paths. -/
def pointsPerSegment : Nat := 10000

/-- The loop `for (i = 0; i < n; i += points_per_segment)` that writes the chunks of a compacted
symbol as segments `segmentId`, `segmentId + 1`, …. -/
def writeChunks (creatable : String → Bool) (held : Held) (symbol : String)
    (points : List TimeSeriesPoint) (segmentId : Nat) : DiskM Unit :=
  if points = [] then pure ()
  else do
    writeSegment creatable held symbol (points.take pointsPerSegment) segmentId
    writeChunks creatable held symbol (points.drop pointsPerSegment) (segmentId + 1)
termination_by points.length
decreasing_by
  simp_wf
  cases points with
  | nil => contradiction
  | cons _ _ => simp [pointsPerSegment]

/-- The collection loop of `optimize_segments`: read each segment, then remove its file. -/
def collectAndRemove (symbol : String) :
    List (Σ _ : Nat, SegmentInfo) → DiskM (List TimeSeriesPoint)
  | [] => pure []
  | ⟨segmentId, info⟩ :: segments => do
    let d ← get
    let points ← match d.readSegment .exclusive symbol segmentId with
      | .ok points => pure points
      | .error e => throw e
    removeFile info.filePath
    let rest ← collectAndRemove symbol segments
    pure (points ++ rest)

/-- The symbol's map emptied: `symbol_it->second.clear()`. -/
def clearSegments (symbol : String) : DiskM Unit :=
  modify fun d => { d with metadata := d.metadata.insert symbol ∅ }

/-- `DiskLayer::Impl::optimize_segments`, behind `DiskLayer::compact_segments`. -/
def compactSegments (sort : StdSort) (creatable : String → Bool) (symbol : String) :
    DiskM Unit := do
  lockIndex .unlocked
  let d ← get
  match d.metadata.lookup symbol with
  | none => pure ()
  | some segments =>
    let allPoints ← collectAndRemove symbol segments.entries
    if allPoints.isEmpty then pure ()
    else do
      clearSegments symbol
      writeChunks creatable .exclusive symbol (sort.run allPoints) 0

/-- The collection loop of `optimize_index` for one symbol: read each segment. -/
def collectSegments (symbol : String) : List Nat → DiskM (List TimeSeriesPoint)
  | [] => pure []
  | segmentId :: ids => do
    let d ← get
    let points ← match d.readSegment .exclusive symbol segmentId with
      | .ok points => pure points
      | .error e => throw e
    let rest ← collectSegments symbol ids
    pure (points ++ rest)

/-- The removal loop of `optimize_index` for one symbol. -/
def removeFiles : List (Σ _ : Nat, SegmentInfo) → DiskM Unit
  | [] => pure ()
  | ⟨_, info⟩ :: segments => do
    removeFile info.filePath
    removeFiles segments

/-- The body of `optimize_index`'s `try` block for one symbol. -/
def optimizeSymbol (sort : StdSort) (creatable : String → Bool) (symbol : String) :
    DiskM Unit := do
  lockIndex .unlocked
  let d ← get
  match d.metadata.lookup symbol with
  | none => pure ()
  | some segments =>
    let allPoints ← collectSegments symbol segments.keys
    if allPoints.isEmpty then pure ()
    else do
      let allPoints := stdUnique (sort.run allPoints)
      removeFiles segments.entries
      clearSegments symbol
      writeChunks creatable .exclusive symbol allPoints 0

/-- The line `optimize_index` prints to `stderr` when a symbol throws. -/
def optimizeErrorLine (symbol e : String) : String :=
  "Error optimizing symbol " ++ symbol ++ ": " ++ e

/-- The loop of `optimize_index`: each symbol in its own `try`; the lines printed to `stderr`
are returned. -/
def optimizeSymbols (sort : StdSort) (creatable : String → Bool) :
    List String → DiskM (List String)
  | [] => pure []
  | symbol :: symbols => do
    let line ← tryCatch (do optimizeSymbol sort creatable symbol; pure [])
      fun e => pure [optimizeErrorLine symbol e]
    let lines ← optimizeSymbols sort creatable symbols
    pure (line ++ lines)

/-- `DiskLayer::optimize_index`: the symbols are taken under a shared hold, then each is
optimized on its own. -/
def optimizeIndex (sort : StdSort) (creatable : String → Bool) : DiskM (List String) := do
  let d ← get
  optimizeSymbols sort creatable d.metadata.keys

end DiskLayer

end FindataEngine
