import FindataEngine.DiskCompaction

/-!
# The segment index and the files of the data directory

A successful `write_segment` writes the segment's file and then records its header in the index
(`addSegment`, `writeSegment_run`); a failed one throws before it writes anything. Both compaction
paths leave the layer as it was (`DiskCompaction`). So on every layer reached from an empty
directory by `write_batch`, `compact_segments` and `optimize_index`, every index entry names its
own file `symbol_id.seg`, that file exists, and every file of the directory is an entry's
(`Indexed`, `indexed_runDisk`).

The header does not describe what `read_segment` returns. With compression on, `write_segment`
hands the codec whole microseconds, truncated toward zero, and keeps the untruncated timestamps
in the header: a segment of one point at `1 ns` is indexed with `start_time = end_time = 1 ns`
and read back at `0 ns` (`writeBatch_header_disagrees_with_read`).
-/

set_option autoImplicit false

namespace FindataEngine

namespace DiskLayer

/-! ## A successful `write_segment` -/

/-- The layer after `write_segment` returned: the file written, then the entry recorded. -/
def addSegment (d : DiskLayer) (symbol : String) (segmentId : Nat) :
    List TimeSeriesPoint → DiskLayer
  | [] => d
  | first :: rest =>
    let info := d.segmentInfo symbol segmentId first rest
    (d.withFile info.filePath (.segment info (segmentPayload d.config (first :: rest)))).withEntry
      symbol segmentId info

@[simp] theorem dataDir_addSegment (d : DiskLayer) (symbol : String) (segmentId : Nat)
    (points : List TimeSeriesPoint) : (d.addSegment symbol segmentId points).dataDir = d.dataDir := by
  cases points <;> rfl

@[simp] theorem config_addSegment (d : DiskLayer) (symbol : String) (segmentId : Nat)
    (points : List TimeSeriesPoint) : (d.addSegment symbol segmentId points).config = d.config := by
  cases points <;> rfl

@[simp] theorem files_addSegment (d : DiskLayer) (symbol : String) (segmentId : Nat)
    (first : TimeSeriesPoint) (rest : List TimeSeriesPoint) :
    (d.addSegment symbol segmentId (first :: rest)).files =
      d.files.insert (fileOf (segmentPath d.dataDir symbol segmentId))
        (.segment (d.segmentInfo symbol segmentId first rest)
          (segmentPayload d.config (first :: rest))) := rfl

/-- `write_segment` outside any hold of the index mutex: it throws, leaving the layer as it was,
exactly when it has points and cannot create the file. -/
theorem writeSegment_run (creatable : String → Bool) (symbol : String)
    (points : List TimeSeriesPoint) (segmentId : Nat) (d : DiskLayer) :
    (writeSegment creatable .unlocked symbol points segmentId).run d =
      if points ≠ [] ∧ creatable (segmentPath d.dataDir symbol segmentId) = false then
        .error ("Failed to create segment file: " ++ segmentPath d.dataDir symbol segmentId) d
      else .ok () (d.addSegment symbol segmentId points) := by
  cases points with
  | nil => rfl
  | cons first rest =>
    simp only [writeSegment, run_get_bind]
    cases creatable (segmentPath d.dataDir symbol segmentId) <;> rfl

/-- `next_segment_id` is not an id of the symbol's index. -/
theorem findSegment_nextSegmentId (d : DiskLayer) (symbol : String) :
    d.findSegment symbol (d.nextSegmentId symbol) = none := by
  unfold findSegment nextSegmentId
  cases d.metadata.lookup symbol with
  | none => rfl
  | some segments =>
    have above : ∀ ks : List Nat, ∀ k ∈ ks, k < ks.foldr (fun k n => max (k + 1) n) 0 := by
      intro ks
      induction ks with
      | nil => simp
      | cons k ks ih =>
        intro k' hk'
        rcases List.mem_cons.mp hk' with rfl | hk'
        · exact lt_of_lt_of_le (Nat.lt_succ_self _) (le_max_left _ _)
        · exact lt_of_lt_of_le (ih k' hk') (le_max_right _ _)
    refine AList.lookup_eq_none.mpr fun hmem => ?_
    exact lt_irrefl _ (above _ _ (AList.mem_keys.mp hmem))

theorem findSegment_addSegment (d : DiskLayer) (symbol : String) (segmentId : Nat)
    (first : TimeSeriesPoint) (rest : List TimeSeriesPoint) (s : String) (i : Nat) :
    (d.addSegment symbol segmentId (first :: rest)).findSegment s i =
      if s = symbol ∧ i = segmentId then some (d.segmentInfo symbol segmentId first rest)
      else d.findSegment s i :=
  findSegment_withEntry _ _ _ _ s i

/-! ## Invariant S2 -/

/-- Invariant S2 with the paths `write_segment` gives: every index entry names the path of
`symbol_id.seg` in the data directory, the file that path opens exists, and every file is one
that an entry's path opens. -/
structure Indexed (d : DiskLayer) : Prop where
  entry_path : ∀ s i info, d.findSegment s i = some info →
    info.filePath = segmentPath d.dataDir s i
  entry_file : ∀ s i info, d.findSegment s i = some info → fileOf info.filePath ∈ d.files
  file_entry : ∀ file ∈ d.files, ∃ s i info, d.findSegment s i = some info ∧
    fileOf info.filePath = file

theorem indexed_fresh (dataDir : String) (config : DiskConfig) :
    Indexed (fresh dataDir config) where
  entry_path _ _ _ h := by simp [findSegment, fresh] at h
  entry_file _ _ _ h := by simp [findSegment, fresh] at h
  file_entry _ h := absurd h (AList.not_mem_empty _)

theorem Indexed.addSegment {d : DiskLayer} (hd : Indexed d) (symbol : String) (segmentId : Nat)
    (points : List TimeSeriesPoint) : Indexed (d.addSegment symbol segmentId points) := by
  cases points with
  | nil => exact hd
  | cons first rest =>
    have hnew : (d.segmentInfo symbol segmentId first rest).filePath =
        segmentPath d.dataDir symbol segmentId := rfl
    constructor
    · intro s i info h
      rw [findSegment_addSegment] at h
      split at h
      · cases h; obtain ⟨rfl, rfl⟩ := ‹_ ∧ _›; simpa using hnew
      · simpa using hd.entry_path s i info h
    · intro s i info h
      rw [findSegment_addSegment] at h
      simp only [files_addSegment, AList.mem_insert]
      split at h
      · exact .inl (by cases h; rfl)
      · exact .inr (hd.entry_file s i info h)
    · intro path hpath
      simp only [files_addSegment, AList.mem_insert] at hpath
      have hself : ∃ s i info, (d.addSegment symbol segmentId (first :: rest)).findSegment s i =
          some info ∧ fileOf info.filePath = fileOf (segmentPath d.dataDir symbol segmentId) :=
        ⟨symbol, segmentId, d.segmentInfo symbol segmentId first rest,
          by rw [findSegment_addSegment, if_pos ⟨rfl, rfl⟩], congrArg fileOf hnew⟩
      rcases hpath with rfl | hpath
      · exact hself
      · obtain ⟨s, i, info, h, rfl⟩ := hd.file_entry path hpath
        by_cases hsi : s = symbol ∧ i = segmentId
        · obtain ⟨rfl, rfl⟩ := hsi
          rw [hd.entry_path s i info h]
          exact hself
        · exact ⟨s, i, info, by rw [findSegment_addSegment, if_neg hsi, h], rfl⟩

/-! ## Segment files of their own -/

/-- The layer's segments are files of their own: its directory's path has no NUL and every
indexed symbol is plain, so two entries' paths open one file only if they are one entry
(`segmentPath_sameFile`). -/
structure Plain (d : DiskLayer) : Prop where
  dataDir : nul ∉ d.dataDir.data
  symbol : ∀ s i info, d.findSegment s i = some info → PlainSymbol s

theorem Plain.withFile {d : DiskLayer} (hp : Plain d) (path : String) (file : FileContent) :
    Plain (d.withFile path file) :=
  ⟨hp.dataDir, hp.symbol⟩

theorem Plain.withEntry {d : DiskLayer} (hp : Plain d) {symbol : String} (hs : PlainSymbol symbol)
    (segmentId : Nat) (info : SegmentInfo) : Plain (d.withEntry symbol segmentId info) := by
  refine ⟨hp.dataDir, fun s i info' h => ?_⟩
  rw [findSegment_withEntry] at h
  split at h
  · exact (‹s = symbol ∧ i = segmentId›).1 ▸ hs
  · exact hp.symbol s i info' h

theorem Plain.addSegment {d : DiskLayer} (hp : Plain d) {symbol : String} (hs : PlainSymbol symbol)
    (segmentId : Nat) : ∀ points : List TimeSeriesPoint, Plain (d.addSegment symbol segmentId points)
  | [] => hp
  | _ :: _ => (hp.withFile _ _).withEntry hs _ _

/-- Under `Plain`, an entry other than segment `segmentId` of a plain `symbol` opens another file
than that segment's path. -/
theorem Plain.file_ne {d : DiskLayer} (hp : Plain d) {s symbol : String} {i segmentId : Nat}
    {info : SegmentInfo} (h : d.findSegment s i = some info)
    (hpath : info.filePath = segmentPath d.dataDir s i) (hs : PlainSymbol symbol)
    (hne : ¬(s = symbol ∧ i = segmentId)) :
    fileOf info.filePath ≠ fileOf (segmentPath d.dataDir symbol segmentId) := by
  rw [hpath]
  exact fun heq => hne (segmentPath_sameFile hp.dataDir (hp.symbol s i info h) hs heq)

/-! Every call keeps a property that `write_segment`'s success keeps: a failed `write_segment`
leaves the layer as it was, and the compaction paths change nothing. -/

/-- `write_segment` keeps a property that its success keeps for its symbol. -/
theorem keeps_writeSegment {P : DiskLayer → Prop} {symbol : String}
    (hP : ∀ d segmentId points, P d → P (addSegment d symbol segmentId points))
    (creatable : String → Bool) (points : List TimeSeriesPoint) (segmentId : Nat) :
    Keeps P (writeSegment creatable .unlocked symbol points segmentId) := by
  intro d hd
  rw [stateAfter, writeSegment_run]
  split_ifs
  · exact hd
  · exact hP d segmentId points hd

/-- The loop of `write_batch` keeps a property that the success of `write_segment` keeps for the
symbols of its groups. -/
theorem keeps_writeGroups_of {P : DiskLayer → Prop} (sort : StdSort) (creatable : String → Bool) :
    ∀ groups : List (String × List TimeSeriesPoint),
      (∀ g ∈ groups, ∀ d segmentId points, P d → P (addSegment d g.1 segmentId points)) →
        Keeps P (writeGroups sort creatable groups)
  | [], _ => keeps_pure ()
  | _ :: groups, hP => keeps_get_bind fun _ =>
    (keeps_writeSegment (hP _ (List.mem_cons_self _ _)) creatable _ _).bind fun _ =>
      keeps_writeGroups_of sort creatable groups fun g hg => hP g (List.mem_cons_of_mem _ hg)

/-- `write_batch` keeps a property that the success of `write_segment` keeps for the symbols of
its points. -/
theorem keeps_writeBatch_of {P : DiskLayer → Prop} (sort : StdSort) (creatable : String → Bool)
    (points : List TimeSeriesPoint)
    (hP : ∀ p ∈ points, ∀ d segmentId pts, P d → P (addSegment d p.symbol segmentId pts)) :
    Keeps P (writeBatch sort creatable points) := by
  unfold writeBatch
  split
  · exact keeps_pure true
  · exact (keeps_writeGroups_of sort creatable _ (forall_mem_groupBySymbol (P := fun s =>
      ∀ d segmentId pts, P d → P (addSegment d s segmentId pts)) hP)).bind fun _ => keeps_pure true

theorem keeps_writeBatch {P : DiskLayer → Prop}
    (hP : ∀ d symbol segmentId points, P d → P (addSegment d symbol segmentId points))
    (sort : StdSort) (creatable : String → Bool) (points : List TimeSeriesPoint) :
    Keeps P (writeBatch sort creatable points) :=
  keeps_writeBatch_of sort creatable points fun p _ d => hP d p.symbol

theorem keeps_compactSegments {P : DiskLayer → Prop} (sort : StdSort)
    (creatable : String → Bool) (symbol : String) :
    Keeps P (compactSegments sort creatable symbol) := by
  refine keeps_of_run fun d hd => ⟨d, hd, ?_⟩
  rw [compactSegments_run]
  split
  · exact .inr ⟨_, rfl⟩
  · exact .inl ⟨(), rfl⟩

theorem keeps_optimizeIndex {P : DiskLayer → Prop} (sort : StdSort) (creatable : String → Bool) :
    Keeps P (optimizeIndex sort creatable) := by
  intro d hd
  simp only [stateAfter, optimizeIndex_run]
  exact hd

/-! ## Runs from an empty directory -/

/-- A call of the disk layer's interface that can change it. -/
inductive DiskOp where
  | writeBatch (points : List TimeSeriesPoint)
  | compactSegments (symbol : String)
  | optimizeIndex

/-- The layer one call leaves, whether it returned or threw. -/
def DiskOp.apply (sort : StdSort) (creatable : String → Bool) (d : DiskLayer) :
    DiskOp → DiskLayer
  | .writeBatch points => stateAfter (DiskLayer.writeBatch sort creatable points) d
  | .compactSegments symbol => stateAfter (DiskLayer.compactSegments sort creatable symbol) d
  | .optimizeIndex => stateAfter (DiskLayer.optimizeIndex sort creatable) d

/-- The points a call hands the layer. -/
def DiskOp.points : DiskOp → List TimeSeriesPoint
  | .writeBatch points => points
  | _ => []

/-- The layer after a sequence of calls on a new layer over an empty directory. -/
def runDisk (sort : StdSort) (creatable : String → Bool) (dataDir : String) (config : DiskConfig)
    (ops : List DiskOp) : DiskLayer :=
  ops.foldl (DiskOp.apply sort creatable) (fresh dataDir config)

/-- A property of the new layer that every successful `write_segment` keeps holds after every
run. -/
theorem runDisk_induction (P : DiskLayer → Prop) (sort : StdSort) (creatable : String → Bool)
    (dataDir : String) (config : DiskConfig) (h0 : P (fresh dataDir config))
    (hP : ∀ d symbol segmentId points, P d → P (addSegment d symbol segmentId points))
    (ops : List DiskOp) : P (runDisk sort creatable dataDir config ops) := by
  have step : ∀ d op, P d → P (DiskOp.apply sort creatable d op) := by
    intro d op hd
    cases op with
    | writeBatch points => exact keeps_writeBatch hP sort creatable points d hd
    | compactSegments symbol => exact keeps_compactSegments sort creatable symbol d hd
    | optimizeIndex => exact keeps_optimizeIndex sort creatable d hd
  suffices ∀ d, P d → P (ops.foldl (DiskOp.apply sort creatable) d) from this _ h0
  induction ops with
  | nil => exact fun _ hd => hd
  | cons op ops ih => exact fun d hd => ih _ (step d op hd)

/-- A property of the new layer that every successful `write_segment` of a symbol of the calls'
points keeps holds after the calls. -/
theorem runDisk_induction_of (P : DiskLayer → Prop) (sort : StdSort) (creatable : String → Bool)
    (dataDir : String) (config : DiskConfig) (h0 : P (fresh dataDir config)) (ops : List DiskOp)
    (hP : ∀ op ∈ ops, ∀ p ∈ op.points, ∀ d segmentId points, P d →
      P (addSegment d p.symbol segmentId points)) :
    P (runDisk sort creatable dataDir config ops) := by
  suffices ∀ d, P d → P (ops.foldl (DiskOp.apply sort creatable) d) from this _ h0
  induction ops with
  | nil => exact fun _ hd => hd
  | cons op ops ih =>
    refine fun d hd => ih (fun op' hop' => hP op' (List.mem_cons_of_mem _ hop')) _ ?_
    cases op with
    | writeBatch points =>
      exact keeps_writeBatch_of sort creatable points (hP _ (List.mem_cons_self _ _)) d hd
    | compactSegments symbol => exact keeps_compactSegments sort creatable symbol d hd
    | optimizeIndex => exact keeps_optimizeIndex sort creatable d hd

/-- Every layer that calls of plain symbols reach from a directory whose path has no NUL keeps
its segments in files of their own. -/
theorem plain_runDisk (sort : StdSort) (creatable : String → Bool) {dataDir : String}
    (hdir : nul ∉ dataDir.data) (config : DiskConfig) {ops : List DiskOp}
    (hplain : ∀ op ∈ ops, ∀ p ∈ op.points, PlainSymbol p.symbol) :
    Plain (runDisk sort creatable dataDir config ops) :=
  runDisk_induction_of Plain sort creatable dataDir config
    ⟨hdir, fun _ _ _ h => by simp [findSegment, fresh] at h⟩ ops
    fun op hop p hp _ segmentId _ hd => hd.addSegment (hplain op hop p hp) segmentId _

/-- Invariant S2 holds on every layer reachable from an empty directory. -/
theorem indexed_runDisk (sort : StdSort) (creatable : String → Bool) (dataDir : String)
    (config : DiskConfig) (ops : List DiskOp) :
    Indexed (runDisk sort creatable dataDir config ops) :=
  runDisk_induction Indexed sort creatable dataDir config (indexed_fresh dataDir config)
    (fun _ symbol segmentId points hd => hd.addSegment symbol segmentId points) ops

theorem dataDir_runDisk (sort : StdSort) (creatable : String → Bool) (dataDir : String)
    (config : DiskConfig) (ops : List DiskOp) :
    (runDisk sort creatable dataDir config ops).dataDir = dataDir :=
  runDisk_induction (fun d => d.dataDir = dataDir) sort creatable dataDir config rfl
    (fun d symbol segmentId points h => (dataDir_addSegment d symbol segmentId points).trans h) ops

/-! ## The header against the points -/

/-- A point of `FB` one nanosecond after the epoch. -/
def nanoPoint : TimeSeriesPoint := ⟨.ofCount 1, 0, "FB"⟩

/-- After `write_batch({nanoPoint})` on an empty directory, the index records the segment's
bounds as `1 ns` and `read_segment` returns its one point at `0 ns`. -/
theorem writeBatch_header_disagrees_with_read :
    (runDisk stableSort (fun _ => true) "data" .default [.writeBatch [nanoPoint]]).findSegment
        "FB" 0 = some ⟨.ofCount 1, .ofCount 1, 1, "data/FB_0.seg", true⟩ ∧
      (runDisk stableSort (fun _ => true) "data" .default [.writeBatch [nanoPoint]]).readSegment
        .shared "FB" 0 = .ok [⟨.ofCount 0, 0, "FB"⟩] :=
  ⟨by decide, rfl⟩

end DiskLayer

end FindataEngine
