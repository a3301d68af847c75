import FindataEngine.FlushReads
import FindataEngine.DiskConcurrency

/-!
# What the engine reports

`get_stats().total_points` reads the engine's counter `total_points`. `write_point` raises it by
one when the memory layer admitted the point, and `write_batch` by the size of the batch once
`insert_batch` returned, whatever `insert_batch` admitted: a batch that repeats a timestamp is
counted in full, while the memory layer stores and counts one point
(`writeBatch_counts_rejected_points`).

`get_latest` returns the memory layer's last point of the symbol when there is one and reads the
disk only otherwise. A point written after a flush, older than a flushed one, hides the newer
point on disk (`getLatest_misses_flushed_point`).

`optimize()` is `flush()` followed by `optimize_index`, which changes nothing on disk, so it
leaves the engine `flush()` leaves (`stateAfter_optimize`). A timestamp written into two
segments keeps both points after it, the older beside the newer
(`optimize_keeps_older_point`).

`get_stats().storage_size_bytes` adds up, in a `size_t`, `file_size` of the file of every index
entry, and `file_size` reports `(uintmax_t) -1` for a missing file. On every layer the layer's
own calls of plain symbols leave, the index names each file of the directory exactly once and no
missing file, so the sum is the size of the directory's files (`getStorageSize_runEngine`). Two
symbols whose paths reach one file, such as `FB` and `./FB`, have that file counted twice.
-/

set_option autoImplicit false

namespace FindataEngine

/-! ## The size of the data directory -/

/-- A fold that adds modulo `m` adds up the whole list modulo `m`. -/
theorem foldl_mod_eq {α : Type} {m : Nat} (g : Nat → α → Nat) (f : α → Nat)
    (hg : ∀ total x, g (total % m) x = (total + f x) % m) :
    ∀ (l : List α) (total : Nat), l.foldl g (total % m) = (total + (l.map f).sum) % m
  | [], total => by simp
  | x :: l, total => by
    rw [List.foldl_cons, hg, foldl_mod_eq g f hg l, List.map_cons, List.sum_cons, Nat.add_assoc]

namespace DiskLayer

open List

/-- The size of a file of the directory, or `static_cast<uintmax_t>(-1)` when there is none.
`fileSize` is the size of a file's content. -/
def fileSizeOf (fileSize : FileContent → Nat) (d : DiskLayer) (file : String) : Nat :=
  match d.files.lookup file with
  | some content => fileSize content
  | none => 2 ^ 64 - 1

/-- `std::filesystem::file_size(path, ec)`: the size of the file `path` opens. -/
def fileSizeAt (fileSize : FileContent → Nat) (d : DiskLayer) (path : String) : Nat :=
  d.fileSizeOf fileSize (fileOf path)

/-- `DiskLayer::get_storage_size`: `file_size` of the file of every index entry, added up in a
`size_t`. -/
def getStorageSize (fileSize : FileContent → Nat) (d : DiskLayer) : Nat :=
  d.metadata.entries.foldl (fun total symbolSegments =>
    symbolSegments.2.entries.foldl (fun total segment =>
      (total + d.fileSizeAt fileSize segment.2.filePath) % 2 ^ 64) total) 0

/-- The files the index names, symbol by symbol. -/
def indexedPaths (d : DiskLayer) : List String :=
  d.metadata.entries.flatMap fun symbolSegments => symbolSegments.2.entries.map (·.2.filePath)

variable {d : DiskLayer}

theorem getStorageSize_eq_sum (fileSize : FileContent → Nat) (d : DiskLayer) :
    d.getStorageSize fileSize = (d.indexedPaths.map (d.fileSizeAt fileSize)).sum % 2 ^ 64 := by
  have hinner := foldl_mod_eq (fun total (segment : Σ _ : Nat, SegmentInfo) =>
      (total + d.fileSizeAt fileSize segment.2.filePath) % 2 ^ 64)
    (fun segment => d.fileSizeAt fileSize segment.2.filePath) fun total _ => Nat.mod_add_mod _ _ _
  unfold getStorageSize
  rw [← Nat.zero_mod (2 ^ 64), foldl_mod_eq _ _ fun total e => hinner e.2.entries total, zero_add]
  simp [indexedPaths, flatMap_def, sum_flatten, Function.comp_def]

theorem findSegment_of_mem {symbolSegments : Σ _ : String, AList fun _ : Nat => SegmentInfo}
    (hs : symbolSegments ∈ d.metadata.entries) {segment : Σ _ : Nat, SegmentInfo}
    (hseg : segment ∈ symbolSegments.2.entries) :
    d.findSegment symbolSegments.1 segment.1 = some segment.2 := by
  unfold findSegment
  rw [AList.mem_lookup_iff.mpr hs]
  exact AList.mem_lookup_iff.mpr hseg

theorem mem_indexedPaths {path : String} :
    path ∈ d.indexedPaths ↔ ∃ s i info, d.findSegment s i = some info ∧ info.filePath = path := by
  constructor
  · intro h
    obtain ⟨symbolSegments, hs, hpath⟩ := mem_flatMap.mp h
    obtain ⟨segment, hseg, rfl⟩ := mem_map.mp hpath
    exact ⟨_, _, _, findSegment_of_mem hs hseg, rfl⟩
  · rintro ⟨s, i, info, h, rfl⟩
    obtain ⟨segments, hs, hi⟩ := Option.bind_eq_some.mp h
    exact mem_flatMap.mpr ⟨⟨s, segments⟩, AList.mem_lookup_iff.mp hs,
      mem_map.mpr ⟨⟨i, info⟩, AList.mem_lookup_iff.mp hi, rfl⟩⟩

/-- Under invariant S2 the files of one symbol's entries are its ids' files. -/
theorem Indexed.map_file (hd : Indexed d)
    {symbolSegments : Σ _ : String, AList fun _ : Nat => SegmentInfo}
    (hs : symbolSegments ∈ d.metadata.entries) :
    symbolSegments.2.entries.map (fun segment => fileOf segment.2.filePath) =
      symbolSegments.2.keys.map fun i => fileOf (segmentPath d.dataDir symbolSegments.1 i) := by
  rw [AList.keys, List.keys, map_map]
  exact map_congr_left fun segment hseg => by
    rw [Function.comp_apply, hd.entry_path _ _ _ (findSegment_of_mem hs hseg)]

theorem Plain.symbol_of_mem_keys (hp : Plain d)
    {symbolSegments : Σ _ : String, AList fun _ : Nat => SegmentInfo}
    (hs : symbolSegments ∈ d.metadata.entries) {i : Nat} (hi : i ∈ symbolSegments.2.keys) :
    PlainSymbol symbolSegments.1 := by
  obtain ⟨info, hseg⟩ := List.mem_keys.mp hi
  exact hp.symbol _ _ _ (findSegment_of_mem hs hseg)

/-- Under invariant S2, with plain symbols, no two index entries open one file. -/
theorem Indexed.indexedFiles_nodup (hd : Indexed d) (hp : Plain d) :
    (d.indexedPaths.map fileOf).Nodup := by
  have heq : d.indexedPaths.map fileOf = d.metadata.entries.flatMap fun symbolSegments =>
      symbolSegments.2.entries.map fun segment => fileOf segment.2.filePath := by
    simp [indexedPaths, map_flatMap, Function.comp_def]
  rw [heq]
  refine nodup_flatMap.mpr ⟨fun symbolSegments hs => ?_, ?_⟩
  · rw [hd.map_file hs]
    exact symbolSegments.2.keys_nodup.map_on fun i hi j hj h =>
      (segmentPath_sameFile hp.dataDir (hp.symbol_of_mem_keys hs hi)
        (hp.symbol_of_mem_keys hs hj) h).2
  · refine (nodupKeys_iff_pairwise.mp d.metadata.nodupKeys).imp_of_mem
      fun {e e'} he he' hne file (hfile : file ∈ map _ e.2.entries)
        (hfile' : file ∈ map _ e'.2.entries) => hne ?_
    rw [hd.map_file he] at hfile
    rw [hd.map_file he'] at hfile'
    obtain ⟨i, hi, rfl⟩ := mem_map.mp hfile
    obtain ⟨i', hi', heq⟩ := mem_map.mp hfile'
    exact (segmentPath_sameFile hp.dataDir (hp.symbol_of_mem_keys he' hi')
      (hp.symbol_of_mem_keys he hi) heq).1.symm

/-- Under invariant S2, with plain symbols, the index opens every file of the directory once,
and no other. -/
theorem Indexed.indexedFiles_perm (hd : Indexed d) (hp : Plain d) :
    d.indexedPaths.map fileOf ~ d.files.keys :=
  (perm_ext_iff_of_nodup (hd.indexedFiles_nodup hp) d.files.keys_nodup).mpr fun file => by
    rw [mem_map, ← AList.mem_keys]
    constructor
    · rintro ⟨path, hpath, rfl⟩
      obtain ⟨s, i, info, h, rfl⟩ := mem_indexedPaths.mp hpath
      exact hd.entry_file s i info h
    · intro hfile
      obtain ⟨s, i, info, h, rfl⟩ := hd.file_entry file hfile
      exact ⟨info.filePath, mem_indexedPaths.mpr ⟨s, i, info, h, rfl⟩, rfl⟩

theorem sum_fileSizeOf_keys (fileSize : FileContent → Nat) (d : DiskLayer) :
    (d.files.keys.map (d.fileSizeOf fileSize)).sum =
      (d.files.entries.map fun file => fileSize file.2).sum := by
  rw [AList.keys, List.keys, map_map]
  congr 1
  exact map_congr_left fun file hfile => by
    have hlookup : d.files.lookup file.1 = some file.2 := AList.mem_lookup_iff.mpr hfile
    simp only [Function.comp, fileSizeOf, hlookup]

/-- Under invariant S2, with plain symbols, `get_storage_size` is the size of the directory's
files. -/
theorem Indexed.getStorageSize_eq (hd : Indexed d) (hp : Plain d) (fileSize : FileContent → Nat) :
    d.getStorageSize fileSize = (d.files.entries.map fun file => fileSize file.2).sum % 2 ^ 64 := by
  rw [getStorageSize_eq_sum, show d.indexedPaths.map (d.fileSizeAt fileSize) =
      (d.indexedPaths.map fileOf).map (d.fileSizeOf fileSize) from (map_map _ _ _).symm,
    ((hd.indexedFiles_perm hp).map _).sum_eq, sum_fileSizeOf_keys]

end DiskLayer

namespace StorageEngine

open DiskLayer

/-- `StorageEngine::Impl::get_total_points`, reported as `get_stats().total_points`. -/
def getTotalPoints (e : StorageEngine) : Nat := e.totalPoints

/-- A second point of `FB` at the epoch, with another value. -/
def repeatedPoint : TimeSeriesPoint := ⟨.ofCount 0, 2, "FB"⟩

/-- `write_batch({epochPoint, repeatedPoint})` on a new engine: `insert_batch` keeps one of the
two points and counts one, and the engine counts two. -/
theorem writeBatch_counts_rejected_points :
    (runEngine stableSort (fun _ => true) ⟨"data", 1000000⟩
        [.writeBatch [epochPoint, repeatedPoint]]).getTotalPoints = 2 ∧
      (runEngine stableSort (fun _ => true) ⟨"data", 1000000⟩
        [.writeBatch [epochPoint, repeatedPoint]]).memoryLayer.cacheSize = 1 ∧
      (runEngine stableSort (fun _ => true) ⟨"data", 1000000⟩
        [.writeBatch [epochPoint, repeatedPoint]]).memoryLayer.symbolPoints "FB" = [epochPoint] :=
  ⟨rfl, rfl, rfl⟩

/-- `write_point` of a point at `1 µs`, `flush`, then `write_point` of a point at the epoch:
`get_latest` returns the point at the epoch from memory, while the symbol's whole range holds
the point at `1 µs` on disk. -/
theorem getLatest_misses_flushed_point :
    getLatest stableSort (runEngine stableSort (fun _ => true) ⟨"data", 1000000⟩
        [.writePoint secondPoint, .flush, .writePoint epochPoint]) "FB" = .ok (some epochPoint) ∧
      readRange stableSort (runEngine stableSort (fun _ => true) ⟨"data", 1000000⟩
        [.writePoint secondPoint, .flush, .writePoint epochPoint]) "FB" .min .max =
        .ok [epochPoint, secondPoint] :=
  ⟨rfl, rfl⟩

/-! ## What `optimize` leaves -/

section Optimize

variable (sort : StdSort) (creatable : String → Bool)

/-- `optimize()` leaves the engine `flush()` leaves: `optimize_index` throws the deadlock error
for every symbol with segments and changes nothing on disk. -/
theorem stateAfter_optimize (e : StorageEngine) :
    stateAfter (optimize sort creatable) e = stateAfter (flush sort creatable) e := by
  unfold optimize stateAfter
  rw [run_bind]
  cases (flush sort creatable).run e with
  | ok _ e' =>
    simp only [run_bind, run_onDisk, DiskLayer.optimizeIndex_run]
    rfl
  | error _ _ => rfl

end Optimize

/-- `write_point` of a point of `FB` at the epoch, `flush`, `write_point` of another point at the
epoch, `flush`, then `optimize()`: both segments stay, and the whole range of `FB` still returns
the point of the first segment beside the point of the second. -/
theorem optimize_keeps_older_point :
    readRange stableSort (runEngine stableSort (fun _ => true) ⟨"data", 1000000⟩
        [.writePoint epochPoint, .flush, .writePoint repeatedPoint, .flush, .optimize]) "FB"
        .min .max =
      .ok [repeatedPoint, epochPoint] :=
  rfl

/-- `StorageEngine::Impl::get_storage_size`, reported as `get_stats().storage_size_bytes`. -/
def getStorageSize (fileSize : FileContent → Nat) (e : StorageEngine) : Nat :=
  e.diskLayer.getStorageSize fileSize

/-- On every engine a run of calls of plain symbols leaves, from an empty directory whose path
has no NUL, whatever the size of each file, `get_stats().storage_size_bytes` is the total size of
the data directory's files, each counted once, in a `size_t`: no file is missing and none is
counted twice. -/
theorem getStorageSize_runEngine (sort : StdSort) (creatable : String → Bool)
    (fileSize : FileContent → Nat) (config : EngineConfig) (hdir : nul ∉ config.dataDirectory.data)
    (ops : List EngineOp) (hplain : ∀ op ∈ ops, ∀ p ∈ op.points, PlainSymbol p.symbol) :
    (runEngine sort creatable config ops).getStorageSize fileSize =
      ((runEngine sort creatable config ops).diskLayer.files.entries.map
        fun file => fileSize file.2).sum % 2 ^ 64 :=
  (healthy_runEngine sort creatable config ops).disk.getStorageSize_eq
    (plain_runEngine sort creatable hdir hplain).disk fileSize

/-- One point of `FB` written and flushed under `data`: the directory holds one segment file,
counted once. -/
theorem getStorageSize_runEngine_flushed :
    nul ∉ "data".data ∧
    (∀ op ∈ [EngineOp.writePoint DiskLayer.epochPoint, .flush], ∀ p ∈ op.points,
      PlainSymbol p.symbol) ∧
    (runEngine stableSort (fun _ => true) ⟨"data", 1000000⟩
      [.writePoint DiskLayer.epochPoint, .flush]).getStorageSize (fun _ => 1) = 1 :=
  have hdir : nul ∉ "data".data := by decide
  have hplain : ∀ op ∈ [EngineOp.writePoint DiskLayer.epochPoint, .flush], ∀ p ∈ op.points,
      PlainSymbol p.symbol := by
    decide
  ⟨hdir, hplain, (getStorageSize_runEngine stableSort (fun _ => true) (fun _ => 1)
    ⟨"data", 1000000⟩ hdir _ hplain).trans rfl⟩

end StorageEngine

end FindataEngine
