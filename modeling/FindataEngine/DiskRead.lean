import FindataEngine.DiskInvariant

/-!
# What a range query returns

On a layer that satisfies invariant S2, `read_segment` never throws, so `range_query` returns,
up to the order `std::sort` picks, the points of the relevant segments that fall in
`[start, end)` (`rangeQuery_eq`). `storedRange` names that list.

A successful `write_batch` adds one segment per symbol group at the symbol's next id and leaves
every other segment's entry and file alone (`writeGroups_run_ok`). So the stored range of a
symbol grows by the new segment's points and keeps the old ones
(`storedRange_writtenGroups`).
-/

set_option autoImplicit false

namespace FindataEngine

namespace DiskLayer

open List

/-- The points `read_segment` decodes from a segment, or none when the index has no such
segment or its file is missing. -/
def segmentPoints (d : DiskLayer) (symbol : String) (segmentId : Nat) : List TimeSeriesPoint :=
  match d.findSegment symbol segmentId with
  | none => []
  | some info =>
    match d.files.lookup (fileOf info.filePath) with
    | none => []
    | some file => decodeSegment symbol info file

/-- The points of the relevant segments in `[start, end)`, in index order. -/
def storedRange (d : DiskLayer) (symbol : String) (start end_ : Timestamp) :
    List TimeSeriesPoint :=
  match d.metadata.lookup symbol with
  | none => []
  | some segments =>
    (relevantSegments segments start end_).flatMap fun i =>
      (d.segmentPoints symbol i).filter (inHalfOpen start end_)

theorem before_end_of_mem_storedRange {d : DiskLayer} {symbol : String} {start end_ : Timestamp}
    {p : TimeSeriesPoint} (h : p ∈ d.storedRange symbol start end_) : p.timestamp < end_ := by
  unfold storedRange at h
  split at h
  · simp at h
  · obtain ⟨_, _, hp⟩ := mem_flatMap.mp h
    have hin := (mem_filter.mp hp).2
    simp only [inHalfOpen, Bool.and_eq_true, decide_eq_true_eq] at hin
    exact hin.2

section Indexed

variable {d : DiskLayer}

theorem Indexed.readSegment_eq (hd : Indexed d) (symbol : String) (segmentId : Nat) :
    d.readSegment .shared symbol segmentId = .ok (d.segmentPoints symbol segmentId) := by
  unfold readSegment segmentPoints
  cases h : d.findSegment symbol segmentId with
  | none => rfl
  | some info =>
    obtain ⟨file, hfile⟩ := Option.isSome_iff_exists.mp
      (AList.lookup_isSome.mpr (hd.entry_file symbol segmentId info h))
    simp only [hfile]
    rfl

theorem Indexed.readRelevant_eq (hd : Indexed d) (symbol : String) (start end_ : Timestamp) :
    ∀ ids, d.readRelevant symbol start end_ ids =
      .ok (ids.flatMap fun i => (d.segmentPoints symbol i).filter (inHalfOpen start end_))
  | [] => rfl
  | i :: ids => by
    simp only [readRelevant, hd.readSegment_eq, hd.readRelevant_eq symbol start end_ ids,
      flatMap_cons]
    rfl

/-- On a layer with invariant S2, `range_query` returns the stored range, sorted. -/
theorem Indexed.rangeQuery_eq (hd : Indexed d) (sort : StdSort) (symbol : String)
    (start end_ : Timestamp) :
    d.rangeQuery sort symbol start end_ = .ok (sort.run (d.storedRange symbol start end_)) := by
  unfold rangeQuery storedRange
  cases d.metadata.lookup symbol with
  | none => rw [StdSort.run_nil]; rfl
  | some segments =>
    simp only [hd.readRelevant_eq]
    rfl

/-- Decoding a segment other than the one just written gives what it gave before: under `Plain`,
the new segment of a plain symbol is a file of its own. -/
theorem Indexed.segmentPoints_addSegment_of_ne (hd : Indexed d) (hp : Plain d) {symbol : String}
    (hs : PlainSymbol symbol) {segmentId : Nat} (points : List TimeSeriesPoint) {s : String}
    {i : Nat} (hne : ¬(s = symbol ∧ i = segmentId)) :
    (d.addSegment symbol segmentId points).segmentPoints s i = d.segmentPoints s i := by
  cases points with
  | nil => rfl
  | cons first rest =>
    unfold segmentPoints
    rw [findSegment_addSegment, if_neg hne]
    cases h : d.findSegment s i with
    | none => rfl
    | some info =>
      simp only [files_addSegment,
        AList.lookup_insert_ne (hp.file_ne h (hd.entry_path s i info h) hs hne)]

end Indexed

/-- The points a segment of `points` gives back: the codec's whole microseconds with compression
on, the records themselves with it off. -/
def readBack (config : DiskConfig) (symbol : String) (points : List TimeSeriesPoint) :
    List TimeSeriesPoint :=
  if config.enableCompression then points.map fun p => ofTimePoint symbol (toTimePoint p)
  else points

/-- Points of `symbol` in whole microseconds come back as they were written. -/
theorem readBack_eq_self (config : DiskConfig) {symbol : String} {points : List TimeSeriesPoint}
    (hsym : ∀ p ∈ points, p.symbol = symbol) (hwhole : ∀ p ∈ points, p.timestamp.WholeMicros) :
    readBack config symbol points = points := by
  unfold readBack
  split
  · refine (map_congr_left fun p hp => ?_).trans (map_id _)
    obtain ⟨t, v, s⟩ := p
    simp only [ofTimePoint, toTimePoint, id, ← hsym _ hp,
      Timestamp.ofMicros_toMicros_of_whole (hwhole _ hp)]
  · rfl

theorem segmentPoints_addSegment (d : DiskLayer) (symbol : String) (segmentId : Nat)
    (first : TimeSeriesPoint) (rest : List TimeSeriesPoint) :
    (d.addSegment symbol segmentId (first :: rest)).segmentPoints symbol segmentId =
      readBack d.config symbol (first :: rest) := by
  unfold segmentPoints
  rw [findSegment_addSegment, if_pos ⟨rfl, rfl⟩]
  simp only [files_addSegment, segmentInfo, AList.lookup_insert, readBack, segmentPayload]
  cases d.config.enableCompression <;> simp [decodeSegment]

/-! ## The stored range after `write_batch` -/

theorem relevantSegments_insert {segments : AList fun _ : Nat => SegmentInfo} {segmentId : Nat}
    (info : SegmentInfo) (hfresh : segmentId ∉ segments) (start end_ : Timestamp) :
    relevantSegments (segments.insert segmentId info) start end_ =
      (if relevant start end_ info then [segmentId] else []) ++
        relevantSegments segments start end_ := by
  unfold relevantSegments
  rw [AList.insert_entries_of_neg hfresh, filter_cons]
  split <;> rfl

theorem mem_of_mem_relevantSegments {segments : AList fun _ : Nat => SegmentInfo} {i : Nat}
    {start end_ : Timestamp} (h : i ∈ relevantSegments segments start end_) : i ∈ segments := by
  obtain ⟨e, he, rfl⟩ := mem_map.mp h
  exact AList.mem_keys.mpr (mem_map_of_mem _ (mem_filter.mp he).1)

theorem findSegment_eq_getD (d : DiskLayer) (symbol : String) (segmentId : Nat) :
    d.findSegment symbol segmentId = ((d.metadata.lookup symbol).getD ∅).lookup segmentId := by
  unfold findSegment
  cases d.metadata.lookup symbol <;> rfl

theorem storedRange_eq_getD (d : DiskLayer) (symbol : String) (start end_ : Timestamp) :
    d.storedRange symbol start end_ =
      (relevantSegments ((d.metadata.lookup symbol).getD ∅) start end_).flatMap fun i =>
        (d.segmentPoints symbol i).filter (inHalfOpen start end_) := by
  unfold storedRange
  cases d.metadata.lookup symbol <;> rfl

theorem lookup_metadata_addSegment_of_ne (d : DiskLayer) {symbol s : String} (segmentId : Nat)
    (points : List TimeSeriesPoint) (hs : s ≠ symbol) :
    (d.addSegment symbol segmentId points).metadata.lookup s = d.metadata.lookup s := by
  cases points with
  | nil => rfl
  | cons first rest => exact AList.lookup_insert_ne hs

theorem storedRange_addSegment_of_ne {d : DiskLayer} (hd : Indexed d) (hp : Plain d)
    {symbol s : String} (hsym : PlainSymbol symbol) (segmentId : Nat) (points : List TimeSeriesPoint)
    (hs : s ≠ symbol) (start end_ : Timestamp) :
    (d.addSegment symbol segmentId points).storedRange s start end_ =
      d.storedRange s start end_ := by
  unfold storedRange
  rw [lookup_metadata_addSegment_of_ne d segmentId points hs]
  cases d.metadata.lookup s with
  | none => rfl
  | some segments =>
    refine congrArg flatten (map_congr_left fun i _ => ?_)
    rw [hd.segmentPoints_addSegment_of_ne hp hsym points fun h => hs h.1]

/-- The points in `[start, end)` that a segment written from `points` adds to a range query:
none when its recorded bounds miss `[start, end]`. -/
def writtenRange (config : DiskConfig) (symbol : String) (start end_ : Timestamp) :
    List TimeSeriesPoint → List TimeSeriesPoint
  | [] => []
  | first :: rest =>
    if decide (first.timestamp ≤ end_) &&
        decide (start ≤ ((first :: rest).getLast (cons_ne_nil _ _)).timestamp) then
      (readBack config symbol (first :: rest)).filter (inHalfOpen start end_)
    else []

/-- A segment of sorted points of `symbol` in whole microseconds adds exactly its points in
`[start, end)`: when its bounds miss `[start, end]`, so do all its points. -/
theorem writtenRange_eq_filter (config : DiskConfig) {symbol : String} {start end_ : Timestamp}
    {points : List TimeSeriesPoint} (hs : SortedByTime points)
    (hsym : ∀ p ∈ points, p.symbol = symbol) (hwhole : ∀ p ∈ points, p.timestamp.WholeMicros) :
    writtenRange config symbol start end_ points = points.filter (inHalfOpen start end_) := by
  obtain _ | ⟨first, rest⟩ := points
  · rfl
  show (if _ then _ else []) = _
  rw [readBack_eq_self config hsym hwhole]
  split
  · rfl
  · rename_i hrel
    refine (filter_eq_nil_iff.mpr fun p hp hin => hrel ?_).symm
    simp only [inHalfOpen, Bool.and_eq_true, decide_eq_true_eq] at hin ⊢
    exact ⟨le_trans (hs.head_le hp) (le_of_lt hin.2), le_trans hin.1 (hs.le_getLast _ hp)⟩

/-- A segment written at a fresh id puts its points in the range before the old ones. -/
theorem storedRange_addSegment {d : DiskLayer} (hd : Indexed d) (hp : Plain d) {symbol : String}
    (hsym : PlainSymbol symbol) {segmentId : Nat} (hfresh : d.findSegment symbol segmentId = none)
    (points : List TimeSeriesPoint) (start end_ : Timestamp) :
    (d.addSegment symbol segmentId points).storedRange symbol start end_ =
      writtenRange d.config symbol start end_ points ++ d.storedRange symbol start end_ := by
  obtain _ | ⟨first, rest⟩ := points
  · rfl
  have hnotin : segmentId ∉ (d.metadata.lookup symbol).getD ∅ := by
    rw [findSegment_eq_getD] at hfresh
    exact AList.lookup_eq_none.mp hfresh
  have hlookup : (d.addSegment symbol segmentId (first :: rest)).metadata.lookup symbol =
      some (((d.metadata.lookup symbol).getD ∅).insert segmentId
        (d.segmentInfo symbol segmentId first rest)) :=
    AList.lookup_insert _
  rw [storedRange_eq_getD, storedRange_eq_getD, hlookup, Option.getD_some,
    relevantSegments_insert _ hnotin, flatMap_append]
  congr 1
  · show _ = if relevant start end_ (d.segmentInfo symbol segmentId first rest) then _ else []
    split
    · rw [flatMap_singleton, segmentPoints_addSegment]
    · rfl
  · refine congrArg flatten (map_congr_left fun i hi => ?_)
    have hne : i ≠ segmentId := fun h => hnotin (h ▸ mem_of_mem_relevantSegments hi)
    rw [hd.segmentPoints_addSegment_of_ne hp hsym _ fun h => hne h.2]

/-- The layer a successful loop of `write_batch` leaves: one segment per group, each at its
symbol's next id at the time. -/
def writtenGroups (sort : StdSort) (d : DiskLayer) (groups : List (String × List TimeSeriesPoint)) :
    DiskLayer :=
  groups.foldl (fun d g => d.addSegment g.1 (d.nextSegmentId g.1) (sort.run g.2)) d

theorem Indexed.writtenGroups (sort : StdSort) {d : DiskLayer} (hd : Indexed d) :
    ∀ groups, Indexed (writtenGroups sort d groups)
  | [] => hd
  | g :: groups =>
    (hd.addSegment g.1 (d.nextSegmentId g.1) (sort.run g.2)).writtenGroups sort groups

theorem writeGroups_run_ok (sort : StdSort) (creatable : String → Bool) :
    ∀ (groups : List (String × List TimeSeriesPoint)) (d d' : DiskLayer),
      (writeGroups sort creatable groups).run d = .ok () d' → d' = writtenGroups sort d groups
  | [], _, _, h => by cases h; rfl
  | (symbol, symbolPoints) :: groups, d, d₁, h => by
    rw [writeGroups, run_get_bind, run_bind, writeSegment_run] at h
    split_ifs at h
    exact writeGroups_run_ok sort creatable groups _ d₁ h

/-- A successful `write_batch` returns `true` and leaves one new segment per symbol group. -/
theorem writeBatch_run_ok (sort : StdSort) (creatable : String → Bool)
    (points : List TimeSeriesPoint) {d d' : DiskLayer} {b : Bool}
    (h : (writeBatch sort creatable points).run d = .ok b d') :
    b = true ∧ d' = writtenGroups sort d (groupBySymbol sort points) := by
  unfold writeBatch at h
  split at h
  · cases h
    rename_i hempty
    rw [List.isEmpty_iff.mp hempty, groupBySymbol_nil]
    exact ⟨rfl, rfl⟩
  · rw [run_bind] at h
    cases hw : (writeGroups sort creatable (groupBySymbol sort points)).run d with
    | ok u d₁ =>
      rw [hw] at h
      injection h with hb hd
      subst hb hd
      exact ⟨rfl, writeGroups_run_ok sort creatable _ d d₁ hw⟩
    | error e d₁ => rw [hw] at h; cases h

theorem Plain.writtenGroups (sort : StdSort) :
    ∀ {groups : List (String × List TimeSeriesPoint)} {d : DiskLayer}, Plain d →
      (∀ g ∈ groups, PlainSymbol g.1) → Plain (writtenGroups sort d groups)
  | [], _, hp, _ => hp
  | g :: _, d, hp, hgroups =>
    (hp.addSegment (hgroups g (mem_cons_self _ _)) (d.nextSegmentId g.1) (sort.run g.2)).writtenGroups
      sort fun g' hg' => hgroups g' (mem_cons_of_mem _ hg')

/-- After a successful loop of `write_batch` over groups of plain symbols, a symbol's stored
range holds the points of its groups' new segments, the last group's first, and then what it held
before. -/
theorem storedRange_writtenGroups (sort : StdSort) (symbol : String) (start end_ : Timestamp) :
    ∀ (groups : List (String × List TimeSeriesPoint)) {d : DiskLayer}, Indexed d → Plain d →
      (∀ g ∈ groups, PlainSymbol g.1) →
      (writtenGroups sort d groups).storedRange symbol start end_ =
        ((groups.filter fun g => g.1 = symbol).reverse.flatMap fun g =>
          writtenRange d.config symbol start end_ (sort.run g.2)) ++
          d.storedRange symbol start end_
  | [], _, _, _, _ => rfl
  | (s, symbolPoints) :: groups, d, hd, hp, hgroups => by
    have hs : PlainSymbol s := hgroups _ (mem_cons_self _ _)
    have ih := storedRange_writtenGroups sort symbol start end_ groups
      (hd.addSegment s (d.nextSegmentId s) (sort.run symbolPoints))
      (hp.addSegment hs (d.nextSegmentId s) (sort.run symbolPoints))
      fun g hg => hgroups g (mem_cons_of_mem _ hg)
    simp only [writtenGroups, foldl_cons] at ih ⊢
    rw [ih, config_addSegment, filter_cons]
    by_cases hsym : s = symbol
    · subst hsym
      rw [storedRange_addSegment hd hp hs (findSegment_nextSegmentId d s)]
      simp
    · rw [storedRange_addSegment_of_ne hd hp hs _ _ (Ne.symm hsym)]
      simp [hsym]

/-! ## Sub-microsecond timestamps -/

/-- A point of `FB` at `1.5 µs`. -/
def halfMicroPoint : TimeSeriesPoint := ⟨.ofCount 1500, 0, "FB"⟩

/-- After `write_batch({halfMicroPoint})` on an empty directory, `read_segment` returns the point
at `1 µs`, inside `[0, 1.001 µs)`. The index records the segment from `1.5 µs`, so a range query
of `[0, 1.001 µs)` skips the segment and returns nothing. -/
theorem rangeQuery_prunes_matching_segment :
    (runDisk stableSort (fun _ => true) "data" .default [.writeBatch [halfMicroPoint]]).readSegment
        .shared "FB" 0 = .ok [⟨.ofCount 1000, 0, "FB"⟩] ∧
      rangeQuery stableSort (runDisk stableSort (fun _ => true) "data" .default
        [.writeBatch [halfMicroPoint]]) "FB" (.ofCount 0) (.ofCount 1001) = .ok [] :=
  ⟨rfl, rfl⟩

/-- `write_batch` of two points of `FB` at `1.5 µs` and `1.7 µs` on an empty directory: the new
segment `0` reads back as two points at `1 µs`. -/
theorem writeBatch_reads_back_truncated :
    (runDisk stableSort (fun _ => true) "data" .default
        [.writeBatch [halfMicroPoint, ⟨.ofCount 1700, 1, "FB"⟩]]).readSegment .shared "FB" 0 =
      .ok [⟨.ofCount 1000, 0, "FB"⟩, ⟨.ofCount 1000, 1, "FB"⟩] :=
  rfl

end DiskLayer

end FindataEngine
