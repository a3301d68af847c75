import FindataEngine.EngineQueries

/-!
# The engine never loses a point it holds

Run one call at a time, the engine loses no point it holds, whatever its calls return or throw.
A point it holds is a buffered point, or a point of an indexed segment as `read_segment` decodes
it. A buffered point is counted as a read of its segment will give it back once it is flushed
(`storedPoints`). Every call only adds to this multiset (`storedPoints_runEngine_append`).

* `insert` adds a point at its split, and the merge of `insert_batch` keeps every stored point.
  `std::merge` copies a point of the new batch before a stored one only when the new point is
  strictly earlier. So every point before a stored point in the merge is strictly earlier, and
  `std::unique` keeps the stored point (`sublist_stdUnique_stdMerge`).
* A `write_segment` that succeeds adds a segment at the symbol's next id, which no segment has.
  One that throws changes nothing. So every disk write only adds points (`keeps_grows_writeBatch`).
* A `flush` that returns moves each buffered point to its symbol's new segment
  (`storedPoints_flush_perm`). One that throws keeps the buffer and the segments already
  written.
* `optimize_index` changes nothing.

The buffer and the disk hold a point in different forms: with compression on, the disk keeps
whole microseconds. The multiset compares both in the disk's form.

Reads add nothing either: on every such engine `read_range` returns, sorted, points of its window
that the engine holds, buffered or as a segment decodes them, and no point more often than the
engine holds it (`readRange_runEngine_sound`). `get_latest` returns without throwing too: the
latest buffered point while there is one, however recent the segments are, and otherwise the
latest point of the segments before `time_point::max` (`getLatest_runEngine`).
-/

set_option autoImplicit false

namespace FindataEngine

open List

/-! ## `std::unique` of a merge keeps the stored sequence -/

section Merge

/-- After a last kept point strictly earlier than a strictly increasing `xs`, `std::unique`
keeps that point and all of `xs`, whatever the merge took from the other range: it took a point
of it only when the point was strictly earlier than the next point of `xs`. -/
theorem cons_sublist_destutter'_merge (ys : List TimeSeriesPoint) :
    ∀ {xs : List TimeSeriesPoint} {a : TimeSeriesPoint}, StrictlySorted xs →
      (∀ x ∈ xs, a.timestamp < x.timestamp) →
        a :: xs <+ (List.merge xs ys mergeTakesLeft).destutter' DistinctTime a := by
  induction ys with
  | nil =>
    intro xs a hs ha
    have hchain : Chain DistinctTime a xs :=
      (pairwise_cons.mpr ⟨ha, hs⟩).chain'.imp fun _ _ => ne_of_lt
    rw [merge_right, destutter'_of_chain _ _ hchain]
  | cons y ys ihy =>
    intro xs
    induction xs with
    | nil => exact fun _ _ => singleton_sublist.mpr (mem_destutter' _ _ _)
    | cons x xs ihx =>
      intro a hs ha
      have hax : DistinctTime a x := ne_of_lt (ha x (mem_cons_self _ _))
      by_cases hxy : mergeTakesLeft x y
      · rw [cons_merge_cons_pos _ _ _ hxy, destutter'_cons_pos _ hax]
        exact (ihx hs.of_cons (rel_of_sorted_cons hs)).cons₂ a
      · have hyx : y.timestamp < x.timestamp := by simpa [mergeTakesLeft] using hxy
        rw [cons_merge_cons_neg _ _ _ hxy]
        by_cases hay : DistinctTime a y
        · rw [destutter'_cons_pos _ hay]
          refine ((sublist_cons_self y _).trans (ihy hs fun z hz => ?_)).cons₂ a
          rcases mem_cons.mp hz with rfl | hz
          · exact hyx
          · exact lt_trans hyx (rel_of_sorted_cons hs z hz)
        · rw [destutter'_cons_neg _ hay]
          exact ihy hs ha

/-- `std::unique` of the merge of a strictly increasing sequence with any other keeps every
point of the first: no point before it in the merge has its timestamp. -/
theorem sublist_stdUnique_stdMerge {xs : List TimeSeriesPoint} (hxs : StrictlySorted xs)
    (ys : List TimeSeriesPoint) : xs <+ stdUnique (stdMerge xs ys) := by
  rw [stdUnique, stdMerge_eq_merge]
  obtain _ | ⟨x, xs⟩ := xs
  · exact nil_sublist _
  obtain _ | ⟨y, ys⟩ := ys
  · rw [merge_right, destutter_cons']
    simpa using cons_sublist_destutter'_merge [] hxs.of_cons (rel_of_sorted_cons hxs)
  by_cases hxy : mergeTakesLeft x y
  · rw [cons_merge_cons_pos _ _ _ hxy, destutter_cons']
    exact cons_sublist_destutter'_merge _ hxs.of_cons (rel_of_sorted_cons hxs)
  · rw [cons_merge_cons_neg _ _ _ hxy, destutter_cons']
    refine (sublist_cons_self y _).trans (cons_sublist_destutter'_merge _ hxs fun z hz => ?_)
    have hyx : y.timestamp < x.timestamp := by simpa [mergeTakesLeft] using hxy
    rcases mem_cons.mp hz with rfl | hz
    · exact hyx
    · exact lt_trans hyx (rel_of_sorted_cons hxs z hz)

end Merge

/-! ## The buffer only grows between clears -/

namespace MemoryLayer

variable {m : MemoryLayer}

theorem points_getD_empty (m : MemoryLayer) (s : String) :
    ((m.symbolData.lookup s).getD .empty).points = m.symbolPoints s := by
  unfold symbolPoints
  cases m.symbolData.lookup s <;> rfl

@[simp] theorem symbolPoints_getOrCreateSymbolData (m : MemoryLayer) (s s' : String) :
    (m.getOrCreateSymbolData s).2.symbolPoints s' = m.symbolPoints s' := by
  unfold symbolPoints
  rw [lookup_getOrCreateSymbolData]
  split
  · subst s'
    cases m.symbolData.lookup s <;> rfl
  · rfl

theorem symbolPoints_setSymbolData (m : MemoryLayer) (s s' : String) (d : SymbolData) :
    (m.setSymbolData s d).symbolPoints s' = if s' = s then d.points else m.symbolPoints s' := by
  unfold symbolPoints
  rw [lookup_setSymbolData]
  split <;> rfl

/-- `insert` keeps every buffered point. -/
theorem symbolPoints_sublist_insert (m : MemoryLayer) (point : TimeSeriesPoint) (s : String) :
    m.symbolPoints s <+ (m.insert point).2.symbolPoints s := by
  have hsplit := lowerBound_append (m.getOrCreateSymbolData point.symbol).1.points point.timestamp
  unfold MemoryLayer.insert
  dsimp only
  split
  · rw [symbolPoints_getOrCreateSymbolData]
  · show _ <+ ((m.getOrCreateSymbolData point.symbol).2.setSymbolData point.symbol _).symbolPoints s
    rw [symbolPoints_setSymbolData, symbolPoints_getOrCreateSymbolData]
    split
    · subst s
      rw [← points_getD_empty, ← getOrCreateSymbolData_fst]
      calc _ = _ ++ _ := hsplit.symm
        _ <+ _ := (sublist_cons_self _ _).append_left _
    · exact Sublist.refl _

/-- The loop body of `insert_batch` keeps every buffered point. -/
theorem symbolPoints_sublist_insertGroup (hm : Invariant m) (sort : StdSort) (symbol : String)
    (symbolPoints : List TimeSeriesPoint) (s : String) :
    m.symbolPoints s <+ (m.insertGroup sort symbol symbolPoints).symbolPoints s := by
  show _ <+ ((m.getOrCreateSymbolData symbol).2.setSymbolData symbol _).symbolPoints s
  rw [symbolPoints_setSymbolData, symbolPoints_getOrCreateSymbolData]
  split
  · subst s
    rw [getOrCreateSymbolData_fst, points_getD_empty]
    exact sublist_stdUnique_stdMerge (hm.symbolPoints_wf _).1 _
  · exact Sublist.refl _

/-- `insert_batch` keeps every buffered point. -/
theorem symbolPoints_sublist_insertBatch (hm : Invariant m) (sort : StdSort)
    (points : List TimeSeriesPoint) (s : String) :
    m.symbolPoints s <+ (m.insertBatch sort points).2.symbolPoints s := by
  unfold MemoryLayer.insertBatch
  split
  · exact Sublist.refl _
  · suffices ∀ (gs : List (String × List TimeSeriesPoint)) (m : MemoryLayer), Invariant m →
        (∀ g ∈ gs, ∀ p ∈ g.2, p.symbol = g.1) →
          m.symbolPoints s <+ (gs.foldl (fun m g => m.insertGroup sort g.1 g.2) m).symbolPoints s
      from this _ m hm fun g hg _ hp => symbol_eq_of_mem_groupBySymbol hg hp
    intro gs
    induction gs with
    | nil => exact fun _ _ _ => Sublist.refl _
    | cons g gs ih =>
      intro m hm hgs
      exact (symbolPoints_sublist_insertGroup hm sort g.1 g.2 s).trans
        (ih _ (hm.insertGroup sort (hgs g (mem_cons_self _ _)))
          fun g' hg' => hgs g' (mem_cons_of_mem _ hg'))

theorem symbolPoints_clearCache (m : MemoryLayer) (s : String) : m.clearCache.symbolPoints s = [] := by
  unfold symbolPoints
  rw [lookup_clearCache]
  cases m.symbolData.lookup s <;> rfl

end MemoryLayer

/-! ## Disk writes only add points -/

namespace DiskLayer

/-- The points `read_segment` returns from every segment the index holds for a symbol. -/
def diskPoints (d : DiskLayer) (symbol : String) : List TimeSeriesPoint :=
  ((d.metadata.lookup symbol).getD ∅).keys.flatMap (d.segmentPoints symbol)

variable {d : DiskLayer}

/-- Every index entry names the file of its own symbol and id: the part of invariant S2 that
still holds while a `write_batch` call has written a segment's file and not yet recorded it. -/
def EntryPaths (d : DiskLayer) : Prop :=
  ∀ s i info, d.findSegment s i = some info → info.filePath = segmentPath d.dataDir s i

/-- Writing the file of an id a plain symbol does not have changes no symbol's points: no entry
opens that file. -/
theorem diskPoints_withFile_of_fresh (hpaths : EntryPaths d) (hp : Plain d) {symbol : String}
    (hs : PlainSymbol symbol) {segmentId : Nat} (hfresh : d.findSegment symbol segmentId = none)
    (file : FileContent) :
    (d.withFile (segmentPath d.dataDir symbol segmentId) file).diskPoints = d.diskPoints := by
  have hsame : (d.withFile (segmentPath d.dataDir symbol segmentId) file).segmentPoints =
      d.segmentPoints := by
    funext s i
    unfold segmentPoints
    rw [findSegment_withFile]
    cases h : d.findSegment s i with
    | none => rfl
    | some info =>
      have hne : fileOf info.filePath ≠ fileOf (segmentPath d.dataDir symbol segmentId) :=
        hp.file_ne h (hpaths s i info h) hs fun ⟨hsym, hi⟩ => by
          rw [hsym, hi, hfresh] at h
          cases h
      simp only [files_withFile, AList.lookup_insert_ne hne]
  funext s
  unfold diskPoints
  rw [hsame]
  rfl

/-- Recording an id its symbol does not have puts that segment's points in front of the symbol's
and changes no other symbol's. -/
theorem diskPoints_withEntry_of_fresh {symbol : String} {segmentId : Nat}
    (hfresh : d.findSegment symbol segmentId = none) (info : SegmentInfo) (s : String) :
    (d.withEntry symbol segmentId info).diskPoints s =
      (if s = symbol then (d.withEntry symbol segmentId info).segmentPoints symbol segmentId
        else []) ++ d.diskPoints s := by
  have hnotin : segmentId ∉ (d.metadata.lookup symbol).getD ∅ := by
    rw [findSegment_eq_getD] at hfresh
    exact AList.lookup_eq_none.mp hfresh
  have hold : ∀ i ∈ ((d.metadata.lookup s).getD ∅).keys,
      (d.withEntry symbol segmentId info).segmentPoints s i = d.segmentPoints s i := fun i hi => by
    have hne : ¬(s = symbol ∧ i = segmentId) := fun h =>
      hnotin (h.1 ▸ h.2 ▸ AList.mem_keys.mp hi)
    unfold segmentPoints
    rw [findSegment_withEntry, if_neg hne]
    rfl
  unfold diskPoints
  by_cases hs : s = symbol
  · subst hs
    have hlookup : (d.withEntry s segmentId info).metadata.lookup s =
        some (((d.metadata.lookup s).getD ∅).insert segmentId info) := AList.lookup_insert _
    rw [if_pos rfl, hlookup, Option.getD_some, AList.keys_insert,
      erase_of_not_mem fun h => hnotin (AList.mem_keys.mp h), flatMap_cons]
    exact congrArg _ (congrArg flatten (map_congr_left hold))
  · have hlookup : (d.withEntry symbol segmentId info).metadata.lookup s = d.metadata.lookup s :=
      AList.lookup_insert_ne hs
    rw [if_neg hs, nil_append, hlookup]
    exact congrArg flatten (map_congr_left hold)

/-- A segment of a plain symbol written at an id the symbol does not have adds its points in
front of the symbol's and leaves every other symbol's. -/
theorem diskPoints_addSegment (hd : Indexed d) (hp : Plain d) {symbol : String}
    (hs : PlainSymbol symbol) {segmentId : Nat} (hfresh : d.findSegment symbol segmentId = none)
    (points : List TimeSeriesPoint) (s : String) :
    (d.addSegment symbol segmentId points).diskPoints s =
      (if s = symbol then readBack d.config symbol points else []) ++ d.diskPoints s := by
  obtain _ | ⟨first, rest⟩ := points
  · simp [addSegment, readBack]
  have h := diskPoints_withEntry_of_fresh (d := d.withFile (segmentPath d.dataDir symbol segmentId)
    (.segment (d.segmentInfo symbol segmentId first rest) (segmentPayload d.config (first :: rest))))
    hfresh (d.segmentInfo symbol segmentId first rest) s
  rw [diskPoints_withFile_of_fresh hd.entry_path hp hs hfresh] at h
  refine h.trans ?_
  split_ifs with hs
  · exact congrArg (· ++ _) (segmentPoints_addSegment d symbol segmentId first rest)
  · rfl

/-- The layer holds every point `d₀` held, with invariant S2, segment files of their own and
`d₀`'s configuration. -/
structure Grows (d₀ d : DiskLayer) : Prop where
  indexed : Indexed d
  plain : Plain d
  config : d.config = d₀.config
  points : ∀ s, d₀.diskPoints s <+~ d.diskPoints s

theorem Grows.addSegment {d₀ : DiskLayer} (h : Grows d₀ d) {symbol : String}
    (hs : PlainSymbol symbol) (points : List TimeSeriesPoint) :
    Grows d₀ (d.addSegment symbol (d.nextSegmentId symbol) points) :=
  ⟨h.indexed.addSegment _ _ _, h.plain.addSegment hs _ _,
    (config_addSegment _ _ _ _).trans h.config, fun s => by
      rw [diskPoints_addSegment h.indexed h.plain hs (findSegment_nextSegmentId d symbol)]
      exact (h.points s).trans (sublist_append_right _ _).subperm⟩

theorem keeps_grows_writeGroups (d₀ : DiskLayer) (sort : StdSort) (creatable : String → Bool) :
    ∀ groups : List (String × List TimeSeriesPoint), (∀ g ∈ groups, PlainSymbol g.1) →
      Keeps (Grows d₀) (writeGroups sort creatable groups)
  | [], _ => keeps_pure ()
  | (symbol, _) :: groups, hgroups => fun d hd => by
    unfold stateAfter
    rw [writeGroups, run_get_bind, run_bind, writeSegment_run]
    split_ifs
    · exact hd
    · exact keeps_grows_writeGroups d₀ sort creatable groups
        (fun g hg => hgroups g (mem_cons_of_mem _ hg)) _
        (hd.addSegment (hgroups _ (mem_cons_self _ _)) _)

/-- Whatever `write_batch` of plain symbols returns or throws, the layer keeps every point it
held. -/
theorem keeps_grows_writeBatch (d₀ : DiskLayer) (sort : StdSort) (creatable : String → Bool)
    {points : List TimeSeriesPoint} (hpoints : ∀ p ∈ points, PlainSymbol p.symbol) :
    Keeps (Grows d₀) (writeBatch sort creatable points) := by
  unfold writeBatch
  split
  · exact keeps_pure true
  · exact (keeps_grows_writeGroups d₀ sort creatable _ (forall_mem_groupBySymbol hpoints)).bind
      fun _ => keeps_pure true

/-- After a successful loop of `write_batch` over groups of plain symbols, a symbol holds the
points of its groups' new segments, the last group's first, and then what it held before. -/
theorem diskPoints_writtenGroups (sort : StdSort) (symbol : String) :
    ∀ (groups : List (String × List TimeSeriesPoint)) {d : DiskLayer}, Indexed d → Plain d →
      (∀ g ∈ groups, PlainSymbol g.1) →
      (writtenGroups sort d groups).diskPoints symbol =
        ((groups.filter fun g => g.1 = symbol).reverse.flatMap fun g =>
          readBack d.config symbol (sort.run g.2)) ++ d.diskPoints symbol
  | [], _, _, _, _ => rfl
  | (s, symbolPoints) :: groups, d, hd, hp, hgroups => by
    have hs : PlainSymbol s := hgroups _ (mem_cons_self _ _)
    have ih := diskPoints_writtenGroups sort symbol groups
      (hd.addSegment s (d.nextSegmentId s) (sort.run symbolPoints))
      (hp.addSegment hs (d.nextSegmentId s) (sort.run symbolPoints))
      fun g hg => hgroups g (mem_cons_of_mem _ hg)
    simp only [writtenGroups, foldl_cons] at ih ⊢
    rw [ih, config_addSegment, diskPoints_addSegment hd hp hs (findSegment_nextSegmentId d s),
      filter_cons]
    by_cases hs : s = symbol
    · subst hs
      simp
    · simp [hs, Ne.symm hs]

theorem readBack_sublist (config : DiskConfig) (symbol : String) {l₁ l₂ : List TimeSeriesPoint}
    (h : l₁ <+ l₂) : readBack config symbol l₁ <+ readBack config symbol l₂ := by
  unfold readBack
  split
  · exact h.map _
  · exact h

theorem readBack_perm (config : DiskConfig) (symbol : String) {l₁ l₂ : List TimeSeriesPoint}
    (h : l₁ ~ l₂) : readBack config symbol l₁ ~ readBack config symbol l₂ := by
  unfold readBack
  split
  · exact h.map _
  · exact h

/-- After a successful `write_batch` of plain symbols, a symbol holds the batch's points of that
symbol as the new segment gives them back, then what it held before. -/
theorem diskPoints_writtenGroups_groupBySymbol (sort : StdSort) {d : DiskLayer} (hd : Indexed d)
    (hp : Plain d) {points : List TimeSeriesPoint} (hpoints : ∀ p ∈ points, PlainSymbol p.symbol)
    (symbol : String) :
    (writtenGroups sort d (groupBySymbol sort points)).diskPoints symbol =
      readBack d.config symbol (sort.run (points.filter (·.symbol = symbol))) ++
        d.diskPoints symbol := by
  rw [diskPoints_writtenGroups sort symbol _ hd hp (forall_mem_groupBySymbol hpoints),
    filter_groupBySymbol]
  split
  · simp
  · rename_i hnot
    have hnone : points.filter (·.symbol = symbol) = [] :=
      filter_eq_nil_iff.mpr fun p hp hs => hnot (mem_map.mpr ⟨p, hp, by simpa using hs⟩)
    simp [hnone, readBack]

theorem flatMap_sublist_flatMap {α β : Type} (f : α → List β) {l₁ l₂ : List α} (h : l₁ <+ l₂) :
    l₁.flatMap f <+ l₂.flatMap f := by
  induction h with
  | slnil => exact Sublist.refl _
  | cons a _ ih => exact ih.trans (flatMap_cons a _ f ▸ sublist_append_right _ _)
  | cons₂ a _ ih => exact flatMap_cons a _ f ▸ flatMap_cons a _ f ▸ ih.append_left _

/-- A range query's points, before they are sorted, are part of the symbol's points: those of
some of its segments that fall in the window. -/
theorem storedRange_sublist_diskPoints (d : DiskLayer) (symbol : String) (start end_ : Timestamp) :
    d.storedRange symbol start end_ <+ d.diskPoints symbol := by
  unfold storedRange diskPoints
  cases d.metadata.lookup symbol with
  | none => exact nil_sublist _
  | some segments =>
    dsimp only [Option.getD_some]
    rw [← filter_flatMap]
    exact (filter_sublist _).trans (flatMap_sublist_flatMap _ ((filter_sublist _).map _))

/-- Over the whole time line every segment is relevant, and the query keeps every point before
`time_point::max`. -/
theorem storedRange_min_max (d : DiskLayer) (symbol : String) :
    d.storedRange symbol .min .max = (d.diskPoints symbol).filter fun p => p.timestamp < .max := by
  unfold storedRange diskPoints
  cases d.metadata.lookup symbol with
  | none => rfl
  | some segments =>
    have hrelevant : relevantSegments segments .min .max = segments.keys := by
      unfold relevantSegments
      rw [filter_eq_self.mpr fun e _ => by
        simp only [relevant, Timestamp.min_le, Timestamp.le_max, decide_True, Bool.and_self]]
      rfl
    have hwindow : inHalfOpen .min .max = fun p => decide (p.timestamp < .max) := by
      funext p
      simp only [inHalfOpen, Timestamp.min_le, decide_True, Bool.true_and]
    dsimp only [Option.getD_some]
    rw [hrelevant, hwindow, filter_flatMap]

theorem window_of_mem_storedRange {d : DiskLayer} {symbol : String} {start end_ : Timestamp}
    {p : TimeSeriesPoint} (h : p ∈ d.storedRange symbol start end_) :
    start ≤ p.timestamp ∧ p.timestamp < end_ := by
  unfold storedRange at h
  split at h
  · exact absurd h (not_mem_nil _)
  · obtain ⟨_, _, hp⟩ := mem_flatMap.mp h
    simpa [inHalfOpen] using (mem_filter.mp hp).2

end DiskLayer

/-! ## Every call keeps what the engine holds -/

namespace StorageEngine

open MemoryLayer DiskLayer

/-- The points the engine holds for a symbol: the buffered ones as a read of the segment a flush
writes will give them back, then those of the symbol's segments. -/
def storedPoints (e : StorageEngine) (symbol : String) : List TimeSeriesPoint :=
  readBack e.diskLayer.config symbol (e.memoryLayer.symbolPoints symbol) ++
    e.diskLayer.diskPoints symbol

variable (sort : StdSort) (creatable : String → Bool) {e : StorageEngine}

/-- A `flush` that throws leaves the buffer, and the disk layer as `write_batch` left it. -/
theorem flush_run_error {e' : StorageEngine} {err : String}
    (h : (flush sort creatable).run e = .error err e') :
    e' = { e with
      diskLayer := stateAfter (DiskLayer.writeBatch sort creatable (pointsToFlush e.memoryLayer))
        e.diskLayer } := by
  unfold flush at h
  rw [run_get_bind] at h
  dsimp only at h
  split at h
  · cases h
  · rw [run_bind, run_onDisk] at h
    cases hw : (DiskLayer.writeBatch sort creatable (pointsToFlush e.memoryLayer)).run
        e.diskLayer with
    | ok b d =>
      rw [hw] at h
      dsimp only at h
      split at h <;> cases h
    | error err' d => rw [hw] at h; cases h; simp [stateAfter, hw]

/-- The buffer of a layer of plain symbols is of plain symbols. -/
theorem Plain.pointsToFlush (he : Healthy e) (hp : Plain e) :
    ∀ p ∈ pointsToFlush e.memoryLayer, PlainSymbol p.symbol := fun _ hpoint =>
  hp.memory _ (mem_getSymbols_of_mem_pointsToFlush he.memory hpoint)

/-- A flush that wrote segments holds the same points: each buffered point moved to its
symbol's new segment. -/
theorem Healthy.storedPoints_flushed (he : Healthy e) (hp : Plain e) (symbol : String) :
    ({ e with
        diskLayer := writtenGroups sort e.diskLayer
          (groupBySymbol sort (pointsToFlush e.memoryLayer))
        memoryLayer := e.memoryLayer.clearCache } : StorageEngine).storedPoints symbol ~
      e.storedPoints symbol := by
  unfold storedPoints
  rw [symbolPoints_clearCache, diskPoints_writtenGroups_groupBySymbol sort he.disk hp.disk
    (hp.pointsToFlush he), filter_pointsToFlush he.memory]
  simpa [readBack] using (readBack_perm _ symbol (sort.perm _)).append_right _

/-- Whatever `flush` returns or throws, the engine keeps every point it held. -/
theorem Healthy.storedPoints_flush (he : Healthy e) (hp : Plain e) (symbol : String) :
    e.storedPoints symbol <+~ (stateAfter (flush sort creatable) e).storedPoints symbol := by
  unfold stateAfter
  cases h : (flush sort creatable).run e with
  | ok b e' =>
    rcases flush_run_ok sort creatable h with ⟨-, rfl⟩ | rfl
    · exact Subperm.refl _
    · exact (he.storedPoints_flushed sort hp symbol).symm.subperm
  | error err e' =>
    rw [flush_run_error sort creatable h]
    have hg := keeps_grows_writeBatch e.diskLayer sort creatable (hp.pointsToFlush he)
      e.diskLayer ⟨he.disk, hp.disk, rfl, fun _ => Subperm.refl _⟩
    unfold storedPoints
    rw [hg.config]
    exact (subperm_append_left _).mpr (hg.points symbol)

/-- The engine is healthy, its segments are files of their own, and it holds every point `e₀`
held. -/
structure HoldsAll (e₀ e : StorageEngine) : Prop where
  healthy : Healthy e
  plain : Plain e
  points : ∀ s, e₀.storedPoints s <+~ e.storedPoints s

section HoldsAll

variable {e₀ : StorageEngine}

theorem keeps_holdsAll_onMemory {α : Type} {f : MemoryLayer → α × MemoryLayer}
    (hf : ∀ m, Invariant m → Invariant (f m).2 ∧ ∀ s, m.symbolPoints s <+ (f m).2.symbolPoints s)
    (hkeys : ∀ m, ∀ s ∈ (f m).2.getSymbols, PlainSymbol s ∨ s ∈ m.getSymbols) :
    Keeps (HoldsAll e₀) (onMemory f) := fun e he =>
  have hplain := keeps_plain_onMemory (fun m hm => (hf m hm).1) hkeys e ⟨he.healthy, he.plain⟩
  ⟨hplain.1, hplain.2, fun s => (he.points s).trans
    ((readBack_sublist _ s ((hf _ he.healthy.memory).2 s)).append_right _).subperm⟩

theorem keeps_holdsAll_flush : Keeps (HoldsAll e₀) (flush sort creatable) := fun e he =>
  have hplain := keeps_plain_flush sort creatable e ⟨he.healthy, he.plain⟩
  ⟨hplain.1, hplain.2,
    fun s => (he.points s).trans (he.healthy.storedPoints_flush sort creatable he.plain s)⟩

theorem keeps_holdsAll_countAndFlush (count : Nat) :
    Keeps (HoldsAll e₀) (countAndFlush sort creatable count) :=
  keeps_get_bind fun _ => (keeps_modify fun _ he =>
    ⟨⟨he.1.memory, he.1.disk⟩, ⟨he.2.memory, he.2.disk⟩, he.3⟩).bind fun _ =>
      keeps_ite (keeps_holdsAll_flush sort creatable) (keeps_pure true)

/-- A call of plain symbols keeps every point the engine held. -/
theorem HoldsAll.apply {e : StorageEngine} (he : HoldsAll e₀ e) {op : EngineOp}
    (hop : ∀ p ∈ op.points, PlainSymbol p.symbol) : HoldsAll e₀ (op.apply sort creatable e) := by
  cases op with
  | writePoint point =>
    refine ((keeps_holdsAll_onMemory (fun m hm => ⟨hm.insert point,
      symbolPoints_sublist_insert m point⟩) fun m s hs => ?_).bind fun _ =>
        keeps_ite (keeps_holdsAll_countAndFlush sort creatable 1) (keeps_pure false)) e he
    rcases (MemoryLayer.mem_getSymbols_insert point).mp hs with rfl | hs
    · exact .inl (hop point (mem_singleton_self _))
    · exact .inr hs
  | writeBatch points =>
    refine (keeps_ite (keeps_pure true) ((keeps_holdsAll_onMemory (fun m hm =>
      ⟨hm.insertBatch sort points, symbolPoints_sublist_insertBatch hm sort points⟩)
        fun m s hs => ?_).bind fun _ =>
          keeps_ite (keeps_holdsAll_countAndFlush sort creatable _) (keeps_pure false))) e he
    rcases (MemoryLayer.mem_getSymbols_insertBatch sort points).mp hs with ⟨p, hp, rfl⟩ | hs
    · exact .inl (hop p hp)
    · exact .inr hs
  | flush => exact keeps_holdsAll_flush sort creatable e he
  | optimize =>
    show HoldsAll e₀ (stateAfter (optimize sort creatable) e)
    rw [stateAfter_optimize]
    exact keeps_holdsAll_flush sort creatable e he

end HoldsAll

/-- On every engine a run of calls from an empty directory leaves, `read_range` returns without
throwing, sorted by timestamp, points of the window `[start, end]` that the engine holds for the
symbol, buffered or in one of its segments as a read decodes them, and no point more often than
the engine holds it. -/
theorem readRange_runEngine_sound (config : EngineConfig) (ops : List EngineOp) (symbol : String)
    (start end_ : Timestamp) :
    ∃ result, readRange sort (runEngine sort creatable config ops) symbol start end_ = .ok result ∧
      SortedByTime result ∧ (∀ p ∈ result, start ≤ p.timestamp ∧ p.timestamp ≤ end_) ∧
      result <+~ (runEngine sort creatable config ops).memoryLayer.symbolPoints symbol ++
        (runEngine sort creatable config ops).diskLayer.diskPoints symbol := by
  have he := healthy_runEngine sort creatable config ops
  have hmemory := he.memory.getRange_eq symbol start end_
  refine ⟨_, he.readRange_eq sort symbol start end_, sort.sorted _, fun p hp => ?_, ?_⟩
  · rcases mem_append.mp ((sort.perm _).mem_iff.mp hp) with hp | hp
    · rw [hmemory] at hp
      simpa using (mem_filter.mp hp).2
    · have hwindow := DiskLayer.window_of_mem_storedRange ((sort.perm _).mem_iff.mp hp)
      exact ⟨hwindow.1, le_of_lt hwindow.2⟩
  · refine ((sort.perm _).trans ((sort.perm _).append_left _)).subperm.trans (Sublist.subperm ?_)
    rw [hmemory]
    exact (filter_sublist _).append (DiskLayer.storedRange_sublist_diskPoints _ _ _ _)

/-- On every engine a run from an empty directory leaves, `get_latest` returns without throwing.
While the memory layer holds a point of the symbol it returns the latest buffered point, however
recent the symbol's segments are; otherwise it returns the latest point of the segments, except
that a point at `time_point::max` falls outside the range it queries. It returns nothing exactly
when there is no other point. -/
theorem getLatest_runEngine (config : EngineConfig) (ops : List EngineOp) (symbol : String) :
    ∃ latest, getLatest sort (runEngine sort creatable config ops) symbol = .ok latest ∧
      (latest = none ↔ (runEngine sort creatable config ops).memoryLayer.symbolPoints symbol = [] ∧
        ∀ p ∈ (runEngine sort creatable config ops).diskLayer.diskPoints symbol,
          p.timestamp = .max) ∧
      ∀ p, latest = some p →
        ((runEngine sort creatable config ops).memoryLayer.symbolPoints symbol ≠ [] →
          p ∈ (runEngine sort creatable config ops).memoryLayer.symbolPoints symbol ∧
          ∀ q ∈ (runEngine sort creatable config ops).memoryLayer.symbolPoints symbol,
            q.timestamp ≤ p.timestamp) ∧
        ((runEngine sort creatable config ops).memoryLayer.symbolPoints symbol = [] →
          p ∈ (runEngine sort creatable config ops).diskLayer.diskPoints symbol ∧
          ∀ q ∈ (runEngine sort creatable config ops).diskLayer.diskPoints symbol,
            q.timestamp < .max → q.timestamp ≤ p.timestamp) := by
  have he := healthy_runEngine sort creatable config ops
  generalize runEngine sort creatable config ops = e at he ⊢
  have hsorted := (he.memory.symbolPoints_wf symbol).1.sortedByTime
  unfold getLatest
  rw [getLatest_eq_last]
  cases hlast : (e.memoryLayer.symbolPoints symbol).getLast? with
  | some p =>
    have hne : e.memoryLayer.symbolPoints symbol ≠ [] := fun h => by simp [h] at hlast
    refine ⟨some p, rfl, by simp [hne], fun q hq => ⟨fun _ => ?_, fun h => absurd h hne⟩⟩
    cases hq
    exact hsorted.getLast?_latest hlast
  | none =>
    have hnil : e.memoryLayer.symbolPoints symbol = [] := getLast?_eq_none_iff.mp hlast
    dsimp only
    rw [he.disk.rangeQuery_eq, storedRange_min_max]
    have hrun := sort.perm ((e.diskLayer.diskPoints symbol).filter fun p => p.timestamp < .max)
    have hfilter : ((e.diskLayer.diskPoints symbol).filter fun p => p.timestamp < .max) = [] ↔
        ∀ p ∈ e.diskLayer.diskPoints symbol, p.timestamp = .max := by
      simp only [filter_eq_nil_iff, decide_eq_true_eq, not_lt]
      exact forall₂_congr fun p _ => (Timestamp.le_max p.timestamp).ge_iff_eq
    refine ⟨_, rfl, ?_, fun p hp => ⟨fun h => absurd hnil h, fun _ => ?_⟩⟩
    · rw [getLast?_eq_none_iff, and_iff_right hnil, ← hfilter]
      exact ⟨fun h => nil_perm.mp ((Perm.of_eq h).symm.trans hrun),
        fun h => (hrun.trans (Perm.of_eq h)).eq_nil⟩
    · obtain ⟨hmem, hlatest⟩ := (sort.sorted _).getLast?_latest hp
      refine ⟨(mem_filter.mp (hrun.mem_iff.mp hmem)).1, fun q hq hlt => hlatest q ?_⟩
      exact hrun.mem_iff.mpr (mem_filter.mpr ⟨hq, decide_eq_true hlt⟩)

end StorageEngine

end FindataEngine
