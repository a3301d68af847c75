import FindataEngine.Durability
import FindataEngine.BufferBound

/-!
# `insert_batch` agrees with a loop of `insert` on a batch without repeats

`insert_batch` is the fast path of `insert`. It groups the batch by symbol, sorts each group,
merges it into the stored sequence and keeps the first point of every timestamp. When the batch
repeats no (symbol, timestamp) pair, it leaves every symbol's entry, and the counter, exactly as
inserting the points one by one does (`run_insertBatch_eq_run_insert`). Both keep a stored
point against a new point at its timestamp:

* `insert` refuses a point whose timestamp `lower_bound` finds (`startsAt_lowerBound_iff`);
* `std::merge` puts the stored point first, and `std::unique` keeps it.

Both results are strictly increasing and hold the same points: the stored ones and the new ones
at timestamps nothing stored has (`mem_foldl_insertEntry`, `mem_stdUnique_stdMerge`). So they are
the same sequence. With a repeat, `std::sort`'s order of the repeated points decides which one
survives, and the loop keeps the first (`insertBatch_keeps_later_duplicate`).
-/

set_option autoImplicit false

namespace FindataEngine

open List

/-! ## Strictly increasing sequences -/

section Strict

variable {l l₁ l₂ : List TimeSeriesPoint}

theorem StrictlySorted.eq_of_timestamp_eq (h : StrictlySorted l) {x y : TimeSeriesPoint}
    (hx : x ∈ l) (hy : y ∈ l) (hxy : x.timestamp = y.timestamp) : x = y :=
  inj_on_of_nodup_map (pairwise_map.mpr (h.imp ne_of_lt)) hx hy hxy

theorem StrictlySorted.nodup (h : StrictlySorted l) : l.Nodup := by
  have h' : l.Pairwise fun a b => a.timestamp < b.timestamp := h
  exact h'.imp fun hlt heq => by subst heq; exact lt_irrefl _ hlt

/-- Two strictly increasing sequences with the same points are the same sequence. -/
theorem StrictlySorted.eq_of_mem_iff (h₁ : StrictlySorted l₁) (h₂ : StrictlySorted l₂)
    (hmem : ∀ p, p ∈ l₁ ↔ p ∈ l₂) : l₁ = l₂ := by
  haveI : IsAntisymm TimeSeriesPoint fun a b => a.timestamp < b.timestamp :=
    ⟨fun _ _ hab hba => absurd (lt_trans hab hba) (lt_irrefl _)⟩
  exact eq_of_perm_of_sorted ((perm_ext_iff_of_nodup h₁.nodup h₂.nodup).mpr hmem) h₁ h₂

/-- A sorted sequence whose timestamps do not repeat is strictly increasing. -/
theorem strictlySorted_of_nodup (hs : SortedByTime l) (hnd : (l.map (·.timestamp)).Nodup) :
    StrictlySorted l :=
  (hs.and (pairwise_map.mp hnd)).imp fun h => lt_of_le_of_ne h.1 h.2

end Strict

namespace MemoryLayer

/-! ## What each path does to one entry -/

/-- What `insert` does to the entry of the point's symbol. -/
def insertEntry (data : SymbolData) (point : TimeSeriesPoint) : SymbolData :=
  if startsAt (lowerBound data.points point.timestamp).2 point.timestamp then data
  else ⟨(lowerBound data.points point.timestamp).1 ++ point :: (lowerBound data.points point.timestamp).2,
    data.totalPoints + 1⟩

/-- What the loop body of `insert_batch` does to the entry of its group's symbol. -/
def mergeEntry (sort : StdSort) (data : SymbolData) (symbolPoints : List TimeSeriesPoint) :
    SymbolData :=
  ⟨stdUnique (stdMerge data.points (sort.run symbolPoints)),
    data.totalPoints + ((stdUnique (stdMerge data.points (sort.run symbolPoints))).length -
      data.points.length)⟩

/-- On a sorted sequence, `lower_bound` stops at the point's timestamp exactly when the sequence
has a point at it. -/
theorem startsAt_lowerBound_iff {l : List TimeSeriesPoint} (hs : SortedByTime l) (t : Timestamp) :
    startsAt (lowerBound l t).2 t = true ↔ ∃ x ∈ l, x.timestamp = t := by
  have hdrop : (lowerBound l t).2 = l.filter fun p => t ≤ p.timestamp := by
    rw [lowerBound, dropWhile_before_eq_filter hs]
  constructor
  · intro h
    obtain ⟨x, rest, hx⟩ : ∃ x rest, (lowerBound l t).2 = x :: rest := by
      cases h' : (lowerBound l t).2 with
      | nil => rw [h'] at h; cases h
      | cons x rest => exact ⟨x, rest, rfl⟩
    rw [hx] at h
    refine ⟨x, (dropWhile_suffix _).subset (hx ▸ mem_cons_self _ _ : x ∈ (lowerBound l t).2), ?_⟩
    simpa [startsAt] using h
  · rintro ⟨x, hx, rfl⟩
    have hmem : x ∈ (lowerBound l x.timestamp).2 := by
      rw [hdrop]
      exact mem_filter.mpr ⟨hx, by simp⟩
    obtain ⟨y, rest, hy⟩ : ∃ y rest, (lowerBound l x.timestamp).2 = y :: rest :=
      exists_cons_of_ne_nil (ne_nil_of_mem hmem)
    have hsorted : SortedByTime (y :: rest) := hy ▸ hdrop ▸ hs.sublist (filter_sublist _)
    have hyx : y.timestamp ≤ x.timestamp := by
      rw [hy] at hmem
      rcases mem_cons.mp hmem with rfl | hmem
      · exact le_refl _
      · exact hsorted.head_le (mem_cons_of_mem _ hmem)
    have hxy : ¬y.timestamp < x.timestamp := by
      have hy' : y ∈ l.filter fun p => x.timestamp ≤ p.timestamp := hdrop ▸ hy ▸ mem_cons_self _ _
      simpa using (mem_filter.mp hy').2
    rw [hy]
    simpa [startsAt] using le_antisymm hyx (not_lt.mp hxy)

/-- `insert` on one entry: the sequence stays strictly increasing, gains the point exactly when
no stored point has its timestamp, and counts what it gains. -/
theorem insertEntry_spec {data : SymbolData} (hs : StrictlySorted data.points)
    (q : TimeSeriesPoint) :
    StrictlySorted (insertEntry data q).points ∧
      (∀ p, p ∈ (insertEntry data q).points ↔
        p ∈ data.points ∨ (p = q ∧ ∀ x ∈ data.points, x.timestamp ≠ q.timestamp)) ∧
      (insertEntry data q).totalPoints + data.points.length =
        data.totalPoints + (insertEntry data q).points.length := by
  have hiff := startsAt_lowerBound_iff hs.sortedByTime q.timestamp
  have hsplit := lowerBound_append data.points q.timestamp
  unfold insertEntry
  split
  · rename_i hdup
    obtain ⟨x, hx, hxq⟩ := hiff.mp hdup
    exact ⟨hs, fun p => ⟨.inl, fun h => h.elim id fun h => absurd hxq (h.2 x hx)⟩, rfl⟩
  · rename_i hnew
    have hfree : ∀ x ∈ data.points, x.timestamp ≠ q.timestamp := fun x hx hxq =>
      hnew (hiff.mpr ⟨x, hx, hxq⟩)
    refine ⟨strictlySorted_insert_split hs (Bool.eq_false_iff.mpr hnew), fun p => ?_, ?_⟩
    · have hmem : p ∈ data.points ↔ p ∈ (lowerBound data.points q.timestamp).1 ∨
          p ∈ (lowerBound data.points q.timestamp).2 := by
        rw [← mem_append, hsplit]
      simp only [mem_append, mem_cons, hmem]
      exact ⟨fun h => h.elim (fun h => .inl (.inl h)) fun h => h.elim (fun h => .inr ⟨h, hfree⟩)
          fun h => .inl (.inr h),
        fun h => h.elim (fun h => h.elim (fun h => .inl h) fun h => .inr (.inr h))
          fun h => .inr (.inl h.1)⟩
    · have hlen := congrArg length hsplit
      simp only [length_append, length_cons] at hlen ⊢
      omega

/-- A loop of `insert` over points with distinct timestamps, on one entry. -/
theorem mem_foldl_insertEntry :
    ∀ (qs : List TimeSeriesPoint) {data : SymbolData}, StrictlySorted data.points →
      (qs.map (·.timestamp)).Nodup →
        StrictlySorted (qs.foldl insertEntry data).points ∧
        (∀ p, p ∈ (qs.foldl insertEntry data).points ↔
          p ∈ data.points ∨ (p ∈ qs ∧ ∀ x ∈ data.points, x.timestamp ≠ p.timestamp)) ∧
        (qs.foldl insertEntry data).totalPoints + data.points.length =
          data.totalPoints + (qs.foldl insertEntry data).points.length
  | [], _, hs, _ => ⟨hs, fun p => by simp, rfl⟩
  | q :: qs, data, hs, hnd => by
    obtain ⟨hs₁, hmem₁, hcount₁⟩ := insertEntry_spec hs q
    obtain ⟨hs₂, hmem₂, hcount₂⟩ := mem_foldl_insertEntry qs hs₁ (nodup_cons.mp hnd).2
    have hq : ∀ p ∈ qs, q.timestamp ≠ p.timestamp := fun p hp hqp =>
      (nodup_cons.mp hnd).1 (by simpa [hqp] using mem_map_of_mem (·.timestamp) hp)
    refine ⟨hs₂, fun p => ?_, by rw [foldl_cons]; omega⟩
    rw [foldl_cons, hmem₂, hmem₁, mem_cons]
    constructor
    · rintro ((h | ⟨rfl, hfree⟩) | ⟨hp, hfree⟩)
      · exact .inl h
      · exact .inr ⟨.inl rfl, hfree⟩
      · exact .inr ⟨.inr hp, fun x hx => hfree x ((hmem₁ x).mpr (.inl hx))⟩
    · rintro (h | ⟨rfl | hp, hfree⟩)
      · exact .inl (.inl h)
      · exact .inl (.inr ⟨rfl, hfree⟩)
      · refine .inr ⟨hp, fun x hx => ?_⟩
        rcases (hmem₁ x).mp hx with hx | ⟨rfl, -⟩
        · exact hfree x hx
        · exact hq p hp

/-- The merge of `insert_batch` on one entry, with a group of distinct timestamps: the stored
points, and the new ones at timestamps nothing stored has. -/
theorem mem_stdUnique_stdMerge {xs ys : List TimeSeriesPoint} (hxs : StrictlySorted xs)
    (hys : StrictlySorted ys) (p : TimeSeriesPoint) :
    p ∈ stdUnique (stdMerge xs ys) ↔ p ∈ xs ∨ (p ∈ ys ∧ ∀ x ∈ xs, x.timestamp ≠ p.timestamp) := by
  have hu := strictlySorted_stdUnique (sortedByTime_stdMerge hxs.sortedByTime hys.sortedByTime)
  have hsub := sublist_stdUnique_stdMerge hxs ys
  constructor
  · intro hp
    by_cases hpx : p ∈ xs
    · exact .inl hpx
    · have hpy : p ∈ ys := (mem_append.mp (stdMerge_perm.subset (mem_of_mem_stdUnique hp))).resolve_left hpx
      exact .inr ⟨hpy, fun x hx hxp => hpx (hu.eq_of_timestamp_eq (hsub.subset hx) hp hxp ▸ hx)⟩
  · rintro (hp | ⟨hp, hfree⟩)
    · exact hsub.subset hp
    · obtain ⟨q, hq, hqp⟩ := exists_mem_stdUnique (stdMerge_perm.symm.subset (mem_append_right xs hp))
      rcases mem_append.mp (stdMerge_perm.subset (mem_of_mem_stdUnique hq)) with hqx | hqy
      · exact absurd hqp (hfree q hqx)
      · exact hys.eq_of_timestamp_eq hqy hp hqp ▸ hq

/-- On one entry, `insert_batch`'s merge of a group with distinct timestamps is the loop of
`insert` over the group. -/
theorem foldl_insertEntry_eq_mergeEntry (sort : StdSort) {data : SymbolData}
    (hs : StrictlySorted data.points) {qs : List TimeSeriesPoint} (hnd : (qs.map (·.timestamp)).Nodup) :
    qs.foldl insertEntry data = mergeEntry sort data qs := by
  obtain ⟨hloop, hmem, hcount⟩ := mem_foldl_insertEntry qs hs hnd
  have hsorted : StrictlySorted (sort.run qs) :=
    strictlySorted_of_nodup (sort.sorted qs) (((sort.perm qs).map _).nodup_iff.mpr hnd)
  have heq : (qs.foldl insertEntry data).points = stdUnique (stdMerge data.points (sort.run qs)) :=
    hloop.eq_of_mem_iff (strictlySorted_stdUnique
      (sortedByTime_stdMerge hs.sortedByTime (sort.sorted _))) fun p => by
        rw [hmem, mem_stdUnique_stdMerge hs hsorted, (sort.perm qs).mem_iff]
  have hle := length_le_stdUnique_stdMerge (sort.run qs) hs
  generalize qs.foldl insertEntry data = r at heq hcount
  obtain ⟨points, total⟩ := r
  simp only at heq hcount
  subst heq
  simp only [mergeEntry, SymbolData.mk.injEq, true_and]
  omega

/-! ## From entries to the layer -/

section Layer

variable (sort : StdSort)

/-- After `insert`, the point's symbol holds what `insert` does to its entry; every other symbol
is untouched. -/
theorem lookup_insert (m : MemoryLayer) (point : TimeSeriesPoint) (s : String) :
    (m.insert point).2.symbolData.lookup s =
      if s = point.symbol then some (insertEntry ((m.symbolData.lookup s).getD .empty) point)
      else m.symbolData.lookup s := by
  unfold MemoryLayer.insert insertEntry
  dsimp only
  rw [getOrCreateSymbolData_fst]
  split
  · rename_i hdup
    rw [lookup_getOrCreateSymbolData]
    split
    · subst s
      rw [if_pos hdup]
    · rfl
  · rename_i hnew
    show ((m.getOrCreateSymbolData point.symbol).2.setSymbolData point.symbol _).symbolData.lookup s = _
    rw [lookup_setSymbolData, lookup_getOrCreateSymbolData]
    split
    · subst s
      rw [if_neg hnew]
    · rfl

theorem lookup_insertGroup (m : MemoryLayer) (symbol : String)
    (symbolPoints : List TimeSeriesPoint) (s : String) :
    (m.insertGroup sort symbol symbolPoints).symbolData.lookup s =
      if s = symbol then some (mergeEntry sort ((m.symbolData.lookup s).getD .empty) symbolPoints)
      else m.symbolData.lookup s := by
  show ((m.getOrCreateSymbolData symbol).2.setSymbolData symbol _).symbolData.lookup s = _
  rw [lookup_setSymbolData, lookup_getOrCreateSymbolData]
  split
  · subst s
    rw [getOrCreateSymbolData_fst]
    rfl
  · rfl

/-- A loop of `insert` reaches a symbol's entry only through the symbol's own points. -/
theorem lookup_foldl_insert (s : String) :
    ∀ (points : List TimeSeriesPoint) (m : MemoryLayer),
      (points.foldl (fun m p => (m.insert p).2) m).symbolData.lookup s =
        (points.filter (·.symbol = s)).foldl
          (fun o p => some (insertEntry (o.getD .empty) p)) (m.symbolData.lookup s)
  | [], _ => rfl
  | p :: ps, m => by
    rw [foldl_cons, lookup_foldl_insert s ps, lookup_insert, filter_cons]
    by_cases h : p.symbol = s
    · subst h
      simp
    · simp [h, Ne.symm h]

/-- The loop of `insert_batch` reaches a symbol's entry only through the symbol's groups. -/
theorem lookup_foldl_insertGroup (s : String) :
    ∀ (groups : List (String × List TimeSeriesPoint)) (m : MemoryLayer),
      (groups.foldl (fun m g => m.insertGroup sort g.1 g.2) m).symbolData.lookup s =
        (groups.filter (·.1 = s)).foldl
          (fun o g => some (mergeEntry sort (o.getD .empty) g.2)) (m.symbolData.lookup s)
  | [], _ => rfl
  | g :: gs, m => by
    rw [foldl_cons, lookup_foldl_insertGroup s gs, lookup_insertGroup, filter_cons]
    by_cases h : g.1 = s
    · subst h
      simp
    · simp [h, Ne.symm h]

theorem lookup_insertBatch (m : MemoryLayer) (points : List TimeSeriesPoint) (s : String) :
    (m.insertBatch sort points).2.symbolData.lookup s =
      if s ∈ points.map (·.symbol) then
        some (mergeEntry sort ((m.symbolData.lookup s).getD .empty) (points.filter (·.symbol = s)))
      else m.symbolData.lookup s := by
  unfold MemoryLayer.insertBatch
  split
  · rename_i hempty
    simp [isEmpty_iff.mp hempty]
  · rw [lookup_foldl_insertGroup, filter_groupBySymbol]
    split <;> rfl

/-- A loop of `insert` over a non-empty run of one symbol's points gives that symbol the entry the
loop builds from what it held. -/
theorem foldl_some_insertEntry :
    ∀ (qs : List TimeSeriesPoint) (o : Option SymbolData),
      qs.foldl (fun o p => some (insertEntry (o.getD .empty) p)) o =
        if qs = [] then o else some (qs.foldl insertEntry (o.getD .empty))
  | [], _ => rfl
  | q :: qs, o => by
    rw [foldl_cons, foldl_some_insertEntry qs, if_neg (cons_ne_nil _ _), foldl_cons]
    split
    · subst qs
      rfl
    · rfl

/-- Two layers whose symbols hold the same entries hold the same number of points. -/
theorem heldPoints_eq_of_lookup {m m' : MemoryLayer}
    (h : ∀ s, m.symbolData.lookup s = m'.symbolData.lookup s) : m.heldPoints = m'.heldPoints := by
  have hperm : m.symbolData.entries ~ m'.symbolData.entries :=
    lookup_ext m.symbolData.nodupKeys m'.symbolData.nodupKeys fun s d => by
      rw [← AList.lookup, ← AList.lookup, h]
  exact (hperm.map _).sum_eq

theorem counted_run (ops : List Op) : Counted (run sort ops) := by
  suffices ∀ m, Invariant m → Counted m → Counted (ops.foldl (Op.apply sort) m) from
    this _ invariant_empty counted_empty
  induction ops with
  | nil => exact fun _ _ hc => hc
  | cons op ops ih =>
    intro m hm hc
    refine ih _ (hm.apply sort op) ?_
    cases op with
    | insert point => exact hc.insert point
    | insertBatch points => exact hc.insertBatch hm sort points
    | clearCache => exact counted_clearCache m

/-- Distinct (symbol, timestamp) pairs give the points of each symbol distinct timestamps. -/
theorem nodup_timestamps_filter {points : List TimeSeriesPoint}
    (hpoints : (points.map fun p => (p.symbol, p.timestamp)).Nodup) (s : String) :
    ((points.filter (·.symbol = s)).map (·.timestamp)).Nodup := by
  have hmap : ((points.filter (·.symbol = s)).map fun p => (p.symbol, p.timestamp)) =
      ((points.filter (·.symbol = s)).map (·.timestamp)).map fun t => (s, t) := by
    rw [map_map]
    exact map_congr_left fun p hp => by simpa using (mem_filter.mp hp).2
  exact (hmap ▸ hpoints.sublist ((filter_sublist points).map _)).of_map _

/-- On a layer with invariants M1 and M2, a batch without a repeated (symbol, timestamp) pair
leaves each symbol's entry as the loop of `insert` over its points does. -/
theorem lookup_insertBatch_eq_foldl_insert {m : MemoryLayer} (hm : Invariant m)
    {points : List TimeSeriesPoint} (hpoints : (points.map fun p => (p.symbol, p.timestamp)).Nodup)
    (s : String) :
    (m.insertBatch sort points).2.symbolData.lookup s =
      (points.foldl (fun m p => (m.insert p).2) m).symbolData.lookup s := by
  rw [lookup_insertBatch, lookup_foldl_insert, foldl_some_insertEntry]
  split
  · rename_i hs
    have hne : points.filter (·.symbol = s) ≠ [] := by
      obtain ⟨p, hp, rfl⟩ := mem_map.mp hs
      exact ne_nil_of_mem (mem_filter.mpr ⟨hp, by simp⟩)
    rw [if_neg hne, foldl_insertEntry_eq_mergeEntry sort _ (nodup_timestamps_filter hpoints s)]
    rw [points_getD_empty]
    exact (hm.symbolPoints_wf s).1
  · rename_i hs
    rw [if_pos (filter_eq_nil_iff.mpr fun p hp hps => hs (mem_map.mpr ⟨p, hp, by simpa using hps⟩))]

/-- On every layer that calls made one after another reached, `insert_batch` of a batch that
repeats no (symbol, timestamp) pair leaves every symbol's entry, and `cache_size()`, as
inserting its points one by one in batch order does, whatever `std::sort` does. -/
theorem run_insertBatch_eq_run_insert (ops : List Op) (points : List TimeSeriesPoint)
    (hpoints : (points.map fun p => (p.symbol, p.timestamp)).Nodup) :
    (∀ s, (run sort (ops ++ [.insertBatch points])).symbolData.lookup s =
      (run sort (ops ++ points.map .insert)).symbolData.lookup s) ∧
    (run sort (ops ++ [.insertBatch points])).cacheSize =
      (run sort (ops ++ points.map .insert)).cacheSize := by
  have hlookup : ∀ s, (run sort (ops ++ [.insertBatch points])).symbolData.lookup s =
      (run sort (ops ++ points.map .insert)).symbolData.lookup s := fun s => by
    simp only [run, foldl_append, foldl_map, foldl_cons, foldl_nil, Op.apply]
    exact lookup_insertBatch_eq_foldl_insert sort (invariant_run sort ops) hpoints s
  have hc₁ := counted_run sort (ops ++ [.insertBatch points])
  have hc₂ := counted_run sort (ops ++ points.map .insert)
  rw [hc₁, hc₂]
  exact ⟨hlookup, heldPoints_eq_of_lookup hlookup⟩

/-- A batch of two points of `FB`, the later one first, with no repeated timestamp. -/
def distinctBatch : List TimeSeriesPoint := [⟨.ofCount 1000, 1, "FB"⟩, ⟨.ofCount 0, 2, "FB"⟩]

/-- After an `insert` at the epoch, the batch's point at the epoch is refused on both paths. -/
theorem run_insertBatch_eq_run_insert_distinctBatch :
    (distinctBatch.map fun p => (p.symbol, p.timestamp)).Nodup ∧
      (∀ s, (run stableSort ([.insert ⟨.ofCount 0, 5, "FB"⟩] ++ [.insertBatch distinctBatch])).symbolData.lookup s =
        (run stableSort ([.insert ⟨.ofCount 0, 5, "FB"⟩] ++ distinctBatch.map .insert)).symbolData.lookup s) ∧
      (run stableSort ([.insert ⟨.ofCount 0, 5, "FB"⟩] ++ [.insertBatch distinctBatch])).cacheSize =
        (run stableSort ([.insert ⟨.ofCount 0, 5, "FB"⟩] ++ distinctBatch.map .insert)).cacheSize :=
  ⟨by decide, run_insertBatch_eq_run_insert stableSort _ distinctBatch (by decide)⟩

end Layer

end MemoryLayer

end FindataEngine
