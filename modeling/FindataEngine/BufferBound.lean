import FindataEngine.EngineQueries
import Mathlib.Algebra.BigOperators.Group.List

/-!
# The memory buffer stays below its flush threshold

`total_points_` counts the points the memory layer holds (`Counted`): `insert` adds one point and
one to the counter, `insert_batch` adds to both the number of points its merge gained, and
`clear_cache` empties both. The merge never loses a stored point, since the stored sequence is
strictly increasing and `std::unique` keeps one point of every timestamp
(`length_le_stdUnique_stdMerge`).

`write_point` and `write_batch` flush once `cache_size()` reaches `max_memory_points`, and a
flush whose disk writes succeed leaves the memory layer empty. So with `max_memory_points ≥ 1`
and every segment file creatable, after every sequence of `write_point`, `write_batch`, `flush`
and `optimize` calls from an empty directory the layer holds fewer than `max_memory_points`
points, and `cache_size()` is their number (`run_memory_below_threshold`).
-/

set_option autoImplicit false

namespace FindataEngine

open List

namespace MemoryLayer

/-- The number of points the layer holds, over all its symbols. -/
def heldPoints (m : MemoryLayer) : Nat :=
  (m.symbolData.entries.map fun e => e.2.points.length).sum

/-- `total_points_`, which `cache_size()` returns, counts the points the layer holds. -/
def Counted (m : MemoryLayer) : Prop := m.cacheSize = m.heldPoints

/-- Erasing a key's first entry takes off what that entry adds to a sum over the entries. -/
theorem sum_kerase_add (f : SymbolData → Nat) (s : String) :
    ∀ l : List (Σ _ : String, SymbolData),
      ((l.kerase s).map fun e => f e.2).sum + ((l.dlookup s).map f).getD 0 =
        (l.map fun e => f e.2).sum
  | [] => rfl
  | ⟨k, v⟩ :: l => by
    by_cases h : s = k
    · subst h
      simp [kerase_cons_eq, Nat.add_comm]
    · simp only [kerase_cons_ne (s := (⟨k, v⟩ : Σ _ : String, SymbolData)) h,
        dlookup_cons_ne l (⟨k, v⟩ : Σ _ : String, SymbolData) h, map_cons, sum_cons,
        Nat.add_assoc, sum_kerase_add f s l]

/-- Replacing a symbol's entry replaces its points in the count. -/
theorem heldPoints_setSymbolData (m : MemoryLayer) (s : String) (d : SymbolData) :
    (m.setSymbolData s d).heldPoints + ((m.symbolData.lookup s).map (·.points.length)).getD 0 =
      m.heldPoints + d.points.length := by
  unfold heldPoints setSymbolData
  rw [AList.insert_entries, map_cons, sum_cons, Nat.add_assoc]
  erw [sum_kerase_add (·.points.length) s]
  exact Nat.add_comm _ _

theorem lookup_getOrCreateSymbolData_self (m : MemoryLayer) (s : String) :
    (m.getOrCreateSymbolData s).2.symbolData.lookup s = some (m.getOrCreateSymbolData s).1 := by
  rw [lookup_getOrCreateSymbolData, if_pos rfl, getOrCreateSymbolData_fst]

/-- `std::unique` of a merge keeps at least as many points as a strictly increasing sequence
merged into it: every timestamp of that sequence survives once. -/
theorem length_le_stdUnique_stdMerge {xs : List TimeSeriesPoint} (ys : List TimeSeriesPoint)
    (hxs : StrictlySorted xs) :
    xs.length ≤ (stdUnique (stdMerge xs ys)).length := by
  have hnd : (xs.map (·.timestamp)).Nodup := pairwise_map.mpr (hxs.imp ne_of_lt)
  have hsub : xs.map (·.timestamp) ⊆ (stdUnique (stdMerge xs ys)).map (·.timestamp) := by
    intro t ht
    obtain ⟨p, hp, rfl⟩ := mem_map.mp ht
    obtain ⟨q, hq, hqt⟩ :=
      exists_mem_stdUnique (stdMerge_perm.symm.subset (mem_append_left ys hp))
    exact mem_map.mpr ⟨q, hq, hqt⟩
  simpa using (subperm_of_subset hnd hsub).length_le

section Counter

variable {m : MemoryLayer}

theorem counted_empty : Counted empty := rfl

theorem Counted.getOrCreate (hc : Counted m) (s : String) :
    Counted (m.getOrCreateSymbolData s).2 := by
  unfold getOrCreateSymbolData
  split
  · exact hc
  · rename_i h
    have hheld := heldPoints_setSymbolData m s .empty
    rw [h] at hheld
    exact hc.trans (by simpa [SymbolData.empty] using hheld.symm)

/-- A write through the symbol's entry that adds `n` points to it, with `n` added to the
counter. -/
theorem Counted.setSymbolData (hc : Counted m) {s : String} {d : SymbolData} {n : Nat}
    (hn : ((m.symbolData.lookup s).map (·.points.length)).getD 0 + n = d.points.length) :
    Counted { m.setSymbolData s d with totalPoints := m.totalPoints + n } := by
  have h := heldPoints_setSymbolData m s d
  have hc' : m.totalPoints = m.heldPoints := hc
  show m.totalPoints + n = (m.setSymbolData s d).heldPoints
  omega

theorem Counted.insert (hc : Counted m) (point : TimeSeriesPoint) : Counted (m.insert point).2 := by
  have hc₁ := hc.getOrCreate point.symbol
  have hsplit := congrArg length
    (lowerBound_append (m.getOrCreateSymbolData point.symbol).1.points point.timestamp)
  unfold MemoryLayer.insert
  dsimp only
  split
  · exact hc₁
  · refine hc₁.setSymbolData ?_
    simp only [lookup_getOrCreateSymbolData_self, Option.map_some', Option.getD_some,
      length_append, length_cons] at hsplit ⊢
    omega

theorem Counted.insertGroup (hc : Counted m) (hm : Invariant m) (sort : StdSort)
    (symbol : String) (symbolPoints : List TimeSeriesPoint) :
    Counted (m.insertGroup sort symbol symbolPoints) := by
  have hle := length_le_stdUnique_stdMerge (sort.run symbolPoints) (hm.getOrCreate symbol).2.1
  refine (hc.getOrCreate symbol).setSymbolData ?_
  simp only [lookup_getOrCreateSymbolData_self, Option.map_some', Option.getD_some]
  omega

theorem Counted.insertBatch (hc : Counted m) (hm : Invariant m) (sort : StdSort)
    (points : List TimeSeriesPoint) : Counted (m.insertBatch sort points).2 := by
  unfold MemoryLayer.insertBatch
  split
  · exact hc
  · have key : ∀ (gs : List (String × List TimeSeriesPoint)) (m : MemoryLayer), Counted m →
        Invariant m → (∀ g ∈ gs, ∀ p ∈ g.2, p.symbol = g.1) →
          Counted (gs.foldl (fun m g => m.insertGroup sort g.1 g.2) m) := by
      intro gs
      induction gs with
      | nil => exact fun _ hc _ _ => hc
      | cons g gs ih =>
        intro m hc hm hgs
        exact ih _ (hc.insertGroup hm sort g.1 g.2)
          (hm.insertGroup sort (hgs g (mem_cons_self _ _)))
          fun g' hg' => hgs g' (mem_cons_of_mem _ hg')
    exact key _ m hc hm fun g hg _ hp => symbol_eq_of_mem_groupBySymbol hg hp

/-- An `insert` that finds the timestamp taken adds nothing to the counter. -/
theorem cacheSize_insert_of_rejected (point : TimeSeriesPoint) (h : (m.insert point).1 = false) :
    (m.insert point).2.cacheSize = m.cacheSize := by
  unfold MemoryLayer.insert at h ⊢
  dsimp only at h ⊢
  split
  · exact totalPoints_getOrCreateSymbolData m point.symbol
  · rw [if_neg ‹_›] at h
    cases h

theorem insertBatch_fst (sort : StdSort) (points : List TimeSeriesPoint) :
    (m.insertBatch sort points).1 = true := by
  unfold MemoryLayer.insertBatch
  split <;> rfl

theorem counted_clearCache (m : MemoryLayer) : Counted m.clearCache := by
  simp [Counted, cacheSize, heldPoints, clearCache, mapValues, SymbolData.empty,
    Function.comp_def]

/-- On a layer whose sequences are sorted, `flush` collects nothing only when the layer holds
nothing. -/
theorem Invariant.heldPoints_eq_zero (hm : Invariant m)
    (h : StorageEngine.pointsToFlush m = []) : m.heldPoints = 0 := by
  refine sum_eq_zero fun n hn => ?_
  obtain ⟨⟨s, d⟩, he, rfl⟩ := mem_map.mp hn
  have hl : m.symbolData.lookup s = some d := AList.mem_lookup_iff.mpr he
  have hs : s ∈ m.getSymbols := AList.mem_keys.mp (AList.lookup_isSome.mp (by simp [hl]))
  have hnil := flatMap_eq_nil_iff.mp h s hs
  rw [hm.getRange_eq, symbolPoints, hl, filter_eq_nil_iff] at hnil
  exact length_eq_zero.mpr (eq_nil_iff_forall_not_mem.mpr fun p hp =>
    hnil p hp (decide_eq_true ⟨Timestamp.min_le _, Timestamp.le_max _⟩))

end Counter

end MemoryLayer

namespace DiskLayer

/-- With every segment file creatable, the loop of `write_batch` returns. -/
theorem writeGroups_run_creatable (sort : StdSort) :
    ∀ (groups : List (String × List TimeSeriesPoint)) (d : DiskLayer),
      (writeGroups sort (fun _ => true) groups).run d = .ok () (writtenGroups sort d groups)
  | [], _ => rfl
  | (symbol, symbolPoints) :: groups, d => by
    rw [writeGroups, run_get_bind, run_bind, writeSegment_run, if_neg (by simp)]
    exact writeGroups_run_creatable sort groups _

end DiskLayer

namespace StorageEngine

open MemoryLayer

/-- The memory layer's counter counts its points, which are fewer than `maxMemoryPoints`, the
engine's `max_memory_points`. -/
structure Buffered (maxMemoryPoints : Nat) (e : StorageEngine) : Prop where
  config : e.config.maxMemoryPoints = maxMemoryPoints
  counted : Counted e.memoryLayer
  below : e.memoryLayer.cacheSize < maxMemoryPoints

section Threshold

variable (sort : StdSort) {maxMemoryPoints : Nat} {e : StorageEngine}

/-- With every segment file creatable, `flush` returns. -/
theorem flush_run_creatable (e : StorageEngine) :
    ∃ b e', (flush sort fun _ => true).run e = .ok b e' := by
  unfold flush
  rw [run_get_bind]
  dsimp only
  split
  · exact ⟨_, _, rfl⟩
  · rw [run_bind, run_onDisk, DiskLayer.writeBatch, if_neg ‹_›, run_bind,
      DiskLayer.writeGroups_run_creatable]
    exact ⟨_, _, rfl⟩

/-- With every segment file creatable, `flush` leaves a counted memory layer empty: either it
found nothing to flush, and then the layer held nothing, or it cleared the layer. -/
theorem buffered_flush (he : Healthy e) (hc : Counted e.memoryLayer)
    (hconfig : e.config.maxMemoryPoints = maxMemoryPoints) (hmax : 0 < maxMemoryPoints) :
    Buffered maxMemoryPoints (stateAfter (flush sort fun _ => true) e) := by
  obtain ⟨b, e', h⟩ := flush_run_creatable sort e
  simp only [stateAfter, h]
  rcases flush_run_ok sort _ h with ⟨hnil, he'⟩ | rfl
  · rw [he']
    have hzero : e.memoryLayer.cacheSize = 0 := hc.trans (he.memory.heldPoints_eq_zero hnil)
    exact ⟨hconfig, hc, hzero ▸ hmax⟩
  · exact ⟨hconfig, counted_clearCache _, hmax⟩

/-- The end of `write_point` and `write_batch` restores the bound whatever the insert added:
it flushes exactly when the counter has reached the threshold. -/
theorem buffered_countAndFlush (he : Healthy e) (hc : Counted e.memoryLayer)
    (hconfig : e.config.maxMemoryPoints = maxMemoryPoints) (hmax : 0 < maxMemoryPoints)
    (count : Nat) :
    Buffered maxMemoryPoints (stateAfter (countAndFlush sort (fun _ => true) count) e) := by
  show Buffered maxMemoryPoints (stateAfter (if decide (e.config.maxMemoryPoints ≤
    e.memoryLayer.cacheSize) then flush sort (fun _ => true) else pure true)
      { e with totalPoints := e.totalPoints + count })
  split
  · exact buffered_flush sort ⟨he.memory, he.disk⟩ hc hconfig hmax
  · rename_i hlt
    exact ⟨hconfig, hc, hconfig ▸ Nat.lt_of_not_le (mt decide_eq_true hlt)⟩

theorem Buffered.writePoint (hb : Buffered maxMemoryPoints e) (he : Healthy e)
    (point : TimeSeriesPoint) :
    Buffered maxMemoryPoints (stateAfter (writePoint sort (fun _ => true) point) e) := by
  have hmax : 0 < maxMemoryPoints := Nat.lt_of_le_of_lt (Nat.zero_le _) hb.below
  show Buffered maxMemoryPoints (stateAfter (if (e.memoryLayer.insert point).1 then
    countAndFlush sort (fun _ => true) 1 else pure false)
      { e with memoryLayer := (e.memoryLayer.insert point).2 })
  split
  · exact buffered_countAndFlush sort
      (e := { e with memoryLayer := (e.memoryLayer.insert point).2 })
      ⟨he.memory.insert point, he.disk⟩ (hb.counted.insert point) hb.config hmax 1
  · rename_i hrej
    exact ⟨hb.config, hb.counted.insert point,
      (cacheSize_insert_of_rejected point (Bool.not_eq_true _ ▸ hrej)).symm ▸ hb.below⟩

theorem Buffered.writeBatch (hb : Buffered maxMemoryPoints e) (he : Healthy e)
    (points : List TimeSeriesPoint) :
    Buffered maxMemoryPoints (stateAfter (writeBatch sort (fun _ => true) points) e) := by
  have hmax : 0 < maxMemoryPoints := Nat.lt_of_le_of_lt (Nat.zero_le _) hb.below
  unfold StorageEngine.writeBatch
  split
  · exact hb
  · show Buffered maxMemoryPoints (stateAfter (if (e.memoryLayer.insertBatch sort points).1 then
      countAndFlush sort (fun _ => true) points.length else pure false)
        { e with memoryLayer := (e.memoryLayer.insertBatch sort points).2 })
    rw [insertBatch_fst, if_pos rfl]
    exact buffered_countAndFlush sort
      (e := { e with memoryLayer := (e.memoryLayer.insertBatch sort points).2 })
      ⟨he.memory.insertBatch sort points, he.disk⟩
      (hb.counted.insertBatch he.memory sort points) hb.config hmax _

theorem Buffered.apply (hb : Buffered maxMemoryPoints e) (he : Healthy e) (op : EngineOp) :
    Buffered maxMemoryPoints (op.apply sort (fun _ => true) e) := by
  have hmax : 0 < maxMemoryPoints := Nat.lt_of_le_of_lt (Nat.zero_le _) hb.below
  cases op with
  | writePoint point => exact hb.writePoint sort he point
  | writeBatch points => exact hb.writeBatch sort he points
  | flush => exact buffered_flush sort he hb.counted hb.config hmax
  | optimize =>
    rw [EngineOp.apply, stateAfter_optimize]
    exact buffered_flush sort he hb.counted hb.config hmax

end Threshold

/-- With `max_memory_points ≥ 1` and every segment file creatable, after every sequence of
calls from an empty directory the memory layer holds fewer than `max_memory_points` points, and
`cache_size()` is their number. -/
theorem run_memory_below_threshold (sort : StdSort) (config : EngineConfig)
    (hmax : 1 ≤ config.maxMemoryPoints) (ops : List EngineOp) :
    let m := (runEngine sort (fun _ => true) config ops).memoryLayer
    m.cacheSize < config.maxMemoryPoints ∧ m.cacheSize = m.heldPoints := by
  suffices ∀ e, Healthy e → Buffered config.maxMemoryPoints e →
      Buffered config.maxMemoryPoints (ops.foldl (EngineOp.apply sort fun _ => true) e) from
    have hb := this _ (healthy_new config) ⟨rfl, counted_empty, hmax⟩
    ⟨hb.below, hb.counted⟩
  induction ops with
  | nil => exact fun _ _ hb => hb
  | cons op ops ih => exact fun e he hb => ih _ (he.apply sort _ op) (hb.apply sort he op)

theorem run_memory_below_threshold_one :
    1 ≤ 1 ∧
      let m := (runEngine stableSort (fun _ => true) ⟨"data", 1⟩
        [.writePoint DiskLayer.epochPoint, .writeBatch [repeatedPoint, DiskLayer.epochPoint]]).memoryLayer
      m.cacheSize < 1 ∧ m.cacheSize = m.heldPoints :=
  ⟨le_refl 1, run_memory_below_threshold stableSort ⟨"data", 1⟩ (le_refl 1) _⟩

end StorageEngine

end FindataEngine
