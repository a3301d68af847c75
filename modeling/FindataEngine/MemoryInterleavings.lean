import FindataEngine.MemoryConcurrency
import FindataEngine.BufferBound

/-!
# What every interleaving of memory-layer calls keeps

The symbol section of `insert` runs on the entry it finds under the symbol's lock, and on that
entry it is the sequential `insert` (`insertInto_entryOf`); the group section of `insert_batch`
is likewise the sequential loop body (`mergeInto_entryOf`). The other sections create an empty
entry, clear one symbol, or reset the global counter. So whatever holds of each entry on its own
survives every interleaving (`Sound`): every symbol's sequence stays strictly increasing and of
its symbol, and its own `total_points` stays its length (`sound_runSchedule`).

The global counter `total_points_` is another matter. `insert` and `insert_batch` add to it in
the section that adds the points, so with no `clear_cache` among the calls it stays the number of
points held (`counted_runSchedule`). `clear_cache` resets it in a section of its own, after it has
cleared the symbols, and a point stored in between is lost from it (`clearCache_drops_count`).
-/

set_option autoImplicit false

namespace FindataEngine

namespace MemoryLayer

open List

deriving instance DecidableEq for Op

/-- A call of the interface before its first section. -/
def Op.start (sort : StdSort) : Op → MemoryThread
  | .insert point => .insert point
  | .insertBatch points => .startBatch sort points
  | .clearCache => .clearCache

/-- Every symbol's own counter `total_points` is its number of points. -/
def SymbolCounted (m : MemoryLayer) : Prop :=
  ∀ s data, m.symbolData.lookup s = some data → data.totalPoints = data.points.length

/-- What holds of every entry between any two sections: M1, M2 and the symbol's own counter. -/
structure Sound (m : MemoryLayer) : Prop where
  invariant : Invariant m
  symbolCounted : SymbolCounted m

/-- The points a call has still to store carry the symbol of the group they are stored under. -/
def MemoryThread.WF : MemoryThread → Prop
  | .insertBatch groups => ∀ g ∈ groups, ∀ p ∈ g.2, p.symbol = g.1
  | .merging symbol symbolPoints groups =>
    (∀ p ∈ symbolPoints, p.symbol = symbol) ∧ ∀ g ∈ groups, ∀ p ∈ g.2, p.symbol = g.1
  | _ => True

/-- `insert` and `insert_batch`, at any stage: the calls that never touch the global counter
but to add what they store. -/
def MemoryThread.Writer : MemoryThread → Prop
  | .clearCache | .clearing _ | .cleared => False
  | _ => True

/-! ## Each section is a sequential operation -/

/-- The symbol section of `insert`, on the entry it finds, is the sequential `insert`: the entry
`get_or_create_symbol_data` would create is empty, and an empty sequence refuses no point. -/
theorem insertInto_entryOf (m : MemoryLayer) (point : TimeSeriesPoint) :
    insertInto m (m.entryOf point.symbol) point = m.insert point := by
  rw [insert_eq_sections]
  unfold getOrCreateSymbolData entryOf
  cases m.symbolData.lookup point.symbol with
  | some data => rfl
  | none => simp [insertInto, setSymbolData, AList.insert_insert, SymbolData.empty, lowerBound, startsAt]

/-- The group section of `insert_batch`, on the entry it finds, is the sequential loop body. -/
theorem mergeInto_entryOf (sort : StdSort) (m : MemoryLayer) (symbol : String)
    (symbolPoints : List TimeSeriesPoint) :
    mergeInto sort m (m.entryOf symbol) symbol symbolPoints =
      m.insertGroup sort symbol symbolPoints := by
  rw [insertGroup_eq_sections]
  unfold getOrCreateSymbolData entryOf
  cases m.symbolData.lookup symbol with
  | some data => rfl
  | none => simp [mergeInto, setSymbolData, AList.insert_insert]

/-! ## The symbols' own counters -/

section SymbolCounted

variable {m : MemoryLayer}

theorem SymbolCounted.setSymbolData (hc : SymbolCounted m) {s : String} {d : SymbolData}
    (hd : d.totalPoints = d.points.length) : SymbolCounted (m.setSymbolData s d) := by
  intro s' d' h
  rw [lookup_setSymbolData] at h
  split at h
  · cases h; exact hd
  · exact hc s' d' h

theorem SymbolCounted.getOrCreate (hc : SymbolCounted m) (s : String) :
    SymbolCounted (m.getOrCreateSymbolData s).2 ∧
      (m.getOrCreateSymbolData s).1.totalPoints = (m.getOrCreateSymbolData s).1.points.length := by
  unfold getOrCreateSymbolData
  split
  · exact ⟨hc, hc s _ ‹_›⟩
  · exact ⟨hc.setSymbolData rfl, rfl⟩

theorem SymbolCounted.insert (hc : SymbolCounted m) (point : TimeSeriesPoint) :
    SymbolCounted (m.insert point).2 := by
  obtain ⟨hc', hd⟩ := hc.getOrCreate point.symbol
  have hsplit := congrArg length
    (lowerBound_append (m.getOrCreateSymbolData point.symbol).1.points point.timestamp)
  unfold MemoryLayer.insert
  dsimp only
  split
  · exact hc'
  · refine hc'.setSymbolData ?_
    simp only [length_append, length_cons] at hsplit ⊢
    omega

theorem SymbolCounted.insertGroup (hc : SymbolCounted m) (hm : Invariant m) (sort : StdSort)
    (symbol : String) (symbolPoints : List TimeSeriesPoint) :
    SymbolCounted (m.insertGroup sort symbol symbolPoints) := by
  obtain ⟨hc', hd⟩ := hc.getOrCreate symbol
  have hle := length_le_stdUnique_stdMerge (sort.run symbolPoints) (hm.getOrCreate symbol).2.1
  refine hc'.setSymbolData ?_
  dsimp only
  omega

end SymbolCounted

/-! ## One section, then any schedule -/

section Sections

variable (sort : StdSort) {m : MemoryLayer}

/-- A section of any call keeps every entry sound, and leaves the call well formed. -/
theorem MemoryThread.sound_step (hm : Sound m) {t : MemoryThread} (ht : t.WF) :
    Sound (t.step sort m).1 ∧ (t.step sort m).2.WF := by
  cases t with
  | insert point =>
    exact ⟨⟨(hm.invariant.getOrCreate _).1, (hm.symbolCounted.getOrCreate _).1⟩, trivial⟩
  | inserting point =>
    simp only [MemoryThread.step, insertInto_entryOf]
    exact ⟨⟨hm.invariant.insert point, hm.symbolCounted.insert point⟩, trivial⟩
  | insertBatch groups =>
    cases groups with
    | nil => exact ⟨hm, trivial⟩
    | cons g groups =>
      exact ⟨⟨(hm.invariant.getOrCreate _).1, (hm.symbolCounted.getOrCreate _).1⟩,
        ht g (mem_cons_self _ _), fun g' hg' => ht g' (mem_cons_of_mem _ hg')⟩
  | merging symbol symbolPoints groups =>
    simp only [MemoryThread.step, mergeInto_entryOf]
    exact ⟨⟨hm.invariant.insertGroup sort ht.1,
      hm.symbolCounted.insertGroup hm.invariant sort symbol symbolPoints⟩, ht.2⟩
  | clearCache => exact ⟨hm, trivial⟩
  | clearing symbols =>
    cases symbols with
    | nil => exact ⟨⟨hm.invariant, hm.symbolCounted⟩, trivial⟩
    | cons s symbols =>
      exact ⟨⟨hm.invariant.setSymbolData (symbolWF_empty s), hm.symbolCounted.setSymbolData rfl⟩,
        trivial⟩
  | returned b => exact ⟨hm, trivial⟩
  | cleared => exact ⟨hm, trivial⟩

/-- A section of `insert` or `insert_batch` keeps the global counter exact, and leaves a call of
the same kind. -/
theorem MemoryThread.counted_step (hm : Sound m) (hc : Counted m) {t : MemoryThread}
    (ht : t.Writer) : Counted (t.step sort m).1 ∧ (t.step sort m).2.Writer := by
  cases t with
  | insert point => exact ⟨hc.getOrCreate _, trivial⟩
  | inserting point =>
    simp only [MemoryThread.step, insertInto_entryOf]
    exact ⟨hc.insert point, trivial⟩
  | insertBatch groups =>
    cases groups with
    | nil => exact ⟨hc, trivial⟩
    | cons g groups => exact ⟨hc.getOrCreate _, trivial⟩
  | merging symbol symbolPoints groups =>
    simp only [MemoryThread.step, mergeInto_entryOf]
    exact ⟨hc.insertGroup hm.invariant sort symbol symbolPoints, trivial⟩
  | returned b => exact ⟨hc, trivial⟩
  | clearCache | clearing _ | cleared => exact ht.elim

theorem forall_mem_set {P : MemoryThread → Prop} {threads : List MemoryThread} {i : Nat}
    {t : MemoryThread} (hall : ∀ t' ∈ threads, P t') (ht : P t) :
    ∀ t' ∈ threads.set i t, P t' := fun _ h =>
  (mem_or_eq_of_mem_set h).elim (hall _) fun heq => heq ▸ ht

section Schedules

variable (P : MemoryLayer → Prop) (Q : MemoryThread → Prop)
  (hstep : ∀ m t, P m → Q t → P (t.step sort m).1 ∧ Q (t.step sort m).2)
include hstep

/-- What a section of any call keeps of the layer and of the call, the next section of any call
of a world keeps; a section that waits for the global lock changes nothing. -/
theorem MemoryWorld.step_induction {w : MemoryWorld} (hm : P w.layer) (ht : ∀ t ∈ w.threads, Q t)
    (i : Nat) : P (w.step sort i).layer ∧ ∀ t ∈ (w.step sort i).threads, Q t := by
  unfold MemoryWorld.step
  split
  · exact ⟨hm, ht⟩
  · rename_i t hget
    split
    · exact ⟨hm, ht⟩
    · have h := hstep _ _ hm (ht t (getElem?_mem hget))
      exact ⟨h.1, forall_mem_set ht h.2⟩

/-- ... and so does every schedule. -/
theorem runSchedule_induction :
    ∀ (schedule : List Nat) (w : MemoryWorld), P w.layer → (∀ t ∈ w.threads, Q t) →
      P (runSchedule sort w schedule).layer ∧ ∀ t ∈ (runSchedule sort w schedule).threads, Q t
  | [], _, hm, ht => ⟨hm, ht⟩
  | i :: schedule, w, hm, ht =>
    have h := MemoryWorld.step_induction sort P Q hstep hm ht i
    runSchedule_induction schedule (w.step sort i) h.1 h.2

end Schedules

theorem Op.start_wf (op : Op) : (op.start sort).WF := by
  cases op with
  | insert point => trivial
  | insertBatch points =>
    show (MemoryThread.startBatch sort points).WF
    unfold MemoryThread.startBatch
    split
    · trivial
    · exact fun _ hg _ hp => symbol_eq_of_mem_groupBySymbol hg hp
  | clearCache => trivial

theorem Op.start_writer {op : Op} (h : op ≠ .clearCache) : (op.start sort).Writer := by
  cases op with
  | insert point => trivial
  | insertBatch points =>
    show (MemoryThread.startBatch sort points).Writer
    unfold MemoryThread.startBatch
    split <;> trivial
  | clearCache => exact h rfl

/-- Calls started on a new layer, their sections run in any order that respects the global
lock: every symbol's sequence stays strictly increasing in timestamp and holds only that symbol's
points, and the symbol's own `total_points` stays its number of points. Calls made one after
another are the schedules that run each call to its end before the next. -/
theorem sound_runSchedule (calls : List Op) (schedule : List Nat) :
    Sound (runSchedule sort ⟨empty, calls.map (Op.start sort)⟩ schedule).layer :=
  (runSchedule_induction sort Sound MemoryThread.WF
    (fun _ _ hm ht => MemoryThread.sound_step sort hm ht) schedule _
    ⟨invariant_empty, fun _ _ h => by simp [empty] at h⟩
    (by simpa using fun op _ => Op.start_wf sort op)).1

/-- With no `clear_cache` among the calls, every interleaving of `insert` and `insert_batch`
keeps `cache_size()` equal to the number of points the layer holds. -/
theorem counted_runSchedule (calls : List Op) (hcalls : .clearCache ∉ calls)
    (schedule : List Nat) :
    (runSchedule sort ⟨empty, calls.map (Op.start sort)⟩ schedule).layer.cacheSize =
      (runSchedule sort ⟨empty, calls.map (Op.start sort)⟩ schedule).layer.heldPoints :=
  (runSchedule_induction sort (fun m => Sound m ∧ Counted m)
    (fun t => t.WF ∧ t.Writer)
    (fun _ _ hm ht => ⟨⟨(MemoryThread.sound_step sort hm.1 ht.1).1,
      (MemoryThread.counted_step sort hm.1 hm.2 ht.2).1⟩,
      (MemoryThread.sound_step sort hm.1 ht.1).2, (MemoryThread.counted_step sort hm.1 hm.2 ht.2).2⟩)
    schedule _ ⟨⟨invariant_empty, fun _ _ h => by simp [empty] at h⟩, counted_empty⟩
    (by simpa using fun op hop => ⟨Op.start_wf sort op, Op.start_writer sort fun h => hcalls (h ▸ hop)⟩)).1.2

/-- An `insert` into `FB` and an `insert_batch` that repeats its timestamp. -/
def insertAndBatch : List Op :=
  [.insert ⟨.ofCount 0, 1, "FB"⟩, .insertBatch [⟨.ofCount 0, 2, "FB"⟩, ⟨.ofCount 1, 3, "FB"⟩]]

/-- The two calls, their sections alternating: the batch's group section runs after the insert
stored its point, and the counter ends at the two points held. -/
theorem counted_runSchedule_insertAndBatch :
    .clearCache ∉ insertAndBatch ∧
      (runSchedule stableSort ⟨empty, insertAndBatch.map (Op.start stableSort)⟩
          [0, 1, 0, 1, 1]).layer.cacheSize =
        (runSchedule stableSort ⟨empty, insertAndBatch.map (Op.start stableSort)⟩
          [0, 1, 0, 1, 1]).layer.heldPoints :=
  ⟨by decide, counted_runSchedule stableSort insertAndBatch (by decide) _⟩

end Sections

end MemoryLayer

end FindataEngine
