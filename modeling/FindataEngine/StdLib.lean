import FindataEngine.Types
import Mathlib.Data.List.Destutter
import Mathlib.Data.List.Sort
import Mathlib.Data.List.Dedup

/-!
# The standard-library algorithms the engine calls

Every layer orders points by timestamp only, with the comparator `a.timestamp < b.timestamp`.

* `std::sort` is not stable: the standard leaves the order of points with equal timestamps
  unspecified. `StdSort` is any function that returns a permutation sorted by timestamp, so a
  theorem stated for every `StdSort` holds whatever the library does with ties.
* `write_batch` and `insert_batch` group a batch in an `unordered_map` keyed by symbol and then
  iterate it, in an order the standard leaves to the library. libstdc++'s order is a function of
  the keys in the order they were first inserted (their hashes and the bucket count those
  insertions reach), so `StdSort` carries it as `groupOrder`, any permutation of those keys
  (`groupBySymbol`). Every order of the keys is the `groupOrder` of some `StdSort`
  (`exists_groupOrder`), so a result about one call for every `StdSort` holds for the order the
  library takes, also after `flush` has collected the points in the order of the `unordered_set`
  that `get_symbols` returns.
* `std::merge` takes from the second range only when its head is strictly earlier (`stdMerge`):
  Lean's `List.merge` with the negated comparator.
* `std::unique` keeps the first point of every run of equal timestamps (`stdUnique`), which is
  `List.destutter` with "different timestamp" as the relation to the last point kept.
* `std::lower_bound` and `std::upper_bound` split a sorted sequence at the first point not before,
  and the first point after, a time point (`lowerBound`, `upperBound`).

On a sorted sequence these reduce to filters (`dropWhile_before_eq_filter`,
`takeWhile_notAfter_eq_filter`), and `std::unique` of a sorted sequence is strictly increasing
(`strictlySorted_stdUnique`).

The last part is the index `shared_mutex` of the disk layer as glibc's rwlock implements it under
libstdc++: taking it again while holding it exclusively throws `std::system_error` (EDEADLK), a
second shared hold is granted (`acquireIndexLock`).
-/

set_option autoImplicit false

namespace FindataEngine

open List

/-- Non-decreasing timestamps. -/
def SortedByTime (l : List TimeSeriesPoint) : Prop :=
  l.Sorted fun a b => a.timestamp ≤ b.timestamp

/-- Strictly increasing timestamps: sorted with no two points at one time point. -/
def StrictlySorted (l : List TimeSeriesPoint) : Prop :=
  l.Sorted fun a b => a.timestamp < b.timestamp

theorem StrictlySorted.sortedByTime {l : List TimeSeriesPoint} (h : StrictlySorted l) :
    SortedByTime l :=
  h.imp le_of_lt

theorem SortedByTime.head_le {a : TimeSeriesPoint} {l : List TimeSeriesPoint}
    (hs : SortedByTime (a :: l)) {p : TimeSeriesPoint} (hp : p ∈ a :: l) :
    a.timestamp ≤ p.timestamp := by
  rcases mem_cons.mp hp with rfl | hp
  · exact le_rfl
  · exact rel_of_sorted_cons hs p hp

theorem SortedByTime.le_getLast {l : List TimeSeriesPoint} (hs : SortedByTime l) (hl : l ≠ [])
    {p : TimeSeriesPoint} (hp : p ∈ l) : p.timestamp ≤ (l.getLast hl).timestamp := by
  rw [← dropLast_append_getLast hl] at hs hp
  rcases mem_append.mp hp with hp | hp
  · exact (pairwise_append.mp hs).2.2 p hp _ (mem_singleton_self _)
  · rw [mem_singleton.mp hp]

/-- The last point of a sorted sequence is one of its latest. -/
theorem SortedByTime.getLast?_latest {l : List TimeSeriesPoint} (hs : SortedByTime l)
    {p : TimeSeriesPoint} (h : l.getLast? = some p) : p ∈ l ∧ ∀ q ∈ l, q.timestamp ≤ p.timestamp := by
  have hl : l ≠ [] := fun hnil => by simp [hnil] at h
  rw [getLast?_eq_getLast l hl, Option.some.injEq] at h
  subst h
  exact ⟨getLast_mem hl, fun q hq => hs.le_getLast hl hq⟩

/-- `std::sort` with the timestamp comparator, some permutation sorted by timestamp, and the
iteration order of an `unordered_map` keyed by symbol, some permutation of its keys as they were
first inserted: the two choices of the standard library that the engine's results depend on. -/
structure StdSort where
  run : List TimeSeriesPoint → List TimeSeriesPoint
  perm : ∀ l, run l ~ l
  sorted : ∀ l, SortedByTime (run l)
  groupOrder : List String → List String
  groupOrder_perm : ∀ keys, groupOrder keys ~ keys

@[simp] theorem StdSort.run_nil (sort : StdSort) : sort.run [] = [] :=
  (sort.perm []).eq_nil

/-- `std::stable_sort` with the timestamp comparator, as an insertion sort: it keeps points with
equal timestamps in their input order, which is one of the orders `std::sort` may produce. Its
maps are iterated in insertion order, one of the orders an `unordered_map` may have. -/
def stableSort : StdSort where
  run l := l.insertionSort fun a b => a.timestamp ≤ b.timestamp
  perm l := perm_insertionSort _ _
  sorted l := by
    haveI : IsTotal TimeSeriesPoint fun a b => a.timestamp ≤ b.timestamp :=
      ⟨fun _ _ => le_total _ _⟩
    haveI : IsTrans TimeSeriesPoint fun a b => a.timestamp ≤ b.timestamp :=
      ⟨fun _ _ _ => le_trans⟩
    exact sorted_insertionSort _ _
  groupOrder keys := keys
  groupOrder_perm _ := Perm.refl _

/-- Every order of a list of keys is the group order of some `StdSort`. -/
theorem exists_groupOrder {keys order : List String} (h : order ~ keys) :
    ∃ sort : StdSort, sort.groupOrder keys = order :=
  ⟨{ stableSort with
      groupOrder := fun l => if l = keys then order else l
      groupOrder_perm := fun l => by
        show (if l = keys then order else l) ~ l
        split
        · exact ‹l = keys› ▸ h
        · exact Perm.refl _ }, if_pos rfl⟩

/-- `std::merge` takes the head `x` of the first range unless `comp(y, x)` for the head `y` of
the second. -/
def mergeTakesLeft (x y : TimeSeriesPoint) : Bool := !decide (y.timestamp < x.timestamp)

/-- `std::merge(a, b, comp)` with `comp = a.timestamp < b.timestamp`: before the head `x` of the
first range it copies the points of the second range that are strictly earlier than `x`. -/
def stdMerge : List TimeSeriesPoint → List TimeSeriesPoint → List TimeSeriesPoint
  | [], ys => ys
  | x :: xs, ys =>
    ys.takeWhile (fun y => y.timestamp < x.timestamp) ++
      x :: stdMerge xs (ys.dropWhile fun y => y.timestamp < x.timestamp)

/-- Two points at different time points: `std::unique` keeps a point exactly when it is in this
relation to the last point kept. -/
def DistinctTime (a b : TimeSeriesPoint) : Prop := a.timestamp ≠ b.timestamp

instance : DecidableRel DistinctTime := fun _ _ => inferInstanceAs (Decidable (_ ≠ _))

/-- `std::unique(first, last, pred)` with `pred = a.timestamp == b.timestamp`. -/
def stdUnique (l : List TimeSeriesPoint) : List TimeSeriesPoint :=
  l.destutter DistinctTime

/-- `std::lower_bound` by timestamp: the points before `t`, and the rest. -/
def lowerBound (l : List TimeSeriesPoint) (t : Timestamp) :
    List TimeSeriesPoint × List TimeSeriesPoint :=
  (l.takeWhile fun p => p.timestamp < t, l.dropWhile fun p => p.timestamp < t)

/-- `std::upper_bound` by timestamp: the points not after `t`, and the rest. -/
def upperBound (l : List TimeSeriesPoint) (t : Timestamp) :
    List TimeSeriesPoint × List TimeSeriesPoint :=
  (l.takeWhile fun p => !decide (t < p.timestamp), l.dropWhile fun p => !decide (t < p.timestamp))

section Sorting

variable {l xs ys : List TimeSeriesPoint}

@[simp] theorem mergeTakesLeft_iff {x y : TimeSeriesPoint} :
    mergeTakesLeft x y = true ↔ x.timestamp ≤ y.timestamp := by
  simp [mergeTakesLeft]

/-- `stdMerge` is Lean's `List.merge` with `std::merge`'s choice of head. -/
theorem stdMerge_eq_merge : ∀ xs ys, stdMerge xs ys = List.merge xs ys mergeTakesLeft := by
  intro xs
  induction xs with
  | nil => simp [stdMerge]
  | cons x xs ihx =>
    intro ys
    induction ys with
    | nil => simp [stdMerge, ihx []]
    | cons y ys ihy =>
      by_cases h : y.timestamp < x.timestamp
      · simp only [stdMerge] at ihy
        rw [stdMerge, takeWhile_cons_of_pos (by simpa using h), dropWhile_cons_of_pos
          (by simpa using h), cons_merge_cons_neg _ _ _ (by simpa [mergeTakesLeft] using h), ← ihy,
          cons_append]
      · rw [stdMerge, takeWhile_cons_of_neg (by simpa using h), dropWhile_cons_of_neg
          (by simpa using h), cons_merge_cons_pos _ _ _ (by simpa [mergeTakesLeft] using h),
          nil_append, ihx]

theorem stdMerge_perm : stdMerge xs ys ~ xs ++ ys := by
  rw [stdMerge_eq_merge]; exact merge_perm_append _

theorem sortedByTime_stdMerge (hx : SortedByTime xs) (hy : SortedByTime ys) :
    SortedByTime (stdMerge xs ys) := by
  have h := sorted_merge (fun a b c (hab : mergeTakesLeft a b = true) hbc => by
      simp only [mergeTakesLeft_iff] at *; exact le_trans hab hbc)
    (fun a b => by simp only [Bool.or_eq_true, mergeTakesLeft_iff]; exact le_total _ _) xs ys
    (by simpa only [mergeTakesLeft_iff] using hx) (by simpa only [mergeTakesLeft_iff] using hy)
  simpa only [SortedByTime, Sorted, mergeTakesLeft_iff, stdMerge_eq_merge] using h

theorem stdUnique_sublist (l : List TimeSeriesPoint) : stdUnique l <+ l :=
  destutter_sublist _ l

theorem mem_of_mem_stdUnique {p : TimeSeriesPoint} (h : p ∈ stdUnique l) : p ∈ l :=
  (stdUnique_sublist l).subset h

theorem chain'_before_of_le_of_distinct : ∀ {l : List TimeSeriesPoint},
    l.Chain' (fun a b => a.timestamp ≤ b.timestamp) → l.Chain' DistinctTime →
      l.Chain' fun a b => a.timestamp < b.timestamp
  | [], _, _ => chain'_nil
  | [_], _, _ => chain'_singleton _
  | _ :: _ :: _, h1, h2 => by
    rw [chain'_cons] at *
    exact ⟨lt_of_le_of_ne h1.1 h2.1, chain'_before_of_le_of_distinct h1.2 h2.2⟩

/-- `std::unique` of a sorted sequence is strictly increasing. -/
theorem strictlySorted_stdUnique (h : SortedByTime l) : StrictlySorted (stdUnique l) := by
  haveI : IsTrans TimeSeriesPoint fun a b => a.timestamp < b.timestamp := ⟨fun _ _ _ => lt_trans⟩
  exact chain'_iff_pairwise.mp (chain'_before_of_le_of_distinct
    (h.sublist (stdUnique_sublist l)).chain' (destutter_is_chain' _ l))

theorem exists_mem_destutter' : ∀ (a : TimeSeriesPoint) (l : List TimeSeriesPoint),
    ∀ p ∈ a :: l, ∃ q ∈ l.destutter' DistinctTime a, q.timestamp = p.timestamp
  | a, [], p, hp => ⟨a, mem_singleton_self a, by rw [mem_singleton.mp hp]⟩
  | a, b :: l, p, hp => by
    by_cases hab : DistinctTime a b
    · rw [destutter'_cons_pos _ hab]
      rcases mem_cons.mp hp with hpa | hp
      · exact ⟨a, mem_cons_self _ _, by rw [hpa]⟩
      · obtain ⟨q, hq, hqt⟩ := exists_mem_destutter' b l p hp
        exact ⟨q, mem_cons_of_mem _ hq, hqt⟩
    · rw [destutter'_cons_neg _ hab]
      rcases mem_cons.mp hp with hpa | hp
      · exact exists_mem_destutter' a l p (by rw [hpa]; exact mem_cons_self _ _)
      · rcases mem_cons.mp hp with hpb | hp
        · obtain ⟨q, hq, hqt⟩ := exists_mem_destutter' a l a (mem_cons_self _ _)
          exact ⟨q, hq, by rw [hqt, hpb]; exact not_not.mp hab⟩
        · exact exists_mem_destutter' a l p (mem_cons_of_mem _ hp)

/-- Every timestamp of a sequence keeps a point in its `std::unique`. -/
theorem exists_mem_stdUnique {p : TimeSeriesPoint} (hp : p ∈ l) :
    ∃ q ∈ stdUnique l, q.timestamp = p.timestamp := by
  cases l with
  | nil => simp at hp
  | cons a l => exact exists_mem_destutter' a l p hp

end Sorting

section Bounds

variable {l : List TimeSeriesPoint} {t : Timestamp}

/-- On a sorted sequence, dropping the points before `t` keeps exactly those not before `t`. -/
theorem dropWhile_before_eq_filter (h : SortedByTime l) :
    l.dropWhile (fun p => p.timestamp < t) = l.filter fun p => t ≤ p.timestamp := by
  induction l with
  | nil => rfl
  | cons a l ih =>
    rw [SortedByTime, sorted_cons] at h
    by_cases ha : a.timestamp < t
    · rw [dropWhile_cons_of_pos (by simpa using ha), ih h.2,
        filter_cons_of_neg (by simpa using ha)]
    · rw [dropWhile_cons_of_neg (by simpa using ha), filter_cons_of_pos (by simpa using ha),
        (filter_eq_self.mpr fun b hb => by
          simpa using le_trans (not_lt.mp ha) (h.1 b hb))]

/-- On a sorted sequence, the points taken while not after `t` are exactly those not after `t`. -/
theorem takeWhile_notAfter_eq_filter (h : SortedByTime l) :
    l.takeWhile (fun p => !decide (t < p.timestamp)) = l.filter fun p => p.timestamp ≤ t := by
  induction l with
  | nil => rfl
  | cons a l ih =>
    rw [SortedByTime, sorted_cons] at h
    by_cases ha : a.timestamp ≤ t
    · rw [takeWhile_cons_of_pos (by simpa using ha), ih h.2,
        filter_cons_of_pos (by simpa using ha)]
    · rw [takeWhile_cons_of_neg (by simpa using ha), filter_cons_of_neg (by simpa using ha),
        (filter_eq_nil_iff.mpr fun b hb => by
          simpa using lt_of_lt_of_le (not_le.mp ha) (h.1 b hb))]

theorem lowerBound_append (l : List TimeSeriesPoint) (t : Timestamp) :
    (lowerBound l t).1 ++ (lowerBound l t).2 = l :=
  takeWhile_append_dropWhile _ _

theorem before_of_mem_lowerBound_fst {p : TimeSeriesPoint} (hp : p ∈ (lowerBound l t).1) :
    p.timestamp < t := by
  simpa using mem_takeWhile_imp hp

theorem not_before_head_lowerBound_snd {p : TimeSeriesPoint} {rest : List TimeSeriesPoint}
    (hp : (lowerBound l t).2 = p :: rest) : ¬ p.timestamp < t := by
  induction l with
  | nil => simp [lowerBound] at hp
  | cons a l ih =>
    simp only [lowerBound, dropWhile_cons] at hp ih
    by_cases ha : a.timestamp < t
    · simp only [ha, decide_True, if_true] at hp
      exact ih hp
    · simp only [ha, decide_False, Bool.false_eq_true, if_false, cons.injEq] at hp
      exact hp.1 ▸ ha

end Bounds

/-- `grouped_points[point.symbol].push_back(point)` over a batch, then iterating the map: one
group per symbol, each in batch order, the groups in the map's order of the symbols as they first
occur. -/
def groupBySymbol (sort : StdSort) (points : List TimeSeriesPoint) :
    List (String × List TimeSeriesPoint) :=
  (sort.groupOrder (points.map (·.symbol)).dedup).map fun s => (s, points.filter (·.symbol = s))

section Grouping

variable {sort : StdSort} {points : List TimeSeriesPoint}

@[simp] theorem groupBySymbol_nil : groupBySymbol sort [] = [] := by
  rw [groupBySymbol, map_nil, dedup_nil, (sort.groupOrder_perm []).eq_nil, map_nil]

theorem mem_groupOrder_dedup {s : String} :
    s ∈ sort.groupOrder (points.map (·.symbol)).dedup ↔ ∃ p ∈ points, p.symbol = s := by
  rw [(sort.groupOrder_perm _).mem_iff, mem_dedup, mem_map]

theorem mem_groupBySymbol {g : String × List TimeSeriesPoint} :
    g ∈ groupBySymbol sort points ↔
      (∃ p ∈ points, p.symbol = g.1) ∧ g.2 = points.filter (·.symbol = g.1) := by
  obtain ⟨s, ps⟩ := g
  simp only [groupBySymbol, mem_map, Prod.mk.injEq]
  constructor
  · rintro ⟨s, hs, rfl, rfl⟩
    exact ⟨mem_groupOrder_dedup.mp hs, rfl⟩
  · rintro ⟨hs, h⟩
    exact ⟨_, mem_groupOrder_dedup.mpr hs, rfl, h.symm⟩

theorem symbol_eq_of_mem_groupBySymbol {g : String × List TimeSeriesPoint}
    (hg : g ∈ groupBySymbol sort points) {p : TimeSeriesPoint} (hp : p ∈ g.2) : p.symbol = g.1 := by
  rw [(mem_groupBySymbol.mp hg).2] at hp
  simpa using (mem_filter.mp hp).2

/-- A property of every point's symbol holds of every group's. -/
theorem forall_mem_groupBySymbol {P : String → Prop} (h : ∀ p ∈ points, P p.symbol) :
    ∀ g ∈ groupBySymbol sort points, P g.1 := fun _ hg =>
  (mem_groupBySymbol.mp hg).1.elim fun p hp => hp.2 ▸ h p hp.1

theorem map_fst_groupBySymbol :
    (groupBySymbol sort points).map (·.1) = sort.groupOrder (points.map (·.symbol)).dedup := by
  simp [groupBySymbol, Function.comp_def]

theorem mem_map_fst_groupBySymbol {s : String} :
    s ∈ (groupBySymbol sort points).map (·.1) ↔ ∃ p ∈ points, p.symbol = s := by
  rw [map_fst_groupBySymbol, mem_groupOrder_dedup]

theorem groupBySymbol_keys_nodup : ((groupBySymbol sort points).map (·.1)).Nodup := by
  rw [map_fst_groupBySymbol]
  exact (sort.groupOrder_perm _).nodup_iff.mpr (nodup_dedup _)

/-- A symbol has one group, the batch's points of that symbol, if the batch has any. -/
theorem filter_groupBySymbol (symbol : String) :
    (groupBySymbol sort points).filter (fun g => g.1 = symbol) =
      if symbol ∈ points.map (·.symbol) then [(symbol, points.filter (·.symbol = symbol))]
      else [] := by
  unfold groupBySymbol
  rw [filter_map]
  have hpred : ((fun g : String × List TimeSeriesPoint => decide (g.1 = symbol)) ∘
      fun s => (s, points.filter (·.symbol = s))) = (· = symbol) := rfl
  rw [hpred, filter_eq, (sort.groupOrder_perm _).count_eq, count_dedup]
  split <;> simp

end Grouping

/-- The mode in which the calling thread already holds the disk layer's index `shared_mutex`. -/
inductive Held where
  | unlocked
  | shared
  | exclusive
  deriving DecidableEq, Repr

/-- `what()` of the `std::system_error` for EDEADLK: glibc's `strerror` text. -/
def resourceDeadlockAvoided : String := "Resource deadlock avoided"

/-- Taking the index `shared_mutex`, shared or exclusive. glibc's rwlock reports EDEADLK to a
thread that already holds it exclusively, and libstdc++ throws it as `std::system_error`; a
second shared hold is granted. No path of the code asks for an exclusive hold while it holds a
shared one. -/
def acquireIndexLock : Held → Except String Unit
  | .exclusive => .error resourceDeadlockAvoided
  | _ => .ok ()

end FindataEngine
