import FindataEngine.MemoryInvariant

/-!
# `insert_batch` against a loop of `insert`

`insert` keeps the first point that arrives for a timestamp. `insert_batch` sorts each symbol
group with `std::sort` before it merges and applies `std::unique`, and `std::unique` keeps whichever
point the sort put first. `std::sort` is not stable: `reversingSort` is a sort the standard allows
that reverses points with equal timestamps (libstdc++'s introsort reorders them too, once a range
is longer than sixteen). Under it a batch of seventeen points at one time point keeps the last
point where the loop of `insert` keeps the first (`insertBatch_keeps_later_duplicate`).
-/

set_option autoImplicit false

namespace FindataEngine

namespace MemoryLayer

open List

/-- A `std::sort` that the standard allows: it orders by timestamp and puts points with equal
timestamps in the reverse of their input order. Its maps iterate in insertion order. -/
def reversingSort : StdSort where
  run l := l.reverse.insertionSort fun a b => a.timestamp ≤ b.timestamp
  perm l := (perm_insertionSort _ _).trans (reverse_perm l)
  sorted l := by
    haveI : IsTotal TimeSeriesPoint fun a b => a.timestamp ≤ b.timestamp :=
      ⟨fun _ _ => le_total _ _⟩
    haveI : IsTrans TimeSeriesPoint fun a b => a.timestamp ≤ b.timestamp :=
      ⟨fun _ _ _ => le_trans⟩
    exact sorted_insertionSort _ _
  groupOrder keys := keys
  groupOrder_perm _ := Perm.refl _

/-- Seventeen points of one symbol at one time point, with the values `0, …, 16`. -/
def sameTimeBatch : List TimeSeriesPoint :=
  (range 17).map fun i => ⟨.ofCount 0, i.toUInt64, "FB"⟩

set_option maxRecDepth 4000 in
/-- On a new layer, `insert_batch` keeps the batch's last point for the shared timestamp and the
loop of `insert` keeps its first. -/
theorem insertBatch_keeps_later_duplicate :
    (empty.insertBatch reversingSort sameTimeBatch).2.symbolData.lookup "FB" =
        some ⟨[⟨.ofCount 0, 16, "FB"⟩], 1⟩ ∧
      (sameTimeBatch.foldl (fun m p => (m.insert p).2) empty).symbolData.lookup "FB" =
        some ⟨[⟨.ofCount 0, 0, "FB"⟩], 1⟩ := by
  decide

end MemoryLayer

end FindataEngine
