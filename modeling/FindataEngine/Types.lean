import Mathlib.Order.Basic
import Mathlib.Tactic.Ring

/-!
# Points and timestamps

The data model of `types.hpp` and `rust_bindings.hpp`. A `std::chrono::system_clock::time_point`
is a signed 64-bit count of nanoseconds since the epoch (libstdc++'s `system_clock::duration`);
`Timestamp` carries that range as fields, so an out-of-range time point cannot be built. A
`double` is carried by its IEEE-754 bit pattern: the storage layers copy values and never compute
with them.

The disk layer hands the external Rust codec `TimePoint` records, whose timestamp is a count of
whole microseconds (`toMicros`, a `duration_cast` that truncates toward zero), and turns them back
into time points by `ofMicros`. A time point survives the round trip exactly when it is a whole
number of microseconds (`ofMicros_toMicros_of_whole`).
-/

set_option autoImplicit false

namespace FindataEngine

/-- Smallest `int64` value: the count of `system_clock::time_point::min()`. -/
def int64Min : Int := -9223372036854775808

/-- Largest `int64` value: the count of `system_clock::time_point::max()`. -/
def int64Max : Int := 9223372036854775807

/-- `std::chrono::system_clock::time_point`: nanoseconds since the epoch, as an `int64`. -/
structure Timestamp where
  count : Int
  count_ge : int64Min ≤ count
  count_le : count ≤ int64Max
  deriving DecidableEq, Repr

namespace Timestamp

instance : LT Timestamp := ⟨fun a b => a.count < b.count⟩
instance : LE Timestamp := ⟨fun a b => a.count ≤ b.count⟩

instance (a b : Timestamp) : Decidable (a < b) := inferInstanceAs (Decidable (a.count < b.count))
instance (a b : Timestamp) : Decidable (a ≤ b) := inferInstanceAs (Decidable (a.count ≤ b.count))

@[simp] theorem lt_def {a b : Timestamp} : a < b ↔ a.count < b.count := Iff.rfl
@[simp] theorem le_def {a b : Timestamp} : a ≤ b ↔ a.count ≤ b.count := Iff.rfl

theorem ext_count {a b : Timestamp} (h : a.count = b.count) : a = b := by
  cases a; cases b; simp only at h; subst h; rfl

instance : LinearOrder Timestamp :=
  LinearOrder.lift' Timestamp.count fun _ _ => ext_count

/-- `system_clock::time_point::min()`. -/
def min : Timestamp := ⟨int64Min, Int.le_refl _, by decide⟩

/-- `system_clock::time_point::max()`. -/
def max : Timestamp := ⟨int64Max, by decide, Int.le_refl _⟩

theorem min_le (t : Timestamp) : Timestamp.min ≤ t := t.count_ge

theorem le_max (t : Timestamp) : t ≤ Timestamp.max := t.count_le

/-- A count of nanoseconds wrapped into the `int64` range, as two's-complement arithmetic does. -/
def ofCount (c : Int) : Timestamp :=
  ⟨(c - int64Min) % 18446744073709551616 + int64Min,
    by simp only [int64Min]; omega, by simp only [int64Min, int64Max]; omega⟩

theorem ofCount_count_of_mem {c : Int} (h1 : int64Min ≤ c) (h2 : c ≤ int64Max) :
    (ofCount c).count = c := by
  simp only [ofCount, int64Min, int64Max] at *
  omega

/-- `duration_cast<microseconds>(t.time_since_epoch()).count()`: truncation toward zero. -/
def toMicros (t : Timestamp) : Int := t.count.tdiv 1000

/-- `time_point(microseconds(us))`: the count scaled back to nanoseconds. -/
def ofMicros (us : Int) : Timestamp := ofCount (us * 1000)

/-- A time point that is a whole number of microseconds. -/
def WholeMicros (t : Timestamp) : Prop := t.count % 1000 = 0

instance (t : Timestamp) : Decidable t.WholeMicros := inferInstanceAs (Decidable (_ = _))

/-- Truncation toward zero, as floor division on the absolute value. -/
theorem tdiv_thousand_eq (c : Int) :
    c.tdiv 1000 = if 0 ≤ c then c / 1000 else -((-c) / 1000) := by
  rcases c with n | n
  · exact (if_pos (Int.ofNat_nonneg n)).symm ▸ Int.tdiv_eq_ediv (Int.ofNat_nonneg n) (by decide)
  · show -((n + 1 : Nat) / (1000 : Nat) : Int) = _
    rw [if_neg (Int.not_le.mpr (Int.negSucc_lt_zero n)), Int.neg_negSucc]
    norm_cast

/-- The round trip through whole microseconds truncates the count toward zero. -/
theorem ofMicros_toMicros_count (t : Timestamp) :
    (ofMicros (toMicros t)).count = t.count.tdiv 1000 * 1000 := by
  have h1 := t.count_ge
  have h2 := t.count_le
  unfold ofMicros toMicros
  apply ofCount_count_of_mem <;> rw [tdiv_thousand_eq] <;>
    simp only [int64Min, int64Max] at * <;> split <;> omega

theorem ofMicros_toMicros_of_whole {t : Timestamp} (h : t.WholeMicros) :
    ofMicros (toMicros t) = t := by
  apply ext_count
  rw [ofMicros_toMicros_count, tdiv_thousand_eq]
  unfold WholeMicros at h
  split <;> omega

end Timestamp

/-- `TimeSeriesPoint`: a value tagged by a time point and a symbol. -/
structure TimeSeriesPoint where
  timestamp : Timestamp
  /-- The IEEE-754 bit pattern of the `double`. -/
  value : UInt64
  symbol : String
  deriving DecidableEq, Repr

/-- The Rust codec's `TimePoint`: microseconds since the epoch and a value. -/
structure TimePoint where
  timestamp : Int
  value : UInt64
  deriving DecidableEq, Repr

end FindataEngine
