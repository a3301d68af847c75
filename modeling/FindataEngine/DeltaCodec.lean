import FindataEngine.Types
import FindataEngine.Calls
import Mathlib.Algebra.Group.Basic

/-!
# The double delta codec

`compress_doubles` and `decompress_doubles` of `utils.cpp`. The encoder writes the element count
as a `size_t`, then one `double` delta per element: the whole blocks of four are taken against the
previous block lane by lane (`_mm256_sub_pd` against `prev_values`), and the remaining elements one
by one against `prev_values[0]`. The decoder reads the count and adds each delta to the value it
rebuilt last.

A buffer is a list of `Byte`s. A `size_t` is eight plain little-endian bytes; a `double` is eight
tagged parts of its value, so that the arithmetic on values can be taken as exact (integers,
rationals, or `ExactDouble` in `SeriesCodec`) with the buffer's layout and lengths kept. Reading
past the end of the buffer is undefined behaviour and reading the bytes of a `double` as a
`size_t` is not modelled: the readers return `none` for both.

* `decompressDoubles_compressDoubles`: the decoder returns the running sums of the deltas the
  encoder wrote. The framing (count, then eight bytes per delta) is read back exactly.
* `zeros_of_roundTrip`: from four elements on, the lane deltas are summed one position back, so
  the second value comes back as `x₀ + x₁`; a sequence comes back unchanged only if its first
  three elements are zero.
* `decompressDoubles_compressDoubles_eq_self_iff`: over every additive group, a sequence comes
  back unchanged exactly when every element of its whole blocks of four is zero, its last element
  apart (`ZeroBlocks`). With fewer than four elements only the scalar loop runs, and every
  sequence comes back.
-/

set_option autoImplicit false

namespace FindataEngine

open List

/-- A byte of a buffer: a plain byte, or byte `k` of the eight that hold a `double` of value `x`. -/
inductive Byte (α : Type) where
  | raw (b : UInt8)
  | part (x : α) (k : Fin 8)
  deriving DecidableEq, Repr

namespace Byte

variable {α : Type}

/-! ## `size_t` fields -/

/-- The `w` little-endian bytes of `n`, as `memcpy` copies an integer on x86-64. -/
def leBytes : Nat → Nat → List (Byte α)
  | 0, _ => []
  | w + 1, n => .raw (UInt8.ofNat n) :: leBytes w (n / 256)

/-- The number whose little-endian bytes these are, if they are all plain bytes. -/
def leValue : List (Byte α) → Option Nat
  | [] => some 0
  | .raw b :: bs => (leValue bs).map (b.toNat + 256 * ·)
  | .part _ _ :: _ => none

@[simp] theorem length_leBytes (w n : Nat) : (leBytes w n : List (Byte α)).length = w := by
  induction w generalizing n with
  | zero => rfl
  | succ w ih => simp [leBytes, ih]

theorem leValue_leBytes (w n : Nat) :
    leValue (leBytes w n : List (Byte α)) = some (n % 256 ^ w) := by
  induction w generalizing n with
  | zero => simp [leBytes, leValue, Nat.mod_one]
  | succ w ih =>
    rw [leBytes, leValue, ih, pow_succ', Nat.mod_mul]
    rfl

/-- The bytes of a `size_t` written with `insert` from its address. -/
def writeSize (n : Nat) : List (Byte α) := leBytes 8 n

/-- `memcpy` of a `size_t` from the front of the buffer. -/
def readSize (bs : List (Byte α)) : Option (Nat × List (Byte α)) :=
  if 8 ≤ bs.length then (leValue (bs.take 8)).map fun n => (n, bs.drop 8) else none

@[simp] theorem length_writeSize (n : Nat) : (writeSize n : List (Byte α)).length = 8 :=
  length_leBytes 8 n

theorem readSize_writeSize (n : Nat) (rest : List (Byte α)) :
    readSize (writeSize n ++ rest) = some (n % 2 ^ 64, rest) := by
  have hlen := length_writeSize (α := α) n
  rw [readSize, if_pos (by simp), take_left' hlen, drop_left' hlen, writeSize, leValue_leBytes]
  rfl

theorem readSize_writeSize_of_lt {n : Nat} (h : n < 2 ^ 64) (rest : List (Byte α)) :
    readSize (writeSize n ++ rest) = some (n, rest) := by
  rw [readSize_writeSize, Nat.mod_eq_of_lt h]

/-! ## `double` fields -/

/-- The eight bytes of a `double` of value `x`. -/
def doubleBytes (x : α) : List (Byte α) :=
  [.part x 0, .part x 1, .part x 2, .part x 3, .part x 4, .part x 5, .part x 6, .part x 7]

variable [DecidableEq α]

/-- `memcpy` of a `double` from the front of the buffer. -/
def readDouble (bs : List (Byte α)) : Option (α × List (Byte α)) :=
  match bs with
  | .part x _ :: _ => if bs.take 8 = doubleBytes x then some (x, bs.drop 8) else none
  | _ => none

theorem readDouble_doubleBytes (x : α) (rest : List (Byte α)) :
    readDouble (doubleBytes x ++ rest) = some (x, rest) := by
  simp [readDouble, doubleBytes]

end Byte

open Byte

/-! ## The codec -/

section Codec

variable {α : Type}

/-- The four lanes of `prev_values`. -/
abbrev Lanes (α : Type) := α × α × α × α

/-- The scalar loop of `compress_doubles`: each element minus the one before it, the first minus
`prev_values[0]`. -/
def tailDeltas [Sub α] : α → List α → List α
  | _, [] => []
  | prev, x :: xs => (x - prev) :: tailDeltas x xs

/-- The deltas `compress_doubles` writes, from the lanes `prev`: while four elements remain, one
vector of four lane deltas, with the block as the next lanes; then the scalar loop from lane `0`. -/
def deltas [Sub α] : Lanes α → List α → List α
  | (p₀, p₁, p₂, p₃), a :: b :: c :: d :: rest =>
    (a - p₀) :: (b - p₁) :: (c - p₂) :: (d - p₃) :: deltas (a, b, c, d) rest
  | (p₀, _, _, _), tail => tailDeltas p₀ tail

/-- `utils::compress_doubles`. -/
def compressDoubles [Sub α] [Zero α] (data : List α) : List (Byte α) :=
  if data.isEmpty then []
  else writeSize data.length ++ (deltas (0, 0, 0, 0) data).flatMap doubleBytes

/-- The loop of `decompress_doubles`: `n` deltas, each added to the value rebuilt before it. -/
def readValues [Add α] [DecidableEq α] : Nat → α → List (Byte α) → Option (List α)
  | 0, _, _ => some []
  | n + 1, prev, ptr => do
    let (delta, ptr) ← readDouble ptr
    let value := prev + delta
    let rest ← readValues n value ptr
    pure (value :: rest)

/-- `utils::decompress_doubles`. -/
def decompressDoubles [Add α] [Zero α] [DecidableEq α] (compressed : List (Byte α)) :
    Option (List α) :=
  if compressed.isEmpty then some []
  else do
    let (numDoubles, ptr) ← readSize compressed
    readValues numDoubles 0 ptr

/-- The values the decoder rebuilds from deltas: each the previous value plus its delta. -/
def runningSums [Add α] : α → List α → List α
  | _, [] => []
  | prev, d :: ds => (prev + d) :: runningSums (prev + d) ds

@[simp] theorem length_tailDeltas [Sub α] (prev : α) (xs : List α) :
    (tailDeltas prev xs).length = xs.length := by
  induction xs generalizing prev <;> simp [tailDeltas, *]

theorem length_deltas [Sub α] (prev : Lanes α) (xs : List α) :
    (deltas prev xs).length = xs.length := by
  induction prev, xs using deltas.induct with
  | case1 p₀ p₁ p₂ p₃ a b c d rest ih => simp only [deltas.eq_1, length_cons, ih]
  | case2 p₀ p₁ p₂ p₃ tail h => rw [deltas.eq_2 _ _ _ _ _ h, length_tailDeltas]

@[simp] theorem length_flatMap_doubleBytes (ds : List α) :
    (ds.flatMap doubleBytes).length = 8 * ds.length := by
  induction ds with
  | nil => rfl
  | cons d ds ih =>
    rw [flatMap_cons, length_append, ih, length_cons]
    show 8 + _ = _
    omega

/-- The encoder writes eight bytes of count and eight per element. -/
theorem length_compressDoubles_le [Sub α] [Zero α] (xs : List α) :
    (compressDoubles xs).length ≤ 8 * (xs.length + 1) := by
  unfold compressDoubles
  split
  · exact Nat.zero_le _
  · simp only [length_append, length_writeSize, length_flatMap_doubleBytes, length_deltas]
    omega

/-- The first delta is the first element minus lane `0`, whether a vector or the scalar loop
writes it. -/
theorem deltas_cons [Sub α] (p₀ p₁ p₂ p₃ x : α) (xs : List α) :
    ∃ ds, deltas (p₀, p₁, p₂, p₃) (x :: xs) = (x - p₀) :: ds :=
  match xs with
  | _ :: _ :: _ :: _ => ⟨_, rfl⟩
  | [] | [_] | [_, _] => ⟨_, rfl⟩

theorem readValues_flatMap_doubleBytes [Add α] [DecidableEq α] (rest : List (Byte α)) :
    ∀ (ds : List α) (prev : α),
      readValues ds.length prev (ds.flatMap doubleBytes ++ rest) = some (runningSums prev ds)
  | [], _ => rfl
  | d :: ds, prev => by
    rw [length_cons, readValues, flatMap_cons, append_assoc, readDouble_doubleBytes]
    show (readValues ds.length (prev + d) _ >>= fun r => pure _) = _
    rw [readValues_flatMap_doubleBytes rest ds]
    rfl

/-- The decoder returns the running sums of the deltas the encoder wrote: the count and every
delta are read at the offsets they were written at. -/
theorem decompressDoubles_compressDoubles [Add α] [Sub α] [Zero α] [DecidableEq α]
    (xs : List α) (h : xs.length < 2 ^ 64) :
    decompressDoubles (compressDoubles xs) = some (runningSums 0 (deltas (0, 0, 0, 0) xs)) := by
  cases xs with
  | nil => rfl
  | cons x xs =>
    have hbytes := readValues_flatMap_doubleBytes [] (deltas (0, 0, 0, 0) (x :: xs)) 0
    rw [length_deltas, append_nil] at hbytes
    show decompressDoubles (writeSize (x :: xs).length ++ _) = _
    rw [decompressDoubles, if_neg (by simp [writeSize, leBytes]), readSize_writeSize_of_lt h]
    exact hbytes

example : decompressDoubles (compressDoubles [(8 : Int), 3]) = some [8, 3] :=
  decompressDoubles_compressDoubles [8, 3] (by decide)

end Codec

/-! ## Exact arithmetic -/

section Exact

variable {α : Type} [AddCommGroup α]

/-- The scalar loop's deltas summed from a value `s` past the first lane shift every element by
`s`. -/
theorem runningSums_tailDeltas_shift (s : α) :
    ∀ (prev : α) (xs : List α), runningSums (prev + s) (tailDeltas prev xs) = xs.map (· + s)
  | _, [] => rfl
  | prev, x :: xs => by
    have hstep : prev + s + (x - prev) = x + s := by
      rw [add_comm prev s, add_add_sub_cancel, add_comm]
    rw [tailDeltas, runningSums, hstep, runningSums_tailDeltas_shift s x xs, map_cons]

theorem map_add_eq_self_iff {w : α} : ∀ {xs : List α}, xs.map (· + w) = xs ↔ xs = [] ∨ w = 0
  | [] => by simp
  | x :: xs => by
    rw [map_cons, cons.injEq, add_right_eq_self]
    constructor
    · exact fun h => .inr h.1
    · rintro (h | rfl)
      · exact absurd h (cons_ne_nil _ _)
      · simp

/-- Every element of the whole blocks of four is zero, the sequence's last element apart: the
sequences the codec gives back unchanged. -/
def ZeroBlocks (xs : List α) : Prop :=
  ∀ (i : Nat) (hi : i < xs.length), i < 4 * (xs.length / 4) → i + 1 ≠ xs.length → xs[i] = 0

theorem zeroBlocks_of_length_lt {xs : List α} (h : xs.length < 4) : ZeroBlocks xs :=
  fun _ _ hblock _ => absurd hblock (by omega)

/-- A block of four followed by more is zero in its first three elements, and in its fourth when
anything follows. -/
theorem zeroBlocks_cons_four {a b c d : α} {rest : List α} :
    ZeroBlocks (a :: b :: c :: d :: rest) ↔
      a = 0 ∧ b = 0 ∧ c = 0 ∧ (rest = [] ∨ d = 0) ∧ ZeroBlocks rest := by
  unfold ZeroBlocks
  simp only [length_cons]
  constructor
  · intro h
    refine ⟨h 0 (by omega) (by omega) (by omega), h 1 (by omega) (by omega) (by omega),
      h 2 (by omega) (by omega) (by omega), ?_, fun i hi hblock hlast => ?_⟩
    · by_cases hrest : rest = []
      · exact .inl hrest
      · exact .inr (h 3 (by omega) (by omega) (by simpa [length_eq_zero] using hrest))
    · exact h (i + 4) (by omega) (by omega) (by omega)
  · rintro ⟨rfl, rfl, rfl, hd, hrest⟩ i hi hblock hlast
    match i, hi, hblock, hlast with
    | 0, _, _, _ | 1, _, _, _ | 2, _, _, _ => rfl
    | 3, _, _, hlast =>
      rcases hd with rfl | rfl
      · exact absurd rfl hlast
      · rfl
    | j + 4, hi, hblock, hlast => exact hrest j (by omega) (by omega) (by omega)

/-- With fewer than four elements `compress_doubles` runs only its scalar loop. -/
theorem deltas_of_length_lt (p₀ p₁ p₂ p₃ : α) {xs : List α} (h : xs.length < 4) :
    deltas (p₀, p₁, p₂, p₃) xs = tailDeltas p₀ xs :=
  match xs, h with
  | [], _ | [_], _ | [_, _], _ | [_, _, _], _ => rfl

/-- Past the whole blocks, the scalar tail comes back shifted by the running value. -/
theorem runningSums_deltas_of_length_lt (w : α) {xs : List α} (h : xs.length < 4) :
    runningSums w (deltas (0, 0, 0, w) xs) = xs ↔ (xs = [] ∨ w = 0) ∧ ZeroBlocks xs := by
  have hshift := runningSums_tailDeltas_shift w 0 xs
  rw [zero_add] at hshift
  rw [deltas_of_length_lt _ _ _ _ h, hshift, map_add_eq_self_iff,
    and_iff_left (zeroBlocks_of_length_lt h)]

/-- From the running value `w` and the lanes a block of three zeros and `w` leaves, the decoder
gives the rest back exactly when nothing follows or `w` is zero, and the rest's blocks are
zero. -/
theorem runningSums_deltas_eq_self_iff :
    ∀ (w : α) (xs : List α),
      runningSums w (deltas (0, 0, 0, w) xs) = xs ↔ (xs = [] ∨ w = 0) ∧ ZeroBlocks xs
  | w, a :: b :: c :: d :: rest => by
    rw [zeroBlocks_cons_four]
    simp only [deltas, runningSums, sub_zero, cons.injEq, reduceCtorEq, false_or]
    constructor
    · rintro ⟨hw, ha, hb, hc, hrest⟩
      obtain rfl : w = 0 := add_left_eq_self.mp hw
      obtain rfl : a = 0 := by simpa using ha
      obtain rfl : b = 0 := by simpa using hb
      obtain rfl : c = 0 := by simpa using hc
      simp only [add_zero, zero_add, sub_zero] at hrest
      exact ⟨rfl, rfl, rfl, rfl, (runningSums_deltas_eq_self_iff d rest).mp hrest⟩
    · rintro ⟨rfl, rfl, rfl, rfl, hrest⟩
      simp only [add_zero, zero_add, sub_zero, true_and]
      exact (runningSums_deltas_eq_self_iff d rest).mpr hrest
  | w, [] | w, [_] | w, [_, _] | w, [_, _, _] => runningSums_deltas_of_length_lt w (by simp)

/-- The codec gives a sequence back unchanged exactly when every element of its whole blocks of
four is zero, its last element apart. The decoder adds each lane delta to the value one position
back, so the blocks come back as running sums; the scalar tail comes back once the value before
it is right. -/
theorem decompressDoubles_compressDoubles_eq_self_iff [DecidableEq α] (xs : List α)
    (h : xs.length < 2 ^ 64) :
    decompressDoubles (compressDoubles xs) = some xs ↔ ZeroBlocks xs := by
  rw [decompressDoubles_compressDoubles xs h, Option.some.injEq, runningSums_deltas_eq_self_iff]
  exact and_iff_right (.inr rfl)

/-- A block of four zeros and then a scalar tail of two values of either sign. -/
theorem decompressDoubles_compressDoubles_eq_self_iff_tail :
    ([0, 0, 0, 0, 7, -1] : List Int).length < 2 ^ 64 ∧
      (decompressDoubles (compressDoubles ([0, 0, 0, 0, 7, -1] : List Int)) =
          some [0, 0, 0, 0, 7, -1] ↔ ZeroBlocks ([0, 0, 0, 0, 7, -1] : List Int)) :=
  ⟨by decide, decompressDoubles_compressDoubles_eq_self_iff _ (by decide)⟩

example : decompressDoubles (compressDoubles [(2 : Int), 5, 0, 1, 7]) = some [2, 7, 7, 8, 13] :=
  (decompressDoubles_compressDoubles _ (by decide)).trans rfl

/-- From four elements on, the first block's lane deltas are the elements themselves, and the
decoder sums them: it returns `x₀`, `x₀ + x₁`, `x₀ + x₁ + x₂`, `x₀ + x₁ + x₂ + x₃`, and then
the rest. -/
theorem decompressDoubles_compressDoubles_block [DecidableEq α] (a b c d : α) (rest : List α)
    (h : rest.length + 4 < 2 ^ 64) :
    ∃ tail, decompressDoubles (compressDoubles (a :: b :: c :: d :: rest)) =
      some (a :: (a + b) :: (a + b + c) :: (a + b + c + d) :: tail) := by
  rw [decompressDoubles_compressDoubles _ (by simpa using h)]
  simp only [deltas, runningSums, sub_zero, zero_add]
  exact ⟨_, rfl⟩

/-- A sequence of four or more elements comes back unchanged only if its first three elements
are zero. -/
theorem zeros_of_roundTrip [DecidableEq α] (a b c d : α) (rest : List α)
    (h : rest.length + 4 < 2 ^ 64)
    (hround : decompressDoubles (compressDoubles (a :: b :: c :: d :: rest)) =
      some (a :: b :: c :: d :: rest)) :
    a = 0 ∧ b = 0 ∧ c = 0 := by
  obtain ⟨tail, htail⟩ := decompressDoubles_compressDoubles_block a b c d rest h
  rw [htail] at hround
  simp only [Option.some.injEq, cons.injEq] at hround
  obtain ⟨-, hb, hc, hd, -⟩ := hround
  have ha : a = 0 := by simpa using hb
  subst ha
  have hb0 : b = 0 := by simpa using hc
  subst hb0
  exact ⟨rfl, rfl, by simpa using hd⟩

/-- Three zeros and then any value come back unchanged: the first block's sums are the value
itself. -/
theorem zeros_of_roundTrip_last_block :
    ([] : List Int).length + 4 < 2 ^ 64 ∧
      decompressDoubles (compressDoubles ([0, 0, 0, 5] : List Int)) = some [0, 0, 0, 5] ∧
      ((0 : Int) = 0 ∧ (0 : Int) = 0 ∧ (0 : Int) = 0) :=
  ⟨by decide, by decide, zeros_of_roundTrip 0 0 0 5 [] (by decide) (by decide)⟩

end Exact

/-- Four ones come back as `1, 2, 3, 4`: the encoder writes each lane's delta against the element
four positions back, and the decoder adds it to the value one position back. -/
theorem decompressDoubles_compressDoubles_ones :
    decompressDoubles (compressDoubles ([1, 1, 1, 1] : List Int)) = some [1, 2, 3, 4] := by
  decide

end FindataEngine
