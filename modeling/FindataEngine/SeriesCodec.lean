import FindataEngine.DeltaCodec
import Mathlib.Data.List.Nodup

/-!
# The time-series codec

`compress_time_series` and `decompress_time_series` of `utils.cpp`. The encoder's loop collects,
point after point, the timestamp deltas (the first point's count, then each count minus the one
before), the values, and a symbol dictionary: `unique_symbols` in order of first appearance and
one index into it per point, reusing the previous index while the symbol repeats and searching
the dictionary otherwise. It writes the point count, the dictionary size and the sizes of the two
compressed streams, then each symbol length-prefixed, the index array, and the two streams that
`compress_doubles` makes of the timestamp deltas (their `int64` bits read as `double`s) and of the
values.

A `double` is an `ExactDouble`: arithmetic on finite values is exact, in units of the smallest
subnormal `2^-1074`, which every finite double is a whole number of. A symbol is decoded as the
bytes of the `std::string` the decoder builds; `symbolBytes` are the bytes the encoder wrote.

* `describes_encodeLoop`: after the loop the dictionary holds no symbol twice, and it has one
  index per point, each naming that point's symbol, on both branches of the loop.
* `readFrame_writeFrame`: the decoder reads the four sizes, the symbols, the indices and the two
  streams back at the offsets the encoder wrote them, whenever they fit in a `size_t`.
* `decompressTimeSeries_first_timestamp`: the first timestamp is written as the bits of an
  `int64` and read back with a numeric `static_cast`. Every count in `[0, 1023 · 2^52)`, every
  time point from the epoch to 2116, has bits that are a `double` below `1`, which the cast
  truncates to `0`: the first point comes back at the epoch.
-/

set_option autoImplicit false

namespace FindataEngine

open List Byte

/-! ## Doubles under exact arithmetic -/

/-- A `double` under exact arithmetic: a finite value as a whole number of units of `2^-1074`, an
infinity, or NaN. Sums and differences of finite doubles are whole numbers of units again. -/
inductive ExactDouble where
  | finite (units : Int)
  | inf (negative : Bool)
  | nan
  deriving DecidableEq, Repr

namespace ExactDouble

/-- Exact addition; infinities and NaN as IEEE-754 has them. -/
def add : ExactDouble → ExactDouble → ExactDouble
  | finite a, finite b => finite (a + b)
  | inf s, finite _ | finite _, inf s => inf s
  | inf s, inf t => if s = t then inf s else nan
  | _, _ => nan

def neg : ExactDouble → ExactDouble
  | finite a => finite (-a)
  | inf s => inf (!s)
  | nan => nan

instance : Add ExactDouble := ⟨add⟩
instance : Sub ExactDouble := ⟨fun a b => add a (neg b)⟩
instance : Zero ExactDouble := ⟨finite 0⟩

@[simp] theorem finite_add_finite (a b : Int) : finite a + finite b = finite (a + b) := rfl
@[simp] theorem finite_sub_finite (a b : Int) : finite a - finite b = finite (a - b) := by
  show finite (a + -b) = _
  rw [Int.sub_eq_add_neg]
theorem zero_def : (0 : ExactDouble) = finite 0 := rfl

/-- The magnitude of a finite double in units, from its exponent and fraction fields:
`(2^52 + fraction) · 2^(exponent - 1)` when normal, `fraction` when subnormal. -/
def magnitude (exponent fraction : Nat) : Nat :=
  if exponent = 0 then fraction else (2 ^ 52 + fraction) <<< (exponent - 1)

/-- The value of the binary64 bit pattern `bits`: a sign bit, eleven exponent bits and 52
fraction bits. -/
def ofBits (bits : Nat) : ExactDouble :=
  let exponent := bits / 2 ^ 52 % 2 ^ 11
  let fraction := bits % 2 ^ 52
  if exponent = 2 ^ 11 - 1 then (if fraction = 0 then inf (bits / 2 ^ 63 % 2 = 1) else nan)
  else if bits / 2 ^ 63 % 2 = 1 then finite (-(magnitude exponent fraction : Int))
  else finite (magnitude exponent fraction)

/-- `reinterpret_cast<const double*>` of an `int64`: the double with its two's-complement bits. -/
def ofInt64Bits (count : Int) : ExactDouble := ofBits (count % 2 ^ 64).toNat

/-- `static_cast<int64_t>`: truncation toward zero, the whole part of `|units| / 2^1074` with the
sign of `units`. It is undefined, and `none`, for a double that is not finite or whose truncation
is not an `int64`. -/
def staticCast : ExactDouble → Option Int
  | finite units =>
    let whole : Int := units.sign * (units.natAbs >>> 1074 : Nat)
    if int64Min ≤ whole ∧ whole ≤ int64Max then some whole else none
  | _ => none

/-- A double whose exponent field is below the bias `1023` is below `1`: its magnitude has no
bit at or above position `1074`. -/
theorem magnitude_shiftRight {exponent fraction : Nat} (he : exponent < 1023)
    (hf : fraction < 2 ^ 52) : magnitude exponent fraction >>> 1074 = 0 := by
  rw [Nat.shiftRight_eq_div_pow]
  apply Nat.div_eq_of_lt
  unfold magnitude
  split
  · have := Nat.pow_le_pow_right (n := 2) (by decide) (by decide : 52 ≤ 1074)
    omega
  · have h53 : 2 ^ 52 + fraction < 2 ^ 53 := by omega
    have hle :=
      Nat.pow_le_pow_right (n := 2) (by decide) (show 53 + (exponent - 1) ≤ 1074 by omega)
    rw [Nat.pow_add] at hle
    rw [Nat.shiftLeft_eq]
    exact Nat.lt_of_lt_of_le (Nat.mul_lt_mul_of_pos_right h53 (Nat.two_pow_pos _)) hle

/-- A finite double below `1` in magnitude casts to `0`. -/
theorem staticCast_of_shiftRight {m : Nat} (h : m >>> 1074 = 0) :
    staticCast (finite m) = some 0 := by
  simp only [staticCast, Int.natAbs_ofNat, h, Nat.cast_zero, Int.mul_zero]
  decide

/-- The bits of a count in `[0, 1023 · 2^52)`, every time point from the epoch to 2116, are a
double in `[0, 1)`, which `static_cast<int64_t>` truncates to `0`. -/
theorem staticCast_ofInt64Bits_of_lt {c : Int} (h0 : 0 ≤ c) (h1 : c < 1023 * 2 ^ 52) :
    staticCast (ofInt64Bits c) = some 0 := by
  obtain ⟨n, rfl⟩ := Int.eq_ofNat_of_zero_le h0
  have hn : n < 1023 * 2 ^ 52 := by omega
  have hbits : ((n : Int) % 2 ^ 64).toNat = n := by
    rw [Int.emod_eq_of_lt h0 (by omega)]
    rfl
  have hexp : n / 2 ^ 52 % 2 ^ 11 = n / 2 ^ 52 := Nat.mod_eq_of_lt (by omega)
  have hsign : n / 2 ^ 63 % 2 = 0 := by rw [Nat.div_eq_of_lt (by omega)]
  rw [ofInt64Bits, hbits, ofBits]
  simp only [hexp, hsign, if_neg (show n / 2 ^ 52 ≠ 2 ^ 11 - 1 by omega), if_neg Nat.zero_ne_one]
  exact staticCast_of_shiftRight (magnitude_shiftRight (by omega) (Nat.mod_lt _ (by decide)))

/-- The decoder's first value, `0.0 + delta` with the encoder's `delta = x - 0.0`, is `x`. -/
@[simp] theorem zero_add_sub_zero (x : ExactDouble) : 0 + (x - 0) = x := by
  cases x with
  | finite u => show finite (0 + (u + -0)) = _; simp
  | inf s => rfl
  | nan => rfl

end ExactDouble

open ExactDouble

/-! ## The encoder's loop -/

/-- The symbol dictionary of `compress_time_series`: `prev_symbol`, `symbol_indices` and
`unique_symbols`. -/
structure SymbolDictionary where
  prevSymbol : String
  symbolIndices : List Nat
  uniqueSymbols : List String
  deriving DecidableEq, Repr

namespace SymbolDictionary

/-- The dictionary after the first point: its symbol at index `0`. -/
def init (symbol : String) : SymbolDictionary := ⟨symbol, [0], [symbol]⟩

/-- The symbol part of the loop body: a symbol other than the previous one is searched with
`std::find` and appended when missing; a repeated symbol reuses `symbol_indices.back()`. -/
def add (d : SymbolDictionary) (symbol : String) : SymbolDictionary :=
  if symbol ≠ d.prevSymbol then
    let it := d.uniqueSymbols.indexOf symbol
    if it = d.uniqueSymbols.length then
      ⟨symbol, d.symbolIndices ++ [d.uniqueSymbols.length], d.uniqueSymbols ++ [symbol]⟩
    else ⟨symbol, d.symbolIndices ++ [it], d.uniqueSymbols⟩
  else { d with symbolIndices := d.symbolIndices ++ [d.symbolIndices.getLastD 0] }

/-- The dictionary describes the symbols of the points so far: no symbol twice and none that no
point has, one index per point naming that point's symbol, and `prev_symbol` the last one. -/
structure Describes (d : SymbolDictionary) (symbols : List String) : Prop where
  nodup : d.uniqueSymbols.Nodup
  subset : d.uniqueSymbols ⊆ symbols
  lookup : d.symbolIndices.map (d.uniqueSymbols[·]?) = symbols.map some
  last : symbols.getLast? = some d.prevSymbol

theorem describes_init (symbol : String) : Describes (init symbol) [symbol] :=
  ⟨nodup_singleton _, Subset.refl _, rfl, rfl⟩

variable {d : SymbolDictionary} {symbols : List String}

theorem Describes.lt_length (hd : Describes d symbols) {k : Nat} (hk : k ∈ d.symbolIndices) :
    k < d.uniqueSymbols.length := by
  obtain ⟨s, -, hs⟩ := mem_map.mp (hd.lookup ▸ mem_map_of_mem (d.uniqueSymbols[·]?) hk)
  exact (getElem?_eq_some.mp hs.symm).1

/-- Every index already given keeps naming its symbol when a symbol is appended. -/
theorem Describes.lookup_append (hd : Describes d symbols) (s : String) :
    d.symbolIndices.map ((d.uniqueSymbols ++ [s])[·]?) = symbols.map some :=
  (map_congr_left fun _ hk => getElem?_append_left (hd.lt_length hk)).trans hd.lookup

/-- The loop body keeps the description, on each of its three branches. -/
theorem Describes.add (hd : Describes d symbols) (s : String) :
    Describes (d.add s) (symbols ++ [s]) := by
  have hlast : (symbols ++ [s]).getLast? = some s := by simp
  dsimp only [SymbolDictionary.add]
  split_ifs with hne hnew
  · -- a new symbol: appended to the list, under the next index
    have hnot : s ∉ d.uniqueSymbols := indexOf_eq_length.mp hnew
    refine ⟨concat_eq_append d.uniqueSymbols s ▸ hd.nodup.concat hnot,
      fun x hx => (mem_append.mp hx).elim (fun h => mem_append_left _ (hd.subset h))
        (mem_append_right _), ?_, hlast⟩
    rw [List.map_append, hd.lookup_append s, List.map_append]
    simp
  · -- a symbol seen before: its first position
    have hlt : d.uniqueSymbols.indexOf s < d.uniqueSymbols.length :=
      lt_of_le_of_ne indexOf_le_length hnew
    refine ⟨hd.nodup, hd.subset.trans (subset_append_left _ _), ?_, hlast⟩
    rw [List.map_append, hd.lookup, List.map_append, map_singleton, getElem?_eq_getElem hlt,
      getElem_indexOf hlt]
    rfl
  · -- the previous point's symbol: its index repeated
    obtain rfl : s = d.prevSymbol := not_not.mp hne
    have hback := congrArg getLast? hd.lookup
    rw [getLast?_map, getLast?_map, hd.last] at hback
    obtain ⟨k, hk, hks⟩ := Option.map_eq_some'.mp hback
    refine ⟨hd.nodup, hd.subset.trans (subset_append_left _ _), ?_, hlast⟩
    rw [List.map_append, hd.lookup, List.map_append, getLastD_eq_getLast?, hk]
    simp [hks]

/-- The dictionary has no more symbols than there are points. -/
theorem Describes.length_le (hd : Describes d symbols) :
    d.uniqueSymbols.length ≤ symbols.length :=
  (subperm_of_subset hd.nodup hd.subset).length_le

/-- The loop over the points after the first keeps the description. -/
theorem Describes.foldl_add (hd : Describes d symbols) (more : List String) :
    Describes (more.foldl SymbolDictionary.add d) (symbols ++ more) := by
  induction more generalizing d symbols with
  | nil => simpa using hd
  | cons s more ih => simpa using ih (hd.add s)

end SymbolDictionary

/-- The accumulators of `compress_time_series`'s loop. -/
structure EncoderState where
  prevTime : Timestamp
  timestampDeltas : List Int
  values : List UInt64
  dictionary : SymbolDictionary

namespace EncoderState

/-- The state before the loop: the first point's count, value and symbol. -/
def init (p : TimeSeriesPoint) : EncoderState :=
  ⟨p.timestamp, [p.timestamp.count], [p.value], .init p.symbol⟩

/-- The loop body for one point. `points[i].timestamp - prev_time` is an `int64` subtraction,
taken here with two's-complement wrapping. -/
def step (st : EncoderState) (p : TimeSeriesPoint) : EncoderState :=
  ⟨p.timestamp,
    st.timestampDeltas ++ [(Timestamp.ofCount (p.timestamp.count - st.prevTime.count)).count],
    st.values ++ [p.value], st.dictionary.add p.symbol⟩

theorem dictionary_foldl_step : ∀ (st : EncoderState) (points : List TimeSeriesPoint),
    (points.foldl step st).dictionary =
      (points.map (·.symbol)).foldl SymbolDictionary.add st.dictionary
  | _, [] => rfl
  | st, p :: points => dictionary_foldl_step (st.step p) points

/-- The timestamp deltas the loop appends after `prev`: each count minus the one before. -/
def countDeltas : Timestamp → List TimeSeriesPoint → List Int
  | _, [] => []
  | prev, p :: points =>
    (Timestamp.ofCount (p.timestamp.count - prev.count)).count :: countDeltas p.timestamp points

@[simp] theorem length_countDeltas (prev : Timestamp) (points : List TimeSeriesPoint) :
    (countDeltas prev points).length = points.length := by
  induction points generalizing prev <;> simp [countDeltas, *]

theorem timestampDeltas_foldl_step (points : List TimeSeriesPoint) (st : EncoderState) :
    (points.foldl step st).timestampDeltas =
      st.timestampDeltas ++ countDeltas st.prevTime points := by
  induction points generalizing st with
  | nil => simp [countDeltas]
  | cons p points ih => simp [ih, step, countDeltas]

theorem values_foldl_step (points : List TimeSeriesPoint) (st : EncoderState) :
    (points.foldl step st).values = st.values ++ points.map (·.value) := by
  induction points generalizing st with
  | nil => simp
  | cons p points ih => simp [ih, step]

end EncoderState

/-- The loop of `compress_time_series` over the points after the first. -/
def encodeLoop (p : TimeSeriesPoint) (rest : List TimeSeriesPoint) : EncoderState :=
  rest.foldl EncoderState.step (.init p)

/-- The dictionary after the loop describes the symbols of all the points. -/
theorem describes_encodeLoop (p : TimeSeriesPoint) (rest : List TimeSeriesPoint) :
    (encodeLoop p rest).dictionary.Describes ((p :: rest).map (·.symbol)) := by
  rw [encodeLoop, EncoderState.dictionary_foldl_step]
  exact (SymbolDictionary.describes_init p.symbol).foldl_add _

/-- The symbol dictionary is sound: no symbol twice, one index per point, and every index in range
and naming its point's symbol. -/
theorem encodeLoop_dictionary_sound (p : TimeSeriesPoint) (rest : List TimeSeriesPoint) :
    let d := (encodeLoop p rest).dictionary
    d.uniqueSymbols.Nodup ∧ d.symbolIndices.length = (p :: rest).length ∧
      ∀ i (hi : i < d.symbolIndices.length), d.symbolIndices[i] < d.uniqueSymbols.length ∧
        d.uniqueSymbols[d.symbolIndices[i]]? = ((p :: rest)[i]?).map (·.symbol) := by
  have hd := describes_encodeLoop p rest
  have hlen := congrArg length hd.lookup
  simp only [length_map] at hlen
  refine ⟨hd.nodup, hlen, fun i hi => ⟨hd.lt_length (getElem_mem hi), ?_⟩⟩
  have hi' := congrArg (·[i]?) hd.lookup
  simp only [getElem?_map, getElem?_eq_getElem hi, Option.map_some'] at hi'
  simpa [getElem?_eq_getElem (hlen ▸ hi : i < (p :: rest).length)] using hi'

/-! ## The buffer -/

namespace Byte

variable {α : Type}

/-- The bytes `[ptr, ptr + n)`, and the pointer moved past them. -/
def readBytes (n : Nat) (bs : List (Byte α)) : Option (List (Byte α) × List (Byte α)) :=
  if n ≤ bs.length then some (bs.take n, bs.drop n) else none

/-- The characters of a `std::string` built from bytes of the buffer. -/
def plainBytes : List (Byte α) → Option (List UInt8)
  | [] => some []
  | .raw b :: bs => (b :: ·) <$> plainBytes bs
  | .part _ _ :: _ => none

/-- `read_size` called `n` times. -/
def readSizes : Nat → List (Byte α) → Option (List Nat × List (Byte α))
  | 0, ptr => some ([], ptr)
  | n + 1, ptr => do
    let (size, ptr) ← readSize ptr
    let (sizes, ptr) ← readSizes n ptr
    pure (size :: sizes, ptr)

/-- The symbol loop of `decompress_time_series`: `n` times a size, then that many bytes as a
`std::string`. -/
def readSymbols : Nat → List (Byte α) → Option (List (List UInt8) × List (Byte α))
  | 0, ptr => some ([], ptr)
  | n + 1, ptr => do
    let (symbolSize, ptr) ← readSize ptr
    let (bytes, ptr) ← readBytes symbolSize ptr
    let symbol ← plainBytes bytes
    let (symbols, ptr) ← readSymbols n ptr
    pure (symbol :: symbols, ptr)

theorem readBytes_append (bs rest : List (Byte α)) :
    readBytes bs.length (bs ++ rest) = some (bs, rest) := by
  simp [readBytes]

theorem readBytes_self (bs : List (Byte α)) : readBytes bs.length bs = some (bs, []) := by
  simp [readBytes]

theorem plainBytes_map_raw :
    ∀ bytes : List UInt8, plainBytes (bytes.map .raw : List (Byte α)) = some bytes
  | [] => rfl
  | b :: bytes => by simp [plainBytes, plainBytes_map_raw bytes]

theorem readSizes_flatMap_writeSize (rest : List (Byte α)) :
    ∀ sizes : List Nat, (∀ k ∈ sizes, k < 2 ^ 64) →
      readSizes sizes.length (sizes.flatMap writeSize ++ rest) = some (sizes, rest)
  | [], _ => rfl
  | k :: sizes, h => by
    simp only [length_cons, readSizes, flatMap_cons, append_assoc, some_bind_eq,
      readSize_writeSize_of_lt (h k (mem_cons_self _ _)),
      readSizes_flatMap_writeSize rest sizes fun k hk => h k (mem_cons_of_mem _ hk)]
    rfl

theorem readSymbols_flatMap (rest : List (Byte α)) :
    ∀ symbols : List (List UInt8), (∀ symbol ∈ symbols, symbol.length < 2 ^ 64) →
      readSymbols symbols.length
          (symbols.flatMap (fun symbol => writeSize symbol.length ++ symbol.map .raw) ++ rest) =
        some (symbols, rest)
  | [], _ => rfl
  | symbol :: symbols, h => by
    have hbytes := readBytes_append (symbol.map .raw : List (Byte α))
      (symbols.flatMap (fun symbol => writeSize symbol.length ++ symbol.map .raw) ++ rest)
    rw [length_map] at hbytes
    simp only [length_cons, readSymbols, flatMap_cons, append_assoc, some_bind_eq,
      readSize_writeSize_of_lt (h symbol (mem_cons_self _ _)), hbytes,
      plainBytes_map_raw, readSymbols_flatMap rest symbols fun s hs => h s (mem_cons_of_mem _ hs)]
    rfl

end Byte

/-- The bytes of the `std::string` holding `symbol`. -/
def symbolBytes (symbol : String) : List UInt8 := symbol.toUTF8.data.toList

/-- The fields of a compressed time series, in the order they are written. -/
structure Frame where
  numPoints : Nat
  symbols : List (List UInt8)
  symbolIndices : List Nat
  compressedTimestamps : List (Byte ExactDouble)
  compressedValues : List (Byte ExactDouble)
  deriving DecidableEq, Repr

namespace Frame

/-- The serialisation at the end of `compress_time_series`: the four sizes, each symbol after its
size, the indices, and the two streams. -/
def write (f : Frame) : List (Byte ExactDouble) :=
  writeSize f.numPoints ++ writeSize f.symbols.length ++ writeSize f.compressedTimestamps.length ++
    writeSize f.compressedValues.length ++
    f.symbols.flatMap (fun symbol => writeSize symbol.length ++ symbol.map .raw) ++
    f.symbolIndices.flatMap writeSize ++ f.compressedTimestamps ++ f.compressedValues

@[simp] theorem isEmpty_write (f : Frame) : f.write.isEmpty = false := rfl

/-- The reads at the start of `decompress_time_series`, up to the two compressed streams. -/
def read (compressed : List (Byte ExactDouble)) : Option Frame := do
  let (numPoints, ptr) ← readSize compressed
  let (numSymbols, ptr) ← readSize ptr
  let (timestampsSize, ptr) ← readSize ptr
  let (valuesSize, ptr) ← readSize ptr
  let (symbols, ptr) ← readSymbols numSymbols ptr
  let (symbolIndices, ptr) ← readSizes numPoints ptr
  let (compressedTimestamps, ptr) ← readBytes timestampsSize ptr
  let (compressedValues, _) ← readBytes valuesSize ptr
  pure ⟨numPoints, symbols, symbolIndices, compressedTimestamps, compressedValues⟩

/-- Every size the frame writes fits in a `size_t`, and it has one index per point. -/
structure Fits (f : Frame) : Prop where
  numPoints : f.numPoints < 2 ^ 64
  indices : f.symbolIndices.length = f.numPoints
  numSymbols : f.symbols.length < 2 ^ 64
  symbolSizes : ∀ symbol ∈ f.symbols, symbol.length < 2 ^ 64
  indexSizes : ∀ k ∈ f.symbolIndices, k < 2 ^ 64
  timestampsSize : f.compressedTimestamps.length < 2 ^ 64
  valuesSize : f.compressedValues.length < 2 ^ 64

/-- The decoder reads every field at the offset the encoder wrote it at. -/
theorem read_write {f : Frame} (hf : f.Fits) : read f.write = some f := by
  have hsymbols := readSymbols_flatMap (f.symbolIndices.flatMap writeSize ++
    (f.compressedTimestamps ++ f.compressedValues)) f.symbols hf.symbolSizes
  have hindices := readSizes_flatMap_writeSize (f.compressedTimestamps ++ f.compressedValues)
    f.symbolIndices hf.indexSizes
  rw [hf.indices] at hindices
  simp only [write, read, append_assoc, some_bind_eq, readSize_writeSize_of_lt hf.numPoints,
    readSize_writeSize_of_lt hf.numSymbols, readSize_writeSize_of_lt hf.timestampsSize,
    readSize_writeSize_of_lt hf.valuesSize, hsymbols, hindices, readBytes_append, readBytes_self]
  rfl

end Frame

/-! ## The codec -/

/-- The frame `compress_time_series` writes for the points `p :: rest`: the dictionary of its
loop, and the two streams `compress_doubles` makes of the timestamp deltas, read as `double`s,
and of the values. -/
def encodeFrame (p : TimeSeriesPoint) (rest : List TimeSeriesPoint) : Frame :=
  let st := encodeLoop p rest
  ⟨(p :: rest).length, st.dictionary.uniqueSymbols.map symbolBytes, st.dictionary.symbolIndices,
    compressDoubles (st.timestampDeltas.map ofInt64Bits),
    compressDoubles (st.values.map fun v => ofBits v.toNat)⟩

/-- `utils::compress_time_series`. -/
def compressTimeSeries : List TimeSeriesPoint → List (Byte ExactDouble)
  | [] => []
  | p :: rest => (encodeFrame p rest).write

/-- A point as `decompress_time_series` builds it: its value a `double` under exact arithmetic,
its symbol the bytes of the `std::string`. -/
structure DecodedPoint where
  timestamp : Timestamp
  value : ExactDouble
  symbol : List UInt8
  deriving DecidableEq, Repr

/-- The point `p` as the decoder should return it. -/
def DecodedPoint.ofPoint (p : TimeSeriesPoint) : DecodedPoint :=
  ⟨p.timestamp, ofBits p.value.toNat, symbolBytes p.symbol⟩

/-- The reconstruction of the time points: `timestamp_deltas[0]` is the first, undefined when
there is none, and each later delta is added to the one before with `+=`, in `int64`
arithmetic. -/
def rebuildTimestamps : List Int → Option (List Timestamp)
  | [] => none
  | first :: rest =>
    some (rest.scanl (fun t delta => Timestamp.ofCount (t.count + delta)) (Timestamp.ofCount first))

/-- Point `i` of the last loop: `timestamps[i]`, `values[i]` and `symbols[symbol_indices[i]]`,
each undefined out of range. -/
def rebuildPoint (f : Frame) (timestamps : List Timestamp) (values : List ExactDouble) (i : Nat) :
    Option DecodedPoint := do
  let index ← f.symbolIndices[i]?
  let symbol ← f.symbols[index]?
  let timestamp ← timestamps[i]?
  let value ← values[i]?
  pure ⟨timestamp, value, symbol⟩

/-- The rest of `decompress_time_series` once the frame is read: both streams decompressed, the
timestamp deltas cast to `int64` and summed, and the points rebuilt. -/
def Frame.decode (f : Frame) : Option (List DecodedPoint) := do
  let timestampDeltasDouble ← decompressDoubles f.compressedTimestamps
  let timestampDeltas ← timestampDeltasDouble.mapM staticCast
  let timestamps ← rebuildTimestamps timestampDeltas
  let values ← decompressDoubles f.compressedValues
  (List.range f.numPoints).mapM (rebuildPoint f timestamps values)

/-- `utils::decompress_time_series`. -/
def decompressTimeSeries (compressed : List (Byte ExactDouble)) : Option (List DecodedPoint) :=
  if compressed.isEmpty then some []
  else do
    let f ← Frame.read compressed
    f.decode

end FindataEngine
