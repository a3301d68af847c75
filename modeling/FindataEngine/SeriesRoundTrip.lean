import FindataEngine.SeriesCodec

/-!
# What the time-series codec gives back

`decompress_time_series(compress_time_series(points))` for every non-empty list of points whose
sizes fit in a `size_t` (fewer than `2^60` points, each symbol shorter than `2^64` bytes).

* `decompressTimeSeries_compressTimeSeries`: the decoder reads the frame the encoder wrote, so
  the result is the frame's decoding.
* `decompressTimeSeries_symbols`: whenever the decoder returns, it returns one point per point
  written, each with its point's symbol: the dictionary and the index array survive.
* `decompressTimeSeries_first_timestamp`: the encoder hands `compress_doubles` the `int64` bits of
  the timestamp deltas as `double`s, and the decoder casts the decoded `double`s back numerically.
  A first time point anywhere from the epoch to 2116 comes back as the epoch.
-/

set_option autoImplicit false

namespace FindataEngine

open List Byte ExactDouble

/-- A successful `mapM` relates every element to the result at its position. -/
theorem mapM_eq_some_getElem? {α β : Type} {f : α → Option β} :
    ∀ {l : List α} {out : List β}, l.mapM f = some out →
      out.length = l.length ∧ ∀ i : Nat, (l[i]?).bind f = out[i]?
  | [], out, h => by
    cases h
    exact ⟨rfl, fun _ => rfl⟩
  | a :: l, out, h => by
    rw [mapM_cons] at h
    obtain ⟨b, hb, h⟩ := Option.bind_eq_some.mp h
    obtain ⟨bs, hbs, h⟩ := Option.bind_eq_some.mp h
    cases h
    obtain ⟨hlen, hget⟩ := mapM_eq_some_getElem? hbs
    refine ⟨congrArg (· + 1) hlen, fun i => ?_⟩
    cases i with
    | zero => rw [getElem?_cons_zero, getElem?_cons_zero]; exact hb
    | succ i => rw [getElem?_cons_succ, getElem?_cons_succ]; exact hget i

/-- A successful `mapM` begins with the image of the first element. -/
theorem head?_of_mapM_eq_some {α β : Type} {f : α → Option β} {l : List α} {out : List β}
    (h : l.mapM f = some out) : out.head? = l.head?.bind f := by
  rw [head?_eq_getElem?, head?_eq_getElem?, (mapM_eq_some_getElem? h).2 0]

theorem head?_rebuildTimestamps {deltas : List Int} {timestamps : List Timestamp}
    (h : rebuildTimestamps deltas = some timestamps) :
    timestamps.head? = deltas.head?.map Timestamp.ofCount := by
  cases deltas with
  | nil => cases h
  | cons first rest =>
    cases h
    cases rest <;> rfl

/-! ## The encoder's frame -/

section Frame

variable {p : TimeSeriesPoint} {rest : List TimeSeriesPoint}

theorem timestampDeltas_encodeLoop (p : TimeSeriesPoint) (rest : List TimeSeriesPoint) :
    (encodeLoop p rest).timestampDeltas =
      p.timestamp.count :: EncoderState.countDeltas p.timestamp rest :=
  EncoderState.timestampDeltas_foldl_step rest _

theorem length_timestampDeltas_encodeLoop (p : TimeSeriesPoint) (rest : List TimeSeriesPoint) :
    (encodeLoop p rest).timestampDeltas.length = (p :: rest).length := by
  simp [timestampDeltas_encodeLoop]

/-- The frame's sizes fit in a `size_t` when there are fewer than `2^60` points and every symbol
is shorter than `2^64` bytes. -/
theorem encodeFrame_fits (hlen : (p :: rest).length < 2 ^ 60)
    (hsym : ∀ q ∈ p :: rest, (symbolBytes q.symbol).length < 2 ^ 64) :
    (encodeFrame p rest).Fits := by
  have hd := describes_encodeLoop p rest
  have hindices : (encodeLoop p rest).dictionary.symbolIndices.length = (p :: rest).length := by
    simpa using congrArg length hd.lookup
  have hunique := hd.length_le
  have hvalues : (encodeLoop p rest).values.length = (p :: rest).length := by
    simp [encodeLoop, EncoderState.values_foldl_step, EncoderState.init]
  have hts := length_compressDoubles_le ((encodeLoop p rest).timestampDeltas.map ofInt64Bits)
  have hvs := length_compressDoubles_le ((encodeLoop p rest).values.map fun v => ofBits v.toNat)
  rw [length_map, length_timestampDeltas_encodeLoop] at hts
  rw [length_map, hvalues] at hvs
  rw [length_map] at hunique
  have hn : (p :: rest).length < 2 ^ 64 := by omega
  refine ⟨hn, hindices, by simp only [encodeFrame, length_map]; omega, ?_,
    fun k hk => by have := hd.lt_length hk; omega, by simp only [encodeFrame]; omega,
    by simp only [encodeFrame]; omega⟩
  intro symbol hs
  simp only [encodeFrame, mem_map] at hs
  obtain ⟨s, hs, rfl⟩ := hs
  obtain ⟨q, hq, rfl⟩ := mem_map.mp (hd.subset hs)
  exact hsym q hq

/-- The timestamp stream decodes, first of all, to the bits of the first count read as a
`double`. -/
theorem head?_decompressDoubles_timestamps (hlen : (p :: rest).length < 2 ^ 60)
    {timestampDeltasDouble : List ExactDouble}
    (h : decompressDoubles (encodeFrame p rest).compressedTimestamps = some timestampDeltasDouble) :
    timestampDeltasDouble.head? = some (ofInt64Bits p.timestamp.count) := by
  have hlen' : ((encodeLoop p rest).timestampDeltas.map ofInt64Bits).length < 2 ^ 64 := by
    rw [length_map, length_timestampDeltas_encodeLoop]
    omega
  change decompressDoubles (compressDoubles _) = _ at h
  rw [decompressDoubles_compressDoubles _ hlen', timestampDeltas_encodeLoop, map_cons] at h
  obtain ⟨ds, hds⟩ := deltas_cons 0 0 0 0 (ofInt64Bits p.timestamp.count)
    ((EncoderState.countDeltas p.timestamp rest).map ofInt64Bits)
  rw [hds] at h
  cases h
  simp [runningSums]

/-- The decoder reads back the frame the encoder wrote. -/
theorem decompressTimeSeries_compressTimeSeries (hlen : (p :: rest).length < 2 ^ 60)
    (hsym : ∀ q ∈ p :: rest, (symbolBytes q.symbol).length < 2 ^ 64) :
    decompressTimeSeries (compressTimeSeries (p :: rest)) = (encodeFrame p rest).decode := by
  rw [compressTimeSeries, decompressTimeSeries, Frame.isEmpty_write, if_neg Bool.false_ne_true,
    Frame.read_write (encodeFrame_fits hlen hsym)]
  rfl

end Frame

/-! ## Decoding a frame -/

namespace Frame

variable {f : Frame} {out : List DecodedPoint}

/-- What a decoding that returned has done: decompressed the timestamp stream, cast every delta,
rebuilt the time points, decompressed the value stream, and rebuilt every point. -/
theorem decode_eq_some (h : f.decode = some out) :
    ∃ timestampDeltasDouble timestampDeltas timestamps values,
      decompressDoubles f.compressedTimestamps = some timestampDeltasDouble ∧
      timestampDeltasDouble.mapM staticCast = some timestampDeltas ∧
      rebuildTimestamps timestampDeltas = some timestamps ∧
      decompressDoubles f.compressedValues = some values ∧
      (List.range f.numPoints).mapM (rebuildPoint f timestamps values) = some out := by
  simp only [decode, Option.bind_eq_bind, Option.bind_eq_some] at h
  obtain ⟨tdd, h1, td, h2, ts, h3, vs, h4, h5⟩ := h
  exact ⟨tdd, td, ts, vs, h1, h2, h3, h4, h5⟩

/-- The decoded points, position by position. -/
theorem decode_getElem? (h : f.decode = some out) :
    ∃ timestamps values, out.length = f.numPoints ∧
      ∀ i < f.numPoints, rebuildPoint f timestamps values i = out[i]? := by
  obtain ⟨-, -, ts, vs, -, -, -, -, h⟩ := decode_eq_some h
  obtain ⟨hlen, hget⟩ := mapM_eq_some_getElem? h
  refine ⟨ts, vs, by simpa using hlen, fun i hi => ?_⟩
  simpa [getElem?_range hi] using hget i

end Frame

theorem rebuildPoint_symbol {f : Frame} {timestamps : List Timestamp} {values : List ExactDouble}
    {i : Nat} {q : DecodedPoint} (h : rebuildPoint f timestamps values i = some q) :
    ∃ k, f.symbolIndices[i]? = some k ∧ f.symbols[k]? = some q.symbol := by
  simp only [rebuildPoint, Option.bind_eq_bind, Option.bind_eq_some] at h
  obtain ⟨k, hk, s, hs, t, -, v, -, h⟩ := h
  cases h
  exact ⟨k, hk, hs⟩

theorem rebuildPoint_timestamp {f : Frame} {timestamps : List Timestamp}
    {values : List ExactDouble} {i : Nat} {q : DecodedPoint}
    (h : rebuildPoint f timestamps values i = some q) : timestamps[i]? = some q.timestamp := by
  simp only [rebuildPoint, Option.bind_eq_bind, Option.bind_eq_some] at h
  obtain ⟨k, -, s, -, t, ht, v, -, h⟩ := h
  cases h
  exact ht

/-! ## The codec -/

section Codec

variable {p : TimeSeriesPoint} {rest : List TimeSeriesPoint}

/-- Whenever the decoder returns, it returns one point per point written, each with the bytes of
its point's symbol. -/
theorem decompressTimeSeries_symbols (hlen : (p :: rest).length < 2 ^ 60)
    (hsym : ∀ q ∈ p :: rest, (symbolBytes q.symbol).length < 2 ^ 64) {out : List DecodedPoint}
    (h : decompressTimeSeries (compressTimeSeries (p :: rest)) = some out) :
    out.map (·.symbol) = (p :: rest).map fun q => symbolBytes q.symbol := by
  rw [decompressTimeSeries_compressTimeSeries hlen hsym] at h
  obtain ⟨ts, vs, hlength, hget⟩ := Frame.decode_getElem? h
  have hout : out.length = (p :: rest).length := hlength
  have hd := describes_encodeLoop p rest
  apply ext_getElem?
  intro i
  by_cases hi : i < (p :: rest).length
  · have hq : out[i]? = some out[i] := getElem?_eq_getElem (hout ▸ hi)
    obtain ⟨k, hk, hs⟩ := rebuildPoint_symbol ((hget i hi).trans hq)
    change (encodeLoop p rest).dictionary.symbolIndices[i]? = some k at hk
    change ((encodeLoop p rest).dictionary.uniqueSymbols.map symbolBytes)[k]? = _ at hs
    have hlookup := congrArg (·[i]?) hd.lookup
    simp only [getElem?_map, getElem?_eq_getElem hi, hk, Option.map_some', Option.some_inj]
      at hlookup
    simp only [getElem?_map, hlookup, Option.map_some', Option.some_inj] at hs
    simp only [getElem?_map, hq, getElem?_eq_getElem hi, Option.map_some', hs]
  · rw [getElem?_eq_none (by simp only [length_map]; omega),
      getElem?_eq_none (by simp only [length_map]; omega)]

/-- Two points of two symbols at the epoch. -/
def twoSymbols : List TimeSeriesPoint := [⟨.ofCount 0, 0, "FB"⟩, ⟨.ofCount 0, 0, "GOOG"⟩]

set_option maxRecDepth 8000 in
/-- The decoder returns both points of `twoSymbols`, at the epoch with value `0`, with the bytes
of `FB` and then of `GOOG`. -/
theorem decompressTimeSeries_symbols_twoSymbols :
    twoSymbols.length < 2 ^ 60 ∧
      (∀ q ∈ twoSymbols, (symbolBytes q.symbol).length < 2 ^ 64) ∧
      decompressTimeSeries (compressTimeSeries twoSymbols) =
        some (twoSymbols.map fun q => ⟨.ofCount 0, .finite 0, symbolBytes q.symbol⟩) ∧
      (twoSymbols.map fun q =>
        (⟨.ofCount 0, .finite 0, symbolBytes q.symbol⟩ : DecodedPoint)).map (·.symbol) =
          twoSymbols.map fun q => symbolBytes q.symbol := by
  have hlen : twoSymbols.length < 2 ^ 60 := by decide
  have hsym : ∀ q ∈ twoSymbols, (symbolBytes q.symbol).length < 2 ^ 64 := by decide
  have h : decompressTimeSeries (compressTimeSeries twoSymbols) =
      some (twoSymbols.map fun q => ⟨.ofCount 0, .finite 0, symbolBytes q.symbol⟩) := by
    decide
  exact ⟨hlen, hsym, h, decompressTimeSeries_symbols hlen hsym h⟩

/-- Whenever the decoder returns, its first time point is the first count's bits, read as a
`double` and cast back to `int64`. -/
theorem decompressTimeSeries_head_timestamp (hlen : (p :: rest).length < 2 ^ 60)
    (hsym : ∀ q ∈ p :: rest, (symbolBytes q.symbol).length < 2 ^ 64) {out : List DecodedPoint}
    (h : decompressTimeSeries (compressTimeSeries (p :: rest)) = some out) :
    out.head?.map (·.timestamp) =
      (staticCast (ofInt64Bits p.timestamp.count)).map Timestamp.ofCount := by
  rw [decompressTimeSeries_compressTimeSeries hlen hsym] at h
  obtain ⟨tdd, td, ts, vs, htdd, htd, hts, -, hout⟩ := Frame.decode_eq_some h
  obtain ⟨hlength, hget⟩ := mapM_eq_some_getElem? hout
  have hpoint := hget 0
  rw [getElem?_range (by simp [encodeFrame]), Option.some_bind,
    getElem?_eq_getElem (by simp [hlength, encodeFrame])] at hpoint
  rw [head?_eq_getElem?, getElem?_eq_getElem (by simp [hlength, encodeFrame]), Option.map_some',
    ← rebuildPoint_timestamp hpoint, ← head?_eq_getElem?, head?_rebuildTimestamps hts,
    head?_of_mapM_eq_some htd, head?_decompressDoubles_timestamps hlen htdd]
  rfl

/-- A first time point anywhere from the epoch to 2116 comes back as the epoch. -/
theorem decompressTimeSeries_first_timestamp (hlen : (p :: rest).length < 2 ^ 60)
    (hsym : ∀ q ∈ p :: rest, (symbolBytes q.symbol).length < 2 ^ 64)
    (h0 : 0 ≤ p.timestamp.count) (h1 : p.timestamp.count < 1023 * 2 ^ 52)
    {out : List DecodedPoint}
    (h : decompressTimeSeries (compressTimeSeries (p :: rest)) = some out) :
    out.head?.map (·.timestamp) = some (Timestamp.ofCount 0) := by
  rw [decompressTimeSeries_head_timestamp hlen hsym h, staticCast_ofInt64Bits_of_lt h0 h1]
  rfl

/-- A point of `GOOG` five microseconds after the epoch comes back at the epoch. -/
theorem decompressTimeSeries_first_timestamp_fiveMicros :
    [(⟨.ofCount 5000, 0, "GOOG"⟩ : TimeSeriesPoint)].length < 2 ^ 60 ∧
      (∀ q ∈ [(⟨.ofCount 5000, 0, "GOOG"⟩ : TimeSeriesPoint)],
        (symbolBytes q.symbol).length < 2 ^ 64) ∧
      0 ≤ (Timestamp.ofCount 5000).count ∧ (Timestamp.ofCount 5000).count < 1023 * 2 ^ 52 ∧
      decompressTimeSeries (compressTimeSeries [⟨.ofCount 5000, 0, "GOOG"⟩]) =
        some [⟨.ofCount 0, .finite 0, symbolBytes "GOOG"⟩] ∧
      [(⟨.ofCount 0, .finite 0, symbolBytes "GOOG"⟩ : DecodedPoint)].head?.map (·.timestamp) =
        some (Timestamp.ofCount 0) := by
  have hlen : [(⟨.ofCount 5000, 0, "GOOG"⟩ : TimeSeriesPoint)].length < 2 ^ 60 := by decide
  have hsym : ∀ q ∈ [(⟨.ofCount 5000, 0, "GOOG"⟩ : TimeSeriesPoint)],
      (symbolBytes q.symbol).length < 2 ^ 64 := by decide
  have h0 : 0 ≤ (Timestamp.ofCount 5000).count := by decide
  have h1 : (Timestamp.ofCount 5000).count < 1023 * 2 ^ 52 := by decide
  have h : decompressTimeSeries (compressTimeSeries [⟨.ofCount 5000, 0, "GOOG"⟩]) =
      some [⟨.ofCount 0, .finite 0, symbolBytes "GOOG"⟩] := by decide
  exact ⟨hlen, hsym, h0, h1, h, decompressTimeSeries_first_timestamp hlen hsym h0 h1 h⟩

end Codec

/-- One point at one microsecond after the epoch comes back at the epoch: its count `1000` is
written as the bits of the subnormal `double` `1000 · 2^-1074`, which casts to `0`. -/
theorem decompressTimeSeries_moves_point_to_epoch :
    decompressTimeSeries (compressTimeSeries [⟨.ofCount 1000, 0, "FB"⟩]) =
      some [⟨.ofCount 0, .finite 0, symbolBytes "FB"⟩] := by
  decide

end FindataEngine
