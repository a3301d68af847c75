import FindataEngine.DiskInvariant

/-!
# Reopening a data directory

A new `DiskLayer` rebuilds its index in `load_existing_segments`. The scanner keeps only files
whose extension is `.dat`, parses the stem as `symbol_start_end`, records every file as segment
`0` of its symbol, takes `num_points` from the header's first eight bytes (which hold
`start_time`), and marks the segment uncompressed.

`write_segment` names its files `symbol_id.seg`, so the scanner skips every one of them: over
any directory that `write_batch`, `compact_segments` and `optimize_index` produced from plain
symbols, the new layer's index is empty (`reopen_runDisk`), and it answers every range query
with no points. After one `write_batch` of one point, the old layer returns the point and the
new one returns nothing (`reopen_loses_written_point`). A symbol with a NUL in it can write a
`.dat` file, since `c_str()` ends the path at the NUL, and the scanner then indexes it.
-/

set_option autoImplicit false

namespace FindataEngine

namespace DiskLayer

/-! ## Path components -/

/-- `path::extension()` of a file name: from its last `.` on, or empty when the name has no `.`
or only a leading one. The scanner sees regular files only, never `.` or `..`. -/
def extension (filename : String) : String :=
  match filename.data.reverse.span (· ≠ '.') with
  | (_, []) | (_, [_]) => ""
  | (afterRev, _) => ⟨'.' :: afterRev.reverse⟩

/-- `path::stem()` of a file name: the name without its extension. -/
def stem (filename : String) : String :=
  match filename.data.reverse.span (· ≠ '.') with
  | (_, []) | (_, [_]) => filename
  | (_, _ :: beforeRev) => ⟨beforeRev.reverse⟩

theorem extension_segmentFileName (symbol : String) (segmentId : Nat) :
    extension (segmentFileName symbol segmentId) = ".seg" := by
  have h : (segmentFileName symbol segmentId).data.reverse =
      'g' :: 'e' :: 's' :: '.' :: ((toString segmentId).data.reverse ++ '_' :: symbol.data.reverse) := by
    simp [segmentFileName]
  unfold extension
  rw [h]
  simp [List.span, List.span.loop]

/-! ## The string functions of the scanner -/

/-- `std::string::find('_')`. -/
def findUnderscore (s : String) : Option Nat := s.data.findIdx? (· = '_')

/-- `std::string::rfind('_')`. -/
def rfindUnderscore (s : String) : Option Nat :=
  (s.data.reverse.findIdx? (· = '_')).map fun j => s.length - 1 - j

/-- `std::string::substr(pos, n)` for `pos` at most the length. -/
def substr (s : String) (pos n : Nat) : String := ⟨(s.data.drop pos).take n⟩

/-- The white space `strtoll` skips (`isspace` in the C locale). -/
def isSpace (c : Char) : Bool :=
  c = ' ' || c = '\t' || c = '\n' || c = '\x0B' || c = '\x0C' || c = '\r'

/-- `std::stoll` in base 10: white space, an optional sign, then the longest run of digits.
`std::invalid_argument` without a digit and `std::out_of_range` outside `int64_t`; libstdc++ gives
both the text `stoll`. -/
def stoll (s : String) : Except String Int :=
  let cs := s.data.dropWhile isSpace
  let neg := cs.head? = some '-'
  let cs := if cs.head? = some '-' ∨ cs.head? = some '+' then cs.tail else cs
  let digits := cs.takeWhile Char.isDigit
  let v : Int := if neg then -(ofDigitChars digits : Int) else ofDigitChars digits
  if digits = [] then .error "stoll"
  else if int64Min ≤ v ∧ v ≤ int64Max then .ok v
  else .error "stoll"

/-- Reading a `uint64_t` from the first eight bytes of a file, little-endian. -/
def leUInt64 (bytes : List UInt8) : Nat :=
  (bytes.take 8).foldr (fun b acc => b.toNat + 256 * acc) 0

/-- `count_points_in_segment`: `0` when the file cannot be opened, else the header's first eight
bytes. Those hold `start_time` of a segment file. A file shorter than eight bytes leaves
`num_points` indeterminate in C++; the missing bytes are read as zero here. -/
def countPointsInSegment : Option FileContent → Nat
  | none => 0
  | some (.segment header _) => (header.startTime.count % 18446744073709551616).toNat
  | some (.other bytes) => leUInt64 bytes

/-! ## The scanner -/

/-- `load_existing_segments` over the regular files `names` of the data directory, in the order
the directory iterator gives them. -/
def loadExistingSegments (d : DiskLayer) : List String → Except String DiskLayer
  | [] => .ok d
  | name :: names =>
    if extension name ≠ ".dat" then loadExistingSegments d names
    else
      let filename := stem name
      match findUnderscore filename, rfindUnderscore filename with
      | some first, some last => do
        let startTime ← stoll (substr filename (first + 1)
          ((last + 18446744073709551616 - first - 1) % 18446744073709551616))
        let endTime ← stoll (substr filename (last + 1) filename.length)
        let path := joinPath d.dataDir name
        let info : SegmentInfo :=
          ⟨.ofMicros startTime, .ofMicros endTime,
            countPointsInSegment (d.files.lookup (fileOf path)), path, false⟩
        loadExistingSegments (d.withEntry (substr filename 0 first) 0 info) names
      | _, _ => loadExistingSegments d names

/-- `DiskLayer(data_directory, config)` over the directory of `d`, whose regular files the
directory iterator lists as `names`. -/
def reopen (d : DiskLayer) (config : DiskConfig) (names : List String) :
    Except String DiskLayer :=
  loadExistingSegments ⟨d.dataDir, ∅, d.files, config⟩ names

/-- A scanner that finds no `.dat` file leaves the layer as it was. -/
theorem loadExistingSegments_of_not_dat (d : DiskLayer) (names : List String)
    (h : ∀ name ∈ names, extension name ≠ ".dat") : loadExistingSegments d names = .ok d := by
  induction names with
  | nil => rfl
  | cons name names ih =>
    rw [loadExistingSegments, if_pos (h name (List.mem_cons_self _ _))]
    exact ih fun n hn => h n (List.mem_cons_of_mem _ hn)

/-- Over a directory that the layer's own calls of plain symbols produced, in a directory whose
path has no NUL, a new layer starts with an empty index, whatever order the directory iterator
takes: every entry of the directory is a segment's `symbol_id.seg`. -/
theorem reopen_runDisk (sort : StdSort) (creatable : String → Bool) {dataDir : String}
    (hdir : nul ∉ dataDir.data) (config config' : DiskConfig) {ops : List DiskOp}
    (hplain : ∀ op ∈ ops, ∀ p ∈ op.points, PlainSymbol p.symbol) (names : List String)
    (hnames : ∀ name ∈ names, IsFileName name ∧
      fileOf (joinPath dataDir name) ∈ (runDisk sort creatable dataDir config ops).files) :
    reopen (runDisk sort creatable dataDir config ops) config' names =
      .ok ⟨dataDir, ∅, (runDisk sort creatable dataDir config ops).files, config'⟩ := by
  have hd := indexed_runDisk sort creatable dataDir config ops
  have hp := plain_runDisk sort creatable hdir config hplain
  have hdir' := dataDir_runDisk sort creatable dataDir config ops
  refine (loadExistingSegments_of_not_dat _ names fun name hname => ?_).trans (by rw [hdir'])
  obtain ⟨s, i, info, hinfo, hpath⟩ := hd.file_entry _ (hnames name hname).2
  rw [hd.entry_path s i info hinfo, hdir'] at hpath
  rw [fileOf_joinPath_inj hdir (hnames name hname).1
    (isFileName_segmentFileName (hp.symbol s i info hinfo) i) hpath.symm,
    extension_segmentFileName]
  decide

/-- The directory after one `write_batch` of `epochPoint` holds `FB_0.seg`, and the scanner
skips it. -/
theorem reopen_runDisk_oneWrite :
    nul ∉ "data".data ∧
    (∀ op ∈ [DiskOp.writeBatch [epochPoint]], ∀ p ∈ op.points, PlainSymbol p.symbol) ∧
    (∀ name ∈ ["FB_0.seg"], IsFileName name ∧ fileOf (joinPath "data" name) ∈
      (runDisk stableSort (fun _ => true) "data" .default [.writeBatch [epochPoint]]).files) ∧
    reopen (runDisk stableSort (fun _ => true) "data" .default [.writeBatch [epochPoint]]) .default
        ["FB_0.seg"] =
      .ok ⟨"data", ∅, (runDisk stableSort (fun _ => true) "data" .default
        [.writeBatch [epochPoint]]).files, .default⟩ :=
  have hdir : nul ∉ "data".data := by decide
  have hplain : ∀ op ∈ [DiskOp.writeBatch [epochPoint]], ∀ p ∈ op.points, PlainSymbol p.symbol := by
    decide
  have hnames : ∀ name ∈ ["FB_0.seg"], IsFileName name ∧ fileOf (joinPath "data" name) ∈
      (runDisk stableSort (fun _ => true) "data" .default
        [.writeBatch [epochPoint]]).files.keys := by
    decide
  ⟨hdir, hplain, hnames,
    reopen_runDisk stableSort (fun _ => true) hdir .default .default hplain _ hnames⟩

/-- Without plain symbols the scanner can find a file: the symbol `A_1_2.dat`, NUL, `x` writes
`data/A_1_2.dat`, and a new layer indexes it as segment `0` of `A`. -/
example : ((reopen (runDisk stableSort (fun _ => true) "data" .default
    [.writeBatch [⟨.ofCount 0, 0, "A_1_2.dat\x00x"⟩]]) .default ["A_1_2.dat"]).map
      fun d => (d.findSegment "A" 0).isSome) = .ok true :=
  rfl

/-- A point of `FB` at the epoch written to an empty directory: the layer that wrote it returns
it, and a layer reopened over the directory returns nothing. -/
theorem reopen_loses_written_point :
    rangeQuery stableSort (writtenTimes 1) "FB" (.ofCount 0) (.ofCount 1000) = .ok [epochPoint] ∧
      ((reopen (writtenTimes 1) .default ["FB_0.seg"]).bind fun d =>
        rangeQuery stableSort d "FB" (.ofCount 0) (.ofCount 1000)) = .ok [] :=
  ⟨rfl, rfl⟩

/-- A data directory that holds one empty file, `name`, which no segment write produced. -/
def strayFile (name : String) : DiskLayer :=
  (fresh "data" .default).withFile (joinPath "data" name) (.other [])

/-- Two names outside the grammar `symbol_start_end.dat`. With `a_b_c.dat` the constructor throws:
`std::stoll("b")` finds no digit. With `a_12.dat`, which has one underscore, the scanner indexes
segment `0` of `a` with both bounds at `12` microseconds. -/
theorem scanner_outside_grammar :
    reopen (strayFile "a_b_c.dat") .default ["a_b_c.dat"] = .error "stoll" ∧
      ((reopen (strayFile "a_12.dat") .default ["a_12.dat"]).map fun d => d.findSegment "a" 0) =
        .ok (some ⟨.ofMicros 12, .ofMicros 12, 0, "data/a_12.dat", false⟩) :=
  ⟨rfl, rfl⟩

end DiskLayer

end FindataEngine
