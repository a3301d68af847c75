import FindataEngine.DiskConcurrency
import FindataEngine.Durability

/-!
# `write_batch` calls for distinct symbols

Two `write_batch` calls for one symbol can lose a segment
(`concurrent_writeBatch_overwrites_segment`). Calls whose batches share no symbol cannot, as long
as their symbols are plain and the directory's path has no NUL, so that distinct symbols' segments
are distinct files (`segmentPath_sameFile`). A call reads its group's next id, writes the file of
that id and records the id, and no other call reads, writes or records anything of that symbol.
So whatever the interleaving of their sections, with compression on as `DiskConfig{}` has it:

* no section loses a point the layer holds, whether the calls return or throw
  (`diskPoints_runSchedule_append`);
* once every call has returned, each symbol holds its one group's segment in front of what it
  held before, which is what the calls leave when run one after another
  (`diskPoints_runSchedule_of_returned`).

The invariant `Serial` says where each call stands against its batch (`DiskWriter.Follows`) and
what each of its symbols holds (`DiskWriter.Stored`). One lemma says what a section can do to the
layer (`DiskWriter.step_layer`). The frame lemmas derive from it that a section of one call
changes nothing another call reads.
-/

set_option autoImplicit false

namespace FindataEngine

namespace DiskLayer

open List

/-! ## What a section does to the layer -/

/-- The symbols a call has still to record, the one in progress first. -/
def DiskWriter.symbols : DiskWriter → List String
  | .nextGroup groups => groups.map (·.1)
  | .writeFile symbol _ _ groups | .record symbol _ _ groups => symbol :: groups.map (·.1)
  | .returned | .threw _ => []

/-- A section leaves the layer as it is, writes the file of its symbol's id, or records that
id. -/
theorem DiskWriter.step_layer (sort : StdSort) (creatable : String → Bool) (d : DiskLayer) :
    ∀ writer : DiskWriter, (writer.step sort creatable d).1 = d ∨
      (∃ symbol points segmentId groups file, writer = .writeFile symbol points segmentId groups ∧
        (writer.step sort creatable d).1 = d.withFile (segmentPath d.dataDir symbol segmentId) file) ∨
      ∃ symbol segmentId info groups, writer = .record symbol segmentId info groups ∧
        (writer.step sort creatable d).1 = d.withEntry symbol segmentId info
  | .nextGroup [] | .nextGroup ((_, _) :: _) | .writeFile _ [] _ _ | .returned | .threw _ => .inl rfl
  | .writeFile symbol (first :: rest) segmentId groups => by
    dsimp only [DiskWriter.step]
    split
    · exact .inr (.inl ⟨symbol, _, segmentId, groups, _, rfl, rfl⟩)
    · exact .inl rfl
  | .record symbol segmentId info groups =>
    .inr (.inr ⟨symbol, segmentId, info, groups, rfl, rfl⟩)

@[simp] theorem DiskWriter.config_step (sort : StdSort) (creatable : String → Bool) (d : DiskLayer)
    (writer : DiskWriter) : (writer.step sort creatable d).1.config = d.config := by
  rcases writer.step_layer sort creatable d with h | ⟨_, _, _, _, _, -, h⟩ | ⟨_, _, _, _, -, h⟩ <;>
    rw [h] <;> rfl

theorem segmentPoints_withEntry_segmentInfo {d : DiskLayer} {symbol : String} {segmentId : Nat}
    {first : TimeSeriesPoint} {rest : List TimeSeriesPoint}
    (hfile : d.files.lookup (fileOf (d.segmentInfo symbol segmentId first rest).filePath) =
      some (.segment (d.segmentInfo symbol segmentId first rest)
        (segmentPayload d.config (first :: rest)))) :
    (d.withEntry symbol segmentId (d.segmentInfo symbol segmentId first rest)).segmentPoints
      symbol segmentId = readBack d.config symbol (first :: rest) := by
  unfold segmentPoints
  rw [findSegment_withEntry, if_pos ⟨rfl, rfl⟩]
  simp only [files_withEntry, hfile]
  simp only [segmentInfo, readBack, segmentPayload]
  cases d.config.enableCompression <;> simp [decodeSegment]

/-! ## Where a call stands against its batch -/

/-- Where `write_batch(points)` stands, as the layer `d` shows it. The groups left are the last
groups of the batch. A group in progress is its symbol's points, sorted, at an id the symbol does
not have. A segment about to be recorded has its file written with the header `write_segment`
wrote. -/
def DiskWriter.Follows (sort : StdSort) (points : List TimeSeriesPoint) (d : DiskLayer) :
    DiskWriter → Prop
  | .nextGroup groups => groups <:+ groupBySymbol sort points
  | .writeFile symbol symbolPoints segmentId groups =>
    (symbol, points.filter (·.symbol = symbol)) :: groups <:+ groupBySymbol sort points ∧
      symbolPoints = sort.run (points.filter (·.symbol = symbol)) ∧
      d.findSegment symbol segmentId = none
  | .record symbol segmentId info groups =>
    (symbol, points.filter (·.symbol = symbol)) :: groups <:+ groupBySymbol sort points ∧
      d.findSegment symbol segmentId = none ∧
      ∃ first rest, sort.run (points.filter (·.symbol = symbol)) = first :: rest ∧
        info = d.segmentInfo symbol segmentId first rest ∧
        d.files.lookup (fileOf info.filePath) =
          some (.segment info (segmentPayload d.config (first :: rest)))
  | .returned | .threw _ => True

section Follows

variable {sort : StdSort} {creatable : String → Bool} {points : List TimeSeriesPoint}
  {d : DiskLayer}

theorem mem_symbols_of_suffix {groups : List (String × List TimeSeriesPoint)}
    (h : groups <:+ groupBySymbol sort points) {s : String} (hs : s ∈ groups.map (·.1)) :
    s ∈ points.map (·.symbol) := by
  obtain ⟨g, hg, rfl⟩ := mem_map.mp hs
  obtain ⟨⟨p, hp, hps⟩, -⟩ := mem_groupBySymbol.mp (h.subset hg)
  exact mem_map.mpr ⟨p, hp, hps⟩

/-- A batch has one group per symbol, so the symbol in progress is not among the groups left. -/
theorem not_mem_of_cons_suffix {symbol : String} {symbolPoints : List TimeSeriesPoint}
    {groups : List (String × List TimeSeriesPoint)}
    (h : (symbol, symbolPoints) :: groups <:+ groupBySymbol sort points) :
    symbol ∉ groups.map (·.1) :=
  (nodup_cons.mp ((h.sublist.map (·.1)).nodup groupBySymbol_keys_nodup)).1

theorem DiskWriter.Follows.symbols_subset {writer : DiskWriter}
    (h : writer.Follows sort points d) : ∀ s ∈ writer.symbols, s ∈ points.map (·.symbol) := by
  cases writer with
  | nextGroup groups => exact fun s hs => mem_symbols_of_suffix h hs
  | writeFile symbol _ _ groups | record symbol _ _ groups =>
    exact fun s hs => mem_symbols_of_suffix h.1 hs
  | returned | threw _ => exact fun _ hs => absurd hs (not_mem_nil _)

/-- The symbols of a call of plain symbols are plain. -/
theorem DiskWriter.Follows.plain_symbols {writer : DiskWriter} (h : writer.Follows sort points d)
    (hplain : ∀ p ∈ points, PlainSymbol p.symbol) : ∀ s ∈ writer.symbols, PlainSymbol s :=
  fun s hs => by
    obtain ⟨p, hp, rfl⟩ := mem_map.mp (h.symbols_subset s hs)
    exact hplain p hp

/-- A section keeps where its own call stands. -/
theorem DiskWriter.Follows.step {writer : DiskWriter} (h : writer.Follows sort points d) :
    (writer.step sort creatable d).2.Follows sort points (writer.step sort creatable d).1 := by
  match writer, h with
  | .nextGroup [], _ => trivial
  | .nextGroup ((symbol, symbolPoints) :: groups), h =>
    have hgroup : symbolPoints = points.filter (·.symbol = symbol) :=
      (mem_groupBySymbol.mp (h.subset (mem_cons_self _ _))).2
    subst hgroup
    exact ⟨h, rfl, findSegment_nextSegmentId d symbol⟩
  | .writeFile _ [] _ _, h => exact (suffix_cons _ _).trans h.1
  | .writeFile symbol (first :: rest) segmentId groups, h =>
    dsimp only [DiskWriter.step]
    split
    · exact ⟨h.1, h.2.2, first, rest, h.2.1.symm, rfl, AList.lookup_insert _⟩
    · trivial
  | .record _ _ _ _, h => exact (suffix_cons _ _).trans h.1
  | .returned, _ | .threw _, _ => trivial

/-- A section of one call keeps where a call with none of its symbols stands: it records no id
and writes no file of the other call's symbols, their symbols being plain. -/
theorem DiskWriter.Follows.frame {writer other : DiskWriter} {otherPoints : List TimeSeriesPoint}
    (h : other.Follows sort otherPoints d) (hp : Plain d)
    (hplain : ∀ s ∈ writer.symbols, PlainSymbol s) (hplain' : ∀ s ∈ other.symbols, PlainSymbol s)
    (hdisj : ∀ s ∈ writer.symbols, s ∉ other.symbols) :
    other.Follows sort otherPoints (writer.step sort creatable d).1 := by
  rcases writer.step_layer sort creatable d with
    hd | ⟨symbol, _, segmentId, _, file, rfl, hd⟩ | ⟨symbol, segmentId, info, _, rfl, hd⟩ <;>
    rw [hd]
  · exact h
  · have hne : ∀ s i, s ∈ other.symbols →
        fileOf (segmentPath d.dataDir s i) ≠ fileOf (segmentPath d.dataDir symbol segmentId) :=
      fun s i hs heq => hdisj symbol (mem_cons_self _ _) ((segmentPath_sameFile hp.dataDir
        (hplain' s hs) (hplain symbol (mem_cons_self _ _)) heq).1 ▸ hs)
    cases other with
    | record s i info' groups =>
      obtain ⟨hsuffix, hfresh, first, rest, hrun, rfl, hfile⟩ := h
      exact ⟨hsuffix, hfresh, first, rest, hrun, rfl,
        (AList.lookup_insert_ne (hne s i (mem_cons_self _ _))).trans hfile⟩
    | _ => exact h
  · have hne : ∀ s i, s ∈ other.symbols → ¬(s = symbol ∧ i = segmentId) := fun s _ hs heq =>
      hdisj symbol (mem_cons_self _ _) (heq.1 ▸ hs)
    cases other with
    | writeFile s _ i _ =>
      exact ⟨h.1, h.2.1, by rw [findSegment_withEntry, if_neg (hne s i (mem_cons_self _ _)), h.2.2]⟩
    | record s i _ _ =>
      exact ⟨h.1, by rw [findSegment_withEntry, if_neg (hne s i (mem_cons_self _ _)), h.2.1], h.2.2⟩
    | _ => exact h

/-- A section of a call of plain symbols keeps the layer's segment files of their own. -/
theorem DiskWriter.plain_step (hp : Plain d) {writer : DiskWriter}
    (hplain : ∀ s ∈ writer.symbols, PlainSymbol s) : Plain (writer.step sort creatable d).1 := by
  rcases writer.step_layer sort creatable d with
    hd | ⟨_, _, _, _, _, -, hd⟩ | ⟨symbol, segmentId, info, _, rfl, hd⟩ <;> rw [hd]
  · exact hp
  · exact hp.withFile _ _
  · exact hp.withEntry (hplain symbol (mem_cons_self _ _)) _ _

/-- Every entry a section records names the file of its own symbol and id. -/
theorem DiskWriter.entryPaths_step (hpaths : EntryPaths d) {writer : DiskWriter}
    (h : writer.Follows sort points d) : EntryPaths (writer.step sort creatable d).1 := by
  rcases writer.step_layer sort creatable d with
    hd | ⟨_, _, _, _, _, -, hd⟩ | ⟨symbol, segmentId, info, _, rfl, hd⟩ <;> rw [hd]
  · exact hpaths
  · exact hpaths
  · obtain ⟨-, -, first, rest, -, rfl, -⟩ := h
    intro s i info' hinfo
    rw [findSegment_withEntry] at hinfo
    split_ifs at hinfo with hsi
    · obtain ⟨rfl, rfl⟩ := hsi
      cases hinfo
      rfl
    · exact hpaths s i info' hinfo

/-- A section changes no symbol's points but the one in progress. -/
theorem DiskWriter.diskPoints_step_of_not_mem (hpaths : EntryPaths d) (hp : Plain d)
    {writer : DiskWriter} (hplain : ∀ s ∈ writer.symbols, PlainSymbol s)
    (h : writer.Follows sort points d) {s : String} (hs : s ∉ writer.symbols) :
    (writer.step sort creatable d).1.diskPoints s = d.diskPoints s := by
  rcases writer.step_layer sort creatable d with
    hd | ⟨symbol, _, segmentId, _, file, rfl, hd⟩ | ⟨symbol, segmentId, info, _, rfl, hd⟩ <;>
    rw [hd]
  · rw [diskPoints_withFile_of_fresh hpaths hp (hplain _ (mem_cons_self _ _)) h.2.2]
  · rw [diskPoints_withEntry_of_fresh h.2.1, if_neg fun (heq : s = symbol) => hs (heq ▸ mem_cons_self _ _),
      nil_append]

/-- A section loses no point. -/
theorem DiskWriter.diskPoints_subperm_step (hpaths : EntryPaths d) (hp : Plain d)
    {writer : DiskWriter} (hplain : ∀ s ∈ writer.symbols, PlainSymbol s)
    (h : writer.Follows sort points d) (s : String) :
    d.diskPoints s <+~ (writer.step sort creatable d).1.diskPoints s := by
  rcases writer.step_layer sort creatable d with
    hd | ⟨symbol, _, segmentId, _, file, rfl, hd⟩ | ⟨symbol, segmentId, info, _, rfl, hd⟩ <;>
    rw [hd]
  · rw [diskPoints_withFile_of_fresh hpaths hp (hplain _ (mem_cons_self _ _)) h.2.2]
  · rw [diskPoints_withEntry_of_fresh h.2.1]
    exact (sublist_append_right _ _).subperm

end Follows

/-! ## What a call's symbols hold -/

/-- What the symbols of `write_batch(points)` hold against `d₀`, the layer the call began on: a
symbol still to be recorded holds what it held, a recorded one holds its group's segment in
front. A call that threw may have stopped anywhere. -/
def DiskWriter.Stored (sort : StdSort) (points : List TimeSeriesPoint) (d₀ d : DiskLayer) :
    DiskWriter → Prop
  | .threw _ => True
  | writer => ∀ s ∈ points.map (·.symbol), d.diskPoints s =
      (if s ∈ writer.symbols then [] else
        readBack d₀.config s (sort.run (points.filter (·.symbol = s)))) ++ d₀.diskPoints s

section Stored

variable {sort : StdSort} {creatable : String → Bool} {points : List TimeSeriesPoint}
  {d₀ d : DiskLayer}

/-- A section of its own call keeps what a call's symbols hold: recording a segment moves its
symbol from the symbols left to the recorded ones, and an empty group is recorded with nothing. -/
theorem DiskWriter.Stored.step (hpaths : EntryPaths d) (hp : Plain d)
    (hconfig : d.config = d₀.config) {writer : DiskWriter} (hf : writer.Follows sort points d)
    (hplain : ∀ s ∈ writer.symbols, PlainSymbol s) (h : writer.Stored sort points d₀ d) :
    (writer.step sort creatable d).2.Stored sort points d₀ (writer.step sort creatable d).1 := by
  match writer, hf, hplain, h with
  | .nextGroup [], _, _, h | .nextGroup ((_, _) :: _), _, _, h => exact h
  | .writeFile symbol [] _ groups, hf, _, h =>
    intro s hs
    refine (h s hs).trans ?_
    by_cases hsym : s = symbol
    · subst hsym
      simp [DiskWriter.symbols, not_mem_of_cons_suffix hf.1, ← hf.2.1, readBack]
    · simp only [DiskWriter.symbols, mem_cons, hsym, false_or]
  | .writeFile symbol (first :: rest) segmentId groups, hf, hplain, h =>
    dsimp only [DiskWriter.step]
    split
    · intro s hs
      rw [diskPoints_withFile_of_fresh hpaths hp (hplain _ (mem_cons_self _ _)) hf.2.2]
      exact h s hs
    · trivial
  | .record symbol segmentId info groups, hf, _, h =>
    obtain ⟨hsuffix, hfresh, first, rest, hrun, rfl, hfile⟩ := hf
    intro s hs
    rw [DiskWriter.step, diskPoints_withEntry_of_fresh hfresh, h s hs]
    by_cases hsym : s = symbol
    · subst hsym
      simp [DiskWriter.symbols, not_mem_of_cons_suffix hsuffix,
        segmentPoints_withEntry_segmentInfo hfile, hrun, hconfig]
    · simp only [DiskWriter.symbols, mem_cons, hsym, false_or, if_false, nil_append]
  | .returned, _, _, h | .threw _, _, _, h => exact h

/-- What a call's symbols hold is kept by a section that changes none of their points. -/
theorem DiskWriter.Stored.congr {writer : DiskWriter} {d' : DiskLayer}
    (h : writer.Stored sort points d₀ d)
    (hsame : ∀ s ∈ points.map (·.symbol), d'.diskPoints s = d.diskPoints s) :
    writer.Stored sort points d₀ d' := by
  cases writer with
  | threw => trivial
  | _ => exact fun s hs => (hsame s hs).trans (h s hs)

/-- A call that returned has recorded every symbol of its batch. -/
theorem DiskWriter.Stored.diskPoints_of_returned (h : DiskWriter.returned.Stored sort points d₀ d)
    {s : String} (hs : s ∈ points.map (·.symbol)) :
    d.diskPoints s = readBack d₀.config s (sort.run (points.filter (·.symbol = s))) ++
      d₀.diskPoints s :=
  h s hs

end Stored

/-! ## Every interleaving -/

/-- `runSchedule` of two schedules one after the other. -/
theorem runSchedule_append (sort : StdSort) (creatable : String → Bool) (w : DiskWorld)
    (schedule₁ schedule₂ : List Nat) :
    runSchedule sort creatable w (schedule₁ ++ schedule₂) =
      runSchedule sort creatable (runSchedule sort creatable w schedule₁) schedule₂ :=
  foldl_append _ _ _ _

theorem not_mem_map_symbol {ps qs : List TimeSeriesPoint}
    (h : ∀ p ∈ ps, ∀ q ∈ qs, p.symbol ≠ q.symbol) {s : String} (hs : s ∈ ps.map (·.symbol)) :
    s ∉ qs.map (·.symbol) := fun hqs => by
  obtain ⟨p, hp, rfl⟩ := mem_map.mp hs
  obtain ⟨q, hq, hpq⟩ := mem_map.mp hqs
  exact h p hp q hq hpq.symm

/-- Two calls of a list with pairwise distinct symbols have no symbol in common. -/
theorem not_mem_of_pairwise {calls : List (List TimeSeriesPoint)}
    (hcalls : calls.Pairwise fun ps qs => ∀ p ∈ ps, ∀ q ∈ qs, p.symbol ≠ q.symbol) {i j : Nat}
    (hij : i ≠ j) {ps qs : List TimeSeriesPoint} (hi : calls[i]? = some ps)
    (hj : calls[j]? = some qs) {s : String} (hps : s ∈ ps.map (·.symbol)) :
    s ∉ qs.map (·.symbol) := by
  obtain ⟨hi', rfl⟩ := getElem?_eq_some_iff.mp hi
  obtain ⟨hj', rfl⟩ := getElem?_eq_some_iff.mp hj
  rcases lt_or_gt_of_ne hij with hlt | hlt
  · exact not_mem_map_symbol (pairwise_iff_getElem.mp hcalls i j hi' hj' hlt) hps
  · exact fun hqs => not_mem_map_symbol (pairwise_iff_getElem.mp hcalls j i hj' hi' hlt) hqs hps

/-- At most one of the calls has points of a symbol, so what the calls give of it is that
call's. -/
theorem flatMap_eq_of_mem {symbol : String} (f : List TimeSeriesPoint → List TimeSeriesPoint)
    (hf : ∀ ps, symbol ∉ ps.map (·.symbol) → f ps = []) :
    ∀ {calls : List (List TimeSeriesPoint)},
      calls.Pairwise (fun ps qs => ∀ p ∈ ps, ∀ q ∈ qs, p.symbol ≠ q.symbol) →
        ∀ {ps}, ps ∈ calls → symbol ∈ ps.map (·.symbol) → calls.flatMap f = f ps
  | [], _, _, hps, _ => absurd hps (not_mem_nil _)
  | qs :: calls, hcalls, ps, hps, hs => by
    obtain ⟨hqs, hcalls⟩ := pairwise_cons.mp hcalls
    rw [flatMap_cons]
    rcases mem_cons.mp hps with rfl | hps
    · rw [flatMap_eq_nil_iff.mpr fun rs hrs => hf rs (not_mem_map_symbol (hqs rs hrs) hs),
        append_nil]
    · rw [hf qs fun hq => not_mem_map_symbol (hqs ps hps) hq hs, nil_append]
      exact flatMap_eq_of_mem f hf hcalls hps hs

/-- A call of the world after call `i`'s section is where that section left call `i`, or where it
stood. -/
theorem getElem?_set_eq_some {ws : List DiskWriter} {i k : Nat} {a b : DiskWriter}
    (h : (ws.set i a)[k]? = some b) : (k = i ∧ b = a) ∨ (k ≠ i ∧ ws[k]? = some b) := by
  rw [getElem?_set] at h
  split_ifs at h with hik
  · exact .inl ⟨hik.symm, (Option.some.inj h).symm⟩
  · exact .inr ⟨Ne.symm hik, h⟩

section Serial

variable (sort : StdSort) (creatable : String → Bool) (d₀ : DiskLayer)
  (calls : List (List TimeSeriesPoint))

/-- What holds between any two sections of the calls `calls`, begun on `d₀`: each call stands
where its batch says and its symbols hold what that says, and the symbols of no call hold what
they held. -/
structure Serial (w : DiskWorld) : Prop where
  length : w.writers.length = calls.length
  entryPaths : EntryPaths w.layer
  plain : Plain w.layer
  config : w.layer.config = d₀.config
  follows : ∀ (k : Nat) points (writer : DiskWriter), calls[k]? = some points →
    w.writers[k]? = some writer → writer.Follows sort points w.layer
  stored : ∀ (k : Nat) points (writer : DiskWriter), calls[k]? = some points →
    w.writers[k]? = some writer →
    writer.Stored sort points d₀ w.layer
  untouched : ∀ s, (∀ points ∈ calls, s ∉ points.map (·.symbol)) →
    w.layer.diskPoints s = d₀.diskPoints s

variable {sort creatable d₀ calls}
  (hcalls : calls.Pairwise fun ps qs => ∀ p ∈ ps, ∀ q ∈ qs, p.symbol ≠ q.symbol)
  (hplain : ∀ points ∈ calls, ∀ p ∈ points, PlainSymbol p.symbol)
include hcalls hplain

/-- The next section of any call keeps `Serial` and loses no point. -/
theorem Serial.step {w : DiskWorld} (hw : Serial sort d₀ calls w) (i : Nat) :
    Serial sort d₀ calls (w.step sort creatable i) ∧
      ∀ s, w.layer.diskPoints s <+~ (w.step sort creatable i).layer.diskPoints s := by
  unfold DiskWorld.step
  cases hi : w.writers[i]? with
  | none => exact ⟨hw, fun _ => Subperm.refl _⟩
  | some writer =>
    obtain ⟨points, hpoints⟩ : ∃ points, calls[i]? = some points := by
      obtain ⟨hlt, -⟩ := getElem?_eq_some_iff.mp hi
      exact ⟨_, getElem?_eq_getElem (hw.length ▸ hlt)⟩
    have hf := hw.follows i points writer hpoints hi
    have hplainW := hf.plain_symbols (hplain points (getElem?_mem hpoints))
    -- a symbol of another call is not one the section can touch
    have hother : ∀ k, k ≠ i → ∀ ps, calls[k]? = some ps → ∀ s ∈ ps.map (·.symbol),
        s ∉ writer.symbols := fun k hk ps hk' s hs hw' =>
      not_mem_of_pairwise hcalls hk hk' hpoints hs (hf.symbols_subset s hw')
    refine ⟨⟨by rw [length_set, hw.length], writer.entryPaths_step hw.entryPaths hf,
      writer.plain_step hw.plain hplainW, (DiskWriter.config_step _ _ _ _).trans hw.config, ?_, ?_,
      ?_⟩, writer.diskPoints_subperm_step hw.entryPaths hw.plain hplainW hf⟩
    · intro k ps other hk hother'
      rcases getElem?_set_eq_some hother' with ⟨rfl, rfl⟩ | ⟨hik, hother'⟩
      · cases hk.symm.trans hpoints
        exact hf.step
      · have hfk := hw.follows k ps other hk hother'
        exact hfk.frame hw.plain hplainW (hfk.plain_symbols (hplain ps (getElem?_mem hk)))
          fun s hs hs' => hother k hik ps hk s (hfk.symbols_subset s hs') hs
    · intro k ps other hk hother'
      rcases getElem?_set_eq_some hother' with ⟨rfl, rfl⟩ | ⟨hik, hother'⟩
      · cases hk.symm.trans hpoints
        exact (hw.stored k points writer hpoints hi).step hw.entryPaths hw.plain hw.config hf hplainW
      · exact (hw.stored k ps other hk hother').congr fun s hs =>
          writer.diskPoints_step_of_not_mem hw.entryPaths hw.plain hplainW hf
            (hother k hik ps hk s hs)
    · intro s hs
      refine (writer.diskPoints_step_of_not_mem hw.entryPaths hw.plain hplainW hf fun hw' => ?_).trans
        (hw.untouched s hs)
      exact hs points (getElem?_mem hpoints) (hf.symbols_subset s hw')

/-- Every schedule keeps `Serial`. -/
theorem Serial.runSchedule {w : DiskWorld} (hw : Serial sort d₀ calls w) :
    ∀ schedule, Serial sort d₀ calls (DiskLayer.runSchedule sort creatable w schedule)
  | [] => hw
  | i :: schedule => Serial.runSchedule (hw.step hcalls hplain i).1 schedule

/-- No schedule loses a point. -/
theorem Serial.diskPoints_subperm_runSchedule {w : DiskWorld} (hw : Serial sort d₀ calls w) :
    ∀ schedule s, w.layer.diskPoints s <+~
      (DiskLayer.runSchedule sort creatable w schedule).layer.diskPoints s
  | [], _ => Subperm.refl _
  | i :: schedule, s => ((hw.step hcalls hplain i).2 s).trans
      (Serial.diskPoints_subperm_runSchedule (hw.step hcalls hplain i).1 schedule s)

end Serial

theorem DiskWriter.follows_start (sort : StdSort) (d : DiskLayer) (points : List TimeSeriesPoint) :
    (DiskWriter.start sort points).Follows sort points d := by
  unfold DiskWriter.start
  split
  · trivial
  · exact suffix_refl _

theorem DiskWriter.stored_start (sort : StdSort) (d : DiskLayer) (points : List TimeSeriesPoint) :
    (DiskWriter.start sort points).Stored sort points d d := by
  unfold DiskWriter.start
  split
  · rename_i hempty
    rw [isEmpty_iff.mp hempty]
    exact fun _ hs => absurd hs (not_mem_nil _)
  · intro s hs
    have hgroup : (s, points.filter (·.symbol = s)) ∈ groupBySymbol sort points :=
      mem_groupBySymbol.mpr ⟨mem_map.mp hs, rfl⟩
    have hmem : s ∈ (DiskWriter.nextGroup (groupBySymbol sort points)).symbols :=
      mem_map_of_mem (·.1) hgroup
    rw [if_pos hmem, nil_append]

/-- The calls before their first section, on a layer that keeps invariant S2 and its segment
files of their own. -/
theorem serial_start (sort : StdSort) {d₀ : DiskLayer} (hd : Indexed d₀) (hp : Plain d₀)
    (calls : List (List TimeSeriesPoint)) :
    Serial sort d₀ calls ⟨d₀, calls.map (DiskWriter.start sort)⟩ where
  length := length_map _ _
  entryPaths := hd.entry_path
  plain := hp
  config := rfl
  follows k points writer hk hwriter := by
    rw [getElem?_map, hk, Option.map_some'] at hwriter
    cases hwriter
    exact DiskWriter.follows_start sort d₀ points
  stored k points writer hk hwriter := by
    rw [getElem?_map, hk, Option.map_some'] at hwriter
    cases hwriter
    exact DiskWriter.stored_start sort d₀ points
  untouched _ _ := rfl

theorem config_runDisk (sort : StdSort) (creatable : String → Bool) (dataDir : String)
    (config : DiskConfig) (ops : List DiskOp) :
    (runDisk sort creatable dataDir config ops).config = config :=
  runDisk_induction (fun d => d.config = config) sort creatable dataDir config rfl
    (fun d symbol segmentId points h => (config_addSegment d symbol segmentId points).trans h) ops

/-- Whatever the interleaving of the sections of `write_batch` calls whose batches share no
symbol and whose symbols are plain, on any layer that calls of plain symbols leave in a directory
whose path has no NUL, with compression on, and whatever each call returns or throws: a symbol's
points after any further sections contain its points before them. -/
theorem diskPoints_runSchedule_append (sort : StdSort) (creatable : String → Bool)
    (dataDir : String) (hdir : nul ∉ dataDir.data) (ops : List DiskOp)
    (hops : ∀ op ∈ ops, ∀ p ∈ op.points, PlainSymbol p.symbol)
    (calls : List (List TimeSeriesPoint))
    (hcalls : calls.Pairwise fun ps qs => ∀ p ∈ ps, ∀ q ∈ qs, p.symbol ≠ q.symbol)
    (hplain : ∀ points ∈ calls, ∀ p ∈ points, PlainSymbol p.symbol)
    (schedule₁ schedule₂ : List Nat) (symbol : String) :
    (runSchedule sort creatable ⟨runDisk sort creatable dataDir .default ops,
        calls.map (DiskWriter.start sort)⟩ schedule₁).layer.diskPoints symbol <+~
      (runSchedule sort creatable ⟨runDisk sort creatable dataDir .default ops,
        calls.map (DiskWriter.start sort)⟩ (schedule₁ ++ schedule₂)).layer.diskPoints symbol := by
  rw [runSchedule_append]
  exact ((serial_start sort (indexed_runDisk sort creatable dataDir .default ops)
    (plain_runDisk sort creatable hdir .default hops) calls).runSchedule hcalls hplain
      schedule₁).diskPoints_subperm_runSchedule hcalls hplain schedule₂ symbol

/-- Two calls, for `FB` and for `GOOG`. -/
def separateCalls : List (List TimeSeriesPoint) := [[epochPoint], [⟨.ofCount 0, 2, "GOOG"⟩]]

theorem diskPoints_runSchedule_append_separateCalls :
    nul ∉ "data".data ∧
      separateCalls.Pairwise (fun ps qs => ∀ p ∈ ps, ∀ q ∈ qs, p.symbol ≠ q.symbol) ∧
      (∀ points ∈ separateCalls, ∀ p ∈ points, PlainSymbol p.symbol) ∧
      (runSchedule stableSort (fun _ => true) ⟨runDisk stableSort (fun _ => true) "data" .default [],
          separateCalls.map (DiskWriter.start stableSort)⟩ [0, 1, 0]).layer.diskPoints "FB" <+~
        (runSchedule stableSort (fun _ => true) ⟨runDisk stableSort (fun _ => true) "data" .default [],
          separateCalls.map (DiskWriter.start stableSort)⟩
            ([0, 1, 0] ++ [1, 0, 1, 1, 0])).layer.diskPoints "FB" :=
  have hdir : nul ∉ "data".data := by decide
  have hplain : ∀ points ∈ separateCalls, ∀ p ∈ points, PlainSymbol p.symbol := by decide
  ⟨hdir, by decide, hplain, diskPoints_runSchedule_append stableSort _ "data" hdir []
    (fun _ h => absurd h (not_mem_nil _)) separateCalls (by decide) hplain _ _ "FB"⟩

/-- Once every call has returned, whatever the interleaving of the sections of `write_batch`
calls whose batches share no symbol and whose symbols are plain, on any layer that calls of plain
symbols leave in a directory whose path has no NUL, with compression on: each symbol holds every
call's points of it as its segment gives them back, in front of what it held before. This is what
the calls leave when run one after another. -/
theorem diskPoints_runSchedule_of_returned (sort : StdSort) (creatable : String → Bool)
    (dataDir : String) (hdir : nul ∉ dataDir.data) (ops : List DiskOp)
    (hops : ∀ op ∈ ops, ∀ p ∈ op.points, PlainSymbol p.symbol)
    (calls : List (List TimeSeriesPoint))
    (hcalls : calls.Pairwise fun ps qs => ∀ p ∈ ps, ∀ q ∈ qs, p.symbol ≠ q.symbol)
    (hplain : ∀ points ∈ calls, ∀ p ∈ points, PlainSymbol p.symbol)
    (schedule : List Nat)
    (hreturned : ∀ writer ∈ (runSchedule sort creatable ⟨runDisk sort creatable dataDir .default
      ops, calls.map (DiskWriter.start sort)⟩ schedule).writers, writer = .returned)
    (symbol : String) :
    (runSchedule sort creatable ⟨runDisk sort creatable dataDir .default ops,
        calls.map (DiskWriter.start sort)⟩ schedule).layer.diskPoints symbol =
      calls.flatMap (fun points =>
          readBack .default symbol (sort.run (points.filter (·.symbol = symbol)))) ++
        (runDisk sort creatable dataDir .default ops).diskPoints symbol := by
  have hw : Serial sort _ calls (runSchedule sort creatable _ schedule) :=
    (serial_start sort (indexed_runDisk sort creatable dataDir .default ops)
      (plain_runDisk sort creatable hdir .default hops) calls).runSchedule hcalls hplain schedule
  have hnil : ∀ ps : List TimeSeriesPoint, symbol ∉ ps.map (·.symbol) →
      readBack .default symbol (sort.run (ps.filter (·.symbol = symbol))) = [] := fun ps hs => by
    rw [filter_eq_nil_iff.mpr fun p hp hps => hs (mem_map.mpr ⟨p, hp, by simpa using hps⟩)]
    simp [readBack]
  by_cases hsym : ∃ ps ∈ calls, symbol ∈ ps.map (·.symbol)
  · obtain ⟨ps, hps, hs⟩ := hsym
    obtain ⟨k, hk⟩ := mem_iff_getElem?.mp hps
    obtain ⟨writer, hwriter⟩ : ∃ writer, (runSchedule sort creatable ⟨runDisk sort creatable
        dataDir .default ops, calls.map (DiskWriter.start sort)⟩ schedule).writers[k]? =
          some writer :=
      ⟨_, getElem?_eq_getElem (hw.length ▸ (getElem?_eq_some_iff.mp hk).1)⟩
    have hstored := hw.stored k ps writer hk hwriter
    rw [hreturned writer (getElem?_mem hwriter)] at hstored
    rw [hstored.diskPoints_of_returned hs, flatMap_eq_of_mem _ hnil hcalls hps hs, config_runDisk]
  · push_neg at hsym
    rw [hw.untouched symbol hsym, flatMap_eq_nil_iff.mpr fun ps hps => hnil ps (hsym ps hps),
      nil_append]

theorem diskPoints_runSchedule_of_returned_separateCalls :
    nul ∉ "data".data ∧
      separateCalls.Pairwise (fun ps qs => ∀ p ∈ ps, ∀ q ∈ qs, p.symbol ≠ q.symbol) ∧
      (∀ points ∈ separateCalls, ∀ p ∈ points, PlainSymbol p.symbol) ∧
      (∀ writer ∈ (runSchedule stableSort (fun _ => true) ⟨runDisk stableSort (fun _ => true)
        "data" .default [], separateCalls.map (DiskWriter.start stableSort)⟩
          [0, 1, 1, 0, 0, 1, 1, 0]).writers, writer = .returned) ∧
      (runSchedule stableSort (fun _ => true) ⟨runDisk stableSort (fun _ => true) "data" .default [],
          separateCalls.map (DiskWriter.start stableSort)⟩
            [0, 1, 1, 0, 0, 1, 1, 0]).layer.diskPoints "FB" =
        separateCalls.flatMap (fun points => readBack .default "FB"
          (stableSort.run (points.filter (·.symbol = "FB")))) ++
          (runDisk stableSort (fun _ => true) "data" .default []).diskPoints "FB" :=
  have hdir : nul ∉ "data".data := by decide
  have hplain : ∀ points ∈ separateCalls, ∀ p ∈ points, PlainSymbol p.symbol := by decide
  have hreturned : ∀ writer ∈ (runSchedule stableSort (fun _ => true) ⟨runDisk stableSort
      (fun _ => true) "data" .default [], separateCalls.map (DiskWriter.start stableSort)⟩
        [0, 1, 1, 0, 0, 1, 1, 0]).writers, writer = .returned := by
    decide
  ⟨hdir, by decide, hplain, hreturned, diskPoints_runSchedule_of_returned stableSort _ "data" hdir
    [] (fun _ h => absurd h (not_mem_nil _)) separateCalls (by decide) hplain _ hreturned "FB"⟩

end DiskLayer

end FindataEngine
