import FindataEngine.MemoryInvariant
import FindataEngine.DiskRead

/-!
# The storage engine

`StorageEngine::Impl` of `storage_engine.cpp`, run one call at a time. The engine owns a memory
layer and a disk layer built with `DiskConfig{}` over the configured directory. `write_point` and
`write_batch` insert into the memory layer and call `flush` once its size reaches
`max_memory_points`; `flush` hands every buffered point to the disk layer's `write_batch` and,
when that returns `true`, clears the memory layer; `read_range` sorts the memory layer's points in
`[start, end]` together with the disk layer's points in `[start, end)`.

On every engine reached from an empty directory by `write_point`, `write_batch`, `flush` and
`optimize`, whatever they returned or threw, both layers keep their invariants (`Healthy`,
`healthy_runEngine`), so `read_range` never throws there (`FlushReads`). When the calls' symbols
are plain and the directory's path has no NUL, no two segments share a file (`Plain`,
`plain_runEngine`).
-/

set_option autoImplicit false

namespace FindataEngine

open List

/-- The fields of `EngineConfig` that the engine reads. `memory_cache_size_mb`,
`enable_compression`, `batch_size`, `max_segment_size_mb` and `disk_config` are read by nothing
the engine calls: the disk layer is built with `DiskConfig{}`. -/
structure EngineConfig where
  dataDirectory : String
  maxMemoryPoints : Nat
  deriving DecidableEq, Repr

/-- `StorageEngine::Impl`. The counters `cache_hits` and `cache_misses` are never incremented
and are left out. -/
structure StorageEngine where
  config : EngineConfig
  memoryLayer : MemoryLayer
  diskLayer : DiskLayer
  totalPoints : Nat

/-- An engine call: it returns an `α` or throws, and leaves the engine as it stands then. -/
abbrev EngineM := EStateM String StorageEngine

namespace StorageEngine

/-- `StorageEngine(config)` over an empty data directory: the disk layer's scanner finds no
file. -/
def new (config : EngineConfig) : StorageEngine :=
  ⟨config, .empty, .fresh config.dataDirectory .default, 0⟩

/-- A call of the memory layer that updates it and returns a result. -/
def onMemory {α : Type} (f : MemoryLayer → α × MemoryLayer) : EngineM α :=
  modifyGet fun e => ((f e.memoryLayer).1, { e with memoryLayer := (f e.memoryLayer).2 })

/-- A call of the disk layer: what it throws the engine throws, and the disk layer keeps the
state the call left. -/
def onDisk {α : Type} (x : DiskM α) : EngineM α := fun e =>
  match x.run e.diskLayer with
  | .ok a d => .ok a { e with diskLayer := d }
  | .error err d => .error err { e with diskLayer := d }

theorem run_onDisk {α : Type} (x : DiskM α) (e : StorageEngine) :
    (onDisk x).run e = match x.run e.diskLayer with
      | .ok a d => .ok a { e with diskLayer := d }
      | .error err d => .error err { e with diskLayer := d } := rfl

theorem stateAfter_onDisk {α : Type} (x : DiskM α) (e : StorageEngine) :
    stateAfter (onDisk x) e = { e with diskLayer := stateAfter x e.diskLayer } := by
  unfold stateAfter
  rw [run_onDisk]
  cases x.run e.diskLayer <;> rfl

/-- The points `flush` collects under the lock: each symbol's range
`[time_point::min(), time_point::max()]`, symbol after symbol. -/
def pointsToFlush (m : MemoryLayer) : List TimeSeriesPoint :=
  m.getSymbols.flatMap fun symbol => m.getRange symbol .min .max

/-- `StorageEngine::Impl::flush`. -/
def flush (sort : StdSort) (creatable : String → Bool) : EngineM Bool := do
  let e ← get
  let points := pointsToFlush e.memoryLayer
  if points.isEmpty then pure true
  else do
    let success ← onDisk (DiskLayer.writeBatch sort creatable points)
    if success then do
      modify fun e => { e with memoryLayer := e.memoryLayer.clearCache }
      pure true
    else pure false

/-- The end of `write_point` and `write_batch` after a successful insert: count the points, and
flush when the memory layer has reached `max_memory_points`. -/
def countAndFlush (sort : StdSort) (creatable : String → Bool) (count : Nat) : EngineM Bool := do
  let e ← get
  let needsFlush := decide (e.config.maxMemoryPoints ≤ e.memoryLayer.cacheSize)
  modify fun e => { e with totalPoints := e.totalPoints + count }
  if needsFlush then flush sort creatable else pure true

/-- `StorageEngine::Impl::write_point`. -/
def writePoint (sort : StdSort) (creatable : String → Bool) (point : TimeSeriesPoint) :
    EngineM Bool := do
  let inserted ← onMemory (·.insert point)
  if inserted then countAndFlush sort creatable 1 else pure false

/-- `StorageEngine::Impl::write_batch`. -/
def writeBatch (sort : StdSort) (creatable : String → Bool) (points : List TimeSeriesPoint) :
    EngineM Bool :=
  if points.isEmpty then pure true
  else do
    let inserted ← onMemory (·.insertBatch sort points)
    if inserted then countAndFlush sort creatable points.length else pure false

/-- `StorageEngine::Impl::optimize`: `flush`, whose result is dropped, then `optimize_index`,
whose lines go to `stderr`. -/
def optimize (sort : StdSort) (creatable : String → Bool) : EngineM Unit := do
  let _ ← flush sort creatable
  let _ ← onDisk (DiskLayer.optimizeIndex sort creatable)

/-- `StorageEngine::Impl::read_range`: memory points, then disk points, sorted by timestamp. -/
def readRange (sort : StdSort) (e : StorageEngine) (symbol : String) (start end_ : Timestamp) :
    Except String (List TimeSeriesPoint) := do
  let memoryPoints := e.memoryLayer.getRange symbol start end_
  let diskPoints ← e.diskLayer.rangeQuery sort symbol start end_
  pure (sort.run (memoryPoints ++ diskPoints))

/-- `StorageEngine::Impl::get_latest`: the memory layer's last point, or the last point of the
disk layer's whole range. -/
def getLatest (sort : StdSort) (e : StorageEngine) (symbol : String) :
    Except String (Option TimeSeriesPoint) :=
  match e.memoryLayer.getLatest symbol with
  | some point => pure (some point)
  | none => do
    let diskPoints ← e.diskLayer.rangeQuery sort symbol .min .max
    pure diskPoints.getLast?

/-- `StorageEngine::Impl::get_symbols`: the memory layer's symbols. -/
def getSymbols (e : StorageEngine) : List String := e.memoryLayer.getSymbols

/-! ## Runs from an empty directory -/

/-- A call of the engine's interface that can change it. -/
inductive EngineOp where
  | writePoint (point : TimeSeriesPoint)
  | writeBatch (points : List TimeSeriesPoint)
  | flush
  | optimize

/-- The engine one call leaves, whether it returned or threw. -/
def EngineOp.apply (sort : StdSort) (creatable : String → Bool) (e : StorageEngine) :
    EngineOp → StorageEngine
  | .writePoint point => stateAfter (StorageEngine.writePoint sort creatable point) e
  | .writeBatch points => stateAfter (StorageEngine.writeBatch sort creatable points) e
  | .flush => stateAfter (StorageEngine.flush sort creatable) e
  | .optimize => stateAfter (StorageEngine.optimize sort creatable) e

/-- The engine after a sequence of calls on a new engine over an empty directory. -/
def runEngine (sort : StdSort) (creatable : String → Bool) (config : EngineConfig)
    (ops : List EngineOp) : StorageEngine :=
  ops.foldl (EngineOp.apply sort creatable) (new config)

/-- The invariants of both layers: memory sequences strictly increasing and of their symbol (M1,
M2), and the index naming its files (S2). -/
structure Healthy (e : StorageEngine) : Prop where
  memory : MemoryLayer.Invariant e.memoryLayer
  disk : DiskLayer.Indexed e.diskLayer

theorem healthy_new (config : EngineConfig) : Healthy (new config) :=
  ⟨MemoryLayer.invariant_empty, DiskLayer.indexed_fresh _ _⟩

section Keeps

variable (sort : StdSort) (creatable : String → Bool)

theorem keeps_onMemory {α : Type} {f : MemoryLayer → α × MemoryLayer}
    (hf : ∀ m, MemoryLayer.Invariant m → MemoryLayer.Invariant (f m).2) :
    Keeps Healthy (onMemory f) :=
  fun _ he => ⟨hf _ he.memory, he.disk⟩

theorem keeps_onDisk {α : Type} {x : DiskM α} (hx : Keeps DiskLayer.Indexed x) :
    Keeps Healthy (onDisk x) := fun e he => by
  rw [stateAfter_onDisk]
  exact ⟨he.memory, hx _ he.disk⟩

theorem keeps_flush : Keeps Healthy (flush sort creatable) :=
  keeps_get_bind fun _ => keeps_ite (keeps_pure true)
    ((keeps_onDisk (DiskLayer.keeps_writeBatch (fun _ _ _ _ hd => hd.addSegment _ _ _) _ _ _)).bind
      fun _ => keeps_ite ((keeps_modify fun _ he => ⟨he.memory.clearCache, he.disk⟩).bind
        fun _ => keeps_pure true) (keeps_pure false))

theorem keeps_countAndFlush (count : Nat) : Keeps Healthy (countAndFlush sort creatable count) :=
  keeps_get_bind fun _ => (keeps_modify fun _ he => ⟨he.memory, he.disk⟩).bind fun _ =>
    keeps_ite (keeps_flush sort creatable) (keeps_pure true)

theorem Healthy.apply {e : StorageEngine} (he : Healthy e) (op : EngineOp) :
    Healthy (op.apply sort creatable e) := by
  cases op with
  | writePoint point =>
    exact ((keeps_onMemory fun m hm => hm.insert point).bind fun _ =>
      keeps_ite (keeps_countAndFlush sort creatable 1) (keeps_pure false)) e he
  | writeBatch points =>
    exact (keeps_ite (keeps_pure true) ((keeps_onMemory fun m hm => hm.insertBatch sort points).bind
      fun _ => keeps_ite (keeps_countAndFlush sort creatable _) (keeps_pure false))) e he
  | flush => exact keeps_flush sort creatable e he
  | optimize =>
    exact ((keeps_flush sort creatable).bind fun _ =>
      (keeps_onDisk (DiskLayer.keeps_optimizeIndex sort creatable)).bind fun _ =>
        keeps_pure ()) e he

/-- Both layers keep their invariants on every engine reachable from an empty directory. -/
theorem healthy_runEngine (config : EngineConfig) (ops : List EngineOp) :
    Healthy (runEngine sort creatable config ops) := by
  suffices ∀ e, Healthy e → Healthy (ops.foldl (EngineOp.apply sort creatable) e) from
    this _ (healthy_new config)
  induction ops with
  | nil => exact fun _ he => he
  | cons op ops ih => exact fun e he => ih _ (he.apply sort creatable op)

end Keeps

/-! ## Segment files of their own -/

/-- The points a call hands the engine. -/
def EngineOp.points : EngineOp → List TimeSeriesPoint
  | .writePoint point => [point]
  | .writeBatch points => points
  | .flush | .optimize => []

/-- Every symbol of the memory layer and of the index is plain, and the data directory's path has
no NUL: two different segments are two different files. -/
structure Plain (e : StorageEngine) : Prop where
  memory : ∀ s ∈ e.memoryLayer.getSymbols, PlainSymbol s
  disk : DiskLayer.Plain e.diskLayer

theorem plain_new {config : EngineConfig} (hdir : nul ∉ config.dataDirectory.data) :
    Plain (new config) :=
  ⟨fun _ h => by simp [new, MemoryLayer.empty, MemoryLayer.getSymbols] at h,
    ⟨hdir, fun _ _ _ h => by simp [new, DiskLayer.findSegment, DiskLayer.fresh] at h⟩⟩

/-- Every point `flush` collects is of a symbol of the map. -/
theorem mem_getSymbols_of_mem_pointsToFlush {m : MemoryLayer} (hm : MemoryLayer.Invariant m)
    {p : TimeSeriesPoint} (hp : p ∈ pointsToFlush m) : p.symbol ∈ m.getSymbols := by
  obtain ⟨s, hs, hp⟩ := mem_flatMap.mp hp
  rw [hm.getRange_eq] at hp
  exact hm.symbol_eq (mem_filter.mp hp).1 ▸ hs

section KeepsPlain

variable (sort : StdSort) (creatable : String → Bool)

theorem keeps_plain_onMemory {α : Type} {f : MemoryLayer → α × MemoryLayer}
    (hf : ∀ m, MemoryLayer.Invariant m → MemoryLayer.Invariant (f m).2)
    (hkeys : ∀ m, ∀ s ∈ (f m).2.getSymbols, PlainSymbol s ∨ s ∈ m.getSymbols) :
    Keeps (fun e => Healthy e ∧ Plain e) (onMemory f) := fun _ he =>
  ⟨⟨hf _ he.1.memory, he.1.disk⟩, ⟨fun s hs => (hkeys _ s hs).elim id (he.2.memory s), he.2.disk⟩⟩

theorem keeps_plain_writeBatch {points : List TimeSeriesPoint}
    (hpoints : ∀ p ∈ points, PlainSymbol p.symbol) :
    Keeps (fun e => Healthy e ∧ Plain e) (onDisk (DiskLayer.writeBatch sort creatable points)) :=
  fun e he => by
    rw [stateAfter_onDisk]
    exact ⟨⟨he.1.memory, DiskLayer.keeps_writeBatch (fun _ _ _ _ hd => hd.addSegment _ _ _) sort
        creatable points _ he.1.disk⟩,
      ⟨he.2.memory, DiskLayer.keeps_writeBatch_of sort creatable points
        (fun p hp _ _ _ hd => hd.addSegment (hpoints p hp) _ _) _ he.2.disk⟩⟩

theorem keeps_plain_flush : Keeps (fun e => Healthy e ∧ Plain e) (flush sort creatable) :=
  keeps_get_bind_of fun _ he => keeps_ite (keeps_pure true)
    ((keeps_plain_writeBatch sort creatable fun _ hp =>
      he.2.memory _ (mem_getSymbols_of_mem_pointsToFlush he.1.memory hp)).bind fun _ =>
        keeps_ite ((keeps_modify fun _ h => ⟨⟨h.1.memory.clearCache, h.1.disk⟩,
          ⟨by simpa using h.2.memory, h.2.disk⟩⟩).bind fun _ => keeps_pure true) (keeps_pure false))

theorem keeps_plain_countAndFlush (count : Nat) :
    Keeps (fun e => Healthy e ∧ Plain e) (countAndFlush sort creatable count) :=
  keeps_get_bind fun _ => (keeps_modify fun _ h =>
    ⟨⟨h.1.memory, h.1.disk⟩, ⟨h.2.memory, h.2.disk⟩⟩).bind fun _ =>
      keeps_ite (keeps_plain_flush sort creatable) (keeps_pure true)

theorem keeps_plain_optimizeIndex :
    Keeps (fun e => Healthy e ∧ Plain e) (onDisk (DiskLayer.optimizeIndex sort creatable)) :=
  fun e he => by
    rw [stateAfter_onDisk]
    exact ⟨⟨he.1.memory, DiskLayer.keeps_optimizeIndex sort creatable _ he.1.disk⟩,
      ⟨he.2.memory, DiskLayer.keeps_optimizeIndex sort creatable _ he.2.disk⟩⟩

/-- A call of plain symbols keeps both layers' invariants and `Plain`. -/
theorem Plain.apply {e : StorageEngine} (he : Healthy e ∧ Plain e) {op : EngineOp}
    (hop : ∀ p ∈ op.points, PlainSymbol p.symbol) :
    Healthy (op.apply sort creatable e) ∧ Plain (op.apply sort creatable e) := by
  cases op with
  | writePoint point =>
    refine ((keeps_plain_onMemory (fun m hm => hm.insert point) fun m s hs => ?_).bind fun _ =>
      keeps_ite (keeps_plain_countAndFlush sort creatable 1) (keeps_pure false)) e he
    rcases (MemoryLayer.mem_getSymbols_insert point).mp hs with rfl | hs
    · exact .inl (hop point (mem_singleton_self _))
    · exact .inr hs
  | writeBatch points =>
    refine (keeps_ite (keeps_pure true) ((keeps_plain_onMemory
      (fun m hm => hm.insertBatch sort points) fun m s hs => ?_).bind fun _ =>
        keeps_ite (keeps_plain_countAndFlush sort creatable _) (keeps_pure false))) e he
    rcases (MemoryLayer.mem_getSymbols_insertBatch sort points).mp hs with ⟨p, hp, rfl⟩ | hs
    · exact .inl (hop p hp)
    · exact .inr hs
  | flush => exact keeps_plain_flush sort creatable e he
  | optimize =>
    exact ((keeps_plain_flush sort creatable).bind fun _ =>
      (keeps_plain_optimizeIndex sort creatable).bind fun _ => keeps_pure ()) e he

/-- On every engine reached by calls of plain symbols from an empty directory whose path has no
NUL, no two segments share a file. -/
theorem plain_runEngine {config : EngineConfig} (hdir : nul ∉ config.dataDirectory.data)
    {ops : List EngineOp} (hplain : ∀ op ∈ ops, ∀ p ∈ op.points, PlainSymbol p.symbol) :
    Plain (runEngine sort creatable config ops) := by
  suffices ∀ e, Healthy e ∧ Plain e → Healthy (ops.foldl (EngineOp.apply sort creatable) e) ∧
      Plain (ops.foldl (EngineOp.apply sort creatable) e) from
    (this _ ⟨healthy_new config, plain_new hdir⟩).2
  induction ops with
  | nil => exact fun _ he => he
  | cons op ops ih =>
    exact fun e he => ih (fun op' hop' => hplain op' (mem_cons_of_mem _ hop')) _
      (Plain.apply sort creatable he (hplain op (mem_cons_self _ _)))

end KeepsPlain

end StorageEngine

end FindataEngine
