import FindataEngine.Calls

/-!
# The memory-mapped file of `utils.cpp`

`utils::MemoryMappedFile` opens a file, sets its size and maps it; its destructor unmaps the
mapping and closes the descriptor. The model tracks what the process holds from the kernel: its
open descriptors and its live mappings, each by start address and length. The kernel's answer
to each system call is an argument of the call that makes it, so every theorem holds for every
answer: `open` answers a descriptor or fails, `ftruncate` succeeds or fails, and `mmap` answers
an address or `MAP_FAILED`. `munmap` removes the mapping that starts at its address, whoever
made it. `msync` changes nothing the model tracks, so `flush` is left out.

Between the object's calls, the rest of the process maps and unmaps regions of its own
(`MappedOp`). The kernel hands out only addresses where no mapping starts, and the rest of the
process unmaps only its own regions (`AllowedRun`).

* A constructor that throws leaves the process holding what it held. A constructed object that
  is resized any number of times, none of them with a failing `ftruncate`, and then destroyed,
  leaves the process holding what the rest of it holds: nothing leaks and nothing of the rest is
  released (`destroy_runMapped`). A failed remap is covered: `data_` is then `MAP_FAILED`, where
  no mapping starts.
* A failing `ftruncate` in `resize` is left out of the runs: `resize` has then unmapped the region
  and throws with `data_` still its address, which the kernel may hand out again, to the rest of
  the process as well, and which the destructor unmaps.
-/

set_option autoImplicit false

namespace FindataEngine

namespace Utils

open List

/-! ## What the process holds from the kernel -/

/-- `MAP_FAILED`, the address `(void *) -1` of a 64-bit process: `2^64 - 1`. -/
def mapFailed : Nat := 18446744073709551615

/-- An address `mmap` returns for a new mapping: neither `nullptr` nor `MAP_FAILED`. -/
structure MapAddress where
  addr : Nat
  ne_null : addr ≠ 0
  ne_failed : addr ≠ mapFailed
  deriving DecidableEq

/-- The process's open descriptors, and its live mappings by start address and length. -/
structure Kernel where
  fds : List Int
  maps : List (Nat × Nat)
  deriving DecidableEq

namespace Kernel

/-- `open(path, ...)`, answered a descriptor, or `-1` for `none`. -/
def openFile (k : Kernel) : Option Nat → Int × Kernel
  | none => (-1, k)
  | some fd => (fd, { k with fds := fd :: k.fds })

/-- `close(fd)`. -/
def close (k : Kernel) (fd : Int) : Kernel := { k with fds := k.fds.erase fd }

/-- `mmap(nullptr, size, ...)`, answered an address, or `MAP_FAILED` for `none`. -/
def mmap (k : Kernel) (size : Nat) : Option MapAddress → Nat × Kernel
  | none => (mapFailed, k)
  | some a => (a.addr, { k with maps := (a.addr, size) :: k.maps })

/-- `munmap(addr, size)`: the mapping that starts at `addr` is gone. -/
def munmap (k : Kernel) (addr : Nat) : Kernel := { k with maps := k.maps.filter (·.1 ≠ addr) }

end Kernel

/-- `mmap` answered an address where no mapping of `maps` starts, or failed. -/
def FreshAnswer (maps : List (Nat × Nat)) : Option MapAddress → Prop
  | none => True
  | some a => ∀ m ∈ maps, m.1 ≠ a.addr

instance (maps : List (Nat × Nat)) : (mapped : Option MapAddress) → Decidable (FreshAnswer maps mapped)
  | none => isTrue trivial
  | some a => inferInstanceAs (Decidable (∀ m ∈ maps, m.1 ≠ a.addr))

/-! ## The object -/

/-- The fields of a `MemoryMappedFile`: `data_` as an address, `0` for `nullptr`; `size_`;
`fd_`. -/
structure MemoryMappedFile where
  data : Nat
  size : Nat
  fd : Int
  deriving DecidableEq

/-- The process: what it holds from the kernel, and the object's fields. -/
structure Process where
  kernel : Kernel
  file : MemoryMappedFile
  deriving DecidableEq

namespace MemoryMappedFile

/-- `MemoryMappedFile(path, size)`, with the kernel's answers to its `open`, `ftruncate` and
`mmap`. -/
def create (path : String) (size : Nat) (opened : Option Nat) (truncated : Bool)
    (mapped : Option MapAddress) : EStateM String Kernel MemoryMappedFile := do
  let fd ← modifyGet (·.openFile opened)
  if fd = -1 then throw ("Failed to open file: " ++ path)
  if !truncated then
    modify (·.close fd)
    throw "Failed to set file size"
  let data ← modifyGet (·.mmap size mapped)
  if data = mapFailed then
    modify (·.close fd)
    throw "Failed to map file into memory"
  pure ⟨data, size, fd⟩

/-- `~MemoryMappedFile()`: the kernel it leaves. -/
def destroy (f : MemoryMappedFile) (k : Kernel) : Kernel :=
  let k := if f.data ≠ 0 then k.munmap f.data else k
  if f.fd ≠ -1 then k.close f.fd else k

/-- `resize(new_size)`, with the kernel's answers to its `ftruncate` and `mmap`. -/
def resize (newSize : Nat) (truncated : Bool) (mapped : Option MapAddress) :
    EStateM String Process Unit := do
  let p ← get
  if newSize = p.file.size then return
  if p.file.data ≠ 0 then set { p with kernel := p.kernel.munmap p.file.data }
  if !truncated then throw "Failed to resize file"
  let p ← get
  let (data, kernel) := p.kernel.mmap newSize mapped
  set { p with kernel := kernel, file := { p.file with data := data } }
  if data = mapFailed then throw "Failed to remap file"
  modify fun p => { p with file := { p.file with size := newSize } }

end MemoryMappedFile

/-! ## Runs -/

/-- A `resize` of the object, or a mapping the rest of the process makes or removes. -/
inductive MappedOp where
  | resize (newSize : Nat) (truncated : Bool) (mapped : Option MapAddress)
  | mapOther (size : Nat) (mapped : MapAddress)
  | unmapOther (addr : Nat)
  deriving DecidableEq

namespace MappedOp

/-- The process after the step, whether `resize` returned or threw. -/
def apply (p : Process) : MappedOp → Process
  | .resize newSize truncated mapped =>
    stateAfter (MemoryMappedFile.resize newSize truncated mapped) p
  | .mapOther size a => { p with kernel := (p.kernel.mmap size (some a)).2 }
  | .unmapOther addr => { p with kernel := p.kernel.munmap addr }

/-- What the rest of the process holds after the step. -/
def applyRest (k : Kernel) : MappedOp → Kernel
  | .resize .. => k
  | .mapOther size a => (k.mmap size (some a)).2
  | .unmapOther addr => k.munmap addr

/-- What the kernel and the rest of the process guarantee at the step: `mmap` answers an address
where no mapping starts, and the rest unmaps only its own regions. A `resize` here is one whose
`ftruncate` succeeds. -/
def Allowed (p : Process) : MappedOp → Prop
  | .resize _ truncated mapped =>
    truncated = true ∧ FreshAnswer (p.kernel.munmap p.file.data).maps mapped
  | .mapOther _ a => FreshAnswer p.kernel.maps (some a)
  | .unmapOther addr => addr ≠ p.file.data

instance (p : Process) : (op : MappedOp) → Decidable (op.Allowed p)
  | .resize _ truncated mapped =>
    inferInstanceAs (Decidable (truncated = true ∧ FreshAnswer _ mapped))
  | .mapOther _ a => inferInstanceAs (Decidable (FreshAnswer _ (some a)))
  | .unmapOther addr => inferInstanceAs (Decidable (addr ≠ _))

end MappedOp

/-- The steps one after another. -/
def runMapped (p : Process) (ops : List MappedOp) : Process := ops.foldl MappedOp.apply p

/-- Every step of the run is allowed in the process it finds. -/
def AllowedRun : Process → List MappedOp → Prop
  | _, [] => True
  | p, op :: ops => op.Allowed p ∧ AllowedRun (op.apply p) ops

/-- `AllowedRun`, decided step by step. -/
def decideAllowedRun : (p : Process) → (ops : List MappedOp) → Decidable (AllowedRun p ops)
  | _, [] => isTrue trivial
  | p, op :: ops =>
    match decideAllowedRun (op.apply p) ops with
    | isTrue h => if hop : op.Allowed p then isTrue ⟨hop, h⟩ else isFalse fun h' => hop h'.1
    | isFalse h => isFalse fun h' => h h'.2

instance (p : Process) (ops : List MappedOp) : Decidable (AllowedRun p ops) :=
  decideAllowedRun p ops

/-! ## What each call does -/

section Run

variable {ε σ α : Type}

theorem run_get (s : σ) : (MonadState.get : EStateM ε σ σ).run s = .ok s s := rfl

theorem run_set (s' s : σ) : (set s' : EStateM ε σ PUnit).run s = .ok ⟨⟩ s' := rfl

theorem run_modify (f : σ → σ) (s : σ) : (modify f : EStateM ε σ PUnit).run s = .ok ⟨⟩ (f s) :=
  rfl

theorem run_modifyGet (f : σ → α × σ) (s : σ) :
    (modifyGet f : EStateM ε σ α).run s = .ok (f s).1 (f s).2 := rfl

theorem run_throw (e : ε) (s : σ) : (throw e : EStateM ε σ α).run s = .error e s := rfl

end Run

namespace MemoryMappedFile

variable {path : String} {size : Nat} {k k' : Kernel}

/-- The constructor returns when `open`, `ftruncate` and `mmap` succeed. -/
theorem create_run_mapped (path : String) (size fd : Nat) (a : MapAddress) (k : Kernel) :
    (create path size (some fd) true (some a)).run k =
      .ok ⟨a.addr, size, fd⟩ ⟨fd :: k.fds, (a.addr, size) :: k.maps⟩ := by
  have hfd : (fd : Int) ≠ -1 := by omega
  simp only [create, run_bind, run_modifyGet, run_pure, Kernel.openFile, Kernel.mmap, if_neg hfd,
    if_neg a.ne_failed, Bool.not_true, Bool.false_eq_true, if_false]

/-- A constructor that throws has closed the descriptor it opened and mapped nothing. -/
theorem create_error {opened : Option Nat} {truncated : Bool} {mapped : Option MapAddress}
    {e : String} (h : (create path size opened truncated mapped).run k = .error e k') : k' = k := by
  match opened, truncated, mapped with
  | none, _, _ => cases h; rfl
  | some _, false, _ | some _, true, none =>
    cases h
    exact congrArg (Kernel.mk · k.maps) (erase_cons_head _ _)
  | some fd, true, some a =>
    rw [create_run_mapped] at h
    cases h

/-- A constructor that returns holds one new descriptor and one new mapping. -/
theorem create_ok {opened : Option Nat} {truncated : Bool} {mapped : Option MapAddress}
    {file : MemoryMappedFile} (h : (create path size opened truncated mapped).run k = .ok file k') :
    ∃ (fd : Nat) (a : MapAddress), mapped = some a ∧ file = ⟨a.addr, size, fd⟩ ∧
      k' = ⟨fd :: k.fds, (a.addr, size) :: k.maps⟩ := by
  match opened, truncated, mapped with
  | none, _, _ | some _, false, _ | some _, true, none => cases h
  | some fd, true, some a =>
    rw [create_run_mapped] at h
    cases h
    exact ⟨fd, a, rfl, rfl, rfl⟩

/-- The destructor unmaps what starts at `data_` whatever `fd_` is. -/
theorem destroy_maps (f : MemoryMappedFile) (k : Kernel) (h : f.data ≠ 0) :
    (f.destroy k).maps = (k.munmap f.data).maps := by
  unfold destroy
  rw [if_pos h]
  split <;> rfl

variable {p : Process} {newSize : Nat} {truncated : Bool} {mapped : Option MapAddress}

theorem resize_same (h : newSize = p.file.size) :
    stateAfter (resize newSize truncated mapped) p = p := by
  simp only [resize, stateAfter, run_get_bind, if_pos h, run_pure]

theorem resize_unmapped (hsize : newSize ≠ p.file.size) (hdata : p.file.data ≠ 0) :
    stateAfter (resize newSize true none) p =
      ⟨p.kernel.munmap p.file.data, { p.file with data := mapFailed }⟩ := by
  simp only [resize, stateAfter, run_get_bind, run_get, if_neg hsize, if_pos hdata, run_bind,
    run_set, Bool.not_true, Bool.false_eq_true, if_false, run_pure, Kernel.mmap, if_true,
    run_throw]

theorem resize_mapped (hsize : newSize ≠ p.file.size) (hdata : p.file.data ≠ 0) (a : MapAddress) :
    stateAfter (resize newSize true (some a)) p =
      ⟨((p.kernel.munmap p.file.data).mmap newSize (some a)).2, ⟨a.addr, newSize, p.file.fd⟩⟩ := by
  simp only [resize, stateAfter, run_get_bind, run_get, if_neg hsize, if_pos hdata, run_bind,
    run_set, Bool.not_true, Bool.false_eq_true, if_false, run_pure, Kernel.mmap, if_neg a.ne_failed,
    run_modify]

end MemoryMappedFile

/-! ## What the object owns -/

/-- The mapping the object holds: none once a remap failed. -/
def MemoryMappedFile.mapping (f : MemoryMappedFile) : List (Nat × Nat) :=
  if f.data = mapFailed then [] else [(f.data, f.size)]

/-- The process holds what its rest holds, the object's descriptor and the object's mapping. No
mapping of the rest starts at the object's address or at `MAP_FAILED`. -/
structure Owns (rest : Kernel) (p : Process) : Prop where
  fds : p.kernel.fds = p.file.fd :: rest.fds
  maps : p.kernel.maps ~ p.file.mapping ++ rest.maps
  data_ne_null : p.file.data ≠ 0
  fd_ne : p.file.fd ≠ -1
  rest_ne_data : ∀ m ∈ rest.maps, m.1 ≠ p.file.data
  rest_ne_failed : ∀ m ∈ rest.maps, m.1 ≠ mapFailed

namespace Owns

variable {rest : Kernel} {p : Process}

theorem filter_mapping (p : Process) : p.file.mapping.filter (·.1 ≠ p.file.data) = [] := by
  unfold MemoryMappedFile.mapping
  split <;> simp

/-- Unmapping the object's address leaves the rest's mappings. -/
theorem munmap_maps (h : Owns rest p) : (p.kernel.munmap p.file.data).maps ~ rest.maps := by
  refine (h.maps.filter _).trans ?_
  rw [filter_append, filter_mapping, nil_append, filter_eq_self.mpr]
  exact fun m hm => by simpa using h.rest_ne_data m hm

/-- The destructor gives back the object's descriptor and mapping, and nothing else. -/
theorem destroy (h : Owns rest p) :
    (p.file.destroy p.kernel).fds = rest.fds ∧ (p.file.destroy p.kernel).maps ~ rest.maps := by
  simp only [MemoryMappedFile.destroy, if_pos h.data_ne_null, if_pos h.fd_ne]
  exact ⟨by simp [Kernel.close, Kernel.munmap, h.fds], h.munmap_maps⟩

/-- A `resize` whose `ftruncate` succeeds, answered a fresh address or `MAP_FAILED`, keeps what
the object owns. -/
theorem resize (h : Owns rest p) {newSize : Nat} {mapped : Option MapAddress}
    (hfresh : FreshAnswer (p.kernel.munmap p.file.data).maps mapped) :
    Owns rest (stateAfter (MemoryMappedFile.resize newSize true mapped) p) := by
  by_cases hsize : newSize = p.file.size
  · rwa [MemoryMappedFile.resize_same hsize]
  match mapped with
  | none =>
    rw [MemoryMappedFile.resize_unmapped hsize h.data_ne_null]
    refine ⟨h.fds, ?_, (by decide : mapFailed ≠ 0), h.fd_ne, h.rest_ne_failed, h.rest_ne_failed⟩
    simpa [MemoryMappedFile.mapping] using h.munmap_maps
  | some a =>
    rw [MemoryMappedFile.resize_mapped hsize h.data_ne_null]
    refine ⟨h.fds, ?_, a.ne_null, h.fd_ne, fun m hm => hfresh m ?_, h.rest_ne_failed⟩
    · simpa [MemoryMappedFile.mapping, Kernel.mmap, a.ne_failed] using h.munmap_maps
    · exact h.munmap_maps.symm.subset hm

/-- A mapping the rest makes at a fresh address keeps what the object owns. -/
theorem mapOther (h : Owns rest p) {size : Nat} {a : MapAddress}
    (hfresh : FreshAnswer p.kernel.maps (some a)) :
    Owns (rest.mmap size (some a)).2 { p with kernel := (p.kernel.mmap size (some a)).2 } := by
  have hne : a.addr ≠ p.file.data := by
    by_cases hfailed : p.file.data = mapFailed
    · exact hfailed ▸ a.ne_failed
    · exact fun heq => hfresh (p.file.data, p.file.size)
        (h.maps.symm.subset (by simp [MemoryMappedFile.mapping, hfailed])) heq.symm
  refine ⟨h.fds, ((h.maps.cons _).trans perm_middle.symm), h.data_ne_null, h.fd_ne, ?_, ?_⟩
  · simpa [Kernel.mmap, hne] using h.rest_ne_data
  · simpa [Kernel.mmap, a.ne_failed] using h.rest_ne_failed

/-- The rest unmapping one of its own regions keeps what the object owns. -/
theorem unmapOther (h : Owns rest p) {addr : Nat} (haddr : addr ≠ p.file.data) :
    Owns (rest.munmap addr) { p with kernel := p.kernel.munmap addr } := by
  have hmapping : p.file.mapping.filter (·.1 ≠ addr) = p.file.mapping := by
    unfold MemoryMappedFile.mapping
    split <;> simp [Ne.symm haddr]
  refine ⟨h.fds, ?_, h.data_ne_null, h.fd_ne, fun m hm => h.rest_ne_data m (mem_filter.mp hm).1,
    fun m hm => h.rest_ne_failed m (mem_filter.mp hm).1⟩
  exact (h.maps.filter _).trans (by rw [filter_append, hmapping]; rfl)

/-- Every allowed step keeps what the object owns over what the rest holds after it. -/
theorem apply (h : Owns rest p) {op : MappedOp} (hop : op.Allowed p) :
    Owns (op.applyRest rest) (op.apply p) := by
  cases op with
  | resize _ _ _ =>
    obtain ⟨rfl, hfresh⟩ := hop
    exact h.resize hfresh
  | mapOther _ _ => exact h.mapOther hop
  | unmapOther _ => exact h.unmapOther hop

/-- ... and so does every allowed run. -/
theorem runMapped (h : Owns rest p) {ops : List MappedOp} (hops : AllowedRun p ops) :
    Owns (ops.foldl MappedOp.applyRest rest) (Utils.runMapped p ops) := by
  induction ops generalizing rest p with
  | nil => exact h
  | cons _ _ ih => exact ih (h.apply hops.1) hops.2

end Owns

/-! ## A whole lifetime -/

/-- Whatever the kernel answers: a constructor that throws leaves the process holding what it
held, and a constructed object, resized any number of times with no failing `ftruncate` while the
rest of the process maps and unmaps regions of its own, then destroyed, leaves the process
holding exactly what the rest of it holds. -/
theorem destroy_runMapped (path : String) (size : Nat) (opened : Option Nat) (truncated : Bool)
    (mapped : Option MapAddress) (k₀ : Kernel) (hk₀ : ∀ m ∈ k₀.maps, m.1 ≠ mapFailed)
    (hfresh : FreshAnswer k₀.maps mapped) (ops : List MappedOp) :
    (∀ e k, (MemoryMappedFile.create path size opened truncated mapped).run k₀ = .error e k →
      k = k₀) ∧
    ∀ file k, (MemoryMappedFile.create path size opened truncated mapped).run k₀ = .ok file k →
      AllowedRun ⟨k, file⟩ ops →
        ((runMapped ⟨k, file⟩ ops).file.destroy (runMapped ⟨k, file⟩ ops).kernel).fds =
            (ops.foldl MappedOp.applyRest k₀).fds ∧
          ((runMapped ⟨k, file⟩ ops).file.destroy (runMapped ⟨k, file⟩ ops).kernel).maps ~
            (ops.foldl MappedOp.applyRest k₀).maps := by
  refine ⟨fun _ _ h => MemoryMappedFile.create_error h, fun file k h hops => ?_⟩
  obtain ⟨fd, a, rfl, rfl, rfl⟩ := MemoryMappedFile.create_ok h
  have hfd : (fd : Int) ≠ -1 := by omega
  have hown : Owns k₀ ⟨⟨fd :: k₀.fds, (a.addr, size) :: k₀.maps⟩, ⟨a.addr, size, fd⟩⟩ := by
    refine ⟨rfl, ?_, a.ne_null, hfd, hfresh, hk₀⟩
    rw [MemoryMappedFile.mapping, if_neg a.ne_failed]
    rfl
  exact (hown.runMapped hops).destroy

/-- A page of a process that holds nothing else. -/
def onePage : MapAddress := ⟨4096, by decide, by decide⟩

/-- The page grown to two pages at `8192`, while the rest of the process maps a page at
`16384`. -/
def growthRun : List MappedOp :=
  [.resize 8192 true (some ⟨8192, by decide, by decide⟩), .mapOther 4096 ⟨16384, by decide, by decide⟩]

theorem destroy_runMapped_growthRun :
    (∀ m ∈ (⟨[], []⟩ : Kernel).maps, m.1 ≠ mapFailed) ∧ FreshAnswer [] (some onePage) ∧
      (MemoryMappedFile.create "data.bin" 4096 (some 3) true (some onePage)).run ⟨[], []⟩ =
        .ok ⟨4096, 4096, 3⟩ ⟨[3], [(4096, 4096)]⟩ ∧
      AllowedRun ⟨⟨[3], [(4096, 4096)]⟩, ⟨4096, 4096, 3⟩⟩ growthRun ∧
      ((runMapped ⟨⟨[3], [(4096, 4096)]⟩, ⟨4096, 4096, 3⟩⟩ growthRun).file.destroy
          (runMapped ⟨⟨[3], [(4096, 4096)]⟩, ⟨4096, 4096, 3⟩⟩ growthRun).kernel).fds =
        (growthRun.foldl MappedOp.applyRest ⟨[], []⟩).fds ∧
      ((runMapped ⟨⟨[3], [(4096, 4096)]⟩, ⟨4096, 4096, 3⟩⟩ growthRun).file.destroy
          (runMapped ⟨⟨[3], [(4096, 4096)]⟩, ⟨4096, 4096, 3⟩⟩ growthRun).kernel).maps ~
        (growthRun.foldl MappedOp.applyRest ⟨[], []⟩).maps :=
  ⟨by decide, by decide, rfl, by decide,
    (destroy_runMapped "data.bin" 4096 (some 3) true (some onePage) ⟨[], []⟩ (by decide)
      (by decide) growthRun).2 _ _ rfl (by decide)⟩

end Utils

end FindataEngine
