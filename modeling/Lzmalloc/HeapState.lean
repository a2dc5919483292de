import Lzmalloc.SizeClasses
import Lzmalloc.DoublyLinked
import Lzmalloc.ByteMemory

/-!
# State of the allocator

Pointers are addresses and null is `0`. Each struct of the source is split by
field: one map per field (or per group of fields that is always written
together), indexed by the address of the struct. Payload bytes live in `mem`,
where free-list links and batch links share the words of the objects. The
operating system is a set of mapped regions together with the answers it is
going to give; an answer that `mmap` is not allowed to give counts as a
failure. `carved` and `directs` are history: no function of the source reads
them.
-/

namespace Lzmalloc.HeapState

open SizeClasses DoublyLinked ByteMemory

set_option autoImplicit false

inductive ChunkType
  | slab
  | span
  | direct
  deriving DecidableEq, Repr

/-- `LZ_CHUNK_MAGIC_V2`. -/
def lzChunkMagicV2 : Nat := 0x434F4C4C414D5A4C

/-- `lz_chunk_header_t` without its `next` link. -/
structure ChunkHeader where
  owningTlh : Nat := 0
  magic : Nat := 0
  canary : Nat := 0
  nodeId : Nat := 0
  checksum : Nat := 0
  chunkType : ChunkType := .slab
  deriving DecidableEq, Repr

def lzCalcChecksum (header : ChunkHeader) : Nat :=
  header.nodeId ^^^ (header.owningTlh % 2 ^ 32) ^^^ (header.owningTlh / 2 ^ 32 % 2 ^ 32)

/-- `lz_slab_t` without its list links. -/
structure Slab where
  memoryBase : Nat := 0
  memoryEnd : Nat := 0
  bumpPtr : Nat := 0
  freeListHead : Nat := 0
  sizeClass : Nat := 0
  blockSize : Nat := 0
  maxObjects : Nat := 0
  usedObjects : Nat := 0
  deriving DecidableEq, Repr

/-- `lz_span_t` without its list links. Only words 0 to 7 of the bitmap and
entries 0 to 511 of the length table exist in the source. -/
structure Span where
  freeBitmap : Nat → BitVec 64 := fun _ => 0
  usedPages : Nat := 0
  allocSizePages : Nat → Nat := fun _ => 0

/-- `lz_bin_t`. -/
structure Bin where
  currentSlab : Nat := 0
  partialList : Nat := 0
  fullList : Nat := 0
  deriving DecidableEq, Repr

/-- `lz_batch_t`. -/
structure Batch where
  targetTlh : Nat := 0
  head : Nat := 0
  tail : Nat := 0
  count : Nat := 0
  deriving DecidableEq, Repr

/-- The fields of `lz_tlh_t` that only its own thread and the telemetry use.
`statSlot` is the index of the telemetry slot, `none` for `NULL`. -/
structure TlhInfo where
  threadId : Nat := 0
  isZombie : Nat := 0
  localBytesAllocBatch : Nat := 0
  localBytesFreeBatch : Nat := 0
  bytesAllocated : Nat := 0
  nextZombie : Nat := 0
  statSlot : Option Nat := none
  deriving DecidableEq, Repr

/-- `lz_numa_pool_t`. -/
structure NumaPool where
  freeChunks : Nat := 0
  availableCount : Nat := 0
  deriving DecidableEq, Repr

/-- Chunk headers, the NUMA pools and the global chunk list. -/
structure Vmm where
  header : Nat → ChunkHeader := fun _ => {}
  next : Nat → Nat := fun _ => 0
  pools : Nat → NumaPool := fun _ => {}
  globalFreeChunks : Nat := 0
  carved : List Nat := []

/-- The two words behind a direct object's header. -/
structure DirectInfo where
  totalBytes : Nat := 0
  size : Nat := 0
  deriving DecidableEq, Repr

/-- The two level radix tree; a leaf that is not mapped yet is `none`. -/
abbrev Rtree := Nat → Option (Nat → Nat)

/-- What the operating system is going to answer, each kind of question
counted separately: regions for extents and direct objects, radix tree leaves,
thread heaps, and the node reported by `getcpu`. -/
structure Env where
  regionMmap : Nat → Option Nat
  leafMmap : Nat → Bool
  tlhMmap : Nat → Option Nat
  node : Nat → Nat

structure State where
  env : Env
  secret : BitVec 64
  telemetry : Bool
  regionCalls : Nat := 0
  leafCalls : Nat := 0
  tlhCalls : Nat := 0
  nodeCalls : Nat := 0
  regions : List (Nat × Nat) := []
  mem : Memory := fun _ => 0
  vmm : Vmm := {}
  rtree : Rtree := fun _ => none
  slab : Nat → Slab := fun _ => {}
  slabLinks : Links Nat := ⟨fun _ => 0, fun _ => 0⟩
  span : Nat → Span := fun _ => {}
  spanLinks : Links Nat := ⟨fun _ => 0, fun _ => 0⟩
  direct : Nat → DirectInfo := fun _ => {}
  directs : List Nat := []
  bins : Nat → Nat → Bin := fun _ _ => {}
  activeSpans : Nat → Nat := fun _ => 0
  remoteFreeHead : Nat → Nat := fun _ => 0
  outgoingBatch : Nat → Batch := fun _ => {}
  tlh : Nat → TlhInfo := fun _ => {}
  heaps : List Nat := []
  slots : Nat → BitVec 64 := fun _ => 0
  tls : Nat → Nat := fun _ => 0
  gThreadCounter : Nat := 0
  gZombieTlhs : Nat := 0

/-- The state after `lz_system_init`. -/
def initial (env : Env) (secret : BitVec 64) (telemetry : Bool) : State :=
  { env := env, secret := secret, telemetry := telemetry }

/-! ## Operating system -/

def Mapped (regions : List (Nat × Nat)) (address : Nat) : Prop :=
  ∃ region ∈ regions, region.1 ≤ address ∧ address < region.1 + region.2

instance (regions : List (Nat × Nat)) (address : Nat) : Decidable (Mapped regions address) :=
  inferInstanceAs (Decidable (∃ region ∈ regions, _ ∧ _))

/-- Page aligned, not null, below the address limit and disjoint from every
mapped region. -/
def MmapValid (regions : List (Nat × Nat)) (raw length : Nat) : Prop :=
  raw % lzPageSize = 0 ∧ 0 < raw ∧ 0 < length ∧ raw + length ≤ addressLimit ∧
    ∀ region ∈ regions, raw + length ≤ region.1 ∨ region.1 + region.2 ≤ raw

instance (regions : List (Nat × Nat)) (raw length : Nat) :
    Decidable (MmapValid regions raw length) :=
  inferInstanceAs (Decidable (_ ∧ _ ∧ _ ∧ _ ∧ _))

/-- Anonymous `mmap`: the mapped bytes, chunk headers included, read as zero. -/
def mmap (s : State) (length : Nat) : Option Nat × State :=
  let asked := { s with regionCalls := s.regionCalls + 1 }
  match s.env.regionMmap s.regionCalls with
  | none => (none, asked)
  | some raw =>
      if MmapValid s.regions raw length then
        (some raw,
          { asked with
            regions := (raw, length) :: s.regions
            mem := fill s.mem raw length 0
            vmm := { s.vmm with
              header := fun address =>
                if raw ≤ address ∧ address < raw + length then {} else s.vmm.header address
              next := fun address =>
                if raw ≤ address ∧ address < raw + length then 0 else s.vmm.next address } })
      else (none, asked)

/-- What is left of one region when `[start, start + length)` is unmapped. -/
def munmapRegion (start length : Nat) (region : Nat × Nat) : List (Nat × Nat) :=
  let finish := region.1 + region.2
  let left := (region.1, min finish start - region.1)
  let right := (max region.1 (start + length), finish - max region.1 (start + length))
  [left, right].filter fun piece => 0 < piece.2

def munmap (s : State) (start length : Nat) : State :=
  { s with regions := s.regions.flatMap (munmapRegion start length) }

theorem mapped_munmap (s : State) (start length address : Nat) :
    Mapped (munmap s start length).regions address ↔
      Mapped s.regions address ∧ ¬(start ≤ address ∧ address < start + length) := by
  simp only [Mapped, munmap, munmapRegion, List.mem_flatMap, List.mem_filter, List.mem_cons,
    List.not_mem_nil, or_false, decide_eq_true_eq]
  constructor
  · rintro ⟨piece, ⟨region, member, rfl | rfl, positive⟩, lower, upper⟩
    · dsimp only at positive lower upper
      exact ⟨⟨region, member, by omega, by omega⟩, by omega⟩
    · dsimp only at positive lower upper
      exact ⟨⟨region, member, by omega, by omega⟩, by omega⟩
  · rintro ⟨⟨region, member, lower, upper⟩, outside⟩
    by_cases before : address < start
    · refine ⟨_, ⟨region, member, Or.inl rfl, ?_⟩, ?_, ?_⟩ <;> dsimp only <;> omega
    · refine ⟨_, ⟨region, member, Or.inr rfl, ?_⟩, ?_, ?_⟩ <;> dsimp only <;> omega

/-- `madvise(MADV_DONTNEED)` on private anonymous memory: reads as zero again. -/
def madviseDontneed (s : State) (start length : Nat) : State :=
  { s with mem := fill s.mem start length 0 }

/-- `lz_get_current_node`; a failing `getcpu` is an out of range answer. -/
def lzGetCurrentNode (s : State) : Nat × State :=
  let node := s.env.node s.nodeCalls
  (if node < lzMaxNumaNodes then node else 0, { s with nodeCalls := s.nodeCalls + 1 })

theorem lz_get_current_node_bound (s : State) : (lzGetCurrentNode s).1 < 16 := by
  by_cases known : s.env.node s.nodeCalls < 16
  · simp [lzGetCurrentNode, known]
  · simp [lzGetCurrentNode, known]

/-! ## Radix tree -/

/-- Level one and level two index of an address. -/
def rtreeL1 (address : Nat) : Nat := address / lzHugePageSize / 16384 % 8192

def rtreeL2 (address : Nat) : Nat := address / lzHugePageSize % 16384

def lzRtreeGet (rtree : Rtree) (address : Nat) : Nat :=
  match rtree (rtreeL1 address) with
  | none => 0
  | some leaf => leaf (rtreeL2 address)

/-- The final store of `lz_rtree_set` into a mapped leaf. -/
def rtreeStore (rtree : Rtree) (leaf : Nat → Nat) (address metadata : Nat) : Rtree :=
  Function.update rtree (rtreeL1 address)
    (some (Function.update leaf (rtreeL2 address) metadata))

def lzRtreeSet (s : State) (chunkAddr metadata : Nat) : State :=
  match s.rtree (rtreeL1 chunkAddr) with
  | some leaf => { s with rtree := rtreeStore s.rtree leaf chunkAddr metadata }
  | none =>
      if metadata = 0 then s
      else
        let asked := { s with leafCalls := s.leafCalls + 1 }
        if s.env.leafMmap s.leafCalls then
          { asked with rtree := rtreeStore s.rtree (fun _ => 0) chunkAddr metadata }
        else asked

def lzRtreeClear (s : State) (chunkAddr : Nat) : State := lzRtreeSet s chunkAddr 0

/-- The loop over all blocks of a direct object. -/
def lzRtreeSetRange (s : State) (base totalBytes metadata : Nat) : State :=
  (List.range ((totalBytes + (lzHugePageSize - 1)) / lzHugePageSize)).foldl
    (fun state index => lzRtreeSet state (base + index * lzHugePageSize) metadata) s

/-- The two indices of the radix tree determine the 2 MB block below `2 ^ 48`. -/
theorem rtree_index_injective {left right : Nat} (leftBound : left < 2 ^ 48)
    (rightBound : right < 2 ^ 48) (first : rtreeL1 left = rtreeL1 right)
    (second : rtreeL2 left = rtreeL2 right) : left / 2097152 = right / 2097152 := by
  simp only [rtreeL1, rtreeL2, lzHugePageSize] at first second
  omega

end Lzmalloc.HeapState
