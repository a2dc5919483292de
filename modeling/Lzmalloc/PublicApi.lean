import Lzmalloc.ThreadHeap

/-!
# Public interface

`lzmalloc.c`: routing, thread start and exit, garbage collection and the direct
engine. Every call runs as one step on behalf of a thread. A result `none` is
the end of the process: the trap after a failed heap mapping, or a memory fault
(a header store into a region whose length wrapped to nothing, a copy that runs
past the user address space).
-/

namespace Lzmalloc.PublicApi

open SizeClasses HeapState VirtualMemoryManager ByteMemory Engines ThreadHeap

set_option autoImplicit false

/-! ## Large objects -/

def lzSysAllocHugeAligned (s : State) (totalSize : Nat) : Option Nat × State :=
  let requestSize := (totalSize + lzHugePageSize) % 2 ^ 64
  match mmap s requestSize with
  | (none, s) => (none, s)
  | (some rawAddr, s) =>
      if rawAddr % lzHugePageSize = 0 then
        (some rawAddr, munmap s (rawAddr + totalSize) lzHugePageSize)
      else
        let alignedAddr := lzAlignUp rawAddr lzHugePageSize
        let prefixSize := alignedAddr - rawAddr
        let suffixSize := requestSize - prefixSize - totalSize
        let s := if prefixSize > 0 then munmap s rawAddr prefixSize else s
        let s := if suffixSize > 0 then munmap s (alignedAddr + totalSize) suffixSize else s
        (some alignedAddr, s)

/-- `total_bytes` of a direct object, in 64-bit arithmetic. -/
def directTotal (payloadOffset size : Nat) : Nat :=
  lzAlignUp ((payloadOffset + size) % 2 ^ 64) lzHugePageSize

def directHeader : ChunkHeader :=
  let header : ChunkHeader := { magic := lzChunkMagicV2, chunkType := .direct }
  { header with checksum := lzCalcChecksum header }

def writeDirect (s : State) (ptr totalBytes size : Nat) : State :=
  { s with
    vmm := { s.vmm with
      header := Function.update s.vmm.header ptr directHeader
      next := Function.update s.vmm.next ptr 0 }
    direct := Function.update s.direct ptr ⟨totalBytes, size⟩
    directs := ptr :: s.directs }

/-- The direct path of `lz_malloc` (offset 128) and of `lz_memalign` (offset
rounded up to the alignment). -/
def mapDirect (s : State) (payloadOffset size : Nat) : Option (Nat × State) :=
  let totalBytes := directTotal payloadOffset size
  match lzSysAllocHugeAligned s totalBytes with
  | (none, s) => some (0, s)
  | (some ptr, s) =>
      if Mapped s.regions ptr then
        some (ptr + payloadOffset,
          lzRtreeSetRange (writeDirect s ptr totalBytes size) ptr totalBytes ptr)
      else none

def unmapDirect (s : State) (chunk : Nat) : State :=
  let totalBytes := (s.direct chunk).totalBytes
  let cleared := lzRtreeSetRange s chunk totalBytes 0
  { munmap cleared chunk totalBytes with directs := s.directs.erase chunk }

/-! ## Zombie heaps, thread start and exit -/

/-- Pops the first zombie, under the zombie lock. -/
def lzResurrectZombie (s : State) : Nat × State :=
  let head := s.gZombieTlhs
  if head = 0 then (0, s)
  else
    (head,
      { s with
        gZombieTlhs := (s.tlh head).nextZombie
        tlh := Function.update s.tlh head { s.tlh head with nextZombie := 0 } })

/-- A successful `mmap` of a heap is at an address of its own. -/
def HeapMmapValid (heaps : List Nat) (address : Nat) : Prop :=
  0 < address ∧ address < addressLimit ∧ address ∉ heaps

instance (heaps : List Nat) (address : Nat) : Decidable (HeapMmapValid heaps address) :=
  inferInstanceAs (Decidable (_ ∧ _ ∧ _))

/-- Maps and initialises a new heap; `none` is the trap on `MAP_FAILED`. -/
def mapHeap (s : State) : Option (Nat × State) :=
  match s.env.tlhMmap s.tlhCalls with
  | none => none
  | some address =>
      if HeapMmapValid s.heaps address then
        let mapped := { s with tlhCalls := s.tlhCalls + 1, heaps := address :: s.heaps }
        some (address, lzTlhInit mapped address s.gThreadCounter)
      else none

/-- The common tail of `ensure_tls_init`. -/
def attachHeap (s : State) (thread tlh : Nat) : State :=
  let info := s.tlh tlh
  let slot :=
    if s.telemetry then
      some (lzThreadSlotBaseIdx + info.threadId % (lzMaxTelemetrySlots - lzThreadSlotBaseIdx))
    else none
  { s with
    tls := Function.update s.tls thread tlh
    tlh := Function.update s.tlh tlh
      { info with localBytesAllocBatch := 0, localBytesFreeBatch := 0, statSlot := slot } }

def ensureTlsInit (s : State) (thread : Nat) : Option State :=
  if s.tls thread ≠ 0 then some s
  else
    let adopted := lzResurrectZombie s
    if adopted.1 ≠ 0 then
      let s := adopted.2
      let info := { s.tlh adopted.1 with isZombie := 0, threadId := s.gThreadCounter }
      some (attachHeap
        { s with
          gThreadCounter := (s.gThreadCounter + 1) % 2 ^ 32
          tlh := Function.update s.tlh adopted.1 info } thread adopted.1)
    else
      match mapHeap s with
      | none => none
      | some (tlh, s) =>
          some (attachHeap { s with gThreadCounter := (s.gThreadCounter + 1) % 2 ^ 32 } thread tlh)

/-- The telemetry part of `lz_tlh_destructor`. -/
def flushTelemetry (s : State) (tlh : Nat) : State :=
  let info := s.tlh tlh
  match info.statSlot with
  | none => s
  | some slot =>
      { s with
        slots := Function.update s.slots slot
          (s.slots slot + BitVec.ofNat 64 info.localBytesAllocBatch -
            BitVec.ofNat 64 info.localBytesFreeBatch)
        tlh := Function.update s.tlh tlh
          { info with localBytesAllocBatch := 0, localBytesFreeBatch := 0 } }

def lzTlhDestructor (s : State) (tlh : Nat) : State :=
  if tlh = 0 then s
  else
    let s := flushTelemetry (lzTlhFlushOutgoingBatch s tlh) tlh
    { s with
      gZombieTlhs := tlh
      tlh := Function.update s.tlh tlh
        { s.tlh tlh with isZombie := 1, nextZombie := s.gZombieTlhs } }

/-- Thread exit: the key destructor runs on the thread's heap, then the thread
and its thread-local pointer are gone. -/
def threadExit (s : State) (thread : Nat) : State :=
  let s := lzTlhDestructor s (s.tls thread)
  { s with tls := Function.update s.tls thread 0 }

/-- The walk over the zombie list; `fuel` bounds the number of heaps. -/
def gcLoop : Nat → State → Nat → State
  | 0, s, _ => s
  | fuel + 1, s, current =>
      if current = 0 then s
      else
        let s := lzTlhReap s current
        gcLoop fuel s (s.tlh current).nextZombie

def lzmallocGc (s : State) (thread : Nat) : State :=
  let s := if s.tls thread ≠ 0 then lzTlhReap s (s.tls thread) else s
  lzVmmPurgeAllCaches (gcLoop addressLimit s s.gZombieTlhs)

/-! ## Allocation and free -/

def lzMalloc (s : State) (thread size : Nat) : Option (Nat × State) :=
  let size := if size = 0 then 1 else size
  if size ≤ lzMaxSlabObjSize then
    (ensureTlsInit s thread).map fun s => lzTlhAlloc s (s.tls thread) size
  else if size ≤ lzMaxSpanObjSize then
    (ensureTlsInit s thread).map fun s => lzSpanAlloc s (s.tls thread) size
  else mapDirect s 128 size

/-- The lookup that `lz_free` and `lz_malloc_usable_size` share. -/
def resolve (s : State) (ptr : Nat) : Nat :=
  let chunk := lzRtreeGet s.rtree ptr
  if chunk = 0 then lzRtreeGet s.rtree (chunkBase ptr) else chunk

def lzFree (s : State) (thread ptr : Nat) : Option State :=
  if ptr = 0 then some s
  else
    let chunk := resolve s ptr
    if chunk = 0 then some s
    else if ¬magicOk s.vmm chunk then some s
    else if (s.vmm.header chunk).chunkType = .direct then some (unmapDirect s chunk)
    else (ensureTlsInit s thread).map fun s => lzTlhFree s (s.tls thread) ptr

def lzMallocUsableSize (s : State) (ptr : Nat) : Nat :=
  if ptr = 0 then 0
  else
    let chunk := resolve s ptr
    if chunk = 0 then 0
    else if ¬magicOk s.vmm chunk then 0
    else
      match (s.vmm.header chunk).chunkType with
      | .direct => (s.direct chunk).size
      | .slab => (s.slab (chunk + lzCacheLineSize)).blockSize
      | .span =>
          let startPage := (ptr - chunk) / lzPageSize % 2 ^ 32
          (s.span (chunk + lzCacheLineSize)).allocSizePages startPage * lzPageSize

def lzCalloc (s : State) (thread num size : Nat) : Option (Nat × State) :=
  let num' := if num = 0 ∨ size = 0 then 1 else num
  let size' := if num = 0 ∨ size = 0 then 1 else size
  if (2 ^ 64 - 1) / num' < size' then some (0, s)
  else
    let totalSize := num' * size'
    (lzMalloc s thread totalSize).map fun allocated =>
      if allocated.1 = 0 then (0, allocated.2)
      else if totalSize ≤ lzMaxSpanObjSize then
        (allocated.1,
          { allocated.2 with mem := fill allocated.2.mem allocated.1 totalSize 0 })
      else allocated

def lzRealloc (s : State) (thread ptr newSize : Nat) : Option (Nat × State) :=
  if ptr = 0 then lzMalloc s thread newSize
  else if newSize = 0 then (lzFree s thread ptr).map fun s => (0, s)
  else
    let oldSize := lzMallocUsableSize s ptr
    if oldSize = 0 then some (0, s)
    else if newSize ≤ oldSize then some (ptr, s)
    else
      (lzMalloc s thread newSize).bind fun allocated =>
        if allocated.1 = 0 then some (0, allocated.2)
        else if ptr + oldSize > addressLimit ∨ allocated.1 + oldSize > addressLimit then none
        else
          let copied :=
            { allocated.2 with mem := copy allocated.2.mem allocated.1 ptr oldSize }
          (lzFree copied thread ptr).map fun s => (allocated.1, s)

/-- `dynamic_offset` of `lz_memalign`. -/
def memalignOffset (alignment : Nat) : Nat := lzAlignUp 128 alignment

/-- The two conditions that keep `lz_memalign` away from the direct engine. -/
def memalignDirect (alignment size : Nat) : Prop :=
  ¬(alignment ≤ 64 ∧ size ≤ lzMaxSlabObjSize) ∧ ¬(alignment ≤ lzPageSize ∧ size ≤ lzMaxSpanObjSize)

instance (alignment size : Nat) : Decidable (memalignDirect alignment size) :=
  inferInstanceAs (Decidable (¬_ ∧ ¬_))

def lzMemalign (s : State) (thread alignment size : Nat) : Option (Nat × State) :=
  if alignment = 0 ∨ ¬isPowerOfTwo alignment then some (0, s)
  else if alignment ≤ 64 ∧ size ≤ lzMaxSlabObjSize then
    lzMalloc s thread (lzAlignUp size alignment)
  else if alignment ≤ lzPageSize ∧ size ≤ lzMaxSpanObjSize then
    (ensureTlsInit s thread).map fun s => lzSpanAlloc s (s.tls thread) size
  else mapDirect s (memalignOffset alignment) size

/-! ## Aligned interface -/

def einval : Nat := 22

def enomem : Nat := 12

/-- `lz_posix_memalign`: the return code and what is stored through `memptr`. -/
def lzPosixMemalign (s : State) (thread memptr alignment size : Nat) :
    Option (Nat × Option Nat × State) :=
  if memptr = 0 then some (einval, none, s)
  else if alignment % 8 ≠ 0 ∨ ¬isPowerOfTwo alignment then some (einval, none, s)
  else
    (lzMemalign s thread alignment size).map fun allocated =>
      if allocated.1 = 0 then (enomem, none, allocated.2) else (0, some allocated.1, allocated.2)

def lzAlignedAlloc (s : State) (thread alignment size : Nat) : Option (Nat × State) :=
  if alignment = 0 ∨ ¬isPowerOfTwo alignment then some (0, s)
  else if size % alignment ≠ 0 then some (0, s)
  else lzMemalign s thread alignment size

/-- The page size that `lz_valloc` and `lz_pvalloc` use, given the answer of
`sysconf`. -/
def reportedPageSize (sysconf : Int) : Nat := if sysconf ≤ 0 then 4096 else sysconf.toNat

def lzValloc (s : State) (thread : Nat) (sysconf : Int) (size : Nat) : Option (Nat × State) :=
  lzMemalign s thread (reportedPageSize sysconf) size

def lzPvalloc (s : State) (thread : Nat) (sysconf : Int) (size : Nat) : Option (Nat × State) :=
  lzMemalign s thread (reportedPageSize sysconf) (lzAlignUp size (reportedPageSize sysconf))

end Lzmalloc.PublicApi
