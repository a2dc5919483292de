import Lzmalloc.HeapState

/-!
# Virtual memory manager

Each lock-protected section of `vmm.c` is one function on `Vmm`, the unlocked
header writes between them are functions of their own. `lzVmmAllocChunk`,
`lzVmmFreeChunk` and `lzVmmPurgeAllCaches` run the sections one after another
on the whole allocator state; the interleaved model of the manager takes the
same sections one at a time.
-/

namespace Lzmalloc.VirtualMemoryManager

open SizeClasses HeapState

set_option autoImplicit false

@[simp] def lzExtentChunks : Nat := 32
@[simp] def lzExtentSize : Nat := lzHugePageSize * lzExtentChunks

/-- `lz_topology_get_pool`, as an index. -/
def lzTopologyGetPool (nodeId : Nat) : Nat := if nodeId ≥ lzMaxNumaNodes then 0 else nodeId

/-- First locked section of `lz_vmm_alloc_chunk`: pop from the node's pool. -/
def poolPop (v : Vmm) (node : Nat) : Nat × Vmm :=
  let index := lzTopologyGetPool node
  let pool := v.pools index
  if pool.freeChunks = 0 then (0, v)
  else
    (pool.freeChunks,
      { v with
        pools := Function.update v.pools index
          ⟨v.next pool.freeChunks, (pool.availableCount + (2 ^ 64 - 1)) % 2 ^ 64⟩ })

/-- Pop from the global list, under the global lock. -/
def globalPop (v : Vmm) : Nat × Vmm :=
  if v.globalFreeChunks = 0 then (0, v)
  else (v.globalFreeChunks, { v with globalFreeChunks := v.next v.globalFreeChunks })

/-- Push onto the global list, under the global lock. -/
def globalPush (v : Vmm) (chunk : Nat) : Vmm :=
  { v with next := Function.update v.next chunk v.globalFreeChunks, globalFreeChunks := chunk }

/-- Locked section of `sys_alloc_extent`: all 32 chunks go to the global list. -/
def carveExtent (v : Vmm) (alignedAddr : Nat) : Vmm :=
  let chunks := (List.range lzExtentChunks).map fun i => alignedAddr + i * lzHugePageSize
  { chunks.foldl globalPush v with carved := chunks ++ v.carved }

/-- `chunk->next = NULL` on the pool hit path. -/
def clearNext (v : Vmm) (chunk : Nat) : Vmm :=
  { v with next := Function.update v.next chunk 0 }

/-- The header reset for chunks that come from the global list. -/
def neutralize (v : Vmm) (chunk currentNode : Nat) : Vmm :=
  { v with
    next := Function.update v.next chunk 0
    header := Function.update v.header chunk
      { v.header chunk with
        owningTlh := 0
        nodeId := currentNode
        magic := lzChunkMagicV2
        canary := 0
        checksum := 0 } }

/-- Locked section of `lz_vmm_free_chunk`; `true` means that the pool is full
and the chunk goes back to the global list. -/
def poolPush (v : Vmm) (chunk : Nat) : Bool × Vmm :=
  let index := lzTopologyGetPool (v.header chunk).nodeId
  let pool := v.pools index
  if pool.availableCount < lzVmmMaxCachedChunks then
    (false,
      { v with
        next := Function.update v.next chunk pool.freeChunks
        pools := Function.update v.pools index
          ⟨chunk, (pool.availableCount + 1) % 2 ^ 64⟩ })
  else (true, v)

/-- Locked section of `lz_vmm_purge_all_caches`: detach a whole pool. -/
def poolDrain (v : Vmm) (index : Nat) : Nat × Vmm :=
  ((v.pools index).freeChunks,
    { v with pools := Function.update v.pools index ⟨0, 0⟩ })

/-- `chunk->magic == LZ_CHUNK_MAGIC_V2`, the guard of `lz_vmm_free_chunk`. -/
def magicOk (v : Vmm) (chunk : Nat) : Prop := (v.header chunk).magic = lzChunkMagicV2

instance (v : Vmm) (chunk : Nat) : Decidable (magicOk v chunk) :=
  inferInstanceAs (Decidable (_ = _))

/-- The mapping part of `sys_alloc_extent`: the aligned start, or `none`. -/
def mapExtent (s : State) : Option Nat × State :=
  let requestSize := lzExtentSize + lzHugePageSize
  match mmap s requestSize with
  | (none, s) => (none, s)
  | (some rawAddr, s) =>
      if rawAddr % lzHugePageSize ≠ 0 then
        let alignedAddr := lzAlignUp rawAddr lzHugePageSize
        let prefixSize := alignedAddr - rawAddr
        let suffixSize := requestSize - prefixSize - lzExtentSize
        let s := if prefixSize > 0 then munmap s rawAddr prefixSize else s
        let s := if suffixSize > 0 then munmap s (alignedAddr + lzExtentSize) suffixSize else s
        (some alignedAddr, s)
      else (some rawAddr, munmap s (rawAddr + lzExtentSize) lzHugePageSize)

def sysAllocExtent (s : State) : State :=
  match mapExtent s with
  | (none, s) => s
  | (some alignedAddr, s) => { s with vmm := carveExtent s.vmm alignedAddr }

/-- The slow path of `lz_vmm_alloc_chunk` up to the header reset: refill the
global list if it is empty, then try it once. -/
def globalAlloc (s : State) : Nat × State :=
  let refilled := if s.vmm.globalFreeChunks = 0 then sysAllocExtent s else s
  let popped := globalPop refilled.vmm
  (popped.1, { refilled with vmm := popped.2 })

def lzVmmAllocChunk (s : State) : Nat × State :=
  let located := lzGetCurrentNode s
  let currentNode := located.1
  let s := located.2
  let popped := poolPop s.vmm currentNode
  if popped.1 ≠ 0 then (popped.1, { s with vmm := clearNext popped.2 popped.1 })
  else
    let taken := globalAlloc s
    if taken.1 = 0 then taken
    else (taken.1, { taken.2 with vmm := neutralize taken.2.vmm taken.1 currentNode })

/-- The physical pages behind the first page of a chunk are given back. -/
def deflate (s : State) (chunk : Nat) : State :=
  madviseDontneed s (chunk + lzPageSize) (lzHugePageSize - lzPageSize)

def lzVmmFreeChunk (s : State) (chunk : Nat) : State :=
  if chunk = 0 ∨ ¬magicOk s.vmm chunk then s
  else
    let pushed := poolPush s.vmm chunk
    let s := { s with vmm := pushed.2 }
    if pushed.1 then
      let s := deflate s chunk
      { s with vmm := globalPush s.vmm chunk }
    else s

/-- The `while (chunk)` loop of the purge; `fuel` bounds the number of chunks. -/
def purgeLoop : Nat → State → Nat → State
  | 0, s, _ => s
  | fuel + 1, s, chunk =>
      if chunk = 0 then s
      else
        let next := s.vmm.next chunk
        let s := deflate s chunk
        purgeLoop fuel { s with vmm := globalPush s.vmm chunk } next

def lzVmmPurgePool (s : State) (index : Nat) : State :=
  let drained := poolDrain s.vmm index
  purgeLoop addressLimit { s with vmm := drained.2 } drained.1

def lzVmmPurgeAllCaches (s : State) : State :=
  (List.range lzMaxNumaNodes).foldl lzVmmPurgePool s

end Lzmalloc.VirtualMemoryManager
