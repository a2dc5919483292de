import Lzmalloc.Engines

/-!
# Thread-local heap

`tlh.c` statement by statement. Free-list links inside a slab are masked with
the global secret and their own address, batch and mailbox links are clear; all
of them occupy the first word of the object. The `while` loop over a detached
mailbox carries fuel; an object is an address below `2 ^ 48`, so the fuel is
never the reason to stop.
-/

namespace Lzmalloc.ThreadHeap

open SizeClasses HeapState VirtualMemoryManager DoublyLinked ByteMemory Engines

set_option autoImplicit false

def lzPtrObfuscate (secret : BitVec 64) (ptr storageAddr : Nat) : Nat :=
  ptr ^^^ secret.toNat ^^^ storageAddr

/-- `node->next` as stored. -/
def linkAt (mem : Memory) (node : Nat) : Nat := load mem node 8

def setLink (s : State) (node value : Nat) : State := { s with mem := store s.mem node 8 value }

def setBin (s : State) (tlh classIdx : Nat) (bin : Bin) : State :=
  { s with bins := Function.update s.bins tlh (Function.update (s.bins tlh) classIdx bin) }

def setSlab (s : State) (slab : Nat) (descriptor : Slab) : State :=
  { s with slab := Function.update s.slab slab descriptor }

/-! ## Slab lifecycle inside a bin -/

def lzTlhRescueFromFull (s : State) (tlh slab : Nat) : State :=
  let classIdx := (s.slab slab).sizeClass
  let bin := s.bins tlh classIdx
  if slab = bin.currentSlab then s
  else
    let unlinked := unlink s.slabLinks slab
    let fullList := unlinkHead s.slabLinks bin.fullList slab
    setBin { s with slabLinks := pushFront unlinked bin.partialList slab } tlh classIdx
      { bin with partialList := slab, fullList := fullList }

/-- The list update of `lz_tlh_recycle_empty_slab` for a slab that is not the
current one: only a list whose head is the slab changes its head. -/
def unlinkFromBin (s : State) (tlh slab : Nat) : State :=
  let classIdx := (s.slab slab).sizeClass
  let bin := s.bins tlh classIdx
  let bin :=
    if s.slabLinks.prev slab ≠ 0 then bin
    else if bin.partialList = slab then { bin with partialList := s.slabLinks.next slab }
    else if bin.fullList = slab then { bin with fullList := s.slabLinks.next slab }
    else bin
  setBin { s with slabLinks := unlink s.slabLinks slab } tlh classIdx bin

/-- Makes the first slab of the partial list the current one. -/
def promotePartial (s : State) (tlh classIdx : Nat) : State :=
  let bin := s.bins tlh classIdx
  let slab := bin.partialList
  setBin { s with slabLinks := popFront s.slabLinks slab } tlh classIdx
    { bin with currentSlab := slab, partialList := s.slabLinks.next slab }

def lzTlhRecycleEmptySlab (s : State) (tlh slab : Nat) : State :=
  let classIdx := (s.slab slab).sizeClass
  let bin := s.bins tlh classIdx
  if slab = bin.currentSlab then
    if bin.partialList = 0 then s
    else lzSlabDestroy (promotePartial s tlh classIdx) slab
  else lzSlabDestroy (unlinkFromBin s tlh slab) slab

/-! ## Batching, flushing and reaping -/

def lzTlhFlushOutgoingBatch (s : State) (tlh : Nat) : State :=
  let batch := s.outgoingBatch tlh
  if batch.count = 0 ∨ batch.targetTlh = 0 then s
  else
    let oldHead := s.remoteFreeHead batch.targetTlh
    let s := setLink s batch.tail oldHead
    { s with
      remoteFreeHead := Function.update s.remoteFreeHead batch.targetTlh batch.head
      outgoingBatch := Function.update s.outgoingBatch tlh {} }

/-- Puts `node` on its slab's free list and counts it as free. -/
def pushFreeBlock (s : State) (slab node : Nat) : State :=
  let descriptor := s.slab slab
  let s := setLink s node (lzPtrObfuscate s.secret descriptor.freeListHead node)
  setSlab s slab
    { descriptor with
      freeListHead := node
      usedObjects := (descriptor.usedObjects + (2 ^ 32 - 1)) % 2 ^ 32 }

/-- `slab->used_objects == slab->max_objects - 1` after the free. -/
def rescueIfWasFull (s : State) (tlh slab : Nat) : State :=
  if (s.slab slab).usedObjects = ((s.slab slab).maxObjects + (2 ^ 32 - 1)) % 2 ^ 32 then
    lzTlhRescueFromFull s tlh slab
  else s

def recycleIfEmpty (s : State) (tlh slab : Nat) : State :=
  if (s.slab slab).usedObjects = 0 then lzTlhRecycleEmptySlab s tlh slab else s

/-- Body of the reap loop. -/
def lzTlhReapNode (s : State) (tlh head : Nat) : State :=
  let chunk := chunkBase head
  match (s.vmm.header chunk).chunkType with
  | .slab =>
      let slab := chunk + lzCacheLineSize
      let s := pushFreeBlock s slab head
      let s := rescueIfWasFull s tlh slab
      let s := recycleIfEmpty s tlh slab
      accountFree s tlh (s.slab slab).blockSize
  | .span => lzSpanFreeLocal s tlh chunk head
  | .direct => s

def lzTlhReapLoop : Nat → State → Nat → Nat → State
  | 0, s, _, _ => s
  | fuel + 1, s, tlh, head =>
      if head = 0 then s
      else
        let nextClear := linkAt s.mem head
        lzTlhReapLoop fuel (lzTlhReapNode s tlh head) tlh nextClear

/-- The atomic exchange of the mailbox head with `NULL`. -/
def detachMailbox (s : State) (tlh : Nat) : State :=
  { s with remoteFreeHead := Function.update s.remoteFreeHead tlh 0 }

def lzTlhReap (s : State) (tlh : Nat) : State :=
  lzTlhReapLoop addressLimit (detachMailbox s tlh) tlh (s.remoteFreeHead tlh)

/-! ## Allocation -/

/-- Takes the first block of the slab's free list. -/
def popFreeBlock (s : State) (slab : Nat) : Nat × State :=
  let descriptor := s.slab slab
  let node := descriptor.freeListHead
  (node,
    setSlab s slab
      { descriptor with
        freeListHead := lzPtrObfuscate s.secret (linkAt s.mem node) node
        usedObjects := (descriptor.usedObjects + 1) % 2 ^ 32 })

/-- Takes the block at the bump pointer, or retires the pointer. -/
def bumpBlock (s : State) (slab : Nat) : Nat × State :=
  let descriptor := s.slab slab
  let nextBump := descriptor.bumpPtr + descriptor.blockSize
  if nextBump ≤ descriptor.memoryEnd then
    (descriptor.bumpPtr,
      setSlab s slab
        { descriptor with
          bumpPtr := nextBump
          usedObjects := (descriptor.usedObjects + 1) % 2 ^ 32 })
  else (0, setSlab s slab { descriptor with bumpPtr := 0 })

/-- Moves the exhausted current slab to the full list. -/
def retireCurrent (s : State) (tlh classIdx : Nat) : State :=
  let bin := s.bins tlh classIdx
  let slab := bin.currentSlab
  if slab = 0 then s
  else
    setBin { s with slabLinks := pushFront s.slabLinks bin.fullList slab } tlh classIdx
      { bin with fullList := slab }

def lzTlhAllocSlow (s : State) (tlh scIdx : Nat) : Nat × State :=
  if (s.bins tlh scIdx).partialList ≠ 0 then
    let s := promotePartial (retireCurrent s tlh scIdx) tlh scIdx
    popFreeBlock s (s.bins tlh scIdx).currentSlab
  else
    let created := lzSlabCreate s tlh scIdx
    if created.1 = 0 then (0, created.2)
    else
      let s := retireCurrent created.2 tlh scIdx
      let s := setBin s tlh scIdx { s.bins tlh scIdx with currentSlab := created.1 }
      let fresh := s.slab created.1
      (fresh.bumpPtr,
        setSlab s created.1
          { fresh with
            bumpPtr := fresh.bumpPtr + fresh.blockSize
            usedObjects := (fresh.usedObjects + 1) % 2 ^ 32 })

/-- Paths 1 and 2 of `lz_tlh_alloc`: free list, then reap, then free list or
bump pointer of the slab that is current after the reap. -/
def lzTlhAllocAttempt (s : State) (tlh scIdx : Nat) : Nat × State :=
  let slab := (s.bins tlh scIdx).currentSlab
  if slab ≠ 0 ∧ (s.slab slab).freeListHead ≠ 0 then popFreeBlock s slab
  else
    let s := lzTlhReap s tlh
    let slab := (s.bins tlh scIdx).currentSlab
    if slab ≠ 0 ∧ (s.slab slab).freeListHead ≠ 0 then popFreeBlock s slab
    else if slab ≠ 0 ∧ (s.slab slab).bumpPtr ≠ 0 then bumpBlock s slab
    else (0, s)

/-- On every path the block comes from the slab that is current afterwards, so
its block size is the `allocated_size` that the telemetry counts. -/
def lzTlhAlloc (s : State) (tlh size : Nat) : Nat × State :=
  if size > lzMaxSlabObjSize then lzSpanAlloc s tlh size
  else
    let scIdx := lzSizeToClass size
    let attempt := lzTlhAllocAttempt s tlh scIdx
    let got := if attempt.1 = 0 then lzTlhAllocSlow attempt.2 tlh scIdx else attempt
    if got.1 = 0 then (0, got.2)
    else
      let slab := (got.2.bins tlh scIdx).currentSlab
      (got.1, accountAlloc got.2 tlh (got.2.slab slab).blockSize)

/-- `lz_tlh_init` for a freshly mapped heap. -/
def lzTlhInit (s : State) (tlh tid : Nat) : State :=
  { s with
    bins := Function.update s.bins tlh fun _ => {}
    activeSpans := Function.update s.activeSpans tlh 0
    remoteFreeHead := Function.update s.remoteFreeHead tlh 0
    outgoingBatch := Function.update s.outgoingBatch tlh {}
    tlh := Function.update s.tlh tlh { threadId := tid } }

/-! ## Free -/

/-- The local slab branch of `lz_tlh_free`, the second copy of the free logic. -/
def lzTlhFreeSlab (s : State) (tlh chunk ptr : Nat) : State :=
  let slab := chunk + lzCacheLineSize
  let s := pushFreeBlock s slab ptr
  let s := rescueIfWasFull s tlh slab
  let s := recycleIfEmpty s tlh slab
  accountFree s tlh (s.slab slab).blockSize

/-- The enqueue step of the remote branch. -/
def enqueueRemote (s : State) (tlh node : Nat) : State :=
  let batch := s.outgoingBatch tlh
  let s := setLink s node batch.head
  { s with
    outgoingBatch := Function.update s.outgoingBatch tlh
      { batch with
        head := node
        tail := if batch.count = 0 then node else batch.tail
        count := (batch.count + 1) % 2 ^ 32 } }

def lzTlhFreeRemote (s : State) (tlh owner node : Nat) : State :=
  let s := setLink s node 0
  let batch := s.outgoingBatch tlh
  let s :=
    if batch.targetTlh ≠ owner ∨ batch.count ≥ lzBatchMaxSize then
      let s := lzTlhFlushOutgoingBatch s tlh
      { s with
        outgoingBatch := Function.update s.outgoingBatch tlh
          { s.outgoingBatch tlh with targetTlh := owner } }
    else s
  enqueueRemote s tlh node

def lzTlhFree (s : State) (tlh ptr : Nat) : State :=
  if ptr = 0 then s
  else
    let masked := chunkBase ptr
    let chunk := if magicOk s.vmm masked then masked else lzRtreeGet s.rtree ptr
    if chunk = 0 then s
    else
      let header := s.vmm.header chunk
      if header.owningTlh = tlh then
        match header.chunkType with
        | .slab => lzTlhFreeSlab s tlh chunk ptr
        | .span => lzSpanFreeLocal s tlh chunk ptr
        | .direct => s
      else lzTlhFreeRemote s tlh header.owningTlh ptr

end Lzmalloc.ThreadHeap
