import Lzmalloc.VirtualMemoryManager

/-!
# Slab and span engines

`slab.c`, `span.c` and the telemetry counters they feed. A slab descriptor and
a span descriptor sit at the same place, one cache line behind the chunk
header, but every field is written when a chunk is formatted, so the two kinds
of descriptors are kept in separate maps.
-/

namespace Lzmalloc.Engines

open SizeClasses HeapState VirtualMemoryManager DoublyLinked

set_option autoImplicit false

/-! ## Telemetry counters -/

/-- Adds to the 32-bit pending counter of freed bytes and flushes it to the 64-bit
telemetry slot from 4096 on. -/
def accountFree (s : State) (tlh bytes : Nat) : State :=
  match (s.tlh tlh).statSlot with
  | none => s
  | some slot =>
      let pending : Nat := ((s.tlh tlh).localBytesFreeBatch + bytes) % 2 ^ 32
      if pending ≥ 4096 then
        { s with
          slots := Function.update s.slots slot (s.slots slot - BitVec.ofNat 64 pending)
          tlh := Function.update s.tlh tlh { s.tlh tlh with localBytesFreeBatch := 0 } }
      else
        { s with
          tlh := Function.update s.tlh tlh { s.tlh tlh with localBytesFreeBatch := pending } }

/-- The telemetry tail of `lz_tlh_alloc`. -/
def accountAlloc (s : State) (tlh bytes : Nat) : State :=
  let counted := { s.tlh tlh with bytesAllocated := ((s.tlh tlh).bytesAllocated + bytes) % 2 ^ 64 }
  match (s.tlh tlh).statSlot with
  | none => { s with tlh := Function.update s.tlh tlh counted }
  | some slot =>
      let pending : Nat := (counted.localBytesAllocBatch + bytes) % 2 ^ 32
      if pending ≥ 1048576 then
        { s with
          slots := Function.update s.slots slot (s.slots slot + BitVec.ofNat 64 pending)
          tlh := Function.update s.tlh tlh { counted with localBytesAllocBatch := 0 } }
      else
        { s with tlh := Function.update s.tlh tlh { counted with localBytesAllocBatch := pending } }

/-! ## Formatting a chunk -/

/-- Owner, type and checksum, in the order in which both engines write them. -/
def claimHeader (v : Vmm) (chunk tlh : Nat) (chunkType : ChunkType) : Vmm :=
  let owned := { v.header chunk with owningTlh := tlh, chunkType := chunkType }
  { v with
    header := Function.update v.header chunk { owned with checksum := lzCalcChecksum owned } }

/-- The descriptor that `lz_slab_create` writes. -/
def freshSlab (chunk classIdx : Nat) : Slab :=
  let slab := chunk + lzCacheLineSize
  let dataStart := lzAlignUp (slab + 64) lzCacheLineSize
  let dataEnd := chunk + lzHugePageSize
  let blockSize := lzClassToSize classIdx % 2 ^ 32
  { memoryBase := dataStart
    memoryEnd := dataEnd
    bumpPtr := dataStart
    freeListHead := 0
    sizeClass := classIdx
    blockSize := blockSize
    maxObjects := (dataEnd - dataStart) / blockSize % 2 ^ 32
    usedObjects := 0 }

def formatSlab (s : State) (tlh classIdx chunk : Nat) : State :=
  let s := lzRtreeSet { s with vmm := claimHeader s.vmm chunk tlh .slab } chunk chunk
  let slab := chunk + lzCacheLineSize
  { s with
    slab := Function.update s.slab slab (freshSlab chunk classIdx)
    slabLinks :=
      ⟨Function.update s.slabLinks.next slab 0, Function.update s.slabLinks.prev slab 0⟩ }

def lzSlabCreate (s : State) (tlh classIdx : Nat) : Nat × State :=
  let allocated := lzVmmAllocChunk s
  if allocated.1 = 0 then (0, allocated.2)
  else (allocated.1 + lzCacheLineSize, formatSlab allocated.2 tlh classIdx allocated.1)

/-- The integrity guard of `lz_slab_destroy`. -/
def checksumOk (v : Vmm) (chunk : Nat) : Prop :=
  (v.header chunk).checksum = lzCalcChecksum (v.header chunk)

instance (v : Vmm) (chunk : Nat) : Decidable (checksumOk v chunk) :=
  inferInstanceAs (Decidable (_ = _))

def lzSlabDestroy (s : State) (slab : Nat) : State :=
  let chunk := chunkBase slab
  if ¬checksumOk s.vmm chunk then s
  else lzVmmFreeChunk (lzRtreeClear s chunk) chunk

/-! ## Spans -/

@[simp] def lzSpanTotalPages : Nat := 512
@[simp] def lzSpanBitmapWords : Nat := 8

abbrev Bitmap := Nat → BitVec 64

/-- The run counter of `find_contiguous_pages`. -/
structure Scan where
  consecutive : Nat
  startIdx : Nat

/-- The inner loop over the 64 bits of word `i`; `remaining` bits are left. -/
def scanWord (word : BitVec 64) (i requiredPages : Nat) : Nat → Scan → Option Nat × Scan
  | 0, scan => (none, scan)
  | remaining + 1, scan =>
      let bit := 63 - remaining
      if word.getLsbD bit then
        let startIdx := if scan.consecutive = 0 then i * 64 + bit else scan.startIdx
        let consecutive := (scan.consecutive + 1) % 2 ^ 32
        if consecutive = requiredPages then (some startIdx, ⟨consecutive, startIdx⟩)
        else scanWord word i requiredPages remaining ⟨consecutive, startIdx⟩
      else scanWord word i requiredPages remaining ⟨0, scan.startIdx⟩

/-- The outer loop over the words; an empty word only resets the counter. -/
def scanWords (bitmap : Bitmap) (requiredPages : Nat) : Nat → Scan → Option Nat
  | 0, _ => none
  | remaining + 1, scan =>
      let i := 7 - remaining
      if bitmap i = 0 then scanWords bitmap requiredPages remaining ⟨0, scan.startIdx⟩
      else
        match scanWord (bitmap i) i requiredPages 64 scan with
        | (some startIdx, _) => some startIdx
        | (none, scan) => scanWords bitmap requiredPages remaining scan

def clearPage (bitmap : Bitmap) (j : Nat) : Bitmap :=
  Function.update bitmap (j / 64) (bitmap (j / 64) &&& ~~~(1#64 <<< (j % 64)))

def setPage (bitmap : Bitmap) (j : Nat) : Bitmap :=
  Function.update bitmap (j / 64) (bitmap (j / 64) ||| 1#64 <<< (j % 64))

def clearPages (bitmap : Bitmap) (start count : Nat) : Bitmap :=
  (List.range count).foldl (fun bits offset => clearPage bits (start + offset)) bitmap

def setPages (bitmap : Bitmap) (start count : Nat) : Bitmap :=
  (List.range count).foldl (fun bits offset => setPage bits (start + offset)) bitmap

/-- The found page index, `none` for `-1`, and the bitmap after the search. -/
def findContiguousPages (bitmap : Bitmap) (requiredPages : Nat) : Option Nat × Bitmap :=
  match scanWords bitmap requiredPages lzSpanBitmapWords ⟨0, 0⟩ with
  | none => (none, bitmap)
  | some startIdx => (some startIdx, clearPages bitmap startIdx requiredPages)

structure SpanHit where
  current : Nat
  pageIdx : Nat
  bitmap : Bitmap

/-- The fast path loop of `lz_span_alloc`; `fuel` bounds the number of spans. -/
def searchSpans : Nat → State → Nat → Nat → Option SpanHit
  | 0, _, _, _ => none
  | fuel + 1, s, current, requiredPages =>
      if current = 0 then none
      else if (lzSpanTotalPages + (2 ^ 32 - (s.span current).usedPages)) % 2 ^ 32 ≥
      requiredPages then
        match findContiguousPages (s.span current).freeBitmap requiredPages with
        | (some pageIdx, bitmap) => some ⟨current, pageIdx, bitmap⟩
        | (none, _) => searchSpans fuel s (s.spanLinks.next current) requiredPages
      else searchSpans fuel s (s.spanLinks.next current) requiredPages

/-- Step 3 of `lz_span_alloc`, with the bitmap left by the page search. -/
def finishSpanAlloc (s : State) (hit : SpanHit) (requiredPages : Nat) : Nat × State :=
  let span := s.span hit.current
  (chunkBase hit.current + hit.pageIdx * lzPageSize,
    { s with
      span := Function.update s.span hit.current
        { freeBitmap := hit.bitmap
          usedPages := (span.usedPages + requiredPages) % 2 ^ 32
          allocSizePages :=
            Function.update span.allocSizePages hit.pageIdx (requiredPages % 2 ^ 16) } })

def freshSpan : Span where
  freeBitmap := fun word => if word = 0 then ~~~1#64 else ~~~0#64
  usedPages := 1
  allocSizePages := fun _ => 0

/-- The slow path formats the chunk and puts it first on `active_spans`. -/
def formatSpan (s : State) (tlh chunk : Nat) : State :=
  let s := lzRtreeSet { s with vmm := claimHeader s.vmm chunk tlh .span } chunk chunk
  let current := chunk + lzCacheLineSize
  { s with
    span := Function.update s.span current freshSpan
    spanLinks := pushFront s.spanLinks (s.activeSpans tlh) current
    activeSpans := Function.update s.activeSpans tlh current }

def lzSpanAlloc (s : State) (tlh size : Nat) : Nat × State :=
  let requiredPages := lzAlignUp size lzPageSize / lzPageSize % 2 ^ 32
  if requiredPages ≥ lzSpanTotalPages then (0, s)
  else
    match searchSpans addressLimit s (s.activeSpans tlh) requiredPages with
    | some hit => finishSpanAlloc s hit requiredPages
    | none =>
        let allocated := lzVmmAllocChunk s
        if allocated.1 = 0 then (0, allocated.2)
        else
          let s := formatSpan allocated.2 tlh allocated.1
          let current := allocated.1 + lzCacheLineSize
          match findContiguousPages (s.span current).freeBitmap requiredPages with
          | (none, _) => (0, s)
          | (some pageIdx, bitmap) => finishSpanAlloc s ⟨current, pageIdx, bitmap⟩ requiredPages

/-- The pages of the object go back to the bitmap and the table. -/
def releasePages (s : State) (span startPage requiredPages : Nat) : State :=
  let old := s.span span
  { s with
    span := Function.update s.span span
      { freeBitmap := setPages old.freeBitmap startPage requiredPages
        usedPages := (old.usedPages + (2 ^ 32 - requiredPages)) % 2 ^ 32
        allocSizePages := Function.update old.allocSizePages startPage 0 } }

/-- The destruction branch of `lz_span_free_local`. -/
def destroySpan (s : State) (tlh chunk : Nat) : State :=
  let span := chunk + lzCacheLineSize
  let unlinked :=
    { s with
      spanLinks := unlink s.spanLinks span
      activeSpans := Function.update s.activeSpans tlh
        (unlinkHead s.spanLinks (s.activeSpans tlh) span) }
  lzVmmFreeChunk (lzRtreeClear unlinked chunk) chunk

def lzSpanFreeLocal (s : State) (tlh chunk ptr : Nat) : State :=
  let span := chunk + lzCacheLineSize
  let startPage := (ptr - chunk) / lzPageSize % 2 ^ 32
  if startPage = 0 ∨ startPage ≥ lzSpanTotalPages then s
  else
    let requiredPages := (s.span span).allocSizePages startPage
    if requiredPages = 0 then s
    else
      let s := releasePages s span startPage requiredPages
      let s := accountFree s tlh (requiredPages * lzPageSize % 2 ^ 32)
      if (s.span span).usedPages = 1 then destroySpan s tlh chunk else s

end Lzmalloc.Engines
