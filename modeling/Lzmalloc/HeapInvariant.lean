import Lzmalloc.PublicApi
import Mathlib.Data.Finset.Card

/-!
# Representation invariant of the allocator

The invariant is stated over a `Ghost` that says what the memory is used for:
the role of every 2 MB block, the bin list a slab is on, the place of every
object and what it was allocated as. Each clause of `Core` reads only the fields
of the state it is about, so an operation that leaves those fields alone keeps
the clause.
`Filled` relates the list a slab is on to its counters; it is separate because
a free breaks it for one slab until the slab has been moved.
-/

namespace Lzmalloc.HeapInvariant

open SizeClasses HeapState VirtualMemoryManager PointerChain DoublyLinked ByteMemory Engines
open ThreadHeap

set_option autoImplicit false

inductive CachePlace
  | pool (node : Nat)
  | global
  deriving DecidableEq

/-- Role of the 2 MB block at an address. A `loose` chunk has been taken from
the manager and is not formatted, or is on its way back. -/
inductive BlockKind
  | unused
  | idle (place : CachePlace)
  | loose
  | slab (tlh classIdx : Nat)
  | span (tlh : Nat)
  | direct (header : Nat)
  deriving DecidableEq

inductive BinPlace
  | inCurrent
  | inPartial
  | inFull
  deriving DecidableEq

/-- Place of an object. `leaked` is an object whose free was ignored because
the radix tree does not know its chunk. -/
inductive NodePlace
  | none
  | live
  | leaked
  | free
  | batch (tlh : Nat)
  | mail (tlh : Nat)
  | reaping (tlh : Nat)
  deriving DecidableEq

/-- What an object was allocated as: size class, number of pages, or size. -/
inductive Origin
  | none
  | slab (classIdx : Nat)
  | span (pages : Nat)
  | direct (size : Nat)
  deriving DecidableEq

namespace BlockKind

def cached : BlockKind → Option CachePlace
  | .idle place => some place
  | _ => Option.none

def owner : BlockKind → Option Nat
  | .slab tlh _ => some tlh
  | .span tlh => some tlh
  | _ => Option.none

def IsChunk : BlockKind → Prop
  | .unused => False
  | .direct _ => False
  | _ => True

def TakenOut : BlockKind → Prop
  | .loose => True
  | .slab _ _ => True
  | .span _ => True
  | _ => False

def HoldsObjects : BlockKind → Prop
  | .slab _ _ => True
  | .span _ => True
  | .direct _ => True
  | _ => False

/-- The header that the radix tree may return for the block at `base`. -/
def header (base : Nat) : BlockKind → Nat
  | .unused => 0
  | .idle _ => 0
  | .direct header => header
  | _ => base

theorem slab_unique {kind : BlockKind} {tlh heap classIdx size : Nat}
    (first : kind = .slab tlh classIdx) (second : kind = .slab heap size) :
    heap = tlh ∧ size = classIdx := by
  rw [first] at second
  cases second
  exact ⟨rfl, rfl⟩

end BlockKind

namespace NodePlace

/-- Freed by a non-owner and not yet handed to the owner's free logic. -/
def InFlight : NodePlace → Prop
  | .batch _ => True
  | .mail _ => True
  | .reaping _ => True
  | _ => False

/-- Allocated and not yet back on a free list. -/
def InUse : NodePlace → Prop
  | .none => False
  | .free => False
  | _ => True

end NodePlace

/-- `cursor` is where a heap stands in the mailbox list it has detached. -/
structure Ghost where
  kind : Nat → BlockKind
  bin : Nat → BinPlace
  node : Nat → NodePlace
  cursor : Nat → Nat
  record : Nat → Origin

namespace Ghost

def settle (g : Ghost) (ptr : Nat) (place : NodePlace) : Ghost :=
  { g with node := Function.update g.node ptr place }

def allocate (g : Ghost) (ptr : Nat) (origin : Origin) : Ghost :=
  { g with
    node := Function.update g.node ptr .live
    record := Function.update g.record ptr origin }

@[simp] theorem settle_kind (g : Ghost) (ptr : Nat) (place : NodePlace) :
    (g.settle ptr place).kind = g.kind := rfl

@[simp] theorem settle_bin (g : Ghost) (ptr : Nat) (place : NodePlace) :
    (g.settle ptr place).bin = g.bin := rfl

@[simp] theorem settle_node (g : Ghost) (ptr : Nat) (place : NodePlace) :
    (g.settle ptr place).node = Function.update g.node ptr place := rfl

@[simp] theorem allocate_kind (g : Ghost) (ptr : Nat) (origin : Origin) :
    (g.allocate ptr origin).kind = g.kind := rfl

@[simp] theorem allocate_bin (g : Ghost) (ptr : Nat) (origin : Origin) :
    (g.allocate ptr origin).bin = g.bin := rfl

@[simp] theorem allocate_node (g : Ghost) (ptr : Nat) (origin : Origin) :
    (g.allocate ptr origin).node = Function.update g.node ptr .live := rfl

end Ghost

/-- What is known about the environment and the callers of a run: every leaf
mapping succeeds, every freed pointer resolves in the radix tree, no free is
ignored. -/
structure Mode where
  leavesMapped : Prop
  freesResolve : Prop
  noLeaks : Prop

/-! ## Clauses -/

structure GeomInv (regions : List (Nat × Nat)) (direct : Nat → DirectInfo) (directs : List Nat)
    (kind : Nat → BlockKind) : Prop where
  placed : ∀ base, kind base ≠ .unused →
    base % 2097152 = 0 ∧ 0 < base ∧ base + 2097152 ≤ 2 ^ 48
  mapped : ∀ base, kind base ≠ .unused → ∀ address, base ≤ address →
    address < base + 2097152 → Mapped regions address
  directBlock : ∀ header ∈ directs, ∀ index, index * 2097152 < (direct header).totalBytes →
    kind (header + index * 2097152) = .direct header
  directSize : ∀ header ∈ directs,
    (direct header).totalBytes % 2097152 = 0 ∧ 0 < (direct header).totalBytes
  directOf : ∀ base header, kind base = .direct header → header ∈ directs ∧
    ∃ index, base = header + index * 2097152 ∧ index * 2097152 < (direct header).totalBytes
  nodup : directs.Nodup

/-- The lists of the manager hold exactly the chunks that `cached` says. -/
structure CacheInv (vmm : Vmm) (cached : Nat → Option CachePlace) : Prop where
  pool : ∀ node < 16, Enumerates vmm.next (vmm.pools node).freeChunks
    (fun chunk => cached chunk = some (.pool node)) (vmm.pools node).availableCount
  poolBound : ∀ node < 16, (vmm.pools node).availableCount ≤ 32
  poolHeader : ∀ chunk node, cached chunk = some (.pool node) →
    node < 16 ∧ magicOk vmm chunk ∧ (vmm.header chunk).nodeId = node
  global : ∃ count, Enumerates vmm.next vmm.globalFreeChunks
    (fun chunk => cached chunk = some .global) count

structure VmmInv (vmm : Vmm) (kind : Nat → BlockKind) : Prop where
  caches : CacheInv vmm fun chunk => (kind chunk).cached
  takenHeader : ∀ chunk, (kind chunk).TakenOut →
    magicOk vmm chunk ∧ (vmm.header chunk).nodeId < 16
  carved : ∀ chunk, chunk ∈ vmm.carved ↔ (kind chunk).IsChunk

structure HeaderInv (vmm : Vmm) (kind : Nat → BlockKind) : Prop where
  slab : ∀ chunk tlh classIdx, kind chunk = .slab tlh classIdx →
    (vmm.header chunk).owningTlh = tlh ∧ (vmm.header chunk).chunkType = .slab ∧
      checksumOk vmm chunk
  span : ∀ chunk tlh, kind chunk = .span tlh →
    (vmm.header chunk).owningTlh = tlh ∧ (vmm.header chunk).chunkType = .span
  direct : ∀ header, kind header = .direct header →
    magicOk vmm header ∧ (vmm.header header).chunkType = .direct

/-- Every leaf that has been asked for has been mapped. -/
def LeavesGranted (s : State) : Prop := ∀ call < s.leafCalls, s.env.leafMmap call = true

instance (s : State) : Decidable (LeavesGranted s) :=
  inferInstanceAs (Decidable (∀ call < s.leafCalls, _))

structure RtreeInv (granted : Prop) (rtree : Rtree) (kind : Nat → BlockKind) : Prop where
  sound : ∀ address < 2 ^ 48, lzRtreeGet rtree address = 0 ∨
    lzRtreeGet rtree address = (kind (chunkBase address)).header (chunkBase address)
  complete : granted → ∀ address < 2 ^ 48, kind (chunkBase address) ≠ .loose →
    lzRtreeGet rtree address = (kind (chunkBase address)).header (chunkBase address)

def InBin (kind : Nat → BlockKind) (bin : Nat → BinPlace) (tlh classIdx : Nat) (place : BinPlace)
    (slab : Nat) : Prop :=
  ∃ chunk, slab = chunk + 64 ∧ kind chunk = .slab tlh classIdx ∧ bin chunk = place

def binHead (bin : Bin) : BinPlace → Nat
  | .inCurrent => bin.currentSlab
  | .inPartial => bin.partialList
  | .inFull => bin.fullList

/-- The partial and the full list of every bin are well linked and hold exactly
the slabs that are there. -/
def ListInv (bins : Nat → Nat → Bin) (links : Links Nat) (kind : Nat → BlockKind)
    (bin : Nat → BinPlace) : Prop :=
  ∀ tlh classIdx place, place ≠ .inCurrent →
    Doubly links (binHead (bins tlh classIdx) place) (InBin kind bin tlh classIdx place)

structure CurrentAt (currentSlab : Nat) (links : Links Nat) (member : Nat → Prop) : Prop where
  current : ∀ slab, member slab ↔ slab ≠ 0 ∧ slab = currentSlab
  unlinked : ∀ slab, member slab → links.next slab = 0 ∧ links.prev slab = 0

def CurrentInv (bins : Nat → Nat → Bin) (links : Links Nat) (kind : Nat → BlockKind)
    (bin : Nat → BinPlace) : Prop :=
  ∀ tlh classIdx, CurrentAt (bins tlh classIdx).currentSlab links
    (InBin kind bin tlh classIdx .inCurrent)

def bumpedCount (slab : Slab) : Nat :=
  if slab.bumpPtr = 0 then slab.maxObjects else (slab.bumpPtr - slab.memoryBase) / slab.blockSize

/-- The free list of a slab as its owner reads it. -/
def freeLink (secret : BitVec 64) (mem : Memory) (node : Nat) : Nat :=
  lzPtrObfuscate secret (linkAt mem node) node

structure SlabOk (slab : Slab) (next : Nat → Nat) (node : Nat → NodePlace)
    (chunk classIdx : Nat) : Prop where
  base : slab.memoryBase = chunk + 128
  finish : slab.memoryEnd = chunk + 2097152
  sizeClass : slab.sizeClass = classIdx
  classBound : classIdx < 40
  blockSize : slab.blockSize = lzClassToSize classIdx
  maxObjects : slab.maxObjects = (2097152 - 128) / lzClassToSize classIdx
  bumpPtr : slab.bumpPtr ≠ 0 →
    slab.bumpPtr = chunk + 128 + bumpedCount slab * lzClassToSize classIdx
  bumpBound : bumpedCount slab ≤ slab.maxObjects
  used : slab.usedObjects ≤ bumpedCount slab
  freeList : Enumerates next slab.freeListHead
    (fun block => chunkBase block = chunk ∧ node block = .free)
    (bumpedCount slab - slab.usedObjects)
  blocks : ∀ block, chunkBase block = chunk → (node block ≠ .none ↔
    ∃ index < bumpedCount slab, block = chunk + 128 + index * lzClassToSize classIdx)

/-- Bit `page` of the bitmap: `1` means free. -/
def pageFree (bitmap : Bitmap) (page : Nat) : Bool := (bitmap (page / 64)).getLsbD (page % 64)

def usedPageSet (bitmap : Bitmap) : Finset Nat :=
  (Finset.range 512).filter fun page => pageFree bitmap page = false

structure SpanOk (span : Span) (node : Nat → NodePlace) (chunk : Nat) : Prop where
  table : ∀ page, span.allocSizePages page ≠ 0 →
    1 ≤ page ∧ page + span.allocSizePages page ≤ 512
  apart : ∀ left right, left < right → span.allocSizePages left ≠ 0 →
    span.allocSizePages right ≠ 0 → left + span.allocSizePages left ≤ right
  bits : ∀ page < 512, pageFree span.freeBitmap page = false ↔
    page = 0 ∨ ∃ start, start ≤ page ∧ page < start + span.allocSizePages start
  used : span.usedPages = (usedPageSet span.freeBitmap).card
  nodes : ∀ ptr, chunkBase ptr = chunk → (node ptr ≠ .none ↔
    ∃ page, ptr = chunk + page * 4096 ∧ span.allocSizePages page ≠ 0)
  notFree : ∀ ptr, chunkBase ptr = chunk → node ptr ≠ .free

structure MailInv (remoteFreeHead : Nat → Nat) (outgoingBatch : Nat → Batch) (mem : Memory)
    (node : Nat → NodePlace) (cursor : Nat → Nat) : Prop where
  mail : ∀ tlh, ∃ count, Enumerates (linkAt mem) (remoteFreeHead tlh)
    (fun ptr => node ptr = .mail tlh) count
  reaping : ∀ tlh, ∃ count, Enumerates (linkAt mem) (cursor tlh)
    (fun ptr => node ptr = .reaping tlh) count
  batchEmpty : ∀ tlh, (outgoingBatch tlh).count = 0 →
    (outgoingBatch tlh).head = 0 ∧ ∀ ptr, node ptr ≠ .batch tlh
  batchList : ∀ tlh, (outgoingBatch tlh).count ≠ 0 →
    EndsAt (linkAt mem) (outgoingBatch tlh).head (outgoingBatch tlh).tail
      (fun ptr => node ptr = .batch tlh) (outgoingBatch tlh).count
  batchBound : ∀ tlh, (outgoingBatch tlh).count ≤ 64
  batchTarget : ∀ tlh, (outgoingBatch tlh).count ≠ 0 → (outgoingBatch tlh).targetTlh ≠ 0

structure OwnerInv (outgoingBatch : Nat → Batch) (kind : Nat → BlockKind)
    (node : Nat → NodePlace) : Prop where
  batch : ∀ ptr tlh, node ptr = .batch tlh →
    (kind (chunkBase ptr)).owner = some (outgoingBatch tlh).targetTlh
  mail : ∀ ptr tlh, node ptr = .mail tlh → (kind (chunkBase ptr)).owner = some tlh
  reaping : ∀ ptr tlh, node ptr = .reaping tlh → (kind (chunkBase ptr)).owner = some tlh

structure DirectInv (direct : Nat → DirectInfo) (kind : Nat → BlockKind)
    (node : Nat → NodePlace) : Prop where
  inside : ∀ ptr header, node ptr ≠ .none → kind (chunkBase ptr) = .direct header →
    header + 128 ≤ ptr ∧ ptr < header + (direct header).totalBytes ∧ ptr % 16 = 0
  fits : ∀ ptr header, node ptr ≠ .none → kind (chunkBase ptr) = .direct header →
    (direct header).size < 2 ^ 63 →
      ptr + (direct header).size ≤ header + (direct header).totalBytes
  single : ∀ left right header, node left ≠ .none → node right ≠ .none →
    kind (chunkBase left) = .direct header → kind (chunkBase right) = .direct header →
      left = right
  places : ∀ ptr header, kind (chunkBase ptr) = .direct header →
    node ptr = .none ∨ node ptr = .live ∨ node ptr = .leaked

structure HeapsInv (heaps : List Nat) (kind : Nat → BlockKind) (node : Nat → NodePlace) :
    Prop where
  nonnull : ∀ tlh ∈ heaps, tlh ≠ 0
  owner : ∀ chunk tlh, (kind chunk).owner = some tlh → tlh ∈ heaps
  batch : ∀ ptr tlh, node ptr = .batch tlh → tlh ∈ heaps

structure ObjectInv (mode : Mode) (rtree : Rtree) (outgoingBatch : Nat → Batch)
    (direct : Nat → DirectInfo) (heaps : List Nat) (kind : Nat → BlockKind)
    (node : Nat → NodePlace) : Prop where
  owners : OwnerInv outgoingBatch kind node
  direct : DirectInv direct kind node
  scope : ∀ ptr, node ptr ≠ .none → (kind (chunkBase ptr)).HoldsObjects
  heaps : HeapsInv heaps kind node
  registered : mode.freesResolve → ∀ ptr, (node ptr).InFlight → lzRtreeGet rtree ptr ≠ 0
  noLeaks : mode.noLeaks → ∀ ptr, node ptr ≠ .leaked

/-- What an object in use can be seen to have been allocated as. -/
def objectOrigin (span : Nat → Span) (direct : Nat → DirectInfo) (ptr : Nat) : BlockKind → Origin
  | .slab _ classIdx => .slab classIdx
  | .span _ =>
      .span ((span (chunkBase ptr + 64)).allocSizePages ((ptr - chunkBase ptr) / 4096))
  | .direct header => .direct (direct header).size
  | _ => .none

def RecordInv (span : Nat → Span) (direct : Nat → DirectInfo) (kind : Nat → BlockKind)
    (node : Nat → NodePlace) (record : Nat → Origin) : Prop :=
  ∀ ptr, (node ptr).InUse → objectOrigin span direct ptr (kind (chunkBase ptr)) = record ptr

structure Core (mode : Mode) (s : State) (g : Ghost) : Prop where
  leaves : mode.leavesMapped → ∀ call, s.env.leafMmap call = true
  geom : GeomInv s.regions s.direct s.directs g.kind
  vmm : VmmInv s.vmm g.kind
  header : HeaderInv s.vmm g.kind
  rtree : RtreeInv (LeavesGranted s) s.rtree g.kind
  lists : ListInv s.bins s.slabLinks g.kind g.bin
  current : CurrentInv s.bins s.slabLinks g.kind g.bin
  slabs : ∀ chunk tlh classIdx, g.kind chunk = .slab tlh classIdx →
    SlabOk (s.slab (chunk + 64)) (freeLink s.secret s.mem) g.node chunk classIdx
  spanList : ∀ tlh, Doubly s.spanLinks (s.activeSpans tlh)
    (fun span => ∃ chunk, span = chunk + 64 ∧ g.kind chunk = .span tlh)
  spans : ∀ chunk tlh, g.kind chunk = .span tlh → SpanOk (s.span (chunk + 64)) g.node chunk
  mail : MailInv s.remoteFreeHead s.outgoingBatch s.mem g.node g.cursor
  objects : ObjectInv mode s.rtree s.outgoingBatch s.direct s.heaps g.kind g.node
  recorded : RecordInv s.span s.direct g.kind g.node g.record

/-- The counters of a slab fit the list it is on. -/
def FilledAt (slab : Nat → Slab) (g : Ghost) (chunk : Nat) : Prop :=
  ∀ tlh classIdx, g.kind chunk = .slab tlh classIdx →
    (g.bin chunk = .inFull →
      (slab (chunk + 64)).usedObjects = (slab (chunk + 64)).maxObjects ∧
        (slab (chunk + 64)).bumpPtr = 0) ∧
    (g.bin chunk = .inPartial →
      1 ≤ (slab (chunk + 64)).usedObjects ∧
        (slab (chunk + 64)).usedObjects < (slab (chunk + 64)).maxObjects ∧
          (slab (chunk + 64)).bumpPtr = 0)

structure Inv (mode : Mode) (s : State) (g : Ghost) : Prop extends Core mode s g where
  filled : ∀ chunk, FilledAt s.slab g chunk

end Lzmalloc.HeapInvariant
