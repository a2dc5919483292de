import Lzmalloc.HeapOperations

/-!
# What the state itself says

Ownership of chunks and places of objects, read off the state without any
ghost: which chunks the manager holds, which slabs a heap owns, which objects
sit in a batch or a mailbox. Between operations these readings and the ghost
agree.
-/

namespace Lzmalloc.ConcreteView

open SizeClasses HeapState PointerChain DoublyLinked ThreadHeap HeapInvariant InvariantFacts
open BinLists

set_option autoImplicit false

def InManager (vmm : Vmm) (chunk : Nat) : Prop :=
  (∃ node < lzMaxNumaNodes, OnChain vmm.next (vmm.pools node).freeChunks chunk) ∨
    OnChain vmm.next vmm.globalFreeChunks chunk

def Handed (vmm : Vmm) (chunk : Nat) : Prop := chunk ∈ vmm.carved ∧ ¬InManager vmm chunk

def OwnsSlab (s : State) (tlh classIdx slab : Nat) : Prop :=
  ∃ chunk, slab = chunk + lzCacheLineSize ∧ Handed s.vmm chunk ∧
    (s.vmm.header chunk).chunkType = .slab ∧ (s.vmm.header chunk).owningTlh = tlh ∧
    (s.slab slab).sizeClass = classIdx

def OwnsSpan (s : State) (tlh chunk : Nat) : Prop :=
  Handed s.vmm chunk ∧ (s.vmm.header chunk).chunkType = .span ∧
    (s.vmm.header chunk).owningTlh = tlh

def InMailbox (s : State) (tlh ptr : Nat) : Prop :=
  OnChain (linkAt s.mem) (s.remoteFreeHead tlh) ptr

def InBatch (s : State) (tlh ptr : Nat) : Prop :=
  OnBatch (linkAt s.mem) (s.outgoingBatch tlh).head (s.outgoingBatch tlh).tail
    (s.outgoingBatch tlh).count ptr

/-- The object has been freed by a heap that does not own it and is on its way. -/
def Travelling (s : State) (ptr : Nat) : Prop :=
  ∃ tlh ∈ s.heaps, InBatch s tlh ptr ∨ InMailbox s tlh ptr

/-- The slab at the start of the chunk of `ptr` has handed out a block there. -/
def SlabObject (s : State) (ptr : Nat) : Prop :=
  (∃ tlh classIdx, OwnsSlab s tlh classIdx (chunkBase ptr + lzCacheLineSize)) ∧
    ∃ index < bumpedCount (s.slab (chunkBase ptr + lzCacheLineSize)),
      ptr = (s.slab (chunkBase ptr + lzCacheLineSize)).memoryBase +
        index * (s.slab (chunkBase ptr + lzCacheLineSize)).blockSize

/-- An entry of the length table of the span at the start of the chunk of `ptr`
begins there. -/
def SpanObject (s : State) (ptr : Nat) : Prop :=
  (∃ tlh, OwnsSpan s tlh (chunkBase ptr)) ∧
    ∃ page, ptr = chunkBase ptr + page * lzPageSize ∧
      (s.span (chunkBase ptr + lzCacheLineSize)).allocSizePages page ≠ 0

def OnFreeList (s : State) (ptr : Nat) : Prop :=
  OnChain (freeLink s.secret s.mem) (s.slab (chunkBase ptr + lzCacheLineSize)).freeListHead ptr

def ExactlyOne (first second third : Prop) : Prop :=
  (first ∧ ¬second ∧ ¬third) ∨ (¬first ∧ second ∧ ¬third) ∨ (¬first ∧ ¬second ∧ third)

variable {mode : Mode} {s : State} {g : Ghost} {chunk tlh classIdx ptr : Nat}

theorem in_manager_iff (core : Core mode s g) :
    InManager s.vmm chunk ↔ ∃ place, g.kind chunk = .idle place := by
  obtain ⟨count, global⟩ := core.vmm.caches.global
  have cached : ∀ place, (g.kind chunk).cached = some place ↔ g.kind chunk = .idle place := by
    intro place
    cases known : g.kind chunk <;> simp [BlockKind.cached]
  constructor
  · rintro (⟨node, bound, pooled⟩ | listed)
    · have there := (enumerates_on_chain (core.vmm.caches.pool node bound)).mp pooled
      exact ⟨_, (cached _).mp there⟩
    · have there := (enumerates_on_chain global).mp listed
      exact ⟨_, (cached _).mp there⟩
  · rintro ⟨place, idle⟩
    have there := (cached place).mpr idle
    cases place with
    | pool node =>
        have bound := (core.vmm.caches.poolHeader chunk node there).1
        exact Or.inl
          ⟨node, bound, (enumerates_on_chain (core.vmm.caches.pool node bound)).mpr there⟩
    | global => exact Or.inr ((enumerates_on_chain global).mpr there)

/-- Between operations, what the manager has handed out is formatted. -/
theorem handed_iff (core : Core mode s g) (settled : ∀ chunk, g.kind chunk ≠ .loose) :
    Handed s.vmm chunk ↔ ∃ owner, (g.kind chunk).owner = some owner := by
  rw [Handed, core.vmm.carved chunk, in_manager_iff core]
  cases known : g.kind chunk with
  | loose => exact absurd known (settled chunk)
  | unused => simp [BlockKind.IsChunk, BlockKind.owner]
  | idle place => simp [BlockKind.owner]
  | slab heap size => simp [BlockKind.IsChunk, BlockKind.owner]
  | span heap => simp [BlockKind.IsChunk, BlockKind.owner]
  | direct header => simp [BlockKind.IsChunk, BlockKind.owner]

theorem owns_slab_iff (core : Core mode s g) (settled : ∀ chunk, g.kind chunk ≠ .loose) :
    OwnsSlab s tlh classIdx (chunk + 64) ↔ g.kind chunk = .slab tlh classIdx := by
  constructor
  · rintro ⟨base, position, handed, isSlab, owner, size⟩
    obtain rfl : base = chunk := by simp only [lzCacheLineSize] at position; omega
    obtain ⟨heap, owned⟩ := (handed_iff core settled).mp handed
    cases known : g.kind base with
    | slab holder held =>
        rw [(core.header.slab base holder held known).1] at owner
        rw [(core.slabs base holder held known).sizeClass] at size
        rw [owner, size]
    | span holder =>
        rw [(core.header.span base holder known).2] at isSlab
        cases isSlab
    | unused => simp [known, BlockKind.owner] at owned
    | idle place => simp [known, BlockKind.owner] at owned
    | loose => simp [known, BlockKind.owner] at owned
    | direct header => simp [known, BlockKind.owner] at owned
  · intro kind
    obtain ⟨owner, isSlab, _⟩ := core.header.slab chunk tlh classIdx kind
    exact ⟨chunk, rfl, (handed_iff core settled).mpr ⟨tlh, by simp [kind, BlockKind.owner]⟩, isSlab,
      owner, (core.slabs chunk tlh classIdx kind).sizeClass⟩

theorem owns_span_iff (core : Core mode s g) (settled : ∀ chunk, g.kind chunk ≠ .loose) :
    OwnsSpan s tlh chunk ↔ g.kind chunk = .span tlh := by
  constructor
  · rintro ⟨handed, isSpan, owner⟩
    obtain ⟨heap, owned⟩ := (handed_iff core settled).mp handed
    cases known : g.kind chunk with
    | span holder =>
        rw [(core.header.span chunk holder known).1] at owner
        rw [owner]
    | slab holder held =>
        rw [(core.header.slab chunk holder held known).2.1] at isSpan
        cases isSpan
    | unused => simp [known, BlockKind.owner] at owned
    | idle place => simp [known, BlockKind.owner] at owned
    | loose => simp [known, BlockKind.owner] at owned
    | direct header => simp [known, BlockKind.owner] at owned
  · intro kind
    obtain ⟨owner, isSpan⟩ := core.header.span chunk tlh kind
    exact ⟨(handed_iff core settled).mpr ⟨tlh, by simp [kind, BlockKind.owner]⟩, isSpan, owner⟩

theorem owns_slab_position (owns : OwnsSlab s tlh classIdx ptr) :
    ∃ chunk, ptr = chunk + 64 := by
  obtain ⟨chunk, position, _⟩ := owns
  exact ⟨chunk, position⟩

theorem in_mailbox_iff (core : Core mode s g) :
    InMailbox s tlh ptr ↔ g.node ptr = .mail tlh := by
  obtain ⟨count, chain⟩ := core.mail.mail tlh
  exact enumerates_on_chain chain

theorem in_batch_iff (core : Core mode s g) : InBatch s tlh ptr ↔ g.node ptr = .batch tlh := by
  by_cases empty : (s.outgoingBatch tlh).count = 0
  · refine iff_of_false ?_ ((core.mail.batchEmpty tlh empty).2 ptr)
    rintro ⟨front, _, length, _⟩
    omega
  · exact ends_at_on_batch (core.mail.batchList tlh empty)

/-- With no heap in the middle of a reap, the objects in flight are those in
batches and mailboxes. -/
theorem travelling_iff (core : Core mode s g) (idle : ∀ tlh, g.cursor tlh = 0) :
    Travelling s ptr ↔ (g.node ptr).InFlight := by
  constructor
  · rintro ⟨tlh, _, batched | mailed⟩
    · rw [(in_batch_iff core).mp batched]
      trivial
    · rw [(in_mailbox_iff core).mp mailed]
      trivial
  · intro flying
    cases known : g.node ptr with
    | batch tlh =>
        exact ⟨tlh, core.objects.heaps.batch ptr tlh known, Or.inl ((in_batch_iff core).mpr known)⟩
    | mail tlh =>
        exact ⟨tlh, core.objects.heaps.owner _ tlh (core.objects.owners.mail ptr tlh known),
          Or.inr ((in_mailbox_iff core).mpr known)⟩
    | reaping tlh =>
        obtain ⟨count, chain⟩ := core.mail.reaping tlh
        rw [idle tlh] at chain
        exact absurd known ((enumerates_null chain).2 ptr)
    | none => simp [known, NodePlace.InFlight] at flying
    | live => simp [known, NodePlace.InFlight] at flying
    | leaked => simp [known, NodePlace.InFlight] at flying
    | free => simp [known, NodePlace.InFlight] at flying

theorem slab_object_iff (core : Core mode s g) (settled : ∀ chunk, g.kind chunk ≠ .loose) :
    SlabObject s ptr ↔
      (∃ tlh classIdx, g.kind (chunkBase ptr) = .slab tlh classIdx) ∧ g.node ptr ≠ .none := by
  simp only [SlabObject, lzCacheLineSize, owns_slab_iff core settled]
  refine and_congr_right ?_
  rintro ⟨tlh, classIdx, isSlab⟩
  have ok := core.slabs _ tlh classIdx isSlab
  rw [ok.blocks ptr rfl, ok.base, ok.blockSize]

theorem span_object_iff (core : Core mode s g) (settled : ∀ chunk, g.kind chunk ≠ .loose) :
    SpanObject s ptr ↔ (∃ tlh, g.kind (chunkBase ptr) = .span tlh) ∧ g.node ptr ≠ .none := by
  simp only [SpanObject, lzCacheLineSize, lzPageSize, owns_span_iff core settled]
  refine and_congr_right ?_
  rintro ⟨tlh, isSpan⟩
  rw [(core.spans _ tlh isSpan).nodes ptr rfl]

theorem on_free_list_iff (core : Core mode s g)
    (isSlab : g.kind (chunkBase ptr) = .slab tlh classIdx) :
    OnFreeList s ptr ↔ g.node ptr = .free := by
  have ok := core.slabs _ tlh classIdx isSlab
  refine (enumerates_on_chain ok.freeList).trans ?_
  exact and_iff_right rfl

end Lzmalloc.ConcreteView
