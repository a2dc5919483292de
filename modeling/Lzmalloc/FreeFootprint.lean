import Lzmalloc.ThreadFrames

/-!
# What a free writes

`lz_tlh_free` maps and unmaps nothing. It writes the link word of the freed
object, at most one link word of the outgoing batch, and it may give up the
contents of a chunk, which is then the first of the global list.
-/

namespace Lzmalloc.FreeFootprint

open SizeClasses HeapState VirtualMemoryManager ByteMemory Engines ThreadHeap PointerChain
open HeapInvariant InvariantFacts

set_option autoImplicit false

variable {s middle after : State} {cells : Nat → Prop}

def Deflated (s : State) (byte : Nat) : Prop :=
  s.vmm.globalFreeChunks ≠ 0 ∧ s.vmm.globalFreeChunks ≤ byte ∧
    byte < s.vmm.globalFreeChunks + 2097152

def InCell (cells : Nat → Prop) (byte : Nat) : Prop :=
  ∃ cell, cells cell ∧ cell ≤ byte ∧ byte < cell + 8

structure Footprint (cells : Nat → Prop) (s after : State) : Prop where
  regions : after.regions = s.regions
  bytes : ∀ byte, after.mem byte = s.mem byte ∨ InCell cells byte ∨ Deflated after byte

theorem footprint_refl (cells : Nat → Prop) (s : State) : Footprint cells s s :=
  ⟨rfl, fun _ => Or.inl rfl⟩

/-- The manager may change as long as it has not taken a chunk yet. -/
theorem footprint_trans (second : Footprint cells middle after)
    (regions : middle.regions = s.regions)
    (bytes : ∀ byte, middle.mem byte = s.mem byte ∨ InCell cells byte) :
    Footprint cells s after := by
  refine ⟨second.regions.trans regions, fun byte => ?_⟩
  rcases second.bytes byte with same | touched
  · rw [same]
    exact (bytes byte).imp id Or.inl
  · exact Or.inr touched

theorem footprint_same (first : Footprint cells s middle) (regions : after.regions = middle.regions)
    (mem : after.mem = middle.mem) (vmm : after.vmm = middle.vmm) : Footprint cells s after := by
  refine ⟨regions.trans first.regions, fun byte => ?_⟩
  rw [mem, Deflated, vmm]
  exact first.bytes byte

theorem store_bytes (mem : Memory) {node value : Nat} (known : cells node) (byte : Nat) :
    store mem node 8 value byte = mem byte ∨ InCell cells byte := by
  by_cases inside : node ≤ byte ∧ byte < node + 8
  · exact Or.inr ⟨node, known, inside⟩
  · exact Or.inl (store_outside mem (by omega))

theorem vmm_free_footprint (cells : Nat → Prop) (s : State) (chunk : Nat) :
    Footprint cells s (lzVmmFreeChunk s chunk) := by
  unfold lzVmmFreeChunk
  by_cases ignored : chunk = 0 ∨ ¬magicOk s.vmm chunk
  · rw [if_pos ignored]
    exact footprint_refl cells s
  · rw [if_neg ignored]
    by_cases full : (poolPush s.vmm chunk).1 = true
    · simp only [full, if_true]
      refine ⟨rfl, fun byte => ?_⟩
      by_cases inside : chunk ≤ byte ∧ byte < chunk + 2097152
      · right
        right
        exact ⟨fun null => ignored (Or.inl null), inside⟩
      · left
        apply fill_outside
        simp only [lzPageSize, lzHugePageSize]
        omega
    · simp only [full]
      exact ⟨rfl, fun _ => Or.inl rfl⟩

theorem rtree_set_frame (s : State) (chunkAddr metadata : Nat) :
    (lzRtreeSet s chunkAddr metadata).regions = s.regions ∧
      (lzRtreeSet s chunkAddr metadata).mem = s.mem := by
  rw [RadixTree.lz_rtree_set_eq]
  exact ⟨rfl, rfl⟩

theorem account_free_frame (s : State) (tlh bytes : Nat) :
    (accountFree s tlh bytes).regions = s.regions ∧ (accountFree s tlh bytes).mem = s.mem ∧
      (accountFree s tlh bytes).vmm = s.vmm := by
  rw [SlabLifecycle.account_free_eq]
  exact ⟨rfl, rfl, rfl⟩

theorem slab_destroy_footprint (cells : Nat → Prop) (s : State) (slab : Nat) :
    Footprint cells s (lzSlabDestroy s slab) := by
  unfold lzSlabDestroy
  simp only
  split
  · exact footprint_refl cells s
  · obtain ⟨regions, mem⟩ := rtree_set_frame s (chunkBase slab) 0
    refine footprint_trans (vmm_free_footprint cells _ _) ?_ fun byte => ?_
    · exact regions
    · exact Or.inl (congrFun mem byte)

theorem rescue_frame (s : State) (tlh slab : Nat) :
    (rescueIfWasFull s tlh slab).regions = s.regions ∧
      (rescueIfWasFull s tlh slab).mem = s.mem := by
  unfold rescueIfWasFull lzTlhRescueFromFull
  split
  · simp only
    split
    · exact ⟨rfl, rfl⟩
    · exact ⟨rfl, rfl⟩
  · exact ⟨rfl, rfl⟩

theorem recycle_footprint (cells : Nat → Prop) (s : State) (tlh slab : Nat) :
    Footprint cells s (recycleIfEmpty s tlh slab) := by
  unfold recycleIfEmpty lzTlhRecycleEmptySlab
  split
  · simp only
    split
    · split
      · exact footprint_refl cells s
      · exact footprint_trans (slab_destroy_footprint cells _ slab) rfl fun _ => Or.inl rfl
    · exact footprint_trans (slab_destroy_footprint cells _ slab) rfl fun _ => Or.inl rfl
  · exact footprint_refl cells s

theorem free_slab_footprint (s : State) (tlh chunk : Nat) {ptr : Nat} (known : cells ptr) :
    Footprint cells s (lzTlhFreeSlab s tlh chunk ptr) := by
  obtain ⟨regions, mem⟩ := rescue_frame (pushFreeBlock s (chunk + lzCacheLineSize) ptr) tlh
    (chunk + lzCacheLineSize)
  have recycled : Footprint cells s
      (recycleIfEmpty (rescueIfWasFull (pushFreeBlock s (chunk + lzCacheLineSize) ptr) tlh
        (chunk + lzCacheLineSize)) tlh (chunk + lzCacheLineSize)) := by
    refine footprint_trans (recycle_footprint cells _ tlh _) ?_ fun byte => ?_
    · exact regions
    · rw [mem]
      exact store_bytes s.mem known byte
  obtain ⟨lastRegions, lastMem, lastVmm⟩ := account_free_frame _ tlh _
  exact footprint_same recycled lastRegions lastMem lastVmm

theorem destroy_span_footprint (cells : Nat → Prop) (s : State) (tlh chunk : Nat) :
    Footprint cells s (destroySpan s tlh chunk) := by
  unfold destroySpan
  simp only
  obtain ⟨regions, mem⟩ := rtree_set_frame
    { s with
      spanLinks := DoublyLinked.unlink s.spanLinks (chunk + lzCacheLineSize)
      activeSpans := Function.update s.activeSpans tlh
        (DoublyLinked.unlinkHead s.spanLinks (s.activeSpans tlh) (chunk + lzCacheLineSize)) }
        chunk 0
  refine footprint_trans (vmm_free_footprint cells _ chunk) ?_ fun byte => ?_
  · exact regions
  · exact Or.inl (congrFun mem byte)

theorem span_free_footprint (cells : Nat → Prop) (s : State) (tlh chunk ptr : Nat) :
    Footprint cells s (lzSpanFreeLocal s tlh chunk ptr) := by
  unfold lzSpanFreeLocal
  simp only
  split
  · exact footprint_refl cells s
  split
  · exact footprint_refl cells s
  · obtain ⟨regions, mem, vmm⟩ := account_free_frame (releasePages s (chunk + lzCacheLineSize)
      ((ptr - chunk) / lzPageSize % 2 ^ 32) ((s.span (chunk + lzCacheLineSize)).allocSizePages
        ((ptr - chunk) / lzPageSize % 2 ^ 32))) tlh
      ((s.span (chunk + lzCacheLineSize)).allocSizePages ((ptr - chunk) / lzPageSize % 2 ^ 32) *
        lzPageSize % 2 ^ 32)
    split
    · refine footprint_trans (destroy_span_footprint cells _ tlh chunk) ?_ fun byte => ?_
      · exact regions
      · exact Or.inl (congrFun mem byte)
    · exact footprint_same (footprint_refl cells s) regions mem vmm

theorem flush_frame (s : State) (tlh : Nat)
    (known : (s.outgoingBatch tlh).count ≠ 0 → cells (s.outgoingBatch tlh).tail) :
    (lzTlhFlushOutgoingBatch s tlh).regions = s.regions ∧
      ∀ byte, (lzTlhFlushOutgoingBatch s tlh).mem byte = s.mem byte ∨ InCell cells byte := by
  unfold lzTlhFlushOutgoingBatch
  simp only
  split
  · exact ⟨rfl, fun _ => Or.inl rfl⟩
  · next full => exact ⟨rfl, store_bytes s.mem (known fun empty => full (Or.inl empty))⟩

theorem free_remote_footprint (s : State) (tlh owner : Nat) {node : Nat} (known : cells node)
    (tail : (s.outgoingBatch tlh).count ≠ 0 → cells (s.outgoingBatch tlh).tail) :
    Footprint cells s (lzTlhFreeRemote s tlh owner node) := by
  have enqueued : ∀ ready : State, ready.regions = s.regions →
      (∀ byte, ready.mem byte = s.mem byte ∨ InCell cells byte) →
        Footprint cells s (enqueueRemote ready tlh node) := by
    intro ready regions bytes
    refine ⟨regions, fun byte => ?_⟩
    rcases store_bytes ready.mem known byte with same | inside
    · rcases bytes byte with before | inside
      · exact Or.inl (same.trans before)
      · exact Or.inr (Or.inl inside)
    · exact Or.inr (Or.inl inside)
  unfold lzTlhFreeRemote
  simp only
  split
  · obtain ⟨regions, bytes⟩ := flush_frame (setLink s node 0) tlh tail
    apply enqueued
    · exact regions
    · intro byte
      rcases bytes byte with same | inside
      · rcases store_bytes s.mem known byte with before | inside
        · exact Or.inl (same.trans before)
        · exact Or.inr inside
      · exact Or.inr inside
  · exact enqueued _ rfl (store_bytes s.mem known)

theorem tlh_free_footprint (s : State) (tlh : Nat) {ptr : Nat} (known : cells ptr)
    (tail : (s.outgoingBatch tlh).count ≠ 0 → cells (s.outgoingBatch tlh).tail) :
    Footprint cells s (lzTlhFree s tlh ptr) := by
  unfold lzTlhFree
  split
  · exact footprint_refl cells s
  · simp only
    generalize
      (if magicOk s.vmm (chunkBase ptr) then chunkBase ptr else lzRtreeGet s.rtree ptr) = chunk
    split
    · exact footprint_refl cells s
    · split
      · split
        · exact free_slab_footprint s tlh _ known
        · exact span_free_footprint cells s tlh _ ptr
        · exact footprint_refl cells s
      · exact free_remote_footprint s tlh _ known tail

theorem reap_node_footprint (s : State) (tlh : Nat) {head : Nat} (known : cells head) :
    Footprint cells s (lzTlhReapNode s tlh head) := by
  unfold lzTlhReapNode
  simp only
  split
  · exact free_slab_footprint s tlh (chunkBase head) known
  · exact span_free_footprint cells s tlh (chunkBase head) head
  · exact footprint_refl cells s

/-! ## Links that stay -/

variable {mode : Mode} {last : Ghost} {byte ptr : Nat}

theorem deflated_idle (core : Core mode s last) (deflated : Deflated s byte) :
    ¬(last.kind (chunkBase byte)).HoldsObjects := by
  obtain ⟨nonnull, lower, upper⟩ := deflated
  obtain ⟨count, chain⟩ := core.vmm.caches.global
  have head := enumerates_head chain nonnull
  cases kind : last.kind s.vmm.globalFreeChunks with
  | idle place =>
      obtain ⟨aligned, _, _⟩ := core.geom.placed s.vmm.globalFreeChunks (by simp [kind])
      rw [chunk_base_eq aligned lower upper, kind]
      exact id
  | unused => simp [kind, BlockKind.cached] at head
  | loose => simp [kind, BlockKind.cached] at head
  | slab tlh classIdx => simp [kind, BlockKind.cached] at head
  | span tlh => simp [kind, BlockKind.cached] at head
  | direct header => simp [kind, BlockKind.cached] at head

/-- Link words of objects that are still there and were not written. -/
theorem footprint_link (footprint : Footprint cells s after) (later : Core mode after last)
    (aligned : ∀ cell, cells cell → cell % 16 = 0) (present : last.node ptr ≠ .none)
    (untouched : ¬cells ptr) : linkAt after.mem ptr = linkAt s.mem ptr := by
  obtain ⟨ptrAligned, inside⟩ := core_node_cell later present
  obtain ⟨baseAligned, _, _⟩ := core_placed later present
  have base := chunk_base_le ptr
  apply load_congr
  intro byte lower upper
  rcases footprint.bytes byte with same | ⟨cell, known, touched⟩ | deflated
  · exact same
  · have cellAligned := aligned cell known
    have same : cell = ptr := by omega
    rw [same] at known
    exact absurd known untouched
  · apply absurd _ (deflated_idle later deflated)
    rw [chunk_base_eq baseAligned (by omega) (by omega)]
    exact later.objects.scope ptr present

end Lzmalloc.FreeFootprint
