import Lzmalloc.RemoteFree

/-!
# What the engines leave alone

No engine touches the bookkeeping of threads, a batch or a mailbox: the
thread-local pointers, the zombie list, the heaps and the direct objects are
written by the public interface only, batches by remote frees and mailboxes by
flushes and reaps.
-/

namespace Lzmalloc.ThreadFrames

open SizeClasses HeapState VirtualMemoryManager Engines ThreadHeap Mappings RadixTree ChunkTransfer
open ClientView SlabLifecycle SlabAllocation RemoteFree

set_option autoImplicit false

variable {s after : State}

/-! ## Manager and radix tree -/

theorem only_manager_accounts (only : OnlyManager s after) : SameAccounts s after := by
  unfold OnlyManager at only
  rw [only]
  exact rfl

theorem rtree_set_accounts (s : State) (chunkAddr metadata : Nat) :
    SameAccounts s (lzRtreeSet s chunkAddr metadata) := by
  rw [lz_rtree_set_eq]
  exact rfl

theorem vmm_free_accounts (s : State) (chunk : Nat) : SameAccounts s (lzVmmFreeChunk s chunk) :=
  only_manager_accounts (lz_vmm_free_chunk_only s chunk)

theorem sys_alloc_extent_accounts (s : State) : SameAccounts s (sysAllocExtent s) := by
  unfold sysAllocExtent
  rcases map_extent_cases s with failed | ⟨start, mapped, done, maps⟩
  · rw [failed]
    exact rfl
  · rw [done, maps.rest]
    exact rfl

theorem global_alloc_accounts (s : State) : SameAccounts s (globalAlloc s).2 := by
  unfold globalAlloc
  by_cases empty : s.vmm.globalFreeChunks = 0
  · simp only [if_pos empty]
    exact same_accounts_trans (sys_alloc_extent_accounts s) rfl
  · simp only [if_neg empty]
    exact rfl

theorem vmm_alloc_accounts (s : State) : SameAccounts s (lzVmmAllocChunk s).2 := by
  have located : SameAccounts s (lzGetCurrentNode s).2 := rfl
  unfold lzVmmAllocChunk
  simp only
  split
  · exact same_accounts_trans located rfl
  · have global := same_accounts_trans located (global_alloc_accounts (lzGetCurrentNode s).2)
    split
    · exact global
    · exact same_accounts_trans global rfl

theorem purge_loop_accounts (fuel : Nat) (s : State) (chunk : Nat) :
    SameAccounts s (purgeLoop fuel s chunk) := by
  induction fuel generalizing s chunk with
  | zero => exact same_accounts_refl s
  | succ fuel ih =>
      unfold purgeLoop
      by_cases ended : chunk = 0
      · rw [if_pos ended]
        exact same_accounts_refl s
      · rw [if_neg ended]
        refine same_accounts_trans ?_ (ih _ _)
        exact rfl

theorem purge_all_accounts (s : State) : SameAccounts s (lzVmmPurgeAllCaches s) := by
  unfold lzVmmPurgeAllCaches
  generalize List.range lzMaxNumaNodes = nodes
  induction nodes generalizing s with
  | nil => exact same_accounts_refl s
  | cons node rest ih =>
      rw [List.foldl_cons]
      refine same_accounts_trans (same_accounts_trans ?_ (purge_loop_accounts _ _ _)) (ih _)
      exact rfl

/-! ## Telemetry -/

theorem info_outside (s : State) (tlh : Nat) (info : TlhInfo) (slots : Nat → BitVec 64)
    (kept : heapIdentity info = heapIdentity (s.tlh tlh)) :
    SameOutside s { s with tlh := Function.update s.tlh tlh info, slots := slots } := by
  have records : (fun other => heapIdentity (Function.update s.tlh tlh info other)) =
      fun other => heapIdentity (s.tlh other) := by
    funext other
    by_cases same : other = tlh
    · rw [same, Function.update_self, kept]
    · rw [Function.update_of_ne same]
  have links : (fun other => (Function.update s.tlh tlh info other).nextZombie) =
      fun other => (s.tlh other).nextZombie :=
    congrArg (fun record other => TlhInfo.nextZombie (record other)) records
  simp only [SameOutside, outsideView, threadView, links, records]

theorem account_free_outside (s : State) (tlh bytes : Nat) :
    SameOutside s (accountFree s tlh bytes) := by
  unfold accountFree
  cases (s.tlh tlh).statSlot with
  | none => exact same_outside_refl s
  | some slot =>
      simp only
      split
      · exact info_outside s tlh _ _ rfl
      · exact info_outside s tlh _ s.slots rfl

theorem account_alloc_outside (s : State) (tlh bytes : Nat) :
    SameOutside s (accountAlloc s tlh bytes) := by
  unfold accountAlloc
  cases (s.tlh tlh).statSlot with
  | none => exact info_outside s tlh _ s.slots rfl
  | some slot =>
      simp only
      split
      · exact info_outside s tlh _ _ rfl
      · exact info_outside s tlh _ s.slots rfl

/-! ## Free paths -/

theorem slab_destroy_accounts (s : State) (slab : Nat) : SameAccounts s (lzSlabDestroy s slab) := by
  unfold lzSlabDestroy
  simp only
  split
  · exact same_accounts_refl s
  · exact same_accounts_trans (rtree_set_accounts s _ 0) (vmm_free_accounts _ _)

theorem rescue_accounts (s : State) (tlh slab : Nat) :
    SameAccounts s (rescueIfWasFull s tlh slab) := by
  unfold rescueIfWasFull lzTlhRescueFromFull
  split
  · simp only
    split
    · exact same_accounts_refl s
    · exact rfl
  · exact same_accounts_refl s

theorem recycle_accounts (s : State) (tlh slab : Nat) :
    SameAccounts s (recycleIfEmpty s tlh slab) := by
  unfold recycleIfEmpty lzTlhRecycleEmptySlab
  split
  · simp only
    split
    · split
      · exact same_accounts_refl s
      · refine same_accounts_trans ?_ (slab_destroy_accounts _ slab)
        exact rfl
    · refine same_accounts_trans ?_ (slab_destroy_accounts _ slab)
      exact rfl
  · exact same_accounts_refl s

theorem free_slab_outside (s : State) (tlh chunk ptr : Nat) :
    SameOutside s (lzTlhFreeSlab s tlh chunk ptr) := by
  have pushed : SameOutside s (pushFreeBlock s (chunk + lzCacheLineSize) ptr) :=
    rfl
  have rescued :=
    same_outside_trans pushed (rescue_accounts _ tlh (chunk + lzCacheLineSize)).outside
  have recycled :=
    same_outside_trans rescued (recycle_accounts _ tlh (chunk + lzCacheLineSize)).outside
  exact same_outside_trans recycled (account_free_outside _ _ _)

theorem destroy_span_accounts (s : State) (tlh chunk : Nat) :
    SameAccounts s (destroySpan s tlh chunk) := by
  unfold destroySpan
  refine same_accounts_trans (same_accounts_trans ?_ (rtree_set_accounts _ chunk 0))
    (vmm_free_accounts _ chunk)
  exact rfl

theorem span_free_outside (s : State) (tlh chunk ptr : Nat) :
    SameOutside s (lzSpanFreeLocal s tlh chunk ptr) := by
  unfold lzSpanFreeLocal
  simp only
  split
  · exact same_outside_refl s
  · split
    · exact same_outside_refl s
    · have released : ∀ page pages bytes, SameOutside s
          (accountFree (releasePages s (chunk + lzCacheLineSize) page pages) tlh bytes) := by
        intro page pages bytes
        refine same_outside_trans ?_ (account_free_outside _ tlh bytes)
        exact rfl
      split
      · refine same_outside_trans (released _ _ _) (destroy_span_accounts _ tlh chunk).outside
      · exact released _ _ _

theorem reap_node_outside (s : State) (tlh head : Nat) :
    SameOutside s (lzTlhReapNode s tlh head) := by
  unfold lzTlhReapNode
  simp only
  split
  · exact free_slab_outside s tlh (chunkBase head) head
  · exact span_free_outside s tlh (chunkBase head) head
  · exact same_outside_refl s

theorem reap_loop_outside (fuel : Nat) (s : State) (tlh head : Nat) :
    SameOutside s (lzTlhReapLoop fuel s tlh head) := by
  induction fuel generalizing s head with
  | zero => exact same_outside_refl s
  | succ fuel ih =>
      unfold lzTlhReapLoop
      by_cases ended : head = 0
      · rw [if_pos ended]
        exact same_outside_refl s
      · rw [if_neg ended]
        exact same_outside_trans (reap_node_outside s tlh head) (ih _ _)

theorem reap_outside (s : State) (tlh : Nat) :
    SameOutside (detachMailbox s tlh) (lzTlhReap s tlh) :=
  reap_loop_outside _ (detachMailbox s tlh) tlh _

theorem reap_batches (s : State) (tlh : Nat) : SameBatches s (lzTlhReap s tlh) := by
  have detached : SameBatches s (detachMailbox s tlh) := rfl
  exact same_batches_trans detached (same_batches_of_outside (reap_outside s tlh))

theorem reap_threads (s : State) (tlh : Nat) : SameThreads s (lzTlhReap s tlh) :=
  (reap_batches s tlh).threads

theorem flush_threads (s : State) (tlh : Nat) :
    SameThreads s (lzTlhFlushOutgoingBatch s tlh) := by
  rw [lz_tlh_flush_only]
  exact rfl

theorem free_remote_threads (s : State) (tlh owner node : Nat) :
    SameThreads s (lzTlhFreeRemote s tlh owner node) := by
  have cleared : SameThreads s (setLink s node 0) := rfl
  unfold lzTlhFreeRemote
  simp only
  split
  · refine same_threads_trans (same_threads_trans cleared (flush_threads _ tlh)) ?_
    exact rfl
  · exact rfl

theorem tlh_free_threads (s : State) (tlh ptr : Nat) : SameThreads s (lzTlhFree s tlh ptr) := by
  unfold lzTlhFree
  split
  · exact same_threads_refl s
  · simp only
    generalize
      (if magicOk s.vmm (chunkBase ptr) then chunkBase ptr else lzRtreeGet s.rtree ptr) = chunk
    split
    · exact same_threads_refl s
    · split
      · split
        · exact (free_slab_outside s tlh _ ptr).threads
        · exact (span_free_outside s tlh _ ptr).threads
        · exact same_threads_refl s
      · exact free_remote_threads s tlh _ ptr

theorem flush_outgoing (s : State) {tlh heap : Nat} (other : heap ≠ tlh) :
    (lzTlhFlushOutgoingBatch s tlh).outgoingBatch heap = s.outgoingBatch heap := by
  unfold lzTlhFlushOutgoingBatch
  simp only
  split
  · rfl
  · exact Function.update_of_ne other _ _

theorem free_remote_outgoing (s : State) {tlh heap : Nat} (owner node : Nat) (other : heap ≠ tlh) :
    (lzTlhFreeRemote s tlh owner node).outgoingBatch heap = s.outgoingBatch heap := by
  have enqueued : ∀ ready : State,
      (enqueueRemote ready tlh node).outgoingBatch heap = ready.outgoingBatch heap :=
    fun ready => Function.update_of_ne other _ _
  unfold lzTlhFreeRemote
  simp only
  rw [enqueued]
  split
  · exact (Function.update_of_ne other _ _).trans (flush_outgoing _ other)
  · rfl

theorem tlh_free_outgoing (s : State) {tlh heap : Nat} (ptr : Nat) (other : heap ≠ tlh) :
    (lzTlhFree s tlh ptr).outgoingBatch heap = s.outgoingBatch heap := by
  unfold lzTlhFree
  split
  · rfl
  · simp only
    generalize
      (if magicOk s.vmm (chunkBase ptr) then chunkBase ptr else lzRtreeGet s.rtree ptr) = chunk
    split
    · rfl
    · split
      · split
        · rw [(free_slab_outside s tlh _ ptr).outgoing_batch]
        · rw [(span_free_outside s tlh _ ptr).outgoing_batch]
        · rfl
      · exact free_remote_outgoing s _ ptr other

/-! ## Allocation -/

theorem format_slab_accounts (s : State) (tlh classIdx chunk : Nat) :
    SameAccounts s (formatSlab s tlh classIdx chunk) := by
  exact rtree_set_accounts { s with vmm := claimHeader s.vmm chunk tlh .slab } chunk chunk

theorem format_span_accounts (s : State) (tlh chunk : Nat) :
    SameAccounts s (formatSpan s tlh chunk) := by
  exact rtree_set_accounts { s with vmm := claimHeader s.vmm chunk tlh .span } chunk chunk

theorem span_alloc_accounts (s : State) (tlh size : Nat) :
    SameAccounts s (lzSpanAlloc s tlh size).2 := by
  unfold lzSpanAlloc
  simp only
  split
  · exact same_accounts_refl s
  · split
    · exact rfl
    · split
      · exact vmm_alloc_accounts s
      · have formatted := same_accounts_trans (vmm_alloc_accounts s)
          (format_span_accounts (lzVmmAllocChunk s).2 tlh (lzVmmAllocChunk s).1)
        split
        · exact formatted
        · exact same_accounts_trans formatted rfl

theorem pop_accounts (s : State) (slab : Nat) : SameAccounts s (popFreeBlock s slab).2 :=
  rfl

theorem bump_accounts (s : State) (slab : Nat) : SameAccounts s (bumpBlock s slab).2 := by
  unfold bumpBlock
  simp only
  split
  · exact rfl
  · exact rfl

theorem retire_current_accounts (s : State) (tlh classIdx : Nat) :
    SameAccounts s (retireCurrent s tlh classIdx) := by
  rw [retire_current_only]
  exact rfl

theorem alloc_slow_accounts (s : State) (tlh scIdx : Nat) :
    SameAccounts s (lzTlhAllocSlow s tlh scIdx).2 := by
  unfold lzTlhAllocSlow
  split
  · exact same_accounts_trans (retire_current_accounts s tlh scIdx) rfl
  · have created : SameAccounts s (lzSlabCreate s tlh scIdx).2 := by
      unfold lzSlabCreate
      simp only
      split
      · exact vmm_alloc_accounts s
      · exact same_accounts_trans (vmm_alloc_accounts s) (format_slab_accounts _ _ _ _)
    simp only
    split
    · exact created
    · have retired := same_accounts_trans created (retire_current_accounts _ tlh scIdx)
      generalize retireCurrent (lzSlabCreate s tlh scIdx).2 tlh scIdx = after at retired ⊢
      exact same_accounts_trans retired rfl

theorem alloc_attempt_batches (s : State) (tlh scIdx : Nat) :
    SameBatches s (lzTlhAllocAttempt s tlh scIdx).2 := by
  have reaped := reap_batches s tlh
  unfold lzTlhAllocAttempt
  simp only
  split
  · exact same_batches_of_outside (pop_accounts s _).outside
  · split
    · exact same_batches_trans reaped (same_batches_of_outside (pop_accounts _ _).outside)
    · split
      · exact same_batches_trans reaped (same_batches_of_outside (bump_accounts _ _).outside)
      · exact reaped

theorem tlh_alloc_batches (s : State) (tlh size : Nat) :
    SameBatches s (lzTlhAlloc s tlh size).2 := by
  unfold lzTlhAlloc
  split
  · exact same_batches_of_outside (span_alloc_accounts s tlh size).outside
  · have attempt := alloc_attempt_batches s tlh (lzSizeToClass size)
    have got : SameBatches s (if (lzTlhAllocAttempt s tlh (lzSizeToClass size)).1 = 0 then
        lzTlhAllocSlow (lzTlhAllocAttempt s tlh (lzSizeToClass size)).2 tlh (lzSizeToClass size)
        else lzTlhAllocAttempt s tlh (lzSizeToClass size)).2 := by
      split
      · exact same_batches_trans attempt
          (same_batches_of_outside (alloc_slow_accounts _ _ _).outside)
      · exact attempt
    simp only
    generalize (if (lzTlhAllocAttempt s tlh (lzSizeToClass size)).1 = 0 then
        lzTlhAllocSlow (lzTlhAllocAttempt s tlh (lzSizeToClass size)).2 tlh (lzSizeToClass size)
        else lzTlhAllocAttempt s tlh (lzSizeToClass size)) = outcome at got ⊢
    split
    · exact got
    · exact same_batches_trans got (same_batches_of_outside (account_alloc_outside _ _ _))

theorem tlh_alloc_threads (s : State) (tlh size : Nat) :
    SameThreads s (lzTlhAlloc s tlh size).2 :=
  (tlh_alloc_batches s tlh size).threads

end Lzmalloc.ThreadFrames
