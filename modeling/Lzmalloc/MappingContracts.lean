import Lzmalloc.ClientBytes
import Lzmalloc.CallParts
import Lzmalloc.ObjectContracts

/-!
# What stays mapped

The allocator maps extents, which it cuts into chunks and keeps, and one region
for each direct object, which it unmaps on free. The trimming around an aligned
region is unmapped at once. So every mapped byte belongs to a carved chunk or to
a direct object that the client still holds.
-/

namespace Lzmalloc.MappingContracts

open SizeClasses HeapState VirtualMemoryManager Engines ThreadHeap PublicApi StepSystem
open HeapInvariant InvariantFacts ClientView Mappings ChunkCaches ChunkTransfer DirectObjects
open DirectContracts HeapOperations ApiOperations ApiRuns CallParts FreeFootprint ClientBytes
open SlabContracts (generousEnv)
open ObjectContracts (along_fits_of_small)

set_option autoImplicit false

def InDirect (s : State) (header address : Nat) : Prop :=
  header ∈ s.directs ∧ header ≤ address ∧ address < header + (s.direct header).totalBytes

instance (s : State) (header address : Nat) : Decidable (InDirect s header address) :=
  inferInstanceAs (Decidable (_ ∧ _ ∧ _))

def Covered (s : State) : Prop :=
  ∀ address, Mapped s.regions address →
    chunkBase address ∈ s.vmm.carved ∨ ∃ header, InDirect s header address

variable {s middle after : State} {tlh thread size ptr : Nat}

/-! ## Operations that map nothing -/

structure SameMappings (s after : State) : Prop where
  regions : after.regions = s.regions
  carved : after.vmm.carved = s.vmm.carved
  direct : after.direct = s.direct
  directs : after.directs = s.directs

theorem same_mappings_refl (s : State) : SameMappings s s := ⟨rfl, rfl, rfl, rfl⟩

theorem same_mappings_trans (first : SameMappings s middle) (second : SameMappings middle after) :
    SameMappings s after :=
  ⟨second.regions.trans first.regions, second.carved.trans first.carved,
    second.direct.trans first.direct, second.directs.trans first.directs⟩

theorem covered_same (same : SameMappings s after) (covered : Covered s) : Covered after := by
  intro address mapped
  rw [same.regions] at mapped
  unfold InDirect
  rw [same.carved, same.direct, same.directs]
  exact covered address mapped

theorem rtree_set_mappings (s : State) (chunkAddr metadata : Nat) :
    SameMappings s (lzRtreeSet s chunkAddr metadata) := by
  rw [RadixTree.lz_rtree_set_eq]
  exact ⟨rfl, rfl, rfl, rfl⟩

theorem account_free_mappings (s : State) (tlh bytes : Nat) :
    SameMappings s (accountFree s tlh bytes) := by
  rw [SlabLifecycle.account_free_eq]
  exact ⟨rfl, rfl, rfl, rfl⟩

theorem vmm_free_mappings (s : State) (chunk : Nat) : SameMappings s (lzVmmFreeChunk s chunk) := by
  unfold lzVmmFreeChunk
  split
  · exact same_mappings_refl s
  · simp only
    split
    · exact ⟨rfl, pool_push_carved s.vmm chunk, rfl, rfl⟩
    · exact ⟨rfl, pool_push_carved s.vmm chunk, rfl, rfl⟩

theorem slab_destroy_mappings (s : State) (slab : Nat) : SameMappings s (lzSlabDestroy s slab) := by
  unfold lzSlabDestroy
  simp only
  split
  · exact same_mappings_refl s
  · exact same_mappings_trans (rtree_set_mappings s _ 0) (vmm_free_mappings _ _)

theorem rescue_mappings (s : State) (tlh slab : Nat) :
    SameMappings s (rescueIfWasFull s tlh slab) := by
  unfold rescueIfWasFull lzTlhRescueFromFull
  split
  · simp only
    split
    · exact same_mappings_refl s
    · exact ⟨rfl, rfl, rfl, rfl⟩
  · exact same_mappings_refl s

theorem recycle_mappings (s : State) (tlh slab : Nat) :
    SameMappings s (recycleIfEmpty s tlh slab) := by
  unfold recycleIfEmpty lzTlhRecycleEmptySlab
  split
  · simp only
    split
    · split
      · exact same_mappings_refl s
      · apply same_mappings_trans _ (slab_destroy_mappings _ slab)
        exact ⟨rfl, rfl, rfl, rfl⟩
    · apply same_mappings_trans _ (slab_destroy_mappings _ slab)
      exact ⟨rfl, rfl, rfl, rfl⟩
  · exact same_mappings_refl s

theorem free_slab_mappings (s : State) (tlh chunk ptr : Nat) :
    SameMappings s (lzTlhFreeSlab s tlh chunk ptr) := by
  have pushed : SameMappings s (pushFreeBlock s (chunk + lzCacheLineSize) ptr) :=
    ⟨rfl, rfl, rfl, rfl⟩
  have rescued := same_mappings_trans pushed (rescue_mappings _ tlh (chunk + lzCacheLineSize))
  have recycled := same_mappings_trans rescued (recycle_mappings _ tlh (chunk + lzCacheLineSize))
  exact same_mappings_trans recycled (account_free_mappings _ tlh _)

theorem destroy_span_mappings (s : State) (tlh chunk : Nat) :
    SameMappings s (destroySpan s tlh chunk) := by
  unfold destroySpan
  simp only
  apply same_mappings_trans _ (vmm_free_mappings _ chunk)
  apply same_mappings_trans _ (rtree_set_mappings _ chunk 0)
  exact ⟨rfl, rfl, rfl, rfl⟩

theorem span_free_mappings (s : State) (tlh chunk ptr : Nat) :
    SameMappings s (lzSpanFreeLocal s tlh chunk ptr) := by
  unfold lzSpanFreeLocal
  simp only
  split
  · exact same_mappings_refl s
  split
  · exact same_mappings_refl s
  · have released : SameMappings s (releasePages s (chunk + lzCacheLineSize)
        ((ptr - chunk) / lzPageSize % 2 ^ 32) ((s.span (chunk + lzCacheLineSize)).allocSizePages
          ((ptr - chunk) / lzPageSize % 2 ^ 32))) := ⟨rfl, rfl, rfl, rfl⟩
    have counted := same_mappings_trans released (account_free_mappings _ tlh
      ((s.span (chunk + lzCacheLineSize)).allocSizePages ((ptr - chunk) / lzPageSize % 2 ^ 32) *
        lzPageSize % 2 ^ 32))
    split
    · exact same_mappings_trans counted (destroy_span_mappings _ tlh chunk)
    · exact counted

theorem flush_mappings (s : State) (tlh : Nat) :
    SameMappings s (lzTlhFlushOutgoingBatch s tlh) := by
  unfold lzTlhFlushOutgoingBatch
  simp only
  split
  · exact same_mappings_refl s
  · exact ⟨rfl, rfl, rfl, rfl⟩

theorem free_remote_mappings (s : State) (tlh owner node : Nat) :
    SameMappings s (lzTlhFreeRemote s tlh owner node) := by
  unfold lzTlhFreeRemote
  simp only
  split
  · have flushed := same_mappings_trans (⟨rfl, rfl, rfl, rfl⟩ : SameMappings s (setLink s node 0))
      (flush_mappings (setLink s node 0) tlh)
    exact same_mappings_trans flushed ⟨rfl, rfl, rfl, rfl⟩
  · exact ⟨rfl, rfl, rfl, rfl⟩

theorem tlh_free_mappings (s : State) (tlh ptr : Nat) : SameMappings s (lzTlhFree s tlh ptr) := by
  unfold lzTlhFree
  split
  · exact same_mappings_refl s
  · simp only
    generalize
      (if magicOk s.vmm (chunkBase ptr) then chunkBase ptr else lzRtreeGet s.rtree ptr) = chunk
    split
    · exact same_mappings_refl s
    · split
      · split
        · exact free_slab_mappings s tlh _ ptr
        · exact span_free_mappings s tlh _ ptr
        · exact same_mappings_refl s
      · exact free_remote_mappings s tlh _ ptr

theorem reap_node_mappings (s : State) (tlh head : Nat) :
    SameMappings s (lzTlhReapNode s tlh head) := by
  unfold lzTlhReapNode
  simp only
  split
  · exact free_slab_mappings s tlh (chunkBase head) head
  · exact span_free_mappings s tlh (chunkBase head) head
  · exact same_mappings_refl s

theorem reap_loop_mappings (fuel : Nat) (s : State) (tlh head : Nat) :
    SameMappings s (lzTlhReapLoop fuel s tlh head) := by
  induction fuel generalizing s head with
  | zero => exact same_mappings_refl s
  | succ fuel ih =>
      unfold lzTlhReapLoop
      split
      · exact same_mappings_refl s
      · exact same_mappings_trans (reap_node_mappings s tlh head) (ih _ _)

theorem reap_mappings (s : State) (tlh : Nat) : SameMappings s (lzTlhReap s tlh) := by
  unfold lzTlhReap
  generalize addressLimit = fuel
  exact same_mappings_trans (⟨rfl, rfl, rfl, rfl⟩ : SameMappings s (detachMailbox s tlh))
    (reap_loop_mappings fuel _ tlh _)

theorem purge_loop_mappings (fuel : Nat) (s : State) (chunk : Nat) :
    SameMappings s (purgeLoop fuel s chunk) := by
  induction fuel generalizing s chunk with
  | zero => exact same_mappings_refl s
  | succ fuel ih =>
      unfold purgeLoop
      split
      · exact same_mappings_refl s
      · apply same_mappings_trans _ (ih _ _)
        exact ⟨rfl, rfl, rfl, rfl⟩

theorem purge_pools_mappings (pools : List Nat) (s : State) :
    SameMappings s (pools.foldl lzVmmPurgePool s) := by
  induction pools generalizing s with
  | nil => exact same_mappings_refl s
  | cons index pools ih =>
      have purged : SameMappings s (lzVmmPurgePool s index) := by
        unfold lzVmmPurgePool
        generalize addressLimit = fuel
        apply same_mappings_trans _ (purge_loop_mappings fuel _ _)
        exact ⟨rfl, rfl, rfl, rfl⟩
      exact same_mappings_trans purged (ih _)

theorem gc_loop_mappings (fuel : Nat) (s : State) (current : Nat) :
    SameMappings s (gcLoop fuel s current) := by
  induction fuel generalizing s current with
  | zero => exact same_mappings_refl s
  | succ fuel ih =>
      unfold gcLoop
      split
      · exact same_mappings_refl s
      · exact same_mappings_trans (reap_mappings s current) (ih _ _)

theorem gc_mappings (s : State) (thread : Nat) : SameMappings s (lzmallocGc s thread) := by
  unfold lzmallocGc
  simp only
  generalize addressLimit = fuel
  apply same_mappings_trans _ (purge_pools_mappings _ _)
  apply same_mappings_trans _ (gc_loop_mappings fuel _ _)
  split
  · exact reap_mappings s _
  · exact same_mappings_refl s

theorem attach_mappings (done : ensureTlsInit s thread = some after) : SameMappings s after := by
  unfold ensureTlsInit at done
  split at done
  · obtain rfl := Option.some.inj done
    exact same_mappings_refl s
  · simp only at done
    split at done
    · obtain rfl := Option.some.inj done
      unfold lzResurrectZombie
      simp only
      split
      · exact ⟨rfl, rfl, rfl, rfl⟩
      · exact ⟨rfl, rfl, rfl, rfl⟩
    · unfold mapHeap at done
      split at done
      · cases done
      · next heap mapped =>
        split at mapped
        · cases mapped
        · split at mapped
          · obtain ⟨rfl, rfl⟩ := Prod.mk.inj (Option.some.inj mapped)
            obtain rfl := Option.some.inj done
            exact ⟨rfl, rfl, rfl, rfl⟩
          · cases mapped

theorem exit_mappings (s : State) (thread : Nat) : SameMappings s (threadExit s thread) := by
  unfold threadExit lzTlhDestructor
  simp only
  split
  · exact ⟨rfl, rfl, rfl, rfl⟩
  · apply same_mappings_trans (flush_mappings s (s.tls thread))
    unfold flushTelemetry
    simp only
    split
    · exact ⟨rfl, rfl, rfl, rfl⟩
    · exact ⟨rfl, rfl, rfl, rfl⟩

/-! ## Chunks -/

/-- What is mapped anew has to be accounted for, the rest stays where it was. -/
theorem covered_maps_fresh {start length : Nat} (maps : MapsFresh s middle start length)
    (covered : Covered s) (regions : after.regions = middle.regions)
    (carved : ∀ chunk ∈ s.vmm.carved, chunk ∈ after.vmm.carved)
    (direct : ∀ header address, InDirect s header address → InDirect after header address)
    (fresh : ∀ address, start ≤ address → address < start + length →
      chunkBase address ∈ after.vmm.carved ∨ ∃ header, InDirect after header address) :
    Covered after := by
  intro address mapped
  rw [regions, maps.mapped] at mapped
  cases mapped with
  | inl before =>
      cases covered address before with
      | inl chunk => exact Or.inl (carved _ chunk)
      | inr object =>
          obtain ⟨header, inside⟩ := object
          exact Or.inr ⟨header, direct header address inside⟩
  | inr inside => exact fresh address inside.1 inside.2

theorem extent_chunk {start address : Nat} (aligned : start % 2097152 = 0)
    (lower : start ≤ address) (upper : address < start + 67108864) :
    chunkBase address ∈ extentChunks start := by
  rw [mem_extent_chunks]
  refine ⟨(address - start) / 2097152, by omega, ?_⟩
  simp only [chunkBase, lzHugePageSize]
  omega

theorem sys_alloc_extent_covered (covered : Covered s) : Covered (sysAllocExtent s) := by
  unfold sysAllocExtent
  cases map_extent_cases s with
  | inl failed =>
      rw [failed]
      exact covered
  | inr granted =>
      obtain ⟨start, mapped, done, maps⟩ := granted
      rw [done]
      have same : mapped.vmm.carved = s.vmm.carved ∧ mapped.direct = s.direct ∧
          mapped.directs = s.directs := by
        rw [maps.rest]
        exact ⟨rfl, rfl, rfl⟩
      refine covered_maps_fresh maps covered rfl ?_ ?_ ?_
      · intro chunk known
        rw [carve_extent_carved, same.1]
        exact List.mem_append_right _ known
      · intro header address inside
        unfold InDirect
        rw [same.2.1, same.2.2]
        exact inside
      · intro address lower upper
        rw [carve_extent_carved]
        exact Or.inl (List.mem_append_left _ (extent_chunk maps.aligned lower upper))

theorem global_alloc_covered (covered : Covered s) : Covered (globalAlloc s).2 := by
  unfold globalAlloc
  simp only
  split
  · refine covered_same ?_ (sys_alloc_extent_covered covered)
    exact ⟨rfl, global_pop_carved _, rfl, rfl⟩
  · refine covered_same ?_ covered
    exact ⟨rfl, global_pop_carved _, rfl, rfl⟩

theorem vmm_alloc_covered (covered : Covered s) : Covered (lzVmmAllocChunk s).2 := by
  have located : Covered (lzGetCurrentNode s).2 := covered_same ⟨rfl, rfl, rfl, rfl⟩ covered
  unfold lzVmmAllocChunk
  simp only
  split
  · refine covered_same ?_ located
    exact ⟨rfl, pool_pop_carved _ _, rfl, rfl⟩
  · have global := global_alloc_covered located
    split
    · exact global
    · refine covered_same ?_ global
      exact ⟨rfl, rfl, rfl, rfl⟩

theorem format_slab_mappings (s : State) (tlh classIdx chunk : Nat) :
    SameMappings s (formatSlab s tlh classIdx chunk) := by
  have claimed : SameMappings s { s with vmm := claimHeader s.vmm chunk tlh .slab } :=
    ⟨rfl, rfl, rfl, rfl⟩
  have registered := same_mappings_trans claimed (rtree_set_mappings _ chunk chunk)
  exact ⟨registered.regions, registered.carved, registered.direct, registered.directs⟩

theorem format_span_mappings (s : State) (tlh chunk : Nat) :
    SameMappings s (formatSpan s tlh chunk) := by
  have claimed : SameMappings s { s with vmm := claimHeader s.vmm chunk tlh .span } :=
    ⟨rfl, rfl, rfl, rfl⟩
  have registered := same_mappings_trans claimed (rtree_set_mappings _ chunk chunk)
  exact ⟨registered.regions, registered.carved, registered.direct, registered.directs⟩

theorem span_alloc_covered (tlh size : Nat) (covered : Covered s) :
    Covered (lzSpanAlloc s tlh size).2 := by
  unfold lzSpanAlloc
  simp only
  split
  · exact covered
  · split
    · refine covered_same ?_ covered
      exact ⟨rfl, rfl, rfl, rfl⟩
    · have taken := vmm_alloc_covered covered
      split
      · exact taken
      · have formatted := covered_same (format_span_mappings _ tlh (lzVmmAllocChunk s).1) taken
        split
        · exact formatted
        · refine covered_same ?_ formatted
          exact ⟨rfl, rfl, rfl, rfl⟩

theorem retire_current_mappings (s : State) (tlh scIdx : Nat) :
    SameMappings s (retireCurrent s tlh scIdx) := by
  rw [SlabAllocation.retire_current_only]
  exact ⟨rfl, rfl, rfl, rfl⟩

theorem alloc_slow_covered (tlh scIdx : Nat) (covered : Covered s) :
    Covered (lzTlhAllocSlow s tlh scIdx).2 := by
  unfold lzTlhAllocSlow
  split
  · refine covered_same ?_ (covered_same (retire_current_mappings s tlh scIdx) covered)
    exact ⟨rfl, rfl, rfl, rfl⟩
  · have created : Covered (lzSlabCreate s tlh scIdx).2 := by
      unfold lzSlabCreate
      simp only
      split
      · exact vmm_alloc_covered covered
      · exact covered_same (format_slab_mappings _ tlh scIdx _) (vmm_alloc_covered covered)
    simp only
    split
    · exact created
    · have retired := covered_same (retire_current_mappings _ tlh scIdx) created
      generalize retireCurrent (lzSlabCreate s tlh scIdx).2 tlh scIdx = ready at retired ⊢
      refine covered_same ?_ retired
      exact ⟨rfl, rfl, rfl, rfl⟩

theorem alloc_attempt_mappings (s : State) (tlh scIdx : Nat) :
    SameMappings s (lzTlhAllocAttempt s tlh scIdx).2 := by
  unfold lzTlhAllocAttempt
  simp only
  split
  · exact ⟨rfl, rfl, rfl, rfl⟩
  · apply same_mappings_trans (reap_mappings s tlh)
    generalize lzTlhReap s tlh = reaped
    split
    · exact ⟨rfl, rfl, rfl, rfl⟩
    · split
      · unfold bumpBlock
        simp only
        split
        · exact ⟨rfl, rfl, rfl, rfl⟩
        · exact ⟨rfl, rfl, rfl, rfl⟩
      · exact same_mappings_refl reaped

theorem account_alloc_mappings (s : State) (tlh bytes : Nat) :
    SameMappings s (accountAlloc s tlh bytes) := by
  unfold accountAlloc
  simp only
  split
  · exact ⟨rfl, rfl, rfl, rfl⟩
  · split
    · exact ⟨rfl, rfl, rfl, rfl⟩
    · exact ⟨rfl, rfl, rfl, rfl⟩

theorem tlh_alloc_covered (tlh size : Nat) (covered : Covered s) :
    Covered (lzTlhAlloc s tlh size).2 := by
  unfold lzTlhAlloc
  split
  · exact span_alloc_covered tlh size covered
  · have tried := covered_same (alloc_attempt_mappings s tlh (lzSizeToClass size)) covered
    simp only
    generalize lzTlhAllocAttempt s tlh (lzSizeToClass size) = attempt at tried
    have got : Covered (if attempt.1 = 0 then lzTlhAllocSlow attempt.2 tlh (lzSizeToClass size)
        else attempt).2 := by
      split
      · exact alloc_slow_covered tlh _ tried
      · exact tried
    generalize (if attempt.1 = 0 then lzTlhAllocSlow attempt.2 tlh (lzSizeToClass size)
      else attempt) = served at got
    split
    · exact got
    · exact covered_same (account_alloc_mappings _ tlh _) got

/-! ## Direct objects -/

variable {mode : Mode} {g : Ghost}

theorem direct_mapped (core : Core mode s g) {header : Nat} (known : header ∈ s.directs) :
    Mapped s.regions header := by
  have positive := (core.geom.directSize header known).2
  have role := core.geom.directBlock header known 0 (by omega)
  rw [Nat.zero_mul, Nat.add_zero] at role
  exact core.geom.mapped header (by simp [role]) header le_rfl (by omega)

theorem map_direct_covered (core : Core mode s g) (covered : Covered s) {offset : Nat}
    (done : mapDirect s offset size = some (ptr, after)) : Covered after := by
  rcases map_direct_cases s offset size with
    ⟨_, failed⟩ | ⟨_, _, died⟩ | ⟨_, _, start, mapped, reached, maps, registered, served⟩
  · rw [failed, Option.some.injEq, Prod.mk.injEq] at done
    rw [← done.2]
    exact covered
  · rw [died] at done
    cases done
  · rw [served, Option.some.injEq, Prod.mk.injEq] at done
    rw [← done.2]
    have same : reached.regions = mapped.regions ∧ reached.vmm.carved = s.vmm.carved ∧
        reached.directs = start :: s.directs ∧
        reached.direct = Function.update s.direct start ⟨directTotal offset size, size⟩ := by
      rw [registered.only, maps.rest]
      exact ⟨rfl, rfl, rfl, rfl⟩
    obtain ⟨regions, carved, directs, direct⟩ := same
    refine covered_maps_fresh maps covered regions ?_ ?_ ?_
    · intro chunk known
      rw [carved]
      exact known
    · intro header address inside
      have other : header ≠ start := by
        intro same
        rw [same] at inside
        exact maps.freshStart (direct_mapped core inside.1)
      unfold InDirect
      rw [directs, direct, Function.update_of_ne other]
      exact ⟨List.mem_cons_of_mem start inside.1, inside.2⟩
    · intro address lower upper
      right
      refine ⟨start, ?_⟩
      unfold InDirect
      rw [directs, direct, Function.update_self]
      exact ⟨List.mem_cons_self, lower, upper⟩

theorem covered_munmap (same : SameMappings s middle) (covered : Covered s) (header : Nat) :
    Covered { munmap middle header (s.direct header).totalBytes with
      directs := s.directs.erase header } := by
  intro address mapped
  have left := (mapped_munmap middle header (s.direct header).totalBytes address).mp mapped
  rw [same.regions] at left
  cases covered address left.1 with
  | inl chunk =>
      left
      rw [← same.carved] at chunk
      exact chunk
  | inr object =>
      obtain ⟨other, known, inside⟩ := object
      have different : other ≠ header := by
        intro equal
        rw [equal] at inside
        exact left.2 inside
      right
      refine ⟨other, (List.mem_erase_of_ne different).mpr known, ?_⟩
      have direct : middle.direct = s.direct := same.direct
      rw [← direct] at inside
      exact inside

theorem unmap_direct_covered (core : Core mode s g) (covered : Covered s) {header : Nat}
    (known : header ∈ s.directs) : Covered (unmapDirect s header) := by
  have cleared : SameMappings s (lzRtreeSetRange s header (s.direct header).totalBytes 0) := by
    rw [RadixTree.lz_rtree_set_range_eq s header 0 (core.geom.directSize header known).1,
      RadixTree.set_blocks_eq]
    exact ⟨rfl, rfl, rfl, rfl⟩
  exact covered_munmap cleared covered header

/-! ## Calls -/

theorem malloc_covered (rest : AtRest mode s g) (covered : Covered s)
    (done : lzMalloc s thread size = some (ptr, after)) : Covered after := by
  unfold lzMalloc at done
  obtain ⟨asked, askedEq⟩ : ∃ asked, (if size = 0 then 1 else size) = asked := ⟨_, rfl⟩
  simp only [askedEq] at done
  split at done
  · obtain ⟨ready, attached, result⟩ := Option.map_eq_some_iff.mp done
    have there := tlh_alloc_covered (ready.tls thread) asked
      (covered_same (attach_mappings attached) covered)
    rw [result] at there
    exact there
  · split at done
    · obtain ⟨ready, attached, result⟩ := Option.map_eq_some_iff.mp done
      have there := span_alloc_covered (ready.tls thread) asked
        (covered_same (attach_mappings attached) covered)
      rw [result] at there
      exact there
    · exact map_direct_covered rest.inv.toCore covered done

theorem memalign_covered (rest : AtRest mode s g) (covered : Covered s) {alignment : Nat}
    (done : lzMemalign s thread alignment size = some (ptr, after)) : Covered after := by
  unfold lzMemalign at done
  split at done
  · obtain ⟨_, rfl⟩ := Prod.mk.inj (Option.some.inj done)
    exact covered
  · split at done
    · exact malloc_covered rest covered done
    · split at done
      · obtain ⟨ready, attached, result⟩ := Option.map_eq_some_iff.mp done
        have there := span_alloc_covered (ready.tls thread) size
          (covered_same (attach_mappings attached) covered)
        rw [result] at there
        exact there
      · exact map_direct_covered rest.inv.toCore covered done

theorem calloc_covered (rest : AtRest mode s g) (covered : Covered s) {num : Nat}
    (done : lzCalloc s thread num size = some (ptr, after)) : Covered after := by
  rcases calloc_cases done with ⟨_, _, rfl⟩ | ⟨_, ready, allocated, rfl | ⟨_, rfl⟩⟩
  · exact covered
  · exact malloc_covered rest covered allocated
  · refine covered_same ?_ (malloc_covered rest covered allocated)
    exact ⟨rfl, rfl, rfl, rfl⟩

theorem free_covered (rest : AtRest mode s g) (live : g.node ptr = .live) (covered : Covered s)
    (done : lzFree s thread ptr = some after) : Covered after := by
  by_cases found : resolve s ptr = 0
  · have positive := (core_node_bound rest.inv.toCore (by simp [live] : g.node ptr ≠ .none)).1
    simp only [lzFree, if_neg (Nat.pos_iff_ne_zero.mp positive), if_pos found] at done
    obtain rfl := Option.some.inj done
    exact covered
  rcases free_cases rest.inv.toCore live found done with
    ⟨_, ready, _, attached, rfl⟩ | ⟨header, isDirect, _, rfl⟩
  · exact covered_same
      (same_mappings_trans (attach_mappings attached) (tlh_free_mappings ready _ ptr))
      covered
  · exact unmap_direct_covered rest.inv.toCore covered
      (ObjectRanges.direct_known rest.inv.toCore isDirect)

theorem realloc_covered (rest : AtRest mode s g) (known : ptr = 0 ∨ g.node ptr = .live)
    {result : Nat} (bound : size < 2 ^ 64)
    (fits : ptr = 0 ∨ lzMallocUsableSize s ptr ≠ 0 ∧ lzMallocUsableSize s ptr < size →
      MallocFits size)
    (covered : Covered s) (done : lzRealloc s thread ptr size = some (result, after)) :
    Covered after := by
  by_cases null : ptr = 0
  · rw [lzRealloc, if_pos null] at done
    exact malloc_covered rest covered done
  have live := known.resolve_left null
  by_cases nothing : size = 0
  · rw [lzRealloc, if_neg null, if_pos nothing] at done
    obtain ⟨freed, released, same⟩ := Option.map_eq_some_iff.mp done
    rw [← (Prod.mk.inj same).2]
    exact free_covered rest live covered released
  rcases lz_realloc_branches null nothing done with
    ⟨_, rfl, _⟩ | ⟨_, rfl, _⟩ | ⟨asked, grows, ⟨_, refused⟩ | ⟨moved, ready, allocated, released⟩⟩
  · exact covered
  · exact covered
  · exact malloc_covered rest covered refused
  · have served := served_malloc rest (fits (Or.inr ⟨asked, grows⟩)) allocated
    obtain ⟨final, copiedRest, outcome⟩ :=
      @served_copy mode g ready result size ptr _ served moved bound (le_of_lt grows)
    have fresh := (outcome.resolve_left fun failed => moved failed.1).2
    have copied := covered_same
      (⟨rfl, rfl, rfl, rfl⟩ : SameMappings ready
        { ready with mem := ByteMemory.copy ready.mem result ptr (lzMallocUsableSize s ptr) })
      (malloc_covered rest covered allocated)
    exact free_covered copiedRest ((fresh.live ptr).mpr (Or.inr live)) copied released

/-! ## Runs -/

variable {sys reached : ApiSys}

theorem covered_step (ok : ApiOk mode sys g) {act : ApiAct} (fits : ApiFits sys act)
    (covered : Covered sys.state) (stepped : apiStep sys act = some reached) :
    Covered reached.state := by
  have rest := ok.rest
  cases act with
  | malloc thread size =>
      simp only [apiStep] at stepped
      split at stepped
      · obtain ⟨⟨ptr, after⟩, called, rfl⟩ := Option.map_eq_some_iff.mp stepped
        rw [hand_out_state]
        exact malloc_covered rest covered called
      · cases stepped
  | calloc thread num size =>
      simp only [apiStep] at stepped
      split at stepped
      · obtain ⟨⟨ptr, after⟩, called, rfl⟩ := Option.map_eq_some_iff.mp stepped
        rw [hand_out_state]
        exact calloc_covered rest covered called
      · cases stepped
  | realloc thread ptr size =>
      simp only [apiStep] at stepped
      split at stepped
      · next allowed =>
        obtain ⟨⟨result, after⟩, called, rfl⟩ := Option.map_eq_some_iff.mp stepped
        rw [finish_realloc_state]
        have known := allowed.2.imp_right (ok.live ptr).mp
        exact realloc_covered rest known allowed.1 fits covered called
      · cases stepped
  | memalign thread alignment size =>
      simp only [apiStep] at stepped
      split at stepped
      · obtain ⟨⟨ptr, after⟩, called, rfl⟩ := Option.map_eq_some_iff.mp stepped
        rw [hand_out_state]
        exact memalign_covered rest covered called
      · cases stepped
  | free thread ptr =>
      rcases api_free_cases stepped with ⟨-, rfl⟩ | ⟨-, known, after, called, rfl⟩
      · exact covered
      · exact free_covered rest ((ok.live ptr).mp known) covered called
  | exit thread =>
      simp only [apiStep, Option.some.injEq] at stepped
      rw [← stepped]
      exact covered_same (exit_mappings sys.state thread) covered
  | gc thread =>
      simp only [apiStep, Option.some.injEq] at stepped
      rw [← stepped]
      dsimp only
      exact covered_same (gc_mappings sys.state thread) covered
  | attach thread =>
      obtain ⟨after, attached, rfl⟩ := Option.map_eq_some_iff.mp stepped
      exact covered_same (attach_mappings attached) covered
  | reap tlh =>
      simp only [apiStep] at stepped
      split at stepped
      · simp only [Option.some.injEq] at stepped
        rw [← stepped]
        dsimp only
        exact covered_same (reap_mappings sys.state tlh) covered
      · cases stepped
  | write ptr offset value =>
      simp only [apiStep] at stepped
      split at stepped
      · obtain rfl := Option.some.inj stepped
        refine covered_same ?_ covered
        exact ⟨rfl, rfl, rfl, rfl⟩
      · cases stepped

theorem covered_run {env : Env} {secret : BitVec 64} {telemetry : Bool} {acts : List ApiAct}
    (leaves : ∀ call, env.leafMmap call = true)
    (fits : Along apiStep ApiFits (apiStart env secret telemetry) acts)
    (ran : run apiStep (apiStart env secret telemetry) acts = some sys) : Covered sys.state := by
  have preserved : ∀ state act reached,
      ((∃ g, ApiOk (apiMode True) state g) ∧ Covered state.state) → ApiFits state act →
        apiStep state act = some reached →
          (∃ g, ApiOk (apiMode True) reached g) ∧ Covered reached.state := by
    rintro state act reached ⟨⟨g, ok⟩, covered⟩ allowed stepped
    exact ⟨api_step_ok ok id allowed stepped, covered_step ok allowed covered stepped⟩
  have nothing : Covered (apiStart env secret telemetry).state := by
    rintro address ⟨region, member, _⟩
    cases member
  exact (run_invariant preserved
    ⟨⟨emptyGhost, api_start_ok env secret telemetry fun _ => leaves⟩, nothing⟩ fits ran).2

end Lzmalloc.MappingContracts
