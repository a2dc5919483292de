import Lzmalloc.PublicApi

/-!
# Functions that read no payload

Two states are alike when they differ in payload memory and in the secret only.
Nearly all of the allocator works on descriptors, headers and lists and cannot
tell alike states apart: it takes the same branches, returns the same values
and leaves alike states. The exceptions are the two places that load a link out
of an object, the pop of a free list and the walk along a detached mailbox.
-/

namespace Lzmalloc.MemoryBlind

open SizeClasses HeapState VirtualMemoryManager ByteMemory Engines ThreadHeap PublicApi

set_option autoImplicit false

/-- `t` is `s` with another memory and another secret. -/
def Alike (s t : State) : Prop :=
  ∃ mem secret, t = { s with mem := mem, secret := secret }

variable {s t : State}

theorem alike_mem (alike : Alike s t) (left right : Memory) :
    Alike { s with mem := left } { t with mem := right } := by
  obtain ⟨mem, secret, rfl⟩ := alike
  exact ⟨right, secret, rfl⟩

theorem alike_ite {condition : Prop} [Decidable condition] {left right leftElse rightElse : State}
    (yes : condition → Alike left right) (no : ¬condition → Alike leftElse rightElse) :
    Alike (if condition then left else leftElse) (if condition then right else rightElse) := by
  split
  · next holds => exact yes holds
  · next fails => exact no fails

theorem alike_foldl {Item : Type*} {f : State → Item → State}
    (each : ∀ left right item, Alike left right → Alike (f left item) (f right item))
    (items : List Item) (alike : Alike s t) : Alike (items.foldl f s) (items.foldl f t) := by
  induction items generalizing s t with
  | nil => exact alike
  | cons item rest ih => exact ih (each s t item alike)

structure Matches {Value : Type*} (left right : Value × State) : Prop where
  value : right.1 = left.1
  state : Alike left.2 right.2

theorem matches_ite {Value : Type*} {condition : Prop} [Decidable condition]
    {left right leftElse rightElse : Value × State} (yes : condition → Matches left right)
    (no : ¬condition → Matches leftElse rightElse) :
    Matches (if condition then left else leftElse) (if condition then right else rightElse) := by
  split
  · next holds => exact yes holds
  · next fails => exact no fails

theorem matches_cases {Value : Type*} {left right : Value × State} (same : Matches left right) :
    ∃ value first second, left = (value, first) ∧ right = (value, second) ∧ Alike first second := by
  obtain ⟨value, first⟩ := left
  obtain ⟨other, second⟩ := right
  obtain ⟨valueEq, alike⟩ := same
  dsimp only at valueEq alike
  exact ⟨value, first, second, rfl, by rw [valueEq], alike⟩

/-! ## Operating system and radix tree -/

theorem mmap_matches (alike : Alike s t) (length : Nat) :
    Matches (mmap s length) (mmap t length) := by
  obtain ⟨mem, secret, rfl⟩ := alike
  unfold mmap
  cases s.env.regionMmap s.regionCalls with
  | none => exact ⟨rfl, mem, secret, rfl⟩
  | some raw =>
      apply matches_ite
      · intro _
        exact ⟨rfl, fill mem raw length 0, secret, rfl⟩
      · intro _
        exact ⟨rfl, mem, secret, rfl⟩

theorem munmap_alike (alike : Alike s t) (start length : Nat) :
    Alike (munmap s start length) (munmap t start length) := by
  obtain ⟨mem, secret, rfl⟩ := alike
  exact ⟨mem, secret, rfl⟩

theorem deflate_alike (alike : Alike s t) (chunk : Nat) :
    Alike (deflate s chunk) (deflate t chunk) :=
  alike_mem alike _ _

theorem get_current_node_matches (alike : Alike s t) :
    Matches (lzGetCurrentNode s) (lzGetCurrentNode t) := by
  obtain ⟨mem, secret, rfl⟩ := alike
  exact ⟨rfl, mem, secret, rfl⟩

theorem rtree_set_alike (alike : Alike s t) (chunkAddr metadata : Nat) :
    Alike (lzRtreeSet s chunkAddr metadata) (lzRtreeSet t chunkAddr metadata) := by
  obtain ⟨mem, secret, rfl⟩ := alike
  unfold lzRtreeSet
  cases s.rtree (rtreeL1 chunkAddr) with
  | some leaf => exact ⟨mem, secret, rfl⟩
  | none =>
      apply alike_ite
      · intro _
        exact ⟨mem, secret, rfl⟩
      · intro _
        apply alike_ite
        · intro _
          exact ⟨mem, secret, rfl⟩
        · intro _
          exact ⟨mem, secret, rfl⟩

theorem rtree_set_range_alike (alike : Alike s t) (base totalBytes metadata : Nat) :
    Alike (lzRtreeSetRange s base totalBytes metadata)
    (lzRtreeSetRange t base totalBytes metadata) :=
  alike_foldl
  (fun _ _ index same => rtree_set_alike same (base + index * lzHugePageSize) metadata) _
    alike

/-! ## Memory manager -/

theorem alike_vmm (alike : Alike s t) (vmm : Vmm) :
    Alike { s with vmm := vmm } { t with vmm := vmm } := by
  obtain ⟨mem, secret, rfl⟩ := alike
  exact ⟨mem, secret, rfl⟩

theorem alike_tls (alike : Alike s t) : t.tls = s.tls := by
  obtain ⟨mem, secret, rfl⟩ := alike
  rfl

theorem alike_vmm_eq (alike : Alike s t) : t.vmm = s.vmm := by
  obtain ⟨mem, secret, rfl⟩ := alike
  rfl

theorem trim_alike (alike : Alike s t) (start length : Nat) :
    Alike (if length > 0 then munmap s start length else s)
      (if length > 0 then munmap t start length else t) :=
  alike_ite (fun _ => munmap_alike alike start length) fun _ => alike

theorem map_extent_matches (alike : Alike s t) : Matches (mapExtent s) (mapExtent t) := by
  obtain ⟨answer, left, right, leftEq, rightEq, mapped⟩ :=
    matches_cases (mmap_matches alike (lzExtentSize + lzHugePageSize))
  unfold mapExtent
  simp only [leftEq, rightEq]
  cases answer with
  | none => exact ⟨rfl, mapped⟩
  | some raw =>
      dsimp only
      generalize lzAlignUp raw lzHugePageSize = aligned
      generalize aligned - raw = before
      generalize lzExtentSize + lzHugePageSize - before - lzExtentSize = behind
      apply matches_ite
      · intro _
        constructor
        · rfl
        · exact trim_alike (trim_alike mapped raw before) (aligned + lzExtentSize) behind
      · intro _
        exact ⟨rfl, munmap_alike mapped _ _⟩

theorem sys_alloc_extent_alike (alike : Alike s t) :
    Alike (sysAllocExtent s) (sysAllocExtent t) := by
  obtain ⟨answer, left, right, leftEq, rightEq, mapped⟩ := matches_cases (map_extent_matches alike)
  unfold sysAllocExtent
  simp only [leftEq, rightEq]
  cases answer with
  | none => exact mapped
  | some start =>
      dsimp only
      rw [alike_vmm_eq mapped]
      exact alike_vmm mapped _

theorem global_alloc_matches (alike : Alike s t) : Matches (globalAlloc s) (globalAlloc t) := by
  have refilled : Alike (if s.vmm.globalFreeChunks = 0 then sysAllocExtent s else s)
      (if t.vmm.globalFreeChunks = 0 then sysAllocExtent t else t) := by
    rw [alike_vmm_eq alike]
    exact alike_ite (fun _ => sys_alloc_extent_alike alike) fun _ => alike
  unfold globalAlloc
  simp only
  generalize (if s.vmm.globalFreeChunks = 0 then sysAllocExtent s else s) = left at refilled ⊢
  generalize (if t.vmm.globalFreeChunks = 0 then sysAllocExtent t else t) = right at refilled ⊢
  rw [alike_vmm_eq refilled]
  exact ⟨rfl, alike_vmm refilled _⟩

theorem vmm_alloc_matches (alike : Alike s t) :
    Matches (lzVmmAllocChunk s) (lzVmmAllocChunk t) := by
  obtain ⟨node, left, right, leftEq, rightEq, located⟩ :=
    matches_cases (get_current_node_matches alike)
  obtain ⟨chunk, first, second, firstEq, secondEq, taken⟩ :=
    matches_cases (global_alloc_matches located)
  unfold lzVmmAllocChunk
  simp only [leftEq, rightEq, firstEq, secondEq]
  rw [alike_vmm_eq located, alike_vmm_eq taken]
  apply matches_ite
  · intro _
    exact ⟨rfl, alike_vmm located _⟩
  · intro _
    apply matches_ite
    · intro _
      exact ⟨rfl, taken⟩
    · intro _
      exact ⟨rfl, alike_vmm taken _⟩

theorem vmm_free_alike (alike : Alike s t) (chunk : Nat) :
    Alike (lzVmmFreeChunk s chunk) (lzVmmFreeChunk t chunk) := by
  unfold lzVmmFreeChunk
  simp only [alike_vmm_eq alike]
  apply alike_ite
  · intro _
    exact alike
  · intro _
    apply alike_ite
    · intro _
      exact alike_vmm (deflate_alike (alike_vmm alike _) chunk) _
    · intro _
      exact alike_vmm alike _

theorem purge_loop_alike (fuel : Nat) {chunk : Nat} (alike : Alike s t) :
    Alike (purgeLoop fuel s chunk) (purgeLoop fuel t chunk) := by
  induction fuel generalizing s t chunk with
  | zero => exact alike
  | succ fuel ih =>
      unfold purgeLoop
      rw [alike_vmm_eq alike]
      apply alike_ite
      · intro _
        exact alike
      · intro _
        apply ih
        have deflated := deflate_alike alike chunk
        rw [alike_vmm_eq deflated]
        exact alike_vmm deflated _

theorem purge_alike (alike : Alike s t) :
    Alike (lzVmmPurgeAllCaches s) (lzVmmPurgeAllCaches t) := by
  apply alike_foldl _ _ alike
  intro left right index same
  unfold lzVmmPurgePool
  rw [alike_vmm_eq same]
  exact purge_loop_alike _ (alike_vmm same _)

/-! ## Engines -/

theorem account_free_alike (alike : Alike s t) (tlh bytes : Nat) :
    Alike (accountFree s tlh bytes) (accountFree t tlh bytes) := by
  obtain ⟨mem, secret, rfl⟩ := alike
  unfold accountFree
  cases (s.tlh tlh).statSlot with
  | none => exact ⟨mem, secret, rfl⟩
  | some slot =>
      apply alike_ite
      · intro _
        exact ⟨mem, secret, rfl⟩
      · intro _
        exact ⟨mem, secret, rfl⟩

theorem account_alloc_alike (alike : Alike s t) (tlh bytes : Nat) :
    Alike (accountAlloc s tlh bytes) (accountAlloc t tlh bytes) := by
  obtain ⟨mem, secret, rfl⟩ := alike
  unfold accountAlloc
  cases (s.tlh tlh).statSlot with
  | none => exact ⟨mem, secret, rfl⟩
  | some slot =>
      apply alike_ite
      · intro _
        exact ⟨mem, secret, rfl⟩
      · intro _
        exact ⟨mem, secret, rfl⟩

theorem format_slab_alike (alike : Alike s t) (tlh classIdx chunk : Nat) :
    Alike (formatSlab s tlh classIdx chunk) (formatSlab t tlh classIdx chunk) := by
  unfold formatSlab
  rw [alike_vmm_eq alike]
  obtain ⟨mem, secret, registered⟩ :=
    rtree_set_alike (alike_vmm alike (claimHeader s.vmm chunk tlh .slab)) chunk chunk
  simp only [registered]
  exact ⟨mem, secret, rfl⟩

theorem slab_destroy_alike (alike : Alike s t) (slab : Nat) :
    Alike (lzSlabDestroy s slab) (lzSlabDestroy t slab) := by
  unfold lzSlabDestroy
  simp only [alike_vmm_eq alike]
  apply alike_ite
  · intro _
    exact alike
  · intro _
    exact vmm_free_alike (rtree_set_alike alike _ 0) _

theorem search_spans_eq (fuel : Nat) (alike : Alike s t) (current requiredPages : Nat) :
    searchSpans fuel t current requiredPages = searchSpans fuel s current requiredPages := by
  obtain ⟨mem, secret, rfl⟩ := alike
  induction fuel generalizing current with
  | zero => rfl
  | succ fuel ih => simp only [searchSpans, ih]

theorem finish_span_alloc_matches (alike : Alike s t) (hit : SpanHit) (requiredPages : Nat) :
    Matches (finishSpanAlloc s hit requiredPages) (finishSpanAlloc t hit requiredPages) := by
  obtain ⟨mem, secret, rfl⟩ := alike
  exact ⟨rfl, mem, secret, rfl⟩

theorem format_span_alike (alike : Alike s t) (tlh chunk : Nat) :
    Alike (formatSpan s tlh chunk) (formatSpan t tlh chunk) := by
  unfold formatSpan
  rw [alike_vmm_eq alike]
  obtain ⟨mem, secret, registered⟩ :=
    rtree_set_alike (alike_vmm alike (claimHeader s.vmm chunk tlh .span)) chunk chunk
  simp only [registered]
  exact ⟨mem, secret, rfl⟩

theorem alike_span_eq (alike : Alike s t) : t.span = s.span ∧ t.activeSpans = s.activeSpans := by
  obtain ⟨mem, secret, rfl⟩ := alike
  exact ⟨rfl, rfl⟩

theorem span_alloc_matches (alike : Alike s t) (tlh size : Nat) :
    Matches (lzSpanAlloc s tlh size) (lzSpanAlloc t tlh size) := by
  unfold lzSpanAlloc
  simp only [(alike_span_eq alike).2, search_spans_eq addressLimit alike]
  generalize lzAlignUp size lzPageSize / lzPageSize % 2 ^ 32 = requiredPages
  apply matches_ite
  · intro _
    exact ⟨rfl, alike⟩
  · intro _
    cases searchSpans addressLimit s (s.activeSpans tlh) requiredPages with
    | some hit => exact finish_span_alloc_matches alike hit requiredPages
    | none =>
        obtain ⟨chunk, left, right, leftEq, rightEq, taken⟩ :=
          matches_cases (vmm_alloc_matches alike)
        simp only [leftEq, rightEq]
        apply matches_ite
        · intro _
          exact ⟨rfl, taken⟩
        · intro _
          have formatted := format_span_alike taken tlh chunk
          rw [(alike_span_eq formatted).1]
          generalize findContiguousPages _ requiredPages = found
          obtain ⟨page, bitmap⟩ := found
          cases page with
          | none => exact ⟨rfl, formatted⟩
          | some pageIdx => exact finish_span_alloc_matches formatted _ requiredPages

theorem destroy_span_alike (alike : Alike s t) (tlh chunk : Nat) :
    Alike (destroySpan s tlh chunk) (destroySpan t tlh chunk) := by
  obtain ⟨mem, secret, rfl⟩ := alike
  unfold destroySpan
  apply vmm_free_alike
  apply rtree_set_alike
  exact ⟨mem, secret, rfl⟩

theorem span_free_alike (alike : Alike s t) (tlh chunk ptr : Nat) :
    Alike (lzSpanFreeLocal s tlh chunk ptr) (lzSpanFreeLocal t tlh chunk ptr) := by
  unfold lzSpanFreeLocal
  simp only [(alike_span_eq alike).1]
  generalize (ptr - chunk) / lzPageSize % 2 ^ 32 = startPage
  generalize (s.span (chunk + lzCacheLineSize)).allocSizePages startPage = requiredPages
  have released : Alike (releasePages s (chunk + lzCacheLineSize) startPage requiredPages)
      (releasePages t (chunk + lzCacheLineSize) startPage requiredPages) := by
    obtain ⟨mem, secret, rfl⟩ := alike
    exact ⟨mem, secret, rfl⟩
  have counted := account_free_alike released tlh (requiredPages * lzPageSize % 2 ^ 32)
  rw [(alike_span_eq counted).1]
  apply alike_ite
  · intro _
    exact alike
  · intro _
    apply alike_ite
    · intro _
      exact alike
    · intro _
      apply alike_ite
      · intro _
        exact destroy_span_alike counted tlh chunk
      · intro _
        exact counted

/-! ## Thread heaps -/

theorem rescue_alike (alike : Alike s t) (tlh slab : Nat) :
    Alike (rescueIfWasFull s tlh slab) (rescueIfWasFull t tlh slab) := by
  obtain ⟨mem, secret, rfl⟩ := alike
  unfold rescueIfWasFull lzTlhRescueFromFull
  apply alike_ite
  · intro _
    apply alike_ite
    · intro _
      exact ⟨mem, secret, rfl⟩
    · intro _
      exact ⟨mem, secret, rfl⟩
  · intro _
    exact ⟨mem, secret, rfl⟩

theorem promote_alike (alike : Alike s t) (tlh classIdx : Nat) :
    Alike (promotePartial s tlh classIdx) (promotePartial t tlh classIdx) := by
  obtain ⟨mem, secret, rfl⟩ := alike
  exact ⟨mem, secret, rfl⟩

theorem retire_alike (alike : Alike s t) (tlh classIdx : Nat) :
    Alike (retireCurrent s tlh classIdx) (retireCurrent t tlh classIdx) := by
  obtain ⟨mem, secret, rfl⟩ := alike
  unfold retireCurrent
  apply alike_ite
  · intro _
    exact ⟨mem, secret, rfl⟩
  · intro _
    exact ⟨mem, secret, rfl⟩

theorem unlink_from_bin_alike (alike : Alike s t) (tlh slab : Nat) :
    Alike (unlinkFromBin s tlh slab) (unlinkFromBin t tlh slab) := by
  obtain ⟨mem, secret, rfl⟩ := alike
  exact ⟨mem, secret, rfl⟩

theorem alike_slab_eq (alike : Alike s t) : t.slab = s.slab ∧ t.bins = s.bins := by
  obtain ⟨mem, secret, rfl⟩ := alike
  exact ⟨rfl, rfl⟩

theorem recycle_alike (alike : Alike s t) (tlh slab : Nat) :
    Alike (recycleIfEmpty s tlh slab) (recycleIfEmpty t tlh slab) := by
  unfold recycleIfEmpty lzTlhRecycleEmptySlab
  simp only [alike_slab_eq alike]
  apply alike_ite
  · intro _
    apply alike_ite
    · intro _
      apply alike_ite
      · intro _
        exact alike
      · intro _
        exact slab_destroy_alike (promote_alike alike tlh _) slab
    · intro _
      exact slab_destroy_alike (unlink_from_bin_alike alike tlh slab) slab
  · intro _
    exact alike

/-- The link that is stored differs, the descriptor does not. -/
theorem push_free_alike (alike : Alike s t) (slab node : Nat) :
    Alike (pushFreeBlock s slab node) (pushFreeBlock t slab node) := by
  obtain ⟨mem, secret, rfl⟩ := alike
  exact ⟨_, secret, rfl⟩

theorem free_slab_alike (alike : Alike s t) (tlh chunk ptr : Nat) :
    Alike (lzTlhFreeSlab s tlh chunk ptr) (lzTlhFreeSlab t tlh chunk ptr) := by
  have recycled := recycle_alike (rescue_alike (push_free_alike alike (chunk + lzCacheLineSize) ptr)
    tlh (chunk + lzCacheLineSize)) tlh (chunk + lzCacheLineSize)
  unfold lzTlhFreeSlab
  simp only [(alike_slab_eq recycled).1]
  exact account_free_alike recycled tlh _

theorem flush_alike (alike : Alike s t) (tlh : Nat) :
    Alike (lzTlhFlushOutgoingBatch s tlh) (lzTlhFlushOutgoingBatch t tlh) := by
  obtain ⟨mem, secret, rfl⟩ := alike
  unfold lzTlhFlushOutgoingBatch
  apply alike_ite
  · intro _
    exact ⟨mem, secret, rfl⟩
  · intro _
    exact ⟨_, secret, rfl⟩

theorem enqueue_alike (alike : Alike s t) (tlh node : Nat) :
    Alike (enqueueRemote s tlh node) (enqueueRemote t tlh node) := by
  obtain ⟨mem, secret, rfl⟩ := alike
  exact ⟨_, secret, rfl⟩

theorem bump_matches (alike : Alike s t) (slab : Nat) :
    Matches (bumpBlock s slab) (bumpBlock t slab) := by
  obtain ⟨mem, secret, rfl⟩ := alike
  unfold bumpBlock
  apply matches_ite
  · intro _
    exact ⟨rfl, mem, secret, rfl⟩
  · intro _
    exact ⟨rfl, mem, secret, rfl⟩

/-! ## Direct objects -/

theorem huge_aligned_matches (alike : Alike s t) (totalSize : Nat) :
    Matches (lzSysAllocHugeAligned s totalSize) (lzSysAllocHugeAligned t totalSize) := by
  unfold lzSysAllocHugeAligned
  generalize (totalSize + lzHugePageSize) % 2 ^ 64 = request
  obtain ⟨answer, left, right, leftEq, rightEq, mapped⟩ :=
    matches_cases (mmap_matches alike request)
  simp only [leftEq, rightEq]
  cases answer with
  | none => exact ⟨rfl, mapped⟩
  | some raw =>
      dsimp only
      generalize lzAlignUp raw lzHugePageSize = aligned
      generalize aligned - raw = before
      generalize request - before - totalSize = behind
      apply matches_ite
      · intro _
        exact ⟨rfl, munmap_alike mapped _ _⟩
      · intro _
        constructor
        · rfl
        · exact trim_alike (trim_alike mapped raw before) (aligned + totalSize) behind

theorem write_direct_alike (alike : Alike s t) (ptr totalBytes size : Nat) :
    Alike (writeDirect s ptr totalBytes size) (writeDirect t ptr totalBytes size) := by
  obtain ⟨mem, secret, rfl⟩ := alike
  exact ⟨mem, secret, rfl⟩

theorem map_direct_matches (alike : Alike s t) (payloadOffset size : Nat) :
    Option.Rel Matches (mapDirect s payloadOffset size) (mapDirect t payloadOffset size) := by
  unfold mapDirect
  generalize directTotal payloadOffset size = total
  obtain ⟨answer, left, right, leftEq, rightEq, mapped⟩ :=
    matches_cases (huge_aligned_matches alike total)
  simp only [leftEq, rightEq]
  cases answer with
  | none => exact .some ⟨rfl, mapped⟩
  | some ptr =>
      dsimp only
      have regions : right.regions = left.regions := by
        obtain ⟨mem, secret, rfl⟩ := mapped
        rfl
      rw [regions]
      split
      · exact .some
          ⟨rfl, rtree_set_range_alike (write_direct_alike mapped ptr total size) ptr total ptr⟩
      · exact .none

theorem alike_directs (alike : Alike s t) (directs : List Nat) :
    Alike { s with directs := directs } { t with directs := directs } := by
  obtain ⟨mem, secret, rfl⟩ := alike
  exact ⟨mem, secret, rfl⟩

theorem unmap_direct_alike (alike : Alike s t) (chunk : Nat) :
    Alike (unmapDirect s chunk) (unmapDirect t chunk) := by
  have known : t.direct = s.direct ∧ t.directs = s.directs := by
    obtain ⟨mem, secret, rfl⟩ := alike
    exact ⟨rfl, rfl⟩
  unfold unmapDirect
  rw [known.1, known.2]
  generalize (s.direct chunk).totalBytes = total
  exact alike_directs (munmap_alike (rtree_set_range_alike alike chunk total 0) chunk total) _

/-! ## Threads -/

theorem attach_heap_alike (alike : Alike s t) (thread tlh : Nat) :
    Alike (attachHeap s thread tlh) (attachHeap t thread tlh) := by
  obtain ⟨mem, secret, rfl⟩ := alike
  exact ⟨mem, secret, rfl⟩

theorem resurrect_matches (alike : Alike s t) :
    Matches (lzResurrectZombie s) (lzResurrectZombie t) := by
  obtain ⟨mem, secret, rfl⟩ := alike
  unfold lzResurrectZombie
  apply matches_ite
  · intro _
    exact ⟨rfl, mem, secret, rfl⟩
  · intro _
    exact ⟨rfl, mem, secret, rfl⟩

theorem map_heap_matches (alike : Alike s t) : Option.Rel Matches (mapHeap s) (mapHeap t) := by
  obtain ⟨mem, secret, rfl⟩ := alike
  unfold mapHeap
  cases s.env.tlhMmap s.tlhCalls with
  | none => exact .none
  | some address =>
      dsimp only
      split
      · exact .some ⟨rfl, mem, secret, rfl⟩
      · exact .none

theorem ensure_tls_init_alike (alike : Alike s t) (thread : Nat) :
    Option.Rel Alike (ensureTlsInit s thread) (ensureTlsInit t thread) := by
  have tls := alike_tls alike
  unfold ensureTlsInit
  rw [tls]
  split
  · exact .some alike
  obtain ⟨zombie, left, right, leftEq, rightEq, adopted⟩ := matches_cases (resurrect_matches alike)
  simp only [leftEq, rightEq]
  split
  · obtain ⟨mem, secret, rfl⟩ := adopted
    exact .some (attach_heap_alike ⟨mem, secret, rfl⟩ thread zombie)
  · have mapped := map_heap_matches alike
    generalize mapHeap s = first at mapped ⊢
    generalize mapHeap t = second at mapped ⊢
    cases mapped with
    | none => exact .none
    | some heaps =>
        obtain ⟨tlh, before, after, rfl, rfl, ready⟩ := matches_cases heaps
        obtain ⟨mem, secret, rfl⟩ := ready
        exact .some (attach_heap_alike ⟨mem, secret, rfl⟩ thread tlh)

theorem flush_telemetry_alike (alike : Alike s t) (tlh : Nat) :
    Alike (flushTelemetry s tlh) (flushTelemetry t tlh) := by
  obtain ⟨mem, secret, rfl⟩ := alike
  unfold flushTelemetry
  dsimp only
  cases (s.tlh tlh).statSlot with
  | none => exact ⟨mem, secret, rfl⟩
  | some slot => exact ⟨mem, secret, rfl⟩

theorem destructor_alike (alike : Alike s t) (tlh : Nat) :
    Alike (lzTlhDestructor s tlh) (lzTlhDestructor t tlh) := by
  obtain ⟨mem, secret, flushed⟩ := flush_telemetry_alike (flush_alike alike tlh) tlh
  unfold lzTlhDestructor
  apply alike_ite
  · intro _
    exact alike
  · intro _
    simp only [flushed]
    exact ⟨mem, secret, rfl⟩

theorem thread_exit_alike (alike : Alike s t) (thread : Nat) :
    Alike (threadExit s thread) (threadExit t thread) := by
  obtain ⟨mem, secret, exited⟩ := destructor_alike alike (s.tls thread)
  unfold threadExit
  obtain ⟨_, _, rfl⟩ := alike
  simp only [exited]
  exact ⟨mem, secret, rfl⟩

/-! ## Lookups -/

theorem resolve_alike (alike : Alike s t) (ptr : Nat) : resolve t ptr = resolve s ptr := by
  obtain ⟨mem, secret, rfl⟩ := alike
  rfl

theorem usable_size_alike (alike : Alike s t) (ptr : Nat) :
    lzMallocUsableSize t ptr = lzMallocUsableSize s ptr := by
  obtain ⟨mem, secret, rfl⟩ := alike
  rfl

end Lzmalloc.MemoryBlind
