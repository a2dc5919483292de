import Lzmalloc.SpanPlacement

/-!
# Where slabs find blocks

`lz_tlh_alloc` reaps, tries the current slab and the first partial slab, and
asks the manager for a chunk only when no slab of the class has a block left.
When the manager refuses, nothing has changed since the reap except that an
exhausted bump pointer may have been cleared.
-/

namespace Lzmalloc.SlabPlacement

open SizeClasses HeapState VirtualMemoryManager PointerChain DoublyLinked Engines ThreadHeap
open StepSystem Mappings HeapInvariant InvariantFacts SlabBlocks BinLists ChunkCaches ChunkRoles
open ChunkTransfer ClientView SlabAllocation RemoteFree ThreadFrames HeapOperations ConcreteView
open EngineRuns SlabContracts SpanPlacement

set_option autoImplicit false

variable {mode : Mode} {s : State} {g : Ghost} {live : Nat → Prop} {tlh classIdx chunk size : Nat}

/-! ## Where a block is taken from -/

/-- The state in which `lz_tlh_alloc` takes the block: it reaps first unless the
free list of the current slab has a block. -/
def allocSource (s : State) (tlh scIdx : Nat) : State :=
  if (s.bins tlh scIdx).currentSlab ≠ 0 ∧
      (s.slab (s.bins tlh scIdx).currentSlab).freeListHead ≠ 0 then s
  else lzTlhReap s tlh

theorem try_current_unused (inv : Inv mode s g) (tlh classIdx : Nat)
    (got : (tryCurrent s tlh classIdx).1 ≠ 0) : ¬(g.node (tryCurrent s tlh classIdx).1).InUse := by
  unfold tryCurrent at got ⊢
  simp only at got ⊢
  by_cases present : (s.bins tlh classIdx).currentSlab = 0
  · rw [if_neg (by simp [present]), if_neg (by simp [present])] at got
    exact absurd rfl got
  · obtain ⟨chunk, position, isSlab, _⟩ := core_current_slab inv.toCore present
    rw [position] at got ⊢
    by_cases listed : (s.slab (chunk + 64)).freeListHead = 0
    · rw [if_neg (by simp [listed])] at got ⊢
      by_cases retiredBump : (s.slab (chunk + 64)).bumpPtr = 0
      · rw [if_neg (by simp [retiredBump])] at got
        exact absurd rfl got
      · rw [if_pos ⟨by omega, retiredBump⟩] at got ⊢
        by_cases room : (s.slab (chunk + 64)).bumpPtr + (s.slab (chunk + 64)).blockSize ≤
            (s.slab (chunk + 64)).memoryEnd
        · have unborn := (core_bump inv.toCore isSlab retiredBump room).1.2
          simp [bumpBlock, if_pos room, unborn, NodePlace.InUse]
        · simp [bumpBlock, if_neg room] at got
    · rw [if_pos ⟨by omega, listed⟩]
      have free := (core_pop_free inv.toCore isSlab listed).1.2
      simp [popFreeBlock, free, NodePlace.InUse]

theorem alloc_slow_cases (inv : Inv mode s g) (classBound : classIdx < 40)
    (exhausted : Exhausted s tlh classIdx) :
    ((lzTlhAllocSlow s tlh classIdx).1 ≠ 0 ∧ ¬(g.node (lzTlhAllocSlow s tlh classIdx).1).InUse) ∨
      ((s.bins tlh classIdx).partialList = 0 ∧
        (lzTlhAllocSlow s tlh classIdx).1 = 0 ∧
        lzVmmAllocChunk s = (0, (lzTlhAllocSlow s tlh classIdx).2)) := by
  unfold lzTlhAllocSlow
  by_cases available : (s.bins tlh classIdx).partialList ≠ 0
  · rw [if_pos available]
    obtain ⟨chunk, bin, position, isSlab, _, free, promoted⟩ := inv_promote inv exhausted available
    have popped := (core_pop_free promoted.toCore isSlab free).1.2
    apply Or.inl
    simp only [position, popFreeBlock]
    constructor
    · exact free
    · rw [show g.node _ = .free from popped]
      exact id
  · rw [if_neg available]
    obtain ⟨_, roles, _, _, core, loose⟩ := core_vmm_alloc inv.toCore
    cases given : lzVmmAllocChunk s with
    | mk chunk after =>
        rw [given] at core loose
        unfold lzSlabCreate
        simp only [given]
        by_cases failed : chunk = 0
        · simp only [failed, if_true]
          exact Or.inr ⟨not_not.mp available, trivial, trivial⟩
        · simp only [if_neg failed]
          rw [if_neg (by simp only [lzCacheLineSize]; omega)]
          obtain ⟨aligned, _, bound⟩ := core.geom.placed chunk (by simp [loose failed])
          have first : ((installSlab after tlh classIdx chunk).slab (chunk + 64)).bumpPtr =
              chunk + 128 := by
            rw [install_slab_eq]
            simp only [Function.update_self, fresh_slab_eq aligned bound classBound]
          have empty : g.node (chunk + 128) = .none := by
            by_contra present
            have holds := core.objects.scope (chunk + 128) present
            rw [chunk_base_eq aligned (by omega) (by omega)] at holds
            simp [loose failed, BlockKind.HoldsObjects] at holds
          apply Or.inl
          change ((installSlab after tlh classIdx chunk).slab (chunk + 64)).bumpPtr ≠ 0 ∧
            ¬(g.node ((installSlab after tlh classIdx chunk).slab (chunk + 64)).bumpPtr).InUse
          rw [first, empty]
          exact ⟨by omega, id⟩

/-! ## Failure -/

theorem global_pop_null {vmm : Vmm} (none : (globalPop vmm).1 = 0) :
    vmm.globalFreeChunks = 0 ∧ (globalPop vmm).2 = vmm := by
  unfold globalPop at none ⊢
  by_cases empty : vmm.globalFreeChunks = 0
  · rw [if_pos empty]
    exact ⟨empty, rfl⟩
  · rw [if_neg empty] at none
    exact absurd none empty

/-- A manager that refuses has asked the operating system and changed nothing. -/
theorem vmm_alloc_null (failed : (lzVmmAllocChunk s).1 = 0) :
    (lzVmmAllocChunk s).2 =
      { s with
        nodeCalls := (lzVmmAllocChunk s).2.nodeCalls
        regionCalls := (lzVmmAllocChunk s).2.regionCalls } := by
  unfold lzVmmAllocChunk at failed ⊢
  obtain ⟨node, nodeEq⟩ : ∃ node, (lzGetCurrentNode s).1 = node := ⟨_, rfl⟩
  obtain ⟨located, locatedEq⟩ : ∃ located, (lzGetCurrentNode s).2 = located := ⟨_, rfl⟩
  have asked : located = { s with nodeCalls := located.nodeCalls } := by rw [← locatedEq]; rfl
  simp only [nodeEq, locatedEq] at failed ⊢
  by_cases hit : (poolPop located.vmm node).1 ≠ 0
  · rw [if_pos hit] at failed
    exact absurd failed hit
  · rw [if_neg hit] at failed ⊢
    by_cases taken : (globalAlloc located).1 = 0
    · rw [if_pos taken]
      unfold globalAlloc at taken ⊢
      simp only at taken ⊢
      obtain ⟨empty, same⟩ := global_pop_null taken
      rw [same]
      by_cases listed : located.vmm.globalFreeChunks = 0
      · rw [if_pos listed] at empty ⊢
        rcases map_extent_cases located with refused | ⟨start, after, given, fresh⟩
        · have unchanged : sysAllocExtent located =
              { located with regionCalls := located.regionCalls + 1 } := by
            rw [sysAllocExtent, refused]
          rw [unchanged, asked]
        · -- The chunks of a new extent would be on the list.
          have carved : sysAllocExtent located =
              { after with vmm := carveExtent after.vmm start } := by
            rw [sysAllocExtent, given]
          have positive := fresh.positive
          rw [carved] at empty
          simp [carveExtent, List.range_succ, globalPush] at empty
      · rw [if_neg listed] at empty
        exact absurd empty listed
    · rw [if_neg taken] at failed
      exact absurd failed taken

def NoRoom (slab : Slab) : Prop :=
  slab.freeListHead = 0 ∧ (slab.bumpPtr = 0 ∨ slab.memoryEnd < slab.bumpPtr + slab.blockSize)

/-- The descriptors are as they were, except that the bump pointer of a current
slab without room may be `NULL`. -/
def BumpCleared (s : State) (tlh scIdx : Nat) (slab : Nat → Slab) : Prop :=
  slab = s.slab ∨
    (s.bins tlh scIdx).currentSlab ≠ 0 ∧ NoRoom (s.slab (s.bins tlh scIdx).currentSlab) ∧
      slab = Function.update s.slab (s.bins tlh scIdx).currentSlab
        { s.slab (s.bins tlh scIdx).currentSlab with bumpPtr := 0 }

theorem try_current_null (none : (tryCurrent s tlh classIdx).1 = 0) :
    (∃ slab, (tryCurrent s tlh classIdx).2 = { s with slab := slab } ∧
      BumpCleared s tlh classIdx slab) ∧
      ((s.bins tlh classIdx).currentSlab ≠ 0 →
        NoRoom (s.slab (s.bins tlh classIdx).currentSlab)) := by
  unfold tryCurrent BumpCleared at *
  simp only at none ⊢
  generalize (s.bins tlh classIdx).currentSlab = current at none ⊢
  by_cases listed : current ≠ 0 ∧ (s.slab current).freeListHead ≠ 0
  · rw [if_pos listed] at none
    exact absurd none listed.2
  · rw [if_neg listed] at none ⊢
    by_cases bumping : current ≠ 0 ∧ (s.slab current).bumpPtr ≠ 0
    · rw [if_pos bumping] at none ⊢
      have empty : (s.slab current).freeListHead = 0 := by
        by_contra nonempty
        exact listed ⟨bumping.1, nonempty⟩
      by_cases room : (s.slab current).bumpPtr + (s.slab current).blockSize ≤
          (s.slab current).memoryEnd
      · simp only [bumpBlock, if_pos room] at none
        exact absurd none bumping.2
      · have full : NoRoom (s.slab current) := ⟨empty, Or.inr (by omega)⟩
        simp only [bumpBlock, if_neg room, setSlab]
        exact ⟨⟨_, rfl, Or.inr ⟨bumping.1, full, rfl⟩⟩, fun _ => full⟩
    · rw [if_neg bumping]
      constructor
      · exact ⟨s.slab, rfl, Or.inl rfl⟩
      · intro present
        constructor
        · by_contra nonempty
          exact listed ⟨present, nonempty⟩
        · apply Or.inl
          by_contra active
          exact bumping ⟨present, active⟩

theorem class_without_room (inv : Inv mode s g)
    (current : (s.bins tlh classIdx).currentSlab ≠ 0 →
      NoRoom (s.slab (s.bins tlh classIdx).currentSlab))
    (none : (s.bins tlh classIdx).partialList = 0) (isSlab : g.kind chunk = .slab tlh classIdx) :
    NoRoom (s.slab (chunk + 64)) := by
  cases there : g.bin chunk with
  | inCurrent =>
      have position := (core_current inv.toCore isSlab).mp there
      rw [position] at current
      exact current (by omega)
  | inPartial =>
      have listed := inv.lists tlh classIdx .inPartial (by simp)
      rw [show binHead (s.bins tlh classIdx) .inPartial = 0 from none] at listed
      exact absurd ⟨chunk, rfl, isSlab, there⟩ (doubly_null listed (chunk + 64))
  | inFull =>
      have retiredBump := ((inv.filled chunk tlh classIdx isSlab).1 there).2
      exact ⟨(full_slab_counters inv isSlab there).2, Or.inl retiredBump⟩

/-! ## The contract -/

/-- `lz_tlh_alloc` gets past the current and the partial slabs and calls
`lz_slab_create`, which asks the manager for a chunk. -/
def AsksForSlab (s : State) (tlh scIdx : Nat) : Prop :=
  (lzTlhAllocAttempt s tlh scIdx).1 = 0 ∧
    ((lzTlhAllocAttempt s tlh scIdx).2.bins tlh scIdx).partialList = 0

structure SlabServed (s : State) (live : Nat → Prop) (tlh size : Nat) : Prop where
  asked : AsksForSlab s tlh (lzSizeToClass size) →
    (∃ partials fulls, BinOk (lzTlhReap s tlh) tlh (lzSizeToClass size) partials fulls) ∧
      ∀ slab, OwnsSlab (lzTlhReap s tlh) tlh (lzSizeToClass size) slab →
        NoRoom ((lzTlhReap s tlh).slab slab)
  block : ∀ ptr after, lzTlhAlloc s tlh size = (ptr, after) → ptr ≠ 0 →
    SlabObject after ptr ∧
      (after.slab (chunkBase ptr + lzCacheLineSize)).sizeClass = lzSizeToClass size ∧
      ¬live ptr ∧ ¬Travelling (allocSource s tlh (lzSizeToClass size)) ptr
  refused : ∀ after, lzTlhAlloc s tlh size = (0, after) →
    ∃ slab, BumpCleared (lzTlhReap s tlh) tlh (lzSizeToClass size) slab ∧
      lzVmmAllocChunk { lzTlhReap s tlh with slab := slab } = (0, after) ∧
      after = { lzTlhReap s tlh with
        slab := slab
        nodeCalls := after.nodeCalls
        regionCalls := after.regionCalls }
  bins : ∀ heap classIdx, ∃ partials fulls,
    BinOk (lzTlhAlloc s tlh size).2 heap classIdx partials fulls

theorem tlh_alloc_slab_eq (small : size ≤ lzMaxSlabObjSize) :
    lzTlhAlloc s tlh size =
      let attempt := lzTlhAllocAttempt s tlh (lzSizeToClass size)
      let got :=
        if attempt.1 = 0 then lzTlhAllocSlow attempt.2 tlh (lzSizeToClass size) else attempt
      if got.1 = 0 then (0, got.2)
      else
        (got.1, accountAlloc got.2 tlh
          (got.2.slab (got.2.bins tlh (lzSizeToClass size)).currentSlab).blockSize) := by
  rw [lzTlhAlloc, if_neg (Nat.not_lt.mpr small)]

theorem attempt_null (none : (lzTlhAllocAttempt s tlh classIdx).1 = 0) :
    lzTlhAllocAttempt s tlh classIdx = tryCurrent (lzTlhReap s tlh) tlh classIdx ∧
      allocSource s tlh classIdx = lzTlhReap s tlh := by
  rw [lz_tlh_alloc_attempt_eq] at none ⊢
  unfold allocSource
  by_cases listed : (s.bins tlh classIdx).currentSlab ≠ 0 ∧
      (s.slab (s.bins tlh classIdx).currentSlab).freeListHead ≠ 0
  · rw [if_pos listed] at none
    exact absurd none listed.2
  · rw [if_neg listed, if_neg listed]
    exact ⟨rfl, rfl⟩

theorem tlh_alloc_unused (inv : Inv mode s g) (idle : g.cursor tlh = 0)
    (small : size ≤ lzMaxSlabObjSize) (got : (lzTlhAlloc s tlh size).1 ≠ 0) :
    ∃ middle, Inv mode (allocSource s tlh (lzSizeToClass size)) middle ∧
      middle.cursor = g.cursor ∧ ¬(middle.node (lzTlhAlloc s tlh size).1).InUse := by
  have classBound := slab_class_bound small
  rw [tlh_alloc_slab_eq small] at got ⊢
  generalize lzSizeToClass size = classIdx at classBound got ⊢
  simp only at got ⊢
  by_cases failed : (lzTlhAllocAttempt s tlh classIdx).1 = 0
  · obtain ⟨attempt, source⟩ := attempt_null failed
    obtain ⟨middle, middleInv, _, swept, _⟩ := inv_reap inv idle
    rw [if_pos failed] at got ⊢
    rw [attempt] at failed got ⊢
    rw [source]
    obtain ⟨_, still, _, exhausted⟩ | ⟨some, _⟩ := inv_try_current middleInv tlh classIdx
    · obtain ⟨some, unused⟩ | ⟨_, none, _⟩ := alloc_slow_cases still classBound exhausted
      · rw [if_neg some]
        exact ⟨middle, middleInv, swept.cursor, unused⟩
      · rw [if_pos none] at got
        exact absurd rfl got
    · exact absurd failed some
  · rw [if_neg failed, if_neg failed]
    rw [lz_tlh_alloc_attempt_eq] at failed ⊢
    unfold allocSource
    by_cases listed : (s.bins tlh classIdx).currentSlab ≠ 0 ∧
        (s.slab (s.bins tlh classIdx).currentSlab).freeListHead ≠ 0
    · rw [if_pos listed, if_pos listed]
      obtain ⟨chunk, position, isSlab, _⟩ := core_current_slab inv.toCore listed.1
      rw [position] at listed ⊢
      have free := (core_pop_free inv.toCore isSlab listed.2).1.2
      exact ⟨g, inv, rfl, by simp [popFreeBlock, free, NodePlace.InUse]⟩
    · rw [if_neg listed] at failed
      rw [if_neg listed, if_neg listed]
      obtain ⟨middle, middleInv, _, swept, _⟩ := inv_reap inv idle
      exact ⟨middle, middleInv, swept.cursor, try_current_unused middleInv tlh classIdx failed⟩

theorem tlh_alloc_null (inv : Inv mode s g) (idle : g.cursor tlh = 0)
    (small : size ≤ lzMaxSlabObjSize) (none : (lzTlhAlloc s tlh size).1 = 0) :
    ∃ slab, BumpCleared (lzTlhReap s tlh) tlh (lzSizeToClass size) slab ∧
      lzVmmAllocChunk { lzTlhReap s tlh with slab := slab } = (0, (lzTlhAlloc s tlh size).2) := by
  have classBound := slab_class_bound small
  rw [tlh_alloc_slab_eq small] at none ⊢
  generalize lzSizeToClass size = classIdx at classBound none ⊢
  simp only at none ⊢
  by_cases failed : (lzTlhAllocAttempt s tlh classIdx).1 = 0
  · obtain ⟨attempt, _⟩ := attempt_null failed
    obtain ⟨middle, middleInv, _, swept, _⟩ := inv_reap inv idle
    rw [if_pos failed] at none ⊢
    rw [attempt] at failed none ⊢
    obtain ⟨⟨slab, middleEq, cleared⟩, _⟩ := try_current_null failed
    obtain ⟨_, still, _, exhausted⟩ | ⟨some, _⟩ := inv_try_current middleInv tlh classIdx
    · obtain ⟨some, _⟩ | ⟨_, null, refused⟩ := alloc_slow_cases still classBound exhausted
      · rw [if_neg some] at none
        exact absurd none some
      · rw [if_pos null]
        exact ⟨slab, cleared, by rw [← middleEq]; exact refused⟩
    · exact absurd failed some
  · rw [if_neg failed, if_neg failed] at none
    exact absurd none failed

/-- In every reachable state and for every slab size: the manager is asked only
when no slab of the class has room after the reap, the block that is returned is
one of the class and was unused, a refusal changes nothing but an exhausted bump
pointer, and the bins stay well formed. -/
theorem slab_alloc_wastes_nothing (reachable : ReachableHeap s live) (heap : tlh ∈ s.heaps)
    (small : size ≤ lzMaxSlabObjSize) : SlabServed s live tlh size := by
  obtain ⟨mode, g, standing⟩ := standing_reachable reachable
  have idle := standing.cursor tlh
  obtain ⟨reaped, reapedInv, quiet, swept, _⟩ := inv_reap standing.inv idle
  have settled : ∀ chunk, reaped.kind chunk ≠ .loose := fun chunk loose =>
    standing.settled chunk (swept.loose chunk loose)
  obtain ⟨last, lastInv, course, outcome⟩ := inv_tlh_alloc standing.inv heap idle size
  have lastSettled : ∀ chunk, last.kind chunk ≠ .loose := fun chunk loose =>
    standing.settled chunk (course.loose chunk loose)
  constructor
  · intro asks
    obtain ⟨attempt, _⟩ := attempt_null asks.1
    rw [AsksForSlab, attempt] at asks
    obtain ⟨⟨slab, middleEq, _⟩, current⟩ := try_current_null asks.1
    constructor
    · exact bin_ok reapedInv settled tlh _
    · intro slab owned
      obtain ⟨chunk, rfl⟩ := owns_slab_position owned
      apply class_without_room reapedInv current
      · have none := asks.2
        rwa [middleEq] at none
      · exact (owns_slab_iff reapedInv.toCore settled).mp owned
  · intro ptr after called nonnull
    have got : (lzTlhAlloc s tlh size).1 ≠ 0 := by rw [called]; exact nonnull
    obtain ⟨middle, middleInv, cursors, unused⟩ := tlh_alloc_unused standing.inv idle small got
    obtain ⟨none, _⟩ | ⟨_, allocated⟩ := outcome
    · exact absurd none got
    rw [called] at unused allocated lastInv
    have origin : tlhOrigin size = .slab (lzSizeToClass size) := if_neg (Nat.not_lt.mpr small)
    have isLive : last.node ptr = .live := (allocated.live ptr).mpr (Or.inl rfl)
    have recorded := lastInv.recorded ptr (by rw [isLive]; trivial)
    rw [allocated.record, Function.update_self, origin] at recorded
    obtain ⟨owner, isSlab⟩ : ∃ owner,
        last.kind (chunkBase ptr) = .slab owner (lzSizeToClass size) := by
      cases kind : last.kind (chunkBase ptr) <;> simp_all [objectOrigin]
    constructor
    · apply (slab_object_iff lastInv.toCore lastSettled).mpr
      exact ⟨⟨owner, _, isSlab⟩, by rw [isLive]; simp⟩
    constructor
    · exact (lastInv.slabs _ owner _ isSlab).sizeClass
    constructor
    · rw [standing.live ptr]
      exact allocated.fresh.1
    · rw [travelling_iff middleInv.toCore (by rw [cursors]; exact standing.cursor)]
      intro flying
      exact unused (in_flight_used flying)
  · intro after called
    obtain ⟨slab, cleared, refused⟩ :=
      tlh_alloc_null standing.inv idle small (by rw [called])
    rw [called] at refused
    have unchanged := vmm_alloc_null (congrArg Prod.fst refused)
    rw [refused] at unchanged
    exact ⟨slab, cleared, refused, unchanged⟩
  · intro other classIdx
    exact bin_ok lastInv lastSettled other classIdx

/-- A slab of each of 31 classes and a full one: no chunk of the region is left. -/
def fullSlabRun : List EngineAct :=
  .init 4096 0 :: (List.range 31).map (fun scIdx => .alloc 4096 (lzClassToSize scIdx)) ++
    List.replicate 63 (.alloc 4096 32768)

theorem slab_alloc_refused_cleanly :
    ∃ sys, run engineStep (engineStart oneRegionEnv 7 true) fullSlabRun = some sys ∧
      (sys.state.slab (sys.state.bins 4096 39).currentSlab).usedObjects = 63 ∧
      AsksForSlab sys.state 4096 (lzSizeToClass 32768) ∧
      (lzTlhAlloc sys.state 4096 32768).1 = 0 ∧
      SlabServed sys.state (fun ptr => sys.live ptr = true) 4096 32768 := by
  have facts : (run engineStep (engineStart oneRegionEnv 7 true) fullSlabRun).map (fun sys =>
      ((sys.state.slab (sys.state.bins 4096 39).currentSlab).usedObjects,
        (lzTlhAllocAttempt sys.state 4096 (lzSizeToClass 32768)).1,
        ((lzTlhAllocAttempt sys.state 4096 (lzSizeToClass 32768)).2.bins 4096
          (lzSizeToClass 32768)).partialList,
        (lzTlhAlloc sys.state 4096 32768).1, sys.state.heaps)) =
      some (63, 0, 0, 0, [4096]) := by decide +kernel
  obtain ⟨sys, ran, values⟩ := Option.map_eq_some_iff.mp facts
  simp only [Prod.mk.injEq] at values
  obtain ⟨used, failed, none, null, heaps⟩ := values
  exact ⟨sys, ran, used, ⟨failed, none⟩, null,
    slab_alloc_wastes_nothing (.engine ran) (by simp [heaps]) (by decide)⟩

end Lzmalloc.SlabPlacement
