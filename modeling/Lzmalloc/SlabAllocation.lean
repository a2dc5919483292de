import Lzmalloc.SlabLifecycle

/-!
# Allocation from slabs

Creating a slab and making it the current one, promoting a slab of the partial
list, and the paths of `lz_tlh_alloc` below the reap. The slow path runs only
when the current slab is exhausted, which is what puts it on the full list with
the right counters.
-/

namespace Lzmalloc.SlabAllocation

open SizeClasses HeapState VirtualMemoryManager PointerChain DoublyLinked Engines ThreadHeap
open HeapInvariant InvariantFacts SlabBlocks BinLists ChunkCaches RadixTree ChunkRoles ChunkTransfer
open ClientView SlabLifecycle

set_option autoImplicit false

variable {mode : Mode} {s : State} {g : Ghost} {tlh classIdx chunk : Nat}

/-! ## A fresh slab -/

theorem fresh_slab_eq (aligned : chunk % 2097152 = 0) (bound : chunk + 2097152 ≤ 2 ^ 48)
    (classBound : classIdx < 40) :
    freshSlab chunk classIdx =
      { memoryBase := chunk + 128
        memoryEnd := chunk + 2097152
        bumpPtr := chunk + 128
        freeListHead := 0
        sizeClass := classIdx
        blockSize := lzClassToSize classIdx
        maxObjects := (2097152 - 128) / lzClassToSize classIdx
        usedObjects := 0 } := by
  obtain ⟨_, lower, upper⟩ := slab_block_size classBound
  obtain ⟨_, capacity⟩ := slab_capacity classBound
  have start : lzAlignUp (chunk + 64 + 64) 64 = chunk + 128 :=
    lz_align_up_of_dvd (by decide) (by omega) (Nat.dvd_of_mod_eq_zero (by omega))
  have size : lzClassToSize classIdx % 2 ^ 32 = lzClassToSize classIdx :=
    Nat.mod_eq_of_lt (by omega)
  have room : chunk + 2097152 - (chunk + 128) = 2097152 - 128 := by omega
  have count : (2097152 - 128) / lzClassToSize classIdx % 2 ^ 32 =
      (2097152 - 128) / lzClassToSize classIdx := Nat.mod_eq_of_lt (by omega)
  simp only [freshSlab, lzCacheLineSize, lzHugePageSize, start, size, room, count]

theorem fresh_slab_room (aligned : chunk % 2097152 = 0) (bound : chunk + 2097152 ≤ 2 ^ 48)
    (classBound : classIdx < 40) :
    (freshSlab chunk classIdx).bumpPtr ≠ 0 ∧
      (freshSlab chunk classIdx).bumpPtr + (freshSlab chunk classIdx).blockSize ≤
        (freshSlab chunk classIdx).memoryEnd := by
  have size := (slab_block_size classBound).2
  rw [fresh_slab_eq aligned bound classBound]
  constructor
  · simp
  · simp only
    omega

theorem fresh_slab_ok {next : Nat → Nat} {node : Nat → NodePlace} (aligned : chunk % 2097152 = 0)
    (bound : chunk + 2097152 ≤ 2 ^ 48) (classBound : classIdx < 40)
    (empty : ∀ ptr, chunkBase ptr = chunk → node ptr = .none) :
    SlabOk (freshSlab chunk classIdx) next node chunk classIdx := by
  have untouched : bumpedCount (freshSlab chunk classIdx) = 0 := by
    simp [fresh_slab_eq aligned bound classBound, bumpedCount]
  have fresh := fresh_slab_eq aligned bound classBound
  refine ⟨by rw [fresh], by rw [fresh], by rw [fresh], classBound, by rw [fresh], by rw [fresh],
    ?_, ?_, ?_, ?_, ?_⟩
  · intro _
    rw [untouched, fresh]
    simp
  · rw [untouched]
    exact Nat.zero_le _
  · rw [untouched, fresh]
  · rw [untouched, fresh]
    refine enumerates_empty fun block => ?_
    rintro ⟨inside, free⟩
    simp [empty block inside] at free
  · intro block inside
    simp [untouched, empty block inside]

/-! ## Claiming a chunk, for both engines -/

theorem vmm_inv_claim {vmm : Vmm} {kind : Nat → BlockKind} {role : BlockKind}
    (inv : VmmInv vmm kind) (loose : kind chunk = .loose) (chunkType : ChunkType)
    (isChunk : role.IsChunk) (uncached : role.cached = none) :
    VmmInv (claimHeader vmm chunk tlh chunkType) (Function.update kind chunk role) := by
  have known : (kind chunk).cached = none := by rw [loose]; rfl
  have caches : CacheInv (claimHeader vmm chunk tlh chunkType) fun each => (kind each).cached :=
    cache_inv_header inv.caches known _
  refine vmm_inv_role inv (by rw [loose]; trivial) isChunk ?_ ?_ ?_ rfl
  · rwa [uncached, ← known, Function.update_eq_self chunk fun each => (kind each).cached]
  · intro _
    have header := inv.takenHeader chunk (by rw [loose]; trivial)
    simpa [claimHeader, magicOk] using header
  · intro base apart
    exact Function.update_of_ne apart _ _

theorem header_inv_claim {vmm : Vmm} {kind : Nat → BlockKind} {role : BlockKind}
    {chunkType : ChunkType} (inv : HeaderInv vmm kind) (isChunk : role.IsChunk)
    (slab : ∀ heap size, role = .slab heap size → heap = tlh ∧ chunkType = .slab)
    (span : ∀ heap, role = .span heap → heap = tlh ∧ chunkType = .span) :
    HeaderInv (claimHeader vmm chunk tlh chunkType) (Function.update kind chunk role) := by
  refine header_inv_role inv (fun base apart => Function.update_of_ne apart _ _) ?_ ?_ isChunk
  · intro heap size isSlab
    obtain ⟨rfl, rfl⟩ := slab heap size isSlab
    simp [claimHeader, checksumOk, lzCalcChecksum]
  · intro heap isSpan
    obtain ⟨rfl, rfl⟩ := span heap isSpan
    simp [claimHeader]

theorem rtree_inv_register {kind : Nat → BlockKind} {role : BlockKind}
    (inv : RtreeInv (LeavesGranted s) s.rtree kind) {later : State}
    (env : later.env = s.env) (calls : later.leafCalls = (lzRtreeSet s chunk chunk).leafCalls)
    (aligned : chunk % 2097152 = 0) (bound : chunk < 2 ^ 48) (header : role.header chunk = chunk) :
    RtreeInv (LeavesGranted later) (lzRtreeSet s chunk chunk).rtree
      (Function.update kind chunk role) := by
  have stored : LeavesGranted later → LeavesGranted (lzRtreeSet s chunk chunk) :=
    leaves_granted_before (by rw [env, lz_rtree_set_eq]) calls.ge
  refine rtree_inv_role inv (fun granted => leaves_granted_set (stored granted)) ?_ ?_ ?_
  · intro address below outside
    exact lz_rtree_get_set_other below bound fun same =>
      outside ((chunk_base_iff_div aligned).mpr same)
  · intro address below inside
    rw [header]
    exact (lz_rtree_get_set_same below bound ((chunk_base_iff_div aligned).mp inside)).1
  · intro granted _ address below inside
    rw [header]
    exact (lz_rtree_get_set_same below bound ((chunk_base_iff_div aligned).mp inside)).2
      (stored granted)

/-! ## Installing a slab -/

theorem retire_current_only (s : State) (tlh classIdx : Nat) :
    retireCurrent s tlh classIdx =
      { s with
        bins := (retireCurrent s tlh classIdx).bins
        slabLinks := (retireCurrent s tlh classIdx).slabLinks } := by
  by_cases present : (s.bins tlh classIdx).currentSlab = 0
  · simp [retireCurrent, present]
  · rw [retire_current_eq present]

/-- The end of `lz_tlh_alloc_slow` before the first block is taken: the new slab
is formatted, the exhausted one is retired, the new one is current. -/
def installSlab (s : State) (tlh classIdx chunk : Nat) : State :=
  let retiredState := retireCurrent (formatSlab s tlh classIdx chunk) tlh classIdx
  setBin retiredState tlh classIdx
    { retiredState.bins tlh classIdx with currentSlab := chunk + 64 }

theorem install_slab_eq (s : State) (tlh classIdx chunk : Nat) :
    installSlab s tlh classIdx chunk =
      { s with
        vmm := claimHeader s.vmm chunk tlh .slab
        rtree := (lzRtreeSet { s with vmm := claimHeader s.vmm chunk tlh .slab } chunk chunk).rtree
        leafCalls :=
          (lzRtreeSet { s with vmm := claimHeader s.vmm chunk tlh .slab } chunk chunk).leafCalls
        slab := Function.update s.slab (chunk + 64) (freshSlab chunk classIdx)
        bins := putHead (retireCurrent (formatSlab s tlh classIdx chunk) tlh classIdx).bins tlh
          classIdx .inCurrent (chunk + 64)
        slabLinks :=
          (retireCurrent (formatSlab s tlh classIdx chunk) tlh classIdx).slabLinks } := by
  unfold installSlab
  simp only
  conv_lhs => rw [retire_current_only]
  simp only [setBin, putHead, withHead]
  unfold formatSlab
  simp only
  rw [lz_rtree_set_eq]
  simp only [lzCacheLineSize]

theorem lists_reset {bins : Nat → Nat → Bin} {links : Links Nat} {kind : Nat → BlockKind}
    {bin : Nat → BinPlace} (lists : ListInv bins links kind bin)
    (current : CurrentInv bins links kind bin) (loose : kind chunk = .loose) :
    ListInv bins ⟨Function.update links.next (chunk + 64) 0,
        Function.update links.prev (chunk + 64) 0⟩ kind bin ∧
      CurrentInv bins ⟨Function.update links.next (chunk + 64) 0,
        Function.update links.prev (chunk + 64) 0⟩ kind bin := by
  have apart : ∀ heap size place slab, InBin kind bin heap size place slab → slab ≠ chunk + 64 := by
    rintro heap size place slab inside rfl
    simp [in_bin_descriptor, loose] at inside
  constructor
  · intro heap size place listed
    refine doubly_congr (lists heap size place listed) ?_ ?_ fun _ => Iff.rfl
    · intro slab inside
      exact Function.update_of_ne (apart heap size place slab inside) _ _
    · intro slab inside
      exact Function.update_of_ne (apart heap size place slab inside) _ _
  · intro heap size
    refine current_at_congr (current heap size) ?_ fun _ => Iff.rfl
    intro slab inside
    exact ⟨Function.update_of_ne (apart heap size .inCurrent slab inside) _ _,
      Function.update_of_ne (apart heap size .inCurrent slab inside) _ _⟩

theorem install_slab_lists (core : Core mode s g) (loose : g.kind chunk = .loose)
    (tlh classIdx : Nat) :
    ListInv (installSlab s tlh classIdx chunk).bins (installSlab s tlh classIdx chunk).slabLinks
        (Function.update g.kind chunk (.slab tlh classIdx))
        (Function.update (retired g.kind g.bin tlh classIdx) chunk .inCurrent) ∧
      CurrentInv (installSlab s tlh classIdx chunk).bins
        (installSlab s tlh classIdx chunk).slabLinks
        (Function.update g.kind chunk (.slab tlh classIdx))
        (Function.update (retired g.kind g.bin tlh classIdx) chunk .inCurrent) := by
  obtain ⟨formatted, formattedEq⟩ : ∃ formatted, formatSlab s tlh classIdx chunk = formatted :=
    ⟨_, rfl⟩
  have bins : formatted.bins = s.bins := by
    rw [← formattedEq, formatSlab, lz_rtree_set_eq]
  have links : formatted.slabLinks = ⟨Function.update s.slabLinks.next (chunk + 64) 0,
      Function.update s.slabLinks.prev (chunk + 64) 0⟩ := by
    rw [← formattedEq, formatSlab, lz_rtree_set_eq]
    rfl
  obtain ⟨resetLists, resetCurrent⟩ := lists_reset core.lists core.current loose
  rw [← bins, ← links] at resetLists resetCurrent
  obtain ⟨lists, others⟩ := retire_current_lists resetLists resetCurrent tlh classIdx
  have offLists : Unlisted g.kind g.bin (chunk + 64) := by
    intro heap size place _
    simp [in_bin_descriptor, loose]
  have offRetired : Unlisted g.kind (retired g.kind g.bin tlh classIdx) (chunk + 64) := by
    intro heap size place _
    simp [in_bin_descriptor, loose]
  -- retiring pushes onto the full list, which the new slab is not on
  have free : (retireCurrent formatted tlh classIdx).slabLinks.next (chunk + 64) = 0 ∧
      (retireCurrent formatted tlh classIdx).slabLinks.prev (chunk + 64) = 0 := by
    have zero : formatted.slabLinks.next (chunk + 64) = 0 ∧
        formatted.slabLinks.prev (chunk + 64) = 0 := by simp [links]
    by_cases present : (formatted.bins tlh classIdx).currentSlab = 0
    · simpa [retireCurrent, present] using zero
    · rw [retire_current_eq present]
      obtain ⟨old, position, isSlab, _⟩ :=
        ((resetCurrent tlh classIdx).current _).mpr ⟨present, rfl⟩
      have different : chunk + 64 ≠ old + 64 := by
        intro same
        obtain rfl : chunk = old := by omega
        simp [loose] at isSlab
      have frame := push_front_unlisted tlh classIdx resetLists
        (by simp : BinPlace.inFull ≠ .inCurrent) different offLists
      rw [position]
      exact ⟨frame.1.trans zero.1, frame.2.trans zero.2⟩
  have same : ∀ other, other ≠ chunk →
      Function.update g.kind chunk (.slab tlh classIdx) other = g.kind other ∧
        Function.update (retired g.kind g.bin tlh classIdx) chunk .inCurrent other =
          retired g.kind g.bin tlh classIdx other := by
    intro other apart
    simp [apart]
  rw [install_slab_eq, formattedEq]
  constructor
  · exact list_inv_current (list_inv_role lists offRetired (unlisted_of_current (by simp)) same)
  · refine current_inv_install ?_ ?_ (by omega) free
    · intro heap size apart
      refine current_at_congr (others heap size apart) (fun _ _ => ⟨rfl, rfl⟩) fun slab => ?_
      by_cases here : slab = chunk + 64
      · subst here
        simp only [in_bin_descriptor, Function.update_self, loose, reduceCtorEq, false_and,
          iff_false, and_true, BlockKind.slab.injEq]
        rintro ⟨rfl, rfl⟩
        exact apart ⟨rfl, rfl⟩
      · exact in_bin_elsewhere same here
    · intro slab
      by_cases here : slab = chunk + 64
      · simp [here, in_bin_descriptor]
      · rw [in_bin_elsewhere same here]
        refine iff_of_false ?_ here
        rintro ⟨other, _, isSlab, current⟩
        exact retired_vacant other isSlab current

theorem core_install (core : Core mode s g) (loose : g.kind chunk = .loose)
    (heap : tlh ∈ s.heaps) (classBound : classIdx < 40) :
    Core mode (installSlab s tlh classIdx chunk)
      (setRole g chunk (.slab tlh classIdx)
        (Function.update (retired g.kind g.bin tlh classIdx) chunk .inCurrent)) := by
  obtain ⟨aligned, _, bound⟩ := core.geom.placed chunk (by simp [loose])
  obtain ⟨lists, current⟩ := install_slab_lists core loose tlh classIdx
  have empty : ∀ ptr, chunkBase ptr = chunk → g.node ptr = .none := by
    intro ptr inside
    by_contra present
    have holds := core.objects.scope ptr present
    rw [inside, loose] at holds
    exact holds
  rw [install_slab_eq] at lists current ⊢
  refine core_role core ⟨rfl, rfl, rfl, rfl, rfl, rfl, rfl, rfl, rfl⟩ (by rw [loose]; trivial)
    trivial (fun ptr inside => by simp [empty ptr inside, NodePlace.InUse]) ?_ ?_
    (vmm_inv_claim core.vmm loose .slab trivial rfl)
    (header_inv_claim core.header trivial ?_ (by simp)) ?_ lists current ?_ ?_ ?_
    (fun _ _ => rfl) (by simp)
  · intro owner same
    simp only [BlockKind.owner, Option.some.injEq] at same
    rwa [← same]
  · intro address below outside
    exact lz_rtree_get_set_other below (by omega) fun same =>
      outside ((chunk_base_iff_div aligned).mpr same)
  · intro owner size same
    cases same
    exact ⟨rfl, rfl⟩
  · refine rtree_inv_register ?_ rfl rfl aligned (by omega) rfl
    exact core.rtree
  · intro base apart
    exact Function.update_of_ne (by omega) _ _
  · intro owner size same
    cases same
    simp only [Function.update_self]
    exact fresh_slab_ok aligned bound classBound fun ptr inside => drop_nodes_inside inside
  · intro owner
    refine doubly_congr (core.spanList owner) (fun _ _ => rfl) (fun _ _ => rfl) fun span => ?_
    refine exists_congr fun base => and_congr_right fun _ => ?_
    by_cases here : base = chunk
    · simp [here, loose]
    · simp [here]

/-! ## The slow path -/

/-- The current slab of the bin, if there is one, has nothing left. -/
def Exhausted (s : State) (tlh classIdx : Nat) : Prop :=
  (s.bins tlh classIdx).currentSlab ≠ 0 →
    (s.slab (s.bins tlh classIdx).currentSlab).freeListHead = 0 ∧
      (s.slab (s.bins tlh classIdx).currentSlab).bumpPtr = 0

theorem exhausted_full (core : Core mode s g) (exhausted : Exhausted s tlh classIdx)
    (isSlab : g.kind chunk = .slab tlh classIdx) (current : g.bin chunk = .inCurrent) :
    (s.slab (chunk + 64)).usedObjects = (s.slab (chunk + 64)).maxObjects ∧
      (s.slab (chunk + 64)).bumpPtr = 0 := by
  have position := (core_current core isSlab).mp current
  have nothing := exhausted (by omega)
  rw [position] at nothing
  have ok := core.slabs chunk tlh classIdx isSlab
  have bumped : bumpedCount (s.slab (chunk + 64)) = (s.slab (chunk + 64)).maxObjects := by
    simp [bumpedCount, nothing.2]
  have chain := ok.freeList
  rw [nothing.1, bumped] at chain
  have none := (enumerates_null chain).1
  have used := ok.used
  exact ⟨by omega, nothing.2⟩

theorem filled_retired (inv : Inv mode s g) (exhausted : Exhausted s tlh classIdx) (other : Nat) :
    FilledAt s.slab { g with bin := retired g.kind g.bin tlh classIdx } other := by
  by_cases current : g.kind other = .slab tlh classIdx ∧ g.bin other = .inCurrent
  · intro heap size isSlab
    have full := exhausted_full inv.toCore exhausted current.1 current.2
    refine ⟨fun _ => full, fun inPartial => ?_⟩
    simp [retired, current] at inPartial
  · exact filled_at_other (inv.filled other) rfl (if_neg current) rfl

/-- A slab on the partial list always has a free block. -/
theorem partial_has_free (inv : Inv mode s g) (isSlab : g.kind chunk = .slab tlh classIdx)
    (there : g.bin chunk = .inPartial) : (s.slab (chunk + 64)).freeListHead ≠ 0 := by
  obtain ⟨_, below, exhausted⟩ := (inv.filled chunk tlh classIdx isSlab).2 there
  have chain := (inv.slabs chunk tlh classIdx isSlab).freeList
  intro null
  rw [null] at chain
  have none := (enumerates_null chain).1
  simp only [bumpedCount, exhausted, if_true] at none
  omega

theorem inv_promote (inv : Inv mode s g) (exhausted : Exhausted s tlh classIdx)
    (available : (s.bins tlh classIdx).partialList ≠ 0) :
    ∃ chunk bin, ((promotePartial (retireCurrent s tlh classIdx) tlh classIdx).bins tlh
        classIdx).currentSlab = chunk + 64 ∧ g.kind chunk = .slab tlh classIdx ∧
      bin chunk = .inCurrent ∧ ((promotePartial (retireCurrent s tlh classIdx) tlh classIdx).slab
        (chunk + 64)).freeListHead ≠ 0 ∧
      Inv mode (promotePartial (retireCurrent s tlh classIdx) tlh classIdx)
        { g with bin := bin } := by
  obtain ⟨chunk, head, isSlab, there⟩ := core_partial_slab inv.toCore available
  have free := partial_has_free inv isSlab there
  obtain ⟨lists, others⟩ := retire_current_lists inv.lists inv.current tlh classIdx
  have stays : retired g.kind g.bin tlh classIdx chunk = .inPartial := by
    simp [retired, there]
  have headAfter : ((retireCurrent s tlh classIdx).bins tlh classIdx).partialList = chunk + 64 := by
    by_cases present : (s.bins tlh classIdx).currentSlab = 0
    · simpa [retireCurrent, present] using head
    · rw [retire_current_eq present]
      have same := bin_head_put s.bins tlh classIdx .inFull (s.bins tlh classIdx).currentSlab tlh
        classIdx .inPartial
      rw [if_neg (by simp)] at same
      exact same.trans head
  obtain ⟨promotedLists, promotedCurrent⟩ :=
    promote_partial_lists lists others retired_vacant isSlab stays headAfter
  refine ⟨chunk, Function.update (retired g.kind g.bin tlh classIdx) chunk .inCurrent, ?_, isSlab,
    by simp, ?_, ?_⟩
  · rw [promote_partial_eq, headAfter]
    have same := bin_head_put (putHead (retireCurrent s tlh classIdx).bins tlh classIdx .inPartial
      ((retireCurrent s tlh classIdx).slabLinks.next (chunk + 64))) tlh classIdx .inCurrent
      (chunk + 64) tlh classIdx .inCurrent
    rw [if_pos ⟨rfl, rfl, rfl⟩] at same
    exact same
  · rw [promote_partial_eq, retire_current_only]
    exact free
  · rw [promote_partial_eq] at promotedLists promotedCurrent ⊢
    rw [retire_current_only]
    refine { core_lists inv.toCore promotedLists promotedCurrent with filled := fun other => ?_ }
    by_cases same : other = chunk
    · exact filled_at_current (by simp [same])
    · exact filled_at_other (filled_retired inv exhausted other) rfl
        (Function.update_of_ne same _ _) rfl

/-! ## Taking a block from the current slab -/

theorem inv_pop_current (inv : Inv mode s g) (isSlab : g.kind chunk = .slab tlh classIdx)
    (current : g.bin chunk = .inCurrent) (nonempty : (s.slab (chunk + 64)).freeListHead ≠ 0) :
    ∃ last, Inv mode (popFreeBlock s (chunk + 64)).2 last ∧
      Allocated g last (popFreeBlock s (chunk + 64)).1 (.slab classIdx) ∧
      Course s.slab g (popFreeBlock s (chunk + 64)).2.slab last := by
  obtain ⟨⟨_, free⟩, core⟩ := core_pop_free inv.toCore isSlab nonempty
  refine ⟨_, { core with filled := fun other => ?_ },
    allocate_allocated (by simp [free, NodePlace.InUse]), course_update _ isSlab rfl rfl⟩
  by_cases same : other = chunk
  · exact filled_at_current (same ▸ current)
  · exact filled_at_other (inv.filled other) rfl rfl (Function.update_of_ne (by omega) _ _)

theorem inv_bump_current (inv : Inv mode s g) (isSlab : g.kind chunk = .slab tlh classIdx)
    (current : g.bin chunk = .inCurrent) (active : (s.slab (chunk + 64)).bumpPtr ≠ 0)
    (room : (s.slab (chunk + 64)).bumpPtr + (s.slab (chunk + 64)).blockSize ≤
      (s.slab (chunk + 64)).memoryEnd) :
    ∃ last, Inv mode (bumpBlock s (chunk + 64)).2 last ∧
      Allocated g last (bumpBlock s (chunk + 64)).1 (.slab classIdx) ∧
      Course s.slab g (bumpBlock s (chunk + 64)).2.slab last := by
  obtain ⟨⟨_, unborn⟩, core⟩ := core_bump inv.toCore isSlab active room
  have result : (bumpBlock s (chunk + 64)).1 = (s.slab (chunk + 64)).bumpPtr := by
    simp only [bumpBlock, if_pos room]
  have counted : Course s.slab g (bumpBlock s (chunk + 64)).2.slab
      (g.allocate (s.slab (chunk + 64)).bumpPtr (.slab classIdx)) := by
    simp only [bumpBlock, if_pos room]
    exact course_update _ isSlab rfl rfl
  rw [result]
  refine ⟨_, { core with filled := fun other => ?_ },
    allocate_allocated (by simp [unborn, NodePlace.InUse]), counted⟩
  by_cases same : other = chunk
  · exact filled_at_current (same ▸ current)
  · refine filled_at_other (inv.filled other) rfl rfl ?_
    simp only [bumpBlock, if_pos room]
    exact Function.update_of_ne (by omega) _ _

/-- The two attempts of `lz_tlh_alloc` on the slab that is current. -/
def tryCurrent (s : State) (tlh scIdx : Nat) : Nat × State :=
  let slab := (s.bins tlh scIdx).currentSlab
  if slab ≠ 0 ∧ (s.slab slab).freeListHead ≠ 0 then popFreeBlock s slab
  else if slab ≠ 0 ∧ (s.slab slab).bumpPtr ≠ 0 then bumpBlock s slab
  else (0, s)

theorem inv_try_current (inv : Inv mode s g) (tlh classIdx : Nat) :
    ((tryCurrent s tlh classIdx).1 = 0 ∧ Inv mode (tryCurrent s tlh classIdx).2 g ∧
        Course s.slab g (tryCurrent s tlh classIdx).2.slab g ∧
        Exhausted (tryCurrent s tlh classIdx).2 tlh classIdx) ∨
      ((tryCurrent s tlh classIdx).1 ≠ 0 ∧ ∃ last, Inv mode (tryCurrent s tlh classIdx).2 last ∧
        Allocated g last (tryCurrent s tlh classIdx).1 (.slab classIdx) ∧
        Course s.slab g (tryCurrent s tlh classIdx).2.slab last) := by
  unfold tryCurrent
  simp only
  by_cases present : (s.bins tlh classIdx).currentSlab = 0
  · rw [if_neg (by simp [present]), if_neg (by simp [present])]
    exact Or.inl ⟨rfl, inv, course_same rfl rfl, fun nonnull => absurd present nonnull⟩
  · obtain ⟨chunk, position, isSlab, current⟩ := core_current_slab inv.toCore present
    rw [position]
    by_cases listed : (s.slab (chunk + 64)).freeListHead = 0
    · rw [if_neg (by simp [listed])]
      by_cases retiredBump : (s.slab (chunk + 64)).bumpPtr = 0
      · rw [if_neg (by simp [retiredBump])]
        refine Or.inl ⟨rfl, inv, course_same rfl rfl, fun _ => ?_⟩
        rw [position]
        exact ⟨listed, retiredBump⟩
      · rw [if_pos ⟨by omega, retiredBump⟩]
        by_cases room : (s.slab (chunk + 64)).bumpPtr + (s.slab (chunk + 64)).blockSize ≤
            (s.slab (chunk + 64)).memoryEnd
        · right
          refine ⟨?_, inv_bump_current inv isSlab current retiredBump room⟩
          simpa only [bumpBlock, if_pos room] using retiredBump
        · left
          simp only [bumpBlock, if_neg room]
          refine ⟨trivial, { core_exhaust inv.toCore isSlab retiredBump room with
            filled := fun other => ?_ }, course_update _ isSlab rfl rfl, fun _ => ?_⟩
          · by_cases same : other = chunk
            · exact filled_at_current (same ▸ current)
            · exact filled_at_other (inv.filled other) rfl rfl
                (Function.update_of_ne (by omega) _ _)
          · simp only [setSlab, position, Function.update_self]
            exact ⟨listed, trivial⟩
    · rw [if_pos ⟨by omega, listed⟩]
      exact Or.inr ⟨listed, inv_pop_current inv isSlab current listed⟩

/-! ## The slow path as a whole -/

theorem inv_same_holders {roles : Nat → BlockKind} {after : State}
    (core : Core mode after { g with kind := roles }) (same : SameHolders g.kind roles)
    (slabs : after.slab = s.slab) (filled : ∀ other, FilledAt s.slab g other) :
    Inv mode after { g with kind := roles } := by
  refine { core with filled := fun other tlh classIdx isSlab => ?_ }
  rw [slabs]
  exact filled other tlh classIdx ((same_slab same).mp isSlab)

theorem inv_install (inv : Inv mode s g) (loose : g.kind chunk = .loose) (heap : tlh ∈ s.heaps)
    (classBound : classIdx < 40) (exhausted : Exhausted s tlh classIdx) :
    ∃ last, Inv mode (installSlab s tlh classIdx chunk) last ∧ Quiet g last ∧
      Course s.slab g (installSlab s tlh classIdx chunk).slab last ∧
      last.kind chunk = .slab tlh classIdx ∧ last.bin chunk = .inCurrent := by
  have core := core_install inv.toCore loose heap classBound
  have empty : ∀ ptr, chunkBase ptr = chunk → ¬(g.node ptr).InUse := by
    intro ptr inside used
    have present : g.node ptr ≠ .none := by
      intro none
      simp [none, NodePlace.InUse] at used
    have holds := inv.objects.scope ptr present
    rw [inside, loose] at holds
    exact holds
  have others : ∀ base, base ≠ chunk →
      (installSlab s tlh classIdx chunk).slab (base + 64) = s.slab (base + 64) := by
    intro base different
    rw [install_slab_eq]
    exact Function.update_of_ne (by omega) _ _
  refine ⟨_, { core with filled := fun other => ?_ }, quiet_set_role empty,
    ⟨⟨rfl, fun base dropped => ?_⟩,
      fun clear base other => ?_⟩, by simp [setRole], by simp [setRole]⟩
  rotate_left
  · by_cases same : base = chunk
    · simp [same, setRole] at dropped
    · simpa [setRole, same] using dropped
  · have different : base ≠ chunk := by
      rintro rfl
      exact other tlh classIdx (by simp [setRole])
    rw [others base different]
    exact clear base (by simpa [setRole, different] using other)
  by_cases same : other = chunk
  · exact filled_at_current (by simp [same, setRole])
  · exact filled_at_other (filled_retired inv exhausted other) (by simp [setRole, same])
      (by simp [setRole, same]) (others other same)

theorem cleared_same_holders {slab : Nat → Slab} {kind roles : Nat → BlockKind}
    (same : SameHolders kind roles) (clear : Cleared slab kind) : Cleared slab roles := by
  intro base other
  refine clear base fun heap size isSlab => other heap size ?_
  exact (same_slab same).mpr isSlab

theorem course_failed {slab : Nat → Slab} {roles : Nat → BlockKind}
    (same : SameHolders g.kind roles)
    (onlyLoose : LooseOnly g.kind roles fun base => base ≠ 0 ∧ base = chunk) (failed : chunk = 0) :
    Course slab g slab { g with kind := roles } := by
  refine ⟨⟨rfl, fun base dropped => (onlyLoose base dropped).resolve_left ?_⟩,
    cleared_same_holders same⟩
  rintro ⟨nonnull, rfl⟩
  exact nonnull failed

theorem course_formatted {slab descriptors : Nat → Slab} {roles : Nat → BlockKind} {last : Ghost}
    (same : SameHolders g.kind roles)
    (onlyLoose : LooseOnly g.kind roles fun base => base ≠ 0 ∧ base = chunk)
    (course : Course slab { g with kind := roles } descriptors last)
    (formatted : last.kind chunk ≠ .loose) : Course slab g descriptors last := by
  refine ⟨⟨course.cursor, fun base dropped => ?_⟩,
    fun clear => course.cleared (cleared_same_holders same clear)⟩
  refine (onlyLoose base (course.loose base dropped)).resolve_left ?_
  rintro ⟨_, rfl⟩
  exact formatted dropped

/-- `lz_tlh_alloc_slow` on an exhausted bin: a block, or `NULL` when no chunk
could be had. -/
theorem inv_alloc_slow (inv : Inv mode s g) (heap : tlh ∈ s.heaps) (classBound : classIdx < 40)
    (exhausted : Exhausted s tlh classIdx) :
    ∃ last, Inv mode (lzTlhAllocSlow s tlh classIdx).2 last ∧
      Course s.slab g (lzTlhAllocSlow s tlh classIdx).2.slab last ∧
      (((lzTlhAllocSlow s tlh classIdx).1 = 0 ∧ Quiet g last) ∨
        ((lzTlhAllocSlow s tlh classIdx).1 ≠ 0 ∧
          Allocated g last (lzTlhAllocSlow s tlh classIdx).1 (.slab classIdx))) := by
  unfold lzTlhAllocSlow
  by_cases available : (s.bins tlh classIdx).partialList ≠ 0
  · rw [if_pos available]
    obtain ⟨chunk, bin, position, isSlab, current, free, promoted⟩ :=
      inv_promote inv exhausted available
    obtain ⟨last, popped, allocated, course⟩ := inv_pop_current promoted isSlab current free
    have slabs : (promotePartial (retireCurrent s tlh classIdx) tlh classIdx).slab = s.slab := by
      rw [promote_partial_eq, retire_current_only]
    have kept : Course s.slab g (promotePartial (retireCurrent s tlh classIdx) tlh classIdx).slab
        { g with bin := bin } := by
      rw [slabs]
      exact course_same rfl rfl
    have quiet : Quiet g { g with bin := bin } := quiet_of_node rfl rfl
    simp only [position]
    exact ⟨last, popped, course_trans kept course,
      Or.inr ⟨free, quiet_allocated quiet allocated⟩⟩
  · rw [if_neg available]
    obtain ⟨only, roles, same, onlyLoose, core, loose⟩ := core_vmm_alloc inv.toCore
    obtain ⟨chunk, chunkEq⟩ : ∃ chunk, (lzVmmAllocChunk s).1 = chunk := ⟨_, rfl⟩
    obtain ⟨after, afterEq⟩ : ∃ after, (lzVmmAllocChunk s).2 = after := ⟨_, rfl⟩
    unfold lzSlabCreate
    rw [chunkEq] at loose onlyLoose
    rw [afterEq] at only core
    simp only [chunkEq, afterEq]
    have slabs : after.slab = s.slab := by rw [only]
    have ready : Inv mode after { g with kind := roles } :=
      inv_same_holders core same slabs inv.filled
    by_cases failed : chunk = 0
    · have course : Course s.slab g after.slab { g with kind := roles } := by
        rw [slabs]
        exact course_failed same onlyLoose failed
      simp only [if_pos failed]
      exact ⟨_, ready, course, Or.inl ⟨rfl, quiet_of_node rfl rfl⟩⟩
    · simp only [if_neg failed]
      rw [if_neg (by simp only [lzCacheLineSize]; omega)]
      have still : Exhausted after tlh classIdx := by
        unfold Exhausted at exhausted ⊢
        rw [only]
        exact exhausted
      obtain ⟨fresh, installed, quiet, course, isSlab, current⟩ := inv_install ready (loose failed)
        (by rw [only]; exact heap) classBound still
      obtain ⟨aligned, _, bound⟩ := core.geom.placed chunk (by simp [loose failed])
      have descriptor : (installSlab after tlh classIdx chunk).slab (chunk + 64) =
          freshSlab chunk classIdx := by
        rw [install_slab_eq]
        exact Function.update_self _ _ _
      obtain ⟨active, room⟩ := fresh_slab_room aligned bound classBound
      rw [← descriptor] at active room
      obtain ⟨last, bumped, allocated, lastCourse⟩ :=
        inv_bump_current installed isSlab current active room
      have before : Quiet g { g with kind := roles } := quiet_of_node rfl rfl
      rw [slabs] at course
      have formatted := course_formatted same onlyLoose course (by simp [isSlab])
      simp only [bumpBlock, if_pos room] at bumped allocated lastCourse
      exact ⟨last, bumped, course_trans formatted lastCourse,
        Or.inr ⟨active, quiet_allocated (quiet_trans before quiet) allocated⟩⟩

end Lzmalloc.SlabAllocation
