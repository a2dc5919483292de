import Lzmalloc.ConcreteView
import Lzmalloc.EngineRuns
import Mathlib.Data.Set.Card

/-!
# Bins and slabs in every reachable state

What a heap's bins and the slabs in them look like after any run of the heap
engine, in terms of the state alone.
-/

namespace Lzmalloc.SlabContracts

open SizeClasses HeapState PointerChain DoublyLinked ThreadHeap StepSystem HeapInvariant
open InvariantFacts SlabBlocks BinLists SlabAllocation HeapOperations ConcreteView EngineRuns

set_option autoImplicit false

variable {mode : Mode} {s : State} {sys : EngineSys} {g : Ghost} {tlh classIdx chunk slab : Nat}

def generousEnv : Env where
  regionMmap := fun call => some (2 ^ 32 + call * 2 ^ 30)
  leafMmap := fun _ => true
  tlhMmap := fun call => some (4096 * (call + 1))
  node := fun _ => 0

/-! ## Bins -/

/-- Class `classIdx` of heap `tlh`: the slabs on its two lists and the current
one are exactly the slabs the heap owns, each in one place, and the counters of
a slab fit its place. -/
structure BinOk (s : State) (tlh classIdx : Nat) (partials fulls : List Nat) : Prop where
  partialLinked : WellLinked s.slabLinks (s.bins tlh classIdx).partialList partials
  fullLinked : WellLinked s.slabLinks (s.bins tlh classIdx).fullList fulls
  placed : ∀ slab, OwnsSlab s tlh classIdx slab ↔ slab ≠ 0 ∧
    ExactlyOne (slab = (s.bins tlh classIdx).currentSlab) (slab ∈ partials) (slab ∈ fulls)
  currentUnlinked : (s.bins tlh classIdx).currentSlab ≠ 0 →
    s.slabLinks.next (s.bins tlh classIdx).currentSlab = 0 ∧
      s.slabLinks.prev (s.bins tlh classIdx).currentSlab = 0
  full : ∀ slab ∈ fulls, (s.slab slab).usedObjects = (s.slab slab).maxObjects ∧
    (s.slab slab).freeListHead = 0
  inPartial : ∀ slab ∈ partials, 1 ≤ (s.slab slab).usedObjects ∧
    (s.slab slab).usedObjects ≤ (s.slab slab).maxObjects - 1 ∧ (s.slab slab).freeListHead ≠ 0 ∧
    ((s.slab slab).bumpPtr = 0 ∨
      (s.slab slab).memoryEnd < (s.slab slab).bumpPtr + (s.slab slab).blockSize)
  empty : ∀ slab, OwnsSlab s tlh classIdx slab → (s.slab slab).usedObjects = 0 →
    slab = (s.bins tlh classIdx).currentSlab

theorem full_slab_counters (inv : Inv mode s g)
    (isSlab : g.kind chunk = .slab tlh classIdx) (full : g.bin chunk = .inFull) :
    (s.slab (chunk + 64)).usedObjects = (s.slab (chunk + 64)).maxObjects ∧
      (s.slab (chunk + 64)).freeListHead = 0 := by
  obtain ⟨used, exhausted⟩ := (inv.filled chunk tlh classIdx isSlab).1 full
  have chain := (inv.slabs chunk tlh classIdx isSlab).freeList
  have none : bumpedCount (s.slab (chunk + 64)) -
      (s.slab (chunk + 64)).usedObjects = 0 := by
    simp [bumpedCount, exhausted, used]
  rw [none] at chain
  exact ⟨used, (enumerates_zero chain).1⟩

theorem bin_ok (inv : Inv mode s g) (settled : ∀ chunk, g.kind chunk ≠ .loose)
    (tlh classIdx : Nat) :
    ∃ partials fulls, BinOk s tlh classIdx partials fulls := by
  obtain ⟨partials, partialLinked, partialMem⟩ := inv.lists tlh classIdx .inPartial (by simp)
  obtain ⟨fulls, fullLinked, fullMem⟩ := inv.lists tlh classIdx .inFull (by simp)
  have current := inv.current tlh classIdx
  have owns : ∀ chunk, OwnsSlab s tlh classIdx (chunk + 64) ↔
      g.kind chunk = .slab tlh classIdx := fun chunk => owns_slab_iff inv.toCore settled
  -- The place of a slab decides which of the three pointers leads to it.
  have places : ∀ chunk, g.kind chunk = .slab tlh classIdx →
      ((chunk + 64 = (s.bins tlh classIdx).currentSlab ↔ g.bin chunk = .inCurrent) ∧
        (chunk + 64 ∈ partials ↔ g.bin chunk = .inPartial) ∧
        (chunk + 64 ∈ fulls ↔ g.bin chunk = .inFull)) := by
    intro chunk isSlab
    refine ⟨?_, ?_, ?_⟩
    · rw [eq_comm]
      exact (core_current inv.toCore isSlab).symm
    · rw [partialMem, in_bin_descriptor]
      simp [isSlab]
    · rw [fullMem, in_bin_descriptor]
      simp [isSlab]
  refine ⟨partials, fulls, partialLinked, fullLinked, fun slab => ⟨fun owned => ?_, ?_⟩,
    fun present => ?_,
    fun slab member => ?_, fun slab member => ?_, fun slab owned unused => ?_⟩
  · obtain ⟨chunk, rfl⟩ := owns_slab_position owned
    obtain ⟨inCurrent, inPartial, inFull⟩ := places chunk ((owns chunk).mp owned)
    refine ⟨by omega, ?_⟩
    rw [inCurrent, inPartial, inFull]
    cases g.bin chunk <;> simp [ExactlyOne]
  · rintro ⟨nonnull, ⟨rfl, _⟩ | ⟨_, there, _⟩ | ⟨_, _, there⟩⟩
    · obtain ⟨chunk, position, isSlab, _⟩ := core_current_slab inv.toCore nonnull
      rw [position]
      exact (owns chunk).mpr isSlab
    · obtain ⟨chunk, rfl, isSlab, _⟩ := (partialMem slab).mp there
      exact (owns chunk).mpr isSlab
    · obtain ⟨chunk, rfl, isSlab, _⟩ := (fullMem slab).mp there
      exact (owns chunk).mpr isSlab
  · exact current.unlinked _ ((current.current _).mpr ⟨present, rfl⟩)
  · obtain ⟨chunk, rfl, isSlab, there⟩ := (fullMem slab).mp member
    exact full_slab_counters inv isSlab there
  · obtain ⟨chunk, rfl, isSlab, there⟩ := (partialMem slab).mp member
    obtain ⟨some, below, exhausted⟩ := (inv.filled chunk tlh classIdx isSlab).2 there
    exact ⟨some, by omega, partial_has_free inv isSlab there, Or.inl exhausted⟩
  · obtain ⟨chunk, rfl⟩ := owns_slab_position owned
    have isSlab := (owns chunk).mp owned
    have ok := inv.slabs chunk tlh classIdx isSlab
    have capacity := (slab_capacity ok.classBound).1
    have max := ok.maxObjects
    rw [(places chunk isSlab).1]
    cases there : g.bin chunk with
    | inCurrent => rfl
    | inPartial =>
        have some := ((inv.filled chunk tlh classIdx isSlab).2 there).1
        omega
    | inFull =>
        have some := ((inv.filled chunk tlh classIdx isSlab).1 there).1
        omega

/-- In every reachable state the bins of every heap are well formed, and
whenever an allocation reaches the slow path with a partial slab, that slab has
a free block. -/
theorem bins_well_formed {env : Env} {secret : BitVec 64} {telemetry : Bool}
    {acts : List EngineAct}
    (ran : run engineStep (engineStart env secret telemetry) acts = some sys) (tlh classIdx : Nat) :
    (∃ partials fulls, BinOk sys.state tlh classIdx partials fulls) ∧
      ∀ after, lzTlhAllocAttempt sys.state tlh classIdx = (0, after) →
        (after.bins tlh classIdx).partialList ≠ 0 →
          (after.slab (after.bins tlh classIdx).partialList).freeListHead ≠ 0 := by
  obtain ⟨g, ok⟩ := engine_run_ok ran
  refine ⟨bin_ok ok.inv ok.settled tlh classIdx, fun after attempted available => ?_⟩
  rcases inv_alloc_attempt ok.inv (ok.cursor tlh) classIdx with ⟨_, last, inv, _⟩ | ⟨got, _⟩
  · rw [attempted] at inv
    obtain ⟨chunk, position, isSlab, there⟩ := core_partial_slab inv.toCore available
    rw [position]
    exact partial_has_free inv isSlab there
  · rw [attempted] at got
    exact absurd rfl got

/-- Two slabs are filled and a third is begun, then the first gets a block back. -/
def crowdedRun : List EngineAct :=
  .init 4096 0 :: List.replicate 127 (.alloc 4096 32768) ++ [.free 4096 4359979136]

theorem bins_well_formed_crowded :
    ∃ sys partials fulls, run engineStep (engineStart generousEnv 7 true) crowdedRun = some sys ∧
      BinOk sys.state 4096 39 partials fulls ∧ (sys.state.bins 4096 39).partialList = 4359979072 ∧
      (sys.state.bins 4096 39).fullList = 4357881920 := by
  have facts : (run engineStep (engineStart generousEnv 7 true) crowdedRun).map (fun sys =>
      ((sys.state.bins 4096 39).partialList, (sys.state.bins 4096 39).fullList)) =
        some (4359979072, 4357881920) := by decide +kernel
  obtain ⟨sys, ran, values⟩ := Option.map_eq_some_iff.mp facts
  obtain ⟨partialHead, fullHead⟩ := Prod.mk.inj values
  obtain ⟨⟨partials, fulls, ok⟩, _⟩ := bins_well_formed ran 4096 39
  exact ⟨sys, partials, fulls, ran, ok, partialHead, fullHead⟩

/-! ## Slabs -/

def blockAt (slab : Slab) (index : Nat) : Nat := slab.memoryBase + index * slab.blockSize

/-- `blocks` is the decoded free list of the slab in `chunk`, and together with
the live and the travelling blocks it makes up all bumped blocks. -/
structure SlabRepresented (sys : EngineSys) (chunk : Nat) (slab : Slab) (blocks : List Nat) :
    Prop where
  decoded : Segment (freeLink sys.state.secret sys.state.mem) slab.freeListHead blocks 0
  nodup : blocks.Nodup
  bumped : ∀ block ∈ blocks, ∃ index < bumpedCount slab, block = blockAt slab index
  once : ∀ index < bumpedCount slab, ExactlyOne (sys.live (blockAt slab index) = true)
    (Travelling sys.state (blockAt slab index)) (blockAt slab index ∈ blocks)
  inUse : ∀ ptr, chunkBase ptr = chunk → sys.live ptr = true ∨ Travelling sys.state ptr →
    ∃ index < bumpedCount slab, ptr = blockAt slab index
  used : slab.usedObjects = Set.ncard { index | index < bumpedCount slab ∧
    (sys.live (blockAt slab index) = true ∨ Travelling sys.state (blockAt slab index)) }
  usedBound : slab.usedObjects ≤ slab.maxObjects
  frontier : bumpedCount slab ≤ slab.maxObjects
  inside : ∀ index < slab.maxObjects, blockAt slab index + slab.blockSize ≤ slab.memoryEnd

/-- In every reachable state every slab is represented by its free list, its
live blocks and its travelling blocks, whatever the secret is. -/
theorem slab_representation {env : Env} {secret : BitVec 64} {telemetry : Bool}
    {acts : List EngineAct}
    (ran : run engineStep (engineStart env secret telemetry) acts = some sys)
    (formatted : OwnsSlab sys.state tlh classIdx (chunk + 64)) :
    ∃ blocks, SlabRepresented sys chunk (sys.state.slab (chunk + 64)) blocks := by
  obtain ⟨g, ok⟩ := engine_run_ok ran
  have isSlab := (owns_slab_iff ok.inv.toCore ok.settled).mp formatted
  have slabOk := ok.inv.slabs chunk tlh classIdx isSlab
  obtain ⟨blocks, decoded, nodup, exact, length⟩ := slabOk.freeList
  obtain ⟨aligned, _, _⟩ := ok.inv.geom.placed chunk (by simp [isSlab])
  generalize slabEq : sys.state.slab (chunk + 64) = slab at slabOk decoded length ⊢
  have position : ∀ index, blockAt slab index = chunk + 128 + index * lzClassToSize classIdx := by
    intro index
    rw [blockAt, slabOk.base, slabOk.blockSize]
  have capacity := slabOk.maxObjects
  have frontier := slabOk.bumpBound
  have fits : ∀ index < slab.maxObjects, blockAt slab index + slab.blockSize ≤ slab.memoryEnd := by
    intro index bound
    have inside := slab_block_inside slabOk.classBound (le_refl _) (by rwa [← capacity])
    rw [position, slabOk.blockSize, slabOk.finish]
    omega
  have base : ∀ index < bumpedCount slab, chunkBase (blockAt slab index) = chunk := by
    intro index bound
    rw [position]
    exact slab_block_base slabOk aligned bound
  have live : ∀ ptr, sys.live ptr = true ↔ g.node ptr = .live := fun ptr => (ok.live ptr).symm
  have travelling : ∀ ptr, Travelling sys.state ptr ↔ (g.node ptr).InFlight := fun ptr =>
    travelling_iff ok.inv.toCore ok.cursor
  have listed : ∀ index < bumpedCount slab,
      (blockAt slab index ∈ blocks ↔ g.node (blockAt slab index) = .free) := by
    intro index bound
    rw [exact]
    exact and_iff_right (base index bound)
  have present : ∀ index < bumpedCount slab, g.node (blockAt slab index) ≠ .none := by
    intro index bound
    exact (slabOk.blocks _ (base index bound)).mpr ⟨index, bound, position index⟩
  have inBlocks : ∀ block ∈ blocks, ∃ index < bumpedCount slab, block = blockAt slab index := by
    intro block there
    obtain ⟨inside, free⟩ := (exact block).mp there
    obtain ⟨index, bound, place⟩ := (slabOk.blocks block inside).mp (by simp [free])
    exact ⟨index, bound, by rw [position]; exact place⟩
  have once : ∀ index < bumpedCount slab, ExactlyOne (sys.live (blockAt slab index) = true)
      (Travelling sys.state (blockAt slab index)) (blockAt slab index ∈ blocks) := by
    intro index bound
    rw [live, travelling, listed index bound]
    have known := present index bound
    have kept := ok.inv.objects.noLeaks trivial (blockAt slab index)
    cases place : g.node (blockAt slab index) <;> simp_all [ExactlyOne, NodePlace.InFlight]
  refine ⟨blocks, decoded, nodup, inBlocks, once, fun ptr inside used => ?_, ?_, ?_, frontier, fits⟩
  · have there : g.node ptr ≠ .none := by
      intro absent
      rw [live, travelling, absent] at used
      simp [NodePlace.InFlight] at used
    obtain ⟨index, bound, place⟩ := (slabOk.blocks ptr inside).mp there
    exact ⟨index, bound, by rw [position]; exact place⟩
  · rw [slab_used_count slabOk aligned]
    congr 1
    ext index
    refine and_congr_right fun bound => ?_
    rw [← position, Ne, ← listed index bound]
    rcases once index bound with ⟨isLive, _, off⟩ | ⟨_, flies, off⟩ | ⟨notLive, grounded, on⟩
    · exact iff_of_true off (Or.inl isLive)
    · exact iff_of_true off (Or.inr flies)
    · exact iff_of_false (fun off => off on) fun either => either.elim notLive grounded
  · have used := slabOk.used
    omega

/-- Of three blocks of heap 4096 heap 8192 frees the first, heap 4096 the second. -/
def remoteFreeRun : List EngineAct :=
  [.init 4096 0, .init 8192 1, .alloc 4096 24, .alloc 4096 24, .alloc 4096 24,
    .free 8192 4359979136, .free 4096 4359979168]

theorem slab_representation_remote_free :
    ∃ sys, run engineStep (engineStart generousEnv 7 true) remoteFreeRun = some sys ∧
      OwnsSlab sys.state 4096 1 (4359979008 + 64) ∧
      (sys.state.outgoingBatch 8192).head = 4359979136 ∧
      (sys.state.slab (4359979008 + 64)).freeListHead = 4359979168 ∧
      sys.live 4359979200 = true ∧
      ∃ blocks, SlabRepresented sys 4359979008 (sys.state.slab (4359979008 + 64)) blocks := by
  have facts : (run engineStep (engineStart generousEnv 7 true) remoteFreeRun).map (fun sys =>
      ((sys.state.bins 4096 1).currentSlab, (sys.state.outgoingBatch 8192).head,
        (sys.state.slab (4359979008 + 64)).freeListHead, sys.live 4359979200)) =
      some (4359979072, 4359979136, 4359979168, true) := by decide +kernel
  obtain ⟨sys, ran, values⟩ := Option.map_eq_some_iff.mp facts
  simp only [Prod.mk.injEq] at values
  obtain ⟨position, travels, listed, live⟩ := values
  obtain ⟨g, ok⟩ := engine_run_ok ran
  obtain ⟨chunk, place, isSlab, _⟩ := core_current_slab ok.inv.toCore (by rw [position]; omega)
  obtain rfl : chunk = 4359979008 := by omega
  have owned := (owns_slab_iff ok.inv.toCore ok.settled).mpr isSlab
  exact ⟨sys, ran, owned, travels, listed, live, slab_representation ran owned⟩

end Lzmalloc.SlabContracts
