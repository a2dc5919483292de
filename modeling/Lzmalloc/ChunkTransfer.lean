import Lzmalloc.ChunkRoles

/-!
# Chunk allocation and return

`lz_vmm_alloc_chunk` hands out a chunk that no list of the manager holds any
more, or nothing and leaves the lists as they were; `lz_vmm_free_chunk` and the
purge put chunks back. Only the manager, the operating system and the bytes of
idle chunks are touched.
-/

namespace Lzmalloc.ChunkTransfer

open SizeClasses HeapState VirtualMemoryManager PointerChain ByteMemory HeapInvariant InvariantFacts
open ChunkCaches RadixTree Mappings ChunkRoles

set_option autoImplicit false

variable {mode : Mode} {s after : State} {g : Ghost} {chunk : Nat}

/-- Two states that differ only in what the manager and the operating system
own. -/
def OnlyManager (s after : State) : Prop :=
  after =
    { s with
      regionCalls := after.regionCalls
      nodeCalls := after.nodeCalls
      regions := after.regions
      mem := after.mem
      vmm := after.vmm }

theorem only_manager_refl (s : State) : OnlyManager s s := rfl

theorem only_manager_trans {last : State} (first : OnlyManager s after)
    (second : OnlyManager after last) : OnlyManager s last := by
  unfold OnlyManager at *
  rw [second, first]

theorem only_manager_with (s : State) (vmm : Vmm) (mem : Memory) :
    OnlyManager s { s with vmm := vmm, mem := mem } := rfl

/-! ## Return -/

theorem core_deflate (core : Core mode s g) (empty : ¬(g.kind chunk).HoldsObjects)
    (aligned : chunk % 2097152 = 0) : Core mode (deflate s chunk) g := by
  refine core_mem_outside core fun address holds => fill_outside s.mem ?_
  by_contra inside
  simp only [lzPageSize, lzHugePageSize] at inside
  have base : chunkBase address = chunk := chunk_base_eq aligned (by omega) (by omega)
  rw [base] at holds
  exact empty holds

theorem lz_vmm_free_chunk_only (s : State) (chunk : Nat) :
    OnlyManager s (lzVmmFreeChunk s chunk) := by
  unfold lzVmmFreeChunk
  by_cases ignored : chunk = 0 ∨ ¬magicOk s.vmm chunk
  · rw [if_pos ignored]
    exact only_manager_refl s
  · rw [if_neg ignored]
    by_cases full : (poolPush s.vmm chunk).1 = true
    · simp only [full, if_true]
      rfl
    · simp only [full]
      rfl

/-- The guard of `lz_vmm_free_chunk` lets every chunk outside the manager pass. -/
theorem core_vmm_free (core : Core mode s g) (loose : g.kind chunk = .loose)
    (cleared : ∀ address < 2 ^ 48, chunkBase address = chunk → lzRtreeGet s.rtree address = 0) :
    ∃ place, Core mode (lzVmmFreeChunk s chunk)
      { g with kind := Function.update g.kind chunk (.idle place) } := by
  obtain ⟨aligned, positive, _⟩ := core.geom.placed chunk (by simp [loose])
  obtain ⟨magic, node⟩ := core.vmm.takenHeader chunk (by simp [loose, BlockKind.TakenOut])
  have accepted : ¬(chunk = 0 ∨ ¬magicOk s.vmm chunk) := by
    rintro (null | bad)
    · omega
    · exact bad magic
  have unlisted : (fun each => (g.kind each).cached) chunk = none := by
    simp [loose, BlockKind.cached]
  unfold lzVmmFreeChunk
  rw [if_neg accepted]
  by_cases full : (poolPush s.vmm chunk).1 = true
  · simp only [full, if_true, pool_push_full full]
    have deflated : Core mode (deflate s chunk) g :=
      core_deflate core (by simp [loose, BlockKind.HoldsObjects]) aligned
    exact ⟨.global, core_return deflated loose cleared
      (cache_inv_global_push core.vmm.caches unlisted (by omega)) rfl rfl⟩
  · have room : (poolPush s.vmm chunk).1 = false := by simpa using full
    simp only [room, Bool.false_eq_true, if_false]
    exact ⟨_, core_return core loose cleared
      (cache_inv_pool_push core.vmm.caches unlisted (by omega) magic node room) (by simp) (by simp)⟩

/-! ## Carving an extent -/

def carvedRoles (kind : Nat → BlockKind) (alignedAddr base : Nat) : BlockKind :=
  if base ∈ extentChunks alignedAddr then .idle .global else kind base

theorem core_carve {start : Nat} (core : Core mode after g)
    (maps : MapsFresh s after start 67108864)
    (unused : ∀ base ∈ extentChunks start, g.kind base = .unused) :
    SameHolders g.kind (carvedRoles g.kind start) ∧
      Core mode { after with vmm := carveExtent after.vmm start }
        { g with kind := carvedRoles g.kind start } := by
  have inside : ∀ base ∈ extentChunks start,
      base % 2097152 = 0 ∧ start ≤ base ∧ base + 2097152 ≤ start + 67108864 := by
    intro base member
    obtain ⟨index, bound, rfl⟩ := mem_extent_chunks.mp member
    have aligned := maps.aligned
    omega
  have positive := maps.positive
  have limit := maps.bound
  have same : SameHolders g.kind (carvedRoles g.kind start) := by
    intro base holds
    by_cases member : base ∈ extentChunks start
    · simp [carvedRoles, member, unused base member, BlockKind.HoldsObjects] at holds
    · simp [carvedRoles, member]
  have notDirect : ∀ base header, carvedRoles g.kind start base = .direct header →
      g.kind base = .direct header := fun base header => (same_direct same).mp
  refine ⟨same, core_kinds core same ⟨?_, ?_, ?_, core.geom.directSize, ?_, core.geom.nodup⟩
    ⟨?_, ?_, ?_⟩ ?_ ⟨?_, ?_⟩⟩
  · intro base used
    by_cases member : base ∈ extentChunks start
    · have placed := inside base member
      omega
    · simp only [carvedRoles, if_neg member] at used
      exact core.geom.placed base used
  · intro base used address lower upper
    by_cases member : base ∈ extentChunks start
    · have placed := inside base member
      exact (maps.mapped address).mpr (Or.inr ⟨by omega, by omega⟩)
    · simp only [carvedRoles, if_neg member] at used
      exact core.geom.mapped base used address lower upper
  · intro header known index bound
    exact (same_direct same).mpr (core.geom.directBlock header known index bound)
  · intro base header isDirect
    exact core.geom.directOf base header (notDirect base header isDirect)
  · have carved := cache_inv_carve start core.vmm.caches (by
      intro each member
      have placed := inside each member
      exact ⟨by simp [unused each member, BlockKind.cached], by omega⟩)
    have places : (fun each => (carvedRoles g.kind start each).cached) = fun each =>
        if each ∈ extentChunks start then some .global else (g.kind each).cached := by
      funext each
      by_cases member : each ∈ extentChunks start <;> simp [carvedRoles, member, BlockKind.cached]
    rw [places]
    exact carved
  · intro base taken
    by_cases member : base ∈ extentChunks start
    · simp [carvedRoles, member, BlockKind.TakenOut] at taken
    · simp only [carvedRoles, if_neg member] at taken
      simp only [magicOk, carve_extent_header]
      exact core.vmm.takenHeader base taken
  · intro base
    rw [carve_extent_carved, List.mem_append, core.vmm.carved base]
    by_cases member : base ∈ extentChunks start
    · simp [carvedRoles, member, BlockKind.IsChunk]
    · simp [carvedRoles, member]
  · intro base _
    rw [carve_extent_header]
  · intro address bound
    have sound := core.rtree.sound address bound
    by_cases member : chunkBase address ∈ extentChunks start
    · simpa [carvedRoles, member, unused _ member, BlockKind.header] using sound
    · simpa [carvedRoles, member] using sound
  · intro mapped address bound known
    have complete := core.rtree.complete mapped address bound
    by_cases member : chunkBase address ∈ extentChunks start
    · simpa [carvedRoles, member, unused _ member, BlockKind.header] using complete
    · simp only [carvedRoles, if_neg member] at known ⊢
      exact complete known

/-! ## Allocation -/

theorem same_holders_refl (kind : Nat → BlockKind) : SameHolders kind kind := fun _ _ => rfl

theorem same_holders_trans {kind roles last : Nat → BlockKind} (first : SameHolders kind roles)
    (second : SameHolders roles last) : SameHolders kind last := by
  intro base holds
  by_cases middle : (roles base).HoldsObjects
  · rw [second base (Or.inl middle), first base (Or.inr middle)]
  · rcases holds with before | later
    · rw [← first base (Or.inl before)] at before
      exact absurd before middle
    · rw [second base (Or.inr later)] at later
      exact absurd later middle

/-- No chunk has become loose, except those in `pending`. -/
def LooseOnly (kind roles : Nat → BlockKind) (pending : Nat → Prop) : Prop :=
  ∀ base, roles base = .loose → pending base ∨ kind base = .loose

theorem loose_only_refl (kind : Nat → BlockKind) (pending : Nat → Prop) :
    LooseOnly kind kind pending := fun _ => Or.inr

theorem core_sys_alloc_extent (core : Core mode s g) :
    OnlyManager s (sysAllocExtent s) ∧ ∃ roles, SameHolders g.kind roles ∧
      LooseOnly g.kind roles (fun _ => False) ∧
      Core mode (sysAllocExtent s) { g with kind := roles } := by
  unfold sysAllocExtent
  rcases map_extent_cases s with failed | ⟨start, after, done, maps⟩
  · rw [failed]
    exact ⟨rfl, g.kind, same_holders_refl g.kind, loose_only_refl g.kind _, { core with }⟩
  · rw [done]
    have unused : ∀ base ∈ extentChunks start, g.kind base = .unused := by
      intro base member
      obtain ⟨index, bound, rfl⟩ := mem_extent_chunks.mp member
      exact maps_fresh_unused core maps (by omega) (by omega)
    obtain ⟨same, carved⟩ := core_carve (core_maps_fresh core maps) maps unused
    refine ⟨?_, _, same, ?_, carved⟩
    · have only : OnlyManager s after := by
        unfold OnlyManager
        rw [maps.rest]
      unfold OnlyManager at only ⊢
      rw [only]
    · intro base loose
      by_cases member : base ∈ extentChunks start
      · simp [carvedRoles, member] at loose
      · exact Or.inr (by simpa [carvedRoles, member] using loose)

theorem core_global_alloc (core : Core mode s g) (node : Nat) :
    OnlyManager s (globalAlloc s).2 ∧
      (((globalAlloc s).1 = 0 ∧ ∃ roles, SameHolders g.kind roles ∧
          LooseOnly g.kind roles (fun _ => False) ∧
          Core mode (globalAlloc s).2 { g with kind := roles }) ∨
        ((globalAlloc s).1 ≠ 0 ∧ (node < 16 → ∃ roles, SameHolders g.kind roles ∧
          LooseOnly g.kind roles (fun base => base = (globalAlloc s).1) ∧
          roles (globalAlloc s).1 = .loose ∧
          Core mode
            { (globalAlloc s).2 with
              vmm := neutralize (globalAlloc s).2.vmm (globalAlloc s).1 node }
            { g with kind := roles }))) := by
  obtain ⟨refilled, refilledEq⟩ : ∃ refilled,
      (if s.vmm.globalFreeChunks = 0 then sysAllocExtent s else s) = refilled := ⟨_, rfl⟩
  have ready : OnlyManager s refilled ∧ ∃ roles, SameHolders g.kind roles ∧
      LooseOnly g.kind roles (fun _ => False) ∧ Core mode refilled { g with kind := roles } := by
    rw [← refilledEq]
    by_cases empty : s.vmm.globalFreeChunks = 0
    · rw [if_pos empty]
      exact core_sys_alloc_extent core
    · rw [if_neg empty]
      exact ⟨only_manager_refl s, g.kind, same_holders_refl g.kind, loose_only_refl g.kind _, core⟩
  obtain ⟨only, roles, same, noneLoose, refilledCore⟩ := ready
  have result : globalAlloc s = ((globalPop refilled.vmm).1,
      { refilled with vmm := (globalPop refilled.vmm).2 }) := by
    rw [← refilledEq]
    rfl
  rw [result]
  refine ⟨only_manager_trans only rfl, ?_⟩
  by_cases none : (globalPop refilled.vmm).1 = 0
  · left
    refine ⟨none, roles, same, noneLoose, ?_⟩
    have unchanged : (globalPop refilled.vmm).2 = refilled.vmm := by
      by_cases empty : refilled.vmm.globalFreeChunks = 0
      · simp [globalPop, empty]
      · simp [globalPop, empty] at none
    rw [unchanged]
    exact refilledCore
  · right
    refine ⟨none, fun bound => ?_⟩
    obtain ⟨there, caches⟩ := cache_inv_global_pop refilledCore.vmm.caches none
    have idle : roles (globalPop refilled.vmm).1 = .idle .global := by
      cases known : roles (globalPop refilled.vmm).1 <;> simp_all [BlockKind.cached]
    have taken := core_take
      (neutralize (globalPop refilled.vmm).2 (globalPop refilled.vmm).1 node) refilledCore idle
      (cache_inv_neutralize caches (by simp))
      (by simp [neutralize, magicOk, bound]) (fun base different => by
        simp [neutralize, different]) (by simp [neutralize])
    refine ⟨Function.update roles (globalPop refilled.vmm).1 .loose, ?_, ?_, by simp, taken⟩
    · exact same_holders_trans same (same_holders_update (by simp [idle, BlockKind.HoldsObjects])
        (by simp [BlockKind.HoldsObjects]))
    · intro base loose
      by_cases here : base = (globalPop refilled.vmm).1
      · exact Or.inl here
      · rw [Function.update_of_ne here] at loose
        exact Or.inr ((noneLoose base loose).resolve_left id)

/-- `lz_vmm_alloc_chunk`: the chunk handed out belongs to nobody, and no block
that holds objects has changed. -/
theorem core_vmm_alloc (core : Core mode s g) :
    OnlyManager s (lzVmmAllocChunk s).2 ∧ ∃ roles, SameHolders g.kind roles ∧
      LooseOnly g.kind roles (fun base => base ≠ 0 ∧ base = (lzVmmAllocChunk s).1) ∧
      Core mode (lzVmmAllocChunk s).2 { g with kind := roles } ∧
      ((lzVmmAllocChunk s).1 ≠ 0 → roles (lzVmmAllocChunk s).1 = .loose) := by
  have bound := lz_get_current_node_bound s
  obtain ⟨node, nodeEq⟩ : ∃ node, (lzGetCurrentNode s).1 = node := ⟨_, rfl⟩
  obtain ⟨located, locatedEq⟩ : ∃ located, (lzGetCurrentNode s).2 = located := ⟨_, rfl⟩
  have only : OnlyManager s located := by
    rw [← locatedEq]
    rfl
  have locatedCore : Core mode located g := by
    rw [← locatedEq]
    exact { core with }
  rw [nodeEq] at bound
  unfold lzVmmAllocChunk
  simp only [nodeEq, locatedEq]
  by_cases hit : (poolPop located.vmm node).1 ≠ 0
  · rw [if_pos hit]
    obtain ⟨there, caches⟩ := cache_inv_pool_pop locatedCore.vmm.caches bound hit
    obtain ⟨_, magic, nodeId⟩ := locatedCore.vmm.caches.poolHeader _ node there
    have idle : g.kind (poolPop located.vmm node).1 = .idle (.pool node) := by
      cases known : g.kind (poolPop located.vmm node).1 <;> simp_all [BlockKind.cached]
    have taken := core_take
      (clearNext (poolPop located.vmm node).2 (poolPop located.vmm node).1) locatedCore idle
      (cache_inv_clear_next caches (by simp))
      (by simpa [clearNext, magicOk, nodeId, bound] using magic)
      (fun base _ => by simp [clearNext]) (by simp [clearNext])
    refine ⟨only_manager_trans only rfl, _, ?_, ?_, taken, fun _ => by simp⟩
    · exact same_holders_update (by simp [idle, BlockKind.HoldsObjects])
        (by simp [BlockKind.HoldsObjects])
    · intro base loose
      by_cases here : base = (poolPop located.vmm node).1
      · exact Or.inl ⟨here ▸ hit, here⟩
      · rw [Function.update_of_ne here] at loose
        exact Or.inr loose
  · rw [if_neg hit]
    obtain ⟨globally, outcome⟩ := core_global_alloc locatedCore node
    rcases outcome with ⟨none, roles, same, noneLoose, failed⟩ | ⟨some, taken⟩
    · rw [if_pos none]
      exact ⟨only_manager_trans only globally, roles, same,
        fun base loose => (noneLoose base loose).imp False.elim id, failed,
        fun present => absurd none present⟩
    · rw [if_neg some]
      obtain ⟨roles, same, onlyLoose, loose, done⟩ := taken bound
      refine ⟨only_manager_trans (only_manager_trans only globally) rfl, roles, same,
        fun base isLoose => ?_, done, fun _ => loose⟩
      rcases onlyLoose base isLoose with rfl | already
      · exact Or.inl ⟨some, rfl⟩
      · exact Or.inr already

/-! ## Purge -/

def drainedRoles (kind : Nat → BlockKind) (index base : Nat) : BlockKind :=
  if kind base = .idle (.pool index) then .loose else kind base

theorem core_pool_drain {index : Nat} (core : Core mode s g) (bound : index < 16) :
    SameHolders g.kind (drainedRoles g.kind index) ∧
      Core mode { s with vmm := (poolDrain s.vmm index).2 }
        { g with kind := drainedRoles g.kind index } := by
  have apart : ∀ base, g.kind base ≠ .idle (.pool index) →
      drainedRoles g.kind index base = g.kind base := fun base other => if_neg other
  have there : ∀ base, g.kind base = .idle (.pool index) →
      drainedRoles g.kind index base = .loose := fun base pooled => if_pos pooled
  have same : SameHolders g.kind (drainedRoles g.kind index) := by
    intro base holds
    refine apart base fun pooled => ?_
    simp [there base pooled, pooled, BlockKind.HoldsObjects] at holds
  have used : ∀ base, drainedRoles g.kind index base ≠ .unused → g.kind base ≠ .unused := by
    intro base present unused
    rw [apart base (by simp [unused])] at present
    exact present unused
  refine ⟨same, core_kinds core same
    ⟨fun base present => core.geom.placed base (used base present),
      fun base present => core.geom.mapped base (used base present), ?_, core.geom.directSize, ?_,
      core.geom.nodup⟩ ⟨?_, ?_, ?_⟩ (fun _ _ => rfl) ⟨?_, ?_⟩⟩
  · intro header member position inside
    exact (same_direct same).mpr (core.geom.directBlock header member position inside)
  · intro base header isDirect
    exact core.geom.directOf base header ((same_direct same).mp isDirect)
  · have places : (fun each => (drainedRoles g.kind index each).cached) =
        drained (fun each => (g.kind each).cached) index := by
      funext each
      by_cases pooled : g.kind each = .idle (.pool index)
      · simp [drainedRoles, drained, pooled, BlockKind.cached]
      · have other : (g.kind each).cached ≠ some (.pool index) := by
          intro cached
          cases known : g.kind each <;> simp_all [BlockKind.cached]
        simp [drainedRoles, drained, pooled, other]
    rw [places]
    exact (cache_inv_pool_drain core.vmm.caches bound).1
  · intro base taken
    by_cases pooled : g.kind base = .idle (.pool index)
    · obtain ⟨_, magic, nodeId⟩ := core.vmm.caches.poolHeader base index
        (by simp [pooled, BlockKind.cached])
      exact ⟨magic, by simpa [poolDrain, nodeId] using bound⟩
    · rw [apart base pooled] at taken
      exact core.vmm.takenHeader base taken
  · intro base
    rw [show (poolDrain s.vmm index).2.carved = s.vmm.carved from rfl, core.vmm.carved base]
    by_cases pooled : g.kind base = .idle (.pool index)
    · simp [there base pooled, pooled, BlockKind.IsChunk]
    · rw [apart base pooled]
  · intro address bound
    have sound := core.rtree.sound address bound
    by_cases pooled : g.kind (chunkBase address) = .idle (.pool index)
    · rw [pooled] at sound
      exact Or.inl (sound.elim id id)
    · rwa [apart _ pooled]
  · intro mapped address bound known
    by_cases pooled : g.kind (chunkBase address) = .idle (.pool index)
    · exact absurd (there _ pooled) known
    · rw [apart _ pooled] at known ⊢
      exact core.rtree.complete mapped address bound known

theorem core_purge_loop {fuel count : Nat} {pending : Nat → Prop} {roles : Nat → BlockKind}
    (core : Core mode s { g with kind := roles }) (same : SameHolders g.kind roles)
    (only : LooseOnly g.kind roles pending)
    (chain : Enumerates s.vmm.next chunk pending count) (enough : count ≤ fuel)
    (loose : ∀ each, pending each → roles each = .loose ∧
      ∀ address < 2 ^ 48, chunkBase address = each → lzRtreeGet s.rtree address = 0) :
    OnlyManager s (purgeLoop fuel s chunk) ∧ ∃ last, SameHolders g.kind last ∧
      LooseOnly g.kind last (fun _ => False) ∧
      Core mode (purgeLoop fuel s chunk) { g with kind := last } := by
  induction fuel generalizing s chunk count pending roles with
  | zero =>
      obtain rfl : count = 0 := Nat.le_zero.mp enough
      have empty := (enumerates_zero chain).2
      exact ⟨only_manager_refl s, roles, same,
        fun base isLoose => (only base isLoose).imp (empty base) id, core⟩
  | succ fuel ih =>
      unfold purgeLoop
      by_cases done : chunk = 0
      · rw [if_pos done]
        rw [done] at chain
        have empty := (enumerates_null chain).2
        exact ⟨only_manager_refl s, roles, same,
          fun base isLoose => (only base isLoose).imp (empty base) id, core⟩
      · rw [if_neg done]
        have first := enumerates_head chain done
        obtain ⟨isLoose, cleared⟩ := loose chunk first
        obtain ⟨aligned, _, _⟩ := core.geom.placed chunk (by simp [isLoose])
        have deflated := core_deflate core (by simp [isLoose, BlockKind.HoldsObjects]) aligned
        have unlisted : (fun each => (roles each).cached) chunk = none := by
          simp [isLoose, BlockKind.cached]
        have returned := core_return deflated isLoose cleared
          (cache_inv_global_push core.vmm.caches unlisted done) rfl rfl
        obtain ⟨_, popped⟩ := enumerates_pop chain done
          (fun old _ different =>
            (Function.update_of_ne different s.vmm.globalFreeChunks s.vmm.next))
          fun each => (Iff.rfl : pending each ∧ each ≠ chunk ↔ _)
        have fewer : LooseOnly g.kind (Function.update roles chunk (.idle .global))
            fun each => pending each ∧ each ≠ chunk := by
          intro base still
          by_cases here : base = chunk
          · simp [here] at still
          · rw [Function.update_of_ne here] at still
            exact (only base still).imp (fun waits => ⟨waits, here⟩) id
        obtain ⟨only, last, lastSame, lastLoose, lastCore⟩ := ih returned
          (same_holders_trans same (same_holders_update
            (by simp [isLoose, BlockKind.HoldsObjects]) (by simp [BlockKind.HoldsObjects])))
          fewer popped (by omega) (fun each still => ⟨by
            rw [Function.update_of_ne still.2]
            exact (loose each still.1).1, (loose each still.1).2⟩)
        exact ⟨only_manager_trans (only_manager_with s _ _) only, last, lastSame,
          lastLoose, lastCore⟩

theorem core_purge_pool {index : Nat} (core : Core mode s g) (bound : index < 16) :
    OnlyManager s (lzVmmPurgePool s index) ∧ ∃ roles, SameHolders g.kind roles ∧
      LooseOnly g.kind roles (fun _ => False) ∧
        Core mode (lzVmmPurgePool s index) { g with kind := roles } := by
  obtain ⟨same, drainedCore⟩ := core_pool_drain core bound
  obtain ⟨_, count, limit, chain⟩ := cache_inv_pool_drain core.vmm.caches bound
  have pooled : ∀ each, (g.kind each).cached = some (.pool index) →
      g.kind each = .idle (.pool index) := by
    intro each cached
    cases known : g.kind each <;> simp_all [BlockKind.cached]
  have detached : LooseOnly g.kind (drainedRoles g.kind index)
      fun each => (g.kind each).cached = some (.pool index) := by
    intro base loose
    by_cases there : g.kind base = .idle (.pool index)
    · exact Or.inl (by simp [there, BlockKind.cached])
    · exact Or.inr (by simpa [drainedRoles, there] using loose)
  obtain ⟨only, last, lastSame, lastLoose, lastCore⟩ :=
    core_purge_loop drainedCore same detached chain
    (by simp only [addressLimit]; omega : count ≤ addressLimit) (by
      intro each cached
      refine ⟨if_pos (pooled each cached), fun address below base => ?_⟩
      have sound := core.rtree.sound address below
      rw [base, pooled each cached] at sound
      exact sound.elim id id)
  exact ⟨only_manager_trans (only_manager_with s _ s.mem) only, last, lastSame, lastLoose, lastCore⟩

theorem core_purge_all (core : Core mode s g) :
    OnlyManager s (lzVmmPurgeAllCaches s) ∧ ∃ roles, SameHolders g.kind roles ∧
      LooseOnly g.kind roles (fun _ => False) ∧
        Core mode (lzVmmPurgeAllCaches s) { g with kind := roles } := by
  unfold lzVmmPurgeAllCaches
  have steps : ∀ (indices : List Nat) (state : State) (roles : Nat → BlockKind),
      (∀ index ∈ indices, index < 16) → SameHolders g.kind roles →
      LooseOnly g.kind roles (fun _ => False) → Core mode state { g with kind := roles } →
      OnlyManager state (indices.foldl lzVmmPurgePool state) ∧ ∃ last, SameHolders g.kind last ∧
        LooseOnly g.kind last (fun _ => False) ∧
        Core mode (indices.foldl lzVmmPurgePool state) { g with kind := last } := by
    intro indices
    induction indices with
    | nil =>
        exact fun state roles _ same loose core =>
          ⟨only_manager_refl state, roles, same, loose, core⟩
    | cons first rest ih =>
        intro state roles bounds same loose stateCore
        obtain ⟨only, middle, middleSame, middleLoose, middleCore⟩ :=
          core_purge_pool stateCore (bounds first (by simp))
        obtain ⟨onlyRest, last, lastSame, lastLoose, lastCore⟩ := ih _ middle
          (fun index member => bounds index (by simp [member]))
          (same_holders_trans same middleSame)
          (fun base isLoose => loose base ((middleLoose base isLoose).resolve_left id)) middleCore
        exact ⟨only_manager_trans only onlyRest, last, lastSame, lastLoose, lastCore⟩
  exact steps _ s g.kind (by simp) (same_holders_refl g.kind) (loose_only_refl g.kind _) core

theorem purge_loop_carved (fuel : Nat) (s : State) (chunk : Nat) :
    (purgeLoop fuel s chunk).vmm.carved = s.vmm.carved := by
  induction fuel generalizing s chunk with
  | zero => rfl
  | succ fuel ih =>
      unfold purgeLoop
      split
      · rfl
      · exact ih _ _

theorem purge_all_carved (s : State) : (lzVmmPurgeAllCaches s).vmm.carved = s.vmm.carved := by
  unfold lzVmmPurgeAllCaches
  generalize List.range lzMaxNumaNodes = nodes
  induction nodes generalizing s with
  | nil => rfl
  | cons node rest ih =>
      rw [List.foldl_cons, ih]
      exact purge_loop_carved _ _ _

end Lzmalloc.ChunkTransfer
