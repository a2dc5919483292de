import Lzmalloc.HeapInvariant

/-!
# The chunk lists of the memory manager

What each locked section of `vmm.c` does to the sixteen pools and the global
list. `cached` says which list a chunk is on; a chunk on no list may be written
to freely.
-/

namespace Lzmalloc.ChunkCaches

open SizeClasses HeapState VirtualMemoryManager PointerChain HeapInvariant

set_option autoImplicit false

variable {vmm other : Vmm} {cached : Nat → Option CachePlace} {chunk node : Nat}

theorem lz_topology_get_pool_eq (bound : node < 16) : lzTopologyGetPool node = node := by
  simp [lzTopologyGetPool, bound]

/-! ## What the sections leave alone -/

@[simp] theorem pool_pop_header (vmm : Vmm) (node : Nat) :
    (poolPop vmm node).2.header = vmm.header := by
  by_cases empty : (vmm.pools (lzTopologyGetPool node)).freeChunks = 0 <;> simp [poolPop, empty]

@[simp] theorem pool_pop_carved (vmm : Vmm) (node : Nat) :
    (poolPop vmm node).2.carved = vmm.carved := by
  by_cases empty : (vmm.pools (lzTopologyGetPool node)).freeChunks = 0 <;> simp [poolPop, empty]

@[simp] theorem global_pop_header (vmm : Vmm) : (globalPop vmm).2.header = vmm.header := by
  by_cases empty : vmm.globalFreeChunks = 0 <;> simp [globalPop, empty]

@[simp] theorem global_pop_carved (vmm : Vmm) : (globalPop vmm).2.carved = vmm.carved := by
  by_cases empty : vmm.globalFreeChunks = 0 <;> simp [globalPop, empty]

@[simp] theorem pool_push_header (vmm : Vmm) (chunk : Nat) :
    (poolPush vmm chunk).2.header = vmm.header := by
  by_cases room : (vmm.pools (lzTopologyGetPool (vmm.header chunk).nodeId)).availableCount < 32 <;>
    simp [poolPush, room]

@[simp] theorem pool_push_carved (vmm : Vmm) (chunk : Nat) :
    (poolPush vmm chunk).2.carved = vmm.carved := by
  by_cases room : (vmm.pools (lzTopologyGetPool (vmm.header chunk).nodeId)).availableCount < 32 <;>
    simp [poolPush, room]

theorem pool_push_full (full : (poolPush vmm chunk).1 = true) : (poolPush vmm chunk).2 = vmm := by
  by_cases room : (vmm.pools (lzTopologyGetPool (vmm.header chunk).nodeId)).availableCount <
      lzVmmMaxCachedChunks
  · simp only [poolPush, if_pos room, Bool.false_eq_true] at full
  · simp only [poolPush, if_neg room]

theorem cache_inv_congr (inv : CacheInv vmm cached) (pools : other.pools = vmm.pools)
    (globals : other.globalFreeChunks = vmm.globalFreeChunks)
    (next : ∀ listed, cached listed ≠ none → other.next listed = vmm.next listed)
    (header : ∀ listed, cached listed ≠ none → other.header listed = vmm.header listed) :
    CacheInv other cached := by
  refine ⟨fun index bound => ?_, fun index bound => ?_, fun listed index there => ?_, ?_⟩
  · rw [pools]
    exact enumerates_congr (inv.pool index bound)
      (fun listed there => next listed (by simp [there]))
      fun _ => Iff.rfl
  · rw [pools]
    exact inv.poolBound index bound
  · have same := header listed (by simp [there])
    rw [magicOk, same]
    exact inv.poolHeader listed index there
  · obtain ⟨count, chain⟩ := inv.global
    rw [globals]
    exact ⟨count, enumerates_congr chain (fun listed there => next listed (by simp [there]))
      fun _ => Iff.rfl⟩

/-- The unlocked header writes touch a chunk that is on no list. -/
theorem cache_inv_clear_next (inv : CacheInv vmm cached) (unlisted : cached chunk = none) :
    CacheInv (clearNext vmm chunk) cached := by
  refine cache_inv_congr inv rfl rfl ?_ fun _ _ => rfl
  intro listed there
  refine Function.update_of_ne ?_ _ _
  rintro rfl
  exact there unlisted

theorem cache_inv_header (inv : CacheInv vmm cached) (unlisted : cached chunk = none)
    (header : ChunkHeader) :
    CacheInv { vmm with header := Function.update vmm.header chunk header } cached := by
  refine cache_inv_congr inv rfl rfl (fun _ _ => rfl) ?_
  intro listed there
  refine Function.update_of_ne ?_ _ _
  rintro rfl
  exact there unlisted

theorem cache_inv_neutralize (inv : CacheInv vmm cached) (unlisted : cached chunk = none) :
    CacheInv (neutralize vmm chunk node) cached :=
  cache_inv_header (cache_inv_clear_next inv unlisted) unlisted _

/-! ## Taking a chunk -/

theorem cache_inv_pool_pop (inv : CacheInv vmm cached) (bound : node < 16)
    (nonempty : (poolPop vmm node).1 ≠ 0) :
    cached (poolPop vmm node).1 = some (.pool node) ∧
      CacheInv (poolPop vmm node).2 (Function.update cached (poolPop vmm node).1 none) := by
  have filled : (vmm.pools node).freeChunks ≠ 0 := by
    intro empty
    simp [poolPop, lz_topology_get_pool_eq bound, empty] at nonempty
  simp only [poolPop, lz_topology_get_pool_eq bound, if_neg filled]
  set head := (vmm.pools node).freeChunks with headEq
  have there : cached head = some (.pool node) := by
    have first := enumerates_head (inv.pool node bound) filled
    exact first
  refine ⟨there, fun index indexBound => ?_, fun index indexBound => ?_, ?_, ?_⟩
  · by_cases same : index = node
    · subst same
      have members : ∀ each, Function.update cached head none each = some (.pool index) ↔
          cached each = some (.pool index) ∧ each ≠ head := by
        intro each
        by_cases first : each = head <;> simp [first]
      obtain ⟨positive, popped⟩ :=
        enumerates_pop (inv.pool index bound) filled (fun _ _ _ => rfl) members
      have limit := inv.poolBound index bound
      have decremented : ((vmm.pools index).availableCount + (2 ^ 64 - 1)) % 2 ^ 64 =
          (vmm.pools index).availableCount - 1 := by omega
      simp only [Function.update_self, decremented]
      exact popped
    · simp only [Function.update_of_ne same]
      refine enumerates_congr (inv.pool index indexBound) (fun _ _ => rfl) fun each => ?_
      by_cases first : each = head
      · simp [first, there, Ne.symm same]
      · simp [first]
  · by_cases same : index = node
    · subst same
      have limit := inv.poolBound index bound
      have positive := (enumerates_pop (inv.pool index bound) filled (fun _ _ _ => rfl)
        fun _ => Iff.rfl).1
      simp only [Function.update_self]
      omega
    · simp only [Function.update_of_ne same]
      exact inv.poolBound index indexBound
  · intro listed index member
    refine inv.poolHeader listed index ?_
    by_cases first : listed = head
    · simp [first] at member
    · rwa [Function.update_of_ne first] at member
  · obtain ⟨count, chain⟩ := inv.global
    refine ⟨count, enumerates_congr chain (fun _ _ => rfl) fun each => ?_⟩
    by_cases first : each = head
    · simp [first, there]
    · simp [first]

theorem cache_inv_global_pop (inv : CacheInv vmm cached) (nonempty : (globalPop vmm).1 ≠ 0) :
    cached (globalPop vmm).1 = some .global ∧
      CacheInv (globalPop vmm).2 (Function.update cached (globalPop vmm).1 none) := by
  have filled : vmm.globalFreeChunks ≠ 0 := by
    intro empty
    simp [globalPop, empty] at nonempty
  simp only [globalPop, if_neg filled]
  set head := vmm.globalFreeChunks with headEq
  obtain ⟨count, chain⟩ := inv.global
  have there : cached head = some .global := by
    have first := enumerates_head chain filled
    exact first
  refine ⟨there, fun index bound => ?_, inv.poolBound, ?_, ?_⟩
  · refine enumerates_congr (inv.pool index bound) (fun _ _ => rfl) fun each => ?_
    by_cases first : each = head
    · simp [first, there]
    · simp [first]
  · intro listed index member
    refine inv.poolHeader listed index ?_
    by_cases first : listed = head
    · simp [first] at member
    · rwa [Function.update_of_ne first] at member
  · have members : ∀ each, Function.update cached head none each = some .global ↔
        cached each = some .global ∧ each ≠ head := by
      intro each
      by_cases first : each = head <;> simp [first]
    exact ⟨count - 1, (enumerates_pop chain filled (fun _ _ _ => rfl) members).2⟩

/-! ## Giving a chunk back -/

theorem cache_inv_global_push (inv : CacheInv vmm cached) (unlisted : cached chunk = none)
    (nonnull : chunk ≠ 0) :
    CacheInv (globalPush vmm chunk) (Function.update cached chunk (some .global)) := by
  have apart : ∀ listed, cached listed ≠ none → listed ≠ chunk := by
    rintro listed there rfl
    exact there unlisted
  have links : ∀ listed, cached listed ≠ none →
      Function.update vmm.next chunk vmm.globalFreeChunks listed = vmm.next listed :=
    fun listed there => Function.update_of_ne (apart listed there) _ _
  refine ⟨fun index bound => ?_, inv.poolBound, ?_, ?_⟩
  · refine enumerates_congr (inv.pool index bound)
      (fun listed there => links listed (by simp [there]))
      fun each => ?_
    by_cases first : each = chunk
    · simp [first, unlisted]
    · simp [first]
  · intro listed index member
    refine inv.poolHeader listed index ?_
    by_cases first : listed = chunk
    · simp [first] at member
    · rwa [Function.update_of_ne first] at member
  · obtain ⟨count, chain⟩ := inv.global
    have linked : (globalPush vmm chunk).next chunk = vmm.globalFreeChunks := by simp [globalPush]
    rw [show (globalPush vmm chunk).globalFreeChunks = chunk from rfl]
    refine ⟨count + 1, enumerates_push chain nonnull (by simp [unlisted]) linked
      (fun old there => links old (by simp [there])) fun each => ?_⟩
    by_cases first : each = chunk
    · simp [first]
    · simp [first]

theorem cache_inv_pool_push (inv : CacheInv vmm cached) (unlisted : cached chunk = none)
    (nonnull : chunk ≠ 0) (magic : magicOk vmm chunk) (bound : (vmm.header chunk).nodeId < 16)
    (room : (poolPush vmm chunk).1 = false) :
    CacheInv (poolPush vmm chunk).2
      (Function.update cached chunk (some (.pool (vmm.header chunk).nodeId))) := by
  obtain ⟨node, nodeEq⟩ : ∃ node, (vmm.header chunk).nodeId = node := ⟨_, rfl⟩
  rw [nodeEq] at bound
  have space : (vmm.pools node).availableCount < 32 := by
    by_contra full
    simp [poolPush, nodeEq, lz_topology_get_pool_eq bound, full] at room
  have links : ∀ listed, cached listed ≠ none →
      Function.update vmm.next chunk (vmm.pools node).freeChunks listed = vmm.next listed := by
    intro listed there
    refine Function.update_of_ne ?_ _ _
    rintro rfl
    exact there unlisted
  simp only [poolPush, nodeEq, lz_topology_get_pool_eq bound, lzVmmMaxCachedChunks, if_pos space]
  have incremented : ((vmm.pools node).availableCount + 1) % 2 ^ 64 =
      (vmm.pools node).availableCount + 1 := by omega
  rw [incremented]
  refine ⟨fun index indexBound => ?_, fun index indexBound => ?_, ?_, ?_⟩
  · by_cases same : index = node
    · subst same
      simp only [Function.update_self]
      refine enumerates_push (inv.pool index bound) nonnull (by simp [unlisted]) (by simp)
        (fun old there => links old (by simp [there])) fun each => ?_
      by_cases first : each = chunk
      · simp [first]
      · simp [first]
    · simp only [Function.update_of_ne same]
      refine enumerates_congr (inv.pool index indexBound)
        (fun listed there => links listed (by simp [there])) fun each => ?_
      by_cases first : each = chunk
      · simp [first, unlisted, Ne.symm same]
      · simp [first]
  · by_cases same : index = node
    · subst same
      simp only [Function.update_self]
      omega
    · simp only [Function.update_of_ne same]
      exact inv.poolBound index indexBound
  · intro listed index member
    by_cases first : listed = chunk
    · subst first
      obtain rfl : node = index := by simpa using member
      exact ⟨bound, magic, nodeEq⟩
    · rw [Function.update_of_ne first] at member
      exact inv.poolHeader listed index member
  · obtain ⟨count, chain⟩ := inv.global
    refine ⟨count, enumerates_congr chain (fun listed there => links listed (by simp [there]))
      fun each => ?_⟩
    by_cases first : each = chunk
    · simp [first, unlisted]
    · simp [first]

/-! ## Draining a pool and carving an extent -/

def drained (cached : Nat → Option CachePlace) (node chunk : Nat) : Option CachePlace :=
  if cached chunk = some (.pool node) then none else cached chunk

theorem drained_eq_some {place : CachePlace} :
    drained cached node chunk = some place ↔ cached chunk = some place ∧ place ≠ .pool node := by
  by_cases there : cached chunk = some (.pool node)
  · rw [drained, if_pos there, there]
    refine iff_of_false (by simp) ?_
    rintro ⟨same, different⟩
    exact different (Option.some.inj same).symm
  · rw [drained, if_neg there]
    refine ⟨fun member => ⟨member, ?_⟩, And.left⟩
    rintro rfl
    exact there member

theorem cache_inv_pool_drain (inv : CacheInv vmm cached) (bound : node < 16) :
    CacheInv (poolDrain vmm node).2 (drained cached node) ∧
      ∃ count ≤ 32, Enumerates (poolDrain vmm node).2.next (poolDrain vmm node).1
        (fun chunk => cached chunk = some (.pool node)) count := by
  refine ⟨⟨fun index indexBound => ?_, fun index indexBound => ?_, ?_, ?_⟩, _,
    inv.poolBound node bound, inv.pool node bound⟩
  · by_cases same : index = node
    · subst same
      simp only [poolDrain, Function.update_self]
      exact enumerates_empty fun each => by simp [drained_eq_some]
    · simp only [poolDrain, Function.update_of_ne same]
      refine enumerates_congr (inv.pool index indexBound) (fun _ _ => rfl) fun each => ?_
      simp [drained_eq_some, same]
  · by_cases same : index = node
    · simp [poolDrain, same]
    · simp only [poolDrain, Function.update_of_ne same]
      exact inv.poolBound index indexBound
  · intro listed index member
    exact inv.poolHeader listed index (drained_eq_some.mp member).1
  · obtain ⟨count, chain⟩ := inv.global
    refine ⟨count, enumerates_congr chain (fun _ _ => rfl) fun each => ?_⟩
    simp [drained_eq_some]

theorem cache_inv_push_all (chunks : List Nat) (inv : CacheInv vmm cached)
    (nodup : chunks.Nodup) (fresh : ∀ each ∈ chunks, cached each = none ∧ each ≠ 0) :
    CacheInv (chunks.foldl globalPush vmm)
      (fun each => if each ∈ chunks then some .global else cached each) := by
  induction chunks generalizing vmm cached with
  | nil => simpa using inv
  | cons first rest ih =>
      obtain ⟨absent, nodupRest⟩ := List.nodup_cons.mp nodup
      obtain ⟨unlisted, nonnull⟩ := fresh first (by simp)
      have pushed := ih (cache_inv_global_push inv unlisted nonnull) nodupRest (by
        intro each member
        have different : each ≠ first := fun same => absent (same ▸ member)
        rw [Function.update_of_ne different]
        exact fresh each (by simp [member]))
      have same : (fun each => if each ∈ rest then some .global
          else Function.update cached first (some CachePlace.global) each) =
            fun each => if each ∈ first :: rest then some .global else cached each := by
        funext each
        by_cases here : each = first
        · simp [here]
        · simp [here]
      rw [← same]
      exact pushed

theorem push_all_header (chunks : List Nat) (vmm : Vmm) :
    (chunks.foldl globalPush vmm).header = vmm.header := by
  induction chunks generalizing vmm with
  | nil => rfl
  | cons first rest ih => exact ih (globalPush vmm first)

def extentChunks (alignedAddr : Nat) : List Nat :=
  (List.range lzExtentChunks).map fun index => alignedAddr + index * lzHugePageSize

theorem mem_extent_chunks {alignedAddr : Nat} :
    chunk ∈ extentChunks alignedAddr ↔ ∃ index < 32, chunk = alignedAddr + index * 2097152 := by
  simp only [extentChunks, lzExtentChunks, lzHugePageSize, List.mem_map, List.mem_range]
  exact exists_congr fun index => and_congr_right fun _ => eq_comm

theorem extent_chunks_nodup (alignedAddr : Nat) : (extentChunks alignedAddr).Nodup := by
  refine List.Nodup.map ?_ List.nodup_range
  intro left right same
  simp only [lzHugePageSize] at same
  omega

theorem cache_inv_carved (inv : CacheInv vmm cached) (carved : List Nat) :
    CacheInv { vmm with carved := carved } cached :=
  cache_inv_congr inv rfl rfl (fun _ _ => rfl) fun _ _ => rfl

theorem carve_extent_eq (vmm : Vmm) (alignedAddr : Nat) :
    carveExtent vmm alignedAddr =
      { (extentChunks alignedAddr).foldl globalPush vmm with
        carved := extentChunks alignedAddr ++ vmm.carved } := rfl

@[simp] theorem carve_extent_header (vmm : Vmm) (alignedAddr : Nat) :
    (carveExtent vmm alignedAddr).header = vmm.header := by
  rw [carve_extent_eq]
  simp only [push_all_header]

@[simp] theorem carve_extent_carved (vmm : Vmm) (alignedAddr : Nat) :
    (carveExtent vmm alignedAddr).carved = extentChunks alignedAddr ++ vmm.carved := by
  rw [carve_extent_eq]

theorem cache_inv_carve (alignedAddr : Nat) (inv : CacheInv vmm cached)
    (fresh : ∀ each ∈ extentChunks alignedAddr, cached each = none ∧ each ≠ 0) :
    CacheInv (carveExtent vmm alignedAddr)
      (fun each => if each ∈ extentChunks alignedAddr then some .global else cached each) := by
  have pushed := cache_inv_push_all (extentChunks alignedAddr) inv (extent_chunks_nodup alignedAddr)
    fresh
  rw [carve_extent_eq]
  exact cache_inv_carved pushed _

end Lzmalloc.ChunkCaches
