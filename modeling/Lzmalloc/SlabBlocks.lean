import Lzmalloc.InvariantFacts

/-!
# Blocks of a slab

The four ways a slab hands out or takes back a block, each as one step on the
invariant: push on the masked free list, pop from it, bump, and retiring an
exhausted bump pointer. None of them looks at the list the slab is on.
-/

namespace Lzmalloc.SlabBlocks

open SizeClasses HeapState PointerChain ByteMemory Engines ThreadHeap HeapInvariant InvariantFacts

set_option autoImplicit false

variable {mode : Mode} {s : State} {g : Ghost}

/-! ## What a change at one object leaves alone -/

theorem slab_ok_elsewhere (core : Core mode s g) {ptr chunk tlh classIdx : Nat}
    {place : NodePlace} {mem : Memory} (kind : g.kind chunk = .slab tlh classIdx)
    (elsewhere : chunk ≠ chunkBase ptr)
    (links : ∀ other, other ≠ ptr → g.node other ≠ .none → linkAt mem other = linkAt s.mem other) :
    SlabOk (s.slab (chunk + 64)) (freeLink s.secret mem) (Function.update g.node ptr place)
      chunk classIdx := by
  have apart : ∀ block, chunkBase block = chunk → block ≠ ptr := by
    rintro block inside rfl
    exact elsewhere inside.symm
  refine slab_ok_congr (core.slabs chunk tlh classIdx kind) ?_ ?_
  · intro block inside
    exact Function.update_of_ne (apart block inside) _ _
  · intro block inside free
    exact free_link_congr _ (links block (apart block inside) (by simp [free]))

theorem span_ok_elsewhere (core : Core mode s g) {ptr chunk tlh : Nat} {place : NodePlace}
    (kind : g.kind chunk = .span tlh) (elsewhere : chunk ≠ chunkBase ptr) :
    SpanOk (s.span (chunk + 64)) (Function.update g.node ptr place) chunk := by
  refine span_ok_congr (core.spans chunk tlh kind) ?_
  rintro other inside
  refine Function.update_of_ne ?_ _ _
  rintro rfl
  exact elsewhere inside.symm

/-- Moving an object between places that are not lists of other heaps. -/
theorem mail_inv_settle (core : Core mode s g) {ptr : Nat} {place : NodePlace} {mem : Memory}
    (before : ¬(g.node ptr).InFlight) (after : ¬place.InFlight)
    (links : ∀ other, other ≠ ptr → g.node other ≠ .none → linkAt mem other = linkAt s.mem other) :
    MailInv s.remoteFreeHead s.outgoingBatch mem (Function.update g.node ptr place) g.cursor := by
  have outside : ∀ other flying, flying.InFlight →
      (Function.update g.node ptr place other = flying ↔ g.node other = flying) := by
    intro other flying inFlight
    by_cases same : other = ptr
    · subst same
      rw [Function.update_self]
      exact iff_of_false (fun equal => after (equal ▸ inFlight)) fun equal =>
        before (equal ▸ inFlight)
    · rw [Function.update_of_ne same]
  refine mail_inv_congr core.mail (fun other tlh => outside other (.mail tlh) trivial)
    (fun other tlh => outside other (.batch tlh) trivial)
    (fun other tlh => outside other (.reaping tlh) trivial) ?_
  · intro other flying
    by_cases same : other = ptr
    · subst same
      rw [Function.update_self] at flying
      exact absurd flying after
    · rw [Function.update_of_ne same] at flying
      refine links other same fun none => ?_
      simp [none, NodePlace.InFlight] at flying

/-! ## Counters -/

theorem slab_capacity {classIdx : Nat} (classBound : classIdx < 40) :
    63 ≤ (2097152 - 128) / lzClassToSize classIdx ∧
      (2097152 - 128) / lzClassToSize classIdx ≤ 131064 := by
  obtain ⟨_, lower, upper⟩ := slab_block_size classBound
  constructor
  · rw [Nat.le_div_iff_mul_le (by omega)]
    calc 63 * lzClassToSize classIdx ≤ 63 * 32768 := Nat.mul_le_mul_left _ upper
      _ ≤ 2097152 - 128 := by norm_num
  · calc (2097152 - 128) / lzClassToSize classIdx ≤ (2097152 - 128) / 16 :=
        Nat.div_le_div_left lower (by norm_num)
      _ = 131064 := by norm_num

theorem slab_used_positive {slab : Slab} {next : Nat → Nat} {node : Nat → NodePlace}
    {chunk classIdx block : Nat} (ok : SlabOk slab next node chunk classIdx)
    (inside : chunkBase block = chunk) (present : node block ≠ .none)
    (taken : node block ≠ .free) : 1 ≤ slab.usedObjects := by
  by_contra zero
  have full : bumpedCount slab - slab.usedObjects = bumpedCount slab := by omega
  have chain := ok.freeList
  rw [full] at chain
  obtain ⟨index, below, position⟩ := (ok.blocks block inside).mp present
  have covered := enumerates_covers
    (fun position => chunk + 128 + position * lzClassToSize classIdx) chain
    (fun other visited => (ok.blocks other visited.1).mp (by simp [visited.2])) below
  rw [← position] at covered
  exact taken covered.2

theorem slab_block_base {slab : Slab} {next : Nat → Nat} {node : Nat → NodePlace}
    {chunk classIdx index : Nat} (ok : SlabOk slab next node chunk classIdx)
    (aligned : chunk % 2097152 = 0) (below : index < bumpedCount slab) :
    chunkBase (chunk + 128 + index * lzClassToSize classIdx) = chunk := by
  have bound := ok.bumpBound
  rw [ok.maxObjects] at bound
  have inside := slab_block_inside ok.classBound bound below
  have size := (slab_block_size ok.classBound).2.1
  exact chunk_base_eq aligned (by omega) (by omega)

/-- The counter of a slab is the number of its blocks that are not free. -/
theorem slab_used_count {slab : Slab} {next : Nat → Nat} {node : Nat → NodePlace}
    {chunk classIdx : Nat} (ok : SlabOk slab next node chunk classIdx)
    (aligned : chunk % 2097152 = 0) :
    slab.usedObjects = Set.ncard { index | index < bumpedCount slab ∧
      node (chunk + 128 + index * lzClassToSize classIdx) ≠ .free } := by
  have unlisted := enumerates_unlisted
    (fun index => chunk + 128 + index * lzClassToSize classIdx) ok.freeList
    (fun _ _ same => slab_block_injective ok.classBound same)
    (fun block visited => (ok.blocks block visited.1).mp (by simp [visited.2]))
  have same : { index | index < bumpedCount slab ∧
        node (chunk + 128 + index * lzClassToSize classIdx) ≠ .free } =
      { index | index < bumpedCount slab ∧
        ¬(chunkBase (chunk + 128 + index * lzClassToSize classIdx) = chunk ∧
          node (chunk + 128 + index * lzClassToSize classIdx) = .free) } := by
    ext index
    refine and_congr_right fun below => ?_
    rw [slab_block_base ok aligned below]
    simp
  have used := ok.used
  rw [same, unlisted]
  omega

theorem slab_head_bound (core : Core mode s g) {chunk tlh classIdx : Nat}
    (kind : g.kind chunk = .slab tlh classIdx) :
    (s.slab (chunk + 64)).freeListHead < 2 ^ 48 := by
  by_cases null : (s.slab (chunk + 64)).freeListHead = 0
  · omega
  · have visited := enumerates_head (core.slabs chunk tlh classIdx kind).freeList null
    have present : g.node (s.slab (chunk + 64)).freeListHead ≠ .none := by simp [visited.2]
    have bound := core_node_bound core present
    omega

/-! ## Free -/

theorem slab_ok_push {slab : Slab} {next other : Nat → Nat} {node : Nat → NodePlace}
    {chunk classIdx block : Nat} (ok : SlabOk slab next node chunk classIdx)
    (inside : chunkBase block = chunk) (nonnull : block ≠ 0) (present : node block ≠ .none)
    (taken : node block ≠ .free) (link : other block = slab.freeListHead)
    (links : ∀ old, old ≠ block → node old ≠ .none → other old = next old) :
    SlabOk
      { slab with freeListHead := block
                  usedObjects := (slab.usedObjects + (2 ^ 32 - 1)) % 2 ^ 32 }
      other (Function.update node block .free) chunk classIdx := by
  have positive := slab_used_positive ok inside present taken
  obtain ⟨_, capacity⟩ := slab_capacity ok.classBound
  have used := ok.used
  have bound := ok.bumpBound
  have max := ok.maxObjects
  have decremented : (slab.usedObjects + (2 ^ 32 - 1)) % 2 ^ 32 = slab.usedObjects - 1 := by omega
  have count : bumpedCount slab - (slab.usedObjects - 1) =
      bumpedCount slab - slab.usedObjects + 1 := by omega
  rw [decremented]
  refine { ok with used := ?_, freeList := ?_, blocks := ?_ }
  · change slab.usedObjects - 1 ≤ bumpedCount slab
    omega
  · change Enumerates other block _ (bumpedCount slab - (slab.usedObjects - 1))
    rw [count]
    refine enumerates_push ok.freeList nonnull (fun visited => taken visited.2) link ?_ ?_
    · intro old visited
      refine links old ?_ (by simp [visited.2])
      rintro rfl
      exact taken visited.2
    · intro each
      by_cases same : each = block
      · subst same
        simp [inside]
      · simp [same]
  · intro each eachInside
    by_cases same : each = block
    · subst same
      rw [Function.update_self]
      simp only [ne_eq, reduceCtorEq, not_false_eq_true, true_iff]
      exact (ok.blocks each eachInside).mp present
    · rw [Function.update_of_ne same]
      exact ok.blocks each eachInside

theorem core_push_free (core : Core mode s g) {tlh classIdx block : Nat}
    (kind : g.kind (chunkBase block) = .slab tlh classIdx) (live : g.node block = .live) :
    Core mode (pushFreeBlock s (chunkBase block + 64) block) (g.settle block .free) := by
  have present : g.node block ≠ .none := by simp [live]
  have taken : g.node block ≠ .free := by simp [live]
  obtain ⟨positive, bound⟩ := core_node_bound core present
  have headBound := slab_head_bound core kind
  have links : ∀ value other, other ≠ block → g.node other ≠ .none →
      linkAt (store s.mem block 8 value) other = linkAt s.mem other := fun value other different
        otherPresent => core_link_store_other core present otherPresent different
  refine { core with slabs := ?_, spans := ?_, mail := ?_, objects := ?_, recorded := ?_ }
  · intro chunk owner size chunkKind
    by_cases here : chunk = chunkBase block
    · subst here
      obtain ⟨rfl, rfl⟩ := BlockKind.slab_unique kind chunkKind
      have ok := core.slabs _ _ _ kind
      simp only [pushFreeBlock, setSlab, setLink, Function.update_self]
      refine slab_ok_push ok rfl (by omega) present taken ?_ ?_
      · exact free_link_store _ _ (by omega) (by omega)
      · intro old different oldPresent
        exact free_link_congr _ (links _ old different oldPresent)
    · have other : chunk + 64 ≠ chunkBase block + 64 := by omega
      simp only [pushFreeBlock, setSlab, setLink, Function.update_of_ne other]
      exact slab_ok_elsewhere core chunkKind here (links _)
  · intro chunk owner chunkKind
    refine span_ok_elsewhere core chunkKind ?_
    rintro rfl
    exact absurd (kind.symm.trans chunkKind) (by simp)
  · exact mail_inv_settle core (by simp [live, NodePlace.InFlight]) (by simp [NodePlace.InFlight])
      (links _)
  · exact object_inv_settle core.objects (by simp [kind, BlockKind.owner]) (by simp)
  · exact record_inv_release core.recorded fun used => absurd used (by simp [NodePlace.InUse])

/-! ## Allocation from the free list -/

theorem slab_ok_pop {slab : Slab} {next : Nat → Nat} {node : Nat → NodePlace}
    {chunk classIdx : Nat} (ok : SlabOk slab next node chunk classIdx)
    (nonempty : slab.freeListHead ≠ 0) :
    SlabOk
      { slab with freeListHead := next slab.freeListHead
                  usedObjects := (slab.usedObjects + 1) % 2 ^ 32 }
      next (Function.update node slab.freeListHead .live) chunk classIdx := by
  have visited := enumerates_head ok.freeList nonempty
  have members : ∀ each, (chunkBase each = chunk ∧
      Function.update node slab.freeListHead .live each = .free) ↔
        (chunkBase each = chunk ∧ node each = .free) ∧ each ≠ slab.freeListHead := by
    intro each
    by_cases same : each = slab.freeListHead
    · simp [same]
    · simp [same]
  have popped := enumerates_pop ok.freeList nonempty (fun _ _ _ => rfl) members
  obtain ⟨_, capacity⟩ := slab_capacity ok.classBound
  have used := ok.used
  have bound := ok.bumpBound
  have max := ok.maxObjects
  have incremented : (slab.usedObjects + 1) % 2 ^ 32 = slab.usedObjects + 1 := by omega
  rw [incremented]
  refine { ok with used := ?_, freeList := ?_, blocks := ?_ }
  · change slab.usedObjects + 1 ≤ bumpedCount slab
    omega
  · change Enumerates next _ _ (bumpedCount slab - (slab.usedObjects + 1))
    rw [Nat.sub_add_eq]
    exact popped.2
  · intro each inside
    by_cases same : each = slab.freeListHead
    · subst same
      rw [Function.update_self]
      simp only [ne_eq, reduceCtorEq, not_false_eq_true, true_iff]
      exact (ok.blocks _ inside).mp (by simp [visited.2])
    · rw [Function.update_of_ne same]
      exact ok.blocks each inside

theorem core_pop_free (core : Core mode s g) {tlh classIdx chunk : Nat}
    (kind : g.kind chunk = .slab tlh classIdx)
    (nonempty : (s.slab (chunk + 64)).freeListHead ≠ 0) :
    (chunkBase (s.slab (chunk + 64)).freeListHead = chunk ∧
      g.node (s.slab (chunk + 64)).freeListHead = .free) ∧
    Core mode (popFreeBlock s (chunk + 64)).2
      (g.allocate (s.slab (chunk + 64)).freeListHead (.slab classIdx)) := by
  have ok := core.slabs chunk tlh classIdx kind
  have visited := enumerates_head ok.freeList nonempty
  refine ⟨visited, ?_⟩
  obtain ⟨base, free⟩ := visited
  refine { core with slabs := ?_, spans := ?_, mail := ?_, objects := ?_, recorded := ?_ }
  · intro other owner size otherKind
    by_cases here : other = chunk
    · subst here
      obtain ⟨rfl, rfl⟩ := BlockKind.slab_unique kind otherKind
      simp only [popFreeBlock, setSlab, Function.update_self]
      exact slab_ok_pop ok nonempty
    · have different : other + 64 ≠ chunk + 64 := by omega
      simp only [popFreeBlock, setSlab, Function.update_of_ne different]
      exact slab_ok_elsewhere core otherKind (by rwa [base]) fun _ _ _ => rfl
  · intro other owner otherKind
    refine span_ok_elsewhere core otherKind ?_
    rintro rfl
    rw [base] at otherKind
    exact absurd (kind.symm.trans otherKind) (by simp)
  · exact mail_inv_settle core (by simp [free, NodePlace.InFlight]) (by simp [NodePlace.InFlight])
      fun _ _ _ => rfl
  · exact object_inv_settle core.objects (by simp [base, kind, BlockKind.owner]) (by simp)
  · exact record_inv_take core.recorded (by simp [base, kind, objectOrigin])

/-! ## Bump allocation -/

theorem bumped_count_step {slab : Slab} {next : Nat → Nat} {node : Nat → NodePlace}
    {chunk classIdx : Nat} (ok : SlabOk slab next node chunk classIdx)
    (active : slab.bumpPtr ≠ 0) :
    bumpedCount { slab with bumpPtr := slab.bumpPtr + slab.blockSize } = bumpedCount slab + 1 := by
  obtain ⟨_, lower, _⟩ := slab_block_size ok.classBound
  have position := ok.bumpPtr active
  have positive : 0 < slab.blockSize := by
    rw [ok.blockSize]
    omega
  simp only [bumpedCount, if_neg active]
  rw [if_neg (by omega), Nat.sub_add_comm (by rw [ok.base, position]; omega),
    Nat.add_div_right _ positive]

theorem bump_room {slab : Slab} {next : Nat → Nat} {node : Nat → NodePlace}
    {chunk classIdx : Nat} (ok : SlabOk slab next node chunk classIdx)
    (active : slab.bumpPtr ≠ 0) :
    slab.bumpPtr + slab.blockSize ≤ slab.memoryEnd ↔ bumpedCount slab < slab.maxObjects := by
  obtain ⟨_, lower, _⟩ := slab_block_size ok.classBound
  have expand : (bumpedCount slab + 1) * lzClassToSize classIdx =
      bumpedCount slab * lzClassToSize classIdx + lzClassToSize classIdx := by ring
  rw [ok.maxObjects, Nat.lt_iff_add_one_le, Nat.le_div_iff_mul_le (by omega), expand,
    ok.bumpPtr active, ok.finish, ok.blockSize]
  omega

theorem slab_ok_bump {slab : Slab} {next : Nat → Nat} {node : Nat → NodePlace}
    {chunk classIdx : Nat} (ok : SlabOk slab next node chunk classIdx)
    (aligned : chunk % 2097152 = 0) (active : slab.bumpPtr ≠ 0)
    (room : slab.bumpPtr + slab.blockSize ≤ slab.memoryEnd) :
    (chunkBase slab.bumpPtr = chunk ∧ node slab.bumpPtr = .none) ∧
    SlabOk
      { slab with bumpPtr := slab.bumpPtr + slab.blockSize
                  usedObjects := (slab.usedObjects + 1) % 2 ^ 32 }
      next (Function.update node slab.bumpPtr .live) chunk classIdx := by
  obtain ⟨_, lower, _⟩ := slab_block_size ok.classBound
  obtain ⟨_, capacity⟩ := slab_capacity ok.classBound
  have position := ok.bumpPtr active
  have below := (bump_room ok active).mp room
  have used := ok.used
  have max := ok.maxObjects
  have finish := ok.finish
  have size := ok.blockSize
  have step := bumped_count_step ok active
  have base : chunkBase slab.bumpPtr = chunk := chunk_base_eq aligned (by omega) (by omega)
  have unborn : node slab.bumpPtr = .none := by
    by_contra present
    obtain ⟨index, indexBound, same⟩ := (ok.blocks _ base).mp present
    rw [position] at same
    have equal := slab_block_injective ok.classBound same
    omega
  refine ⟨⟨base, unborn⟩, ?_⟩
  have incremented : (slab.usedObjects + 1) % 2 ^ 32 = slab.usedObjects + 1 := by omega
  rw [incremented]
  have grown : bumpedCount
      { slab with bumpPtr := slab.bumpPtr + slab.blockSize, usedObjects := slab.usedObjects + 1 } =
        bumpedCount slab + 1 := step
  refine { ok with bumpPtr := ?_, bumpBound := ?_, used := ?_, freeList := ?_, blocks := ?_ }
  · intro _
    rw [grown]
    change slab.bumpPtr + slab.blockSize = _
    rw [position, size]
    ring
  · rw [grown]
    exact below
  · rw [grown]
    change slab.usedObjects + 1 ≤ _
    omega
  · rw [grown]
    change Enumerates next slab.freeListHead _ (bumpedCount slab + 1 - (slab.usedObjects + 1))
    rw [Nat.add_sub_add_right]
    refine enumerates_congr ok.freeList (fun _ _ => rfl) fun each => ?_
    by_cases same : each = slab.bumpPtr
    · simp [same, unborn]
    · simp [Function.update_of_ne same]
  · intro each inside
    rw [grown]
    by_cases same : each = slab.bumpPtr
    · subst same
      rw [Function.update_self]
      simp only [ne_eq, reduceCtorEq, not_false_eq_true, true_iff]
      exact ⟨bumpedCount slab, by omega, position⟩
    · rw [Function.update_of_ne same, ok.blocks each inside]
      constructor
      · rintro ⟨index, bound, place⟩
        exact ⟨index, by omega, place⟩
      · rintro ⟨index, bound, place⟩
        refine ⟨index, ?_, place⟩
        by_contra last
        have equal : index = bumpedCount slab := by omega
        rw [equal, ← position] at place
        exact same place

theorem core_bump (core : Core mode s g) {tlh classIdx chunk : Nat}
    (kind : g.kind chunk = .slab tlh classIdx) (active : (s.slab (chunk + 64)).bumpPtr ≠ 0)
    (room : (s.slab (chunk + 64)).bumpPtr + (s.slab (chunk + 64)).blockSize ≤
      (s.slab (chunk + 64)).memoryEnd) :
    (chunkBase (s.slab (chunk + 64)).bumpPtr = chunk ∧
      g.node (s.slab (chunk + 64)).bumpPtr = .none) ∧
    Core mode (bumpBlock s (chunk + 64)).2
      (g.allocate (s.slab (chunk + 64)).bumpPtr (.slab classIdx)) := by
  have placed := core.geom.placed chunk (by simp [kind])
  obtain ⟨⟨base, unborn⟩, grown⟩ :=
    slab_ok_bump (core.slabs chunk tlh classIdx kind) placed.1 active room
  refine ⟨⟨base, unborn⟩, ?_⟩
  have result : (bumpBlock s (chunk + 64)).2 = setSlab s (chunk + 64)
      { s.slab (chunk + 64) with
        bumpPtr := (s.slab (chunk + 64)).bumpPtr + (s.slab (chunk + 64)).blockSize
        usedObjects := ((s.slab (chunk + 64)).usedObjects + 1) % 2 ^ 32 } := by
    simp only [bumpBlock, if_pos room]
  rw [result]
  refine { core with slabs := ?_, spans := ?_, mail := ?_, objects := ?_, recorded := ?_ }
  · intro other owner size otherKind
    by_cases here : other = chunk
    · subst here
      obtain ⟨rfl, rfl⟩ := BlockKind.slab_unique kind otherKind
      simp only [setSlab, Function.update_self]
      exact grown
    · have different : other + 64 ≠ chunk + 64 := by omega
      simp only [setSlab, Function.update_of_ne different]
      exact slab_ok_elsewhere core otherKind (by rwa [base]) fun _ _ _ => rfl
  · intro other owner otherKind
    refine span_ok_elsewhere core otherKind ?_
    rintro rfl
    rw [base] at otherKind
    exact absurd (kind.symm.trans otherKind) (by simp)
  · exact mail_inv_settle core (by simp [unborn, NodePlace.InFlight])
      (by simp [NodePlace.InFlight]) fun _ _ _ => rfl
  · exact object_inv_settle core.objects (by simp [base, kind, BlockKind.owner]) (by simp)
  · exact record_inv_take core.recorded (by simp [base, kind, objectOrigin])

/-- An exhausted bump pointer is replaced by `NULL`; the count stays. -/
theorem core_exhaust (core : Core mode s g) {tlh classIdx chunk : Nat}
    (kind : g.kind chunk = .slab tlh classIdx) (active : (s.slab (chunk + 64)).bumpPtr ≠ 0)
    (full : ¬(s.slab (chunk + 64)).bumpPtr + (s.slab (chunk + 64)).blockSize ≤
      (s.slab (chunk + 64)).memoryEnd) :
    Core mode (setSlab s (chunk + 64) { s.slab (chunk + 64) with bumpPtr := 0 }) g := by
  have ok := core.slabs chunk tlh classIdx kind
  have bound := ok.bumpBound
  have reached : bumpedCount (s.slab (chunk + 64)) = (s.slab (chunk + 64)).maxObjects := by
    have room := (bump_room ok active).not.mp full
    omega
  have same : bumpedCount { s.slab (chunk + 64) with bumpPtr := 0 } =
      bumpedCount (s.slab (chunk + 64)) := by
    rw [reached]
    rfl
  refine { core with slabs := ?_ }
  intro other owner size otherKind
  by_cases here : other = chunk
  · subst here
    simp only [setSlab, Function.update_self]
    have okHere := core.slabs other owner size otherKind
    refine { okHere with bumpPtr := ?_, bumpBound := ?_, used := ?_, freeList := ?_, blocks := ?_ }
    · intro impossible
      exact absurd rfl impossible
    · rw [same]
      exact okHere.bumpBound
    · rw [same]
      exact okHere.used
    · rw [same]
      exact okHere.freeList
    · rw [same]
      exact okHere.blocks
  · have different : other + 64 ≠ chunk + 64 := by omega
    simp only [setSlab, Function.update_of_ne different]
    exact core.slabs other owner size otherKind

end Lzmalloc.SlabBlocks
