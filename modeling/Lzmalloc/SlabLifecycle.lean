import Lzmalloc.ChunkTransfer
import Lzmalloc.ClientView

/-!
# Life of a slab

Release of an empty slab, the whole local free path, creation of a slab, and
the slow path of the allocation. These are the places where a slab changes the
list it is on because of its counters, so they are stated for the full
invariant.
-/

namespace Lzmalloc.SlabLifecycle

open SizeClasses HeapState VirtualMemoryManager PointerChain DoublyLinked Engines ThreadHeap
open HeapInvariant InvariantFacts SlabBlocks BinLists ChunkCaches RadixTree ChunkRoles ChunkTransfer
open ClientView

set_option autoImplicit false

variable {mode : Mode} {s : State} {g : Ghost} {tlh classIdx chunk : Nat}

/-! ## Release of a formatted chunk -/

theorem header_inv_role {vmm other : Vmm} {kind : Nat → BlockKind} {role : BlockKind}
    (inv : HeaderInv vmm kind)
    (elsewhere : ∀ base, base ≠ chunk → other.header base = vmm.header base)
    (slab : ∀ tlh classIdx, role = .slab tlh classIdx →
      (other.header chunk).owningTlh = tlh ∧ (other.header chunk).chunkType = .slab ∧
        checksumOk other chunk)
    (span : ∀ tlh, role = .span tlh →
      (other.header chunk).owningTlh = tlh ∧ (other.header chunk).chunkType = .span)
    (isChunk : role.IsChunk) : HeaderInv other (Function.update kind chunk role) := by
  refine ⟨fun base tlh classIdx isSlab => ?_, fun base tlh isSpan => ?_, fun header isDirect => ?_⟩
  · by_cases same : base = chunk
    · subst same
      exact slab tlh classIdx (by simpa using isSlab)
    · rw [Function.update_of_ne same] at isSlab
      rw [checksumOk, elsewhere base same]
      exact inv.slab base tlh classIdx isSlab
  · by_cases same : base = chunk
    · subst same
      exact span tlh (by simpa using isSpan)
    · rw [Function.update_of_ne same] at isSpan
      rw [elsewhere base same]
      exact inv.span base tlh isSpan
  · by_cases same : header = chunk
    · rw [same, Function.update_self] at isDirect
      simp [isDirect, BlockKind.IsChunk] at isChunk
    · rw [Function.update_of_ne same] at isDirect
      rw [magicOk, elsewhere header same]
      exact inv.direct header isDirect

theorem core_release {bins : Nat → Nat → Bin} {links spanLinks : Links Nat}
    {activeSpans : Nat → Nat} {bin : Nat → BinPlace} (core : Core mode s g)
    (owned : (g.kind chunk).owner = some tlh)
    (empty : ∀ ptr, chunkBase ptr = chunk → ¬(g.node ptr).InUse)
    (lists : ListInv bins links (Function.update g.kind chunk .loose) bin)
    (current : CurrentInv bins links (Function.update g.kind chunk .loose) bin)
    (spanList : ∀ heap, Doubly spanLinks (activeSpans heap) (fun span => ∃ base,
      span = base + 64 ∧ Function.update g.kind chunk .loose base = .span heap)) :
    Core mode
      { s with
        bins := bins, slabLinks := links, spanLinks := spanLinks, activeSpans := activeSpans }
      (setRole g chunk .loose bin) := by
  have taken : (g.kind chunk).TakenOut ∧ (g.kind chunk).IsChunk ∧ (g.kind chunk).cached = none ∧
      (g.kind chunk).header chunk = chunk := by
    cases known : g.kind chunk <;>
      simp_all [BlockKind.owner, BlockKind.TakenOut, BlockKind.IsChunk, BlockKind.cached,
        BlockKind.header]
  obtain ⟨takenOut, isChunk, uncached, header⟩ := taken
  refine core_role core ⟨rfl, rfl, rfl, rfl, rfl, rfl, rfl, rfl, rfl⟩ isChunk trivial empty
    (by simp [BlockKind.owner]) (fun _ _ _ => rfl) ?_ ?_ ?_ lists current (fun _ _ => rfl)
    (by simp) spanList (fun _ _ => rfl) (by simp)
  · refine vmm_inv_role core.vmm isChunk trivial ?_ (fun _ => core.vmm.takenHeader chunk takenOut)
      (fun _ _ => rfl) rfl
    rw [show BlockKind.loose.cached = (g.kind chunk).cached from uncached.symm,
      Function.update_eq_self chunk fun each => (g.kind each).cached]
    exact core.vmm.caches
  · exact header_inv_role core.header (fun _ _ => rfl) (by simp) (by simp) trivial
  · refine rtree_inv_role core.rtree id (fun _ _ _ => rfl) ?_ fun _ impossible =>
      absurd rfl impossible
    intro address bound same
    have sound := core.rtree.sound address bound
    rwa [same, header] at sound

/-! ## Entries of loose chunks -/

theorem object_inv_rtree {rtree other : Rtree} {outgoingBatch : Nat → Batch}
    {direct : Nat → DirectInfo} {heaps : List Nat} {kind : Nat → BlockKind}
    {node : Nat → NodePlace} (inv : ObjectInv mode rtree outgoingBatch direct heaps kind node)
    (lookups : ∀ ptr, node ptr ≠ .none → lzRtreeGet other ptr = lzRtreeGet rtree ptr) :
    ObjectInv mode other outgoingBatch direct heaps kind node := by
  refine { inv with registered := ?_ }
  intro resolves ptr flying
  have present : node ptr ≠ .none := by
    intro none
    simp [none, NodePlace.InFlight] at flying
  rw [lookups ptr present]
  exact inv.registered resolves ptr flying

theorem core_rtree_set (core : Core mode s g) (loose : g.kind chunk = .loose) {metadata : Nat}
    (own : metadata = 0 ∨ metadata = chunk) : Core mode (lzRtreeSet s chunk metadata) g := by
  obtain ⟨aligned, _, bound⟩ := core.geom.placed chunk (by simp [loose])
  have chunkBound : chunk < 2 ^ 48 := by omega
  rw [lz_rtree_set_eq]
  refine { core with rtree := ⟨?_, ?_⟩, objects := ?_ }
  · intro address below
    by_cases inside : chunkBase address = chunk
    · have known : lzRtreeGet (lzRtreeSet s chunk metadata).rtree address = 0 ∨
          lzRtreeGet (lzRtreeSet s chunk metadata).rtree address = metadata :=
        (lz_rtree_get_set_same below chunkBound ((chunk_base_iff_div aligned).mp inside)).1
      rw [inside, loose]
      rcases own with rfl | rfl
      · exact Or.inl (known.elim id id)
      · exact known
    · change lzRtreeGet (lzRtreeSet s chunk metadata).rtree address = 0 ∨ _
      rw [lz_rtree_get_set_other below chunkBound fun same =>
        inside ((chunk_base_iff_div aligned).mpr same)]
      exact core.rtree.sound address below
  · intro mapped address below known
    have elsewhere : chunkBase address ≠ chunk := by
      intro inside
      rw [inside] at known
      exact known loose
    change lzRtreeGet (lzRtreeSet s chunk metadata).rtree address = _
    rw [lz_rtree_get_set_other below chunkBound fun same =>
      elsewhere ((chunk_base_iff_div aligned).mpr same)]
    rw [← lz_rtree_set_eq s chunk metadata] at mapped
    exact core.rtree.complete (leaves_granted_set mapped) address below known
  · refine object_inv_rtree core.objects fun ptr present => ?_
    obtain ⟨_, limit⟩ := core_node_bound core present
    refine lz_rtree_get_set_other (by omega) chunkBound fun same => ?_
    have holds := core.objects.scope ptr present
    rw [(chunk_base_iff_div aligned).mpr same, loose] at holds
    exact holds

/-- The end of `lz_slab_destroy` and of `lz_span_free_local`. -/
theorem core_destroy (core : Core mode s g) (loose : g.kind chunk = .loose) :
    ∃ place, Core mode (lzVmmFreeChunk (lzRtreeClear s chunk) chunk)
      { g with kind := Function.update g.kind chunk (.idle place) } := by
  obtain ⟨aligned, _, bound⟩ := core.geom.placed chunk (by simp [loose])
  refine core_vmm_free (core_rtree_set core loose (Or.inl rfl)) loose fun address below inside => ?_
  exact lz_rtree_get_clear below (by omega) ((chunk_base_iff_div aligned).mp inside)

/-! ## Recycling an empty slab -/

theorem filled_at_other {slab descriptors : Nat → Slab} {last : Ghost}
    (filled : FilledAt slab g chunk) (kind : last.kind chunk = g.kind chunk)
    (bin : last.bin chunk = g.bin chunk)
    (same : descriptors (chunk + 64) = slab (chunk + 64)) : FilledAt descriptors last chunk := by
  unfold FilledAt at filled ⊢
  rw [kind, bin, same]
  exact filled

theorem filled_at_current {slab : Nat → Slab} (current : g.bin chunk = .inCurrent) :
    FilledAt slab g chunk := fun _ _ _ => by simp [current]

theorem filled_at_unowned {slab : Nat → Slab} (unowned : (g.kind chunk).owner = none) :
    FilledAt slab g chunk := fun _ _ isSlab => by simp [isSlab, BlockKind.owner] at unowned

theorem quiet_set_role {role : BlockKind} {bin : Nat → BinPlace}
    (empty : ∀ ptr, chunkBase ptr = chunk → ¬(g.node ptr).InUse) :
    Quiet g (setRole g chunk role bin) := by
  have used : ∀ ptr place, place.InUse →
      (dropNodes g.node chunk ptr = place ↔ g.node ptr = place) := by
    intro ptr place inUse
    by_cases inside : chunkBase ptr = chunk
    · rw [drop_nodes_inside inside]
      refine iff_of_false ?_ fun there => empty ptr inside (there ▸ inUse)
      rintro rfl
      exact inUse
    · rw [drop_nodes_outside inside]
  refine ⟨fun ptr => used ptr .live trivial, fun ptr => used ptr .leaked trivial, ?_,
    fun ptr tlh => (used ptr (.reaping tlh) trivial).mp, rfl⟩
  intro ptr flying
  change (dropNodes g.node chunk ptr).InFlight at flying
  by_cases inside : chunkBase ptr = chunk
  · simp [drop_nodes_inside inside, NodePlace.InFlight] at flying
  · rwa [drop_nodes_outside inside] at flying

theorem landed_dropped {last : Ghost} (nodes : last.node = dropNodes g.node chunk) :
    Landed g last := by
  intro ptr flying
  rw [nodes] at flying ⊢
  by_cases inside : chunkBase ptr = chunk
  · simp [drop_nodes_inside inside, NodePlace.InFlight] at flying
  · rw [drop_nodes_outside inside]

theorem swept_destroyed {slab : Nat → Slab} {last : Ghost} {place : CachePlace}
    (zero : Cleared slab g.kind → (slab (chunk + 64)).usedObjects = 0)
    (cursor : last.cursor = g.cursor) (idle : last.kind chunk = .idle place)
    (kinds : ∀ base, base ≠ chunk → last.kind base = g.kind base)
    (nodes : ∀ ptr, chunkBase ptr ≠ chunk → last.node ptr = g.node ptr) :
    Swept slab g slab last := by
  have outside : ∀ base, (∀ cache, last.kind base ≠ .idle cache) → base ≠ chunk := by
    rintro base busy rfl
    exact busy place idle
  refine ⟨⟨⟨cursor, fun base dropped => ?_⟩, fun clear base other => ?_⟩, fun base => ?_, ?_, ?_⟩
  · have different := outside base (by simp [dropped])
    rwa [kinds base different] at dropped
  · by_cases same : base = chunk
    · rw [same]
      exact zero clear
    · rw [kinds base same] at other
      exact clear base other
  · by_cases same : base = chunk
    · exact Or.inr ⟨place, same ▸ idle⟩
    · exact Or.inl (kinds base same)
  · intro ptr heap size isSlab present
    have different := outside (chunkBase ptr) (by simp [isSlab])
    rwa [nodes ptr different]
  · rintro base heap isSpan ⟨ptr, rfl, present⟩
    have different := outside (chunkBase ptr) (by simp [isSpan])
    exact ⟨ptr, rfl, by rwa [nodes ptr different]⟩

theorem slab_empty {slab : Slab} {next : Nat → Nat} {node : Nat → NodePlace}
    (ok : SlabOk slab next node chunk classIdx) (zero : slab.usedObjects = 0) {block : Nat}
    (inside : chunkBase block = chunk) : ¬(node block).InUse := by
  intro used
  have present : node block ≠ .none := by
    intro none
    simp [none, NodePlace.InUse] at used
  have taken : node block ≠ .free := by
    intro free
    simp [free, NodePlace.InUse] at used
  have positive := slab_used_positive ok inside present taken
  omega

theorem lz_slab_destroy_eq (aligned : chunk % 2097152 = 0) (checksum : checksumOk s.vmm chunk) :
    lzSlabDestroy s (chunk + 64) = lzVmmFreeChunk (lzRtreeClear s chunk) chunk := by
  have base : chunkBase (chunk + 64) = chunk := chunk_base_eq aligned (by omega) (by omega)
  simp [lzSlabDestroy, base, checksum]

@[simp] theorem destroy_slab_field (s : State) (chunk : Nat) :
    (lzVmmFreeChunk (lzRtreeClear s chunk) chunk).slab = s.slab := by
  have only := lz_vmm_free_chunk_only (lzRtreeClear s chunk) chunk
  rw [only, lzRtreeClear, lz_rtree_set_eq]

/-- The checksum guard of `lz_slab_destroy` holds for every slab. -/
theorem inv_slab_destroy {bins : Nat → Nat → Bin} {links : Links Nat} {bin : Nat → BinPlace}
    (core : Core mode s g) (here : g.kind chunk = .slab tlh classIdx)
    (zero : (s.slab (chunk + 64)).usedObjects = 0)
    (lists : ListInv bins links (Function.update g.kind chunk .loose) bin)
    (current : CurrentInv bins links (Function.update g.kind chunk .loose) bin)
    (filled : ∀ other, other ≠ chunk → FilledAt s.slab { g with bin := bin } other) :
    ∃ last, Inv mode (lzSlabDestroy { s with bins := bins, slabLinks := links } (chunk + 64)) last ∧
      Quiet g last ∧
      Swept s.slab g
        (lzSlabDestroy { s with bins := bins, slabLinks := links } (chunk + 64)).slab last ∧
      Landed g last := by
  obtain ⟨aligned, _, _⟩ := core.geom.placed chunk (by simp [here])
  have empty : ∀ ptr, chunkBase ptr = chunk → ¬(g.node ptr).InUse := fun ptr inside =>
    slab_empty (core.slabs chunk tlh classIdx here) zero inside
  have spanList : ∀ heap, Doubly s.spanLinks (s.activeSpans heap) (fun span => ∃ base,
      span = base + 64 ∧ Function.update g.kind chunk .loose base = .span heap) := by
    intro heap
    refine doubly_congr (core.spanList heap) (fun _ _ => rfl) (fun _ _ => rfl) fun span => ?_
    refine exists_congr fun base => and_congr_right fun _ => ?_
    by_cases same : base = chunk
    · simp [same, here]
    · simp [same]
  have released := core_release core (by rw [here]; rfl) empty lists current spanList
  have loose : (setRole g chunk .loose bin).kind chunk = .loose := by simp [setRole]
  obtain ⟨place, destroyed⟩ := core_destroy released loose
  rw [lz_slab_destroy_eq (s := { s with bins := bins, slabLinks := links }) aligned
    (core.header.slab chunk tlh classIdx here).2.2]
  refine ⟨_, { destroyed with filled := fun other => ?_ }, ?_, ?_, landed_dropped rfl⟩
  · rw [destroy_slab_field]
    by_cases same : other = chunk
    · exact filled_at_unowned (by simp [same, BlockKind.owner])
    · exact filled_at_other (filled other same) (by simp [setRole, same]) rfl rfl
  · have quiet : Quiet g (setRole g chunk .loose bin) := quiet_set_role empty
    exact quiet_trans quiet (quiet_of_node rfl rfl)
  · rw [destroy_slab_field]
    refine swept_destroyed (fun _ => zero) rfl (Function.update_self ..) (fun base different => ?_)
      fun ptr outside => drop_nodes_outside outside
    simp [setRole, different]

theorem inv_recycle (core : Core mode s g) (here : g.kind chunk = .slab tlh classIdx)
    (zero : (s.slab (chunk + 64)).usedObjects = 0) (place : g.bin chunk ≠ .inFull)
    (filled : ∀ other, other ≠ chunk → FilledAt s.slab g other) :
    ∃ last, Inv mode (lzTlhRecycleEmptySlab s tlh (chunk + 64)) last ∧ Quiet g last ∧
      Swept s.slab g (lzTlhRecycleEmptySlab s tlh (chunk + 64)).slab last ∧ Landed g last := by
  have sizeClass := (core.slabs chunk tlh classIdx here).sizeClass
  unfold lzTlhRecycleEmptySlab
  simp only [sizeClass]
  by_cases isCurrent : chunk + 64 = (s.bins tlh classIdx).currentSlab
  · have there := (core_current core here).mpr isCurrent.symm
    rw [if_pos isCurrent]
    by_cases alone : (s.bins tlh classIdx).partialList = 0
    · rw [if_pos alone]
      refine ⟨g, { core with filled := fun other => ?_ }, quiet_refl g, swept_refl s.slab g,
        landed_refl g⟩
      by_cases same : other = chunk
      · exact filled_at_current (same ▸ there)
      · exact filled other same
    · rw [if_neg alone]
      obtain ⟨next, head, nextKind, nextPlace⟩ := core_partial_slab core alone
      have different : next ≠ chunk := by
        rintro rfl
        simp [there] at nextPlace
      -- the current slab goes first, then the head of the partial list replaces it
      have lists : ListInv s.bins s.slabLinks (Function.update g.kind chunk .loose) g.bin := by
        refine list_inv_role core.lists (unlisted_of_current there) ?_ fun other apart => ?_
        · intro heap size listed _
          simp [in_bin_descriptor]
        · simp [apart]
      have others : CurrentElse s.bins s.slabLinks (Function.update g.kind chunk .loose) g.bin tlh
          classIdx := by
        intro heap size apart
        refine current_at_congr (core.current heap size) (fun _ _ => ⟨rfl, rfl⟩) fun slab => ?_
        by_cases same : slab = chunk + 64
        · subst same
          simp only [in_bin_descriptor, Function.update_self, reduceCtorEq, false_and, false_iff]
          rintro ⟨isSlab, _⟩
          exact apart (BlockKind.slab_unique here isSlab)
        · exact in_bin_elsewhere (fun other apart => by simp [apart]) same
      have vacant : Vacant (Function.update g.kind chunk .loose) g.bin tlh classIdx := by
        intro other isSlab current
        by_cases same : other = chunk
        · simp [same] at isSlab
        · rw [Function.update_of_ne same] at isSlab
          have position := (core_current core isSlab).mp current
          omega
      have promoted := promote_partial_lists lists others vacant
        (by rw [Function.update_of_ne different]; exact nextKind) nextPlace head
      rw [promote_partial_eq] at promoted ⊢
      refine inv_slab_destroy core here zero promoted.1 promoted.2 fun other apart => ?_
      by_cases same : other = next
      · exact filled_at_current (by simp [same])
      · exact filled_at_other (filled other apart) rfl (by simp [same]) rfl
  · have notCurrent : g.bin chunk ≠ .inCurrent := fun there =>
      isCurrent ((core_current core here).mp there).symm
    have there : g.bin chunk = .inPartial := by
      cases known : g.bin chunk <;> simp_all
    rw [if_neg isCurrent]
    have left := unlink_from_bin_lists core here there
    rw [unlink_from_bin_eq core here there] at left ⊢
    exact inv_slab_destroy core here zero left.1 left.2 filled

/-! ## The local free path -/

theorem account_free_eq (s : State) (tlh bytes : Nat) :
    accountFree s tlh bytes =
      { s with
        slots := (accountFree s tlh bytes).slots
        tlh := (accountFree s tlh bytes).tlh } := by
  unfold accountFree
  cases (s.tlh tlh).statSlot with
  | none => rfl
  | some slot =>
      by_cases flushed : ((s.tlh tlh).localBytesFreeBatch + bytes) % 2 ^ 32 ≥ 4096
      · simp only [if_pos flushed]
      · simp only [if_neg flushed]

theorem inv_account_free (inv : Inv mode s g) (tlh bytes : Nat) :
    Inv mode (accountFree s tlh bytes) g := by
  rw [account_free_eq]
  exact { inv with }

@[simp] theorem account_free_slab (s : State) (tlh bytes : Nat) :
    (accountFree s tlh bytes).slab = s.slab := by
  rw [account_free_eq]

@[simp] theorem rescue_slab_field (s : State) (tlh slab : Nat) :
    (rescueIfWasFull s tlh slab).slab = s.slab := by
  unfold rescueIfWasFull lzTlhRescueFromFull
  split
  · simp only
    split
    · rfl
    · rfl
  · rfl

/-- The slab of a freed block after the rescue: off the full list, and with
counters that fit its list unless it has become empty. -/
theorem core_push_rescue (inv : Inv mode s g) {ptr : Nat}
    (here : g.kind (chunkBase ptr) = .slab tlh classIdx) (live : g.node ptr = .live) :
    ∃ bin last, last = rescueIfWasFull (pushFreeBlock s (chunkBase ptr + 64) ptr) tlh
        (chunkBase ptr + 64) ∧
      Core mode last { g.settle ptr .free with bin := bin } ∧ bin (chunkBase ptr) ≠ .inFull ∧
      (∀ other, other ≠ chunkBase ptr →
        FilledAt last.slab { g.settle ptr .free with bin := bin } other) ∧
      ((last.slab (chunkBase ptr + 64)).usedObjects ≠ 0 →
        FilledAt last.slab { g.settle ptr .free with bin := bin } (chunkBase ptr)) := by
  obtain ⟨chunk, chunkEq⟩ : ∃ chunk, chunkBase ptr = chunk := ⟨_, rfl⟩
  have pushed := core_push_free inv.toCore here live
  have ok := inv.slabs _ tlh classIdx here
  have positive := slab_used_positive ok rfl (by simp [live]) (by simp [live])
  have filled := inv.filled (chunkBase ptr) tlh classIdx here
  obtain ⟨capacity, limit⟩ := slab_capacity ok.classBound
  have used := ok.used
  have bound := ok.bumpBound
  have max := ok.maxObjects
  rw [chunkEq] at here pushed positive filled used bound max ⊢
  set before := s.slab (chunk + 64) with beforeEq
  have after : (pushFreeBlock s (chunk + 64) ptr).slab (chunk + 64) =
      { before with freeListHead := ptr, usedObjects := before.usedObjects - 1 } := by
    have decremented : (before.usedObjects + (2 ^ 32 - 1)) % 2 ^ 32 = before.usedObjects - 1 := by
      omega
    simp only [pushFreeBlock, setSlab, setLink, Function.update_self, ← beforeEq, decremented]
  have others : ∀ other, other ≠ chunk →
      (pushFreeBlock s (chunk + 64) ptr).slab (other + 64) = s.slab (other + 64) := by
    intro other apart
    exact Function.update_of_ne (by omega) _ _
  have wrapped : (before.maxObjects + (2 ^ 32 - 1)) % 2 ^ 32 = before.maxObjects - 1 := by omega
  have condition : (((pushFreeBlock s (chunk + 64) ptr).slab (chunk + 64)).usedObjects =
      (((pushFreeBlock s (chunk + 64) ptr).slab (chunk + 64)).maxObjects + (2 ^ 32 - 1)) % 2 ^ 32) ↔
        before.usedObjects = before.maxObjects := by
    rw [after]
    simp only [wrapped]
    omega
  have kept : ∀ bin, (∀ other, other ≠ chunk → bin other = g.bin other) → ∀ other, other ≠ chunk →
      FilledAt (pushFreeBlock s (chunk + 64) ptr).slab { g.settle ptr .free with bin := bin }
        other := fun bin same other apart =>
    filled_at_other (inv.filled other) rfl (same other apart) (others other apart)
  unfold rescueIfWasFull
  simp only [condition]
  cases place : g.bin chunk with
  | inCurrent =>
      have current := (core_current pushed here).mp place
      have unmoved : (if before.usedObjects = before.maxObjects then
          lzTlhRescueFromFull (pushFreeBlock s (chunk + 64) ptr) tlh (chunk + 64)
          else pushFreeBlock s (chunk + 64) ptr) = pushFreeBlock s (chunk + 64) ptr := by
        have sizeClass := (pushed.slabs chunk tlh classIdx here).sizeClass
        have same : lzTlhRescueFromFull (pushFreeBlock s (chunk + 64) ptr) tlh (chunk + 64) =
            pushFreeBlock s (chunk + 64) ptr := by
          simp only [lzTlhRescueFromFull, sizeClass, if_pos current.symm]
        rw [same, ite_self]
      rw [unmoved]
      exact ⟨g.bin, _, rfl, pushed, by simp [place], kept g.bin fun _ _ => rfl,
        fun _ => filled_at_current place⟩
  | inPartial =>
      obtain ⟨_, below, exhausted⟩ := filled.2 place
      rw [if_neg (by omega)]
      refine ⟨g.bin, _, rfl, pushed, by simp [place], kept g.bin fun _ _ => rfl, ?_⟩
      intro nonempty heap size isSlab
      rw [after] at nonempty ⊢
      refine ⟨fun full => by simp [place] at full, fun _ => ?_⟩
      dsimp only at nonempty ⊢
      exact ⟨by omega, by omega, exhausted⟩
  | inFull =>
      obtain ⟨full, exhausted⟩ := filled.1 place
      rw [if_pos full]
      have rescued := core_rescue pushed here place
      have slabs : (lzTlhRescueFromFull (pushFreeBlock s (chunk + 64) ptr) tlh (chunk + 64)).slab =
          (pushFreeBlock s (chunk + 64) ptr).slab := by
        rw [lz_tlh_rescue_from_full_eq pushed here (by simp [place])]
      refine ⟨_, _, rfl, rescued, by simp, ?_, ?_⟩
      · rw [slabs]
        exact kept _ fun other apart => Function.update_of_ne apart _ _
      · intro _ heap size isSlab
        rw [slabs, after]
        refine ⟨fun still => by simp at still, fun _ => ?_⟩
        dsimp only
        exact ⟨by omega, by omega, exhausted⟩

/-- The local branch of `lz_tlh_free` for a slab, and the body of the reap loop. -/
theorem inv_free_slab (inv : Inv mode s g) {ptr : Nat}
    (here : g.kind (chunkBase ptr) = .slab tlh classIdx) (live : g.node ptr = .live) :
    ∃ last, Inv mode (lzTlhFreeSlab s tlh (chunkBase ptr) ptr) last ∧ Released g last ptr ∧
      Swept s.slab g (lzTlhFreeSlab s tlh (chunkBase ptr) ptr).slab last ∧ Landed g last := by
  obtain ⟨bin, rescued, rescuedEq, core, place, others, filled⟩ := core_push_rescue inv here live
  have pushed : Swept s.slab g rescued.slab { g.settle ptr .free with bin := bin } := by
    refine swept_of_course (course_of_kind rfl rfl fun chunk other => ?_) rfl fun node present => ?_
    · have different : chunk ≠ chunkBase ptr := by
        rintro rfl
        exact other tlh classIdx here
      rw [rescuedEq, rescue_slab_field]
      simp only [pushFreeBlock, setSlab, setLink, Function.update_of_ne
        (by omega : chunk + 64 ≠ chunkBase ptr + 64)]
    · by_cases same : node = ptr
      · simp [Ghost.settle, same]
      · simpa [Ghost.settle, same] using present
  have released : Released g { g.settle ptr .free with bin := bin } ptr :=
    released_quiet (settle_released live (by simp) (by simp)) (quiet_of_node rfl rfl)
  have landed : Landed g { g.settle ptr .free with bin := bin } := settle_landed id
  unfold lzTlhFreeSlab
  simp only [lzCacheLineSize, ← rescuedEq]
  by_cases empty : (rescued.slab (chunkBase ptr + 64)).usedObjects = 0
  · obtain ⟨last, recycled, quiet, swept, dropped⟩ := inv_recycle core here empty place others
    simp only [recycleIfEmpty, if_pos empty, account_free_slab]
    exact ⟨last, inv_account_free recycled _ _, released_quiet released quiet,
      swept_trans pushed swept, landed_trans landed dropped⟩
  · simp only [recycleIfEmpty, if_neg empty, account_free_slab]
    refine ⟨_, inv_account_free ?_ _ _, released, pushed, landed⟩
    refine { core with filled := fun other => ?_ }
    by_cases same : other = chunkBase ptr
    · exact same ▸ filled empty
    · exact others other same

end Lzmalloc.SlabLifecycle
