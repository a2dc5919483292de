import Lzmalloc.CollectionContracts
import Lzmalloc.ObjectContracts
import Lzmalloc.RegistrationFrames
import Lzmalloc.SlabPlacement

/-!
# When a returned pointer can be used

A leaf of the radix tree that cannot be mapped is not reported to the caller of
`lz_rtree_set`: the chunk is used all the same, and its objects have usable size
zero and cannot be freed. With the entry of its block in place, an object has
its size, and `lz_free` gives it back at any later time.
-/

namespace Lzmalloc.UsablePointers

open SizeClasses HeapState VirtualMemoryManager PointerChain Engines ThreadHeap PublicApi StepSystem
open Mappings HeapInvariant InvariantFacts RadixTree ChunkTransfer ClientView SlabAllocation
open SpanPages RemoteFree ThreadFrames ObjectRanges HeapOperations ConcreteView DirectObjects
open ThreadLifecycle ApiOperations ApiRuns CallParts Collection CollectionContracts SpanPlacement
open SlabPlacement RegistrationFrames
open SlabContracts (generousEnv)
open ObjectContracts (along_fits_of_small)
open SpanLifecycle (spanPages)

set_option autoImplicit false

variable {mode : Mode} {s after : State} {g last : Ghost} {gone : Nat → Prop}
  {thread tlh chunk ptr size address scIdx : Nat}

/-! ## Registration of the new object -/

/-- The leaf for the address is mapped, or the next request for a leaf is granted. -/
def LeafReady (s : State) (address : Nat) : Prop :=
  s.rtree (rtreeL1 address) ≠ none ∨ s.env.leafMmap s.leafCalls = true

theorem leaf_ready_same (same : SameTree s after) :
    LeafReady after address ↔ LeafReady s address := by
  rw [LeafReady, LeafReady, same.rtree, same.env, same.calls]

theorem leaf_ready_unregisters (unregisters : Unregisters gone s after) :
    LeafReady after address ↔ LeafReady s address := by
  rw [LeafReady, LeafReady, ne_eq, unregisters.leaves, unregisters.env, unregisters.calls]

theorem rtree_set_found {metadata : Nat} (bound : address < 2 ^ 48) (chunkBound : chunk < 2 ^ 48)
    (same : address / 2097152 = chunk / 2097152) (nonnull : metadata ≠ 0) :
    lzRtreeGet (lzRtreeSet s chunk metadata).rtree address ≠ 0 ↔ LeafReady s address := by
  rw [lz_rtree_get_set bound chunkBound, if_pos same, LeafReady, (rtree_index_block same).1]
  by_cases failed : s.rtree (rtreeL1 chunk) = none ∧ s.env.leafMmap s.leafCalls = false
  · simp [failed]
  · rw [if_neg failed]
    simp only [ne_eq, nonnull, not_false_eq_true, true_iff]
    by_contra refused
    rw [not_or, not_not, Bool.not_eq_true] at refused
    exact failed refused

theorem claim_found (core : Core mode s g) (loose : g.kind chunk = .loose)
    (inside : chunk ≤ address ∧ address < chunk + 2097152) (type : ChunkType) :
    lzRtreeGet (lzRtreeSet { s with vmm := claimHeader s.vmm chunk tlh type } chunk chunk).rtree
      address ≠ 0 ↔ LeafReady s address := by
  obtain ⟨aligned, positive, bound⟩ := core.geom.placed chunk (by simp [loose])
  exact rtree_set_found (by omega) (by omega) (by omega) (by omega)

theorem slow_partial_tree (available : (s.bins tlh scIdx).partialList ≠ 0) :
    SameTree s (lzTlhAllocSlow s tlh scIdx).2 ∧ (lzTlhAllocSlow s tlh scIdx).2.vmm = s.vmm := by
  have retired : SameTree s (retireCurrent s tlh scIdx) ∧
      (retireCurrent s tlh scIdx).vmm = s.vmm := by
    unfold retireCurrent
    simp only
    split
    · exact ⟨⟨rfl, rfl, rfl⟩, rfl⟩
    · exact ⟨⟨rfl, rfl, rfl⟩, rfl⟩
  unfold lzTlhAllocSlow
  rw [if_pos available]
  exact ⟨⟨retired.1.rtree, retired.1.calls, retired.1.env⟩, retired.2⟩

theorem slow_create_found (core : Core mode s g) (classBound : scIdx < 40)
    (none : (s.bins tlh scIdx).partialList = 0) (nonnull : (lzTlhAllocSlow s tlh scIdx).1 ≠ 0) :
    lzRtreeGet (lzTlhAllocSlow s tlh scIdx).2.rtree (lzTlhAllocSlow s tlh scIdx).1 ≠ 0 ↔
      LeafReady s (lzTlhAllocSlow s tlh scIdx).1 := by
  obtain ⟨only, roles, _, _, takenCore, loose⟩ := core_vmm_alloc core
  unfold lzTlhAllocSlow lzSlabCreate at nonnull ⊢
  rw [if_neg (not_not.mpr none)] at nonnull ⊢
  cases given : lzVmmAllocChunk s with
  | mk chunk taken =>
      rw [given] at only takenCore loose
      simp only [given] at nonnull ⊢
      by_cases failed : chunk = 0
      · simp [failed] at nonnull
      · simp only [if_neg failed]
        rw [if_neg (by simp only [lzCacheLineSize]; omega)]
        obtain ⟨aligned, _, bound⟩ := takenCore.geom.placed chunk (by simp [loose failed])
        have first : ((installSlab taken tlh scIdx chunk).slab (chunk + 64)).bumpPtr =
            chunk + 128 := by
          rw [install_slab_eq]
          simp only [Function.update_self, fresh_slab_eq aligned bound classBound]
        change lzRtreeGet (installSlab taken tlh scIdx chunk).rtree
          ((installSlab taken tlh scIdx chunk).slab (chunk + 64)).bumpPtr ≠ 0 ↔
            LeafReady s ((installSlab taken tlh scIdx chunk).slab (chunk + 64)).bumpPtr
        rw [first, install_slab_eq]
        dsimp only
        rw [claim_found takenCore (loose failed) (by omega)]
        exact leaf_ready_same (same_tree_manager only)

/-- The entry for a block that `lz_tlh_alloc` returns: made by the call when it
creates a slab, otherwise the one that was there. -/
theorem tlh_alloc_found (inv : Inv mode s g) (idle : g.cursor tlh = 0)
    (small : size ≤ lzMaxSlabObjSize) (lastInv : Inv mode (lzTlhAlloc s tlh size).2 last)
    (present : last.node (lzTlhAlloc s tlh size).1 ≠ .none)
    (nonnull : (lzTlhAlloc s tlh size).1 ≠ 0) :
    (AsksForSlab s tlh (lzSizeToClass size) →
      (lzRtreeGet (lzTlhAlloc s tlh size).2.rtree (lzTlhAlloc s tlh size).1 ≠ 0 ↔
        LeafReady s (lzTlhAlloc s tlh size).1)) ∧
    (¬AsksForSlab s tlh (lzSizeToClass size) →
      lzRtreeGet (lzTlhAlloc s tlh size).2.rtree (lzTlhAlloc s tlh size).1 =
        lzRtreeGet s.rtree (lzTlhAlloc s tlh size).1) := by
  have classBound := slab_class_bound (by simpa using small : size ≤ 32768)
  have attempted := attempt_unregisters inv idle (lzSizeToClass size)
  have outcome := inv_alloc_attempt inv idle (lzSizeToClass size)
  unfold AsksForSlab
  unfold lzTlhAlloc at lastInv present nonnull ⊢
  rw [if_neg (Nat.not_lt.mpr small)] at lastInv present nonnull ⊢
  simp only at lastInv present nonnull ⊢
  generalize lzTlhAllocAttempt s tlh (lzSizeToClass size) = attempt at *
  -- The accounting at the end touches neither the tree nor the manager.
  obtain ⟨got, gotEq⟩ : ∃ got,
    (if attempt.1 = 0 then lzTlhAllocSlow attempt.2 tlh (lzSizeToClass size)
    else attempt) = got := ⟨_, rfl⟩
  rw [gotEq] at lastInv present nonnull ⊢
  by_cases null : got.1 = 0
  · simp [null] at nonnull
  rw [if_neg null] at lastInv present nonnull ⊢
  rw [account_alloc_eq] at lastInv ⊢
  dsimp only at present nonnull ⊢
  have kept : Unregisters (InManager got.2.vmm) s got.2 →
      lzRtreeGet got.2.rtree got.1 = lzRtreeGet s.rtree got.1 := by
    intro unregisters
    have core : Core mode got.2 last := { lastInv.toCore with }
    exact lookup_kept core unregisters present
  constructor
  · intro asks
    obtain ⟨failed, none⟩ := asks
    rw [if_pos failed] at gotEq
    have middle := (outcome.resolve_right fun some => some.1 failed).2
    obtain ⟨_, middleInv, _⟩ := middle
    rw [← gotEq] at null ⊢
    rw [slow_create_found middleInv.toCore classBound none null]
    exact leaf_ready_unregisters attempted
  · intro refuses
    apply kept
    by_cases failed : attempt.1 = 0
    · have available : (attempt.2.bins tlh (lzSizeToClass size)).partialList ≠ 0 :=
        fun none => refuses ⟨failed, none⟩
      obtain ⟨tree, manager⟩ := slow_partial_tree available
      rw [if_pos failed] at gotEq
      rw [← gotEq, manager]
      exact unregisters_trans attempted (unregisters_same tree) fun _ => id
    · rw [if_neg failed] at gotEq
      rw [← gotEq]
      exact attempted

theorem span_alloc_found (core : Core mode s g) (nonnull : (lzSpanAlloc s tlh size).1 ≠ 0) :
    (AsksForChunk s tlh size →
      (lzRtreeGet (lzSpanAlloc s tlh size).2.rtree (lzSpanAlloc s tlh size).1 ≠ 0 ↔
        LeafReady s (lzSpanAlloc s tlh size).1)) ∧
    (¬AsksForChunk s tlh size → (lzSpanAlloc s tlh size).2.rtree = s.rtree) := by
  constructor
  · intro asks
    obtain ⟨only, roles, _, _, takenCore, loose⟩ := core_vmm_alloc core
    cases given : lzVmmAllocChunk s with
    | mk chunk taken =>
        rw [given] at only takenCore loose
        by_cases failed : chunk = 0
        · have refused := span_alloc_refused asks (by rw [given]; exact failed)
          rw [refused] at nonnull
          exact absurd rfl nonnull
        obtain ⟨aligned, _, bound⟩ := takenCore.geom.placed chunk (by simp [loose failed])
        cases search : findContiguousPages
          ((formatSpan taken tlh chunk).span (chunk + 64)).freeBitmap (spanPages size) with
        | mk found bitmap =>
            cases found with
            | none =>
                unfold AsksForChunk spanPages at asks
                unfold spanPages at search
                simp only [lzSpanAlloc, if_neg (Nat.not_le.mpr asks.1), asks.2, given,
                  if_neg failed,
                  lzCacheLineSize, search] at nonnull
                exact absurd rfl nonnull
            | some start =>
                have room := (find_contiguous_pages_sound search).1
                obtain ⟨pages, inside, _⟩ := room
                have base : chunkBase (chunk + 64) = chunk :=
                  chunk_base_eq aligned (by omega) (by omega)
                have within : chunk ≤ chunk + start * 4096 ∧
                    chunk + start * 4096 < chunk + 2097152 := by
                  omega
                rw [span_alloc_provisioned asks given failed search]
                simp only [finishSpanAlloc, base, lzPageSize, formatSpan]
                rw [claim_found takenCore (loose failed) within]
                exact leaf_ready_same (same_tree_manager only)
  · intro served
    unfold lzSpanAlloc at nonnull ⊢
    simp only at nonnull ⊢
    split
    · rfl
    · next few =>
        split
        · rfl
        · next missed => exact absurd ⟨Nat.not_le.mp few, missed⟩ served

theorem rtree_set_tree (same : SameTree s after) (chunk metadata : Nat) :
    SameTree (lzRtreeSet s chunk metadata) (lzRtreeSet after chunk metadata) := by
  unfold lzRtreeSet
  rw [same.rtree, same.calls, same.env]
  cases s.rtree (rtreeL1 chunk) with
  | some leaf => exact ⟨rfl, rfl, rfl⟩
  | none =>
      by_cases null : metadata = 0
      · simp only [if_pos null]
        exact same
      · simp only [if_neg null]
        split
        · exact ⟨rfl, rfl, rfl⟩
        · exact ⟨rfl, rfl, rfl⟩

theorem set_blocks_tree (same : SameTree s after) (base metadata count : Nat) :
    SameTree (setBlocks s base metadata count) (setBlocks after base metadata count) := by
  induction count with
  | zero => exact same
  | succ count ih =>
      rw [set_blocks_succ, set_blocks_succ]
      exact rtree_set_tree ih _ metadata

/-- Each block of a range finds its leaf as the blocks before it have left it. -/
theorem set_blocks_found {base metadata count index : Nat} (aligned : base % 2097152 = 0)
    (limit : base + count * 2097152 ≤ 2 ^ 48) (nonnull : metadata ≠ 0) (inside : index < count)
    (block : address / 2097152 = base / 2097152 + index) :
    lzRtreeGet (setBlocks s base metadata count).rtree address ≠ 0 ↔
      LeafReady (setBlocks s base metadata index) address := by
  induction count with
  | zero => omega
  | succ count ih =>
      have position : (base + count * 2097152) / 2097152 = base / 2097152 + count := by omega
      have smaller : base + count * 2097152 ≤ 2 ^ 48 := by
        rw [Nat.succ_mul, ← Nat.add_assoc] at limit
        exact Nat.le_of_add_right_le limit
      rw [Nat.succ_mul] at limit
      rw [set_blocks_succ]
      simp only [lzHugePageSize]
      by_cases final : index = count
      · rw [final] at block ⊢
        exact rtree_set_found (by omega) (by omega) (by omega) nonnull
      · have before : index < count := by omega
        rw [lz_rtree_get_set_other (by omega) (by omega) (by omega)]
        exact ih smaller before

theorem map_direct_found {offset : Nat} (done : mapDirect s offset size = some (ptr, after))
    (nonnull : ptr ≠ 0) (room : offset < directTotal offset size) :
    lzRtreeGet after.rtree ptr ≠ 0 ↔
      LeafReady (setBlocks s (ptr - offset) (ptr - offset) (offset / lzHugePageSize)) ptr := by
  have multiple := direct_total_multiple offset size
  unfold mapDirect at done
  cases lz_sys_alloc_huge_aligned_cases s multiple (direct_total_lt offset size) with
  | inl failed =>
      simp only [failed, Option.some.injEq, Prod.mk.injEq] at done
      exact absurd done.1.symm nonnull
  | inr granted =>
      obtain ⟨start, mapped, result, maps⟩ := granted
      simp only [result] at done
      split at done
      · simp only [Option.some.injEq, Prod.mk.injEq] at done
        obtain ⟨rfl, rfl⟩ := done
        have aligned := maps.aligned
        have positive := maps.positive
        have bound := maps.bound
        have written : SameTree s (writeDirect mapped start (directTotal offset size) size) := by
          rw [maps.rest]
          exact ⟨rfl, rfl, rfl⟩
        rw [Nat.add_sub_cancel, lz_rtree_set_range_eq _ _ _ multiple]
        generalize directTotal offset size = total at *
        rw [set_blocks_found aligned (by omega) (by omega)
          (by omega : offset / 2097152 < total / 2097152)
          (by omega)]
        exact leaf_ready_same (set_blocks_tree written start start (offset / 2097152))
      · cases done

/-- What the state before the call has to offer for the returned object to be
registered: a leaf for its block when the call registers the block, the entry
itself when it does not. -/
def Registrable (s : State) (thread ptr : Nat) : Route → Prop
  | .slab size => ∀ ready, ensureTlsInit s thread = some ready →
      (AsksForSlab ready (ready.tls thread) (lzSizeToClass size) → LeafReady s ptr) ∧
        (¬AsksForSlab ready (ready.tls thread) (lzSizeToClass size) → lzRtreeGet s.rtree ptr ≠ 0)
  | .span size => ∀ ready, ensureTlsInit s thread = some ready →
      (AsksForChunk ready (ready.tls thread) size → LeafReady s ptr) ∧
        (¬AsksForChunk ready (ready.tls thread) size → lzRtreeGet s.rtree ptr ≠ 0)
  | .direct payloadOffset _ =>
      -- The leaf may have been mapped for an earlier block of the same object.
      LeafReady (setBlocks s (ptr - payloadOffset) (ptr - payloadOffset)
        (payloadOffset / lzHugePageSize)) ptr

def Unwrapping (payloadOffset size : Nat) : Prop :=
  payloadOffset + size + 2 * lzHugePageSize ≤ 2 ^ 64

instance (payloadOffset size : Nat) : Decidable (Unwrapping payloadOffset size) :=
  inferInstanceAs (Decidable (_ ≤ _))

theorem direct_total_room {offset : Nat} (unwrapping : Unwrapping offset size) :
    offset + size ≤ directTotal offset size := by
  simp only [Unwrapping, lzHugePageSize] at unwrapping
  simp only [directTotal, lzHugePageSize, lz_align_up_huge]
  omega

def Route.Proper : Route → Prop
  | .slab size => size ≤ lzMaxSlabObjSize
  | .span _ => True
  | .direct payloadOffset size => 1 ≤ size ∧ Unwrapping payloadOffset size

theorem registrable_cases {asks found entry leaf : Prop} (asked : asks → (found ↔ leaf))
    (served : ¬asks → (found ↔ entry)) : found ↔ (asks → leaf) ∧ (¬asks → entry) := by
  by_cases ask : asks
  · simp [ask, asked ask]
  · simp [ask, served ask]

theorem route_found (rest : AtRest mode s g) {route : Route} (proper : Route.Proper route)
    (done : route.serve s thread = some (ptr, after)) (nonnull : ptr ≠ 0) :
    lzRtreeGet after.rtree ptr ≠ 0 ↔ Registrable s thread ptr route := by
  cases route with
  | slab size =>
      obtain ⟨ready, attached, called⟩ := Option.map_eq_some_iff.mp done
      obtain ⟨readyRest, heap, rtree⟩ := at_rest_attach rest attached
      obtain ⟨last, lastInv, _, outcome⟩ :=
        inv_tlh_alloc readyRest.inv heap (readyRest.cursor (ready.tls thread)) size
      have result : (lzTlhAlloc ready (ready.tls thread) size).1 ≠ 0 := by
        rw [called]
        exact nonnull
      have fresh := (outcome.resolve_left fun failed => result failed.1).2
      have present : last.node (lzTlhAlloc ready (ready.tls thread) size).1 ≠ .none := by
        simp [(fresh.live _).mpr (Or.inl rfl)]
      have found :=
        tlh_alloc_found readyRest.inv (readyRest.cursor (ready.tls thread)) proper lastInv
        present result
      rw [called, rtree, leaf_ready_same (ensure_tls_init_tree attached)] at found
      have iff := registrable_cases found.1 fun served => by rw [found.2 served]
      simp only [Registrable, attached, Option.some.injEq, forall_eq']
      exact iff
  | span size =>
      obtain ⟨ready, attached, called⟩ := Option.map_eq_some_iff.mp done
      obtain ⟨readyRest, heap, rtree⟩ := at_rest_attach rest attached
      have result : (lzSpanAlloc ready (ready.tls thread) size).1 ≠ 0 := by
        rw [called]
        exact nonnull
      have found := span_alloc_found readyRest.inv.toCore result
      rw [called, rtree, leaf_ready_same (ensure_tls_init_tree attached)] at found
      have iff := registrable_cases found.1 fun served => by rw [found.2 served]
      simp only [Registrable, attached, Option.some.injEq, forall_eq']
      exact iff
  | direct payloadOffset size =>
      have room := direct_total_room proper.2
      have positive := proper.1
      exact map_direct_found done nonnull (by omega)

/-! ## What a free gives back -/

/-- The memory of `ptr` is available again. A free by a thread that does not own
the chunk puts the object into the outgoing batch of its heap; it is back when
the batch has been flushed and the owner has reaped. -/
def GivenBack (s after : State) (thread ptr : Nat) : Prop :=
  (∃ header ∈ s.directs, header ≤ ptr ∧ ptr < header + (s.direct header).totalBytes ∧
      Unmapped s after header) ∨
    ChunkObject s ptr ∧
      (Returned s after ptr ∨
        (s.vmm.header (chunkBase ptr)).owningTlh ≠ after.tls thread ∧
          InBatch after (after.tls thread) ptr ∧
          Returned s (lzTlhReap (lzTlhFlushOutgoingBatch after (after.tls thread))
            (s.vmm.header (chunkBase ptr)).owningTlh) ptr)

theorem settling_attach (rest : AtRest mode s g) (attached : ensureTlsInit s thread = some after) :
    Settling mode s g after g := by
  have slabs : after.slab = s.slab := by
    rcases ensure_tls_init_cases attached with ⟨_, rfl⟩ | ⟨_, _, rfl⟩ | ⟨_, _, _, _, rfl⟩
    · rfl
    · rfl
    · rfl
  refine ⟨rest.inv, (at_rest_attach rest attached).1.inv, ?_, rfl, fun _ => id⟩
  rw [slabs]
  exact swept_refl s.slab g

theorem settling_flush (inv : Inv mode s g) (tlh : Nat) :
    ∃ node, node = flushed g.node tlh (s.outgoingBatch tlh).targetTlh ∧
      Quiet g { g with node := node } ∧
      Settling mode s g (lzTlhFlushOutgoingBatch s tlh) { g with node := node } := by
  obtain ⟨node, later, quiet, _, places⟩ := inv_flush inv tlh
  refine ⟨node, places, quiet, inv, later, ?_, quiet.record, fun _ => quiet_used quiet⟩
  rw [lz_tlh_flush_only]
  refine swept_of_course (course_same rfl rfl) rfl fun other present => ?_
  simp only [places, flushed]
  split
  · simp
  · exact present

theorem settling_reap (inv : Inv mode s g) (idle : g.cursor tlh = 0) :
    ∃ last, Quiet g last ∧ Landed g last ∧ Settling mode s g (lzTlhReap s tlh) last := by
  obtain ⟨last, later, quiet, swept, landed⟩ := inv_reap inv idle
  exact ⟨last, quiet, landed, inv, later, swept, quiet.record, fun _ => quiet_used quiet⟩

theorem place_down (grounded : ¬(last.node ptr).InFlight) (dead : last.node ptr ≠ .live)
    (kept : last.node ptr ≠ .leaked) : last.node ptr = .none ∨ last.node ptr = .free := by
  cases place : last.node ptr with
  | none => exact Or.inl rfl
  | free => exact Or.inr rfl
  | live => exact absurd place dead
  | leaked => exact absurd place kept
  | batch heap => exact absurd (by rw [place]; trivial) grounded
  | mail heap => exact absurd (by rw [place]; trivial) grounded
  | reaping heap => exact absurd (by rw [place]; trivial) grounded

theorem delivered_down {middle final : Ghost} {flushedState : State}
    (mailed : middle.node ptr = .mail tlh) (landed : Landed middle final)
    (later : Inv mode (lzTlhReap flushedState tlh) final) : ¬(final.node ptr).InFlight := by
  intro flying
  have place := landed ptr flying
  rw [mailed] at place
  obtain ⟨count, chain⟩ := later.mail.mail tlh
  rw [reap_mailboxes, Function.update_self] at chain
  exact (enumerates_null chain).2 ptr place

theorem tlh_free_gives_back (rest : AtRest mode s g) (live : g.node ptr = .live) {owner : Nat}
    (owned : (g.kind (chunkBase ptr)).owner = some owner) {ready : State}
    (attached : ensureTlsInit s thread = some ready) (known : lzRtreeGet s.rtree ptr ≠ 0)
    (freed : after = lzTlhFree ready (ready.tls thread) ptr) :
    Returned s after ptr ∨ owner ≠ after.tls thread ∧ InBatch after (after.tls thread) ptr ∧
      Returned s (lzTlhReap (lzTlhFlushOutgoingBatch after (after.tls thread)) owner) ptr := by
  obtain ⟨readyRest, heap, rtree⟩ := at_rest_attach rest attached
  obtain ⟨last, lastInv, released, swept, outcome⟩ :=
    inv_tlh_free readyRest.inv live owned heap fun _ => by rwa [rtree]
  have same : after.tls = ready.tls := by
    rw [freed]
    exact (tlh_free_threads ready (ready.tls thread) ptr).tls
  rw [← freed] at lastInv swept
  have present : g.node ptr ≠ .none := by simp [live]
  have used : ∀ other, (last.node other).InUse → (g.node other).InUse :=
    (withdrawn_of_released live released).used
  have back : Settling mode s g after last := settling_trans (settling_attach rest attached)
    ⟨readyRest.inv, lastInv, swept, released.record, used⟩
  have dead : last.node ptr ≠ .live := fun there => ((released.live ptr).mp there).1 rfl
  have kept : last.node ptr ≠ .leaked := by
    intro there
    have before := (released.leaked ptr).mp there
    rw [live] at before
    cases before
  have settled : ∀ chunk, last.kind chunk ≠ .loose :=
    fun chunk loose => rest.settled chunk (swept.loose chunk loose)
  cases outcome with
  | inl own =>
      left
      apply back.returned settled ⟨owner, owned⟩ present
      intro _
      apply place_down _ dead kept
      intro flying
      have before := own.2 ptr flying
      rw [before, live] at flying
      exact flying
  | inr foreign =>
      right
      obtain ⟨apart, batched⟩ := foreign
      rw [same]
      refine ⟨apart, (in_batch_iff lastInv.toCore).mpr batched, ?_⟩
      -- The batch is addressed to the owner.
      have target : (after.outgoingBatch (ready.tls thread)).targetTlh = owner := by
        have addressed := lastInv.objects.owners.batch ptr _ batched
        have holds := lastInv.objects.scope ptr (by simp [batched])
        have kinds : last.kind (chunkBase ptr) = g.kind (chunkBase ptr) := by
          apply swept_kind swept
          intro place idle
          simp [idle, BlockKind.HoldsObjects] at holds
        rw [kinds, owned] at addressed
        exact (Option.some.inj addressed).symm
      obtain ⟨node, places, flushQuiet, flushes⟩ := settling_flush lastInv (ready.tls thread)
      have idle : last.cursor owner = 0 := by
        rw [swept.cursor]
        exact rest.cursor owner
      obtain ⟨final, reapQuiet, landed, reaps⟩ :=
        @settling_reap mode _ { last with node := node } owner flushes.inv idle
      have mailed : node ptr = .mail owner := by
        rw [places, flushed, if_pos batched, target]
      have whole := settling_trans back (settling_trans flushes reaps)
      apply whole.returned _ ⟨owner, owned⟩ present
      · intro _
        apply place_down (delivered_down mailed landed reaps.inv)
        · rw [ne_eq, reapQuiet.live, flushQuiet.live]
          exact dead
        · rw [ne_eq, reapQuiet.leaked, flushQuiet.leaked]
          exact kept
      · intro chunk loose
        exact settled chunk (reaps.swept.loose chunk loose)

theorem free_gives_back (rest : AtRest mode s g) (live : g.node ptr = .live)
    (known : lzRtreeGet s.rtree ptr ≠ 0) (done : lzFree s thread ptr = some after) :
    GivenBack s after thread ptr := by
  have core := rest.inv.toCore
  have present : g.node ptr ≠ .none := by simp [live]
  have found : resolve s ptr ≠ 0 := by
    rw [resolve_eq]
    exact known
  cases free_cases core live found done with
  | inl chunk =>
      obtain ⟨owner, ready, owned, attached, freed⟩ := chunk
      right
      rw [header_owner core owned]
      constructor
      · exact (chunk_object_iff core rest.settled).mpr ⟨⟨owner, owned⟩, present⟩
      · exact tlh_free_gives_back rest live owned attached known freed
  | inr direct =>
      obtain ⟨header, isDirect, _, rfl⟩ := direct
      have member := direct_known core isDirect
      obtain ⟨lower, upper, _⟩ := core.objects.direct.inside ptr header present isDirect
      exact Or.inl ⟨header, member, by omega, upper, unmap_direct_unmapped core member⟩

/-! ## The contract -/

inductive AllocCall
  | malloc (size : Nat)
  | calloc (num size : Nat)
  | memalign (alignment size : Nat)

namespace AllocCall

def invoke (s : State) (thread : Nat) : AllocCall → Option (Nat × State)
  | .malloc size => lzMalloc s thread size
  | .calloc num size => lzCalloc s thread num size
  | .memalign alignment size => lzMemalign s thread alignment size

def act (thread : Nat) : AllocCall → ApiAct
  | .malloc size => .malloc thread size
  | .calloc num size => .calloc thread num size
  | .memalign alignment size => .memalign thread alignment size

def requested : AllocCall → Nat
  | .malloc size => size
  | .calloc num size => num * size
  | .memalign _ size => size

def payloadOffset : AllocCall → Nat
  | .memalign alignment _ => memalignOffset alignment
  | _ => 128

def route : AllocCall → Route
  | .malloc size => mallocRoute size
  | .calloc num size => mallocRoute (num * size)
  | .memalign alignment size => memalignRoute alignment size

def Proper (call : AllocCall) : Prop :=
  1 ≤ call.requested ∧ Unwrapping call.payloadOffset call.requested

instance (call : AllocCall) : Decidable call.Proper := inferInstanceAs (Decidable (_ ∧ _))

end AllocCall

variable {call : AllocCall} {sys reached : ApiSys}

theorem malloc_route_proper (positive : 1 ≤ size) (unwrapping : Unwrapping 128 size) :
    Route.Proper (mallocRoute size) := by
  unfold mallocRoute
  by_cases small : size ≤ lzMaxSlabObjSize
  · rw [if_pos small, if_neg (by omega)]
    exact small
  · rw [if_neg small]
    by_cases medium : size ≤ lzMaxSpanObjSize
    · rw [if_pos medium]
      trivial
    · rw [if_neg medium]
      exact ⟨positive, unwrapping⟩

theorem promoted_size {alignment : Nat} (power : isPowerOfTwo alignment = true)
    (small : alignment ≤ 64) (positive : 1 ≤ size) (slab : size ≤ lzMaxSlabObjSize) :
    1 ≤ lzAlignUp size alignment ∧ Unwrapping 128 (lzAlignUp size alignment) := by
  have nonzero : alignment ≠ 0 := by
    intro zero
    simp [zero, isPowerOfTwo] at power
  have room := promoted_bound small slab
  simp only [lzMaxSlabObjSize] at slab
  simp only [lzMaxSpanObjSize] at room
  have raised := @lz_align_up_le size alignment (by omega) (by omega)
  simp only [Unwrapping, lzHugePageSize]
  omega

theorem memalign_route_proper {alignment : Nat} (power : isPowerOfTwo alignment = true)
    (positive : 1 ≤ size) (unwrapping : Unwrapping (memalignOffset alignment) size) :
    Route.Proper (memalignRoute alignment size) := by
  unfold memalignRoute
  by_cases slab : alignment ≤ 64 ∧ size ≤ lzMaxSlabObjSize
  · rw [if_pos slab]
    obtain ⟨bytes, narrow⟩ := promoted_size power slab.1 positive slab.2
    exact malloc_route_proper bytes narrow
  · rw [if_neg slab]
    by_cases span : alignment ≤ lzPageSize ∧ size ≤ lzMaxSpanObjSize
    · rw [if_pos span]
      trivial
    · rw [if_neg span]
      exact ⟨positive, unwrapping⟩

theorem call_served (proper : call.Proper) (returned : call.invoke s thread = some (ptr, after))
    (nonnull : ptr ≠ 0) :
    Route.Proper call.route ∧
      ∃ ready, call.route.serve s thread = some (ptr, ready) ∧ after.rtree = ready.rtree := by
  obtain ⟨positive, unwrapping⟩ := proper
  cases call with
  | malloc size =>
      constructor
      · exact malloc_route_proper positive unwrapping
      · rw [AllocCall.invoke, lz_malloc_route] at returned
        exact ⟨after, returned, rfl⟩
  | calloc num size =>
      constructor
      · exact malloc_route_proper positive unwrapping
      · have sizes : callocSize num size = num * size := by
          rw [callocSize, if_neg]
          intro none
          simp only [AllocCall.requested] at positive
          cases none with
          | inl zero => simp [zero] at positive
          | inr zero => simp [zero] at positive
        obtain ⟨_, ready, allocated, written⟩ :=
          (calloc_cases returned).resolve_left fun refused => nonnull refused.2.1
        rw [sizes, lz_malloc_route] at allocated
        refine ⟨ready, allocated, ?_⟩
        cases written with
        | inl same => rw [same]
        | inr zeroed => rw [zeroed.2]
  | memalign alignment size =>
      by_cases invalid : alignment = 0 ∨ ¬isPowerOfTwo alignment
      · simp only [AllocCall.invoke, lzMemalign, if_pos invalid, Option.some.injEq,
          Prod.mk.injEq] at returned
        exact absurd returned.1.symm nonnull
      · have power : isPowerOfTwo alignment = true := by
          by_contra other
          exact invalid (Or.inr other)
        constructor
        · exact memalign_route_proper power positive unwrapping
        · rw [AllocCall.invoke, lz_memalign_route s thread size invalid] at returned
          exact ⟨after, returned, rfl⟩

theorem payload_fits_proper {offset : Nat} (positive : 1 ≤ size)
    (unwrapping : Unwrapping offset size) :
    PayloadFits offset size := by
  right
  rw [Nat.max_eq_left positive]
  exact direct_total_room unwrapping

theorem call_fits (proper : call.Proper) : ApiFits sys (call.act thread) := by
  obtain ⟨positive, unwrapping⟩ := proper
  cases call with
  | malloc size => exact Or.inr (payload_fits_proper positive unwrapping)
  | calloc num size =>
      intro _
      by_cases none : num = 0 ∨ size = 0
      · rw [callocSize, if_pos none]
        exact Or.inl (by decide)
      · rw [callocSize, if_neg none]
        exact Or.inr (payload_fits_proper positive unwrapping)
  | memalign alignment size => exact fun _ _ => payload_fits_proper positive unwrapping

theorem call_hands_out (stepped : apiStep sys (call.act thread) = some reached)
    (returned : call.invoke sys.state thread = some (ptr, after)) (nonnull : ptr ≠ 0) :
    reached.state = after ∧ reached.live ptr = some call.requested := by
  cases call with
  | malloc size =>
      simp only [AllocCall.invoke] at returned
      simp only [AllocCall.act, apiStep, returned, Option.map_some] at stepped
      split at stepped
      · obtain rfl := Option.some.inj stepped
        simp [handOut, nonnull, AllocCall.requested]
      · cases stepped
  | calloc num size =>
      simp only [AllocCall.invoke] at returned
      simp only [AllocCall.act, apiStep, returned, Option.map_some] at stepped
      split at stepped
      · obtain rfl := Option.some.inj stepped
        simp [handOut, nonnull, AllocCall.requested]
      · cases stepped
  | memalign alignment size =>
      simp only [AllocCall.invoke] at returned
      simp only [AllocCall.act, apiStep, returned, Option.map_some] at stepped
      split at stepped
      · obtain rfl := Option.some.inj stepped
        simp [handOut, nonnull, AllocCall.requested]
      · cases stepped

/-- The object has the size that was asked for, and whenever the client frees it
its memory becomes available again. -/
structure Usable (sys : ApiSys) (ptr requested : Nat) : Prop where
  size : requested ≤ lzMallocUsableSize sys.state ptr
  freed : ∀ acts later thread after, Along apiStep (Holding ptr) sys acts →
    run apiStep sys acts = some later → (later.live ptr).isSome →
      lzFree later.state thread ptr = some after → GivenBack later.state after thread ptr

theorem usable_of_registered {leavesMapped : Prop} {requested : Nat}
    (ok : ApiOk (apiMode leavesMapped) sys g) (held : sys.live ptr = some requested)
    (known : lzRtreeGet sys.state.rtree ptr ≠ 0) : Usable sys ptr requested := by
  have live := (ok.live ptr).mp (by simp [held])
  constructor
  · have found : resolve sys.state ptr ≠ 0 := by
      rw [resolve_eq]
      exact known
    rw [usable_size_eq ok.rest.inv.toCore (by simp [live]) found, objectLength,
      ok.rest.inv.recorded ptr (by simp [live, NodePlace.InUse])]
    exact ok.asked ptr requested held
  · intro acts later thread after along ran still done
    obtain ⟨⟨last, laterOk⟩, registered⟩ := run_registered ok known along ran still
    exact free_gives_back laterOk.rest ((laterOk.live ptr).mp still) registered done

/-- A returned pointer can be used exactly when the entry of its block was there
already, or the leaf for it was mapped or granted. -/
theorem returned_pointer_usable_iff (ok : ApiOk (apiMode False) sys g) (proper : call.Proper)
    (stepped : apiStep sys (call.act thread) = some reached)
    (returned : call.invoke sys.state thread = some (ptr, after)) (nonnull : ptr ≠ 0) :
    Usable reached ptr call.requested ↔ Registrable sys.state thread ptr call.route := by
  obtain ⟨last, reachedOk⟩ := api_step_ok ok id (call_fits proper) stepped
  obtain ⟨state, held⟩ := call_hands_out stepped returned nonnull
  obtain ⟨routeProper, ready, served, rtree⟩ := call_served proper returned nonnull
  have found : lzRtreeGet reached.state.rtree ptr ≠ 0 ↔
      Registrable sys.state thread ptr call.route := by
    rw [state, rtree]
    exact route_found ok.rest routeProper served nonnull
  rw [← found]
  constructor
  · intro usable missing
    have size := usable.size
    rw [usable_size_zero (by rw [resolve_eq]; exact missing)] at size
    have positive := proper.1
    omega
  · exact usable_of_registered reachedOk held

/-- In every state of a run and for every pattern of refused mappings: a pointer
that an allocation returns can be used when the leaves that the run and the call
have asked for were mapped. -/
theorem returned_pointer_usable {env : Env} {secret : BitVec 64} {telemetry : Bool}
    {acts : List ApiAct} (fits : Along apiStep ApiFits (apiStart env secret telemetry) acts)
    (ran : run apiStep (apiStart env secret telemetry) acts = some sys) (proper : call.Proper)
    (stepped : apiStep sys (call.act thread) = some reached)
    (returned : call.invoke sys.state thread = some (ptr, after)) (nonnull : ptr ≠ 0)
    (granted : LeavesGranted after) : Usable reached ptr call.requested := by
  have start : ∃ g, ApiOk (apiMode False) sys g := api_run_ok False.elim fits ran
  obtain ⟨g, ok⟩ := start
  obtain ⟨last, reachedOk⟩ := api_step_ok ok id (call_fits proper) stepped
  obtain ⟨state, held⟩ := call_hands_out stepped returned nonnull
  have live := (reachedOk.live ptr).mp (by simp [held])
  rw [← state] at granted
  have present : last.node ptr ≠ .none := by simp [live]
  have found := resolve_granted reachedOk.rest granted present
  rw [resolve_eq] at found
  exact usable_of_registered reachedOk held found

/-- One leaf is mapped, every later request for a leaf is refused. -/
def oneLeafEnv : Env := { generousEnv with leafMmap := fun call => call = 0 }

/-- Two of three blocks are freed by another thread and reaped by their owner. -/
def remotelyFreed : List ApiAct :=
  [.malloc 1 24, .malloc 1 24, .malloc 1 24, .free 2 4359979136, .free 2 4359979168, .exit 2, .gc 1]

theorem remotely_freed_block_usable :
    ∃ sys reached after, run apiStep (apiStart oneLeafEnv 7 true) remotelyFreed = some sys ∧
      apiStep sys (AllocCall.act 1 (.malloc 24)) = some reached ∧
      (AllocCall.malloc 24).invoke sys.state 1 = some (4359979136, after) ∧
      Usable reached 4359979136 24 := by
  have value : (run apiStep (apiStart oneLeafEnv 7 true) remotelyFreed).map (fun sys =>
      ((apiStep sys (AllocCall.act 1 (.malloc 24))).isSome,
        ((AllocCall.malloc 24).invoke sys.state 1).map fun result =>
          (result.1, decide (LeavesGranted result.2)))) =
      some (true, some (4359979136, true)) := by decide +kernel
  obtain ⟨sys, ran, here⟩ := Option.map_eq_some_iff.mp value
  obtain ⟨steps, calls⟩ := Prod.mk.inj here
  obtain ⟨reached, stepped⟩ := Option.isSome_iff_exists.mp steps
  obtain ⟨⟨ptr, after⟩, returned, result⟩ := Option.map_eq_some_iff.mp calls
  obtain ⟨pointer, leaves⟩ := Prod.mk.inj result
  simp only at pointer
  subst pointer
  have fits : Along apiStep ApiFits (apiStart oneLeafEnv 7 true) remotelyFreed :=
    along_fits_of_small (by decide) _
  exact ⟨sys, reached, after, ran, stepped, returned,
    returned_pointer_usable fits ran (by decide) stepped returned (by norm_num)
      (of_decide_eq_true leaves)⟩

/-- Every mapping succeeds except those of radix leaves. -/
def leaflessEnv : Env := { generousEnv with leafMmap := fun _ => false }

/-- The block is handed out all the same, with usable size zero, and its free is
ignored. -/
theorem unregistered_block_returned :
    ∃ reached after,
      apiStep (apiStart leaflessEnv 7 true) (AllocCall.act 1 (.malloc 24)) = some reached ∧
      (AllocCall.malloc 24).invoke (apiStart leaflessEnv 7 true).state 1 =
        some (4359979136, after) ∧
      lzMallocUsableSize reached.state 4359979136 = 0 ∧
      lzFree reached.state 1 4359979136 = some reached.state ∧ ¬Usable reached 4359979136 24 := by
  have value : ((AllocCall.malloc 24).invoke (apiStart leaflessEnv 7 true).state 1).map
      (fun result => (result.1, lzRtreeGet result.2.rtree 4359979136)) = some (4359979136, 0) := by
    decide +kernel
  obtain ⟨⟨ptr, after⟩, returned, here⟩ := Option.map_eq_some_iff.mp value
  simp only [Prod.mk.injEq] at here
  obtain ⟨rfl, missing⟩ := here
  have stepped : ∃ reached, apiStep (apiStart leaflessEnv 7 true) (AllocCall.act 1 (.malloc 24)) =
      some reached := Option.isSome_iff_exists.mp (by decide +kernel)
  obtain ⟨reached, stepped⟩ := stepped
  have state := (call_hands_out stepped returned (by norm_num)).1
  have unresolved : resolve reached.state 4359979136 = 0 := by
    rw [resolve_eq, state]
    exact missing
  have nothing := usable_size_zero unresolved
  refine ⟨reached, after, stepped, returned, nothing, ?_, ?_⟩
  · simp only [lzFree, unresolved, if_true]
    norm_num
  · intro usable
    have size := usable.size
    rw [nothing] at size
    omega

end Lzmalloc.UsablePointers
