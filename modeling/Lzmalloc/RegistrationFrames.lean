import Lzmalloc.CallParts
import Lzmalloc.ConcreteView
import Lzmalloc.FreeFootprint

/-!
# Which registrations a call can end

Frees and reaps clear the entry of a chunk only when they give the chunk back,
and they never ask for a leaf. Allocations only add entries. So an object that
is registered stays registered as long as it is live.
-/

namespace Lzmalloc.RegistrationFrames

open SizeClasses HeapState VirtualMemoryManager PointerChain Engines ThreadHeap PublicApi StepSystem
open HeapInvariant InvariantFacts RadixTree ChunkTransfer ClientView RemoteFree HeapOperations
open ConcreteView ObjectRanges DirectObjects ThreadLifecycle ApiOperations ApiRuns CallParts

set_option autoImplicit false

variable {mode : Mode} {s middle after : State} {g last : Ghost} {gone earlier : Nat → Prop}
  {thread tlh chunk ptr size : Nat}

structure SameTree (s after : State) : Prop where
  rtree : after.rtree = s.rtree
  calls : after.leafCalls = s.leafCalls
  env : after.env = s.env

theorem same_tree_trans (first : SameTree s middle) (second : SameTree middle after) :
    SameTree s after :=
  ⟨second.rtree.trans first.rtree, second.calls.trans first.calls, second.env.trans first.env⟩

theorem same_tree_manager (only : OnlyManager s after) : SameTree s after := by
  rw [only]
  exact ⟨rfl, rfl, rfl⟩

/-- No leaf is asked for or given up, and lookups answer as before except in
chunks that are `gone`. -/
structure Unregisters (gone : Nat → Prop) (s after : State) : Prop where
  leaves : ∀ index, after.rtree index = none ↔ s.rtree index = none
  calls : after.leafCalls = s.leafCalls
  env : after.env = s.env
  lookups : ∀ address < 2 ^ 48,
    lzRtreeGet after.rtree address = lzRtreeGet s.rtree address ∨ gone (chunkBase address)

theorem unregisters_same (same : SameTree s after) : Unregisters gone s after := by
  constructor
  · intro index
    rw [same.rtree]
  · exact same.calls
  · exact same.env
  · intro address _
    rw [same.rtree]
    exact Or.inl rfl

theorem unregisters_trans (first : Unregisters earlier s middle)
    (second : Unregisters gone middle after) (stays : ∀ chunk, earlier chunk → gone chunk) :
    Unregisters gone s after := by
  constructor
  · intro index
    rw [second.leaves, first.leaves]
  · exact second.calls.trans first.calls
  · exact second.env.trans first.env
  · intro address bound
    cases second.lookups address bound with
    | inl same =>
        rw [same]
        exact (first.lookups address bound).imp id (stays _)
    | inr cleared => exact Or.inr cleared

theorem unregisters_before (second : Unregisters gone middle after) (first : SameTree s middle) :
    Unregisters gone s after :=
  @unregisters_trans s middle after gone (fun _ => False) (unregisters_same first) second
    fun _ => False.elim

/-! ## Chunks that are given back -/

def Parked (vmm : Vmm) (chunk : Nat) : Prop :=
  chunk ≠ 0 ∧ (vmm.globalFreeChunks = chunk ∨ ∃ node < 16, (vmm.pools node).freeChunks = chunk)

structure Returnable (vmm : Vmm) (chunk : Nat) : Prop where
  aligned : chunk % 2097152 = 0
  positive : 0 < chunk
  bound : chunk + 2097152 ≤ 2 ^ 48
  magic : magicOk vmm chunk

theorem returnable (core : Core mode s g) (taken : (g.kind chunk).TakenOut) :
    Returnable s.vmm chunk := by
  have used : g.kind chunk ≠ .unused := by
    intro unused
    rw [unused] at taken
    exact taken
  obtain ⟨aligned, positive, bound⟩ := core.geom.placed chunk used
  exact ⟨aligned, positive, bound, (core.vmm.takenHeader chunk taken).1⟩

theorem owned_returnable {owner : Nat} (core : Core mode s g)
    (owned : (g.kind chunk).owner = some owner) : Returnable s.vmm chunk := by
  apply returnable core
  cases kind : g.kind chunk <;> simp_all [BlockKind.owner, BlockKind.TakenOut]

theorem parked_idle (core : Core mode s g) (parked : Parked s.vmm chunk) :
    ∃ place, g.kind chunk = .idle place := by
  obtain ⟨nonnull, first⟩ := parked
  have cached : ∃ place, (g.kind chunk).cached = some place := by
    cases first with
    | inl global =>
        obtain ⟨count, chain⟩ := core.vmm.caches.global
        rw [global] at chain
        have head := enumerates_head chain nonnull
        exact ⟨.global, head⟩
    | inr pooled =>
        obtain ⟨node, bound, head⟩ := pooled
        have chain := core.vmm.caches.pool node bound
        rw [head] at chain
        have listed := enumerates_head chain nonnull
        exact ⟨.pool node, listed⟩
  obtain ⟨place, listed⟩ := cached
  cases kind : g.kind chunk <;> simp_all [BlockKind.cached]

theorem pool_push_parks (vmm : Vmm) (nonnull : chunk ≠ 0)
    (pooled : (poolPush vmm chunk).1 = false) :
    Parked (poolPush vmm chunk).2 chunk := by
  unfold poolPush at pooled ⊢
  simp only at pooled ⊢
  split at pooled
  · next room =>
      rw [if_pos room]
      refine ⟨nonnull, Or.inr ⟨lzTopologyGetPool (vmm.header chunk).nodeId, ?_, ?_⟩⟩
      · unfold lzTopologyGetPool
        split
        · norm_num
        · next known => exact Nat.not_le.mp known
      · simp
  · cases pooled

theorem vmm_free_parks (back : Returnable s.vmm chunk) :
    Parked (lzVmmFreeChunk s chunk).vmm chunk := by
  have nonnull : chunk ≠ 0 := Nat.pos_iff_ne_zero.mp back.positive
  unfold lzVmmFreeChunk
  rw [if_neg (by simp [nonnull, back.magic])]
  by_cases full : (poolPush s.vmm chunk).1 = true
  · simp only [full, if_true]
    exact ⟨nonnull, Or.inl rfl⟩
  · simp only [full]
    exact pool_push_parks s.vmm nonnull (by simpa using full)

theorem rtree_clear_leaves (s : State) (chunk index : Nat) :
    (lzRtreeClear s chunk).rtree index = none ↔ s.rtree index = none := by
  unfold lzRtreeClear lzRtreeSet
  cases known : s.rtree (rtreeL1 chunk) with
  | none => simp
  | some leaf =>
      simp only [rtreeStore]
      by_cases same : index = rtreeL1 chunk
      · simp [same, known]
      · simp [same]

theorem rtree_clear_calls (s : State) (chunk : Nat) :
    (lzRtreeClear s chunk).leafCalls = s.leafCalls := by
  unfold lzRtreeClear lzRtreeSet
  cases s.rtree (rtreeL1 chunk) with
  | none => simp
  | some leaf => rfl

/-- The end of `lz_slab_destroy` and of `lz_span_free_local`. -/
theorem give_back_unregisters (back : Returnable s.vmm chunk) :
    Unregisters (Parked (lzVmmFreeChunk (lzRtreeClear s chunk) chunk).vmm) s
      (lzVmmFreeChunk (lzRtreeClear s chunk) chunk) := by
  have bound := back.bound
  have manager : (lzRtreeClear s chunk).vmm = s.vmm := by rw [lzRtreeClear, lz_rtree_set_eq]
  have env : (lzRtreeClear s chunk).env = s.env := by rw [lzRtreeClear, lz_rtree_set_eq]
  have parked := @vmm_free_parks (lzRtreeClear s chunk) chunk (by rw [manager]; exact back)
  have same := same_tree_manager (lz_vmm_free_chunk_only (lzRtreeClear s chunk) chunk)
  constructor
  · intro index
    rw [same.rtree, rtree_clear_leaves]
  · rw [same.calls, rtree_clear_calls]
  · rw [same.env, env]
  · intro address below
    by_cases inside : chunkBase address = chunk
    · rw [inside]
      exact Or.inr parked
    · rw [same.rtree, lzRtreeClear]
      rw [chunk_base_iff_div back.aligned] at inside
      exact Or.inl (lz_rtree_get_set_other below (by omega) inside)

theorem slab_destroy_unregisters (back : Returnable s.vmm chunk) :
    Unregisters (Parked (lzSlabDestroy s (chunk + 64)).vmm) s (lzSlabDestroy s (chunk + 64)) := by
  have base : chunkBase (chunk + 64) = chunk := chunk_base_eq back.aligned (by omega) (by omega)
  unfold lzSlabDestroy
  simp only [base]
  split
  · exact unregisters_same ⟨rfl, rfl, rfl⟩
  · exact give_back_unregisters back

theorem recycle_unregisters (back : Returnable s.vmm chunk) (tlh : Nat) :
    Unregisters (Parked (recycleIfEmpty s tlh (chunk + 64)).vmm) s
      (recycleIfEmpty s tlh (chunk + 64)) := by
  unfold recycleIfEmpty lzTlhRecycleEmptySlab
  split
  · simp only
    split
    · split
      · exact unregisters_same ⟨rfl, rfl, rfl⟩
      · have destroyed := @slab_destroy_unregisters
          (promotePartial s tlh (s.slab (chunk + 64)).sizeClass) chunk back
        exact unregisters_before destroyed ⟨rfl, rfl, rfl⟩
    · have destroyed := @slab_destroy_unregisters (unlinkFromBin s tlh (chunk + 64)) chunk back
      exact unregisters_before destroyed ⟨rfl, rfl, rfl⟩
  · exact unregisters_same ⟨rfl, rfl, rfl⟩

theorem rescue_tree (s : State) (tlh slab : Nat) :
    SameTree s (rescueIfWasFull s tlh slab) ∧ (rescueIfWasFull s tlh slab).vmm = s.vmm := by
  unfold rescueIfWasFull lzTlhRescueFromFull
  split
  · simp only
    split
    · exact ⟨⟨rfl, rfl, rfl⟩, rfl⟩
    · exact ⟨⟨rfl, rfl, rfl⟩, rfl⟩
  · exact ⟨⟨rfl, rfl, rfl⟩, rfl⟩

theorem unregisters_accounted (bytes : Nat) (first : Unregisters (Parked middle.vmm) s middle) :
    Unregisters (Parked (accountFree middle tlh bytes).vmm) s (accountFree middle tlh bytes) := by
  rw [SlabLifecycle.account_free_eq]
  exact ⟨first.leaves, first.calls, first.env, first.lookups⟩

theorem free_slab_unregisters (back : Returnable s.vmm chunk) (tlh ptr : Nat) :
    Unregisters (Parked (lzTlhFreeSlab s tlh chunk ptr).vmm) s (lzTlhFreeSlab s tlh chunk ptr) := by
  obtain ⟨tree, manager⟩ := rescue_tree (pushFreeBlock s (chunk + 64) ptr) tlh (chunk + 64)
  have rescued : Returnable (rescueIfWasFull (pushFreeBlock s (chunk + 64) ptr) tlh
      (chunk + 64)).vmm chunk := by
    rw [manager]
    exact back
  have pushed : SameTree s (pushFreeBlock s (chunk + 64) ptr) := ⟨rfl, rfl, rfl⟩
  apply unregisters_accounted
  exact unregisters_before (recycle_unregisters rescued tlh) (same_tree_trans pushed tree)

theorem destroy_span_unregisters (back : Returnable s.vmm chunk) (tlh : Nat) :
    Unregisters (Parked (destroySpan s tlh chunk).vmm) s (destroySpan s tlh chunk) := by
  have unlinked := @give_back_unregisters
    { s with
      spanLinks := DoublyLinked.unlink s.spanLinks (chunk + lzCacheLineSize)
      activeSpans := Function.update s.activeSpans tlh
        (DoublyLinked.unlinkHead s.spanLinks (s.activeSpans tlh) (chunk + lzCacheLineSize)) }
        chunk back
  exact unregisters_before unlinked ⟨rfl, rfl, rfl⟩

theorem span_free_unregisters (back : Returnable s.vmm chunk) (tlh ptr : Nat) :
    Unregisters (Parked (lzSpanFreeLocal s tlh chunk ptr).vmm) s
      (lzSpanFreeLocal s tlh chunk ptr) := by
  unfold lzSpanFreeLocal
  simp only
  split
  · exact unregisters_same ⟨rfl, rfl, rfl⟩
  split
  · exact unregisters_same ⟨rfl, rfl, rfl⟩
  · generalize (s.span (chunk + lzCacheLineSize)).allocSizePages
      ((ptr - chunk) / lzPageSize % 2 ^ 32) = pages
    have released : SameTree s (accountFree (releasePages s (chunk + lzCacheLineSize)
        ((ptr - chunk) / lzPageSize % 2 ^ 32) pages) tlh (pages * lzPageSize % 2 ^ 32)) := by
      rw [SlabLifecycle.account_free_eq]
      exact ⟨rfl, rfl, rfl⟩
    have manager : (accountFree (releasePages s (chunk + lzCacheLineSize)
        ((ptr - chunk) / lzPageSize % 2 ^ 32) pages) tlh (pages * lzPageSize % 2 ^ 32)).vmm =
          s.vmm := (FreeFootprint.account_free_frame _ tlh _).2.2
    split
    · refine unregisters_before (destroy_span_unregisters ?_ tlh) released
      rw [manager]
      exact back
    · exact unregisters_same released

theorem free_remote_tree (s : State) (tlh owner node : Nat) :
    SameTree s (lzTlhFreeRemote s tlh owner node) := by
  unfold lzTlhFreeRemote
  simp only
  split
  · rw [lz_tlh_flush_only]
    exact ⟨rfl, rfl, rfl⟩
  · exact ⟨rfl, rfl, rfl⟩

/-! ## Frees and reaps -/

def Idle (g : Ghost) (chunk : Nat) : Prop := ∃ place, g.kind chunk = .idle place

theorem parked_unregisters (later : Core mode after last)
    (unregisters : Unregisters (Parked after.vmm) s after) : Unregisters (Idle last) s after :=
  { unregisters with
    lookups := fun address bound =>
      (unregisters.lookups address bound).imp id (parked_idle later) }

theorem tlh_free_unregisters {owner : Nat} (core : Core mode s g) (present : g.node ptr ≠ .none)
    (owned : (g.kind (chunkBase ptr)).owner = some owner) (tlh : Nat) :
    Unregisters (Parked (lzTlhFree s tlh ptr).vmm) s (lzTlhFree s tlh ptr) := by
  have back := owned_returnable core owned
  have positive := (core_node_bound core present).1
  have nonnull : chunkBase ptr ≠ 0 := Nat.pos_iff_ne_zero.mp back.positive
  unfold lzTlhFree
  simp only [if_neg (Nat.pos_iff_ne_zero.mp positive), if_pos back.magic, if_neg nonnull]
  split
  · split
    · exact free_slab_unregisters back tlh ptr
    · exact span_free_unregisters back tlh ptr
    · exact unregisters_same ⟨rfl, rfl, rfl⟩
  · exact unregisters_same (free_remote_tree s tlh _ ptr)

theorem reap_node_unregisters {owner : Nat} (core : Core mode s g)
    (owned : (g.kind (chunkBase ptr)).owner = some owner) (tlh : Nat) :
    Unregisters (Parked (lzTlhReapNode s tlh ptr).vmm) s (lzTlhReapNode s tlh ptr) := by
  have back := owned_returnable core owned
  unfold lzTlhReapNode
  simp only
  split
  · exact free_slab_unregisters back tlh ptr
  · exact span_free_unregisters back tlh ptr
  · exact unregisters_same ⟨rfl, rfl, rfl⟩

theorem idle_kept (kinds : ∀ chunk, last.kind chunk = g.kind chunk ∨ Idle last chunk)
    (idle : Idle g chunk) : Idle last chunk := by
  cases kinds chunk with
  | inl same =>
      obtain ⟨place, there⟩ := idle
      exact ⟨place, same.trans there⟩
  | inr there => exact there

theorem reap_loop_unregisters (fuel : Nat) (inv : Inv mode s g) :
    ∃ final, Inv mode (lzTlhReapLoop fuel s tlh (g.cursor tlh)) final ∧
      (∀ chunk, Idle g chunk → Idle final chunk) ∧
      Unregisters (Idle final) s (lzTlhReapLoop fuel s tlh (g.cursor tlh)) := by
  -- One object after the other; the chunks given back so far stay with the manager.
  induction fuel generalizing s g with
  | zero => exact ⟨g, inv, fun _ => id, unregisters_same ⟨rfl, rfl, rfl⟩⟩
  | succ fuel ih =>
      unfold lzTlhReapLoop
      by_cases null : g.cursor tlh = 0
      · rw [if_pos null]
        exact ⟨g, inv, fun _ => id, unregisters_same ⟨rfl, rfl, rfl⟩⟩
      · rw [if_neg null]
        obtain ⟨_, _, owned⟩ := inv_advance inv null
        obtain ⟨next, nextInv, _, _, swept, _⟩ := inv_reap_node inv null
        have moved : linkAt s.mem (g.cursor tlh) = next.cursor tlh := by
          rw [swept.cursor]
          simp [advance]
        have stays : ∀ chunk, Idle g chunk → Idle next chunk := fun chunk => idle_kept swept.kinds
        have cleared := parked_unregisters nextInv.toCore
          (reap_node_unregisters inv.toCore owned tlh)
        obtain ⟨final, finalInv, kept, rest⟩ := ih nextInv
        simp only [moved]
        exact ⟨final, finalInv, fun chunk idle => kept chunk (stays chunk idle),
          unregisters_trans cleared rest kept⟩

/-- In terms of the state alone: what has been cleared is with the manager. -/
theorem unregisters_managed (later : Core mode after last)
    (unregisters : Unregisters (Idle last) s after) : Unregisters (InManager after.vmm) s after :=
  { unregisters with
    lookups := fun address bound =>
      (unregisters.lookups address bound).imp id (in_manager_iff later).mpr }

theorem managed_unregisters (later : Core mode after last)
    (unregisters : Unregisters (InManager after.vmm) s after) : Unregisters (Idle last) s after :=
  { unregisters with
    lookups := fun address bound =>
      (unregisters.lookups address bound).imp id (in_manager_iff later).mp }

theorem reap_unregisters (inv : Inv mode s g) (idle : g.cursor tlh = 0) :
    Unregisters (InManager (lzTlhReap s tlh).vmm) s (lzTlhReap s tlh) := by
  have walked := @reap_loop_unregisters mode _ _ tlh addressLimit (inv_detach inv idle)
  simp only [Function.update_self] at walked
  obtain ⟨final, finalInv, _, unregisters⟩ := walked
  have managed := unregisters_managed finalInv.toCore unregisters
  exact unregisters_before managed ⟨rfl, rfl, rfl⟩

theorem gc_loop_unregisters (fuel : Nat) {current : Nat} (inv : Inv mode s g)
    (idle : ∀ tlh, g.cursor tlh = 0) :
    ∃ final, Inv mode (gcLoop fuel s current) final ∧ (∀ chunk, Idle g chunk → Idle final chunk) ∧
      Unregisters (Idle final) s (gcLoop fuel s current) := by
  induction fuel generalizing s g current with
  | zero => exact ⟨g, inv, fun _ => id, unregisters_same ⟨rfl, rfl, rfl⟩⟩
  | succ fuel ih =>
      unfold gcLoop
      by_cases ended : current = 0
      · rw [if_pos ended]
        exact ⟨g, inv, fun _ => id, unregisters_same ⟨rfl, rfl, rfl⟩⟩
      · rw [if_neg ended]
        obtain ⟨next, nextInv, _, swept, _⟩ := inv_reap inv (idle current)
        have stillIdle : ∀ tlh, next.cursor tlh = 0 := by
          intro tlh
          rw [swept.cursor]
          exact idle tlh
        have reaped := managed_unregisters nextInv.toCore (reap_unregisters inv (idle current))
        obtain ⟨final, finalInv, kept, rest⟩ :=
          @ih (lzTlhReap s current) next ((lzTlhReap s current).tlh current).nextZombie
          nextInv stillIdle
        exact ⟨final, finalInv, fun chunk there => kept chunk (idle_kept swept.kinds there),
          unregisters_trans reaped rest kept⟩

theorem gc_unregisters (inv : Inv mode s g) (idle : ∀ tlh, g.cursor tlh = 0) (thread : Nat) :
    Unregisters (InManager (lzmallocGc s thread).vmm) s (lzmallocGc s thread) := by
  unfold lzmallocGc
  have own : ∃ next, Inv mode (if s.tls thread ≠ 0 then lzTlhReap s (s.tls thread) else s) next ∧
      (∀ tlh, next.cursor tlh = 0) ∧ Unregisters (Idle next) s
        (if s.tls thread ≠ 0 then lzTlhReap s (s.tls thread) else s) := by
    split
    · obtain ⟨next, nextInv, _, swept, _⟩ := inv_reap inv (idle (s.tls thread))
      refine ⟨next, nextInv, fun tlh => ?_,
        managed_unregisters nextInv.toCore (reap_unregisters inv (idle _))⟩
      rw [swept.cursor]
      exact idle tlh
    · exact ⟨g, inv, idle, unregisters_same ⟨rfl, rfl, rfl⟩⟩
  generalize (if s.tls thread ≠ 0 then lzTlhReap s (s.tls thread) else s) = reaped at own ⊢
  obtain ⟨next, nextInv, nextIdle, first⟩ := own
  obtain ⟨walked, walkedInv, kept, second⟩ :=
    @gc_loop_unregisters mode reaped next addressLimit reaped.gZombieTlhs nextInv nextIdle
  obtain ⟨final, finalInv, _, swept⟩ := inv_purge walkedInv
  have purged : SameTree (gcLoop addressLimit reaped reaped.gZombieTlhs)
      (lzVmmPurgeAllCaches (gcLoop addressLimit reaped reaped.gZombieTlhs)) :=
    same_tree_manager (core_purge_all walkedInv.toCore).1
  have collected := unregisters_trans first second kept
  exact unregisters_managed finalInv.toCore
    (unregisters_trans collected (unregisters_same purged) fun chunk => idle_kept swept.kinds)

theorem lookup_kept (later : Core mode after last)
    (unregisters : Unregisters (InManager after.vmm) s after) (present : last.node ptr ≠ .none) :
    lzRtreeGet after.rtree ptr = lzRtreeGet s.rtree ptr := by
  have bound := core_node_bound later present
  cases unregisters.lookups ptr (by omega) with
  | inl same => exact same
  | inr managed =>
      obtain ⟨place, idle⟩ := (in_manager_iff later).mp managed
      have holds := later.objects.scope ptr present
      simp [idle, BlockKind.HoldsObjects] at holds

/-! ## Allocations -/

def Registers (s after : State) : Prop :=
  ∀ address, lzRtreeGet s.rtree address ≠ 0 → lzRtreeGet after.rtree address ≠ 0

theorem registers_same (rtree : after.rtree = s.rtree) : Registers s after := by
  intro address known
  rw [rtree]
  exact known

theorem registers_trans (first : Registers s middle) (second : Registers middle after) :
    Registers s after :=
  fun address known => second address (first address known)

theorem rtree_store_registers {rtree : Rtree} {leaf : Nat → Nat} {address metadata : Nat}
    (nonnull : metadata ≠ 0)
    (old : rtreeL1 address = rtreeL1 chunk → leaf (rtreeL2 address) = lzRtreeGet rtree address)
    (known : lzRtreeGet rtree address ≠ 0) :
    lzRtreeGet (rtreeStore rtree leaf chunk metadata) address ≠ 0 := by
  by_cases first : rtreeL1 address = rtreeL1 chunk
  · have entry := old first
    simp only [lzRtreeGet, rtreeStore, first, Function.update_self]
    by_cases second : rtreeL2 address = rtreeL2 chunk
    · rw [second, Function.update_self]
      exact nonnull
    · rw [Function.update_of_ne second, entry]
      exact known
  · have same : lzRtreeGet (rtreeStore rtree leaf chunk metadata) address =
        lzRtreeGet rtree address := by
      simp [lzRtreeGet, rtreeStore, first]
    rw [same]
    exact known

theorem rtree_set_registers (s : State) {metadata : Nat} (nonnull : metadata ≠ 0) :
    Registers s (lzRtreeSet s chunk metadata) := by
  intro address known
  unfold lzRtreeSet
  cases there : s.rtree (rtreeL1 chunk) with
  | some leaf =>
      apply rtree_store_registers nonnull _ known
      intro first
      simp [lzRtreeGet, first, there]
  | none =>
      simp only [if_neg nonnull]
      split
      · apply rtree_store_registers nonnull _ known
        intro first
        simp [lzRtreeGet, first, there]
      · exact known

theorem set_blocks_registers (s : State) (base : Nat) {metadata : Nat} (nonnull : metadata ≠ 0)
    (count : Nat) : Registers s (setBlocks s base metadata count) := by
  induction count with
  | zero => exact registers_same rfl
  | succ count ih =>
      rw [set_blocks_succ]
      exact registers_trans ih (rtree_set_registers _ nonnull)

theorem try_current_tree (s : State) (tlh scIdx : Nat) :
    SameTree s (SlabAllocation.tryCurrent s tlh scIdx).2 ∧
      (SlabAllocation.tryCurrent s tlh scIdx).2.vmm = s.vmm := by
  unfold SlabAllocation.tryCurrent
  simp only
  split
  · exact ⟨⟨rfl, rfl, rfl⟩, rfl⟩
  · split
    · unfold bumpBlock
      simp only
      split
      · exact ⟨⟨rfl, rfl, rfl⟩, rfl⟩
      · exact ⟨⟨rfl, rfl, rfl⟩, rfl⟩
    · exact ⟨⟨rfl, rfl, rfl⟩, rfl⟩

/-- Paths 1 and 2 of `lz_tlh_alloc` do what the reap does. -/
theorem attempt_unregisters (inv : Inv mode s g) (idle : g.cursor tlh = 0) (scIdx : Nat) :
    Unregisters (InManager (lzTlhAllocAttempt s tlh scIdx).2.vmm) s
      (lzTlhAllocAttempt s tlh scIdx).2 := by
  rw [lz_tlh_alloc_attempt_eq]
  split
  · exact unregisters_same ⟨rfl, rfl, rfl⟩
  · obtain ⟨tree, manager⟩ := try_current_tree (lzTlhReap s tlh) tlh scIdx
    rw [manager]
    exact unregisters_trans (reap_unregisters inv idle) (unregisters_same tree) fun _ => id

theorem format_slab_registers (s : State) (tlh classIdx : Nat) (nonnull : chunk ≠ 0) :
    Registers s (formatSlab s tlh classIdx chunk) := by
  intro address known
  exact rtree_set_registers { s with vmm := claimHeader s.vmm chunk tlh .slab }
    nonnull address known

theorem format_span_registers (s : State) (tlh : Nat) (nonnull : chunk ≠ 0) :
    Registers s (formatSpan s tlh chunk) := by
  intro address known
  exact rtree_set_registers { s with vmm := claimHeader s.vmm chunk tlh .span }
    nonnull address known

theorem retire_current_rtree (s : State) (tlh classIdx : Nat) :
    (retireCurrent s tlh classIdx).rtree = s.rtree := by
  unfold retireCurrent
  simp only
  split <;> rfl

theorem alloc_slow_registers (core : Core mode s g) (tlh scIdx : Nat) :
    Registers s (lzTlhAllocSlow s tlh scIdx).2 := by
  have only := (core_vmm_alloc core).1
  unfold lzTlhAllocSlow lzSlabCreate
  split
  · exact registers_same (retire_current_rtree s tlh scIdx)
  · cases given : lzVmmAllocChunk s with
    | mk chunk taken =>
        rw [given] at only
        have rtree := (same_tree_manager only).rtree
        by_cases null : chunk = 0
        · simp only [null, if_true]
          exact registers_same rtree
        · simp only [if_neg null]
          rw [if_neg (by simp only [lzCacheLineSize]; omega)]
          apply registers_trans (registers_same rtree)
          apply registers_trans (format_slab_registers taken tlh scIdx null)
          exact registers_same (retire_current_rtree _ tlh scIdx)

theorem span_alloc_registers (core : Core mode s g) (tlh size : Nat) :
    Registers s (lzSpanAlloc s tlh size).2 := by
  have only := (core_vmm_alloc core).1
  unfold lzSpanAlloc
  simp only
  split
  · exact registers_same rfl
  · split
    · exact registers_same rfl
    · cases given : lzVmmAllocChunk s with
      | mk chunk taken =>
          rw [given] at only
          have rtree := (same_tree_manager only).rtree
          by_cases null : chunk = 0
          · simp only [null, if_true]
            exact registers_same rtree
          · simp only [if_neg null]
            have formatted :=
              registers_trans (registers_same rtree) (format_span_registers taken tlh null)
            split
            · exact formatted
            · exact registers_trans formatted (registers_same rfl)

theorem map_direct_registers {offset : Nat} (done : mapDirect s offset size = some (ptr, after)) :
    Registers s after := by
  unfold mapDirect at done
  cases Mappings.lz_sys_alloc_huge_aligned_cases s (direct_total_multiple offset size)
    (direct_total_lt offset size) with
  | inl failed =>
      simp only [failed, Option.some.injEq, Prod.mk.injEq] at done
      rw [← done.2]
      exact registers_same rfl
  | inr granted =>
      obtain ⟨start, mapped, result, maps⟩ := granted
      simp only [result] at done
      split at done
      · simp only [Option.some.injEq, Prod.mk.injEq] at done
        rw [← done.2, lz_rtree_set_range_eq _ _ _ (direct_total_multiple offset size)]
        have positive := maps.positive
        have rtree : (writeDirect mapped start (directTotal offset size) size).rtree = s.rtree := by
          rw [maps.rest]
          rfl
        exact registers_trans (registers_same rtree) (set_blocks_registers _ start (by omega) _)
      · cases done

/-! ## Calls -/

/-- The engine that serves a request, and what it is asked for. -/
inductive Route
  | slab (size : Nat)
  | span (size : Nat)
  | direct (payloadOffset size : Nat)

def Route.serve (s : State) (thread : Nat) : Route → Option (Nat × State)
  | .slab size => (ensureTlsInit s thread).map fun s => lzTlhAlloc s (s.tls thread) size
  | .span size => (ensureTlsInit s thread).map fun s => lzSpanAlloc s (s.tls thread) size
  | .direct payloadOffset size => mapDirect s payloadOffset size

/-- The dispatch of `lz_malloc`. -/
def mallocRoute (size : Nat) : Route :=
  if size ≤ lzMaxSlabObjSize then .slab (if size = 0 then 1 else size)
  else if size ≤ lzMaxSpanObjSize then .span size
  else .direct 128 size

theorem lz_malloc_route (s : State) (thread size : Nat) :
    lzMalloc s thread size = (mallocRoute size).serve s thread := by
  unfold lzMalloc mallocRoute
  by_cases zero : size = 0
  · subst zero
    rfl
  · simp only [if_neg zero]
    by_cases small : size ≤ lzMaxSlabObjSize
    · rw [if_pos small, if_pos small]
      rfl
    · rw [if_neg small, if_neg small]
      by_cases medium : size ≤ lzMaxSpanObjSize
      · rw [if_pos medium, if_pos medium]
        rfl
      · rw [if_neg medium, if_neg medium]
        rfl

/-- The dispatch of `lz_memalign` for a valid alignment. -/
def memalignRoute (alignment size : Nat) : Route :=
  if alignment ≤ 64 ∧ size ≤ lzMaxSlabObjSize then mallocRoute (lzAlignUp size alignment)
  else if alignment ≤ lzPageSize ∧ size ≤ lzMaxSpanObjSize then .span size
  else .direct (memalignOffset alignment) size

theorem lz_memalign_route (s : State) (thread : Nat) {alignment : Nat} (size : Nat)
    (valid : ¬(alignment = 0 ∨ ¬isPowerOfTwo alignment)) :
    lzMemalign s thread alignment size = (memalignRoute alignment size).serve s thread := by
  unfold lzMemalign memalignRoute
  rw [if_neg valid]
  by_cases slab : alignment ≤ 64 ∧ size ≤ lzMaxSlabObjSize
  · rw [if_pos slab, if_pos slab, lz_malloc_route]
  · rw [if_neg slab, if_neg slab]
    by_cases span : alignment ≤ lzPageSize ∧ size ≤ lzMaxSpanObjSize
    · rw [if_pos span, if_pos span]
      rfl
    · rw [if_neg span, if_neg span]
      rfl

theorem ensure_tls_init_tree (done : ensureTlsInit s thread = some after) : SameTree s after := by
  rcases ensure_tls_init_cases done with ⟨_, rfl⟩ | ⟨_, _, rfl⟩ | ⟨_, _, _, _, rfl⟩
  · exact ⟨rfl, rfl, rfl⟩
  · exact ⟨rfl, rfl, rfl⟩
  · exact ⟨rfl, rfl, rfl⟩

theorem tlh_alloc_registered (inv : Inv mode s g) (idle : g.cursor tlh = 0) (size : Nat)
    (live : g.node ptr = .live) (known : lzRtreeGet s.rtree ptr ≠ 0) :
    lzRtreeGet (lzTlhAlloc s tlh size).2.rtree ptr ≠ 0 := by
  unfold lzTlhAlloc
  split
  · exact span_alloc_registers inv.toCore tlh size ptr known
  · have attempted := attempt_unregisters inv idle (lzSizeToClass size)
    have outcome := inv_alloc_attempt inv idle (lzSizeToClass size)
    simp only
    generalize lzTlhAllocAttempt s tlh (lzSizeToClass size) = attempt at attempted outcome ⊢
    have got : lzRtreeGet (if attempt.1 = 0 then
        lzTlhAllocSlow attempt.2 tlh (lzSizeToClass size) else attempt).2.rtree ptr ≠ 0 := by
      cases outcome with
      | inl none =>
          obtain ⟨failed, middle, middleInv, quiet, _⟩ := none
          have present : middle.node ptr ≠ .none := by simp [(quiet.live ptr).mpr live]
          rw [if_pos failed]
          apply alloc_slow_registers middleInv.toCore
          rw [lookup_kept middleInv.toCore attempted present]
          exact known
      | inr some =>
          obtain ⟨nonnull, middle, middleInv, fresh, _⟩ := some
          have present : middle.node ptr ≠ .none := by simp [(fresh.live ptr).mpr (Or.inr live)]
          rw [if_neg nonnull, lookup_kept middleInv.toCore attempted present]
          exact known
    generalize (if attempt.1 = 0 then lzTlhAllocSlow attempt.2 tlh (lzSizeToClass size)
      else attempt) = result at got ⊢
    split
    · exact got
    · rw [account_alloc_eq]
      exact got

theorem route_registered (rest : AtRest mode s g) {route : Route} {result : Nat}
    (done : route.serve s thread = some (result, after)) (live : g.node ptr = .live)
    (known : lzRtreeGet s.rtree ptr ≠ 0) : lzRtreeGet after.rtree ptr ≠ 0 := by
  cases route with
  | slab size =>
      obtain ⟨ready, attached, called⟩ := Option.map_eq_some_iff.mp done
      obtain ⟨readyRest, _, rtree⟩ := at_rest_attach rest attached
      rw [← rtree] at known
      have kept :=
        tlh_alloc_registered readyRest.inv (readyRest.cursor (ready.tls thread)) size live known
      rw [called] at kept
      exact kept
  | span size =>
      obtain ⟨ready, attached, called⟩ := Option.map_eq_some_iff.mp done
      obtain ⟨readyRest, _, rtree⟩ := at_rest_attach rest attached
      rw [← rtree] at known
      have kept := span_alloc_registers readyRest.inv.toCore (ready.tls thread) size ptr known
      rw [called] at kept
      exact kept
  | direct payloadOffset size => exact map_direct_registers done ptr known

theorem malloc_registered (rest : AtRest mode s g) {result : Nat}
    (done : lzMalloc s thread size = some (result, after)) (live : g.node ptr = .live)
    (known : lzRtreeGet s.rtree ptr ≠ 0) : lzRtreeGet after.rtree ptr ≠ 0 := by
  rw [lz_malloc_route] at done
  exact route_registered rest done live known

theorem calloc_registered (rest : AtRest mode s g) {num result : Nat}
    (done : lzCalloc s thread num size = some (result, after)) (live : g.node ptr = .live)
    (known : lzRtreeGet s.rtree ptr ≠ 0) : lzRtreeGet after.rtree ptr ≠ 0 := by
  rcases calloc_cases done with
    ⟨_, _, rfl⟩ | ⟨_, ready, allocated, rfl | ⟨_, rfl⟩⟩
  · exact known
  · exact malloc_registered rest allocated live known
  · have kept := malloc_registered rest allocated live known
    exact kept

theorem memalign_registered (rest : AtRest mode s g) {alignment result : Nat}
    (done : lzMemalign s thread alignment size = some (result, after)) (live : g.node ptr = .live)
    (known : lzRtreeGet s.rtree ptr ≠ 0) : lzRtreeGet after.rtree ptr ≠ 0 := by
  by_cases invalid : alignment = 0 ∨ ¬isPowerOfTwo alignment
  · rw [lzMemalign, if_pos invalid, Option.some.injEq, Prod.mk.injEq] at done
    rw [← done.2]
    exact known
  · rw [lz_memalign_route s thread size invalid] at done
    exact route_registered rest done live known

theorem munmap_registered_lookup {cleared : State} {header total address : Nat} {directs : List Nat}
    (registered : Registered s cleared header total 0) (bound : address < 2 ^ 48)
    (outside : ¬InBlocks header total (chunkBase address)) :
    lzRtreeGet ({ munmap cleared header total with directs := directs } : State).rtree address =
      lzRtreeGet s.rtree address :=
  registered.lookup address bound outside

theorem unmap_direct_lookup {header address : Nat}
    (range : DirectRange header (s.direct header).totalBytes) (bound : address < 2 ^ 48)
    (outside : ¬InBlocks header (s.direct header).totalBytes (chunkBase address)) :
    lzRtreeGet (unmapDirect s header).rtree address = lzRtreeGet s.rtree address :=
  munmap_registered_lookup (lz_rtree_set_range_registered range 0) bound outside

theorem free_registered (rest : AtRest mode s g) {freed : Nat} (freedLive : g.node freed = .live)
    (lost : mode.noLeaks → mode.leavesMapped) (done : lzFree s thread freed = some after)
    (live : g.node ptr = .live) (different : ptr ≠ freed) (known : lzRtreeGet s.rtree ptr ≠ 0) :
    lzRtreeGet after.rtree ptr ≠ 0 := by
  have core := rest.inv.toCore
  have present : g.node freed ≠ .none := by simp [freedLive]
  obtain ⟨last, afterRest, withdrawn⟩ := withdrawn_free rest freedLive lost done
  have stays : last.node ptr ≠ .none := by simp [(withdrawn.live ptr).mpr ⟨different, live⟩]
  by_cases found : resolve s freed = 0
  · have positive := (core_node_bound core present).1
    simp only [lzFree, if_neg (Nat.pos_iff_ne_zero.mp positive), if_pos found] at done
    obtain rfl := Option.some.inj done
    exact known
  cases free_cases core freedLive found done with
  | inl chunk =>
      obtain ⟨owner, ready, owned, attached, rfl⟩ := chunk
      obtain ⟨readyRest, _, rtree⟩ := at_rest_attach rest attached
      have cleared := parked_unregisters afterRest.inv.toCore
        (tlh_free_unregisters readyRest.inv.toCore present owned (ready.tls thread))
      have managed := unregisters_managed afterRest.inv.toCore cleared
      rw [lookup_kept afterRest.inv.toCore managed stays, rtree]
      exact known
  | inr direct =>
      obtain ⟨header, isDirect, _, rfl⟩ := direct
      have member := direct_known core isDirect
      have livePresent : g.node ptr ≠ .none := by simp [live]
      have bound := core_node_bound core livePresent
      rw [unmap_direct_lookup (direct_range core member) (by omega)]
      · exact known
      · intro inside
        -- The blocks of the mapping hold only the object that is freed.
        have here := (direct_in_blocks core member).mpr inside
        exact different
          (core.objects.direct.single ptr freed header livePresent present here isDirect)

/-! ## Runs -/

theorem thread_exit_tree (s : State) (thread : Nat) : SameTree s (threadExit s thread) := by
  unfold threadExit lzTlhDestructor
  split
  · exact ⟨rfl, rfl, rfl⟩
  · have flushed : SameTree s (lzTlhFlushOutgoingBatch s (s.tls thread)) := by
      rw [lz_tlh_flush_only]
      exact ⟨rfl, rfl, rfl⟩
    unfold flushTelemetry
    simp only
    split
    · exact ⟨flushed.rtree, flushed.calls, flushed.env⟩
    · exact ⟨flushed.rtree, flushed.calls, flushed.env⟩

theorem realloc_registered (rest : AtRest mode s g) {old newSize result : Nat}
    (oldLive : g.node old = .live) (lost : mode.noLeaks → mode.leavesMapped)
    (positive : newSize ≠ 0) (bound : newSize < 2 ^ 64)
    (fits : lzMallocUsableSize s old ≠ 0 → lzMallocUsableSize s old < newSize → MallocFits newSize)
    (done : lzRealloc s thread old newSize = some (result, after)) (live : g.node ptr = .live)
    (stays : ptr = old → result = 0 ∨ result = old) (known : lzRtreeGet s.rtree ptr ≠ 0) :
    lzRtreeGet after.rtree ptr ≠ 0 := by
  have nonnull := (core_node_bound rest.inv.toCore (by simp [oldLive] : g.node old ≠ .none)).1
  rcases lz_realloc_branches (Nat.pos_iff_ne_zero.mp nonnull) positive done with
    ⟨_, rfl, _⟩ | ⟨_, rfl, _⟩ | ⟨unknown, grows, ⟨_, refused⟩ | ⟨moved, ready, allocated, released⟩⟩
  · exact known
  · exact known
  · exact malloc_registered rest refused live known
  · have served := served_malloc rest (fits unknown grows) allocated
    obtain ⟨middle, copiedRest, outcome⟩ := served_copy served moved bound (le_of_lt grows)
    have fresh := (outcome.resolve_left fun failed => moved failed.1).2
    have different : ptr ≠ old := by
      intro same
      cases stays same with
      | inl failed => exact moved failed
      | inr kept =>
          rw [kept] at fresh
          exact fresh.fresh.1 oldLive
    have registered := malloc_registered rest allocated live known
    exact free_registered copiedRest ((fresh.live old).mpr (Or.inr oldLive)) lost released
      ((fresh.live ptr).mpr (Or.inr live)) different registered

variable {sys reached : ApiSys}

theorem step_registered (ok : ApiOk mode sys g) {act : ApiAct}
    (lost : mode.noLeaks → mode.leavesMapped) (fits : ApiFits sys act)
    (stepped : apiStep sys act = some reached) (before : (sys.live ptr).isSome)
    (behind : (reached.live ptr).isSome) (known : lzRtreeGet sys.state.rtree ptr ≠ 0) :
    lzRtreeGet reached.state.rtree ptr ≠ 0 := by
  have rest := ok.rest
  have live := (ok.live ptr).mp before
  cases act with
  | malloc thread size =>
      simp only [apiStep] at stepped
      split at stepped
      · obtain ⟨⟨result, after⟩, called, rfl⟩ := Option.map_eq_some_iff.mp stepped
        rw [hand_out_state]
        exact malloc_registered rest called live known
      · cases stepped
  | calloc thread num size =>
      simp only [apiStep] at stepped
      split at stepped
      · obtain ⟨⟨result, after⟩, called, rfl⟩ := Option.map_eq_some_iff.mp stepped
        rw [hand_out_state]
        exact calloc_registered rest called live known
      · cases stepped
  | memalign thread alignment size =>
      simp only [apiStep] at stepped
      split at stepped
      · obtain ⟨⟨result, after⟩, called, rfl⟩ := Option.map_eq_some_iff.mp stepped
        rw [hand_out_state]
        exact memalign_registered rest called live known
      · cases stepped
  | realloc thread old size =>
      simp only [apiStep] at stepped
      split at stepped
      · next allowed =>
          obtain ⟨⟨result, after⟩, called, rfl⟩ := Option.map_eq_some_iff.mp stepped
          simp only at behind ⊢
          rw [finish_realloc_state]
          by_cases null : old = 0
          · rw [lzRealloc, if_pos null] at called
            exact malloc_registered rest called live known
          have oldLive := (ok.live old).mp (allowed.2.resolve_left null)
          by_cases nothing : size = 0
          · have different : ptr ≠ old := by
              intro same
              simp [finishRealloc, null, nothing, takeBack, same] at behind
            simp only [lzRealloc, if_neg null, if_pos nothing] at called
            obtain ⟨freed, released, same⟩ := Option.map_eq_some_iff.mp called
            rw [← (Prod.mk.inj same).2]
            exact free_registered rest oldLive lost released live different known
          · apply realloc_registered rest oldLive lost nothing allowed.1
              (fun found grows => fits (Or.inr ⟨found, grows⟩)) called live _ known
            intro same
            by_contra moved
            rw [not_or] at moved
            simp [finishRealloc, null, nothing, moved, handOut, takeBack, same,
              Ne.symm moved.2] at behind
      · cases stepped
  | free thread freed =>
      rcases api_free_cases stepped with ⟨-, rfl⟩ | ⟨-, allowed, after, called, rfl⟩
      · exact known
      · have different : ptr ≠ freed := by
          intro same
          simp [takeBack, same] at behind
        exact free_registered rest ((ok.live freed).mp allowed) lost called live different known
  | exit thread =>
      obtain rfl := Option.some.inj stepped
      rw [(thread_exit_tree sys.state thread).rtree]
      exact known
  | gc thread =>
      obtain rfl := Option.some.inj stepped
      obtain ⟨_, last, inv, quiet, _⟩ := sweeping_gc rest.inv rest.cursor thread
      have present : last.node ptr ≠ .none := by simp [(quiet.live ptr).mpr live]
      rw [lookup_kept inv.toCore (gc_unregisters rest.inv rest.cursor thread) present]
      exact known
  | attach thread =>
      obtain ⟨after, attached, rfl⟩ := Option.map_eq_some_iff.mp stepped
      rw [(ensure_tls_init_tree attached).rtree]
      exact known
  | reap tlh =>
      simp only [apiStep] at stepped
      split at stepped
      · obtain rfl := Option.some.inj stepped
        obtain ⟨last, inv, quiet, _⟩ := inv_reap rest.inv (rest.cursor tlh)
        have present : last.node ptr ≠ .none := by simp [(quiet.live ptr).mpr live]
        rw [lookup_kept inv.toCore (reap_unregisters rest.inv (rest.cursor tlh)) present]
        exact known
      · cases stepped
  | write target offset value =>
      simp only [apiStep] at stepped
      split at stepped
      · obtain rfl := Option.some.inj stepped
        exact known
      · cases stepped

def Holding (ptr : Nat) (sys : ApiSys) (act : ApiAct) : Prop :=
  (sys.live ptr).isSome ∧ ApiFits sys act

instance (ptr : Nat) (sys : ApiSys) (act : ApiAct) : Decidable (Holding ptr sys act) :=
  inferInstanceAs (Decidable (_ ∧ _))

/-- A registered object stays registered while the client holds it. -/
theorem run_registered {leavesMapped : Prop} {acts : List ApiAct} {later : ApiSys}
    (ok : ApiOk (apiMode leavesMapped) sys g) (known : lzRtreeGet sys.state.rtree ptr ≠ 0)
    (held : Along apiStep (Holding ptr) sys acts) (ran : run apiStep sys acts = some later)
    (live : (later.live ptr).isSome) :
    (∃ last, ApiOk (apiMode leavesMapped) later last) ∧ lzRtreeGet later.state.rtree ptr ≠ 0 := by
  have preserved : ∀ state act next,
      ((∃ h, ApiOk (apiMode leavesMapped) state h) ∧
        ((state.live ptr).isSome → lzRtreeGet state.state.rtree ptr ≠ 0)) →
      Holding ptr state act → apiStep state act = some next →
        (∃ h, ApiOk (apiMode leavesMapped) next h) ∧
          ((next.live ptr).isSome → lzRtreeGet next.state.rtree ptr ≠ 0) := by
    intro state act next holds allowed stepped
    obtain ⟨⟨h, stateOk⟩, registered⟩ := holds
    constructor
    · exact api_step_ok stateOk id allowed.2 stepped
    · intro behind
      exact step_registered stateOk id allowed.2 stepped allowed.1 behind (registered allowed.1)
  obtain ⟨laterOk, registered⟩ := run_invariant preserved ⟨⟨g, ok⟩, fun _ => known⟩ held ran
  exact ⟨laterOk, registered live⟩

end Lzmalloc.RegistrationFrames
