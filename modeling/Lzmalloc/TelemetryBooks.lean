import Mathlib.Algebra.BigOperators.Group.Finset.Basic
import Mathlib.Algebra.BigOperators.Group.List.Basic
import Mathlib.Data.BitVec
import Lzmalloc.ThreadFrames
import Lzmalloc.HeapOperations

/-!
# The books of the telemetry

Every heap reports what it hands out and takes back in two pending counters and
a slot; every slab counts its blocks in use. `Books` says by how much an
operation of one heap changes the two sides. For the slab engine both sides
change by the same amount, whatever happens to the counters in between.
-/

namespace Lzmalloc.TelemetryBooks

open SizeClasses HeapState VirtualMemoryManager Engines PointerChain ThreadHeap HeapInvariant
open InvariantFacts Mappings RadixTree ChunkRoles ChunkTransfer BinLists SlabBlocks ClientView
open SlabLifecycle SlabAllocation RemoteFree ThreadFrames HeapOperations

set_option autoImplicit false

/-! ## Both sides -/

/-- Bytes that a heap has counted and not yet added to its slot. -/
def pendingBytes (info : TlhInfo) : Int := info.localBytesAllocBatch - info.localBytesFreeBatch

structure Bounded (info : TlhInfo) : Prop where
  alloc : info.localBytesAllocBatch < 1048576
  free : info.localBytesFreeBatch < 4096

def slabBytes (slab : Slab) : Nat := slab.usedObjects * slab.blockSize

/-- Block sizes of all blocks in use, as the slab descriptors count them; there
are `2 ^ 27` places for a descriptor below `2 ^ 48`. -/
def countedBytes (slab : Nat → Slab) : Nat :=
  ∑ block ∈ Finset.range 134217728, slabBytes (slab (block * 2097152 + 64))

/-- `after` differs from `s` in the accounts of heap `tlh` only: it reports
`paid` bytes more, and the slabs count `held` bytes more. -/
structure Books (tlh : Nat) (paid held : Int) (s after : State) : Prop where
  heaps : after.heaps = s.heaps
  slot : ∀ heap, (after.tlh heap).statSlot = (s.tlh heap).statSlot
  others : ∀ heap, heap ≠ tlh → after.tlh heap = s.tlh heap
  elsewhere : ∀ slot, (s.tlh tlh).statSlot ≠ some slot → after.slots slot = s.slots slot
  own : Bounded (s.tlh tlh) → Bounded (after.tlh tlh) ∧
    ∀ slot, (s.tlh tlh).statSlot = some slot →
      after.slots slot + pendingBytes (after.tlh tlh) =
        s.slots slot + pendingBytes (s.tlh tlh) + paid
  counted : (countedBytes after.slab : Int) = countedBytes s.slab + held

/-- The slabs have grown by `owed` bytes that the counters do not show. -/
def Owing (tlh : Nat) (owed : Int) (s after : State) : Prop :=
  ∃ paid, Books tlh paid (paid + owed) s after

variable {mode : Mode} {s middle after : State} {g : Ghost} {tlh chunk classIdx : Nat}
  {paid held more added owed : Int}

theorem books_trans (first : Books tlh paid held s middle)
    (second : Books tlh more added middle after) :
    Books tlh (paid + more) (held + added) s after := by
  refine ⟨second.heaps.trans first.heaps, fun heap => (second.slot heap).trans (first.slot heap),
    fun heap other => (second.others heap other).trans (first.others heap other),
    fun slot other => ?_, fun bounded => ?_, ?_⟩
  · rw [second.elsewhere slot (by rwa [first.slot]), first.elsewhere slot other]
  · obtain ⟨middleBounded, firstOwn⟩ := first.own bounded
    obtain ⟨afterBounded, secondOwn⟩ := second.own middleBounded
    refine ⟨afterBounded, fun slot known => ?_⟩
    rw [secondOwn slot (by rwa [first.slot]), firstOwn slot known, Int.cast_add, add_assoc]
  · have early := first.counted
    have late := second.counted
    omega

theorem owing_trans (first : Owing tlh owed s middle) (second : Owing tlh more middle after) :
    Owing tlh (owed + more) s after := by
  obtain ⟨paid, early⟩ := first
  obtain ⟨added, late⟩ := second
  have both := books_trans early late
  rw [add_add_add_comm] at both
  exact ⟨paid + added, both⟩

theorem owing_after (first : Owing tlh 0 s middle) (second : Owing tlh owed middle after) :
    Owing tlh owed s after := by
  have both := owing_trans first second
  rwa [zero_add] at both

theorem books_counted (slots : after.slots = s.slots) (infos : after.tlh = s.tlh)
    (heaps : after.heaps = s.heaps)
    (counted : (countedBytes after.slab : Int) = countedBytes s.slab + held) :
    Books tlh 0 held s after := by
  refine ⟨heaps, fun heap => by rw [infos], fun heap _ => by rw [infos],
    fun slot _ => by rw [slots], fun bounded => ?_, counted⟩
  rw [infos, slots]
  exact ⟨bounded, fun slot _ => by rw [Int.cast_zero, add_zero]⟩

theorem books_same (same : SameAccounts s after) (slabs : after.slab = s.slab) :
    Books tlh 0 0 s after :=
  books_counted same.slots same.tlh same.outside.threads.heaps (by rw [slabs, add_zero])

theorem owing_same (same : SameAccounts s after) (slabs : after.slab = s.slab) :
    Owing tlh 0 s after :=
  ⟨0, books_same same slabs⟩

/-! ## Counters -/

/-- What is left to show when an operation writes the record of its heap and,
at most, the slot of that heap. -/
theorem books_counter {info : TlhInfo} (infos : after.tlh = Function.update s.tlh tlh info)
    (heaps : after.heaps = s.heaps) (slab : after.slab = s.slab)
    (same : info.statSlot = (s.tlh tlh).statSlot)
    (elsewhere : ∀ slot, (s.tlh tlh).statSlot ≠ some slot → after.slots slot = s.slots slot)
    (own : Bounded (s.tlh tlh) → Bounded info ∧
      ∀ slot, (s.tlh tlh).statSlot = some slot →
        after.slots slot + pendingBytes info = s.slots slot + pendingBytes (s.tlh tlh) + paid) :
    Books tlh paid 0 s after := by
  have written : after.tlh tlh = info := by rw [infos, Function.update_self]
  have others : ∀ heap, heap ≠ tlh → after.tlh heap = s.tlh heap := fun heap other => by
    rw [infos, Function.update_of_ne other]
  refine ⟨heaps, fun heap => ?_, others, elsewhere, by rwa [written], by rw [slab, add_zero]⟩
  by_cases here : heap = tlh
  · rw [here, written, same]
  · rw [others heap here]

theorem elsewhere_update {slot : Nat} (known : (s.tlh tlh).statSlot = some slot)
    (value : BitVec 64) :
    ∀ other, (s.tlh tlh).statSlot ≠ some other →
      Function.update s.slots slot value other = s.slots other :=
  fun _ different => Function.update_of_ne (fun equal => different (by rw [known, equal])) _ _

theorem books_account_free (s : State) (tlh : Nat) {bytes : Nat} (bound : bytes ≤ 2097152) :
    Books tlh (-bytes) 0 s (accountFree s tlh bytes) := by
  unfold accountFree
  split
  · rename_i unknown
    refine books_counter (Function.update_eq_self _ _).symm rfl rfl rfl (fun _ _ => rfl)
      fun bounded => ⟨bounded, fun slot known => ?_⟩
    rw [unknown] at known
    exact nomatch known
  · rename_i slot known
    dsimp only
    -- A counter below its threshold cannot wrap when one block is added to it.
    have unwrapped : Bounded (s.tlh tlh) →
        ((s.tlh tlh).localBytesFreeBatch + bytes) % 2 ^ 32 =
          (s.tlh tlh).localBytesFreeBatch + bytes := fun bounded =>
      Nat.mod_eq_of_lt (by have free := bounded.free; omega)
    split
    · refine books_counter rfl rfl rfl rfl (elsewhere_update known _) fun bounded =>
        ⟨⟨bounded.alloc, by norm_num⟩, fun other same => ?_⟩
      obtain rfl := Option.some.inj (known.symm.trans same)
      simp only [Function.update_self, pendingBytes, unwrapped bounded, ← BitVec.natCast_eq_ofNat,
        Nat.cast_zero, sub_zero]
      push_cast
      ring
    · rename_i small
      refine books_counter rfl rfl rfl rfl (fun _ _ => rfl) fun bounded =>
        ⟨⟨bounded.alloc, by simpa using small⟩, fun other same => ?_⟩
      simp only [pendingBytes, unwrapped bounded]
      push_cast
      ring

theorem books_account_alloc (s : State) (tlh : Nat) {bytes : Nat} (bound : bytes ≤ 2097152) :
    Books tlh bytes 0 s (accountAlloc s tlh bytes) := by
  unfold accountAlloc
  dsimp only
  split
  · rename_i unknown
    refine books_counter rfl rfl rfl rfl (fun _ _ => rfl)
      fun bounded => ⟨⟨bounded.alloc, bounded.free⟩, fun slot known => ?_⟩
    rw [unknown] at known
    exact nomatch known
  · rename_i slot known
    have unwrapped : Bounded (s.tlh tlh) →
        ((s.tlh tlh).localBytesAllocBatch + bytes) % 2 ^ 32 =
          (s.tlh tlh).localBytesAllocBatch + bytes := fun bounded =>
      Nat.mod_eq_of_lt (by have alloc := bounded.alloc; omega)
    split
    · refine books_counter rfl rfl rfl rfl (elsewhere_update known _) fun bounded =>
        ⟨⟨by norm_num, bounded.free⟩, fun other same => ?_⟩
      obtain rfl := Option.some.inj (known.symm.trans same)
      simp only [Function.update_self, pendingBytes, unwrapped bounded, ← BitVec.natCast_eq_ofNat,
        Nat.cast_zero, zero_sub]
      push_cast
      ring
    · rename_i small
      refine books_counter rfl rfl rfl rfl (fun _ _ => rfl) fun bounded =>
        ⟨⟨by simpa using small, bounded.free⟩, fun other same => ?_⟩
      simp only [pendingBytes, unwrapped bounded]
      push_cast
      ring

/-! ## Slab descriptors -/

theorem counted_update (slab : Nat → Slab) (descriptor : Slab) (aligned : chunk % 2097152 = 0)
    (bound : chunk < 2 ^ 48) :
    (countedBytes (Function.update slab (chunk + 64) descriptor) : Int) =
      countedBytes slab + (slabBytes descriptor - slabBytes (slab (chunk + 64))) := by
  have member : chunk / 2097152 ∈ Finset.range 134217728 := Finset.mem_range.mpr (by omega)
  have position : chunk / 2097152 * 2097152 + 64 = chunk + 64 := by omega
  have pointwise : (fun block => slabBytes
      (Function.update slab (chunk + 64) descriptor (block * 2097152 + 64))) =
      Function.update (fun block => slabBytes (slab (block * 2097152 + 64))) (chunk / 2097152)
        (slabBytes descriptor) := by
    funext block
    by_cases here : block = chunk / 2097152
    · rw [here, Function.update_self, position, Function.update_self]
    · rw [Function.update_of_ne here, Function.update_of_ne (by omega)]
  have before :=
    Finset.add_sum_erase _ (fun block => slabBytes (slab (block * 2097152 + 64))) member
  simp only [position] at before
  unfold countedBytes
  rw [pointwise, Finset.sum_update_of_mem member, ← Finset.erase_eq, ← before]
  push_cast
  ring

theorem books_descriptor {descriptor : Slab}
    (placed : chunk % 2097152 = 0 ∧ 0 < chunk ∧ chunk + 2097152 ≤ 2 ^ 48)
    (same : SameAccounts s after)
    (written : after.slab = Function.update s.slab (chunk + 64) descriptor)
    (grown : (slabBytes descriptor : Int) = slabBytes (s.slab (chunk + 64)) + held) :
    Books tlh 0 held s after := by
  obtain ⟨aligned, _, bound⟩ := placed
  refine books_counted same.slots same.tlh same.outside.threads.heaps ?_
  rw [written, counted_update s.slab descriptor aligned (by omega), grown]
  ring

theorem slab_used_bound {slab : Slab} {next : Nat → Nat} {node : Nat → NodePlace}
    (ok : SlabOk slab next node chunk classIdx) : slab.usedObjects ≤ 131064 := by
  have capacity := (slab_capacity ok.classBound).2
  have used := ok.used
  have bump := ok.bumpBound
  rw [ok.maxObjects] at bump
  omega

/-! ## Free paths -/

theorem recycle_slab_field (s : State) (tlh slab : Nat) :
    (recycleIfEmpty s tlh slab).slab = s.slab := by
  have destroyed : ∀ middle : State, (lzSlabDestroy middle slab).slab = middle.slab := by
    intro middle
    unfold lzSlabDestroy
    simp only
    split
    · rfl
    · exact destroy_slab_field middle _
  unfold recycleIfEmpty lzTlhRecycleEmptySlab
  split
  · simp only
    split
    · split
      · rfl
      · exact destroyed _
    · exact destroyed _
  · rfl

/-- A local free subtracts the block size once from either side. -/
theorem books_free_slab (inv : Inv mode s g) (tlh : Nat) {owner ptr : Nat}
    (here : g.kind (chunkBase ptr) = .slab owner classIdx) (used : (g.node ptr).InUse) :
    Books tlh (-(lzClassToSize classIdx : Int)) (-(lzClassToSize classIdx : Int)) s
      (lzTlhFreeSlab s tlh (chunkBase ptr) ptr) := by
  have ok := inv.slabs _ owner classIdx here
  have positive : 1 ≤ (s.slab (chunkBase ptr + 64)).usedObjects := by
    apply slab_used_positive ok rfl
    · intro absent
      simp [absent, NodePlace.InUse] at used
    · intro free
      simp [free, NodePlace.InUse] at used
  have bound := slab_used_bound ok
  have size := (slab_block_size ok.classBound).2
  obtain ⟨pushed, pushedEq⟩ :
      ∃ pushed, pushFreeBlock s (chunkBase ptr + 64) ptr = pushed := ⟨_, rfl⟩
  have first : Books tlh 0 (-(lzClassToSize classIdx : Int)) s pushed := by
    rw [← pushedEq]
    refine books_descriptor (inv.geom.placed _ (by simp [here])) rfl rfl ?_
    have counted : ((s.slab (chunkBase ptr + 64)).usedObjects + (2 ^ 32 - 1)) % 2 ^ 32 =
        (s.slab (chunkBase ptr + 64)).usedObjects - 1 := by omega
    simp only [slabBytes, counted, ok.blockSize]
    rw [Nat.sub_mul, one_mul]
    have enough : lzClassToSize classIdx ≤
        (s.slab (chunkBase ptr + 64)).usedObjects * lzClassToSize classIdx :=
      Nat.le_mul_of_pos_left _ positive
    omega
  obtain ⟨recycled, recycledEq⟩ : ∃ recycled, recycleIfEmpty
      (rescueIfWasFull pushed tlh (chunkBase ptr + 64)) tlh (chunkBase ptr + 64) = recycled :=
    ⟨_, rfl⟩
  have slabs : recycled.slab = pushed.slab := by
    rw [← recycledEq, recycle_slab_field, rescue_slab_field]
  have second : Books tlh 0 0 pushed recycled := by
    refine books_same ?_ slabs
    rw [← recycledEq]
    exact same_accounts_trans (rescue_accounts _ _ _) (recycle_accounts _ _ _)
  have blockSize : (recycled.slab (chunkBase ptr + 64)).blockSize = lzClassToSize classIdx := by
    rw [slabs, ← pushedEq]
    simp only [pushFreeBlock, setSlab, Function.update_self, ok.blockSize]
  have last := books_trans (books_trans first second)
    (books_account_free recycled tlh (by omega : lzClassToSize classIdx ≤ 2097152))
  have result : lzTlhFreeSlab s tlh (chunkBase ptr) ptr =
      accountFree recycled tlh (lzClassToSize classIdx) := by
    rw [← blockSize, ← recycledEq, ← pushedEq]
    rfl
  rw [result]
  simpa using last

/-! ## Reaping -/

def SlabsOnly (kind : Nat → BlockKind) : Prop := ∀ chunk tlh, kind chunk ≠ .span tlh

theorem slabs_only_swept {slab between : Nat → Slab} {last : Ghost}
    (only : SlabsOnly g.kind) (swept : Swept slab g between last) : SlabsOnly last.kind := by
  intro chunk tlh isSpan
  have same := swept_kind swept (by simp [isSpan] : ∀ place, last.kind chunk ≠ .idle place)
  exact only chunk tlh (same.symm.trans isSpan)

theorem owing_reap_node (inv : Inv mode s g) (only : SlabsOnly g.kind) (more : g.cursor tlh ≠ 0) :
    Owing tlh 0 s (lzTlhReapNode s tlh (g.cursor tlh)) := by
  obtain ⟨_, there, owned⟩ := inv_advance inv more
  cases kind : g.kind (chunkBase (g.cursor tlh)) with
  | slab heap classIdx =>
      have used : (g.node (g.cursor tlh)).InUse := by
        rw [there]
        trivial
      have freed : Owing tlh 0 s (lzTlhFreeSlab s tlh (chunkBase (g.cursor tlh)) (g.cursor tlh)) :=
        ⟨_, by simpa using books_free_slab inv tlh kind used⟩
      unfold lzTlhReapNode
      simp only [(inv.header.slab _ heap classIdx kind).2.1]
      exact freed
  | span heap => exact absurd kind (only _ heap)
  | unused => simp [kind, BlockKind.owner] at owned
  | idle place => simp [kind, BlockKind.owner] at owned
  | loose => simp [kind, BlockKind.owner] at owned
  | direct header => simp [kind, BlockKind.owner] at owned

theorem owing_reap_loop (fuel : Nat) (inv : Inv mode s g) (only : SlabsOnly g.kind) :
    Owing tlh 0 s (lzTlhReapLoop fuel s tlh (g.cursor tlh)) := by
  induction fuel generalizing s g with
  | zero => exact owing_same (same_accounts_refl s) rfl
  | succ fuel ih =>
      unfold lzTlhReapLoop
      by_cases null : g.cursor tlh = 0
      · rw [if_pos null]
        exact owing_same (same_accounts_refl s) rfl
      · rw [if_neg null]
        obtain ⟨after, afterInv, _, _, swept, _⟩ := inv_reap_node inv null
        have next : linkAt s.mem (g.cursor tlh) = after.cursor tlh := by
          rw [swept.cursor]
          simp [advance]
        have still : SlabsOnly (advance g s.mem tlh).kind := only
        have later := ih afterInv (slabs_only_swept still swept)
        simp only [next]
        exact owing_after (owing_reap_node inv only null) later

theorem owing_reap (inv : Inv mode s g) (only : SlabsOnly g.kind) (idle : g.cursor tlh = 0) :
    Owing tlh 0 s (lzTlhReap s tlh) := by
  have detachedInv := inv_detach inv idle
  have walked : Owing tlh 0 (detachMailbox s tlh) (lzTlhReapLoop addressLimit
      (detachMailbox s tlh) tlh (Function.update g.cursor tlh (s.remoteFreeHead tlh) tlh)) :=
    owing_reap_loop addressLimit detachedInv only
  rw [Function.update_self] at walked
  have cut : Owing tlh 0 s (detachMailbox s tlh) :=
    ⟨0, books_counted rfl rfl rfl (add_zero _).symm⟩
  exact owing_after cut walked

/-! ## Allocation -/

/-- A block of class `classIdx` has been taken and not been counted, or there
was none. -/
structure Taken (tlh classIdx : Nat) (s : State) (result : Nat × State) : Prop where
  owing : Owing tlh (if result.1 = 0 then 0 else lzClassToSize classIdx) s result.2
  current : result.1 ≠ 0 → (result.2.bins tlh classIdx).currentSlab ≠ 0

theorem taken_after {result : Nat × State} (first : Owing tlh 0 s middle)
    (second : Taken tlh classIdx middle result) : Taken tlh classIdx s result :=
  ⟨owing_after first second.owing, second.current⟩

theorem taken_none (owing : Owing tlh 0 s after) : Taken tlh classIdx s (0, after) :=
  ⟨by rwa [if_pos rfl], fun nonnull => absurd rfl nonnull⟩

theorem taken_descriptor {descriptor : Slab} {ptr : Nat} (core : Core mode s g)
    (isSlab : g.kind chunk = .slab tlh classIdx)
    (current : (after.bins tlh classIdx).currentSlab ≠ 0) (same : SameAccounts s after)
    (written : after.slab = Function.update s.slab (chunk + 64) descriptor)
    (size : descriptor.blockSize = (s.slab (chunk + 64)).blockSize)
    (used : descriptor.usedObjects = ((s.slab (chunk + 64)).usedObjects + 1) % 2 ^ 32)
    (nonnull : ptr ≠ 0) : Taken tlh classIdx s (ptr, after) := by
  have ok := core.slabs chunk tlh classIdx isSlab
  have bound := slab_used_bound ok
  refine ⟨?_, fun _ => current⟩
  rw [if_neg nonnull]
  refine ⟨0, books_descriptor (core.geom.placed chunk (by simp [isSlab])) same written ?_⟩
  rw [Nat.mod_eq_of_lt (by omega)] at used
  simp only [slabBytes, size, used, ok.blockSize]
  push_cast
  ring

theorem taken_pop (inv : Inv mode s g) (isSlab : g.kind chunk = .slab tlh classIdx)
    (current : (s.bins tlh classIdx).currentSlab = chunk + 64)
    (nonempty : (s.slab (chunk + 64)).freeListHead ≠ 0) :
    Taken tlh classIdx s (popFreeBlock s (chunk + 64)) := by
  refine taken_descriptor inv.toCore isSlab ?_ (pop_accounts s _) rfl rfl rfl nonempty
  simp only [setSlab, current]
  omega

theorem taken_bump (inv : Inv mode s g) (isSlab : g.kind chunk = .slab tlh classIdx)
    (current : (s.bins tlh classIdx).currentSlab = chunk + 64)
    (active : (s.slab (chunk + 64)).bumpPtr ≠ 0) :
    Taken tlh classIdx s (bumpBlock s (chunk + 64)) := by
  have accounts := bump_accounts s (chunk + 64)
  unfold bumpBlock at accounts ⊢
  simp only at accounts ⊢
  split at accounts
  · next room =>
      rw [if_pos room]
      refine taken_descriptor inv.toCore isSlab ?_ accounts rfl rfl rfl active
      simp only [setSlab, current]
      omega
  · next full =>
      rw [if_neg full]
      have placed := inv.geom.placed chunk (by simp [isSlab])
      refine taken_none ⟨0, books_descriptor placed accounts rfl ?_⟩
      simp [slabBytes]

theorem taken_try_current (inv : Inv mode s g) (tlh classIdx : Nat) :
    Taken tlh classIdx s (tryCurrent s tlh classIdx) := by
  unfold tryCurrent
  simp only
  split
  · next listed =>
      obtain ⟨chunk, position, isSlab, _⟩ := core_current_slab inv.toCore listed.1
      rw [position] at listed ⊢
      exact taken_pop inv isSlab position listed.2
  · split
    · next active =>
        obtain ⟨chunk, position, isSlab, _⟩ := core_current_slab inv.toCore active.1
        rw [position] at active ⊢
        exact taken_bump inv isSlab position active.2
    · exact taken_none (owing_same (same_accounts_refl s) rfl)

theorem taken_attempt (inv : Inv mode s g) (only : SlabsOnly g.kind) (idle : g.cursor tlh = 0)
    (classIdx : Nat) : Taken tlh classIdx s (lzTlhAllocAttempt s tlh classIdx) := by
  rw [lz_tlh_alloc_attempt_eq]
  split
  · next listed =>
      obtain ⟨chunk, position, isSlab, _⟩ := core_current_slab inv.toCore listed.1
      rw [position] at listed ⊢
      exact taken_pop inv isSlab position listed.2
  · obtain ⟨reaped, reapedInv, _⟩ := inv_reap inv idle
    exact taken_after (owing_reap inv only idle) (taken_try_current reapedInv tlh classIdx)

/-- The slow path formats only chunks whose old descriptor counts nothing. -/
theorem taken_slow (inv : Inv mode s g) (clear : Cleared s.slab g.kind) (heap : tlh ∈ s.heaps)
    (classBound : classIdx < 40) (exhausted : Exhausted s tlh classIdx) :
    Taken tlh classIdx s (lzTlhAllocSlow s tlh classIdx) := by
  unfold lzTlhAllocSlow
  by_cases available : (s.bins tlh classIdx).partialList ≠ 0
  · rw [if_pos available]
    obtain ⟨chunk, bin, position, isSlab, current, free, promoted⟩ :=
      inv_promote inv exhausted available
    have slabs : (promotePartial (retireCurrent s tlh classIdx) tlh classIdx).slab = s.slab := by
      rw [promote_partial_eq, retire_current_only]
    have moved : Owing tlh 0 s (promotePartial (retireCurrent s tlh classIdx) tlh classIdx) :=
      owing_same (same_accounts_trans (retire_current_accounts s tlh classIdx) rfl) slabs
    simp only [position]
    exact taken_after moved (taken_pop promoted isSlab position free)
  · rw [if_neg available]
    have accounts := vmm_alloc_accounts s
    obtain ⟨only, roles, same, _, core, loose⟩ := core_vmm_alloc inv.toCore
    obtain ⟨chunk, chunkEq⟩ : ∃ chunk, (lzVmmAllocChunk s).1 = chunk := ⟨_, rfl⟩
    obtain ⟨after, afterEq⟩ : ∃ after, (lzVmmAllocChunk s).2 = after := ⟨_, rfl⟩
    unfold lzSlabCreate
    rw [chunkEq] at loose
    rw [afterEq] at only core accounts
    simp only [chunkEq, afterEq]
    have slabs : after.slab = s.slab := by rw [only]
    by_cases failed : chunk = 0
    · simp only [if_pos failed]
      exact taken_none (owing_same accounts slabs)
    · simp only [if_neg failed]
      rw [if_neg (by simp : chunk + lzCacheLineSize ≠ 0)]
      have placed := core.geom.placed chunk (by simp [loose failed])
      have idle : (s.slab (chunk + 64)).usedObjects = 0 := by
        refine clear chunk fun heap size isSlab => ?_
        have still := (same_slab same).mpr isSlab
        simp [loose failed] at still
      have still : Exhausted after tlh classIdx := by
        unfold Exhausted at exhausted ⊢
        rw [only]
        exact exhausted
      have ready : Inv mode after { g with kind := roles } :=
        inv_same_holders core same slabs inv.filled
      obtain ⟨fresh, installed, _, _, isSlab, _⟩ := inv_install ready (loose failed)
        (by rw [only]; exact heap) classBound still
      have written : (installSlab after tlh classIdx chunk).slab =
          Function.update s.slab (chunk + 64) (freshSlab chunk classIdx) := by
        rw [install_slab_eq, slabs]
      have formatted : Owing tlh 0 s (installSlab after tlh classIdx chunk) := by
        refine ⟨0, books_descriptor placed ?_ written ?_⟩
        · exact same_accounts_trans (same_accounts_trans accounts (format_slab_accounts _ _ _ _))
            (same_accounts_trans (retire_current_accounts _ tlh classIdx) rfl)
        · rw [fresh_slab_eq placed.1 placed.2.2 classBound]
          simp [slabBytes, idle]
      have current : ((installSlab after tlh classIdx chunk).bins tlh classIdx).currentSlab =
          chunk + 64 := by
        simp [installSlab, setBin]
      obtain ⟨active, room⟩ := fresh_slab_room placed.1 placed.2.2 classBound
      have descriptor : (installSlab after tlh classIdx chunk).slab (chunk + 64) =
          freshSlab chunk classIdx := by
        rw [written, Function.update_self]
      rw [← descriptor] at active room
      have bumped := taken_after formatted (taken_bump installed isSlab current active)
      simp only [bumpBlock, if_pos room] at bumped
      exact bumped

theorem owing_tlh_alloc (inv : Inv mode s g) (only : SlabsOnly g.kind)
    (clear : Cleared s.slab g.kind) (heap : tlh ∈ s.heaps) (idle : g.cursor tlh = 0) {size : Nat}
    (small : size ≤ lzMaxSlabObjSize) : Owing tlh 0 s (lzTlhAlloc s tlh size).2 := by
  unfold lzTlhAlloc
  rw [if_neg (Nat.not_lt.mpr small)]
  have classBound := slab_class_bound small
  obtain ⟨scIdx, scEq⟩ : ∃ scIdx, lzSizeToClass size = scIdx := ⟨_, rfl⟩
  have frame := (alloc_attempt_batches s tlh scIdx).threads
  have taken := taken_attempt inv only idle scIdx
  have outcome := inv_alloc_attempt inv idle scIdx
  rw [scEq] at classBound
  simp only [scEq]
  generalize lzTlhAllocAttempt s tlh scIdx = attempt at outcome frame taken ⊢
  have got : Taken tlh scIdx s (if attempt.1 = 0 then lzTlhAllocSlow attempt.2 tlh scIdx
      else attempt) ∧ ∃ last, Inv mode (if attempt.1 = 0 then lzTlhAllocSlow attempt.2 tlh scIdx
        else attempt).2 last := by
    rcases outcome with ⟨failed, middle, middleInv, quiet, course, exhausted⟩ | ⟨some, last,
      lastInv, _⟩
    · have square := taken.owing
      rw [if_pos failed] at square
      rw [if_pos failed]
      have still : tlh ∈ attempt.2.heaps := by
        rw [frame.heaps]
        exact heap
      obtain ⟨last, lastInv, _⟩ := inv_alloc_slow middleInv still classBound exhausted
      exact ⟨taken_after square
        (taken_slow middleInv (course.cleared clear) still classBound exhausted),
        last, lastInv⟩
    · rw [if_neg some]
      exact ⟨taken, last, lastInv⟩
  generalize (if attempt.1 = 0 then lzTlhAllocSlow attempt.2 tlh scIdx else attempt) = result
    at got ⊢
  obtain ⟨⟨owing, current⟩, last, lastInv⟩ := got
  by_cases none : result.1 = 0
  · rw [if_pos none] at owing ⊢
    exact owing
  · rw [if_neg none] at owing ⊢
    obtain ⟨chunk, position, isSlab, _⟩ := core_current_slab lastInv.toCore (current none)
    have blockSize := (lastInv.slabs chunk tlh scIdx isSlab).blockSize
    have bound := (slab_block_size classBound).2
    simp only [position, blockSize]
    have booked := books_account_alloc result.2 tlh (by omega : lzClassToSize scIdx ≤ 2097152)
    have counted : Owing tlh (-(lzClassToSize scIdx : Int)) result.2
        (accountAlloc result.2 tlh (lzClassToSize scIdx)) :=
      ⟨lzClassToSize scIdx, by simpa using booked⟩
    have both := owing_trans owing counted
    rwa [add_neg_cancel] at both

/-! ## Remote free -/

/-- A remote free counts nothing; the block stays in use until it is reaped. -/
theorem books_free_remote (s : State) (tlh owner node : Nat) :
    Books tlh 0 0 s (lzTlhFreeRemote s tlh owner node) := by
  have flushed : ∀ middle : State, (lzTlhFlushOutgoingBatch middle tlh).slots = middle.slots ∧
      (lzTlhFlushOutgoingBatch middle tlh).tlh = middle.tlh ∧
      (lzTlhFlushOutgoingBatch middle tlh).heaps = middle.heaps ∧
      (lzTlhFlushOutgoingBatch middle tlh).slab = middle.slab := by
    intro middle
    rw [lz_tlh_flush_only]
    exact ⟨rfl, rfl, rfl, rfl⟩
  obtain ⟨slots, infos, heaps, slabs⟩ := flushed (setLink s node 0)
  unfold lzTlhFreeRemote
  simp only
  split
  · refine books_counted slots infos heaps ?_
    simp only [enqueueRemote, setLink] at slabs ⊢
    rw [slabs, add_zero]
  · exact books_counted rfl rfl rfl (add_zero _).symm

end Lzmalloc.TelemetryBooks
