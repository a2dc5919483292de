import Mathlib.Algebra.BigOperators.Group.Finset.Basic
import Mathlib.Tactic.Abel
import Mathlib.Tactic.LinearCombination
import Lzmalloc.CollectionContracts
import Lzmalloc.TelemetryBooks

/-!
# The ledger over all heaps

What all slots and all pending counters report together, compared with the
blocks that the slabs count as in use. As long as only slabs are used every
operation changes both by the same amount, with one exception: a thread that
adopts a zombie heap starts its counters again, and what was pending there is
lost.
-/

namespace Lzmalloc.TelemetryLedger

open SizeClasses HeapState VirtualMemoryManager Engines PointerChain DoublyLinked ThreadHeap
open PublicApi StepSystem HeapInvariant InvariantFacts ClientView ChunkTransfer SlabBlocks BinLists
open RemoteFree ThreadFrames HeapOperations DirectObjects ThreadLifecycle SlabAllocation RadixTree
open ConcreteView ApiOperations ApiRuns TelemetryBooks

set_option autoImplicit false

variable {mode : Mode} {s middle after : State} {g last : Ghost}
  {tlh thread ptr size chunk : Nat} {paid held : Int}

/-! ## Both sides -/

def threadSlots : Finset Nat := Finset.Ico lzThreadSlotBaseIdx lzMaxTelemetrySlots

/-- `bytes_allocated` of all thread slots and the pending counters of all heaps,
added up in the 64 bits of a slot. -/
def reportedBytes (s : State) : BitVec 64 :=
  ∑ slot ∈ threadSlots, s.slots slot +
    ((∑ tlh ∈ s.heaps.toFinset, pendingBytes (s.tlh tlh) : Int) : BitVec 64)

def discrepancy (s : State) : BitVec 64 := reportedBytes s - (countedBytes s.slab : BitVec 64)

/-- The heap reports to a slot of its own kind and is below its thresholds. -/
structure Slotted (info : TlhInfo) : Prop where
  slot : ∃ slot ∈ threadSlots, info.statSlot = some slot
  bounded : Bounded info

/-- Telemetry is on, nothing but slabs is used, and the descriptor of a chunk
that is no slab counts no blocks. -/
structure Audited (s : State) : Prop where
  enabled : s.telemetry = true
  slotted : ∀ tlh ∈ s.heaps, Slotted (s.tlh tlh)
  spanless : ∀ tlh, s.activeSpans tlh = 0
  mapless : s.directs = []
  cleared : ∀ chunk, (∀ tlh classIdx, ¬OwnsSlab s tlh classIdx (chunk + 64)) →
    (s.slab (chunk + 64)).usedObjects = 0

/-- The ledger is as far off after the operation as before. -/
structure Square (s after : State) : Prop where
  audited : Audited after
  level : discrepancy after = discrepancy s

theorem square_refl (audited : Audited s) : Square s s := ⟨audited, rfl⟩

theorem square_trans (first : Square s middle) (second : Square middle after) : Square s after :=
  ⟨second.audited, second.level.trans first.level⟩

theorem sum_changed_at {Index Value : Type*} [DecidableEq Index] [AddCommGroup Value]
    {indices : Finset Index} {before later : Index → Value} {here : Index} (member : here ∈ indices)
    (others : ∀ index, index ≠ here → later index = before index) :
    ∑ index ∈ indices, later index =
      ∑ index ∈ indices, before index + (later here - before here) := by
  have same : ∑ index ∈ indices.erase here, later index =
      ∑ index ∈ indices.erase here, before index :=
    Finset.sum_congr rfl fun index kept => others index (Finset.ne_of_mem_erase kept)
  rw [← Finset.add_sum_erase indices later member, ← Finset.add_sum_erase indices before member,
    same]
  abel

theorem reported_books (heap : tlh ∈ s.heaps) (slotted : Slotted (s.tlh tlh))
    (books : Books tlh paid held s after) : reportedBytes after = reportedBytes s + paid := by
  obtain ⟨slot, known, here⟩ := slotted.slot
  have own := (books.own slotted.bounded).2 slot here
  have slots : ∑ index ∈ threadSlots, after.slots index =
      ∑ index ∈ threadSlots, s.slots index + (after.slots slot - s.slots slot) := by
    apply sum_changed_at known
    intro index other
    apply books.elsewhere
    rw [here]
    simpa using other.symm
  have heaps : ∑ index ∈ s.heaps.toFinset, pendingBytes (after.tlh index) =
      ∑ index ∈ s.heaps.toFinset, pendingBytes (s.tlh index) +
        (pendingBytes (after.tlh tlh) - pendingBytes (s.tlh tlh)) := by
    apply @sum_changed_at Nat Int _ _ _ (fun index => pendingBytes (s.tlh index))
      (fun index => pendingBytes (after.tlh index)) tlh (List.mem_toFinset.mpr heap)
    intro index other
    rw [books.others index other]
  unfold reportedBytes
  rw [books.heaps, slots, heaps]
  push_cast
  linear_combination own

theorem slotted_books (slotted : ∀ heap ∈ s.heaps, Slotted (s.tlh heap))
    (books : Books tlh paid held s after) : ∀ heap ∈ after.heaps, Slotted (after.tlh heap) := by
  rw [books.heaps]
  intro heap member
  have before := slotted heap member
  constructor
  · rw [books.slot heap]
    exact before.slot
  · by_cases same : heap = tlh
    · rw [same] at before ⊢
      exact (books.own before.bounded).1
    · rw [books.others heap same]
      exact before.bounded

theorem discrepancy_books (heap : tlh ∈ s.heaps) (slotted : Slotted (s.tlh tlh))
    (books : Books tlh paid held s after) :
    discrepancy after = discrepancy s + (paid - held) := by
  have counted : (countedBytes after.slab : BitVec 64) = countedBytes s.slab + held := by
    exact_mod_cast congrArg (Int.cast : Int → BitVec 64) books.counted
  unfold discrepancy
  rw [reported_books heap slotted books, counted]
  ring

/-! ## What the state says about its chunks -/

theorem slabs_only_iff (core : Core mode s g) :
    SlabsOnly g.kind ↔ ∀ tlh, s.activeSpans tlh = 0 := by
  constructor
  · intro only tlh
    by_contra nonnull
    obtain ⟨chunk, _, isSpan⟩ := doubly_head (core.spanList tlh) nonnull
    exact only chunk tlh isSpan
  · intro empty chunk tlh isSpan
    have list := core.spanList tlh
    rw [empty tlh] at list
    exact doubly_null list (chunk + 64) ⟨chunk, rfl, isSpan⟩

theorem cleared_iff (core : Core mode s g) (settled : ∀ chunk, g.kind chunk ≠ .loose) :
    Cleared s.slab g.kind ↔
      ∀ chunk, (∀ tlh classIdx, ¬OwnsSlab s tlh classIdx (chunk + 64)) →
        (s.slab (chunk + 64)).usedObjects = 0 := by
  have same : ∀ chunk, (∀ tlh classIdx, ¬OwnsSlab s tlh classIdx (chunk + 64)) ↔
      ∀ tlh classIdx, g.kind chunk ≠ .slab tlh classIdx := by
    intro chunk
    simp only [owns_slab_iff core settled, ne_eq]
  unfold Cleared
  simp only [same]

namespace Audited

theorem only (audited : Audited s) (core : Core mode s g) : SlabsOnly g.kind :=
  (slabs_only_iff core).mpr audited.spanless

theorem clear (audited : Audited s) (rest : AtRest mode s g) : Cleared s.slab g.kind :=
  (cleared_iff rest.inv.toCore rest.settled).mpr audited.cleared

end Audited

/-- What is left to show about an operation of one heap that pays for what it
takes. -/
theorem square_of_owing (audited : Audited s) (heap : tlh ∈ s.heaps) (owing : Owing tlh 0 s after)
    (threads : SameThreads s after) (telemetry : after.telemetry = s.telemetry)
    (core : Core mode after last) (settled : ∀ chunk, last.kind chunk ≠ .loose)
    (only : SlabsOnly last.kind) (clear : Cleared after.slab last.kind) : Square s after := by
  obtain ⟨paid, books⟩ := owing
  constructor
  · constructor
    · rw [telemetry]
      exact audited.enabled
    · exact slotted_books audited.slotted books
    · exact (slabs_only_iff core).mp only
    · rw [threads.directs]
      exact audited.mapless
    · exact (cleared_iff core settled).mp clear
  · rw [discrepancy_books heap (audited.slotted tlh heap) books, add_zero, sub_self, add_zero]

/-! ## Allocation -/

theorem slab_create_spans (core : Core mode s g) (tlh classIdx : Nat) :
    (lzSlabCreate s tlh classIdx).2.activeSpans = s.activeSpans := by
  have taken : (lzVmmAllocChunk s).2.activeSpans = s.activeSpans := by
    rw [(core_vmm_alloc core).1]
  unfold lzSlabCreate
  simp only
  generalize (lzVmmAllocChunk s).2 = after at taken ⊢
  split
  · exact taken
  · rw [formatSlab, lz_rtree_set_eq]
    exact taken

theorem alloc_slow_spans (core : Core mode s g) (tlh scIdx : Nat) :
    (lzTlhAllocSlow s tlh scIdx).2.activeSpans = s.activeSpans := by
  have retired : ∀ state : State,
      (retireCurrent state tlh scIdx).activeSpans = state.activeSpans := by
    intro state
    rw [retire_current_only]
  have created := slab_create_spans core tlh scIdx
  unfold lzTlhAllocSlow
  generalize lzSlabCreate s tlh scIdx = result at created ⊢
  split
  · exact retired s
  · simp only
    split
    · exact created
    · exact (retired result.2).trans created

theorem try_current_spans (s : State) (tlh scIdx : Nat) :
    (tryCurrent s tlh scIdx).2.activeSpans = s.activeSpans := by
  unfold tryCurrent bumpBlock
  simp only
  split
  · rfl
  · split
    · split
      · rfl
      · rfl
    · rfl

theorem spanless_reap (inv : Inv mode s g) (idle : g.cursor tlh = 0)
    (spanless : ∀ heap, s.activeSpans heap = 0) (heap : Nat) :
    (lzTlhReap s tlh).activeSpans heap = 0 := by
  obtain ⟨last, reaped, _, swept, _⟩ := inv_reap inv idle
  have only := slabs_only_swept ((slabs_only_iff inv.toCore).mpr spanless) swept
  exact (slabs_only_iff reaped.toCore).mp only heap

theorem spanless_attempt (inv : Inv mode s g) (idle : g.cursor tlh = 0)
    (spanless : ∀ heap, s.activeSpans heap = 0) (scIdx heap : Nat) :
    (lzTlhAllocAttempt s tlh scIdx).2.activeSpans heap = 0 := by
  rw [lz_tlh_alloc_attempt_eq]
  split
  · exact spanless heap
  · rw [try_current_spans]
    exact spanless_reap inv idle spanless heap

theorem spanless_alloc (inv : Inv mode s g) (idle : g.cursor tlh = 0)
    (small : size ≤ lzMaxSlabObjSize) (spanless : ∀ heap, s.activeSpans heap = 0) (other : Nat) :
    (lzTlhAlloc s tlh size).2.activeSpans other = 0 := by
  unfold lzTlhAlloc
  rw [if_neg (Nat.not_lt.mpr small)]
  have attempted := spanless_attempt inv idle spanless (lzSizeToClass size) other
  have outcome := inv_alloc_attempt inv idle (lzSizeToClass size)
  simp only
  generalize lzTlhAllocAttempt s tlh (lzSizeToClass size) = attempt at attempted outcome ⊢
  have got : (if attempt.1 = 0 then lzTlhAllocSlow attempt.2 tlh (lzSizeToClass size)
      else attempt).2.activeSpans other = 0 := by
    split
    · next failed =>
        obtain ⟨_, middle, middleInv, _⟩ := outcome.resolve_right fun some => some.1 failed
        rw [alloc_slow_spans middleInv.toCore]
        exact attempted
    · exact attempted
  generalize (if attempt.1 = 0 then lzTlhAllocSlow attempt.2 tlh (lzSizeToClass size)
    else attempt) = result at got ⊢
  split
  · exact got
  · rw [account_alloc_eq]
    exact got

theorem square_tlh_alloc (rest : AtRest mode s g) (audited : Audited s) (heap : tlh ∈ s.heaps)
    (small : size ≤ lzMaxSlabObjSize) : Square s (lzTlhAlloc s tlh size).2 := by
  have inv := rest.inv
  have idle := rest.cursor tlh
  have clear := audited.clear rest
  have owing := owing_tlh_alloc inv (audited.only inv.toCore) clear heap idle small
  have batches := tlh_alloc_batches s tlh size
  have spanless := spanless_alloc inv idle small audited.spanless
  obtain ⟨last, lastInv, course, _⟩ := inv_tlh_alloc inv heap idle size
  apply square_of_owing audited heap owing batches.threads batches.telemetry lastInv.toCore
  · exact fun chunk loose => rest.settled chunk (course.loose chunk loose)
  · exact (slabs_only_iff lastInv.toCore).mpr spanless
  · exact course.cleared clear

/-! ## Free and reap -/

theorem square_reap (rest : AtRest mode s g) (audited : Audited s) (heap : tlh ∈ s.heaps) :
    Square s (lzTlhReap s tlh) := by
  have inv := rest.inv
  have idle := rest.cursor tlh
  have only := audited.only inv.toCore
  have clear := audited.clear rest
  have owing := owing_reap inv only idle
  have batches := reap_batches s tlh
  obtain ⟨last, lastInv, _, swept, _⟩ := inv_reap inv idle
  apply square_of_owing audited heap owing batches.threads batches.telemetry lastInv.toCore
  · exact fun chunk loose => rest.settled chunk (swept.loose chunk loose)
  · exact slabs_only_swept only swept
  · exact swept.cleared clear

theorem free_remote_telemetry (s : State) (tlh owner node : Nat) :
    (lzTlhFreeRemote s tlh owner node).telemetry = s.telemetry := by
  have flushed : ∀ state : State,
      (lzTlhFlushOutgoingBatch state tlh).telemetry = state.telemetry := by
    intro state
    rw [lz_tlh_flush_only]
  unfold lzTlhFreeRemote
  simp only
  split
  · exact flushed _
  · rfl

/-- A free by the owner subtracts the block size on both sides, a free by
another heap changes neither. -/
theorem square_tlh_free (rest : AtRest mode s g) (audited : Audited s) (heap : tlh ∈ s.heaps)
    (live : g.node ptr = .live) {owner : Nat} (owned : (g.kind (chunkBase ptr)).owner = some owner)
    (found : lzRtreeGet s.rtree ptr ≠ 0) : Square s (lzTlhFree s tlh ptr) := by
  have inv := rest.inv
  have present : g.node ptr ≠ .none := by simp [live]
  have only := audited.only inv.toCore
  have clear := audited.clear rest
  obtain ⟨last, lastInv, _, swept, _⟩ := inv_tlh_free inv live owned heap fun _ => found
  have paid : Owing tlh 0 s (lzTlhFree s tlh ptr) ∧
      (lzTlhFree s tlh ptr).telemetry = s.telemetry := by
    by_cases mine : owner = tlh
    · cases kind : g.kind (chunkBase ptr) with
      | slab holder classIdx =>
          obtain rfl : holder = tlh := by
            simp only [kind, BlockKind.owner, Option.some.injEq] at owned
            rw [owned, mine]
          rw [lz_tlh_free_slab_eq inv.toCore present kind]
          have used : (g.node ptr).InUse := by
            rw [live]
            trivial
          have books := books_free_slab inv holder kind used
          exact ⟨⟨_, by rwa [add_zero]⟩, (free_slab_outside s holder (chunkBase ptr) ptr).telemetry⟩
      | span holder => exact absurd kind (only _ holder)
      | unused => simp [kind, BlockKind.owner] at owned
      | idle place => simp [kind, BlockKind.owner] at owned
      | loose => simp [kind, BlockKind.owner] at owned
      | direct header => simp [kind, BlockKind.owner] at owned
    · rw [lz_tlh_free_remote_eq inv.toCore present owned mine]
      exact ⟨⟨0, books_free_remote s tlh owner ptr⟩, free_remote_telemetry s tlh owner ptr⟩
  apply square_of_owing audited heap paid.1 (tlh_free_threads s tlh ptr) paid.2 lastInv.toCore
  · exact fun chunk loose => rest.settled chunk (swept.loose chunk loose)
  · exact slabs_only_swept only swept
  · exact swept.cleared clear

/-! ## Threads -/

theorem discrepancy_same (slots : after.slots = s.slots) (heaps : after.heaps = s.heaps)
    (infos : after.tlh = s.tlh) (slab : after.slab = s.slab) :
    discrepancy after = discrepancy s := by
  simp only [discrepancy, reportedBytes, slots, heaps, infos, slab]

theorem audited_same_chunks (audited : Audited s) (telemetry : after.telemetry = s.telemetry)
    (slotted : ∀ tlh ∈ after.heaps, Slotted (after.tlh tlh))
    (spanless : ∀ tlh, after.activeSpans tlh = 0) (directs : after.directs = s.directs)
    (vmm : after.vmm = s.vmm) (slab : after.slab = s.slab) : Audited after := by
  constructor
  · rw [telemetry]
    exact audited.enabled
  · exact slotted
  · exact spanless
  · rw [directs]
    exact audited.mapless
  · intro chunk unowned
    rw [slab]
    apply audited.cleared chunk
    intro tlh classIdx owns
    apply unowned tlh classIdx
    simpa only [OwnsSlab, vmm, slab] using owns

theorem square_mem (audited : Audited s) (mem : ByteMemory.Memory) :
    Square s { s with mem := mem } :=
  ⟨audited_same_chunks audited rfl audited.slotted audited.spanless rfl rfl rfl,
    discrepancy_same rfl rfl rfl rfl⟩

def retiredInfo (info : TlhInfo) (zombies : Nat) : TlhInfo :=
  { info with
    localBytesAllocBatch := 0, localBytesFreeBatch := 0, isZombie := 1, nextZombie := zombies }

theorem thread_exit_eq {slot : Nat} (attached : s.tls thread ≠ 0)
    (known : (s.tlh (s.tls thread)).statSlot = some slot) :
    threadExit s thread =
      { s with
        mem := (lzTlhFlushOutgoingBatch s (s.tls thread)).mem
        remoteFreeHead := (lzTlhFlushOutgoingBatch s (s.tls thread)).remoteFreeHead
        outgoingBatch := (lzTlhFlushOutgoingBatch s (s.tls thread)).outgoingBatch
        slots := Function.update s.slots slot (s.slots slot + pendingBytes (s.tlh (s.tls thread)))
        tlh := Function.update s.tlh (s.tls thread)
          (retiredInfo (s.tlh (s.tls thread)) s.gZombieTlhs)
        gZombieTlhs := s.tls thread
        tls := Function.update s.tls thread 0 } := by
  have flushed := lz_tlh_flush_only s (s.tls thread)
  unfold threadExit lzTlhDestructor
  simp only [if_neg attached]
  generalize lzTlhFlushOutgoingBatch s (s.tls thread) = middle at flushed ⊢
  have infos : middle.tlh = s.tlh := by rw [flushed]
  have slots : middle.slots = s.slots := by rw [flushed]
  have telemetry : flushTelemetry middle (s.tls thread) =
      { middle with
        slots := Function.update s.slots slot (s.slots slot + pendingBytes (s.tlh (s.tls thread)))
        tlh := Function.update s.tlh (s.tls thread)
          { s.tlh (s.tls thread) with localBytesAllocBatch := 0, localBytesFreeBatch := 0 } } := by
    simp only [flushTelemetry, infos, slots, known, pendingBytes, add_sub_assoc, Int.cast_sub,
      Int.cast_natCast, BitVec.natCast_eq_ofNat]
  rw [telemetry, flushed]
  simp only [Function.update_self, Function.update_idem, retiredInfo]

/-- The destructor adds the pending counters to the slot before it clears them. -/
theorem books_exit {slot : Nat} (attached : s.tls thread ≠ 0)
    (known : (s.tlh (s.tls thread)).statSlot = some slot) :
    Books (s.tls thread) 0 0 s (threadExit s thread) := by
  rw [thread_exit_eq attached known]
  refine books_counter rfl rfl rfl rfl (elsewhere_update known _) fun _ =>
    ⟨⟨by norm_num [retiredInfo], by norm_num [retiredInfo]⟩, fun other same => ?_⟩
  obtain rfl := Option.some.inj (known.symm.trans same)
  simp [retiredInfo, pendingBytes]

theorem square_exit (rest : AtRest mode s g) (audited : Audited s) (thread : Nat) :
    Square s (threadExit s thread) := by
  by_cases attached : s.tls thread = 0
  · have same : Function.update s.tls thread 0 = s.tls := by
      rw [← attached, Function.update_eq_self]
    simp only [threadExit, lzTlhDestructor, if_pos attached, same]
    exact square_refl audited
  · have heap := rest.threads.attached thread attached
    obtain ⟨slot, _, known⟩ := (audited.slotted _ heap).slot
    have books := books_exit attached known
    constructor
    · have slotted := slotted_books audited.slotted books
      rw [thread_exit_eq attached known] at slotted ⊢
      exact audited_same_chunks audited rfl slotted audited.spanless rfl rfl rfl
    · rw [discrepancy_books heap (audited.slotted _ heap) books, sub_self, add_zero]

/-! ## Garbage collection -/

theorem zombie_heap (ok : ThreadsOk s) (zombie : Collection.OnZombieList s tlh) :
    tlh ∈ s.heaps := by
  obtain ⟨member, count, chain, outside⟩ := ok.zombies
  exact (outside tlh ((enumerates_on_chain chain).mp zombie)).1

theorem zombie_next (ok : ThreadsOk s) (zombie : Collection.OnZombieList s tlh)
    (more : zombieLink s tlh ≠ 0) : Collection.OnZombieList s (zombieLink s tlh) := by
  obtain ⟨member, count, chain, outside⟩ := ok.zombies
  exact (enumerates_on_chain chain).mpr
    (enumerates_next chain ((enumerates_on_chain chain).mp zombie) more)

theorem at_rest_reap (rest : AtRest mode s g) (tlh : Nat) :
    ∃ last, AtRest mode (lzTlhReap s tlh) last := by
  obtain ⟨last, later, _⟩ := at_rest_housekeeping rest
    (housekeeping_of_sweeping (sweeping_reap rest.inv rest.cursor tlh))
  exact ⟨last, later⟩

theorem square_gc_loop (fuel : Nat) {current : Nat} (rest : AtRest mode s g) (audited : Audited s)
    (zombie : current ≠ 0 → Collection.OnZombieList s current) :
    (∃ last, AtRest mode (gcLoop fuel s current) last) ∧ Square s (gcLoop fuel s current) := by
  induction fuel generalizing s g current with
  | zero => exact ⟨⟨g, rest⟩, square_refl audited⟩
  | succ fuel ih =>
      unfold gcLoop
      by_cases ended : current = 0
      · rw [if_pos ended]
        exact ⟨⟨g, rest⟩, square_refl audited⟩
      · rw [if_neg ended]
        have here := zombie ended
        have same := reap_threads s current
        have first := square_reap rest audited (zombie_heap rest.threads here)
        obtain ⟨next, reaped⟩ := at_rest_reap rest current
        have link : ((lzTlhReap s current).tlh current).nextZombie = zombieLink s current :=
          congrFun same.next_zombie current
        have later := @ih (lzTlhReap s current) next (zombieLink s current) reaped first.audited
          fun more => by
            rw [Collection.zombie_list_same same]
            exact zombie_next rest.threads here more
        simp only [link]
        exact ⟨later.1, square_trans first later.2⟩

theorem square_purge (rest : AtRest mode s g) (audited : Audited s) :
    Square s (lzVmmPurgeAllCaches s) := by
  have accounts := purge_all_accounts s
  have slab : (lzVmmPurgeAllCaches s).slab = s.slab := by rw [(core_purge_all rest.inv.toCore).1]
  obtain ⟨last, lastInv, _, swept⟩ := inv_purge rest.inv
  have settled : ∀ chunk, last.kind chunk ≠ .loose :=
    fun chunk loose => rest.settled chunk (swept.loose chunk loose)
  constructor
  · constructor
    · rw [accounts.outside.telemetry]
      exact audited.enabled
    · rw [accounts.outside.threads.heaps, accounts.tlh]
      exact audited.slotted
    · exact (slabs_only_iff lastInv.toCore).mp
        (slabs_only_swept (audited.only rest.inv.toCore) swept)
    · rw [accounts.outside.threads.directs]
      exact audited.mapless
    · exact (cleared_iff lastInv.toCore settled).mp (swept.cleared (audited.clear rest))
  · exact discrepancy_same accounts.slots accounts.outside.threads.heaps accounts.tlh slab

theorem square_gc (rest : AtRest mode s g) (audited : Audited s) (thread : Nat) :
    Square s (lzmallocGc s thread) := by
  unfold lzmallocGc
  have own :
    (∃ last, AtRest mode (if s.tls thread ≠ 0 then lzTlhReap s (s.tls thread) else s) last) ∧
      Square s (if s.tls thread ≠ 0 then lzTlhReap s (s.tls thread) else s) := by
    split
    · next attached =>
        exact ⟨at_rest_reap rest _,
          square_reap rest audited (rest.threads.attached thread attached)⟩
    · exact ⟨⟨g, rest⟩, square_refl audited⟩
  generalize (if s.tls thread ≠ 0 then lzTlhReap s (s.tls thread) else s) = reaped at own ⊢
  obtain ⟨⟨next, reapedRest⟩, first⟩ := own
  have walked : (∃ last, AtRest mode (gcLoop addressLimit reaped reaped.gZombieTlhs) last) ∧
      Square reaped (gcLoop addressLimit reaped reaped.gZombieTlhs) := by
    apply square_gc_loop addressLimit reapedRest first.audited
    intro nonempty
    obtain ⟨member, count, chain, _⟩ := reapedRest.threads.zombies
    exact (enumerates_on_chain chain).mpr (enumerates_head chain nonempty)
  obtain ⟨⟨final, walkedRest⟩, second⟩ := walked
  exact square_trans (square_trans first second) (square_purge walkedRest second.audited)

/-! ## Thread start -/

/-- What a thread without a heap finds pending in the zombie that it adopts. -/
def adoptedBytes (s : State) (thread : Nat) : Int :=
  if s.tls thread = 0 ∧ s.gZombieTlhs ≠ 0 then pendingBytes (s.tlh s.gZombieTlhs) else 0

theorem adopted_bytes_bound (rest : AtRest mode s g) (audited : Audited s) (thread : Nat) :
    -4096 < adoptedBytes s thread ∧ adoptedBytes s thread < 1048576 := by
  unfold adoptedBytes
  split
  · next adopts =>
      obtain ⟨member, count, chain, outside⟩ := rest.threads.zombies
      have known := (outside _ (enumerates_head chain adopts.2)).1
      obtain ⟨alloc, free⟩ := (audited.slotted _ known).bounded
      unfold pendingBytes
      omega
  · exact ⟨by norm_num, by norm_num⟩

theorem started_slotted (enabled : s.telemetry = true) (info : TlhInfo) :
    Slotted (startedInfo s info) := by
  constructor
  · refine ⟨lzThreadSlotBaseIdx + s.gThreadCounter %
      (lzMaxTelemetrySlots - lzThreadSlotBaseIdx), ?_, ?_⟩
    · simp only [threadSlots, Finset.mem_Ico, lzThreadSlotBaseIdx, lzMaxTelemetrySlots]
      omega
    · simp only [startedInfo, enabled, if_true]
  · exact ⟨by norm_num [startedInfo], by norm_num [startedInfo]⟩

/-- Adoption starts the counters of the heap again without adding them to a slot. -/
theorem attach_discrepancy (rest : AtRest mode s g) (audited : Audited s)
    (done : ensureTlsInit s thread = some after) :
    Audited after ∧ discrepancy after = discrepancy s - adoptedBytes s thread := by
  rcases ensure_tls_init_cases done with
    ⟨attached, rfl⟩ | ⟨unattached, nonempty, rfl⟩ | ⟨unattached, empty, address, valid, rfl⟩
  · rw [adoptedBytes, if_neg fun both => attached both.1, Int.cast_zero, sub_zero]
    exact ⟨audited, rfl⟩
  · obtain ⟨member, count, chain, outside⟩ := rest.threads.zombies
    have known := (outside _ (enumerates_head chain nonempty)).1
    constructor
    · refine audited_same_chunks audited rfl (fun heap there => ?_) audited.spanless rfl rfl rfl
      by_cases same : heap = s.gZombieTlhs
      · simp only [adoptHeap, same, Function.update_self]
        exact started_slotted audited.enabled _
      · simp only [adoptHeap, Function.update_of_ne same]
        exact audited.slotted heap there
    · have changed : ∑ index ∈ s.heaps.toFinset, pendingBytes ((adoptHeap s thread).tlh index) =
          ∑ index ∈ s.heaps.toFinset, pendingBytes (s.tlh index) +
            (pendingBytes ((adoptHeap s thread).tlh s.gZombieTlhs) -
              pendingBytes (s.tlh s.gZombieTlhs)) := by
        apply @sum_changed_at Nat Int _ _ _ (fun index => pendingBytes (s.tlh index))
          (fun index => pendingBytes ((adoptHeap s thread).tlh index)) s.gZombieTlhs
          (List.mem_toFinset.mpr known)
        intro index other
        simp only [adoptHeap, Function.update_of_ne other]
      have started : pendingBytes ((adoptHeap s thread).tlh s.gZombieTlhs) = 0 := by
        simp [adoptHeap, startedInfo, pendingBytes]
      rw [adoptedBytes, if_pos ⟨unattached, nonempty⟩]
      unfold discrepancy reportedBytes
      rw [show (adoptHeap s thread).heaps = s.heaps from rfl, changed, started, zero_sub]
      simp only [adoptHeap]
      push_cast
      ring
  · have fresh : address ∉ s.heaps.toFinset := by
      rw [List.mem_toFinset]
      exact valid.2.2
    rw [adoptedBytes, if_neg fun both => both.2 empty, Int.cast_zero, sub_zero]
    constructor
    · refine audited_same_chunks audited rfl (fun heap there => ?_) (fun heap => ?_) rfl rfl rfl
      · by_cases same : heap = address
        · simp only [newHeap, same, Function.update_self]
          exact started_slotted audited.enabled _
        · simp only [newHeap, Function.update_of_ne same]
          exact audited.slotted heap ((List.mem_cons.mp there).resolve_left same)
      · by_cases same : heap = address
        · simp only [newHeap, same, Function.update_self]
        · simp only [newHeap, Function.update_of_ne same]
          exact audited.spanless heap
    · have others : ∑ index ∈ s.heaps.toFinset,
        pendingBytes ((newHeap s thread address).tlh index) =
          ∑ index ∈ s.heaps.toFinset, pendingBytes (s.tlh index) := by
        apply Finset.sum_congr rfl
        intro index member
        have different : index ≠ address := fun same => fresh (by rwa [same] at member)
        simp only [newHeap, Function.update_of_ne different]
      have started : pendingBytes ((newHeap s thread address).tlh address) = 0 := by
        simp [newHeap, startedInfo, pendingBytes]
      unfold discrepancy reportedBytes
      rw [show (newHeap s thread address).heaps = address :: s.heaps from rfl, List.toFinset_cons,
        Finset.sum_insert fresh, others, started]
      simp only [newHeap, zero_add]

end Lzmalloc.TelemetryLedger
