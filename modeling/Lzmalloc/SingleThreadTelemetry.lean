import Lzmalloc.TelemetryContracts

/-!
# The telemetry of a single thread

A thread that is alone frees locally and its mailbox stays empty, so its slot
and its pending counters change only where `lz_tlh_alloc`, `lz_tlh_free` and
`lz_span_free_local` count. Blocks of slabs are counted when they are taken and
when they are freed. Pages of spans are counted only when they are freed.
-/

namespace Lzmalloc.SingleThreadTelemetry

open SizeClasses HeapState VirtualMemoryManager Engines PointerChain ThreadHeap PublicApi StepSystem
open HeapInvariant InvariantFacts ClientView SlabBlocks BinLists RemoteFree ThreadFrames
open HeapOperations SlabAllocation SpanLifecycle ObjectRanges DirectObjects ThreadLifecycle
open ApiOperations ApiRuns CallParts TelemetryBooks TelemetryLedger
open SlabContracts (generousEnv)

set_option autoImplicit false

variable {mode : Mode} {s middle after : State} {g last : Ghost} {sys reached : ApiSys}
  {tlh thread ptr size scIdx : Nat} {paid more : Int}

/-! ## What a heap pays -/

def Pays (tlh : Nat) (paid : Int) (s after : State) : Prop := ∃ held, Books tlh paid held s after

theorem pays_trans (first : Pays tlh paid s middle) (second : Pays tlh more middle after) :
    Pays tlh (paid + more) s after := by
  obtain ⟨held, early⟩ := first
  obtain ⟨added, late⟩ := second
  exact ⟨held + added, books_trans early late⟩

theorem pays_same (same : SameAccounts s after) : Pays tlh 0 s after := by
  refine ⟨countedBytes after.slab - countedBytes s.slab, ?_⟩
  apply books_counted same.slots same.tlh same.outside.threads.heaps
  ring

theorem lz_tlh_reap_empty (empty : s.remoteFreeHead tlh = 0) : lzTlhReap s tlh = s := by
  have same : detachMailbox s tlh = s := by
    have update : Function.update s.remoteFreeHead tlh 0 = s.remoteFreeHead := by
      rw [← empty, Function.update_eq_self]
    rw [detachMailbox, update]
  rw [lzTlhReap, same, empty]
  have stopped : ∀ fuel, lzTlhReapLoop fuel s tlh 0 = s := by
    intro fuel
    cases fuel with
    | zero => rfl
    | succ fuel => rw [lzTlhReapLoop, if_pos rfl]
  exact stopped _

theorem attempt_accounts (empty : s.remoteFreeHead tlh = 0) (scIdx : Nat) :
    SameAccounts s (lzTlhAllocAttempt s tlh scIdx).2 := by
  rw [lz_tlh_alloc_attempt_eq, lz_tlh_reap_empty empty]
  split
  · exact pop_accounts s _
  · unfold tryCurrent
    simp only
    split
    · exact pop_accounts s _
    · split
      · exact bump_accounts s _
      · exact same_accounts_refl s

theorem bump_bins (s : State) (slab : Nat) : (bumpBlock s slab).2.bins = s.bins := by
  unfold bumpBlock
  simp only
  split
  · rfl
  · rfl

theorem attempt_current (empty : s.remoteFreeHead tlh = 0)
    (got : (lzTlhAllocAttempt s tlh scIdx).1 ≠ 0) :
    ((lzTlhAllocAttempt s tlh scIdx).2.bins tlh scIdx).currentSlab ≠ 0 := by
  rw [lz_tlh_alloc_attempt_eq, lz_tlh_reap_empty empty] at got ⊢
  by_cases listed : (s.bins tlh scIdx).currentSlab ≠ 0 ∧
      (s.slab (s.bins tlh scIdx).currentSlab).freeListHead ≠ 0
  · rw [if_pos listed]
    exact listed.1
  · rw [if_neg listed] at got ⊢
    simp only [tryCurrent, if_neg listed] at got ⊢
    by_cases active : (s.bins tlh scIdx).currentSlab ≠ 0 ∧
        (s.slab (s.bins tlh scIdx).currentSlab).bumpPtr ≠ 0
    · rw [if_pos active, bump_bins]
      exact active.1
    · rw [if_neg active] at got
      exact absurd rfl got

theorem retire_partial (s : State) (tlh scIdx : Nat) :
    ((retireCurrent s tlh scIdx).bins tlh scIdx).partialList =
      (s.bins tlh scIdx).partialList := by
  unfold retireCurrent
  simp only
  split
  · rfl
  · simp [setBin]

theorem slow_current (got : (lzTlhAllocSlow s tlh scIdx).1 ≠ 0) :
    ((lzTlhAllocSlow s tlh scIdx).2.bins tlh scIdx).currentSlab ≠ 0 := by
  unfold lzTlhAllocSlow at got ⊢
  by_cases available : (s.bins tlh scIdx).partialList ≠ 0
  · rw [if_pos available]
    have promoted : ((promotePartial (retireCurrent s tlh scIdx) tlh scIdx).bins tlh
        scIdx).currentSlab = (s.bins tlh scIdx).partialList := by
      rw [← retire_partial]
      simp [promotePartial, setBin]
    simp only [popFreeBlock, setSlab, promoted]
    exact available
  · rw [if_neg available] at got ⊢
    generalize lzSlabCreate s tlh scIdx = created at got ⊢
    by_cases failed : created.1 = 0
    · simp [failed] at got
    · simp only [if_neg failed, setSlab, setBin, Function.update_self]
      exact failed

/-- `lz_tlh_alloc` pays the size of the block it returns. -/
theorem pays_tlh_alloc (inv : Inv mode s g) (heap : tlh ∈ s.heaps) (idle : g.cursor tlh = 0)
    (empty : s.remoteFreeHead tlh = 0) (small : size ≤ lzMaxSlabObjSize) :
    SameOutside s (lzTlhAlloc s tlh size).2 ∧
      Pays tlh (if (lzTlhAlloc s tlh size).1 = 0 then 0 else lzClassToSize (lzSizeToClass size)) s
        (lzTlhAlloc s tlh size).2 := by
  unfold lzTlhAlloc
  rw [if_neg (Nat.not_lt.mpr small)]
  have classBound := slab_class_bound small
  have attempted := attempt_accounts empty (lzSizeToClass size)
  have current := @attempt_current s tlh (lzSizeToClass size) empty
  have outcome := inv_alloc_attempt inv idle (lzSizeToClass size)
  simp only
  generalize lzTlhAllocAttempt s tlh (lzSizeToClass size) = attempt at attempted current outcome ⊢
  have got : SameAccounts s (if attempt.1 = 0 then lzTlhAllocSlow attempt.2 tlh (lzSizeToClass size)
      else attempt).2 ∧
      (∃ last, Inv mode (if attempt.1 = 0 then lzTlhAllocSlow attempt.2 tlh (lzSizeToClass size)
        else attempt).2 last) ∧
      ((if attempt.1 = 0 then lzTlhAllocSlow attempt.2 tlh (lzSizeToClass size)
        else attempt).1 ≠ 0 → ((if attempt.1 = 0 then lzTlhAllocSlow attempt.2 tlh
          (lzSizeToClass size) else attempt).2.bins tlh (lzSizeToClass size)).currentSlab ≠ 0) := by
    rcases outcome with ⟨failed, between, betweenInv, _, _, exhausted⟩ | ⟨some, last, lastInv, _⟩
    · simp only [if_pos failed]
      have known : tlh ∈ attempt.2.heaps := by
        rw [attempted.outside.threads.heaps]
        exact heap
      obtain ⟨last, lastInv, _⟩ := inv_alloc_slow betweenInv known classBound exhausted
      exact ⟨same_accounts_trans attempted (alloc_slow_accounts _ _ _),
        ⟨last, lastInv⟩, slow_current⟩
    · simp only [if_neg some]
      exact ⟨attempted, ⟨last, lastInv⟩, current⟩
  generalize (if attempt.1 = 0 then lzTlhAllocSlow attempt.2 tlh (lzSizeToClass size)
    else attempt) = result at got ⊢
  obtain ⟨accounts, ⟨last, lastInv⟩, installed⟩ := got
  by_cases none : result.1 = 0
  · simp only [if_pos none, if_true]
    exact ⟨accounts.outside, pays_same accounts⟩
  · simp only [if_neg none]
    obtain ⟨chunk, position, isSlab, _⟩ := core_current_slab lastInv.toCore (installed none)
    have blockSize := (lastInv.slabs chunk tlh _ isSlab).blockSize
    have bound := (slab_block_size classBound).2
    rw [position, blockSize]
    constructor
    · exact same_outside_trans accounts.outside (account_alloc_outside _ _ _)
    · have counted := books_account_alloc result.2 tlh
        (by omega : lzClassToSize (lzSizeToClass size) ≤ 2097152)
      have both := pays_trans (pays_same accounts) ⟨0, counted⟩
      rwa [zero_add] at both

/-- `lz_span_free_local` pays the pages back that `lz_span_alloc` did not count. -/
theorem pays_span_free (core : Core mode s g) (present : g.node ptr ≠ .none)
    (isSpan : g.kind (chunkBase ptr) = .span tlh) :
    Pays tlh (-(objectLength s g ptr : Int)) s (lzSpanFreeLocal s tlh (chunkBase ptr) ptr) := by
  obtain ⟨page, position, listed, behind, bound, length⟩ := span_object core present isSpan
  have startPage : (ptr - chunkBase ptr) / lzPageSize % 2 ^ 32 = page := by
    simp only [lzPageSize]
    omega
  have inside : ¬(page = 0 ∨ page ≥ lzSpanTotalPages) := by
    simp only [lzSpanTotalPages]
    omega
  have bytes : (s.span (chunkBase ptr + 64)).allocSizePages page * lzPageSize % 2 ^ 32 =
      objectLength s g ptr := by
    rw [length, lzPageSize]
    apply Nat.mod_eq_of_lt
    omega
  unfold lzSpanFreeLocal
  simp only [startPage, if_neg inside, lzCacheLineSize, if_neg listed, bytes]
  generalize releasedEq :
    releasePages s (chunkBase ptr + 64) page
    ((s.span (chunkBase ptr + 64)).allocSizePages page) = released
  have accounts : SameAccounts s released := by
    rw [← releasedEq]
    exact rfl
  have counted :=
    books_account_free released tlh (by rw [length]; omega : objectLength s g ptr ≤ 2097152)
  have both := pays_trans (pays_same accounts) ⟨0, counted⟩
  rw [zero_add] at both
  generalize accountFree released tlh (objectLength s g ptr) = accounted at both ⊢
  split
  · have all := pays_trans both (pays_same (destroy_span_accounts accounted tlh (chunkBase ptr)))
    rwa [add_zero] at all
  · exact both

theorem pays_tlh_free (inv : Inv mode s g) (live : g.node ptr = .live)
    (owned : (g.kind (chunkBase ptr)).owner = some tlh) :
    SameOutside s (lzTlhFree s tlh ptr) ∧
      Pays tlh (-(originLength (g.record ptr) : Int)) s (lzTlhFree s tlh ptr) := by
  have core := inv.toCore
  have present : g.node ptr ≠ .none := by simp [live]
  have used : (g.node ptr).InUse := by
    rw [live]
    trivial
  have length : objectLength s g ptr = originLength (g.record ptr) := by
    rw [objectLength, inv.recorded ptr used]
  cases kind : g.kind (chunkBase ptr) with
  | slab heap classIdx =>
      obtain rfl : heap = tlh := by simpa [kind, BlockKind.owner] using owned
      rw [lz_tlh_free_slab_eq core present kind, ← length, objectLength, kind]
      exact ⟨free_slab_outside s heap _ ptr, _, books_free_slab inv heap kind used⟩
  | span heap =>
      obtain rfl : heap = tlh := by simpa [kind, BlockKind.owner] using owned
      rw [lz_tlh_free_span_eq core present kind, ← length]
      exact ⟨span_free_outside s heap _ ptr, pays_span_free core present kind⟩
  | unused => simp [kind, BlockKind.owner] at owned
  | idle place => simp [kind, BlockKind.owner] at owned
  | loose => simp [kind, BlockKind.owner] at owned
  | direct header => simp [kind, BlockKind.owner] at owned

/-! ## One thread -/

/-- What the slot and the pending counters of a thread report; a thread without
a heap has reported nothing. -/
def reportedBy (s : State) (thread : Nat) : BitVec 64 :=
  if s.tls thread = 0 then 0
  else
    (s.tlh (s.tls thread)).statSlot.elim 0 s.slots + pendingBytes (s.tlh (s.tls thread))

structure Solitary (thread : Nat) (s : State) : Prop where
  enabled : s.telemetry = true
  alone : ∀ tlh ∈ s.heaps, tlh = s.tls thread
  unused : s.tls thread = 0 → ∀ slot, s.slots slot = 0
  slotted : s.tls thread ≠ 0 → Slotted (s.tlh (s.tls thread))
  mapless : s.directs = []
  mailless : ∀ tlh, s.remoteFreeHead tlh = 0

theorem solitary_pays (solitary : Solitary thread s) (attached : s.tls thread ≠ 0)
    (outside : SameOutside s after) (pays : Pays (s.tls thread) paid s after) :
    Solitary thread after ∧ reportedBy after thread = reportedBy s thread + paid := by
  obtain ⟨held, books⟩ := pays
  have slotted := solitary.slotted attached
  obtain ⟨bounded, own⟩ := books.own slotted.bounded
  obtain ⟨slot, known, here⟩ := slotted.slot
  have tls := outside.threads.tls
  have still : (after.tlh (s.tls thread)).statSlot = some slot := by rw [books.slot, here]
  constructor
  · constructor
    · rw [outside.telemetry]
      exact solitary.enabled
    · rw [tls, outside.threads.heaps]
      exact solitary.alone
    · rw [tls]
      exact fun unattached => absurd unattached attached
    · rw [tls]
      exact fun _ => ⟨⟨slot, known, still⟩, bounded⟩
    · rw [outside.threads.directs]
      exact solitary.mapless
    · rw [outside.remote_free_head]
      exact solitary.mailless
  · have change := own slot here
    unfold reportedBy
    rw [tls, if_neg attached, if_neg attached, still, here, Option.elim_some, Option.elim_some]
    exact change

/-- The thread gets its heap with its first call, and no zombie is ever there. -/
theorem solitary_attach (rest : AtRest mode s g) (solitary : Solitary thread s)
    (done : ensureTlsInit s thread = some after) :
    Solitary thread after ∧ reportedBy after thread = reportedBy s thread := by
  rcases ensure_tls_init_cases done with
    ⟨_, rfl⟩ | ⟨unattached, nonempty, rfl⟩ | ⟨unattached, _, address, valid, rfl⟩
  · exact ⟨solitary, rfl⟩
  · obtain ⟨member, count, chain, outside⟩ := rest.threads.zombies
    obtain ⟨known, unowned⟩ := outside _ (enumerates_head chain nonempty)
    exact absurd (solitary.alone _ known).symm (unowned thread)
  · have nobody : ∀ tlh ∈ s.heaps, False := by
      intro tlh known
      have nonnull := rest.inv.objects.heaps.nonnull tlh known
      exact nonnull ((solitary.alone tlh known).trans unattached)
    have nonnull : address ≠ 0 := Nat.pos_iff_ne_zero.mp valid.1
    have own : (newHeap s thread address).tls thread = address := by simp [newHeap]
    have info : (newHeap s thread address).tlh address = startedInfo s {} := by simp [newHeap]
    have started := started_slotted solitary.enabled {}
    constructor
    · constructor
      · exact solitary.enabled
      · intro tlh known
        rw [own]
        cases List.mem_cons.mp known with
        | inl same => exact same
        | inr old => exact (nobody tlh old).elim
      · intro without
        exact absurd (own.symm.trans without) nonnull
      · intro _
        rw [own, info]
        exact started
      · exact solitary.mapless
      · intro tlh
        by_cases same : tlh = address
        · simp [newHeap, same]
        · simp only [newHeap, Function.update_of_ne same]
          exact solitary.mailless tlh
    · obtain ⟨slot, _, known⟩ := started.slot
      have empty : (newHeap s thread address).slots slot = 0 := solitary.unused unattached slot
      unfold reportedBy
      rw [own, info, known, if_neg nonnull, if_pos unattached, Option.elim_some, empty]
      rfl

theorem malloc_reports (rest : AtRest mode s g) (solitary : Solitary thread s) (positive : 1 ≤ size)
    (bound : size ≤ lzMaxSpanObjSize) (done : lzMalloc s thread size = some (ptr, after)) :
    Solitary thread after ∧
      reportedBy after thread = reportedBy s thread +
        if ptr = 0 ∨ lzMaxSlabObjSize < size then 0
        else (originLength (mallocOrigin size) : BitVec 64) := by
  unfold lzMalloc at done
  have nonzero : size ≠ 0 := by omega
  simp only [if_neg nonzero] at done
  by_cases small : size ≤ lzMaxSlabObjSize
  · rw [if_pos small] at done
    obtain ⟨ready, attached, result⟩ := Option.map_eq_some_iff.mp done
    obtain ⟨readyRest, heap, _⟩ := at_rest_attach rest attached
    obtain ⟨readySolitary, same⟩ := solitary_attach rest solitary attached
    have paid :=
      pays_tlh_alloc readyRest.inv heap (readyRest.cursor _) (readySolitary.mailless _) small
    rw [result] at paid
    have reported := solitary_pays readySolitary (attached_of_init attached rest) paid.1 paid.2
    rw [same] at reported
    refine ⟨reported.1, ?_⟩
    rw [reported.2, mallocOrigin, if_pos small, if_neg nonzero, originLength]
    by_cases null : ptr = 0
    · rw [if_pos null, if_pos (Or.inl null), Int.cast_zero]
    · rw [if_neg null, if_neg (not_or.mpr ⟨null, Nat.not_lt.mpr small⟩), Int.cast_natCast]
  · rw [if_neg small, if_pos bound] at done
    obtain ⟨ready, attached, result⟩ := Option.map_eq_some_iff.mp done
    obtain ⟨readySolitary, same⟩ := solitary_attach rest solitary attached
    have accounts := span_alloc_accounts ready (ready.tls thread) size
    rw [result] at accounts
    have reported := solitary_pays readySolitary (attached_of_init attached rest) accounts.outside
      (pays_same accounts)
    rw [same] at reported
    rw [if_pos (Or.inr (Nat.not_le.mp small))]
    rwa [Int.cast_zero] at reported

theorem free_reports (rest : AtRest mode s g) (solitary : Solitary thread s)
    (live : g.node ptr = .live) (done : lzFree s thread ptr = some after) :
    Solitary thread after ∧
      reportedBy after thread = reportedBy s thread -
        if resolve s ptr = 0 then 0 else (originLength (g.record ptr) : BitVec 64) := by
  have core := rest.inv.toCore
  by_cases found : resolve s ptr = 0
  · have nonnull := (core_node_bound core (by simp [live] : g.node ptr ≠ .none)).1
    simp only [lzFree, if_neg (Nat.pos_iff_ne_zero.mp nonnull), if_pos found] at done
    obtain rfl := Option.some.inj done
    rw [if_pos found, sub_zero]
    exact ⟨solitary, rfl⟩
  · rw [if_neg found]
    rcases free_cases core live found done with
      ⟨owner, ready, owned, attached, rfl⟩ | ⟨header, isDirect, _⟩
    · obtain ⟨readyRest, _, _⟩ := at_rest_attach rest attached
      obtain ⟨readySolitary, same⟩ := solitary_attach rest solitary attached
      -- There is only one heap, so the free is local.
      have mine := readySolitary.alone owner (readyRest.inv.objects.heaps.owner _ owner owned)
      rw [mine] at owned
      obtain ⟨outside, paid⟩ := pays_tlh_free readyRest.inv live owned
      have reported := solitary_pays readySolitary (attached_of_init attached rest) outside paid
      rw [same, Int.cast_neg, Int.cast_natCast, ← sub_eq_add_neg] at reported
      exact reported
    · have listed := direct_known core isDirect
      rw [solitary.mapless] at listed
      cases listed

/-! ## Live objects -/

/-- Block size of a slab object, pages times page size of a span object. -/
def objectBytes (s : State) (ptr : Nat) : Nat :=
  match (s.vmm.header (chunkBase ptr)).chunkType with
  | .slab => (s.slab (chunkBase ptr + lzCacheLineSize)).blockSize
  | .span =>
      (s.span (chunkBase ptr + lzCacheLineSize)).allocSizePages
        ((ptr - chunkBase ptr) / lzPageSize) * lzPageSize
  | .direct => 0

def liveObjects (live : Nat → Option Nat) : Finset Nat :=
  (Finset.range addressLimit).filter fun ptr => (live ptr).isSome

def liveBytes (sys : ApiSys) : Nat := ∑ ptr ∈ liveObjects sys.live, objectBytes sys.state ptr

theorem object_bytes_eq (rest : AtRest mode s g) (mapless : s.directs = [])
    (live : g.node ptr = .live) :
    objectBytes s ptr = originLength (g.record ptr) := by
  have core := rest.inv.toCore
  have holds := core.objects.scope ptr (by simp [live])
  rw [← core.recorded ptr (by simp [live, NodePlace.InUse])]
  unfold objectBytes
  cases kind : g.kind (chunkBase ptr) with
  | slab tlh classIdx =>
      simp only [(core.header.slab _ tlh classIdx kind).2.1, lzCacheLineSize,
        (core.slabs _ tlh classIdx kind).blockSize, objectOrigin, originLength]
  | span tlh =>
      simp only [(core.header.span _ tlh kind).2, lzCacheLineSize, lzPageSize, objectOrigin,
        originLength]
  | direct header =>
      have listed := direct_known core kind
      rw [mapless] at listed
      cases listed
  | unused => simp [kind, BlockKind.HoldsObjects] at holds
  | idle place => simp [kind, BlockKind.HoldsObjects] at holds
  | loose => simp [kind, BlockKind.HoldsObjects] at holds

theorem live_length_bounds (rest : AtRest mode s g) (mapless : s.directs = [])
    (live : g.node ptr = .live) :
    0 < originLength (g.record ptr) ∧ originLength (g.record ptr) ≤ 2097152 := by
  have core := rest.inv.toCore
  have present : g.node ptr ≠ .none := by simp [live]
  have used : (g.node ptr).InUse := by
    rw [live]
    trivial
  have holds := core.objects.scope ptr present
  have owned : ∃ tlh, (g.kind (chunkBase ptr)).owner = some tlh := by
    rcases holder_cases holds with owned | ⟨header, isDirect⟩
    · exact owned
    · have listed := direct_known core isDirect
      rw [mapless] at listed
      cases listed
  obtain ⟨tlh, owner⟩ := owned
  have cell := cell_le_length core present owner
  have inside := chunk_object_inside core present owner
  rw [objectLength, core.recorded ptr used] at cell inside
  omega

theorem live_bytes_eq (rest : AtRest mode sys.state g) (mapless : sys.state.directs = [])
    (live : ∀ ptr, (sys.live ptr).isSome → g.node ptr = .live) :
    liveBytes sys = ∑ ptr ∈ liveObjects sys.live, originLength (g.record ptr) := by
  apply Finset.sum_congr rfl
  intro ptr member
  exact object_bytes_eq rest mapless (live ptr (Finset.mem_filter.mp member).2)

theorem live_bytes_kept {table : Nat → Option Nat} {born : Nat → Origin} (ok : ApiOk mode sys g)
    (mapless : sys.state.directs = []) (rest : AtRest mode after last) (later : after.directs = [])
    (live : ∀ ptr, (table ptr).isSome → g.node ptr = .live ∧ last.node ptr = .live ∧
      last.record ptr = g.record ptr) :
    liveBytes ⟨after, table, born⟩ = liveBytes ⟨sys.state, table, born⟩ := by
  rw [@live_bytes_eq mode last ⟨after, table, born⟩ rest later fun ptr known =>
    (live ptr known).2.1,
    @live_bytes_eq mode g ⟨sys.state, table, born⟩ ok.rest mapless fun ptr known =>
    (live ptr known).1]
  apply Finset.sum_congr rfl
  intro ptr member
  rw [(live ptr (Finset.mem_filter.mp member).2).2.2]

theorem live_objects_insert {live : Nat → Option Nat} (bound : ptr < addressLimit) :
    liveObjects (Function.update live ptr (some size)) = insert ptr (liveObjects live) := by
  ext other
  simp only [liveObjects, Finset.mem_filter, Finset.mem_range, Finset.mem_insert]
  by_cases same : other = ptr
  · rw [same]
    exact iff_of_true ⟨bound, by simp⟩ (Or.inl rfl)
  · simp [same]

theorem live_objects_erase {live : Nat → Option Nat} :
    liveObjects (Function.update live ptr none) = (liveObjects live).erase ptr := by
  ext other
  simp only [liveObjects, Finset.mem_filter, Finset.mem_range, Finset.mem_erase]
  by_cases same : other = ptr
  · simp [same]
  · simp [same]

theorem live_bytes_malloc (ok : ApiOk mode sys g) (mapless : sys.state.directs = [])
    (later : after.directs = []) {origin : Origin} {direct : Prop} [Decidable direct]
    (served : Served mode g after ptr origin) :
    liveBytes (handOut sys after ptr size direct) =
      liveBytes sys + if ptr = 0 then 0 else originLength origin := by
  obtain ⟨last, rest, outcome⟩ := served
  rcases outcome with ⟨null, quiet⟩ | ⟨nonnull, allocated⟩
  · rw [handOut, if_pos null, if_pos null, add_zero]
    apply live_bytes_kept ok mapless rest later
    intro other known
    have live := (ok.live other).mp known
    exact ⟨live, (quiet.live other).mpr live, by rw [quiet.record]⟩
  · have here : last.node ptr = .live := (allocated.live ptr).mpr (Or.inl rfl)
    have bound := (core_node_bound rest.inv.toCore (by simp [here] : last.node ptr ≠ .none)).2
    have fresh : sys.live ptr = none := by
      by_contra known
      exact allocated.fresh.1 ((ok.live ptr).mp (Option.isSome_iff_ne_none.mpr known))
    have absent : ptr ∉ liveObjects sys.live := by
      intro member
      simp [liveObjects, fresh] at member
    have old : ∑ other ∈ liveObjects sys.live, objectBytes after other = liveBytes sys := by
      apply @live_bytes_kept mode after g last sys sys.live sys.born ok mapless rest later
      intro other known
      have live := (ok.live other).mp known
      have different : other ≠ ptr := by
        rintro rfl
        simp [fresh] at known
      exact ⟨live, (allocated.live other).mpr (Or.inr live), by
        rw [allocated.record, Function.update_of_ne different]⟩
    rw [handOut, if_neg nonnull, if_neg nonnull]
    unfold liveBytes at old ⊢
    rw [live_objects_insert (by simp only [addressLimit]; omega), Finset.sum_insert absent, old,
      object_bytes_eq rest later here, allocated.record, Function.update_self, add_comm]

theorem live_bytes_free (ok : ApiOk mode sys g) (mapless : sys.state.directs = [])
    (later : after.directs = []) (rest : AtRest mode after last) (live : g.node ptr = .live)
    (withdrawn : Withdrawn g last ptr) :
    liveBytes (takeBack sys after ptr) + originLength (g.record ptr) = liveBytes sys := by
  have bound := (core_node_bound ok.rest.inv.toCore (by simp [live] : g.node ptr ≠ .none)).2
  have member : ptr ∈ liveObjects sys.live := by
    rw [liveObjects, Finset.mem_filter, Finset.mem_range]
    exact ⟨by simp only [addressLimit]; omega, (ok.live ptr).mpr live⟩
  have kept : liveBytes (takeBack sys after ptr) =
      liveBytes ⟨sys.state, Function.update sys.live ptr none, sys.born⟩ := by
    apply live_bytes_kept ok mapless rest later
    intro other known
    have different : other ≠ ptr := by
      rintro rfl
      simp at known
    rw [Function.update_of_ne different] at known
    have before := (ok.live other).mp known
    exact ⟨before, (withdrawn.live other).mpr ⟨different, before⟩, by rw [withdrawn.record]⟩
  rw [kept]
  unfold liveBytes
  rw [live_objects_erase, ← object_bytes_eq ok.rest mapless live]
  exact Finset.sum_erase_add _ _ member

/-! ## Steps and runs -/

/-- A call of `lz_malloc` for a slab or span size or of `lz_free` by `thread`, or
a write of its client. -/
def Solo (thread : Nat) : ApiAct → Prop
  | .malloc caller size => caller = thread ∧ 1 ≤ size ∧ size ≤ lzMaxSpanObjSize
  | .free caller _ => caller = thread
  | .write _ _ _ => True
  | _ => False

instance (thread : Nat) : (act : ApiAct) → Decidable (Solo thread act)
  | .malloc _ _ => inferInstanceAs (Decidable (_ ∧ _))
  | .free caller _ => inferInstanceAs (Decidable (caller = thread))
  | .write _ _ _ => inferInstanceAs (Decidable True)
  | .calloc _ _ _ | .realloc _ _ _ | .memalign _ _ _ | .exit _ | .gc _ | .attach _ | .reap _ =>
      inferInstanceAs (Decidable False)

/-- No pages are handed out, and no free is ignored. -/
def Counts (sys : ApiSys) : ApiAct → Prop
  | .malloc thread size =>
      size ≤ lzMaxSlabObjSize ∨ (lzMalloc sys.state thread size).map Prod.fst = some 0
  | .free _ ptr => ptr = 0 ∨ resolve sys.state ptr ≠ 0
  | _ => True

instance (sys : ApiSys) : (act : ApiAct) → Decidable (Counts sys act)
  | .malloc _ _ | .free _ _ => inferInstanceAs (Decidable (_ ∨ _))
  | .calloc _ _ _ | .realloc _ _ _ | .memalign _ _ _ | .exit _ | .gc _ | .attach _ | .reap _
  | .write _ _ _ => inferInstanceAs (Decidable True)

def mismatch (thread : Nat) (sys : ApiSys) : BitVec 64 :=
  reportedBy sys.state thread - (liveBytes sys : BitVec 64)

theorem length_wrapped {length : Nat} (positive : 0 < length) (bound : length ≤ 2097152) :
    (length : BitVec 64) ≠ 0 := by
  intro wrapped
  have value := congrArg BitVec.toNat wrapped
  rw [BitVec.natCast_eq_ofNat, BitVec.toNat_ofNat, Nat.mod_eq_of_lt (by omega)] at value
  exact absurd value (Nat.pos_iff_ne_zero.mp positive)

theorem solo_malloc (ok : ApiOk mode sys g) (solitary : Solitary thread sys.state)
    (solo : Solo thread (.malloc thread size))
    (stepped : apiStep sys (.malloc thread size) = some reached) :
    Solitary thread reached.state ∧
      (mismatch thread reached = mismatch thread sys ↔ Counts sys (.malloc thread size)) := by
  obtain ⟨_, positive, bound⟩ := solo
  simp only [apiStep] at stepped
  split at stepped
  · next narrow =>
    obtain ⟨⟨ptr, after⟩, called, rfl⟩ := Option.map_eq_some_iff.mp stepped
    have served := served_malloc ok.rest (Or.inl bound) called
    obtain ⟨later, reported⟩ := malloc_reports ok.rest solitary positive bound called
    have bytes := @live_bytes_malloc mode after g sys ptr size ok solitary.mapless later.mapless
      (mallocOrigin size) (lzMaxSpanObjSize < size) _ served
    have length := malloc_length narrow
    unfold mismatch
    simp only [hand_out_state, bytes, reported, Counts, called, Option.map_some, Option.some.injEq]
    refine ⟨later, ?_⟩
    by_cases null : ptr = 0
    · rw [if_pos null, if_pos (Or.inl null)]
      exact iff_of_true (by rw [add_zero, add_zero]) (Or.inr null)
    · rw [if_neg null]
      by_cases small : size ≤ lzMaxSlabObjSize
      · rw [if_neg (not_or.mpr ⟨null, Nat.not_lt.mpr small⟩)]
        exact iff_of_true (by push_cast; ring) (Or.inl small)
      · rw [if_pos (Or.inr (Nat.not_le.mp small))]
        have pages : originLength (mallocOrigin size) ≤ 2097152 := by
          rw [mallocOrigin, if_neg small, if_pos bound]
          simp only [lzMaxSpanObjSize] at bound
          simp only [originLength, spanPages, lzPageSize, lz_align_up_page]
          omega
        refine iff_of_false (fun level => ?_) (not_or.mpr ⟨small, null⟩)
        apply length_wrapped (by omega) pages
        rw [Nat.cast_add, add_zero] at level
        linear_combination -level
  · cases stepped

theorem solo_free (ok : ApiOk mode sys g) (lost : mode.noLeaks → mode.leavesMapped)
    (solitary : Solitary thread sys.state)
    (stepped : apiStep sys (.free thread ptr) = some reached) :
    Solitary thread reached.state ∧
      (mismatch thread reached = mismatch thread sys ↔ Counts sys (.free thread ptr)) := by
  rcases api_free_cases stepped with ⟨null, rfl⟩ | ⟨null, known, after, called, rfl⟩
  · rw [take_back_null ok]
    exact ⟨solitary, iff_of_true rfl (Or.inl null)⟩
  · have live := (ok.live ptr).mp known
    obtain ⟨last, rest, withdrawn⟩ := withdrawn_free ok.rest live lost called
    obtain ⟨later, reported⟩ := free_reports ok.rest solitary live called
    have bytes := live_bytes_free ok solitary.mapless later.mapless rest live withdrawn
    refine ⟨later, ?_⟩
    obtain ⟨positive, short⟩ := live_length_bounds ok.rest solitary.mapless live
    have kept : (liveBytes sys : BitVec 64) =
        liveBytes (takeBack sys after ptr) + originLength (g.record ptr) := by
      exact_mod_cast congrArg (Nat.cast : Nat → BitVec 64) bytes.symm
    unfold mismatch
    rw [kept]
    simp only [takeBack]
    rw [reported]
    simp only [Counts, null, false_or]
    by_cases found : resolve sys.state ptr = 0
    · simp only [found, if_true, ne_eq, not_true_eq_false, iff_false]
      intro level
      apply length_wrapped positive short
      linear_combination level
    · simp only [found, if_false, ne_eq, not_false_eq_true, iff_true]
      ring

structure Alone (thread : Nat) (sys : ApiSys) : Prop where
  ok : ∃ g, ApiOk (apiMode False) sys g
  solitary : Solitary thread sys.state

theorem solo_fits {act : ApiAct} (solo : Solo thread act) : ApiFits sys act := by
  cases act with
  | malloc caller size => exact Or.inl solo.2.2
  | free caller ptr => trivial
  | write ptr offset value => trivial
  | calloc caller num size => exact solo.elim
  | realloc caller ptr size => exact solo.elim
  | memalign caller alignment size => exact solo.elim
  | exit caller => exact solo.elim
  | gc caller => exact solo.elim
  | attach caller => exact solo.elim
  | reap tlh => exact solo.elim

theorem alone_step (alone : Alone thread sys) {act : ApiAct} (solo : Solo thread act)
    (stepped : apiStep sys act = some reached) :
    Alone thread reached ∧ (mismatch thread reached = mismatch thread sys ↔ Counts sys act) := by
  obtain ⟨⟨g, ok⟩, solitary⟩ := alone
  have later := api_step_ok ok id (solo_fits solo) stepped
  cases act with
  | malloc caller size =>
      obtain rfl := solo.1
      obtain ⟨still, exactly⟩ := solo_malloc ok solitary solo stepped
      exact ⟨⟨later, still⟩, exactly⟩
  | free caller ptr =>
      obtain rfl : caller = thread := solo
      obtain ⟨still, exactly⟩ := solo_free ok id solitary stepped
      exact ⟨⟨later, still⟩, exactly⟩
  | write ptr offset value =>
      simp only [apiStep] at stepped
      split at stepped
      · obtain rfl := Option.some.inj stepped
        exact ⟨⟨later, { solitary with }⟩, iff_of_true rfl trivial⟩
      · cases stepped
  | calloc caller num size => exact solo.elim
  | realloc caller ptr size => exact solo.elim
  | memalign caller alignment size => exact solo.elim
  | exit caller => exact solo.elim
  | gc caller => exact solo.elim
  | attach caller => exact solo.elim
  | reap tlh => exact solo.elim

/-! ## The balance -/

/-- The thread reports what its live objects have, and its counters are so small
that no addition of a block can wrap. -/
structure Exact (thread : Nat) (sys : ApiSys) : Prop where
  balance : reportedBy sys.state thread = BitVec.ofNat 64 (liveBytes sys)
  unwrapped : sys.state.tls thread ≠ 0 → ∀ bytes ≤ lzMaxSpanObjSize,
    (sys.state.tlh (sys.state.tls thread)).localBytesAllocBatch + bytes < 2 ^ 32 ∧
      (sys.state.tlh (sys.state.tls thread)).localBytesFreeBatch + bytes < 2 ^ 32

theorem exact_iff (alone : Alone thread sys) : Exact thread sys ↔ mismatch thread sys = 0 := by
  constructor
  · intro exactly
    rw [mismatch, exactly.balance, BitVec.natCast_eq_ofNat, sub_self]
  · intro level
    constructor
    · exact sub_eq_zero.mp level
    · intro attached bytes bound
      obtain ⟨alloc, free⟩ := (alone.solitary.slotted attached).bounded
      simp only [lzMaxSpanObjSize] at bound
      omega

theorem exact_step (act : ApiAct) (alone : Alone thread sys) (exactly : Exact thread sys)
    (solo : Solo thread act) (stepped : apiStep sys act = some reached) :
    Alone thread reached ∧ (Exact thread reached ↔ Counts sys act) := by
  obtain ⟨later, same⟩ := alone_step alone solo stepped
  rw [exact_iff later, ← same, (exact_iff alone).mp exactly]
  exact ⟨later, Iff.rfl⟩

theorem alone_start (thread : Nat) (env : Env) (secret : BitVec 64) :
    Alone thread (apiStart env secret true) := by
  constructor
  · exact ⟨emptyGhost, api_start_ok env secret true False.elim⟩
  · constructor
    · rfl
    · simp [apiStart, initial]
    · exact fun _ _ => rfl
    · exact fun attached => absurd rfl attached
    · rfl
    · exact fun _ => rfl

theorem exact_start (thread : Nat) (env : Env) (secret : BitVec 64) :
    Exact thread (apiStart env secret true) := by
  apply (exact_iff (alone_start thread env secret)).mpr
  simp [mismatch, reportedBy, liveBytes, liveObjects, apiStart, initial]

/-- The telemetry of a single thread is exact in every state of a run exactly
when the run hands out no pages and no free is ignored. -/
theorem single_thread_exact_iff {thread : Nat} {env : Env} {secret : BitVec 64}
    {acts : List ApiAct} {final : ApiSys} (solo : ∀ act ∈ acts, Solo thread act)
    (ran : run apiStep (apiStart env secret true) acts = some final) :
    (∀ before sys, before <+: acts → run apiStep (apiStart env secret true) before = some sys →
        Exact thread sys) ↔
      Along apiStep Counts (apiStart env secret true) acts :=
  good_along_iff (fun _ act _ => exact_step act) (alone_start thread env secret)
    (exact_start thread env secret) solo ran

def slabRun : List ApiAct := [.malloc 1 24, .malloc 1 24, .free 1 4359979136]

theorem exact_after_slab_calls :
    ∃ sys, run apiStep (apiStart generousEnv 7 true) slabRun = some sys ∧
      (sys.live 4359979168).isSome ∧ Exact 1 sys := by
  have facts : (run apiStep (apiStart generousEnv 7 true) slabRun).map
      (fun sys => (sys.live 4359979168).isSome) = some true := by decide +kernel
  obtain ⟨sys, ran, live⟩ := Option.map_eq_some_iff.mp facts
  have along : Along apiStep Counts (apiStart generousEnv 7 true) slabRun := by decide +kernel
  have always := (single_thread_exact_iff (by decide : ∀ act ∈ slabRun, Solo 1 act) ran).mpr along
  exact ⟨sys, ran, live, always slabRun sys (List.prefix_refl _) ran⟩

def SlabCall (thread : Nat) : ApiAct → Prop
  | .malloc caller size => caller = thread ∧ 1 ≤ size ∧ size ≤ lzMaxSlabObjSize
  | act => Solo thread act

instance (thread : Nat) : (act : ApiAct) → Decidable (SlabCall thread act)
  | .malloc _ _ => inferInstanceAs (Decidable (_ ∧ _))
  | .free caller _ => inferInstanceAs (Decidable (caller = thread))
  | .write _ _ _ => inferInstanceAs (Decidable True)
  | .calloc _ _ _ | .realloc _ _ _ | .memalign _ _ _ | .exit _ | .gc _ | .attach _ | .reap _ =>
      inferInstanceAs (Decidable False)

theorem slab_call_solo {act : ApiAct} (call : SlabCall thread act) : Solo thread act := by
  cases act with
  | malloc caller size =>
      obtain ⟨same, positive, small⟩ := call
      exact ⟨same, positive, small.trans (by decide)⟩
  | _ => exact call

theorem slab_call_counts {act : ApiAct} (alone : Alone thread sys) (call : SlabCall thread act)
    (granted : LeavesGranted sys.state) (stepped : apiStep sys act = some reached) :
    Counts sys act := by
  cases act with
  | malloc caller size => exact Or.inl call.2.2
  | free caller ptr =>
      obtain ⟨g, ok⟩ := alone.ok
      simp only [apiStep] at stepped
      split at stepped
      · next allowed =>
          refine allowed.imp_right fun known => ?_
          exact resolve_granted ok.rest granted (by simp [(ok.live ptr).mp known])
      · cases stepped
  | _ => trivial

def Countable (thread : Nat) (sys : ApiSys) (act : ApiAct) : Prop :=
  SlabCall thread act ∧ LeavesGranted sys.state

instance (thread : Nat) (sys : ApiSys) (act : ApiAct) : Decidable (Countable thread sys act) :=
  inferInstanceAs (Decidable (_ ∧ _))

/-- A thread that only asks for blocks of slabs has an exact balance after every
call. -/
theorem slab_calls_exact {thread : Nat} {env : Env} {secret : BitVec 64} {acts : List ApiAct}
    {sys : ApiSys} (calls : Along apiStep (Countable thread) (apiStart env secret true) acts)
    (ran : run apiStep (apiStart env secret true) acts = some sys) : Exact thread sys := by
  have preserved : ∀ state act reached, (Alone thread state ∧ Exact thread state) →
      Countable thread state act → apiStep state act = some reached →
        Alone thread reached ∧ Exact thread reached := by
    rintro state act reached ⟨alone, exactly⟩ ⟨call, granted⟩ stepped
    obtain ⟨later, counts⟩ := exact_step act alone exactly (slab_call_solo call) stepped
    exact ⟨later, counts.mpr (slab_call_counts alone call granted stepped)⟩
  have started := And.intro (alone_start thread env secret) (exact_start thread env secret)
  exact (run_invariant preserved started calls ran).2

theorem reused_block_exact :
    ∃ sys, run apiStep (apiStart generousEnv 7 true) (slabRun ++ [.malloc 1 1000, .malloc 1 24]) =
        some sys ∧ sys.live 4359979136 = some 24 ∧ Exact 1 sys := by
  have facts : (run apiStep (apiStart generousEnv 7 true)
      (slabRun ++ [.malloc 1 1000, .malloc 1 24])).map (fun sys => sys.live 4359979136) =
        some (some 24) := by decide +kernel
  obtain ⟨sys, ran, live⟩ := Option.map_eq_some_iff.mp facts
  have calls : Along apiStep (Countable 1) (apiStart generousEnv 7 true)
      (slabRun ++ [.malloc 1 1000, .malloc 1 24]) := by decide +kernel
  exact ⟨sys, ran, live, slab_calls_exact calls ran⟩

/-- The ten pages of the first object are not counted when they are handed out. -/
theorem pages_handed_out_uncounted :
    ∃ sys, run apiStep (apiStart generousEnv 7 true) [.malloc 1 40000] = some sys ∧
      sys.live 4359983104 = some 40000 ∧ objectBytes sys.state 4359983104 = 40960 ∧
      reportedBy sys.state 1 = 0 ∧ ¬Exact 1 sys := by
  have facts : (run apiStep (apiStart generousEnv 7 true) [.malloc 1 40000]).map (fun sys =>
      (sys.live 4359983104, objectBytes sys.state 4359983104, reportedBy sys.state 1)) =
        some (some 40000, 40960, 0) := by decide +kernel
  obtain ⟨sys, ran, here⟩ := Option.map_eq_some_iff.mp facts
  simp only [Prod.mk.injEq] at here
  obtain ⟨live, pages, reported⟩ := here
  refine ⟨sys, ran, live, pages, reported, ?_⟩
  have stepped : apiStep (apiStart generousEnv 7 true) (.malloc 1 40000) = some sys := by
    simpa using ran
  have solo : Solo 1 (.malloc 1 40000) := by decide
  have counts := (exact_step _ (alone_start 1 generousEnv 7) (exact_start 1 generousEnv 7) solo
    stepped).2
  rw [counts]
  decide +kernel

end Lzmalloc.SingleThreadTelemetry
