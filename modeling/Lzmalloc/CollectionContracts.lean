import Lzmalloc.Collection
import Lzmalloc.SlabContracts

/-!
# What is left after a collection

When every other thread has exited, one call of `lzmalloc_gc` brings back every
freed object and empties every pool, unless the caller itself has objects in
its outgoing batch, which the collection does not flush. An object whose free
was ignored because the radix tree does not know its chunk never comes back.
-/

namespace Lzmalloc.CollectionContracts

open SizeClasses HeapState VirtualMemoryManager PointerChain Engines ThreadHeap PublicApi StepSystem
open HeapInvariant InvariantFacts ClientView SlabBlocks SpanPages SpanLifecycle HeapOperations
open ConcreteView ThreadLifecycle ApiOperations ApiRuns Collection
open SlabContracts (generousEnv)

set_option autoImplicit false

def ChunkObject (s : State) (ptr : Nat) : Prop := SlabObject s ptr ∨ SpanObject s ptr

/-- Freed, but neither back nor on its way. -/
def Lost (sys : ApiSys) (ptr : Nat) : Prop :=
  ChunkObject sys.state ptr ∧ sys.live ptr = none ∧ ¬Travelling sys.state ptr ∧
    ¬(SlabObject sys.state ptr ∧ OnFreeList sys.state ptr)

def PagesFree (s after : State) (ptr : Nat) : Prop :=
  let first := (ptr - chunkBase ptr) / lzPageSize
  let span := chunkBase ptr + lzCacheLineSize
  (after.span span).allocSizePages first = 0 ∧
    ∀ page, first ≤ page → page < first + (s.span span).allocSizePages first →
      pageFree (after.span span).freeBitmap page = true

/-- The chunk has been released, or the object is on its slab's free list, or
its pages are free. -/
def Returned (s after : State) (ptr : Nat) : Prop :=
  InManager after.vmm (chunkBase ptr) ∨ (SlabObject after ptr ∧ OnFreeList after ptr) ∨
    ((∃ tlh, OwnsSpan after tlh (chunkBase ptr)) ∧ PagesFree s after ptr)

structure GcComplete (sys : ApiSys) (after : State) : Prop where
  drained : ∀ tlh ptr, ¬InBatch after tlh ptr ∧ ¬InMailbox after tlh ptr
  returned : ∀ ptr, ChunkObject sys.state ptr → sys.live ptr = none → Returned sys.state after ptr
  pools : ∀ node < lzMaxNumaNodes, after.vmm.pools node = ⟨0, 0⟩
  listed : ∃ chunks, Segment after.vmm.next after.vmm.globalFreeChunks chunks 0 ∧ chunks.Nodup ∧
    (∀ chunk, InManager sys.state.vmm chunk → chunk ∈ chunks) ∧
    -- The current slab of a bin is kept even when it is empty.
    ∀ ptr, ChunkObject sys.state ptr →
      (∀ other, chunkBase other = chunkBase ptr → sys.live other = none) →
        chunkBase ptr ∈ chunks ∨
          ∃ tlh classIdx, (after.bins tlh classIdx).currentSlab = chunkBase ptr + lzCacheLineSize

variable {mode : Mode} {sys : ApiSys} {s after : State} {g last : Ghost}
  {thread ptr chunk tlh : Nat}

/-! ## Reading the ghost -/

theorem chunk_object_iff (core : Core mode s g) (settled : ∀ chunk, g.kind chunk ≠ .loose) :
    ChunkObject s ptr ↔ (∃ owner, (g.kind (chunkBase ptr)).owner = some owner) ∧
      g.node ptr ≠ .none := by
  rw [ChunkObject, slab_object_iff core settled, span_object_iff core settled, ← or_and_right]
  refine and_congr_left fun _ => ?_
  cases kind : g.kind (chunkBase ptr) <;> simp [BlockKind.owner]

theorem lost_iff (ok : ApiOk mode sys g) :
    Lost sys ptr ↔ (∃ owner, (g.kind (chunkBase ptr)).owner = some owner) ∧
      g.node ptr = .leaked := by
  have core := ok.rest.inv.toCore
  have live : sys.live ptr = none ↔ g.node ptr ≠ .live := by
    rw [← not_iff_not, not_not, ← ok.live ptr, Option.isSome_iff_ne_none]
  rw [Lost, chunk_object_iff core ok.rest.settled, live, travelling_iff core ok.rest.cursor,
    and_assoc]
  refine and_congr_right ?_
  rintro ⟨owner, owned⟩
  constructor
  · rintro ⟨present, notLive, grounded, taken⟩
    cases place : g.node ptr with
    | leaked => rfl
    | none => exact absurd place present
    | live => exact absurd place notLive
    | batch heap => simp [place, NodePlace.InFlight] at grounded
    | mail heap => simp [place, NodePlace.InFlight] at grounded
    | reaping heap => simp [place, NodePlace.InFlight] at grounded
    | free =>
        cases kind : g.kind (chunkBase ptr) with
        | slab heap classIdx =>
            refine absurd ⟨?_, (on_free_list_iff core kind).mpr place⟩ taken
            exact (slab_object_iff core ok.rest.settled).mpr ⟨⟨heap, classIdx, kind⟩, present⟩
        | span heap => exact absurd place ((core.spans _ heap kind).notFree ptr rfl)
        | unused => simp [kind, BlockKind.owner] at owned
        | idle place => simp [kind, BlockKind.owner] at owned
        | loose => simp [kind, BlockKind.owner] at owned
        | direct header => simp [kind, BlockKind.owner] at owned
  · intro leaked
    refine ⟨by simp [leaked], by simp [leaked], by simp [leaked, NodePlace.InFlight], ?_⟩
    rintro ⟨slabObject, listed⟩
    obtain ⟨⟨heap, classIdx, isSlab⟩, _⟩ := (slab_object_iff core ok.rest.settled).mp slabObject
    simp [(on_free_list_iff core isSlab).mp listed] at leaked

theorem nothing_lost {env : Env} {secret : BitVec 64} {telemetry : Bool} {acts : List ApiAct}
    (leaves : ∀ call, env.leafMmap call = true)
    (fits : Along apiStep ApiFits (apiStart env secret telemetry) acts)
    (ran : run apiStep (apiStart env secret telemetry) acts = some sys) (ptr : Nat) :
    ¬Lost sys ptr := by
  have reached : ∃ g, ApiOk (apiMode True) sys g := api_run_ok (fun _ => leaves) fits ran
  obtain ⟨g, ok⟩ := reached
  rw [lost_iff ok]
  exact fun lost => ok.rest.inv.objects.noLeaks trivial ptr lost.2

/-! ## Objects that go back -/

/-- Objects have only gone back: what is in use was in use before as the same
kind of object, and chunks keep their roles or return to the manager. -/
structure Settling (mode : Mode) (s : State) (g : Ghost) (after : State) (last : Ghost) : Prop where
  before : Inv mode s g
  inv : Inv mode after last
  swept : Swept s.slab g after.slab last
  record : last.record = g.record
  used : ∀ ptr, (last.node ptr).InUse → (g.node ptr).InUse

theorem settling_trans {middle : State} {between : Ghost}
    (first : Settling mode s g middle between) (second : Settling mode middle between after last) :
    Settling mode s g after last :=
  ⟨first.before, second.inv, swept_trans first.swept second.swept,
    second.record.trans first.record, fun ptr used => first.used ptr (second.used ptr used)⟩

namespace Settling

variable (back : Settling mode s g after last)

include back

/-- A page that an entry of the table covers afterwards was covered by the same
entry before. -/
theorem span_entry_kept (isSpan : last.kind chunk = .span tlh) {page : Nat}
    (listed : (after.span (chunk + 64)).allocSizePages page ≠ 0) :
    (s.span (chunk + 64)).allocSizePages page = (after.span (chunk + 64)).allocSizePages page := by
  obtain ⟨aligned, _, _⟩ := back.inv.geom.placed chunk (by simp [isSpan])
  have later := back.inv.spans chunk tlh isSpan
  have bound := later.table page listed
  have base : chunkBase (chunk + page * 4096) = chunk := span_object_base aligned (by omega)
  have present := (later.nodes _ base).mpr ⟨page, rfl, listed⟩
  have used : (last.node (chunk + page * 4096)).InUse := by
    have notFree := later.notFree _ base
    cases place : last.node (chunk + page * 4096) <;> simp_all [NodePlace.InUse]
  have usedBefore := back.used _ used
  have before : g.kind chunk = .span tlh :=
    (swept_kind back.swept (by simp [isSpan])).symm.trans isSpan
  have index : (chunk + page * 4096 - chunk) / 4096 = page := by omega
  have recordLater := back.inv.recorded _ used
  have recordBefore := back.before.recorded _ usedBefore
  rw [base, isSpan, objectOrigin, base, index, back.record, ← recordBefore, base, before,
    objectOrigin, base, index] at recordLater
  exact (Origin.span.inj recordLater).symm

theorem pages_free (isSpan : last.kind (chunkBase ptr) = .span tlh) (present : g.node ptr ≠ .none)
    (gone : last.node ptr = .none) : PagesFree s after ptr := by
  have beforeSpan : g.kind (chunkBase ptr) = .span tlh :=
    (swept_kind back.swept (by simp [isSpan])).symm.trans isSpan
  obtain ⟨first, position, behind, bound, index, listed⟩ :=
    span_object_page back.before.toCore beforeSpan present
  have later := back.inv.spans _ tlh isSpan
  have earlier := back.before.spans _ tlh beforeSpan
  have cleared : (after.span (chunkBase ptr + 64)).allocSizePages first = 0 := by
    by_contra entry
    exact (later.nodes ptr rfl).mpr ⟨first, position, entry⟩ gone
  simp only [PagesFree, lzPageSize, lzCacheLineSize, index]
  refine ⟨cleared, fun page lower upper => ?_⟩
  have limit := (earlier.table first listed).2
  by_contra used
  have covered := (later.bits page (by omega)).mp (by simpa using used)
  obtain ⟨start, startLower, startUpper⟩ := covered.resolve_left (by omega)
  have entry : (after.span (chunkBase ptr + 64)).allocSizePages start ≠ 0 := by omega
  have same := back.span_entry_kept isSpan entry
  have different : start ≠ first := by
    rintro rfl
    exact entry cleared
  have startListed : (s.span (chunkBase ptr + 64)).allocSizePages start ≠ 0 := by omega
  rcases Nat.lt_or_gt_of_ne different with less | greater
  · have apart := earlier.apart start first less startListed listed
    omega
  · have apart := earlier.apart first start greater listed startListed
    omega

/-- An object that is neither in use nor on its way, wherever its chunk is now. -/
theorem returned (settled : ∀ chunk, last.kind chunk ≠ .loose)
    (owned : ∃ owner, (g.kind (chunkBase ptr)).owner = some owner) (present : g.node ptr ≠ .none)
    (place : (∃ owner, (last.kind (chunkBase ptr)).owner = some owner) →
      last.node ptr = .none ∨ last.node ptr = .free) : Returned s after ptr := by
  rcases back.swept.kinds (chunkBase ptr) with same | idle
  · rw [← same] at owned
    obtain ⟨owner, owned⟩ := owned
    replace place := place ⟨owner, owned⟩
    cases kind : last.kind (chunkBase ptr) with
    | slab heap classIdx =>
        have stays := back.swept.present ptr heap classIdx kind present
        refine Or.inr (Or.inl ⟨?_, ?_⟩)
        · exact (slab_object_iff back.inv.toCore settled).mpr ⟨⟨heap, classIdx, kind⟩, stays⟩
        · exact (on_free_list_iff back.inv.toCore kind).mpr (place.resolve_left stays)
    | span heap =>
        refine Or.inr (Or.inr ⟨⟨heap, (owns_span_iff back.inv.toCore settled).mpr kind⟩, ?_⟩)
        have gone := place.resolve_right ((back.inv.spans _ heap kind).notFree ptr rfl)
        exact back.pages_free kind present gone
    | unused => simp [kind, BlockKind.owner] at owned
    | idle cache => simp [kind, BlockKind.owner] at owned
    | loose => simp [kind, BlockKind.owner] at owned
    | direct header => simp [kind, BlockKind.owner] at owned
  · exact Or.inl ((in_manager_iff back.inv.toCore).mpr idle)

end Settling

/-- The state before a collection by `thread`, all other threads gone, and the
state after it. -/
structure Collected (mode : Mode) (sys : ApiSys) (thread : Nat) (g last : Ghost) : Prop where
  ok : ApiOk mode sys g
  covered : Covered sys.state
  alone : ∀ other, other ≠ thread → sys.state.tls other = 0
  inv : Inv mode (lzmallocGc sys.state thread) last
  quiet : Quiet g last
  swept : Swept sys.state.slab g (lzmallocGc sys.state thread).slab last

theorem collected (ok : ApiOk mode sys g) (covered : Covered sys.state)
    (alone : ∀ other, other ≠ thread → sys.state.tls other = 0) :
    ∃ last, Collected mode sys thread g last := by
  obtain ⟨_, last, inv, quiet, swept⟩ := sweeping_gc ok.rest.inv ok.rest.cursor thread
  exact ⟨last, ok, covered, alone, inv, quiet, swept⟩

namespace Collected

variable (done : Collected mode sys thread g last)

include done

theorem settled (chunk : Nat) : last.kind chunk ≠ .loose :=
  fun loose => done.ok.rest.settled chunk (done.swept.loose chunk loose)

theorem idle (tlh : Nat) : last.cursor tlh = 0 := by
  rw [done.swept.cursor]
  exact done.ok.rest.cursor tlh

theorem dead (freed : sys.live ptr = none) : last.node ptr ≠ .live := by
  intro live
  have known := (done.ok.live ptr).mpr ((done.quiet.live ptr).mp live)
  simp [freed] at known

/-- With the caller's batch empty every batch is, and every mailbox has been reaped. -/
theorem grounded (empty : (sys.state.outgoingBatch (sys.state.tls thread)).count = 0) (ptr : Nat) :
    ¬(last.node ptr).InFlight := by
  have holder : ∀ tlh ∈ sys.state.heaps,
      tlh ≠ 0 ∧ sys.state.tls thread = tlh ∨ OnZombieList sys.state tlh := by
    intro tlh member
    have nonnull := done.ok.rest.inv.objects.heaps.nonnull tlh member
    rcases done.covered.held tlh member with ⟨owner, owns⟩ | zombie
    · by_cases same : owner = thread
      · exact Or.inl ⟨nonnull, same ▸ owns⟩
      · exact absurd (owns.symm.trans (done.alone owner same)) nonnull
    · exact Or.inr zombie
  have heaps := (gc_batches sys.state thread).threads.heaps
  have batches := (gc_batches sys.state thread).outgoing_batch
  intro flies
  cases place : last.node ptr with
  | batch tlh =>
      have member := done.inv.objects.heaps.batch ptr tlh place
      rw [heaps] at member
      have count : (sys.state.outgoingBatch tlh).count = 0 := by
        rcases holder tlh member with ⟨_, rfl⟩ | zombie
        · exact empty
        · exact done.covered.flushed tlh zombie
      rw [← batches] at count
      exact (done.inv.mail.batchEmpty tlh count).2 ptr place
  | mail tlh =>
      have member := done.inv.objects.heaps.owner _ tlh (done.inv.objects.owners.mail ptr tlh place)
      rw [heaps] at member
      obtain ⟨count, chain⟩ := done.inv.mail.mail tlh
      rw [gc_mailboxes done.ok.rest.threads done.covered (holder tlh member)] at chain
      exact (enumerates_null chain).2 ptr place
  | reaping tlh =>
      obtain ⟨count, chain⟩ := done.inv.mail.reaping tlh
      rw [done.idle tlh] at chain
      exact (enumerates_null chain).2 ptr place
  | none => simp [place, NodePlace.InFlight] at flies
  | live => simp [place, NodePlace.InFlight] at flies
  | leaked => simp [place, NodePlace.InFlight] at flies
  | free => simp [place, NodePlace.InFlight] at flies

theorem pooled_global (chunk : Nat) {place : CachePlace} (cached : last.kind chunk = .idle place) :
    place = .global := by
  cases place with
  | global => rfl
  | pool node =>
      have there : (last.kind chunk).cached = some (.pool node) := by
        simp [cached, BlockKind.cached]
      have bound := (done.inv.vmm.caches.poolHeader chunk node there).1
      have chain := done.inv.vmm.caches.pool node bound
      rw [gc_pools sys.state thread bound] at chain
      exact absurd there ((enumerates_null chain).2 chunk)

theorem settled_place (grounded : ∀ ptr, ¬(last.node ptr).InFlight) (kept : ∀ ptr, ¬Lost sys ptr)
    (owned : ∃ owner, (last.kind (chunkBase ptr)).owner = some owner)
    (freed : sys.live ptr = none) : last.node ptr = .none ∨ last.node ptr = .free := by
  have flying := grounded ptr
  cases place : last.node ptr with
  | none => exact Or.inl rfl
  | free => exact Or.inr rfl
  | live => exact absurd place (done.dead freed)
  | leaked =>
      obtain ⟨owner, owner_eq⟩ := owned
      have notIdle : ∀ cache, last.kind (chunkBase ptr) ≠ .idle cache := by
        intro cache idle
        simp [idle, BlockKind.owner] at owner_eq
      rw [swept_kind done.swept notIdle] at owner_eq
      exact absurd ((lost_iff done.ok).mpr ⟨⟨owner, owner_eq⟩, (done.quiet.leaked ptr).mp place⟩)
        (kept ptr)
  | batch heap => simp [place, NodePlace.InFlight] at flying
  | mail heap => simp [place, NodePlace.InFlight] at flying
  | reaping heap => simp [place, NodePlace.InFlight] at flying

theorem settling : Settling mode sys.state g (lzmallocGc sys.state thread) last :=
  ⟨done.ok.rest.inv, done.inv, done.swept, done.quiet.record, fun _ => quiet_used done.quiet⟩

theorem returned (grounded : ∀ ptr, ¬(last.node ptr).InFlight) (kept : ∀ ptr, ¬Lost sys ptr)
    (object : ChunkObject sys.state ptr) (freed : sys.live ptr = none) :
    Returned sys.state (lzmallocGc sys.state thread) ptr := by
  obtain ⟨owned, present⟩ :=
    (chunk_object_iff done.ok.rest.inv.toCore done.ok.rest.settled).mp object
  apply done.settling.returned done.settled owned present
  intro still
  exact done.settled_place grounded kept still freed

theorem emptied (grounded : ∀ ptr, ¬(last.node ptr).InFlight) (kept : ∀ ptr, ¬Lost sys ptr)
    (object : ChunkObject sys.state ptr)
    (freed : ∀ other, chunkBase other = chunkBase ptr → sys.live other = none) :
    (∃ place, last.kind (chunkBase ptr) = .idle place) ∨
      ∃ tlh classIdx, ((lzmallocGc sys.state thread).bins tlh classIdx).currentSlab =
        chunkBase ptr + lzCacheLineSize := by
  obtain ⟨⟨owner, owned⟩, present⟩ :=
    (chunk_object_iff done.ok.rest.inv.toCore done.ok.rest.settled).mp object
  rcases done.swept.kinds (chunkBase ptr) with same | idle
  · rw [← same] at owned
    have places : ∀ other, chunkBase other = chunkBase ptr →
        last.node other = .none ∨ last.node other = .free := by
      intro other inside
      apply done.settled_place grounded kept _ (freed other inside)
      rw [inside]
      exact ⟨owner, owned⟩
    right
    cases kind : last.kind (chunkBase ptr) with
    | slab heap classIdx =>
        have slabOk := done.inv.slabs _ heap classIdx kind
        obtain ⟨aligned, _, _⟩ := done.inv.geom.placed (chunkBase ptr) (by simp [kind])
        have empty : ((lzmallocGc sys.state thread).slab (chunkBase ptr + 64)).usedObjects = 0 := by
          rw [slab_used_count slabOk aligned, Set.ncard_eq_zero (Set.finite_Iio _ |>.subset
            fun index member => member.1)]
          ext index
          simp only [Set.mem_ofPred_eq, Set.mem_empty_iff_false, iff_false]
          rintro ⟨below, taken⟩
          have base := slab_block_base slabOk aligned below
          have there := (slabOk.blocks _ base).mpr ⟨index, below, rfl⟩
          exact (places _ base).elim there taken
        have filled := done.inv.filled (chunkBase ptr) heap classIdx kind
        have capacity := (slab_capacity slabOk.classBound).1
        have size := slabOk.maxObjects
        have current : last.bin (chunkBase ptr) = .inCurrent := by
          cases bin : last.bin (chunkBase ptr) with
          | inCurrent => rfl
          | inPartial =>
              have counts := filled.2 bin
              omega
          | inFull =>
              have counts := filled.1 bin
              omega
        refine ⟨heap, classIdx, ?_⟩
        have member := ((done.inv.current heap classIdx).current (chunkBase ptr + 64)).mp
          ⟨chunkBase ptr, rfl, kind, current⟩
        exact member.2.symm
    | span heap =>
        obtain ⟨other, inside, there⟩ := done.swept.tenants (chunkBase ptr) heap kind
          ⟨ptr, rfl, present⟩
        have notFree := (done.inv.spans _ heap kind).notFree other inside
        exact absurd ((places other inside).resolve_right notFree) there
    | unused => simp [kind, BlockKind.owner] at owned
    | idle cache => simp [kind, BlockKind.owner] at owned
    | loose => simp [kind, BlockKind.owner] at owned
    | direct header => simp [kind, BlockKind.owner] at owned
  · exact Or.inl idle

theorem complete (empty : (sys.state.outgoingBatch (sys.state.tls thread)).count = 0)
    (kept : ∀ ptr, ¬Lost sys ptr) : GcComplete sys (lzmallocGc sys.state thread) := by
  have grounded := done.grounded empty
  obtain ⟨count, chunks, segment, nodup, members, _⟩ := done.inv.vmm.caches.global
  have cached : ∀ chunk, (∃ place, last.kind chunk = .idle place) → chunk ∈ chunks := by
    rintro chunk ⟨place, idle⟩
    rw [done.pooled_global chunk idle] at idle
    exact (members chunk).mpr (by simp [idle, BlockKind.cached])
  refine ⟨fun tlh ptr => ⟨fun batched => ?_, fun mailed => ?_⟩, fun ptr => ?_, ?_,
    chunks, segment, nodup, fun chunk managed => ?_, fun ptr object freed => ?_⟩
  · have place := (in_batch_iff done.inv.toCore).mp batched
    exact grounded ptr (by rw [place]; trivial)
  · have place := (in_mailbox_iff done.inv.toCore).mp mailed
    exact grounded ptr (by rw [place]; trivial)
  · exact done.returned grounded kept
  · exact fun node bound => gc_pools sys.state thread bound
  · obtain ⟨place, idle⟩ := (in_manager_iff done.ok.rest.inv.toCore).mp managed
    apply cached
    rcases done.swept.kinds chunk with same | later
    · exact ⟨place, same.trans idle⟩
    · exact later
  · exact (done.emptied grounded kept object freed).imp_left (cached _)

/-- The collection does not flush the caller's batch. -/
theorem batch_left (filled : (sys.state.outgoingBatch (sys.state.tls thread)).count ≠ 0) :
    ¬GcComplete sys (lzmallocGc sys.state thread) := by
  intro complete
  rw [← (gc_batches sys.state thread).outgoing_batch] at filled
  have inside := ends_at_tail (done.inv.mail.batchList _ filled)
  exact (complete.drained _ _).1 ((in_batch_iff done.inv.toCore).mpr inside)

theorem lost_stays (lost : Lost sys ptr) : ¬GcComplete sys (lzmallocGc sys.state thread) := by
  intro complete
  obtain ⟨_, leaked⟩ := (lost_iff done.ok).mp lost
  have later := (done.quiet.leaked ptr).mpr leaked
  have present : last.node ptr ≠ .none := by simp [later]
  rcases complete.returned ptr lost.1 lost.2.1 with managed | ⟨object, listed⟩ |
    ⟨⟨tlh, owns⟩, pages⟩
  · obtain ⟨place, idle⟩ := (in_manager_iff done.inv.toCore).mp managed
    have holds := done.inv.objects.scope ptr present
    simp [idle, BlockKind.HoldsObjects] at holds
  · obtain ⟨⟨tlh, classIdx, isSlab⟩, _⟩ := (slab_object_iff done.inv.toCore done.settled).mp object
    simp [(on_free_list_iff done.inv.toCore isSlab).mp listed] at later
  · have isSpan := (owns_span_iff done.inv.toCore done.settled).mp owns
    obtain ⟨page, _, _, _, index, listed⟩ := span_object_page done.inv.toCore isSpan present
    simp only [PagesFree, lzPageSize, lzCacheLineSize, index] at pages
    exact listed pages.1

end Collected

/-! ## The contract -/

/-- In every state that a run reaches with all threads but `thread` gone, a
collection by `thread` is complete exactly when its own outgoing batch is empty
and no free has been ignored. -/
theorem gc_complete_iff {env : Env} {secret : BitVec 64} {telemetry : Bool} {acts : List ApiAct}
    (fits : Along apiStep ApiFits (apiStart env secret telemetry) acts)
    (ran : run apiStep (apiStart env secret telemetry) acts = some sys)
    (alone : ∀ other, other ≠ thread → sys.state.tls other = 0) :
    GcComplete sys (lzmallocGc sys.state thread) ↔
      (sys.state.outgoingBatch (sys.state.tls thread)).count = 0 ∧ ∀ ptr, ¬Lost sys ptr := by
  have reached : ∃ g, ApiOk (apiMode False) sys g := api_run_ok False.elim fits ran
  obtain ⟨g, ok⟩ := reached
  obtain ⟨last, done⟩ := collected ok (covered_run fits ran) alone
  constructor
  · intro complete
    refine ⟨?_, fun ptr lost => done.lost_stays lost complete⟩
    by_contra filled
    exact done.batch_left filled complete
  · rintro ⟨empty, kept⟩
    exact done.complete empty kept

theorem alone_of_heaps (ok : ThreadsOk s)
    (heaps : ∀ tlh ∈ s.heaps, tlh = s.tls thread ∨ tlh = s.gZombieTlhs) (other : Nat)
    (different : other ≠ thread) : s.tls other = 0 := by
  by_contra attached
  rcases heaps _ (ok.attached other attached) with own | parked
  · exact different (ok.apart other thread attached own)
  · obtain ⟨zombie, count, chain, outside⟩ := ok.zombies
    have isZombie := enumerates_head chain (parked ▸ attached)
    exact (outside _ isZombie).2 other parked

/-- Thread 2 frees a block of thread 1 and the thread `leaver` exits. -/
def crossRun (leaver : Nat) : List ApiAct := [.malloc 1 24, .free 2 4359979136, .exit leaver]

theorem cross_run_fits (leaver : Nat) (start : ApiSys) :
    Along apiStep ApiFits start (crossRun leaver) := by
  refine along_of_mem (fun act member state => ?_) start
  simp only [crossRun, List.mem_cons, List.not_mem_nil, or_false] at member
  rcases member with rfl | rfl | rfl
  · exact Or.inl (by decide)
  · trivial
  · trivial

/-- The exit of the freeing thread delivers the block and the collection takes
it back. -/
theorem gc_complete_after_exit :
    ∃ sys, run apiStep (apiStart generousEnv 7 true) (crossRun 2) = some sys ∧
      Travelling sys.state 4359979136 ∧ GcComplete sys (lzmallocGc sys.state 1) := by
  have facts : (run apiStep (apiStart generousEnv 7 true) (crossRun 2)).map (fun sys =>
      ((sys.state.heaps, sys.state.tls 1, sys.state.gZombieTlhs),
        (sys.state.outgoingBatch (sys.state.tls 1)).count, sys.state.remoteFreeHead 4096)) =
      some (([8192, 4096], 4096, 8192), 0, 4359979136) := by decide +kernel
  obtain ⟨sys, ran, values⟩ := Option.map_eq_some_iff.mp facts
  simp only [Prod.mk.injEq] at values
  obtain ⟨⟨heaps, own, parked⟩, empty, mail⟩ := values
  have fits := cross_run_fits 2 (apiStart generousEnv 7 true)
  have reached : ∃ g, ApiOk (apiMode False) sys g := api_run_ok False.elim fits ran
  obtain ⟨g, ok⟩ := reached
  have alone := @alone_of_heaps sys.state 1 ok.rest.threads (by simp [heaps, own, parked])
  refine ⟨sys, ran, ⟨4096, by simp [heaps], Or.inr ?_⟩, ?_⟩
  · obtain ⟨count, chain⟩ := ok.rest.inv.mail.mail 4096
    have first := enumerates_head chain (by simp [mail])
    rw [mail] at first
    exact (in_mailbox_iff ok.rest.inv.toCore).mpr first
  · exact (gc_complete_iff fits ran alone).mpr
      ⟨empty, nothing_lost (fun _ => rfl) fits ran⟩

/-- With the owner gone instead, the block stays in the batch of the collecting
thread. -/
theorem own_batch_survives_gc :
    ∃ sys, run apiStep (apiStart generousEnv 7 true) (crossRun 1) = some sys ∧
      (∀ other, other ≠ 2 → sys.state.tls other = 0) ∧
      InBatch (lzmallocGc sys.state 2) 8192 4359979136 ∧
      ¬GcComplete sys (lzmallocGc sys.state 2) := by
  have facts : (run apiStep (apiStart generousEnv 7 true) (crossRun 1)).map (fun sys =>
      ((sys.state.heaps, sys.state.tls 2, sys.state.gZombieTlhs),
        sys.state.outgoingBatch 8192)) =
      some (([8192, 4096], 8192, 4096), ⟨4096, 4359979136, 4359979136, 1⟩) := by decide +kernel
  obtain ⟨sys, ran, values⟩ := Option.map_eq_some_iff.mp facts
  simp only [Prod.mk.injEq] at values
  obtain ⟨⟨heaps, own, parked⟩, batch⟩ := values
  have fits := cross_run_fits 1 (apiStart generousEnv 7 true)
  have reached : ∃ g, ApiOk (apiMode False) sys g := api_run_ok False.elim fits ran
  obtain ⟨g, ok⟩ := reached
  have alone := @alone_of_heaps sys.state 2 ok.rest.threads (by simp [heaps, own, parked])
  obtain ⟨last, done⟩ := collected ok (covered_run fits ran) alone
  have filled : (sys.state.outgoingBatch (sys.state.tls 2)).count ≠ 0 := by simp [own, batch]
  refine ⟨sys, ran, alone, ?_, done.batch_left filled⟩
  have kept : (lzmallocGc sys.state 2).outgoingBatch 8192 = ⟨4096, 4359979136, 4359979136, 1⟩ := by
    rw [(gc_batches sys.state 2).outgoing_batch, batch]
  simp only [InBatch, kept]
  exact ⟨[], rfl, rfl, List.mem_singleton.mpr rfl⟩

end Lzmalloc.CollectionContracts
