import Lzmalloc.AlignedContracts
import Lzmalloc.ClientBytes

/-!
# Reservations of aligned allocations

What `lz_memalign` reserves, seen from the pointer it returns: the radix tree
leads from the pointer to the reservation, freeing the pointer gives back that
reservation and nothing else, and growing it fails only for lack of memory.
-/

namespace Lzmalloc.ReservationContracts

open SizeClasses HeapState VirtualMemoryManager PointerChain ThreadHeap PublicApi StepSystem
open HeapInvariant InvariantFacts ObjectRanges ClientView ConcreteView DirectObjects ThreadLifecycle
open ApiOperations ApiRuns FreeFootprint ClientBytes ObjectContracts DirectContracts
open AlignedContracts
open SlabContracts (generousEnv blockAt)

set_option autoImplicit false

variable {mode : Mode} {s after : State} {sys : ApiSys} {g last : Ghost}
  {thread ptr other alignment size : Nat}

/-! ## Reserved blocks -/

/-- The slab or span of `ptr` counts it as an object that was handed out, and
it is not on its way back. -/
def HoldsBlock (s : State) (ptr : Nat) : Prop :=
  ¬Travelling s ptr ∧
    ((∃ tlh classIdx, OwnsSlab s tlh classIdx (chunkBase ptr + lzCacheLineSize) ∧
        (∃ index < bumpedCount (s.slab (chunkBase ptr + lzCacheLineSize)),
          ptr = blockAt (s.slab (chunkBase ptr + lzCacheLineSize)) index) ∧
        ¬OnChain (freeLink s.secret s.mem)
          (s.slab (chunkBase ptr + lzCacheLineSize)).freeListHead ptr) ∨
      ∃ tlh, OwnsSpan s tlh (chunkBase ptr) ∧ ∃ page, ptr = chunkBase ptr + page * lzPageSize ∧
        (s.span (chunkBase ptr + lzCacheLineSize)).allocSizePages page ≠ 0)

theorem live_of_place {place : NodePlace} (present : place ≠ .none) (taken : place ≠ .free)
    (kept : place ≠ .leaked) (grounded : ¬place.InFlight) : place = .live := by
  cases place with
  | live => rfl
  | none => exact absurd rfl present
  | free => exact absurd rfl taken
  | leaked => exact absurd rfl kept
  | batch tlh => exact absurd trivial grounded
  | mail tlh => exact absurd trivial grounded
  | reaping tlh => exact absurd trivial grounded

theorem holds_block_iff (rest : AtRest mode s g) (kept : mode.noLeaks) :
    HoldsBlock s ptr ↔ g.node ptr = .live ∧ ∃ tlh, (g.kind (chunkBase ptr)).owner = some tlh := by
  have core := rest.inv.toCore
  have leaked := core.objects.noLeaks kept ptr
  simp only [HoldsBlock, travelling_iff core rest.cursor, lzCacheLineSize, lzPageSize,
    owns_slab_iff core rest.settled, owns_span_iff core rest.settled]
  constructor
  · rintro ⟨grounded, ⟨tlh, classIdx, isSlab, ⟨index, bound, position⟩, unlisted⟩ |
      ⟨tlh, isSpan, page, position, listed⟩⟩
    · have ok := core.slabs _ tlh classIdx isSlab
      rw [blockAt, ok.base, ok.blockSize] at position
      have present := (ok.blocks ptr rfl).mpr ⟨index, bound, position⟩
      have notFree : g.node ptr ≠ .free := fun free =>
        unlisted ((enumerates_on_chain ok.freeList).mpr ⟨rfl, free⟩)
      exact ⟨live_of_place present notFree leaked grounded, tlh, by simp [isSlab, BlockKind.owner]⟩
    · have ok := core.spans _ tlh isSpan
      have present := (ok.nodes ptr rfl).mpr ⟨page, position, listed⟩
      exact ⟨live_of_place present (ok.notFree ptr rfl) leaked grounded, tlh,
        by simp [isSpan, BlockKind.owner]⟩
  · rintro ⟨live, tlh, owned⟩
    have present : g.node ptr ≠ .none := by simp [live]
    refine ⟨by simp [live, NodePlace.InFlight], ?_⟩
    cases kind : g.kind (chunkBase ptr) with
    | slab heap classIdx =>
        have ok := core.slabs _ heap classIdx kind
        obtain ⟨index, bound, position⟩ := (ok.blocks ptr rfl).mp present
        refine Or.inl ⟨heap, classIdx, rfl, ⟨index, bound, ?_⟩, ?_⟩
        · rw [blockAt, ok.base, ok.blockSize]
          exact position
        · intro listed
          have free := ((enumerates_on_chain ok.freeList).mp listed).2
          rw [live] at free
          cases free
    | span heap =>
        have ok := core.spans _ heap kind
        exact Or.inr ⟨heap, rfl, (ok.nodes ptr rfl).mp present⟩
    | unused => simp [kind, BlockKind.owner] at owned
    | idle place => simp [kind, BlockKind.owner] at owned
    | loose => simp [kind, BlockKind.owner] at owned
    | direct header => simp [kind, BlockKind.owner] at owned

theorem owned_iff_record (core : Core mode s g) (used : (g.node ptr).InUse) :
    (∃ tlh, (g.kind (chunkBase ptr)).owner = some tlh) ↔ ∀ size, g.record ptr ≠ .direct size := by
  have present : g.node ptr ≠ .none := by
    intro absent
    simp [absent, NodePlace.InUse] at used
  rw [← core.recorded ptr used]
  have holds := core.objects.scope ptr present
  cases kind : g.kind (chunkBase ptr) with
  | slab tlh classIdx => simp [BlockKind.owner, objectOrigin]
  | span tlh => simp [BlockKind.owner, objectOrigin]
  | direct header => simp [BlockKind.owner, objectOrigin]
  | unused => simp [kind, BlockKind.HoldsObjects] at holds
  | idle place => simp [kind, BlockKind.HoldsObjects] at holds
  | loose => simp [kind, BlockKind.HoldsObjects] at holds

theorem holds_block_withdrawn (rest : AtRest mode s g) (afterRest : AtRest mode after last)
    (kept : mode.noLeaks) (withdrawn : Withdrawn g last ptr) :
    HoldsBlock after other ↔ HoldsBlock s other ∧ other ≠ ptr := by
  rw [holds_block_iff rest kept, holds_block_iff afterRest kept, withdrawn.live other]
  constructor
  · rintro ⟨⟨different, live⟩, owned⟩
    refine ⟨⟨live, ?_⟩, different⟩
    have stays := (withdrawn.live other).mpr ⟨different, live⟩
    rw [owned_iff_record afterRest.inv.toCore (by simp [stays, NodePlace.InUse]),
      withdrawn.record] at owned
    exact (owned_iff_record rest.inv.toCore (by simp [live, NodePlace.InUse])).mpr owned
  · rintro ⟨⟨live, owned⟩, different⟩
    refine ⟨⟨different, live⟩, ?_⟩
    have stays := (withdrawn.live other).mpr ⟨different, live⟩
    rw [owned_iff_record rest.inv.toCore (by simp [live, NodePlace.InUse])] at owned
    rw [owned_iff_record afterRest.inv.toCore (by simp [stays, NodePlace.InUse]), withdrawn.record]
    exact owned

theorem owned_header {kind : BlockKind} {tlh base : Nat} (owned : kind.owner = some tlh) :
    kind.header base = base := by
  cases kind with
  | slab heap classIdx => rfl
  | span heap => rfl
  | loose => rfl
  | unused => simp [BlockKind.owner] at owned
  | idle place => simp [BlockKind.owner] at owned
  | direct header => simp [BlockKind.owner] at owned

/-! ## Free -/

/-- From `s` to `after` the object at `ptr` has been given back and nothing
else: not another block, not another mapping, no byte and no lookup of another
object that `live` lists. -/
structure ReleasesOnly (s after : State) (live : Nat → Prop) (ptr : Nat) : Prop where
  blocks : ∀ other, HoldsBlock after other ↔ HoldsBlock s other ∧ other ≠ ptr
  directs : ∀ header, header ∈ after.directs ↔ header ∈ s.directs ∧ header ≠ lzRtreeGet s.rtree ptr
  regions : ∀ address, Mapped after.regions address ↔ Mapped s.regions address ∧
    ¬∃ header ∈ s.directs, header = lzRtreeGet s.rtree ptr ∧ header ≤ address ∧
      address < header + (s.direct header).totalBytes
  lookups : ∀ other, live other → other ≠ ptr →
    lzRtreeGet after.rtree other = lzRtreeGet s.rtree other ∧
      lzMallocUsableSize after other = lzMallocUsableSize s other
  bytes : ∀ other, live other → other ≠ ptr → ∀ byte, other ≤ byte →
    byte < other + lzMallocUsableSize s other → after.mem byte = s.mem byte

theorem lookups_kept (rest : AtRest mode s g) (afterRest : AtRest mode after last)
    (leaves : mode.leavesMapped) (live : g.node other = .live) (stays : last.node other = .live)
    (record : last.record = g.record) (direct : after.direct = s.direct)
    (member : ∀ header, g.kind (chunkBase other) = .direct header → header ∈ after.directs) :
    lzRtreeGet after.rtree other = lzRtreeGet s.rtree other ∧
      lzMallocUsableSize after other = lzMallocUsableSize s other := by
  have core := rest.inv.toCore
  have later := afterRest.inv.toCore
  have present : g.node other ≠ .none := by simp [live]
  have laterPresent : last.node other ≠ .none := by simp [stays]
  have used : (g.node other).InUse := by simp [live, NodePlace.InUse]
  have laterUsed : (last.node other).InUse := by simp [stays, NodePlace.InUse]
  constructor
  · obtain ⟨_, bound⟩ := core_node_bound core present
    rw [later.rtree.complete (leaves_granted_of_mapped later leaves) other (by omega)
      (afterRest.settled _),
      core.rtree.complete (leaves_granted_of_mapped core leaves) other (by omega) (rest.settled _)]
    rcases holder_cases (core.objects.scope other present) with owned | ⟨header, isDirect⟩
    · have laterOwned := (owned_iff_record core used).mp owned
      rw [← record] at laterOwned
      obtain ⟨heap, laterOwned⟩ := (owned_iff_record later laterUsed).mpr laterOwned
      obtain ⟨tlh, owned⟩ := owned
      rw [owned_header owned, owned_header laterOwned]
    · rw [isDirect, direct_kind_kept core later direct isDirect (member header isDirect)]
  · rw [usable_size_eq core present (resolve_found rest leaves present),
      usable_size_eq later laterPresent (resolve_found afterRest leaves laterPresent),
      object_length_record core used, object_length_record later laterUsed, record]

theorem releases_mapping (rest : AtRest mode s g) (afterRest : AtRest mode after last)
    (leaves : mode.leavesMapped) (kept : mode.noLeaks) (withdrawn : Withdrawn g last ptr)
    (live : g.node ptr = .live) {listed : Nat → Prop}
    (known : ∀ other, listed other → g.node other = .live) {header : Nat}
    (isDirect : g.kind (chunkBase ptr) = .direct header) (entry : lzRtreeGet s.rtree ptr = header)
    (unmapped : Unmapped s after header) : ReleasesOnly s after listed ptr := by
  have core := rest.inv.toCore
  have present : g.node ptr ≠ .none := by simp [live]
  have member := direct_known core isDirect
  refine ⟨fun other => holds_block_withdrawn rest afterRest kept withdrawn, ?_, ?_, ?_, ?_⟩
  · intro each
    rw [unmapped.directs, entry]
  · intro address
    rw [unmapped.regions, entry]
    constructor
    · rintro ⟨mapped, outside⟩
      refine ⟨mapped, ?_⟩
      rintro ⟨each, _, rfl, inside⟩
      exact outside inside
    · rintro ⟨mapped, outside⟩
      exact ⟨mapped, fun inside => outside ⟨header, member, rfl, inside⟩⟩
  · intro other there different
    have stays := (withdrawn.live other).mpr ⟨different, known other there⟩
    apply lookups_kept rest afterRest leaves (known other there) stays withdrawn.record
      unmapped.direct
    intro each otherDirect
    refine (unmapped.directs each).mpr ⟨direct_known core otherDirect, ?_⟩
    rintro rfl
    exact different (core.objects.direct.single other ptr each (by simp [known other there]) present
      otherDirect isDirect)
  · intro other there different byte lower upper
    rw [unmapped.mem]

theorem releases_block (rest : AtRest mode s g) (leaves : mode.leavesMapped) (kept : mode.noLeaks)
    (live : g.node ptr = .live) {listed : Nat → Prop}
    (known : ∀ other, listed other → g.node other = .live) {owner : Nat} {ready : State}
    (owned : (g.kind (chunkBase ptr)).owner = some owner)
    (attached : ensureTlsInit s thread = some ready)
    (afterRest : AtRest mode (lzTlhFree ready (ready.tls thread) ptr) last)
    (withdrawn : Withdrawn g last ptr) :
    ReleasesOnly s (lzTlhFree ready (ready.tls thread) ptr) listed ptr := by
  have core := rest.inv.toCore
  have present : g.node ptr ≠ .none := by simp [live]
  have found := resolve_found rest leaves present
  obtain ⟨readyRest, heap, _⟩ := at_rest_attach rest attached
  obtain ⟨_, _, _, same⟩ := inv_ensure_tls_init rest.inv rest.threads attached
  obtain ⟨mem, regions⟩ := ensure_tls_init_frame attached
  have frame := ThreadFrames.tlh_free_threads ready (ready.tls thread) ptr
  have notDirect : ∀ header ∈ s.directs, header ≠ lzRtreeGet s.rtree ptr := by
    rintro header member entry
    rw [← resolve_eq] at entry
    rcases resolve_cases core present found with ⟨_, base, _⟩ | ⟨other, isDirect, _⟩
    · have isHeader := geom_direct_header core.geom member
      rw [entry, base] at isHeader
      simp [isHeader, BlockKind.owner] at owned
    · simp [isDirect, BlockKind.owner] at owned
  refine ⟨fun other => holds_block_withdrawn rest afterRest kept withdrawn, ?_, ?_, ?_, ?_⟩
  · intro header
    rw [frame.directs, same.directs]
    exact ⟨fun member => ⟨member, notDirect header member⟩, fun both => both.1⟩
  · intro address
    have footprint : Footprint (fun _ => True) ready (lzTlhFree ready (ready.tls thread) ptr) :=
      tlh_free_footprint ready _ trivial fun _ => trivial
    rw [footprint.regions, regions]
    refine ⟨fun mapped => ⟨mapped, ?_⟩, fun both => both.1⟩
    rintro ⟨header, member, entry, _⟩
    exact notDirect header member entry
  · intro other there different
    have stays := (withdrawn.live other).mpr ⟨different, known other there⟩
    apply lookups_kept rest afterRest leaves (known other there) stays withdrawn.record
    · rw [frame.direct, same.direct]
    · intro header isDirect
      rw [frame.directs, same.directs]
      exact direct_known core isDirect
  · intro other there different byte lower upper
    have otherLive := known other there
    have otherPresent : g.node other ≠ .none := by simp [otherLive]
    have stays := (withdrawn.live other).mpr ⟨different, otherLive⟩
    rw [usable_size_eq core otherPresent (resolve_found rest leaves otherPresent),
      object_length_record core (by simp [otherLive, NodePlace.InUse]), ← withdrawn.record] at upper
    rw [← mem]
    exact undisturbed_tlh_free readyRest live owned afterRest withdrawn other byte stays lower upper

theorem releases_only (rest : AtRest mode s g) (leaves : mode.leavesMapped) (kept : mode.noLeaks)
    (live : g.node ptr = .live) {listed : Nat → Prop}
    (known : ∀ other, listed other → g.node other = .live)
    (done : lzFree s thread ptr = some after) : ReleasesOnly s after listed ptr := by
  have core := rest.inv.toCore
  have found := resolve_found rest leaves (by simp [live] : g.node ptr ≠ .none)
  obtain ⟨last, afterRest, withdrawn⟩ := withdrawn_free rest live (fun _ => leaves) done
  rcases free_cases core live found done with
    ⟨owner, ready, owned, attached, rfl⟩ | ⟨header, isDirect, entry, freed⟩
  · exact releases_block rest leaves kept live known owned attached afterRest withdrawn
  · have unmapped := unmap_direct_unmapped core (direct_known core isDirect)
    rw [← freed] at unmapped
    rw [resolve_eq] at entry
    exact releases_mapping rest afterRest leaves kept withdrawn live known isDirect entry unmapped

/-! ## The law of aligned allocations -/

/-- The pointer lies inside what the call from `s` to `after` reserved, the
radix tree leads from it to that reservation, and it can be freed and
reallocated. `live` lists the objects from before the call. -/
structure SelfResolving (s after : State) (live : Nat → Prop) (ptr : Nat) : Prop where
  inside :
    (∃ header, header ∉ s.directs ∧ header ∈ after.directs ∧ lzRtreeGet after.rtree ptr = header ∧
        header < ptr ∧ ptr < header + (after.direct header).totalBytes) ∨
      (¬HoldsBlock s ptr ∧ HoldsBlock after ptr ∧ lzRtreeGet after.rtree ptr = chunkBase ptr ∧
        chunkBase ptr < ptr ∧
          ptr + lzMallocUsableSize after ptr ≤ chunkBase ptr + lzHugePageSize)
  usable : 0 < lzMallocUsableSize after ptr
  freed : ∀ thread released, lzFree after thread ptr = some released →
    ReleasesOnly after released live ptr
  realloced : ∀ thread newSize reached, newSize ≠ 0 →
    lzRealloc after thread ptr newSize = some (0, reached) →
      lzMalloc after thread newSize = some (0, reached)

theorem realloc_null {newSize : Nat} {reached : State} (nonnull : ptr ≠ 0)
    (usable : 0 < lzMallocUsableSize s ptr) (positive : newSize ≠ 0)
    (done : lzRealloc s thread ptr newSize = some (0, reached)) :
    lzMalloc s thread newSize = some (0, reached) := by
  rcases lz_realloc_branches nonnull positive done with
    ⟨_, _, unknown⟩ | ⟨same, _, _⟩ | ⟨_, _, ⟨_, refused⟩ | ⟨moved, _⟩⟩
  · omega
  · exact absurd same.symm nonnull
  · exact refused
  · exact absurd rfl moved

theorem memalign_direct_inside (rest : AtRest mode s g) (afterRest : AtRest mode after last)
    (leaves : mode.leavesMapped) (power : isPowerOfTwo alignment = true)
    (bound : alignment < 2 ^ 64)
    (direct : memalignDirect alignment size) (fits : MemalignFits alignment size)
    (done : lzMemalign s thread alignment size = some (ptr, after)) (nonnull : ptr ≠ 0) :
    ∃ header, header ∉ s.directs ∧ header ∈ after.directs ∧ lzRtreeGet after.rtree ptr = header ∧
      header < ptr ∧ ptr < header + (after.direct header).totalBytes := by
  have behind := (memalign_offset bound power).1
  rw [lz_memalign_large thread power direct] at done
  rcases map_direct_cases s (memalignOffset alignment) size with
    ⟨_, failed⟩ | ⟨_, _, died⟩ | ⟨_, nonempty, start, mapped, reached, maps, registered, served⟩
  · rw [failed, Option.some.injEq, Prod.mk.injEq] at done
    exact absurd done.1.symm nonnull
  · rw [died] at done
    cases done
  rw [served, Option.some.injEq, Prod.mk.injEq] at done
  obtain ⟨pointer, rfl⟩ := done
  have room := (fits power direct).resolve_left nonempty
  have directs : reached.directs = start :: s.directs := by
    rw [registered.only]
    simp only [writeDirect]
    rw [maps.rest]
  have info : reached.direct start = ⟨directTotal (memalignOffset alignment) size, size⟩ := by
    rw [registered.only]
    exact Function.update_self _ _ _
  have fresh : start ∉ s.directs := by
    intro member
    have isHeader := geom_direct_header rest.inv.geom member
    exact maps.freshStart (rest.inv.geom.mapped start (by simp [isHeader]) start le_rfl (by omega))
  have member : start ∈ reached.directs := by
    rw [directs]
    exact List.mem_cons_self
  have upper : ptr < start + (reached.direct start).totalBytes := by
    rw [info, ← pointer]
    simp only
    omega
  have later := afterRest.inv.toCore
  have block := direct_block later member (by omega : start ≤ ptr) upper
  have limit := (direct_range later member).limit
  refine ⟨start, fresh, member, ?_, by omega, upper⟩
  rw [later.rtree.complete (leaves_granted_of_mapped later leaves) ptr (by omega)
    (afterRest.settled _), block]
  rfl

theorem self_resolving_of_fits (ok : ApiOk mode sys g) (leaves : mode.leavesMapped)
    (kept : mode.noLeaks) (power : isPowerOfTwo alignment = true) (bound : alignment < 2 ^ 64)
    (fits : MemalignFits alignment size) (nonempty : memalignDirect alignment size → 0 < size)
    (done : lzMemalign sys.state thread alignment size = some (ptr, after)) (nonnull : ptr ≠ 0) :
    SelfResolving sys.state after (fun other => (sys.live other).isSome) ptr := by
  obtain ⟨last, afterRest, result⟩ := served_memalign ok.rest bound fits done
  obtain ⟨_, allocated⟩ := result.resolve_left fun failed => nonnull failed.1
  have live := (allocated.live ptr).mpr (Or.inl rfl)
  have present : last.node ptr ≠ .none := by simp [live]
  have used : (last.node ptr).InUse := by simp [live, NodePlace.InUse]
  have later := afterRest.inv.toCore
  have found := resolve_found afterRest leaves present
  have length := usable_size_eq later present found
  have record : last.record ptr = memalignOrigin alignment size := by
    rw [allocated.record, Function.update_self]
  have usable : 0 < lzMallocUsableSize after ptr := by
    rw [length]
    rcases holder_cases (later.objects.scope ptr present) with ⟨tlh, owned⟩ | ⟨header, isDirect⟩
    · have long := cell_le_length later present owned
      omega
    · have direct : memalignDirect alignment size := by
        by_contra chunk
        apply memalign_origin_chunk chunk (after.direct header).size
        rw [← record, ← later.recorded ptr used, isDirect]
        rfl
      rw [object_length_record later used, record, memalign_origin_direct direct]
      exact nonempty direct
  refine ⟨?_, usable, ?_, ?_⟩
  · by_cases direct : memalignDirect alignment size
    · exact Or.inl
        (memalign_direct_inside ok.rest afterRest leaves power bound direct fits done nonnull)
    · right
      have owned : ∃ tlh, (last.kind (chunkBase ptr)).owner = some tlh := by
        rw [owned_iff_record later used, record]
        exact memalign_origin_chunk direct
      refine ⟨?_, (holds_block_iff afterRest kept).mpr ⟨live, owned⟩, ?_, ?_, ?_⟩
      · rw [holds_block_iff ok.rest kept]
        exact fun held => allocated.fresh.1 held.1
      · obtain ⟨_, limit⟩ := core_node_bound later present
        rw [later.rtree.complete (leaves_granted_of_mapped later leaves) ptr (by omega)
          (afterRest.settled _)]
        obtain ⟨tlh, owned⟩ := owned
        exact owned_header owned
      · obtain ⟨tlh, owned⟩ := owned
        have behind := (chunk_object_inside later present owned).1
        omega
      · obtain ⟨tlh, owned⟩ := owned
        rw [length]
        exact (chunk_object_inside later present owned).2
  · intro freer released freed
    apply releases_only afterRest leaves kept live _ freed
    intro other listed
    exact (allocated.live other).mpr (Or.inr ((ok.live other).mp listed))
  · intro grower newSize reached positive grown
    exact realloc_null nonnull usable positive grown

/-- In every reachable state, with every leaf mapped. -/
def ResolvesAlways (alignment size : Nat) : Prop :=
  ∀ env secret telemetry acts sys, (∀ call, env.leafMmap call = true) →
    Along apiStep ApiFits (apiStart env secret telemetry) acts →
      run apiStep (apiStart env secret telemetry) acts = some sys →
        ∀ thread ptr after, lzMemalign sys.state thread alignment size = some (ptr, after) →
          ptr ≠ 0 → SelfResolving sys.state after (fun other => (sys.live other).isSome) ptr

/-- From 2 MB on, an empty payload starts where its mapping ends. -/
theorem empty_payload_total (power : isPowerOfTwo alignment = true) (bound : alignment < 2 ^ 64)
    (large : 2 ^ 21 ≤ alignment) :
    memalignOffset alignment = alignment ∧ directTotal alignment 0 = alignment := by
  obtain ⟨k, rfl⟩ := is_power_of_two_eq power
  have upper : k < 64 := (Nat.pow_lt_pow_iff_right (by norm_num)).mp bound
  have lower : 21 ≤ k := (Nat.pow_le_pow_iff_right (by norm_num)).mp large
  have checked : ∀ k < 64, 21 ≤ k → memalignOffset (2 ^ k) = 2 ^ k ∧
      directTotal (2 ^ k) 0 = 2 ^ k := by
    decide
  exact checked k upper lower

theorem resolves_always_of (power : isPowerOfTwo alignment = true)
    (small : alignment + size < 2 ^ 63)
    (proper : ¬(size = 0 ∧ 4096 < alignment ∧ alignment < 2 ^ 48)) :
    ResolvesAlways alignment size := by
  intro env secret telemetry acts sys leaves fits ran thread ptr after done nonnull
  have reached : ∃ g, ApiOk (apiMode True) sys g := api_run_ok (fun _ => leaves) fits ran
  obtain ⟨g, ok⟩ := reached
  by_cases empty : size = 0
  · subst empty
    by_cases page : alignment ≤ 4096
    · have chunk : ¬memalignDirect alignment 0 := fun direct => direct.2 ⟨page, by decide⟩
      exact self_resolving_of_fits ok trivial trivial power (by omega)
        (fun _ direct => absurd direct chunk) (fun direct => absurd direct chunk) done nonnull
    · -- No region is that long.
      have direct : memalignDirect alignment 0 := by
        simp only [memalignDirect, lzPageSize]
        omega
      obtain ⟨offset, total⟩ := empty_payload_total power (by omega) (by omega)
      have refused : MmapRefused sys.state (memalignOffset alignment) 0 := by
        apply mmap_refused_large
        rw [offset, total]
        omega
      rw [lz_memalign_large thread power direct] at done
      rcases map_direct_cases sys.state (memalignOffset alignment) 0 with
        ⟨_, failed⟩ | ⟨allowed, _⟩ | ⟨allowed, _⟩
      · rw [failed, Option.some.injEq, Prod.mk.injEq] at done
        exact absurd done.1.symm nonnull
      · exact absurd refused allowed
      · exact absurd refused allowed
  · have positive : 1 ≤ size := by omega
    exact self_resolving_of_fits ok trivial trivial power (by omega)
      (memalign_fits_of_small positive (by omega)) (fun _ => positive) done nonnull

/-- An empty payload inside its mapping has no usable bytes, so it cannot grow. -/
theorem empty_payload_stuck {exponent : Nat} (lower : 13 ≤ exponent) (upper : exponent < 21) :
    ¬ResolvesAlways (2 ^ exponent) 0 := by
  intro law
  have facts : ∀ exponent < 21, 13 ≤ exponent →
      (lzMemalign (apiStart generousEnv 7 true).state 1 (2 ^ exponent) 0).map (fun result =>
        (result.1, (lzRealloc result.2 1 result.1 1).map fun grown => grown.1,
          (lzMalloc result.2 1 1).map fun fresh => fresh.1)) =
        some (2 ^ 32 + 2 ^ exponent, some 0, some 5433720960) := by
    intro exponent upper lower
    interval_cases exponent <;> decide +kernel
  obtain ⟨⟨ptr, after⟩, served, values⟩ := Option.map_eq_some_iff.mp (facts exponent upper lower)
  simp only [Prod.mk.injEq] at values
  obtain ⟨pointer, grown, fresh⟩ := values
  have nonnull : ptr ≠ 0 := by
    rw [pointer]
    positivity
  have resolving :=
    law generousEnv 7 true [] _ (fun _ => rfl) trivial rfl 1 ptr after served nonnull
  obtain ⟨⟨result, reached⟩, realloced, null⟩ := Option.map_eq_some_iff.mp grown
  simp only at null
  rw [null] at realloced
  rw [resolving.realloced 1 1 reached (by norm_num) realloced] at fresh
  simp at fresh

theorem empty_payload_outside (power : isPowerOfTwo alignment = true) (large : 2 ^ 21 ≤ alignment)
    (mappable : alignment < 2 ^ 48) : ¬ResolvesAlways alignment 0 := by
  intro law
  have limit : 2097152 + (alignment + 2097152) ≤ 2 ^ 48 := by
    obtain ⟨k, rfl⟩ := is_power_of_two_eq power
    have exponent : k < 48 := (Nat.pow_lt_pow_iff_right (by norm_num)).mp mappable
    have half : 2 ^ k ≤ 2 ^ 47 := Nat.pow_le_pow_right (by norm_num) (by omega)
    calc 2097152 + (2 ^ k + 2097152) = 2 ^ k + 4194304 := by ring
      _ ≤ 2 ^ 47 + 4194304 := Nat.add_le_add_right half _
      _ ≤ 2 ^ 48 := by norm_num
  obtain ⟨offset, total⟩ := empty_payload_total power (by omega) large
  have direct : memalignDirect alignment 0 := by
    simp only [memalignDirect, lzPageSize]
    omega
  have valid : MmapValid (apiStart lowEnv 7 true).state.regions 2097152
      (directTotal (memalignOffset alignment) 0 + 2097152) := by
    rw [offset, total]
    exact ⟨by decide, by decide, by omega, limit, fun region member => by cases member⟩
  have nonempty : directTotal (memalignOffset alignment) 0 ≠ 0 := by
    rw [offset, total]
    omega
  have mapped : ∃ after, mapDirect (apiStart lowEnv 7 true).state (memalignOffset alignment) 0 =
      some (2097152 + memalignOffset alignment, after) := map_direct_at rfl rfl nonempty valid
  obtain ⟨after, mapped⟩ := mapped
  rcases map_direct_cases (apiStart lowEnv 7 true).state (memalignOffset alignment) 0 with
    ⟨_, failed⟩ | ⟨_, _, died⟩ | ⟨_, _, start, middle, reached, maps, registered, served⟩
  · rw [failed, Option.some.injEq, Prod.mk.injEq] at mapped
    omega
  · rw [died] at mapped
    cases mapped
  rw [mapped, Option.some.injEq, Prod.mk.injEq] at served
  obtain ⟨position, rfl⟩ := served
  rw [← lz_memalign_large 1 power direct] at mapped
  have resolving := law lowEnv 7 true [] _ (fun _ => rfl) trivial rfl 1 _ after mapped (by omega)
  have only := registered.only
  rcases resolving.inside with ⟨header, _, member, _, _, upper⟩ | ⟨_, ⟨_, held⟩, _⟩
  · have directs : after.directs = [start] := by
      rw [only]
      simp only [writeDirect]
      rw [maps.rest]
      rfl
    rw [directs, List.mem_singleton] at member
    have info : after.direct start = ⟨directTotal (memalignOffset alignment) 0, 0⟩ := by
      rw [only]
      exact Function.update_self _ _ _
    rw [member, info, offset, total] at upper
    simp only at upper
    omega
  · have carved : after.vmm.carved = [] := by
      rw [only]
      simp only [writeDirect]
      rw [maps.rest]
      rfl
    rcases held with ⟨_, _, ⟨_, _, handed, _⟩, _⟩ | ⟨_, ⟨handed, _⟩, _⟩
    · simp [Handed, carved] at handed
    · simp [Handed, carved] at handed

/-- The law holds for every request but empty ones that are mapped directly. -/
theorem aligned_allocations_resolve_iff (alignment size : Nat)
    (power : isPowerOfTwo alignment = true) (small : alignment + size < 2 ^ 63) :
    ResolvesAlways alignment size ↔ ¬(size = 0 ∧ 4096 < alignment ∧ alignment < 2 ^ 48) := by
  refine ⟨?_, resolves_always_of power small⟩
  rintro law ⟨rfl, lower, upper⟩
  by_cases large : 2 ^ 21 ≤ alignment
  · exact empty_payload_outside power large upper law
  · obtain ⟨k, rfl⟩ := is_power_of_two_eq power
    have above : 12 < k := (Nat.pow_lt_pow_iff_right (by norm_num : 1 < 2)).mp (by omega)
    have below : k < 21 := (Nat.pow_lt_pow_iff_right (by norm_num : 1 < 2)).mp (by omega)
    exact empty_payload_stuck above below law

theorem page_aligned_resolves : ResolvesAlways 4096 100 :=
  (aligned_allocations_resolve_iff 4096 100 (by decide) (by norm_num)).mpr (by decide)

/-- The pointer of an empty request with 2 MB alignment does not resolve. -/
theorem edge_payload_unresolved :
    (lzMemalign (initial generousEnv 7 true) 1 2097152 0).map (fun result =>
        (result.1, lzRtreeGet result.2.rtree result.1)) = some (4297064448, 0) ∧
      ¬ResolvesAlways 2097152 0 :=
  ⟨by decide +kernel, empty_payload_outside (by decide) (by norm_num) (by norm_num)⟩

end Lzmalloc.ReservationContracts
