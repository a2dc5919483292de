import Lzmalloc.HeapOperations

/-!
# Direct objects

A direct object has a mapping of its own: all its 2 MB blocks are registered
with its header and all of them are given back together. Mapping and unmapping
never touch a chunk of an extent.
-/

namespace Lzmalloc.DirectObjects

open SizeClasses HeapState VirtualMemoryManager DoublyLinked Engines ThreadHeap PublicApi
open HeapInvariant InvariantFacts Mappings RadixTree BinLists ChunkCaches ChunkRoles ClientView
open ObjectRanges

set_option autoImplicit false

variable {mode : Mode} {s after : State} {g : Ghost} {roles : Nat → BlockKind}

/-! ## Roles of blocks outside the extents -/

def SameChunks (kind roles : Nat → BlockKind) : Prop :=
  ∀ base, (kind base).IsChunk ∨ (roles base).IsChunk → roles base = kind base

theorem same_chunks_iff {kind : Nat → BlockKind} (same : SameChunks kind roles) {base : Nat}
    {role : BlockKind} (isChunk : role.IsChunk) : roles base = role ↔ kind base = role := by
  constructor
  · intro is
    rw [← same base (Or.inr (by rwa [is]))]
    exact is
  · intro was
    rw [same base (Or.inl (by rwa [was]))]
    exact was

theorem owner_is_chunk {kind : BlockKind} {tlh : Nat} (owned : kind.owner = some tlh) :
    kind.IsChunk := by
  cases kind with
  | slab heap classIdx => trivial
  | span heap => trivial
  | unused => simp [BlockKind.owner] at owned
  | idle place => simp [BlockKind.owner] at owned
  | loose => simp [BlockKind.owner] at owned
  | direct header => simp [BlockKind.owner] at owned

/-- What mapping and unmapping direct objects leaves alone: everything that
belongs to chunks. -/
structure SameChunkState (s after : State) (kind : Nat → BlockKind) : Prop where
  env : after.env = s.env
  secret : after.secret = s.secret
  mem : after.mem = s.mem
  bins : after.bins = s.bins
  slab : after.slab = s.slab
  slabLinks : after.slabLinks = s.slabLinks
  span : after.span = s.span
  spanLinks : after.spanLinks = s.spanLinks
  activeSpans : after.activeSpans = s.activeSpans
  remoteFreeHead : after.remoteFreeHead = s.remoteFreeHead
  outgoingBatch : after.outgoingBatch = s.outgoingBatch
  heaps : after.heaps = s.heaps
  pools : after.vmm.pools = s.vmm.pools
  global : after.vmm.globalFreeChunks = s.vmm.globalFreeChunks
  carved : after.vmm.carved = s.vmm.carved
  header : ∀ base, (kind base).IsChunk → after.vmm.header base = s.vmm.header base
  next : ∀ base, (kind base).IsChunk → after.vmm.next base = s.vmm.next base

theorem cached_is_chunk {kind : BlockKind} {place : CachePlace}
    (cached : kind.cached = some place) :
    kind.IsChunk := by
  cases kind with
  | idle place => trivial
  | unused => simp [BlockKind.cached] at cached
  | loose => trivial
  | slab heap classIdx => trivial
  | span heap => trivial
  | direct header => simp [BlockKind.cached] at cached

theorem taken_is_chunk {kind : BlockKind} (taken : kind.TakenOut) : kind.IsChunk := by
  cases kind with
  | loose => trivial
  | slab heap classIdx => trivial
  | span heap => trivial
  | unused => exact taken.elim
  | idle place => exact taken.elim
  | direct header => exact taken.elim

theorem vmm_inv_direct (inv : VmmInv s.vmm g.kind) (same : SameChunks g.kind roles)
    (frame : SameChunkState s after g.kind) : VmmInv after.vmm roles := by
  have places : (fun each => (roles each).cached) = fun each => (g.kind each).cached := by
    funext each
    by_cases isChunk : (g.kind each).IsChunk ∨ (roles each).IsChunk
    · rw [same each isChunk]
    · cases left : (g.kind each).cached with
      | some place => exact absurd (Or.inl (cached_is_chunk left)) isChunk
      | none =>
          cases right : (roles each).cached with
          | some place => exact absurd (Or.inr (cached_is_chunk right)) isChunk
          | none => rfl
  refine ⟨?_, ?_, ?_⟩
  · rw [places]
    apply cache_inv_congr inv.caches frame.pools frame.global
    · intro listed there
      cases known : (g.kind listed).cached with
      | some place => exact frame.next listed (cached_is_chunk known)
      | none => simp [known] at there
    · intro listed there
      cases known : (g.kind listed).cached with
      | some place => exact frame.header listed (cached_is_chunk known)
      | none => simp [known] at there
  · intro base taken
    have kinds := same base (Or.inr (taken_is_chunk taken))
    rw [kinds] at taken
    rw [magicOk, frame.header base (taken_is_chunk taken)]
    exact inv.takenHeader base taken
  · intro base
    rw [frame.carved, inv.carved base]
    by_cases isChunk : (g.kind base).IsChunk ∨ (roles base).IsChunk
    · rw [same base isChunk]
    · exact iff_of_false (fun was => isChunk (Or.inl was)) fun is => isChunk (Or.inr is)

/-- A change of roles outside the extents. -/
theorem core_direct {place : Nat → NodePlace} {record : Nat → Origin} (core : Core mode s g)
    (same : SameChunks g.kind roles) (frame : SameChunkState s after g.kind)
    (nodes : ∀ ptr, (g.kind (chunkBase ptr)).IsChunk →
      place ptr = g.node ptr ∧ record ptr = g.record ptr)
    (geom : GeomInv after.regions after.direct after.directs roles)
    (headers : ∀ header, roles header = .direct header →
      magicOk after.vmm header ∧ (after.vmm.header header).chunkType = .direct)
    (rtree : RtreeInv (LeavesGranted after) after.rtree roles)
    (lookups : ∀ address < 2 ^ 48, (g.kind (chunkBase address)).IsChunk →
      lzRtreeGet after.rtree address = lzRtreeGet s.rtree address)
    (direct : DirectInv after.direct roles place)
    (unused : ∀ ptr, roles (chunkBase ptr) = .unused → place ptr = .none)
    (kept : mode.noLeaks → ∀ ptr, place ptr ≠ .leaked)
    (recorded : ∀ ptr header, roles (chunkBase ptr) = .direct header → (place ptr).InUse →
      Origin.direct (after.direct header).size = record ptr) :
    Core mode after { g with kind := roles, node := place, record := record } := by
  have slabIff : ∀ base tlh classIdx, roles base = .slab tlh classIdx ↔
      g.kind base = .slab tlh classIdx := fun base tlh classIdx => same_chunks_iff same trivial
  have spanIff : ∀ base tlh, roles base = .span tlh ↔ g.kind base = .span tlh :=
    fun base tlh => same_chunks_iff same trivial
  -- An object in flight belongs to a chunk, before and after.
  have flying : ∀ ptr, (place ptr).InFlight ∨ (g.node ptr).InFlight →
      (g.kind (chunkBase ptr)).IsChunk := by
    intro ptr either
    by_contra outside
    have rolesOutside : ¬(roles (chunkBase ptr)).IsChunk := fun is =>
      outside (by rwa [same _ (Or.inr is)] at is)
    rcases either with after | before
    · cases kind : roles (chunkBase ptr) with
      | direct header =>
          rcases direct.places ptr header kind with there | there | there <;>
            simp [there, NodePlace.InFlight] at after
      | unused => simp [unused ptr kind, NodePlace.InFlight] at after
      | idle cache => simp [kind, BlockKind.IsChunk] at rolesOutside
      | loose => simp [kind, BlockKind.IsChunk] at rolesOutside
      | slab heap classIdx => simp [kind, BlockKind.IsChunk] at rolesOutside
      | span heap => simp [kind, BlockKind.IsChunk] at rolesOutside
    · have present : g.node ptr ≠ .none := by
        intro absent
        simp [absent, NodePlace.InFlight] at before
      cases kind : g.kind (chunkBase ptr) with
      | direct header =>
          rcases core.objects.direct.places ptr header kind with there | there | there <;>
            simp [there, NodePlace.InFlight] at before
      | unused => simpa [kind, BlockKind.HoldsObjects] using core.objects.scope ptr present
      | idle cache => simp [kind, BlockKind.IsChunk] at outside
      | loose => simp [kind, BlockKind.IsChunk] at outside
      | slab heap classIdx => simp [kind, BlockKind.IsChunk] at outside
      | span heap => simp [kind, BlockKind.IsChunk] at outside
  have moves : ∀ ptr fly, fly.InFlight → (place ptr = fly ↔ g.node ptr = fly) := by
    intro ptr fly inFlight
    constructor
    · intro there
      rw [← (nodes ptr (flying ptr (Or.inl (by rwa [there])))).1]
      exact there
    · intro there
      rw [(nodes ptr (flying ptr (Or.inr (by rwa [there])))).1]
      exact there
  have chunkKind : ∀ ptr fly, fly.InFlight → place ptr = fly →
      g.node ptr = fly ∧ roles (chunkBase ptr) = g.kind (chunkBase ptr) := by
    intro ptr fly inFlight there
    exact ⟨(moves ptr fly inFlight).mp there,
      same _ (Or.inl (flying ptr (Or.inl (by rwa [there]))))⟩
  refine
    { leaves := by rw [frame.env]; exact core.leaves
      geom := geom
      vmm := vmm_inv_direct core.vmm same frame
      header := ⟨?_, ?_, headers⟩
      rtree := rtree
      lists := ?_
      current := ?_
      slabs := ?_
      spanList := ?_
      spans := ?_
      mail := ?_
      objects := ⟨⟨?_, ?_, ?_⟩, direct, ?_, ⟨?_, ?_, ?_⟩, ?_, kept⟩
      recorded := ?_ }
  · intro base tlh classIdx isSlab
    have before := (slabIff base tlh classIdx).mp isSlab
    rw [checksumOk, frame.header base (by simp [before, BlockKind.IsChunk])]
    exact core.header.slab base tlh classIdx before
  · intro base tlh isSpan
    have before := (spanIff base tlh).mp isSpan
    rw [frame.header base (by simp [before, BlockKind.IsChunk])]
    exact core.header.span base tlh before
  · intro tlh classIdx spot listed
    rw [frame.bins, frame.slabLinks]
    apply doubly_congr (core.lists tlh classIdx spot listed)
    · exact fun _ _ => rfl
    · exact fun _ _ => rfl
    · intro slab
      exact exists_congr fun base => by rw [slabIff]
  · intro tlh classIdx
    rw [frame.bins, frame.slabLinks]
    apply current_at_congr (core.current tlh classIdx)
    · exact fun _ _ => ⟨rfl, rfl⟩
    · intro slab
      exact exists_congr fun base => by rw [slabIff]
  · intro base tlh classIdx isSlab
    have before := (slabIff base tlh classIdx).mp isSlab
    rw [frame.slab, frame.secret, frame.mem]
    apply slab_ok_congr (core.slabs base tlh classIdx before)
    · rintro block rfl
      exact (nodes block (by simp [before, BlockKind.IsChunk])).1
    · exact fun _ _ _ => rfl
  · intro tlh
    rw [frame.spanLinks, frame.activeSpans]
    apply doubly_congr (core.spanList tlh)
    · exact fun _ _ => rfl
    · exact fun _ _ => rfl
    · intro span
      exact exists_congr fun base => by rw [spanIff]
  · intro base tlh isSpan
    have before := (spanIff base tlh).mp isSpan
    rw [frame.span]
    apply span_ok_congr (core.spans base tlh before)
    rintro ptr rfl
    exact (nodes ptr (by simp [before, BlockKind.IsChunk])).1
  · rw [frame.remoteFreeHead, frame.outgoingBatch, frame.mem]
    exact mail_inv_congr core.mail (fun ptr tlh => moves ptr (.mail tlh) trivial)
      (fun ptr tlh => moves ptr (.batch tlh) trivial)
      (fun ptr tlh => moves ptr (.reaping tlh) trivial) fun _ _ => rfl
  · intro ptr tlh there
    obtain ⟨before, kinds⟩ := chunkKind ptr (.batch tlh) trivial there
    rw [frame.outgoingBatch]
    exact (congrArg BlockKind.owner kinds).trans (core.objects.owners.batch ptr tlh before)
  · intro ptr tlh there
    obtain ⟨before, kinds⟩ := chunkKind ptr (.mail tlh) trivial there
    exact (congrArg BlockKind.owner kinds).trans (core.objects.owners.mail ptr tlh before)
  · intro ptr tlh there
    obtain ⟨before, kinds⟩ := chunkKind ptr (.reaping tlh) trivial there
    exact (congrArg BlockKind.owner kinds).trans (core.objects.owners.reaping ptr tlh before)
  · intro ptr present
    change (roles (chunkBase ptr)).HoldsObjects
    cases kind : roles (chunkBase ptr) with
    | direct header => trivial
    | slab heap classIdx => trivial
    | span heap => trivial
    | unused => exact absurd (unused ptr kind) present
    | idle cache =>
        have before := (same_chunks_iff same (by trivial : (BlockKind.idle cache).IsChunk)).mp kind
        have node := (nodes ptr (by simp [before, BlockKind.IsChunk])).1
        have holds := core.objects.scope ptr (by rwa [← node])
        simp [before, BlockKind.HoldsObjects] at holds
    | loose =>
        have before := (same_chunks_iff same (by trivial : BlockKind.loose.IsChunk)).mp kind
        have node := (nodes ptr (by simp [before, BlockKind.IsChunk])).1
        have holds := core.objects.scope ptr (by rwa [← node])
        simp [before, BlockKind.HoldsObjects] at holds
  · rw [frame.heaps]
    exact core.objects.heaps.nonnull
  · intro base tlh owned
    rw [frame.heaps]
    change (roles base).owner = some tlh at owned
    rw [same base (Or.inr (owner_is_chunk owned))] at owned
    exact core.objects.heaps.owner base tlh owned
  · intro ptr tlh there
    rw [frame.heaps]
    exact core.objects.heaps.batch ptr tlh (chunkKind ptr (.batch tlh) trivial there).1
  · intro resolves ptr flies
    change (place ptr).InFlight at flies
    have before : (g.node ptr).InFlight := by
      rw [(moves ptr _ flies).mp rfl]
      exact flies
    have present : g.node ptr ≠ .none := by
      intro absent
      simp [absent, NodePlace.InFlight] at before
    obtain ⟨_, bound⟩ := core_node_bound core present
    rw [lookups ptr (by omega) (flying ptr (Or.inl flies))]
    exact core.objects.registered resolves ptr before
  · intro ptr used
    change (place ptr).InUse at used
    change objectOrigin after.span after.direct ptr (roles (chunkBase ptr)) = record ptr
    by_cases isChunk : (g.kind (chunkBase ptr)).IsChunk
    · obtain ⟨node, origin⟩ := nodes ptr isChunk
      rw [node] at used
      rw [origin, ← core.recorded ptr used, same _ (Or.inl isChunk), frame.span]
      cases kind : g.kind (chunkBase ptr) with
      | direct header => simp [kind, BlockKind.IsChunk] at isChunk
      | _ => rfl
    · have outside : ¬(roles (chunkBase ptr)).IsChunk := fun is =>
        isChunk (by rwa [same _ (Or.inr is)] at is)
      cases kind : roles (chunkBase ptr) with
      | direct header => exact recorded ptr header kind used
      | unused => simp [unused ptr kind, NodePlace.InUse] at used
      | idle cache => simp [kind, BlockKind.IsChunk] at outside
      | loose => simp [kind, BlockKind.IsChunk] at outside
      | slab heap classIdx => simp [kind, BlockKind.IsChunk] at outside
      | span heap => simp [kind, BlockKind.IsChunk] at outside

/-! ## Ranges of blocks -/

/-- A range of blocks that a direct object can have. -/
structure DirectRange (start total : Nat) : Prop where
  aligned : start % 2097152 = 0
  positive : 0 < start
  multiple : total % 2097152 = 0
  nonempty : 0 < total
  limit : start + total ≤ 2 ^ 48

def InBlocks (start total base : Nat) : Prop :=
  base % 2097152 = 0 ∧ start ≤ base ∧ base < start + total

instance (start total base : Nat) : Decidable (InBlocks start total base) :=
  inferInstanceAs (Decidable (_ ∧ _ ∧ _))

def blockRoles (kind : Nat → BlockKind) (start total : Nat) (role : BlockKind) (base : Nat) :
    BlockKind :=
  if InBlocks start total base then role else kind base

variable {start total base : Nat} {role : BlockKind} {kind : Nat → BlockKind}

theorem block_roles_inside (inside : InBlocks start total base) :
    blockRoles kind start total role base = role := if_pos inside

theorem block_roles_outside (outside : ¬InBlocks start total base) :
    blockRoles kind start total role base = kind base := if_neg outside

theorem in_blocks_index (range : DirectRange start total) :
    InBlocks start total base ↔ ∃ index, base = start + index * 2097152 ∧
      index * 2097152 < total := by
  have aligned := range.aligned
  constructor
  · rintro ⟨multiple, lower, upper⟩
    exact ⟨(base - start) / 2097152, by omega, by omega⟩
  · rintro ⟨index, rfl, inside⟩
    exact ⟨by omega, by omega, by omega⟩

theorem in_blocks_chunk_base (range : DirectRange start total) {address : Nat} :
    InBlocks start total (chunkBase address) ↔ start ≤ address ∧ address < start + total := by
  obtain ⟨aligned, _, multiple, _, limit⟩ := range
  clear limit
  simp only [InBlocks, chunkBase, lzHugePageSize]
  omega

theorem in_blocks_end (range : DirectRange start total) (inside : InBlocks start total base) :
    base + 2097152 ≤ start + total := by
  obtain ⟨aligned, _, multiple, _, limit⟩ := range
  obtain ⟨baseAligned, lower, upper⟩ := inside
  clear limit
  omega

theorem same_chunks_block_roles (before : ∀ base, InBlocks start total base → ¬(kind base).IsChunk)
    (outside : ¬role.IsChunk) : SameChunks kind (blockRoles kind start total role) := by
  intro base isChunk
  apply block_roles_outside
  intro inside
  rw [block_roles_inside inside] at isChunk
  exact isChunk.elim (before base inside) outside

/-! ## Mapping -/

theorem geom_direct_header {regions : List (Nat × Nat)} {direct : Nat → DirectInfo}
    {directs : List Nat} (inv : GeomInv regions direct directs kind) {header : Nat}
    (member : header ∈ directs) : kind header = .direct header := by
  have nonempty := (inv.directSize header member).2
  simpa using inv.directBlock header member 0 (by simpa using nonempty)

theorem geom_inv_map_direct {regions : List (Nat × Nat)} {direct : Nat → DirectInfo}
    {directs : List Nat} (inv : GeomInv regions direct directs kind)
    (range : DirectRange start total)
    (mapped : ∀ address, start ≤ address → address < start + total → Mapped regions address)
    (unused : ∀ base, InBlocks start total base → kind base = .unused) (size : Nat) :
    GeomInv regions (Function.update direct start ⟨total, size⟩) (start :: directs)
      (blockRoles kind start total (.direct start)) := by
  have first : InBlocks start total start :=
    ⟨range.aligned, le_rfl, Nat.lt_add_of_pos_right range.nonempty⟩
  have apart : ∀ header ∈ directs, header ≠ start := by
    rintro header member rfl
    have isDirect := geom_direct_header inv member
    rw [unused header first] at isDirect
    cases isDirect
  refine ⟨?_, ?_, ?_, ?_, ?_, ?_⟩
  · intro base there
    by_cases inside : InBlocks start total base
    · have finish := in_blocks_end range inside
      have positive := range.positive
      have limit := range.limit
      obtain ⟨multiple, lower, _⟩ := inside
      exact ⟨multiple, by omega, by omega⟩
    · rw [block_roles_outside inside] at there
      exact inv.placed base there
  · intro base there address lower upper
    by_cases inside : InBlocks start total base
    · have finish := in_blocks_end range inside
      obtain ⟨_, first, _⟩ := inside
      exact mapped address (by omega) (by omega)
    · rw [block_roles_outside inside] at there
      exact inv.mapped base there address lower upper
  · intro header member index bound
    rcases List.mem_cons.mp member with rfl | member
    · rw [Function.update_self] at bound
      exact block_roles_inside ((in_blocks_index range).mpr ⟨index, rfl, bound⟩)
    · rw [Function.update_of_ne (apart header member)] at bound
      have isDirect := inv.directBlock header member index bound
      rw [block_roles_outside]
      · exact isDirect
      · intro inside
        rw [unused _ inside] at isDirect
        cases isDirect
  · intro header member
    rcases List.mem_cons.mp member with rfl | member
    · rw [Function.update_self]
      exact ⟨range.multiple, range.nonempty⟩
    · rw [Function.update_of_ne (apart header member)]
      exact inv.directSize header member
  · intro base header isDirect
    by_cases inside : InBlocks start total base
    · rw [block_roles_inside inside] at isDirect
      cases isDirect
      rw [Function.update_self]
      exact ⟨List.mem_cons_self, (in_blocks_index range).mp inside⟩
    · rw [block_roles_outside inside] at isDirect
      obtain ⟨member, position⟩ := inv.directOf base header isDirect
      rw [Function.update_of_ne (apart header member)]
      exact ⟨List.mem_cons_of_mem start member, position⟩
  · exact List.nodup_cons.mpr ⟨fun member => apart start member rfl, inv.nodup⟩

theorem rtree_inv_blocks {metadata : Nat} (inv : RtreeInv (LeavesGranted s) s.rtree kind)
    (range : DirectRange start total) (registers : ∀ base, role.header base = metadata) :
    RtreeInv (LeavesGranted (lzRtreeSetRange s start total metadata))
      (lzRtreeSetRange s start total metadata).rtree (blockRoles kind start total role) := by
  obtain ⟨aligned, positive, multiple, nonempty, limit⟩ := id range
  have length : total / 2097152 * 2097152 = total :=
    Nat.div_mul_cancel (Nat.dvd_of_mod_eq_zero multiple)
  rw [lz_rtree_set_range_eq s start metadata multiple]
  constructor
  · intro address bound
    by_cases inside : start ≤ address ∧ address < start + total
    · rw [block_roles_inside ((in_blocks_chunk_base range).mpr inside), registers]
      apply And.left
      apply lz_rtree_get_set_blocks_inside aligned (by rwa [length]) inside.1
      rw [length]
      exact inside.2
    · rw [block_roles_outside (fun there => inside ((in_blocks_chunk_base range).mp there)),
        lz_rtree_get_set_blocks_outside aligned (by rwa [length]) bound (by rwa [length])]
      exact inv.sound address bound
  · intro granted address bound holds
    by_cases inside : start ≤ address ∧ address < start + total
    · rw [block_roles_inside ((in_blocks_chunk_base range).mpr inside), registers]
      apply (lz_rtree_get_set_blocks_inside aligned (by rwa [length]) inside.1 _).2 granted
      rw [length]
      exact inside.2
    · have outside : ¬InBlocks start total (chunkBase address) :=
        fun there => inside ((in_blocks_chunk_base range).mp there)
      rw [block_roles_outside outside] at holds ⊢
      rw [lz_rtree_get_set_blocks_outside aligned (by rwa [length]) bound (by rwa [length])]
      exact inv.complete (leaves_granted_blocks granted) address bound holds

theorem lz_rtree_set_range_lookup {metadata address : Nat} (range : DirectRange start total)
    (bound : address < 2 ^ 48) (outside : ¬InBlocks start total (chunkBase address)) :
    lzRtreeGet (lzRtreeSetRange s start total metadata).rtree address =
      lzRtreeGet s.rtree address := by
  have length : total / 2097152 * 2097152 = total :=
    Nat.div_mul_cancel (Nat.dvd_of_mod_eq_zero range.multiple)
  rw [lz_rtree_set_range_eq s start metadata range.multiple]
  apply lz_rtree_get_set_blocks_outside range.aligned (by rw [length]; exact range.limit) bound
  rw [length]
  exact fun inside => outside ((in_blocks_chunk_base range).mpr inside)

theorem lz_rtree_set_range_only (range : DirectRange start total) (metadata : Nat) :
    lzRtreeSetRange s start total metadata =
      { s with
        rtree := (lzRtreeSetRange s start total metadata).rtree
        leafCalls := (lzRtreeSetRange s start total metadata).leafCalls } := by
  rw [lz_rtree_set_range_eq s start metadata range.multiple]
  exact set_blocks_eq s start metadata (total / 2097152)

theorem direct_inv_map {direct : Nat → DirectInfo} {node : Nat → NodePlace} {offset size : Nat}
    (inv : DirectInv direct kind node) (range : DirectRange start total)
    (known : ∀ base header, kind base = .direct header → header ≠ start)
    (empty : ∀ ptr, InBlocks start total (chunkBase ptr) → node ptr = .none)
    (behind : 128 ≤ offset) (inside : offset < total) (aligned : offset % 16 = 0)
    (fits : size < 2 ^ 63 → offset + size ≤ total) :
    DirectInv (Function.update direct start ⟨total, size⟩)
      (blockRoles kind start total (.direct start))
      (Function.update node (start + offset) .live) := by
  have startAligned := range.aligned
  have here : InBlocks start total (chunkBase (start + offset)) :=
    (in_blocks_chunk_base range).mpr ⟨by omega, by omega⟩
  have inRange : ∀ ptr header, blockRoles kind start total (.direct start) (chunkBase ptr) =
      .direct header → Function.update node (start + offset) .live ptr ≠ .none →
      (ptr = start + offset ∧ header = start) ∨
        (header ≠ start ∧ kind (chunkBase ptr) = .direct header ∧ node ptr ≠ .none) := by
    intro ptr header isDirect present
    by_cases new : ptr = start + offset
    · left
      rw [new, block_roles_inside here] at isDirect
      cases isDirect
      exact ⟨new, rfl⟩
    · right
      rw [Function.update_of_ne new] at present
      have outside : ¬InBlocks start total (chunkBase ptr) := fun there => present (empty ptr there)
      rw [block_roles_outside outside] at isDirect
      exact ⟨known _ header isDirect, isDirect, present⟩
  refine ⟨?_, ?_, ?_, ?_⟩
  · intro ptr header present isDirect
    rcases inRange ptr header isDirect present with ⟨rfl, rfl⟩ | ⟨other, before, there⟩
    · simp only [Function.update_self]
      exact ⟨by omega, by omega, by omega⟩
    · rw [Function.update_of_ne other]
      exact inv.inside ptr header there before
  · intro ptr header present isDirect
    rcases inRange ptr header isDirect present with ⟨rfl, rfl⟩ | ⟨other, before, there⟩
    · simp only [Function.update_self]
      intro short
      have length := fits short
      omega
    · rw [Function.update_of_ne other]
      exact inv.fits ptr header there before
  · intro left right header leftPresent rightPresent leftDirect rightDirect
    rcases inRange left header leftDirect leftPresent with ⟨rfl, rfl⟩ | ⟨other, before, there⟩
    · rcases inRange right header rightDirect rightPresent with ⟨rfl, _⟩ | ⟨different, _, _⟩
      · rfl
      · exact absurd rfl different
    · rcases inRange right header rightDirect rightPresent with ⟨_, rfl⟩ | ⟨_, after, present⟩
      · exact absurd rfl other
      · exact inv.single left right header there present before after
  · intro ptr header isDirect
    by_cases new : ptr = start + offset
    · rw [new, Function.update_self]
      exact Or.inr (Or.inl rfl)
    · rw [Function.update_of_ne new]
      by_cases inside : InBlocks start total (chunkBase ptr)
      · exact Or.inl (empty ptr inside)
      · rw [block_roles_outside inside] at isDirect
        exact inv.places ptr header isDirect

/-- `after` is `s` with the range registered as `metadata`. -/
structure Registered (s after : State) (start total metadata : Nat) : Prop where
  only : after = { s with rtree := after.rtree, leafCalls := after.leafCalls }
  lookup : ∀ address < 2 ^ 48, ¬InBlocks start total (chunkBase address) →
    lzRtreeGet after.rtree address = lzRtreeGet s.rtree address
  inv : ∀ (kind : Nat → BlockKind) (role : BlockKind), RtreeInv (LeavesGranted s) s.rtree kind →
    (∀ base, role.header base = metadata) →
      RtreeInv (LeavesGranted after) after.rtree (blockRoles kind start total role)

theorem lz_rtree_set_range_registered (range : DirectRange start total) (metadata : Nat) :
    Registered s (lzRtreeSetRange s start total metadata) start total metadata :=
  ⟨lz_rtree_set_range_only range metadata,
    fun _ bound outside => lz_rtree_set_range_lookup range bound outside,
    fun _ _ inv registers => rtree_inv_blocks inv range registers⟩

/-- A mapped range without roles becomes a direct object. -/
theorem core_map_direct (core : Core mode s g) (range : DirectRange start total)
    (mapped : ∀ address, start ≤ address → address < start + total → Mapped s.regions address)
    (unused : ∀ base, InBlocks start total base → g.kind base = .unused) {offset size : Nat}
    (behind : 128 ≤ offset) (inside : offset < total) (aligned : offset % 16 = 0)
    (fits : size < 2 ^ 63 → offset + size ≤ total)
    (registered : Registered (writeDirect s start total size) after start total start) :
    Core mode after
      { g with
        kind := blockRoles g.kind start total (.direct start)
        node := Function.update g.node (start + offset) .live
        record := Function.update g.record (start + offset) (.direct size) } := by
  have notChunk : ∀ base, InBlocks start total base → ¬(g.kind base).IsChunk := by
    intro base there isChunk
    simp [unused base there, BlockKind.IsChunk] at isChunk
  have first : InBlocks start total start :=
    ⟨range.aligned, le_rfl, Nat.lt_add_of_pos_right range.nonempty⟩
  have empty : ∀ ptr, InBlocks start total (chunkBase ptr) → g.node ptr = .none := by
    intro ptr there
    by_contra present
    have holds := core.objects.scope ptr present
    simp [unused _ there, BlockKind.HoldsObjects] at holds
  have here : InBlocks start total (chunkBase (start + offset)) :=
    (in_blocks_chunk_base range).mpr ⟨by omega, by omega⟩
  have known : ∀ base header, g.kind base = .direct header → header ≠ start := by
    rintro base header isDirect rfl
    obtain ⟨member, _⟩ := core.geom.directOf base header isDirect
    have isHeader := geom_direct_header core.geom member
    rw [unused header first] at isHeader
    cases isHeader
  have outside : ∀ ptr, ¬InBlocks start total (chunkBase ptr) → ptr ≠ start + offset := by
    rintro ptr there rfl
    exact there here
  have geom := geom_inv_map_direct core.geom range mapped unused size
  have rtree := registered.inv g.kind (.direct start) core.rtree fun _ => rfl
  rw [registered.only] at rtree ⊢
  have headers : ∀ base, (g.kind base).IsChunk → base ≠ start := by
    rintro base isChunk rfl
    exact notChunk base first isChunk
  refine core_direct core (same_chunks_block_roles notChunk (by simp [BlockKind.IsChunk])) ?_ ?_
    geom ?_ ?_ ?_ (direct_inv_map core.objects.direct range known empty behind inside aligned fits)
    ?_ ?_ ?_
  · refine ⟨rfl, rfl, rfl, rfl, rfl, rfl, rfl, rfl, rfl, rfl, rfl, rfl, rfl, rfl, rfl, ?_, ?_⟩
    · intro base isChunk
      exact Function.update_of_ne (headers base isChunk) _ _
    · intro base isChunk
      exact Function.update_of_ne (headers base isChunk) _ _
  · intro ptr isChunk
    have other := outside ptr fun there => notChunk _ there isChunk
    exact ⟨Function.update_of_ne other _ _, Function.update_of_ne other _ _⟩
  · intro header isDirect
    by_cases there : InBlocks start total header
    · rw [block_roles_inside there] at isDirect
      cases isDirect
      simp [writeDirect, magicOk, directHeader]
    · rw [block_roles_outside there] at isDirect
      have other := known header header isDirect
      simp only [writeDirect, magicOk, Function.update_of_ne other]
      exact core.header.direct header isDirect
  · exact rtree
  · intro address bound isChunk
    exact registered.lookup address bound fun there => notChunk _ there isChunk
  · intro ptr isUnused
    have other : ¬InBlocks start total (chunkBase ptr) := by
      intro there
      rw [block_roles_inside there] at isUnused
      cases isUnused
    rw [block_roles_outside other] at isUnused
    rw [Function.update_of_ne (outside ptr other)]
    by_contra present
    have holds := core.objects.scope ptr present
    simp [isUnused, BlockKind.HoldsObjects] at holds
  · intro kept ptr
    by_cases new : ptr = start + offset
    · simp [new]
    · rw [Function.update_of_ne new]
      exact core.objects.noLeaks kept ptr
  · intro ptr header isDirect used
    by_cases new : ptr = start + offset
    · rw [new, block_roles_inside here] at isDirect
      cases isDirect
      simp [writeDirect, new]
    · rw [Function.update_of_ne new] at used ⊢
      have present : g.node ptr ≠ .none := by
        intro absent
        simp [absent, NodePlace.InUse] at used
      have other : ¬InBlocks start total (chunkBase ptr) := fun there => present (empty ptr there)
      rw [block_roles_outside other] at isDirect
      simp only [writeDirect, Function.update_of_ne (known _ header isDirect)]
      have origin := core.recorded ptr used
      rwa [isDirect] at origin

theorem inv_direct {place : Nat → NodePlace} {record : Nat → Origin} (inv : Inv mode s g)
    (core : Core mode after { g with kind := roles, node := place, record := record })
    (same : SameChunks g.kind roles) (slabs : after.slab = s.slab) :
    Inv mode after { g with kind := roles, node := place, record := record } := by
  refine { core with filled := ?_ }
  intro chunk tlh classIdx isSlab
  rw [slabs]
  have isChunk : (BlockKind.slab tlh classIdx).IsChunk := trivial
  exact inv.filled chunk tlh classIdx ((same_chunks_iff same isChunk).mp isSlab)

theorem direct_total_multiple (offset size : Nat) : directTotal offset size % 2097152 = 0 :=
  Nat.mod_eq_zero_of_dvd (lz_align_up_dvd _ (by decide))

theorem direct_total_lt (offset size : Nat) : directTotal offset size < 2 ^ 64 := by
  simp only [directTotal, lzHugePageSize, lz_align_up_huge]
  exact Nat.lt_of_le_of_lt (Nat.sub_le _ _) (Nat.mod_lt _ (by norm_num))

/-- Without wrap-around the mapping is long enough for the payload. -/
theorem direct_total_fits {offset size : Nat} (offsetBound : offset ≤ 2 ^ 63)
    (sizeBound : size < 2 ^ 63) (nonempty : directTotal offset size ≠ 0) :
    offset + size ≤ directTotal offset size := by
  have sum : (offset + size) % 2 ^ 64 = offset + size := Nat.mod_eq_of_lt (by omega)
  simp only [directTotal, sum, lzHugePageSize] at nonempty ⊢
  by_cases small : offset + size + (2097152 - 1) < 2 ^ 64
  · exact lz_align_up_le (by norm_num) small
  · apply absurd _ nonempty
    rw [lz_align_up_huge]
    omega

/-- The mapping holds the payload and at least one byte of it; a total that
wrapped to nothing ends the process before the pointer is returned. -/
def PayloadFits (offset size : Nat) : Prop :=
  directTotal offset size = 0 ∨ offset + max size 1 ≤ directTotal offset size

instance (offset size : Nat) : Decidable (PayloadFits offset size) :=
  inferInstanceAs (Decidable (_ ∨ _))

structure MapsDirect (s after : State) (last : Ghost) (ptr size header : Nat) : Prop where
  directs : after.directs = header :: s.directs
  here : (after.direct header).size = size ∧ size < 2 ^ 63
  elsewhere : ∀ other, other ≠ header → after.direct other = s.direct other
  kind : last.kind (chunkBase ptr) = .direct header

/-- The direct path of an allocation. -/
theorem inv_map_direct (inv : Inv mode s g) {offset size ptr : Nat} (behind : 128 ≤ offset)
    (aligned : offset % 16 = 0) (fits : PayloadFits offset size)
    (done : mapDirect s offset size = some (ptr, after)) :
    SameThreads { s with direct := after.direct, directs := after.directs } after ∧
      ∃ last, Inv mode after last ∧ Steady g last ∧
        ((ptr = 0 ∧ Quiet g last ∧ SameThreads s after) ∨
          (ptr ≠ 0 ∧ Allocated g last ptr (.direct size) ∧
            ∃ header, MapsDirect s after last ptr size header)) := by
  unfold mapDirect at done
  rcases lz_sys_alloc_huge_aligned_cases s (direct_total_multiple offset size)
    (direct_total_lt offset size) with failed | ⟨start, mapped, result, maps⟩
  · simp only [failed, Option.some.injEq, Prod.mk.injEq] at done
    obtain ⟨rfl, rfl⟩ := done
    have same : Inv mode { s with regionCalls := s.regionCalls + 1 } g :=
      { inv.toCore with filled := inv.filled }
    exact ⟨rfl, g, same, steady_refl g, Or.inl ⟨rfl, quiet_refl g, rfl⟩⟩
  · simp only [result] at done
    have known : Mapped mapped.regions start := by
      by_contra absent
      rw [if_neg absent] at done
      cases done
    rw [if_pos known] at done
    simp only [Option.some.injEq, Prod.mk.injEq] at done
    obtain ⟨pointer, rfl⟩ := done
    -- A length that wrapped to nothing leaves nothing mapped.
    have nonempty : directTotal offset size ≠ 0 := by
      intro nothing
      rw [maps.mapped, nothing] at known
      rcases known with before | inRange
      · exact maps.freshStart before
      · omega
    have room := fits.resolve_left nonempty
    have multiple := direct_total_multiple offset size
    generalize directTotal offset size = total at *
    have limit := maps.bound
    have range : DirectRange start total :=
      ⟨maps.aligned, maps.positive, multiple, Nat.pos_of_ne_zero nonempty, maps.bound⟩
    have unused : ∀ base, InBlocks start total base → g.kind base = .unused :=
      fun base there => maps_fresh_unused inv.toCore maps there.2.1 there.2.2
    have inRange : InBlocks start total (chunkBase (start + offset)) :=
      (in_blocks_chunk_base range).mpr ⟨by omega, by omega⟩
    have registered := @lz_rtree_set_range_registered (writeDirect mapped start total size) start
      total range start
    have core := core_map_direct (core_maps_fresh inv.toCore maps) range
      (fun address lower upper => (maps.mapped address).mpr (Or.inr ⟨lower, upper⟩)) unused behind
      (by omega) aligned (fun _ => by omega) registered
    have same : SameChunks g.kind (blockRoles g.kind start total (.direct start)) := by
      apply same_chunks_block_roles
      · intro base there isChunk
        simp [unused base there, BlockKind.IsChunk] at isChunk
      · simp [BlockKind.IsChunk]
    have absent : g.node (start + offset) = .none := by
      by_contra present
      have holds := inv.objects.scope _ present
      rw [unused _ inRange] at holds
      exact holds
    subst pointer
    generalize lzRtreeSetRange (writeDirect mapped start total size) start total start = after at *
    have rest := registered.only
    have others : mapped.direct = s.direct ∧ mapped.directs = s.directs := by
      rw [maps.rest]
      exact ⟨rfl, rfl⟩
    refine ⟨?_, _, inv_direct inv core same ?_, ⟨rfl, ?_⟩, Or.inr ⟨?_, ?_, start, ?_⟩⟩
    · rw [rest, writeDirect, maps.rest]
      rfl
    · rw [rest, writeDirect, maps.rest]
    · intro chunk loose
      by_cases there : InBlocks start total chunk
      · simp [block_roles_inside there] at loose
      · simpa [block_roles_outside there] using loose
    · have positive := maps.positive
      omega
    · have unusedPlace : ¬(g.node (start + offset)).InUse := by simp [absent, NodePlace.InUse]
      have allocated := @allocate_allocated g (start + offset) (.direct size) unusedPlace
      exact ⟨allocated.fresh, allocated.live, allocated.leaked, allocated.flying,
        allocated.reaping, allocated.record⟩
    · rw [rest]
      refine ⟨?_, ⟨?_, by omega⟩, ?_, block_roles_inside inRange⟩
      · simp only [writeDirect, others.2]
      · simp only [writeDirect, Function.update_self]
      · intro other different
        simp only [writeDirect, Function.update_of_ne different, others.1]

/-! ## Unmapping -/

theorem direct_range (core : Core mode s g) {header : Nat} (member : header ∈ s.directs) :
    DirectRange header (s.direct header).totalBytes := by
  obtain ⟨multiple, nonempty⟩ := core.geom.directSize header member
  have first := geom_direct_header core.geom member
  obtain ⟨aligned, positive, _⟩ := core.geom.placed header (by simp [first])
  refine ⟨aligned, positive, multiple, nonempty, ?_⟩
  -- The last block of the mapping is below the limit.
  have final : g.kind
      (header + ((s.direct header).totalBytes / 2097152 - 1) * 2097152) ≠ .unused := by
    rw [core.geom.directBlock header member _ (by omega)]
    simp
  obtain ⟨_, _, limit⟩ := core.geom.placed _ final
  generalize (s.direct header).totalBytes = total at *
  have length : (total / 2097152 - 1) * 2097152 + 2097152 = total := by
    clear limit
    omega
  rwa [Nat.add_assoc, length] at limit

theorem direct_in_blocks (core : Core mode s g) {header : Nat} (member : header ∈ s.directs) :
    g.kind base = .direct header ↔ InBlocks header (s.direct header).totalBytes base := by
  rw [in_blocks_index (direct_range core member)]
  constructor
  · intro isDirect
    exact (core.geom.directOf base header isDirect).2
  · rintro ⟨index, rfl, bound⟩
    exact core.geom.directBlock header member index bound

theorem geom_inv_unmap_direct (core : Core mode s g) {header : Nat} (member : header ∈ s.directs) :
    GeomInv (munmap s header (s.direct header).totalBytes).regions s.direct
      (s.directs.erase header)
      (blockRoles g.kind header (s.direct header).totalBytes .unused) := by
  have range := direct_range core member
  have inBlocks := fun base => @direct_in_blocks mode s g base core header member
  have geom := core.geom
  generalize (s.direct header).totalBytes = total at *
  have used : ∀ base, blockRoles g.kind header total .unused base ≠ .unused →
      ¬InBlocks header total base ∧ g.kind base ≠ .unused := by
    intro base there
    by_cases inside : InBlocks header total base
    · exact absurd (block_roles_inside inside) there
    · rw [block_roles_outside inside] at there
      exact ⟨inside, there⟩
  refine ⟨?_, ?_, ?_, ?_, ?_, geom.nodup.erase header⟩
  · intro base there
    exact geom.placed base (used base there).2
  · intro base there address lower upper
    obtain ⟨outside, before⟩ := used base there
    obtain ⟨aligned, _, _⟩ := geom.placed base before
    rw [mapped_munmap]
    refine ⟨geom.mapped base before address lower upper, fun inside => outside ?_⟩
    have block : chunkBase address = base := by
      simp only [chunkBase, lzHugePageSize]
      omega
    rw [← block]
    exact (in_blocks_chunk_base range).mpr inside
  · intro other there index bound
    obtain ⟨different, known⟩ := geom.nodup.mem_erase_iff.mp there
    have isDirect := geom.directBlock other known index bound
    rw [block_roles_outside]
    · exact isDirect
    · intro inside
      rw [(inBlocks _).mpr inside] at isDirect
      cases isDirect
      exact different rfl
  · intro other there
    exact geom.directSize other (List.mem_of_mem_erase there)
  · intro base other isDirect
    obtain ⟨outside, _⟩ := used base (by simp [isDirect])
    rw [block_roles_outside outside] at isDirect
    obtain ⟨known, position⟩ := geom.directOf base other isDirect
    refine ⟨geom.nodup.mem_erase_iff.mpr ⟨?_, known⟩, position⟩
    rintro rfl
    exact outside ((inBlocks base).mp isDirect)

theorem direct_inv_unmap {direct : Nat → DirectInfo} {node : Nat → NodePlace} {ptr : Nat}
    (inv : DirectInv direct kind node) :
    DirectInv direct (blockRoles kind start total .unused) (Function.update node ptr .none) := by
  have before : ∀ other header, blockRoles kind start total .unused (chunkBase other) =
      .direct header → kind (chunkBase other) = .direct header := by
    intro other header isDirect
    by_cases inside : InBlocks start total (chunkBase other)
    · rw [block_roles_inside inside] at isDirect
      cases isDirect
    · rwa [block_roles_outside inside] at isDirect
  have present : ∀ other, Function.update node ptr .none other ≠ .none → node other ≠ .none := by
    intro other there
    by_cases same : other = ptr
    · rw [same, Function.update_self] at there
      exact absurd rfl there
    · rwa [Function.update_of_ne same] at there
  refine ⟨?_, ?_, ?_, ?_⟩
  · intro other header there isDirect
    exact inv.inside other header (present other there) (before other header isDirect)
  · intro other header there isDirect
    exact inv.fits other header (present other there) (before other header isDirect)
  · intro left right header leftThere rightThere leftDirect rightDirect
    exact inv.single left right header (present left leftThere) (present right rightThere)
      (before left header leftDirect) (before right header rightDirect)
  · intro other header isDirect
    by_cases same : other = ptr
    · rw [same, Function.update_self]
      exact Or.inl rfl
    · rw [Function.update_of_ne same]
      exact inv.places other header (before other header isDirect)

theorem core_unmap_direct (core : Core mode s g) {header ptr : Nat} (live : g.node ptr = .live)
    (isDirect : g.kind (chunkBase ptr) = .direct header)
    (registered : Registered s after header (s.direct header).totalBytes 0) :
    Core mode
      { munmap after header (s.direct header).totalBytes with directs := s.directs.erase header }
      { g with
        kind := blockRoles g.kind header (s.direct header).totalBytes .unused
        node := Function.update g.node ptr .none } := by
  have member := direct_known core isDirect
  have inBlocks := fun base => @direct_in_blocks mode s g base core header member
  have geom := geom_inv_unmap_direct core member
  have rtree := registered.inv g.kind .unused core.rtree fun _ => rfl
  have notChunk : ∀ base, InBlocks header (s.direct header).totalBytes base →
      ¬(g.kind base).IsChunk := by
    intro base there isChunk
    simp [(inBlocks base).mpr there, BlockKind.IsChunk] at isChunk
  have alone : ∀ other, InBlocks header (s.direct header).totalBytes (chunkBase other) →
      other ≠ ptr → g.node other = .none := by
    intro other there different
    by_contra present
    exact different (core.objects.direct.single other ptr header present (by simp [live])
      ((inBlocks _).mpr there) isDirect)
  have kept : ∀ other, (g.kind (chunkBase other)).IsChunk → other ≠ ptr := by
    rintro other isChunk rfl
    simp [isDirect, BlockKind.IsChunk] at isChunk
  rw [registered.only] at rtree ⊢
  generalize (s.direct header).totalBytes = total at *
  refine core_direct core (same_chunks_block_roles notChunk (by simp [BlockKind.IsChunk])) ?_ ?_
    geom ?_ ?_ ?_ (direct_inv_unmap core.objects.direct) ?_ ?_ ?_
  · exact ⟨rfl, rfl, rfl, rfl, rfl, rfl, rfl, rfl, rfl, rfl, rfl, rfl, rfl, rfl, rfl,
      fun _ _ => rfl, fun _ _ => rfl⟩
  · intro other isChunk
    exact ⟨Function.update_of_ne (kept other isChunk) _ _, rfl⟩
  · intro other otherDirect
    by_cases there : InBlocks header total other
    · rw [block_roles_inside there] at otherDirect
      cases otherDirect
    · rw [block_roles_outside there] at otherDirect
      exact core.header.direct other otherDirect
  · exact rtree
  · intro address bound isChunk
    exact registered.lookup address bound fun there => notChunk _ there isChunk
  · intro other isUnused
    by_cases same : other = ptr
    · rw [same, Function.update_self]
    · rw [Function.update_of_ne same]
      by_cases there : InBlocks header total (chunkBase other)
      · exact alone other there same
      · rw [block_roles_outside there] at isUnused
        by_contra present
        have holds := core.objects.scope other present
        simp [isUnused, BlockKind.HoldsObjects] at holds
  · intro noLeaks other
    by_cases same : other = ptr
    · simp [same]
    · rw [Function.update_of_ne same]
      exact core.objects.noLeaks noLeaks other
  · intro other owner otherDirect used
    have same : other ≠ ptr := by
      rintro rfl
      simp [NodePlace.InUse] at used
    rw [Function.update_of_ne same] at used
    have outside : ¬InBlocks header total (chunkBase other) := by
      intro there
      simp [alone other there same, NodePlace.InUse] at used
    rw [block_roles_outside outside] at otherDirect
    have origin := core.recorded other used
    rwa [otherDirect] at origin

theorem inv_unmap_registered (inv : Inv mode s g) {header ptr : Nat} (live : g.node ptr = .live)
    (isDirect : g.kind (chunkBase ptr) = .direct header)
    (registered : Registered s after header (s.direct header).totalBytes 0) :
    SameThreads { s with directs := s.directs.erase header }
      { munmap after header (s.direct header).totalBytes with directs := s.directs.erase header } ∧
    ∃ last, Inv mode
        { munmap after header (s.direct header).totalBytes with directs := s.directs.erase header }
        last ∧ Released g last ptr ∧ Steady g last := by
  have member := direct_known inv.toCore isDirect
  have core := core_unmap_direct inv.toCore live isDirect registered
  have same : SameChunks g.kind
      (blockRoles g.kind header (s.direct header).totalBytes .unused) := by
    apply same_chunks_block_roles
    · intro base there isChunk
      simp [(direct_in_blocks inv.toCore member).mpr there, BlockKind.IsChunk] at isChunk
    · simp [BlockKind.IsChunk]
  have rest := registered.only
  refine ⟨?_, _, inv_direct inv core same ?_, ?_, ⟨rfl, ?_⟩⟩
  · rw [rest]
    exact rfl
  · rw [rest]
    rfl
  · have released := @settle_released g ptr .none live (by simp) (by simp)
    exact ⟨released.live, released.leaked, released.flying, released.reaping, released.record⟩
  · intro chunk loose
    by_cases there : InBlocks header (s.direct header).totalBytes chunk
    · simp [block_roles_inside there] at loose
    · simpa [block_roles_outside there] using loose

theorem inv_unmap_direct (inv : Inv mode s g) {header ptr : Nat} (live : g.node ptr = .live)
    (isDirect : g.kind (chunkBase ptr) = .direct header) :
    SameThreads { s with directs := s.directs.erase header } (unmapDirect s header) ∧
      ∃ last, Inv mode (unmapDirect s header) last ∧ Released g last ptr ∧ Steady g last := by
  have range := direct_range inv.toCore (direct_known inv.toCore isDirect)
  exact inv_unmap_registered inv live isDirect (lz_rtree_set_range_registered range 0)

/-! ## What unmapping leaves -/

/-- The direct object with this header is unmapped and deregistered, and nothing
else has changed. -/
structure Unmapped (s after : State) (header : Nat) : Prop where
  mem : after.mem = s.mem
  direct : after.direct = s.direct
  directs : ∀ other, other ∈ after.directs ↔ other ∈ s.directs ∧ other ≠ header
  regions : ∀ address, Mapped after.regions address ↔ Mapped s.regions address ∧
    ¬(header ≤ address ∧ address < header + (s.direct header).totalBytes)
  lookups : ∀ address, header ≤ address → address < header + (s.direct header).totalBytes →
    lzRtreeGet after.rtree address = 0

theorem unmapped_registered {cleared : State} {header : Nat} (nodup : s.directs.Nodup)
    (registered : Registered s cleared header (s.direct header).totalBytes 0)
    (zero : ∀ address, header ≤ address → address < header + (s.direct header).totalBytes →
      lzRtreeGet cleared.rtree address = 0) :
    Unmapped s
      { munmap cleared header (s.direct header).totalBytes with directs := s.directs.erase header }
      header := by
  have only := registered.only
  refine ⟨?_, ?_, ?_, ?_, zero⟩
  · rw [only]
    rfl
  · rw [only]
    rfl
  · intro other
    exact nodup.mem_erase_iff.trans and_comm
  · intro address
    rw [mapped_munmap, only]

theorem unmap_direct_unmapped (core : Core mode s g) {header : Nat} (member : header ∈ s.directs) :
    Unmapped s (unmapDirect s header) header := by
  have range := direct_range core member
  have aligned := range.aligned
  have multiple := range.multiple
  have limit := range.limit
  apply unmapped_registered core.geom.nodup (lz_rtree_set_range_registered range 0)
  intro address lower upper
  rw [lz_rtree_set_range_eq s header 0 multiple]
  have cleared := (@lz_rtree_get_set_blocks_inside s address 0 header
    ((s.direct header).totalBytes / 2097152) aligned (by omega) lower (by omega)).1
  exact cleared.elim id id

end Lzmalloc.DirectObjects
