import Lzmalloc.ChunkCaches
import Lzmalloc.BinLists
import Lzmalloc.RadixTree
import Lzmalloc.Mappings

/-!
# Chunks changing their role

Two rules. `core_kinds`: blocks without objects may move between the manager
and its callers; nothing else of the heap notices. `core_role`: a formatted
chunk without objects in use becomes loose, or a loose chunk becomes a slab or
span. The functions of `vmm.c` follow from the first one.
-/

namespace Lzmalloc.ChunkRoles

open SizeClasses HeapState VirtualMemoryManager PointerChain DoublyLinked ByteMemory Engines
open ThreadHeap HeapInvariant InvariantFacts BinLists ChunkCaches RadixTree Mappings

set_option autoImplicit false

variable {mode : Mode} {s after : State} {g : Ghost} {kind roles : Nat → BlockKind}
  {chunk : Nat} {role : BlockKind}

/-! ## Blocks without objects -/

theorem slab_holds {tlh classIdx base : Nat} (isSlab : kind base = .slab tlh classIdx) :
    (kind base).HoldsObjects := by
  rw [isSlab]
  trivial

theorem span_holds {tlh base : Nat} (isSpan : kind base = .span tlh) :
    (kind base).HoldsObjects := by
  rw [isSpan]
  trivial

theorem direct_holds {header base : Nat} (isDirect : kind base = .direct header) :
    (kind base).HoldsObjects := by
  rw [isDirect]
  trivial

theorem owner_holds {tlh base : Nat} (owned : (kind base).owner = some tlh) :
    (kind base).HoldsObjects := by
  cases known : kind base <;> simp_all [BlockKind.owner, BlockKind.HoldsObjects]

def SameHolders (kind roles : Nat → BlockKind) : Prop :=
  ∀ base, (kind base).HoldsObjects ∨ (roles base).HoldsObjects → roles base = kind base

theorem same_holders_iff (same : SameHolders kind roles) {base : Nat} {holder : BlockKind}
    (holds : holder.HoldsObjects) : roles base = holder ↔ kind base = holder := by
  constructor
  · intro is
    rw [← same base (Or.inr (is ▸ holds)), is]
  · intro is
    rw [same base (Or.inl (is ▸ holds)), is]

theorem same_slab (same : SameHolders kind roles) {base tlh classIdx : Nat} :
    roles base = .slab tlh classIdx ↔ kind base = .slab tlh classIdx :=
  same_holders_iff same trivial

theorem same_span (same : SameHolders kind roles) {base tlh : Nat} :
    roles base = .span tlh ↔ kind base = .span tlh :=
  same_holders_iff same trivial

theorem same_direct (same : SameHolders kind roles) {base header : Nat} :
    roles base = .direct header ↔ kind base = .direct header :=
  same_holders_iff same trivial

theorem in_bin_same_holders {bin : Nat → BinPlace} (same : SameHolders kind roles)
    (tlh classIdx : Nat) (place : BinPlace) (slab : Nat) :
    InBin roles bin tlh classIdx place slab ↔ InBin kind bin tlh classIdx place slab := by
  exact exists_congr fun base => by rw [same_slab same]

theorem object_inv_same_holders {rtree : Rtree} {outgoingBatch : Nat → Batch}
    {direct : Nat → DirectInfo} {heaps : List Nat} {node : Nat → NodePlace}
    (inv : ObjectInv mode rtree outgoingBatch direct heaps kind node)
    (same : SameHolders kind roles) :
    ObjectInv mode rtree outgoingBatch direct heaps roles node := by
  have here : ∀ ptr, node ptr ≠ .none → roles (chunkBase ptr) = kind (chunkBase ptr) :=
    fun ptr present => same _ (Or.inl (inv.scope ptr present))
  refine ⟨⟨?_, ?_, ?_⟩, ⟨?_, ?_, ?_, ?_⟩, ?_, ⟨inv.heaps.nonnull, ?_, inv.heaps.batch⟩,
    inv.registered, inv.noLeaks⟩
  · intro ptr tlh there
    rw [here ptr (by simp [there])]
    exact inv.owners.batch ptr tlh there
  · intro ptr tlh there
    rw [here ptr (by simp [there])]
    exact inv.owners.mail ptr tlh there
  · intro ptr tlh there
    rw [here ptr (by simp [there])]
    exact inv.owners.reaping ptr tlh there
  · intro ptr header present isDirect
    exact inv.direct.inside ptr header present ((same_direct same).mp isDirect)
  · intro ptr header present isDirect
    exact inv.direct.fits ptr header present ((same_direct same).mp isDirect)
  · intro left right header presentLeft presentRight directLeft directRight
    exact inv.direct.single left right header presentLeft presentRight
      ((same_direct same).mp directLeft) ((same_direct same).mp directRight)
  · intro ptr header isDirect
    exact inv.direct.places ptr header ((same_direct same).mp isDirect)
  · intro ptr present
    rw [here ptr present]
    exact inv.scope ptr present
  · intro base tlh owned
    rw [same base (Or.inr (owner_holds owned))] at owned
    exact inv.heaps.owner base tlh owned

theorem core_kinds {vmm : Vmm} (core : Core mode s g) (same : SameHolders g.kind roles)
    (geom : GeomInv s.regions s.direct s.directs roles) (vmmInv : VmmInv vmm roles)
    (headers : ∀ base, (g.kind base).HoldsObjects → vmm.header base = s.vmm.header base)
    (rtree : RtreeInv (LeavesGranted s) s.rtree roles) :
    Core mode { s with vmm := vmm } { g with kind := roles } := by
  refine { core with
    geom := geom, vmm := vmmInv, header := ⟨?_, ?_, ?_⟩, rtree := rtree, lists := ?_,
    current := ?_, slabs := ?_, spanList := ?_, spans := ?_,
    objects := object_inv_same_holders core.objects same, recorded := ?_ }
  · intro base tlh classIdx isSlab
    have before := (same_slab same).mp isSlab
    rw [checksumOk, headers base (slab_holds before)]
    exact core.header.slab base tlh classIdx before
  · intro base tlh isSpan
    have before := (same_span same).mp isSpan
    rw [headers base (span_holds before)]
    exact core.header.span base tlh before
  · intro header isDirect
    have before := (same_direct same).mp isDirect
    rw [magicOk, headers header (direct_holds before)]
    exact core.header.direct header before
  · intro tlh classIdx place listed
    exact doubly_congr (core.lists tlh classIdx place listed) (fun _ _ => rfl) (fun _ _ => rfl)
      (in_bin_same_holders same tlh classIdx place)
  · intro tlh classIdx
    exact current_at_congr (core.current tlh classIdx) (fun _ _ => ⟨rfl, rfl⟩)
      (in_bin_same_holders same tlh classIdx .inCurrent)
  · intro base tlh classIdx isSlab
    exact core.slabs base tlh classIdx ((same_slab same).mp isSlab)
  · intro tlh
    refine doubly_congr (core.spanList tlh) (fun _ _ => rfl) (fun _ _ => rfl) fun span => ?_
    exact exists_congr fun base => by rw [same_span same]
  · intro base tlh isSpan
    exact core.spans base tlh ((same_span same).mp isSpan)
  · intro ptr used
    have present : g.node ptr ≠ .none := by
      intro none
      simp [none, NodePlace.InUse] at used
    change objectOrigin s.span s.direct ptr (roles (chunkBase ptr)) = g.record ptr
    rw [same _ (Or.inl (core.objects.scope ptr present))]
    exact core.recorded ptr used

/-! ## Fresh mappings -/

theorem core_mapped (core : Core mode s g) {address : Nat}
    (used : g.kind (chunkBase address) ≠ .unused) : Mapped s.regions address :=
  core.geom.mapped _ used address (chunk_base_le address) (lt_chunk_base_add address)

theorem core_base_mapped (core : Core mode s g) {base : Nat} (used : g.kind base ≠ .unused) :
    Mapped s.regions base :=
  core.geom.mapped base used base le_rfl (by omega)

theorem maps_fresh_unused (core : Core mode s g) {start length base : Nat}
    (maps : MapsFresh s after start length) (lower : start ≤ base) (upper : base < start + length) :
    g.kind base = .unused := by
  by_contra used
  exact maps.fresh base lower upper (core_base_mapped core used)

theorem core_maps_fresh (core : Core mode s g) {start length : Nat}
    (maps : MapsFresh s after start length) : Core mode after g := by
  have headers : ∀ base, g.kind base ≠ .unused → after.vmm.header base = s.vmm.header base :=
    fun base used => maps.header base (core_base_mapped core used)
  have links : Core mode { s with mem := after.mem } g := by
    refine core_mem_outside core fun address holds => maps.mem address (core_mapped core ?_)
    intro unused
    simp [unused, BlockKind.HoldsObjects] at holds
  rw [maps.rest]
  refine { links with geom := ?_, vmm := ⟨?_, ?_, core.vmm.carved⟩, header := ⟨?_, ?_, ?_⟩ }
  · refine { core.geom with mapped := ?_ }
    intro base used address lower upper
    exact (maps.mapped address).mpr (Or.inl (core.geom.mapped base used address lower upper))
  · refine cache_inv_congr core.vmm.caches rfl rfl ?_ ?_
    · intro listed there
      refine maps.next listed (core_base_mapped core ?_)
      intro unused
      simp [unused, BlockKind.cached] at there
    · intro listed there
      refine headers listed ?_
      intro unused
      simp [unused, BlockKind.cached] at there
  · intro base taken
    have used : g.kind base ≠ .unused := by
      intro unused
      simp [unused, BlockKind.TakenOut] at taken
    simp only [magicOk, headers base used]
    exact core.vmm.takenHeader base taken
  · intro base tlh classIdx isSlab
    simp only [checksumOk, headers base (by simp [isSlab])]
    exact core.header.slab base tlh classIdx isSlab
  · intro base tlh isSpan
    simp only [headers base (by simp [isSpan])]
    exact core.header.span base tlh isSpan
  · intro header isDirect
    simp only [magicOk, headers header (by simp [isDirect])]
    exact core.header.direct header isDirect

/-! ## One chunk between the manager and its callers -/

theorem geom_inv_role {regions : List (Nat × Nat)} {direct : Nat → DirectInfo} {directs : List Nat}
    (inv : GeomInv regions direct directs kind) (before : (kind chunk).IsChunk)
    (isChunk : role.IsChunk) :
    GeomInv regions direct directs (Function.update kind chunk role) := by
  have used : kind chunk ≠ .unused := by
    intro unused
    simp [unused, BlockKind.IsChunk] at before
  have present : ∀ base, Function.update kind chunk role base ≠ .unused → kind base ≠ .unused := by
    intro base there
    by_cases same : base = chunk
    · rwa [same]
    · rwa [Function.update_of_ne same] at there
  refine ⟨fun base there => inv.placed base (present base there),
    fun base there => inv.mapped base (present base there), ?_, inv.directSize, ?_, inv.nodup⟩
  · intro header member index inside
    have isDirect := inv.directBlock header member index inside
    refine (Function.update_of_ne ?_ _ _).trans isDirect
    rintro rfl
    simp [isDirect, BlockKind.IsChunk] at before
  · intro base header isDirect
    refine inv.directOf base header ?_
    by_cases same : base = chunk
    · rw [same, Function.update_self] at isDirect
      simp [isDirect, BlockKind.IsChunk] at isChunk
    · rwa [Function.update_of_ne same] at isDirect

theorem cached_update (kind : Nat → BlockKind) (chunk : Nat) (role : BlockKind) :
    (fun each => (Function.update kind chunk role each).cached) =
      Function.update (fun each => (kind each).cached) chunk role.cached := by
  funext each
  by_cases same : each = chunk
  · simp [same]
  · simp [same]

theorem vmm_inv_role {vmm other : Vmm} (inv : VmmInv vmm kind) (before : (kind chunk).IsChunk)
    (isChunk : role.IsChunk)
    (caches : CacheInv other (Function.update (fun each => (kind each).cached) chunk role.cached))
    (here : role.TakenOut → magicOk other chunk ∧ (other.header chunk).nodeId < 16)
    (elsewhere : ∀ base, base ≠ chunk → other.header base = vmm.header base)
    (carved : other.carved = vmm.carved) : VmmInv other (Function.update kind chunk role) := by
  refine ⟨by rwa [cached_update], fun base taken => ?_, fun base => ?_⟩
  · by_cases same : base = chunk
    · subst same
      rw [Function.update_self] at taken
      exact here taken
    · rw [Function.update_of_ne same] at taken
      rw [magicOk, elsewhere base same]
      exact inv.takenHeader base taken
  · rw [carved, inv.carved base]
    by_cases same : base = chunk
    · subst same
      simp [before, isChunk]
    · rw [Function.update_of_ne same]

theorem rtree_inv_role {granted later : Prop} {rtree other : Rtree}
    (inv : RtreeInv granted rtree kind) (before : later → granted)
    (elsewhere : ∀ address < 2 ^ 48, chunkBase address ≠ chunk →
      lzRtreeGet other address = lzRtreeGet rtree address)
    (sound : ∀ address < 2 ^ 48, chunkBase address = chunk →
      lzRtreeGet other address = 0 ∨ lzRtreeGet other address = role.header chunk)
    (complete : later → role ≠ .loose → ∀ address < 2 ^ 48, chunkBase address = chunk →
      lzRtreeGet other address = role.header chunk) :
    RtreeInv later other (Function.update kind chunk role) := by
  refine ⟨fun address bound => ?_, fun mapped address bound known => ?_⟩
  · by_cases same : chunkBase address = chunk
    · rw [same, Function.update_self]
      exact sound address bound same
    · rw [Function.update_of_ne same, elsewhere address bound same]
      exact inv.sound address bound
  · by_cases same : chunkBase address = chunk
    · rw [same, Function.update_self] at known ⊢
      exact complete mapped known address bound same
    · rw [Function.update_of_ne same] at known ⊢
      rw [elsewhere address bound same]
      exact inv.complete (before mapped) address bound known

theorem same_holders_update (before : ¬(kind chunk).HoldsObjects) (empty : ¬role.HoldsObjects) :
    SameHolders kind (Function.update kind chunk role) := by
  intro base holds
  refine Function.update_of_ne ?_ _ _
  rintro rfl
  rcases holds with holds | holds
  · exact before holds
  · exact empty (by rwa [Function.update_self] at holds)

theorem core_take {place : CachePlace} (vmm : Vmm) (core : Core mode s g)
    (idle : g.kind chunk = .idle place)
    (caches : CacheInv vmm (Function.update (fun each => (g.kind each).cached) chunk none))
    (here : magicOk vmm chunk ∧ (vmm.header chunk).nodeId < 16)
    (elsewhere : ∀ base, base ≠ chunk → vmm.header base = s.vmm.header base)
    (carved : vmm.carved = s.vmm.carved) :
    Core mode { s with vmm := vmm } { g with kind := Function.update g.kind chunk .loose } := by
  have before : (g.kind chunk).IsChunk := by
    rw [idle]
    trivial
  refine core_kinds core (same_holders_update (by simp [idle, BlockKind.HoldsObjects])
    (by simp [BlockKind.HoldsObjects])) (geom_inv_role core.geom before trivial)
    (vmm_inv_role core.vmm before trivial caches (fun _ => here) elsewhere carved) ?_ ?_
  · intro base holds
    refine elsewhere base ?_
    rintro rfl
    simp [idle, BlockKind.HoldsObjects] at holds
  · refine rtree_inv_role core.rtree id (fun _ _ _ => rfl) ?_ fun _ impossible =>
      absurd rfl impossible
    intro address bound same
    have known := core.rtree.sound address bound
    rw [same, idle] at known
    exact Or.inl (known.elim id id)

theorem core_return {vmm : Vmm} {place : CachePlace} (core : Core mode s g)
    (loose : g.kind chunk = .loose)
    (cleared : ∀ address < 2 ^ 48, chunkBase address = chunk → lzRtreeGet s.rtree address = 0)
    (caches : CacheInv vmm (Function.update (fun each => (g.kind each).cached) chunk (some place)))
    (headers : vmm.header = s.vmm.header) (carved : vmm.carved = s.vmm.carved) :
    Core mode { s with vmm := vmm }
      { g with kind := Function.update g.kind chunk (.idle place) } := by
  have before : (g.kind chunk).IsChunk := by
    rw [loose]
    trivial
  refine core_kinds core (same_holders_update (by simp [loose, BlockKind.HoldsObjects])
    (by simp [BlockKind.HoldsObjects])) (geom_inv_role core.geom before trivial)
    (vmm_inv_role core.vmm before trivial caches (by simp [BlockKind.TakenOut])
      (fun base _ => by rw [headers]) carved) (fun base _ => by rw [headers]) ?_
  exact rtree_inv_role core.rtree id (fun _ _ _ => rfl)
    (fun address bound same => Or.inl (cleared address bound same))
    fun _ _ address bound same => cleared address bound same

/-! ## Formatting and releasing a chunk -/

def dropNodes (node : Nat → NodePlace) (chunk ptr : Nat) : NodePlace :=
  if chunkBase ptr = chunk then .none else node ptr

theorem drop_nodes_inside {node : Nat → NodePlace} {ptr : Nat} (inside : chunkBase ptr = chunk) :
    dropNodes node chunk ptr = .none := if_pos inside

theorem drop_nodes_outside {node : Nat → NodePlace} {ptr : Nat} (outside : chunkBase ptr ≠ chunk) :
    dropNodes node chunk ptr = node ptr := if_neg outside

theorem drop_nodes_present {node : Nat → NodePlace} {ptr : Nat} {place : NodePlace}
    (there : dropNodes node chunk ptr = place) (present : place ≠ .none) :
    chunkBase ptr ≠ chunk ∧ node ptr = place := by
  by_cases inside : chunkBase ptr = chunk
  · rw [drop_nodes_inside inside] at there
    exact absurd there.symm present
  · rw [drop_nodes_outside inside] at there
    exact ⟨inside, there⟩

def setRole (g : Ghost) (chunk : Nat) (role : BlockKind) (bin : Nat → BinPlace) : Ghost :=
  { g with
    kind := Function.update g.kind chunk role
    bin := bin
    node := dropNodes g.node chunk }

theorem object_inv_role {rtree other : Rtree} {outgoingBatch : Nat → Batch}
    {direct : Nat → DirectInfo} {heaps : List Nat} {node : Nat → NodePlace}
    (inv : ObjectInv mode rtree outgoingBatch direct heaps kind node)
    (owned : ∀ tlh, role.owner = some tlh → tlh ∈ heaps)
    (elsewhere : ∀ ptr, node ptr ≠ .none → chunkBase ptr ≠ chunk →
      lzRtreeGet other ptr = lzRtreeGet rtree ptr) :
    ObjectInv mode other outgoingBatch direct heaps (Function.update kind chunk role)
      (dropNodes node chunk) := by
  have kinds : ∀ ptr, chunkBase ptr ≠ chunk →
      Function.update kind chunk role (chunkBase ptr) = kind (chunkBase ptr) :=
    fun ptr outside => Function.update_of_ne outside _ _
  have present : ∀ ptr, dropNodes node chunk ptr ≠ .none →
      chunkBase ptr ≠ chunk ∧ node ptr ≠ .none := by
    intro ptr there
    obtain ⟨outside, same⟩ := drop_nodes_present rfl there
    exact ⟨outside, by rwa [same]⟩
  refine ⟨⟨?_, ?_, ?_⟩, ⟨?_, ?_, ?_, ?_⟩, ?_, ⟨inv.heaps.nonnull, ?_, ?_⟩, ?_, ?_⟩
  · intro ptr tlh there
    obtain ⟨outside, old⟩ := drop_nodes_present there (by simp)
    rw [kinds ptr outside]
    exact inv.owners.batch ptr tlh old
  · intro ptr tlh there
    obtain ⟨outside, old⟩ := drop_nodes_present there (by simp)
    rw [kinds ptr outside]
    exact inv.owners.mail ptr tlh old
  · intro ptr tlh there
    obtain ⟨outside, old⟩ := drop_nodes_present there (by simp)
    rw [kinds ptr outside]
    exact inv.owners.reaping ptr tlh old
  · intro ptr header there isDirect
    obtain ⟨outside, old⟩ := present ptr there
    rw [kinds ptr outside] at isDirect
    exact inv.direct.inside ptr header old isDirect
  · intro ptr header there isDirect
    obtain ⟨outside, old⟩ := present ptr there
    rw [kinds ptr outside] at isDirect
    exact inv.direct.fits ptr header old isDirect
  · intro left right header thereLeft thereRight directLeft directRight
    obtain ⟨outsideLeft, oldLeft⟩ := present left thereLeft
    obtain ⟨outsideRight, oldRight⟩ := present right thereRight
    rw [kinds left outsideLeft] at directLeft
    rw [kinds right outsideRight] at directRight
    exact inv.direct.single left right header oldLeft oldRight directLeft directRight
  · intro ptr header isDirect
    by_cases inside : chunkBase ptr = chunk
    · exact Or.inl (drop_nodes_inside inside)
    · rw [kinds ptr inside] at isDirect
      rw [drop_nodes_outside inside]
      exact inv.direct.places ptr header isDirect
  · intro ptr there
    obtain ⟨outside, old⟩ := present ptr there
    rw [kinds ptr outside]
    exact inv.scope ptr old
  · intro base tlh owner
    by_cases same : base = chunk
    · rw [same, Function.update_self] at owner
      exact owned tlh owner
    · rw [Function.update_of_ne same] at owner
      exact inv.heaps.owner base tlh owner
  · intro ptr tlh there
    exact inv.heaps.batch ptr tlh (drop_nodes_present there (by simp)).2
  · intro resolves ptr flying
    by_cases inside : chunkBase ptr = chunk
    · simp [drop_nodes_inside inside, NodePlace.InFlight] at flying
    · rw [drop_nodes_outside inside] at flying
      have old : node ptr ≠ .none := by
        intro none
        simp [none, NodePlace.InFlight] at flying
      rw [elsewhere ptr old inside]
      exact inv.registered resolves ptr flying
  · intro leakFree ptr leaked
    exact inv.noLeaks leakFree ptr (drop_nodes_present leaked (by simp)).2

structure SameObjects (s after : State) : Prop where
  env : after.env = s.env
  secret : after.secret = s.secret
  regions : after.regions = s.regions
  mem : after.mem = s.mem
  direct : after.direct = s.direct
  directs : after.directs = s.directs
  remoteFreeHead : after.remoteFreeHead = s.remoteFreeHead
  outgoingBatch : after.outgoingBatch = s.outgoingBatch
  heaps : after.heaps = s.heaps

theorem core_role {bin : Nat → BinPlace} (core : Core mode s g) (same : SameObjects s after)
    (before : (g.kind chunk).IsChunk) (isChunk : role.IsChunk)
    (empty : ∀ ptr, chunkBase ptr = chunk → ¬(g.node ptr).InUse)
    (owned : ∀ tlh, role.owner = some tlh → tlh ∈ s.heaps)
    (lookups : ∀ address < 2 ^ 48, chunkBase address ≠ chunk →
      lzRtreeGet after.rtree address = lzRtreeGet s.rtree address)
    (vmm : VmmInv after.vmm (Function.update g.kind chunk role))
    (header : HeaderInv after.vmm (Function.update g.kind chunk role))
    (rtree : RtreeInv (LeavesGranted after) after.rtree (Function.update g.kind chunk role))
    (lists : ListInv after.bins after.slabLinks (Function.update g.kind chunk role) bin)
    (current : CurrentInv after.bins after.slabLinks (Function.update g.kind chunk role) bin)
    (slabs : ∀ base, base ≠ chunk → after.slab (base + 64) = s.slab (base + 64))
    (slabHere : ∀ tlh classIdx, role = .slab tlh classIdx →
      SlabOk (after.slab (chunk + 64)) (freeLink s.secret s.mem) (dropNodes g.node chunk) chunk
        classIdx)
    (spanList : ∀ tlh, Doubly after.spanLinks (after.activeSpans tlh)
      (fun span => ∃ base, span = base + 64 ∧ Function.update g.kind chunk role base = .span tlh))
    (spans : ∀ base, base ≠ chunk → after.span (base + 64) = s.span (base + 64))
    (spanHere : ∀ tlh, role = .span tlh →
      SpanOk (after.span (chunk + 64)) (dropNodes g.node chunk) chunk) :
    Core mode after (setRole g chunk role bin) := by
  have outside : ∀ ptr place, place ≠ NodePlace.none → place.InUse →
      (dropNodes g.node chunk ptr = place ↔ g.node ptr = place) := by
    intro ptr place present used
    refine ⟨fun there => (drop_nodes_present there present).2, fun there => ?_⟩
    rw [drop_nodes_outside, there]
    intro inside
    exact empty ptr inside (by rwa [there])
  refine ⟨?_, ?_, vmm, header, rtree, lists, current, ?_, spanList, ?_, ?_, ?_, ?_⟩
  · rw [same.env]
    exact core.leaves
  · rw [same.regions, same.direct, same.directs]
    exact geom_inv_role core.geom before isChunk
  · intro base tlh classIdx isSlab
    rw [same.secret, same.mem]
    by_cases here : base = chunk
    · subst here
      exact slabHere tlh classIdx (by simpa [setRole] using isSlab)
    · have old : g.kind base = .slab tlh classIdx := by simpa [setRole, here] using isSlab
      rw [slabs base here]
      refine slab_ok_congr (core.slabs base tlh classIdx old) ?_ fun _ _ _ => rfl
      rintro block rfl
      exact drop_nodes_outside here
  · intro base tlh isSpan
    by_cases here : base = chunk
    · subst here
      exact spanHere tlh (by simpa [setRole] using isSpan)
    · have old : g.kind base = .span tlh := by simpa [setRole, here] using isSpan
      rw [spans base here]
      refine span_ok_congr (core.spans base tlh old) ?_
      rintro ptr rfl
      exact drop_nodes_outside here
  · rw [same.remoteFreeHead, same.outgoingBatch, same.mem]
    exact mail_inv_congr core.mail (fun ptr tlh => outside ptr (.mail tlh) (by simp) trivial)
      (fun ptr tlh => outside ptr (.batch tlh) (by simp) trivial)
      (fun ptr tlh => outside ptr (.reaping tlh) (by simp) trivial) fun _ _ => rfl
  · rw [same.outgoingBatch, same.direct, same.heaps]
    refine object_inv_role core.objects owned ?_
    intro ptr present elsewhere
    obtain ⟨_, bound⟩ := core_node_bound core present
    exact lookups ptr (by omega) elsewhere
  · intro ptr used
    change (dropNodes g.node chunk ptr).InUse at used
    have elsewhere : chunkBase ptr ≠ chunk := by
      intro inside
      simp [drop_nodes_inside inside, NodePlace.InUse] at used
    have old : (g.node ptr).InUse := by rwa [drop_nodes_outside elsewhere] at used
    have recorded := core.recorded ptr old
    simp only [setRole, Function.update_of_ne elsewhere]
    rw [← recorded, same.direct]
    cases known : g.kind (chunkBase ptr) with
    | span tlh => simp only [objectOrigin, spans _ elsewhere]
    | _ => rfl

end Lzmalloc.ChunkRoles
