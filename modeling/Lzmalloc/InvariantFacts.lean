import Lzmalloc.HeapInvariant

/-!
# Consequences of the representation invariant

Where objects are: inside a formatted block, at a multiple of sixteen, with
their link word inside the block. From this follow the frame rules for the
payload memory: a link word written into one object leaves every other link
alone, and bytes outside the objects that carry links do not matter at all.
-/

namespace Lzmalloc.InvariantFacts

open SizeClasses HeapState VirtualMemoryManager PointerChain DoublyLinked ByteMemory Engines
open ThreadHeap HeapInvariant

set_option autoImplicit false

variable {mode : Mode} {s : State} {g : Ghost}

/-! ## Masked and clear links -/

theorem lz_ptr_obfuscate_involutive (secret : BitVec 64) (ptr storageAddr : Nat) :
    lzPtrObfuscate secret (lzPtrObfuscate secret ptr storageAddr) storageAddr = ptr := by
  apply Nat.eq_of_testBit_eq
  intro bit
  simp only [lzPtrObfuscate, Nat.testBit_xor]
  cases ptr.testBit bit <;> cases secret.toNat.testBit bit <;>
    cases storageAddr.testBit bit <;> rfl

theorem lz_ptr_obfuscate_lt (secret : BitVec 64) {ptr storageAddr : Nat} (ptrBound : ptr < 2 ^ 64)
    (storageBound : storageAddr < 2 ^ 64) : lzPtrObfuscate secret ptr storageAddr < 2 ^ 64 :=
  Nat.xor_lt_two_pow (Nat.xor_lt_two_pow ptrBound secret.isLt) storageBound

theorem link_at_store (mem : Memory) {node value : Nat} (bound : value < 2 ^ 64) :
    linkAt (store mem node 8 value) node = value := by
  rw [linkAt, load_store]
  exact Nat.mod_eq_of_lt (by omega)

theorem link_at_store_other (mem : Memory) {node other value : Nat} (aligned : node % 16 = 0)
    (otherAligned : other % 16 = 0) (different : other ≠ node) :
    linkAt (store mem node 8 value) other = linkAt mem other := by
  apply load_congr
  intro byte lower upper
  exact store_outside mem (by omega)

theorem free_link_store (secret : BitVec 64) (mem : Memory) {node head : Nat}
    (headBound : head < 2 ^ 64) (nodeBound : node < 2 ^ 64) :
    freeLink secret (store mem node 8 (lzPtrObfuscate secret head node)) node = head := by
  rw [freeLink, link_at_store mem (lz_ptr_obfuscate_lt secret headBound nodeBound),
    lz_ptr_obfuscate_involutive]

theorem free_link_congr (secret : BitVec 64) {mem other : Memory} {node : Nat}
    (same : linkAt other node = linkAt mem node) :
    freeLink secret other node = freeLink secret mem node := by
  rw [freeLink, freeLink, same]

/-! ## Geometry of blocks and objects -/

theorem slab_block_inside {classIdx count index : Nat} (classBound : classIdx < 40)
    (bound : count ≤ (2097152 - 128) / lzClassToSize classIdx) (below : index < count) :
    128 + index * lzClassToSize classIdx + lzClassToSize classIdx ≤ 2097152 := by
  obtain ⟨_, lower, _⟩ := slab_block_size classBound
  have capacity : (index + 1) * lzClassToSize classIdx ≤ 2097152 - 128 :=
    (Nat.le_div_iff_mul_le (by omega)).mp (by omega)
  rw [Nat.add_mul, Nat.one_mul] at capacity
  omega

theorem slab_block_aligned {classIdx chunk : Nat} (index : Nat) (classBound : classIdx < 40)
    (aligned : chunk % 2097152 = 0) :
    (chunk + 128 + index * lzClassToSize classIdx) % 16 = 0 := by
  obtain ⟨divisible, _, _⟩ := slab_block_size classBound
  obtain ⟨units, unitsEq⟩ := Nat.dvd_of_mod_eq_zero divisible
  have product : index * lzClassToSize classIdx = 16 * (index * units) := by
    rw [unitsEq]
    ring
  omega

theorem slab_block_injective {classIdx chunk left right : Nat} (classBound : classIdx < 40)
    (same : chunk + 128 + left * lzClassToSize classIdx =
      chunk + 128 + right * lzClassToSize classIdx) : left = right := by
  obtain ⟨_, lower, _⟩ := slab_block_size classBound
  exact Nat.eq_of_mul_eq_mul_right (by omega) (by omega : left * lzClassToSize classIdx = _)

theorem core_placed (core : Core mode s g) {ptr : Nat} (present : g.node ptr ≠ .none) :
    chunkBase ptr % 2097152 = 0 ∧ 0 < chunkBase ptr ∧ chunkBase ptr + 2097152 ≤ 2 ^ 48 := by
  apply core.geom.placed
  have holds := core.objects.scope ptr present
  intro unused
  rw [unused] at holds
  exact holds

/-- Objects start at multiples of sixteen and their link word lies in their
own 2 MB block. -/
theorem core_node_cell (core : Core mode s g) {ptr : Nat} (present : g.node ptr ≠ .none) :
    ptr % 16 = 0 ∧ ptr + 16 ≤ chunkBase ptr + 2097152 := by
  obtain ⟨aligned, _, _⟩ := core_placed core present
  have holds := core.objects.scope ptr present
  have base := chunk_base_le ptr
  have upper := lt_chunk_base_add ptr
  cases kind : g.kind (chunkBase ptr) with
  | unused => simp [kind, BlockKind.HoldsObjects] at holds
  | idle place => simp [kind, BlockKind.HoldsObjects] at holds
  | loose => simp [kind, BlockKind.HoldsObjects] at holds
  | slab tlh classIdx =>
      have slab := core.slabs _ tlh classIdx kind
      obtain ⟨index, below, position⟩ := (slab.blocks ptr rfl).mp present
      have bound := slab.bumpBound
      rw [slab.maxObjects] at bound
      have inside := slab_block_inside slab.classBound bound below
      obtain ⟨_, lower, _⟩ := slab_block_size slab.classBound
      refine ⟨?_, by omega⟩
      have blockAligned := slab_block_aligned index slab.classBound aligned
      omega
  | span tlh =>
      have span := core.spans _ tlh kind
      obtain ⟨page, position, _⟩ := (span.nodes ptr rfl).mp present
      omega
  | direct header =>
      obtain ⟨_, _, multiple⟩ := core.objects.direct.inside ptr header present kind
      omega

theorem core_node_bound (core : Core mode s g) {ptr : Nat} (present : g.node ptr ≠ .none) :
    0 < ptr ∧ ptr + 16 ≤ 2 ^ 48 := by
  obtain ⟨_, positive, upper⟩ := core_placed core present
  obtain ⟨_, cell⟩ := core_node_cell core present
  have base := chunk_base_le ptr
  omega

theorem core_link_store_other (core : Core mode s g) {node other value : Nat}
    (present : g.node node ≠ .none) (otherPresent : g.node other ≠ .none)
    (different : other ≠ node) :
    linkAt (store s.mem node 8 value) other = linkAt s.mem other :=
  link_at_store_other s.mem (core_node_cell core present).1 (core_node_cell core otherPresent).1
    different

/-! ## Frame rules -/

theorem slab_ok_congr {slab : Slab} {next other : Nat → Nat} {node place : Nat → NodePlace}
    {chunk classIdx : Nat} (ok : SlabOk slab next node chunk classIdx)
    (places : ∀ block, chunkBase block = chunk → place block = node block)
    (links : ∀ block, chunkBase block = chunk → node block = .free → other block = next block) :
    SlabOk slab other place chunk classIdx := by
  refine { ok with freeList := ?_, blocks := ?_ }
  · refine enumerates_congr ok.freeList (fun block visited => links block visited.1 visited.2) ?_
    intro block
    constructor
    · rintro ⟨inside, free⟩
      exact ⟨inside, by rwa [places block inside] at free⟩
    · rintro ⟨inside, free⟩
      exact ⟨inside, by rwa [places block inside]⟩
  · intro block inside
    rw [places block inside]
    exact ok.blocks block inside

theorem span_ok_congr {span : Span} {node place : Nat → NodePlace} {chunk : Nat}
    (ok : SpanOk span node chunk)
    (places : ∀ ptr, chunkBase ptr = chunk → place ptr = node ptr) : SpanOk span place chunk := by
  refine { ok with nodes := ?_, notFree := ?_ }
  · intro ptr inside
    rw [places ptr inside]
    exact ok.nodes ptr inside
  · intro ptr inside
    rw [places ptr inside]
    exact ok.notFree ptr inside

theorem mail_inv_congr {remoteFreeHead : Nat → Nat} {outgoingBatch : Nat → Batch}
    {mem other : Memory} {node place : Nat → NodePlace} {cursor : Nat → Nat}
    (inv : MailInv remoteFreeHead outgoingBatch mem node cursor)
    (mails : ∀ ptr tlh, place ptr = .mail tlh ↔ node ptr = .mail tlh)
    (batches : ∀ ptr tlh, place ptr = .batch tlh ↔ node ptr = .batch tlh)
    (reapings : ∀ ptr tlh, place ptr = .reaping tlh ↔ node ptr = .reaping tlh)
    (links : ∀ ptr, (place ptr).InFlight → linkAt other ptr = linkAt mem ptr) :
    MailInv remoteFreeHead outgoingBatch other place cursor := by
  refine ⟨fun tlh => ?_, fun tlh => ?_, fun tlh empty => ?_, fun tlh filled => ?_, inv.batchBound,
    inv.batchTarget⟩
  · obtain ⟨count, chain⟩ := inv.mail tlh
    refine ⟨count,
      enumerates_congr chain (fun ptr visited => links ptr ?_) fun ptr => mails ptr tlh⟩
    rw [(mails ptr tlh).mpr visited]
    trivial
  · obtain ⟨count, chain⟩ := inv.reaping tlh
    refine ⟨count, enumerates_congr chain (fun ptr visited => links ptr ?_)
      fun ptr => reapings ptr tlh⟩
    rw [(reapings ptr tlh).mpr visited]
    trivial
  · obtain ⟨head, none⟩ := inv.batchEmpty tlh empty
    exact ⟨head, fun ptr there => none ptr ((batches ptr tlh).mp there)⟩
  · refine ends_at_congr (inv.batchList tlh filled) (fun ptr visited _ => links ptr ?_)
      fun ptr => batches ptr tlh
    rw [(batches ptr tlh).mpr visited]
    trivial

/-- Only the link words of free and in-flight objects matter. -/
theorem core_mem (core : Core mode s g) {mem : Memory}
    (links : ∀ ptr, g.node ptr = .free ∨ (g.node ptr).InFlight →
      linkAt mem ptr = linkAt s.mem ptr) :
    Core mode { s with mem := mem } g := by
  refine { core with slabs := ?_, mail := ?_ }
  · intro chunk tlh classIdx kind
    refine slab_ok_congr (core.slabs chunk tlh classIdx kind) (fun _ _ => rfl) ?_
    intro block _ free
    exact free_link_congr _ (links block (Or.inl free))
  · exact mail_inv_congr core.mail (fun _ _ => Iff.rfl) (fun _ _ => Iff.rfl) (fun _ _ => Iff.rfl)
      fun ptr flying => links ptr (Or.inr flying)

theorem core_mem_outside (core : Core mode s g) {mem : Memory}
    (agree : ∀ address, (g.kind (chunkBase address)).HoldsObjects →
      mem address = s.mem address) : Core mode { s with mem := mem } g := by
  apply core_mem core
  intro ptr carries
  have present : g.node ptr ≠ .none := by
    intro none
    rw [none] at carries
    simp [NodePlace.InFlight] at carries
  obtain ⟨_, cell⟩ := core_node_cell core present
  obtain ⟨aligned, _, _⟩ := core_placed core present
  apply load_congr
  intro byte lower upper
  apply agree
  have base := chunk_base_le ptr
  rw [chunk_base_eq aligned (by omega) (by omega : byte < chunkBase ptr + 2097152)]
  exact core.objects.scope ptr present

theorem object_inv_update {rtree : Rtree} {outgoingBatch : Nat → Batch}
    {direct : Nat → DirectInfo} {heaps : List Nat} {kind : Nat → BlockKind}
    {node : Nat → NodePlace} {ptr : Nat} {place : NodePlace}
    (inv : ObjectInv mode rtree outgoingBatch direct heaps kind node)
    (holds : place ≠ .none → (kind (chunkBase ptr)).HoldsObjects)
    (batched : ∀ tlh, place = .batch tlh →
      (kind (chunkBase ptr)).owner = some (outgoingBatch tlh).targetTlh ∧ tlh ∈ heaps)
    (mailed : ∀ tlh, place = .mail tlh → (kind (chunkBase ptr)).owner = some tlh)
    (reaped : ∀ tlh, place = .reaping tlh → (kind (chunkBase ptr)).owner = some tlh)
    (directed : ∀ header, kind (chunkBase ptr) = .direct header →
      place = .none ∨ node ptr ≠ .none ∧ (place = .live ∨ place = .leaked))
    (resolves : mode.freesResolve → place.InFlight → lzRtreeGet rtree ptr ≠ 0)
    (kept : mode.noLeaks → place ≠ .leaked) :
    ObjectInv mode rtree outgoingBatch direct heaps kind (Function.update node ptr place) := by
  have present : ∀ other header, Function.update node ptr place other ≠ .none →
      kind (chunkBase other) = .direct header → node other ≠ .none := by
    intro other header there isDirect
    by_cases same : other = ptr
    · subst same
      rw [Function.update_self] at there
      exact ((directed header isDirect).resolve_left there).1
    · rwa [Function.update_of_ne same] at there
  refine ⟨⟨?_, ?_, ?_⟩, ⟨?_, ?_, ?_, ?_⟩, ?_, ⟨inv.heaps.nonnull, inv.heaps.owner, ?_⟩, ?_, ?_⟩
  · intro other tlh there
    by_cases same : other = ptr
    · subst same
      rw [Function.update_self] at there
      exact (batched tlh there).1
    · rw [Function.update_of_ne same] at there
      exact inv.owners.batch other tlh there
  · intro other tlh there
    by_cases same : other = ptr
    · subst same
      rw [Function.update_self] at there
      exact mailed tlh there
    · rw [Function.update_of_ne same] at there
      exact inv.owners.mail other tlh there
  · intro other tlh there
    by_cases same : other = ptr
    · subst same
      rw [Function.update_self] at there
      exact reaped tlh there
    · rw [Function.update_of_ne same] at there
      exact inv.owners.reaping other tlh there
  · intro other header there isDirect
    exact inv.direct.inside other header (present other header there isDirect) isDirect
  · intro other header there isDirect
    exact inv.direct.fits other header (present other header there isDirect) isDirect
  · intro left right header thereLeft thereRight directLeft directRight
    exact inv.direct.single left right header (present left header thereLeft directLeft)
      (present right header thereRight directRight) directLeft directRight
  · intro other header isDirect
    by_cases same : other = ptr
    · subst same
      rw [Function.update_self]
      rcases directed header isDirect with gone | ⟨_, stays⟩
      · exact Or.inl gone
      · exact Or.inr stays
    · rw [Function.update_of_ne same]
      exact inv.direct.places other header isDirect
  · intro other there
    by_cases same : other = ptr
    · subst same
      rw [Function.update_self] at there
      exact holds there
    · rw [Function.update_of_ne same] at there
      exact inv.scope other there
  · intro other tlh there
    by_cases same : other = ptr
    · subst same
      rw [Function.update_self] at there
      exact (batched tlh there).2
    · rw [Function.update_of_ne same] at there
      exact inv.heaps.batch other tlh there
  · intro resolving other flying
    by_cases same : other = ptr
    · subst same
      rw [Function.update_self] at flying
      exact resolves resolving flying
    · rw [Function.update_of_ne same] at flying
      exact inv.registered resolving other flying
  · intro leakFree other
    by_cases same : other = ptr
    · subst same
      rw [Function.update_self]
      exact kept leakFree
    · rw [Function.update_of_ne same]
      exact inv.noLeaks leakFree other

theorem record_inv_release {span : Nat → Span} {direct : Nat → DirectInfo}
    {kind : Nat → BlockKind} {node : Nat → NodePlace} {record : Nat → Origin} {ptr : Nat}
    {place : NodePlace} (inv : RecordInv span direct kind node record)
    (released : place.InUse → (node ptr).InUse) :
    RecordInv span direct kind (Function.update node ptr place) record := by
  intro other used
  apply inv
  by_cases same : other = ptr
  · subst same
    exact released (by rwa [Function.update_self] at used)
  · rwa [Function.update_of_ne same] at used

theorem record_inv_take {span : Nat → Span} {direct : Nat → DirectInfo}
    {kind : Nat → BlockKind} {node : Nat → NodePlace} {record : Nat → Origin} {ptr : Nat}
    {place : NodePlace} {origin : Origin} (inv : RecordInv span direct kind node record)
    (taken : objectOrigin span direct ptr (kind (chunkBase ptr)) = origin) :
    RecordInv span direct kind (Function.update node ptr place)
      (Function.update record ptr origin) := by
  intro other used
  by_cases same : other = ptr
  · subst same
    rw [Function.update_self, taken]
  · rw [Function.update_of_ne same] at used ⊢
    exact inv other used

/-- The common case: an object of a slab or span becomes live or free. -/
theorem object_inv_settle {rtree : Rtree} {outgoingBatch : Nat → Batch}
    {direct : Nat → DirectInfo} {heaps : List Nat} {kind : Nat → BlockKind}
    {node : Nat → NodePlace} {ptr : Nat} {place : NodePlace}
    (inv : ObjectInv mode rtree outgoingBatch direct heaps kind node)
    (owned : (kind (chunkBase ptr)).owner ≠ Option.none)
    (settled : place = .live ∨ place = .free ∨ place = .none) :
    ObjectInv mode rtree outgoingBatch direct heaps kind (Function.update node ptr place) := by
  refine object_inv_update inv ?_ ?_ ?_ ?_ ?_ ?_ ?_
  · intro _
    cases known : kind (chunkBase ptr) <;> simp_all [BlockKind.owner, BlockKind.HoldsObjects]
  · rintro tlh rfl
    simp at settled
  · rintro tlh rfl
    simp at settled
  · rintro tlh rfl
    simp at settled
  · intro header isDirect
    simp [isDirect, BlockKind.owner] at owned
  · intro _ flying
    rcases settled with rfl | rfl | rfl <;> simp [NodePlace.InFlight] at flying
  · rintro _ rfl
    simp at settled

end Lzmalloc.InvariantFacts
