import Lzmalloc.ObjectContracts

/-!
# Radix tree and lifetime of chunks

Over all runs of the public interface: what the radix tree answers, and what a
chunk is as long as objects of it are live or on their way to its owner.
-/

namespace Lzmalloc.ChunkContracts

open SizeClasses HeapState VirtualMemoryManager PointerChain ThreadHeap PublicApi StepSystem
open HeapInvariant InvariantFacts RemoteFree ObjectRanges ConcreteView DirectObjects ApiOperations
open ApiRuns ObjectContracts
open SlabContracts (generousEnv)

set_option autoImplicit false

variable {sys : ApiSys} {g : Ghost} {base header : Nat}

/-! ## Answers of the radix tree -/

def LiveDirect (sys : ApiSys) (header : Nat) : Prop :=
  header ∈ sys.state.directs ∧ ∃ ptr, (sys.live ptr).isSome ∧ header < ptr ∧
    ptr < header + (sys.state.direct header).totalBytes

/-- The block at `base` is a formatted chunk with its header at `header`, or a
block of a live direct object with that header. -/
def BlockHeader (sys : ApiSys) (base header : Nat) : Prop :=
  (header = base ∧ ((∃ tlh classIdx, OwnsSlab sys.state tlh classIdx (base + lzCacheLineSize)) ∨
      ∃ tlh, OwnsSpan sys.state tlh base)) ∨
    (LiveDirect sys header ∧
      ∃ index < (sys.state.direct header).totalBytes / lzHugePageSize,
        base = header + index * lzHugePageSize)

/-- Every lookup finds the header of the address's block, and null if there is
none. -/
def RtreeAgrees (sys : ApiSys) : Prop :=
  ∀ base address, base % lzHugePageSize = 0 → base ≤ address → address < base + lzHugePageSize →
    address < addressLimit →
    (∀ header, header ≠ 0 →
      (lzRtreeGet sys.state.rtree address = header ↔ BlockHeader sys base header)) ∧
    (lzRtreeGet sys.state.rtree address = 0 ↔ ¬∃ header, BlockHeader sys base header)

theorem live_direct (ok : ApiOk (apiMode True) sys g) (member : header ∈ sys.state.directs) :
    LiveDirect sys header := by
  obtain ⟨ptr, isDirect, held⟩ := ok.rest.tenants header member
  have live : g.node ptr = .live := held.resolve_right (ok.rest.inv.objects.noLeaks trivial ptr)
  obtain ⟨behind, inside, _⟩ :=
    ok.rest.inv.objects.direct.inside ptr header (by simp [live]) isDirect
  exact ⟨member, ptr, (ok.live ptr).mpr live, by omega, inside⟩

theorem block_header_direct (ok : ApiOk (apiMode True) sys g) :
    g.kind base = .direct header ↔ LiveDirect sys header ∧
      ∃ index < (sys.state.direct header).totalBytes / lzHugePageSize,
        base = header + index * lzHugePageSize := by
  constructor
  · intro isDirect
    obtain ⟨member, index, position, bound⟩ := ok.rest.inv.geom.directOf base header isDirect
    refine ⟨live_direct ok member, index, ?_, position⟩
    have multiple := (ok.rest.inv.geom.directSize header member).1
    simp only [lzHugePageSize]
    omega
  · rintro ⟨⟨member, _⟩, index, bound, rfl⟩
    apply ok.rest.inv.geom.directBlock header member index
    simp only [lzHugePageSize] at bound
    omega

theorem block_header_iff (ok : ApiOk (apiMode True) sys g) (nonnull : header ≠ 0) :
    BlockHeader sys base header ↔ (g.kind base).header base = header := by
  have core := ok.rest.inv.toCore
  unfold BlockHeader
  rw [← block_header_direct ok]
  simp only [lzCacheLineSize, owns_slab_iff core ok.rest.settled,
    owns_span_iff core ok.rest.settled]
  cases kind : g.kind base with
  | unused => simpa [BlockKind.header] using nonnull.symm
  | idle place => simpa [BlockKind.header] using nonnull.symm
  | loose => exact absurd kind (ok.rest.settled base)
  | slab tlh classIdx => simp [BlockKind.header, eq_comm]
  | span tlh => simp [BlockKind.header, eq_comm]
  | direct owner => simp [BlockKind.header]

theorem rtree_agrees (ok : ApiOk (apiMode True) sys g) : RtreeAgrees sys := by
  intro base address aligned lower upper bound
  simp only [lzHugePageSize] at aligned upper
  have block := chunk_base_eq aligned lower upper
  have entry := ok.rest.inv.rtree.complete (leaves_granted_of_mapped ok.rest.inv.toCore trivial)
    address bound (ok.rest.settled _)
  rw [block] at entry
  have answers : ∀ header, header ≠ 0 →
      (lzRtreeGet sys.state.rtree address = header ↔ BlockHeader sys base header) := by
    intro header nonnull
    rw [entry, block_header_iff ok nonnull]
  refine ⟨answers, ?_⟩
  constructor
  · rintro missing ⟨header, found⟩
    by_cases null : header = 0
    · -- A header is never at address null.
      rw [null] at found
      rcases found with ⟨same, owned⟩ | ⟨⟨member, _⟩, _⟩
      · have used : g.kind base ≠ .unused := by
          have core := ok.rest.inv.toCore
          simp only [lzCacheLineSize, owns_slab_iff core ok.rest.settled,
            owns_span_iff core ok.rest.settled] at owned
          rintro unused
          simp [unused] at owned
        have positive := (ok.rest.inv.geom.placed base used).2.1
        omega
      · have isHeader := geom_direct_header ok.rest.inv.geom member
        have positive := (ok.rest.inv.geom.placed 0 (by simp [isHeader])).2.1
        omega
    · rw [(answers header null).mpr found] at missing
      exact null missing
  · intro none
    by_contra found
    exact none ⟨_, (answers _ found).mp rfl⟩

/-- The call does not put an empty payload at the end of its mapping, which is
what `lz_memalign` does for size zero from an alignment of 2 MB on. -/
def PayloadInside (act : ApiAct) : Prop :=
  ∀ request ∈ alignedRequest act,
    ¬(isPowerOfTwo request.1 = true ∧ request.2 = 0 ∧ lzHugePageSize ≤ request.1)

instance : DecidablePred PayloadInside := fun _ => inferInstanceAs (Decidable (∀ _ ∈ _, _))

theorem memalign_fits_empty {alignment : Nat} (small : alignment < lzHugePageSize) :
    MemalignFits alignment 0 := by
  intro power _
  simp only [lzHugePageSize] at small
  by_cases nothing : directTotal (memalignOffset alignment) 0 = 0
  · exact Or.inl nothing
  · right
    have offsetBound : memalignOffset alignment < 128 + alignment := by
      apply lz_align_up_lt
      · by_contra zero
        have null : alignment = 0 := by omega
        simp [null, isPowerOfTwo] at power
      · omega
    have fits := direct_total_fits (by omega : memalignOffset alignment ≤ 2 ^ 63)
      (by norm_num : 0 < 2 ^ 63) nothing
    have multiple := direct_total_multiple (memalignOffset alignment) 0
    -- Powers of two below 2 MB leave room for the header in front.
    have half : alignment ≤ 1048576 := by
      obtain ⟨k, rfl⟩ := is_power_of_two_eq power
      have wide : 2 ^ k < 2 ^ 21 := by omega
      have exponent : k < 21 := (Nat.pow_lt_pow_iff_right (by norm_num)).mp wide
      exact Nat.pow_le_pow_right (by norm_num) (by omega : k ≤ 20)
    omega

theorem api_fits_of_inside (sys : ApiSys) (act : ApiAct) (small : requestBytes act < 2 ^ 63)
    (inside : PayloadInside act) : ApiFits sys act := by
  cases act with
  | malloc thread size => exact malloc_fits_of_small small
  | calloc thread num size => exact fun _ => calloc_fits_of_small small
  | realloc thread ptr size => exact fun _ => malloc_fits_of_small small
  | memalign thread alignment size =>
      by_cases empty : size = 0
      · subst empty
        by_cases large : lzHugePageSize ≤ alignment
        · exact fun power _ => absurd ⟨power, rfl, large⟩ (inside (alignment, 0) rfl)
        · exact memalign_fits_empty (Nat.not_le.mp large)
      · exact memalign_fits_of_small (by omega) small
  | free thread ptr => trivial
  | exit thread => trivial
  | gc thread => trivial
  | attach thread => trivial
  | reap tlh => trivial
  | write ptr offset value => trivial

/-- In every run with mapped leaves whose aligned requests keep their payload
inside the mapping, the radix tree agrees with the heap. -/
theorem rtree_agrees_with_heap (env : Env) (secret : BitVec 64) (telemetry : Bool)
    (leaves : ∀ call, env.leafMmap call = true) (acts : List ApiAct) (sys : ApiSys)
    (small : ∀ act ∈ acts, requestBytes act < 2 ^ 63) (inside : ∀ act ∈ acts, PayloadInside act)
    (ran : run apiStep (apiStart env secret telemetry) acts = some sys) : RtreeAgrees sys := by
  have fits : Along apiStep ApiFits (apiStart env secret telemetry) acts :=
    along_of_mem (fun act member state =>
      api_fits_of_inside state act (small act member) (inside act member)) _
  have reached : ∃ g, ApiOk (apiMode True) sys g := api_run_ok (fun _ => leaves) fits ran
  obtain ⟨g, ok⟩ := reached
  exact rtree_agrees ok

theorem rtree_agrees_mixed :
    ∃ sys, run apiStep (apiStart generousEnv 7 true) mixedRun = some sys ∧ RtreeAgrees sys := by
  obtain ⟨sys, ran⟩ := Option.isSome_iff_exists.mp (by decide +kernel :
    (run apiStep (apiStart generousEnv 7 true) mixedRun).isSome = true)
  exact ⟨sys, ran, rtree_agrees_with_heap generousEnv 7 true (fun _ => rfl) mixedRun sys
    (by decide) (by decide) ran⟩

/-- An empty payload behind a 2 MB mapping, given back by its only holder. -/
def edgePayloadRun : List ApiAct := [.memalign 1 2097152 0, .free 1 4297064448]

theorem edge_payload_nothing_live
    (ran : run apiStep (apiStart generousEnv 7 true) edgePayloadRun = some sys) (ptr : Nat) :
    sys.live ptr = none := by
  simp only [edgePayloadRun, run_cons, run_nil] at ran
  obtain ⟨mapped, memaligned, later⟩ := Option.bind_eq_some_iff.mp ran
  obtain ⟨freed, released, same⟩ := Option.bind_eq_some_iff.mp later
  obtain rfl := Option.some.inj same
  have pointer : (lzMemalign (apiStart generousEnv 7 true).state 1 2097152 0).map (fun result =>
      result.1) = some 4297064448 := by decide +kernel
  simp only [apiStep] at memaligned released
  rw [if_pos (by norm_num)] at memaligned
  obtain ⟨result, called, rfl⟩ := Option.map_eq_some_iff.mp memaligned
  rw [called, Option.map_some, Option.some.injEq] at pointer
  split at released
  · obtain ⟨after, _, rfl⟩ := Option.map_eq_some_iff.mp released
    simp only [takeBack, handOut, pointer]
    by_cases same : ptr = 4297064448
    · simp [same]
    · simp [same, apiStart]
  · cases released

/-- The free finds no block for the pointer, so the mapping and its entry stay. -/
theorem rtree_keeps_freed_object :
    ∃ sys, run apiStep (apiStart generousEnv 7 true) edgePayloadRun = some sys ∧
      ¬RtreeAgrees sys := by
  have facts : (run apiStep (apiStart generousEnv 7 true) edgePayloadRun).map (fun sys =>
      (sys.state.vmm.carved, lzRtreeGet sys.state.rtree 4294967296)) = some ([], 4294967296) := by
    decide +kernel
  obtain ⟨sys, ran, values⟩ := Option.map_eq_some_iff.mp facts
  simp only [Prod.mk.injEq] at values
  refine ⟨sys, ran, fun agrees => ?_⟩
  obtain ⟨answers, _⟩ := agrees 4294967296 4294967296 (by decide) le_rfl (by decide) (by decide)
  rcases (answers 4294967296 (by norm_num)).mp values.2 with ⟨_, owned⟩ | ⟨⟨_, ptr, live, _⟩, _⟩
  · rcases owned with ⟨_, _, chunk, _, ⟨carved, _⟩, _⟩ | ⟨_, ⟨carved, _⟩, _⟩
    · simp [values.1] at carved
    · simp [values.1] at carved
  · simp [edge_payload_nothing_live ran ptr] at live

/-! ## Chunks of objects on their way -/

/-- The first rounds of the reap loop: the state and the node the next round
starts with. -/
def reapRounds : Nat → State → Nat → Nat → State × Nat
  | 0, s, _, head => (s, head)
  | rounds + 1, s, tlh, head =>
      if head = 0 then (s, head)
      else reapRounds rounds (lzTlhReapNode s tlh head) tlh (linkAt s.mem head)

theorem reap_loop_rounds (fuel : Nat) (s : State) (tlh head : Nat) :
    lzTlhReapLoop fuel s tlh head = (reapRounds fuel s tlh head).1 := by
  induction fuel generalizing s head with
  | zero => rfl
  | succ fuel ih =>
      unfold lzTlhReapLoop reapRounds
      by_cases ended : head = 0
      · rw [if_pos ended, if_pos ended]
      · rw [if_neg ended, if_neg ended]
        exact ih _ _

/-- The chunk of `ptr` is still what it was when the object was allocated: owned
by `target`, formatted the same way, registered, and outside the manager. -/
structure ChunkHolds (s : State) (born : Nat → Origin) (target ptr : Nat) : Prop where
  owner : (s.vmm.header (chunkBase ptr)).owningTlh = target
  chunkType : (s.vmm.header (chunkBase ptr)).chunkType ≠ .direct
  origin : readOrigin s ptr = born ptr
  registered : lzRtreeGet s.rtree ptr = chunkBase ptr
  handed : Handed s.vmm (chunkBase ptr)

/-- The state of the allocator while heap `tlh` stands at `head` in the list it
has detached. -/
structure FlightSound (s : State) (live : Nat → Option Nat) (born : Nat → Origin)
    (tlh head : Nat) : Prop where
  batch : ∀ heap ptr, InBatch s heap ptr → ChunkHolds s born (s.outgoingBatch heap).targetTlh ptr
  mail : ∀ heap ptr, InMailbox s heap ptr → ChunkHolds s born heap ptr
  detached : ∀ ptr, OnChain (linkAt s.mem) head ptr → ChunkHolds s born tlh ptr
  kept : ∀ ptr, (live ptr).isSome → chunkBase ptr ∈ s.vmm.carved → Handed s.vmm (chunkBase ptr)

variable {mode : Mode} {s : State} {last : Ghost} {ptr tlh : Nat}

/-- What the middle of a reap keeps of the state before it. -/
structure Reaping (mode : Mode) (g : Ghost) (s : State) (last : Ghost) : Prop where
  inv : Inv mode s last
  settled : ∀ chunk, last.kind chunk ≠ .loose
  live : ∀ ptr, last.node ptr = .live ↔ g.node ptr = .live
  used : ∀ ptr, (last.node ptr).InUse → (g.node ptr).InUse
  record : last.record = g.record

theorem reaping_detach (rest : AtRest mode s g) (tlh : Nat) :
    ∃ last, Reaping mode g (detachMailbox s tlh) last ∧ last.cursor tlh = s.remoteFreeHead tlh := by
  have inv := inv_detach rest.inv (rest.cursor tlh)
  refine ⟨_, ⟨inv, rest.settled, ?_, ?_, rfl⟩, Function.update_self _ _ _⟩
  · intro ptr
    simp only [detached]
    split
    · next mailed => simp [mailed]
    · rfl
  · intro ptr
    simp only [detached]
    split
    · next mailed => simp [mailed, NodePlace.InUse]
    · exact id

theorem reaping_rounds (rounds : Nat) {start : Ghost} (reaping : Reaping mode start s g) :
    ∃ last, Reaping mode start (reapRounds rounds s tlh (g.cursor tlh)).1 last ∧
      last.cursor tlh = (reapRounds rounds s tlh (g.cursor tlh)).2 := by
  induction rounds generalizing s g with
  | zero => exact ⟨g, reaping, rfl⟩
  | succ rounds ih =>
      unfold reapRounds
      by_cases ended : g.cursor tlh = 0
      · rw [if_pos ended]
        exact ⟨g, reaping, rfl⟩
      · rw [if_neg ended]
        obtain ⟨next, inv, quiet, _, steady, _⟩ := inv_reap_node reaping.inv ended
        have moved : next.cursor tlh = linkAt s.mem (g.cursor tlh) := by
          rw [steady.cursor]
          exact Function.update_self _ _ _
        rw [← moved]
        apply ih
        refine ⟨inv, ?_, ?_, ?_, ?_⟩
        · exact fun chunk loose => reaping.settled chunk (steady.loose chunk loose)
        · exact fun ptr => (quiet.live ptr).trans (reaping.live ptr)
        · exact fun ptr used => reaping.used ptr (quiet_used quiet used)
        · exact quiet.record.trans reaping.record

theorem chunk_holds (resolves : mode.freesResolve) {born : Nat → Origin} {target : Nat}
    (reaping : Reaping mode g s last) (bornAs : ∀ ptr, (g.node ptr).InUse → born ptr = g.record ptr)
    (flies : (last.node ptr).InFlight)
    (owned : (last.kind (chunkBase ptr)).owner = some target) : ChunkHolds s born target ptr := by
  have core := reaping.inv.toCore
  have used := in_flight_used flies
  have present : last.node ptr ≠ .none := by
    intro absent
    simp [absent, NodePlace.InUse] at used
  obtain ⟨_, bound⟩ := core_node_bound core present
  have entry := (core.rtree.sound ptr (by omega)).resolve_left
    (core.objects.registered resolves ptr flies)
  have origin := core.recorded ptr used
  have born := bornAs ptr (reaping.used ptr used)
  have handed := (handed_iff core reaping.settled).mpr ⟨target, owned⟩
  cases kind : last.kind (chunkBase ptr) with
  | slab heap classIdx =>
      obtain ⟨owner, type, _⟩ := core.header.slab _ heap classIdx kind
      simp only [kind, BlockKind.owner, Option.some.injEq] at owned
      rw [kind] at entry origin
      refine ⟨owner.trans owned, by simp [type], ?_, entry, handed⟩
      rw [born, ← reaping.record]
      apply read_origin_eq core used
      simp [← origin, objectOrigin]
  | span heap =>
      obtain ⟨owner, type⟩ := core.header.span _ heap kind
      simp only [kind, BlockKind.owner, Option.some.injEq] at owned
      rw [kind] at entry origin
      refine ⟨owner.trans owned, by simp [type], ?_, entry, handed⟩
      rw [born, ← reaping.record]
      apply read_origin_eq core used
      simp [← origin, objectOrigin]
  | unused => simp [kind, BlockKind.owner] at owned
  | idle place => simp [kind, BlockKind.owner] at owned
  | loose => simp [kind, BlockKind.owner] at owned
  | direct header => simp [kind, BlockKind.owner] at owned

theorem flight_sound {start : Ghost} (ok : ApiOk mode sys start) (resolves : mode.freesResolve)
    (reaping : Reaping mode start s g) (tlh : Nat) :
    FlightSound s sys.live sys.born tlh (g.cursor tlh) := by
  have core := reaping.inv.toCore
  refine ⟨?_, ?_, ?_, ?_⟩
  · intro heap ptr batched
    have there := (in_batch_iff core).mp batched
    apply chunk_holds resolves reaping ok.born
    · simp [there, NodePlace.InFlight]
    · exact core.objects.owners.batch ptr heap there
  · intro heap ptr mailed
    have there := (in_mailbox_iff core).mp mailed
    apply chunk_holds resolves reaping ok.born
    · simp [there, NodePlace.InFlight]
    · exact core.objects.owners.mail ptr heap there
  · intro ptr visited
    obtain ⟨count, chain⟩ := core.mail.reaping tlh
    have there := (enumerates_on_chain chain).mp visited
    apply chunk_holds resolves reaping ok.born
    · simp [there, NodePlace.InFlight]
    · exact core.objects.owners.reaping ptr tlh there
  · intro ptr live carved
    have there := (reaping.live ptr).mpr ((ok.live ptr).mp live)
    have isChunk := (core.vmm.carved _).mp carved
    rcases holder_cases (core.objects.scope ptr (by simp [there])) with owned | ⟨header, isDirect⟩
    · exact (handed_iff core reaping.settled).mpr owned
    · simp [isDirect, BlockKind.IsChunk] at isChunk

/-- In every run whose direct requests fit their mappings, the chunks of live
objects and of objects on their way are what they were, between calls and after
any number of rounds of a reap. -/
theorem in_flight_chunks_hold (env : Env) (secret : BitVec 64) (telemetry : Bool)
    (acts : List ApiAct) (sys : ApiSys)
    (fits : Along apiStep ApiFits (apiStart env secret telemetry) acts)
    (ran : run apiStep (apiStart env secret telemetry) acts = some sys) (tlh rounds : Nat) :
    FlightSound sys.state sys.live sys.born tlh 0 ∧
      FlightSound
        (reapRounds rounds (detachMailbox sys.state tlh) tlh (sys.state.remoteFreeHead tlh)).1
        sys.live sys.born tlh
        (reapRounds rounds (detachMailbox sys.state tlh) tlh (sys.state.remoteFreeHead tlh)).2 := by
  have reached : ∃ g, ApiOk (apiMode False) sys g := api_run_ok False.elim fits ran
  obtain ⟨g, ok⟩ := reached
  constructor
  · have resting : Reaping (apiMode False) g sys.state g :=
      ⟨ok.rest.inv, ok.rest.settled, fun _ => Iff.rfl, fun _ => id, rfl⟩
    have sound := flight_sound ok trivial resting tlh
    rwa [ok.rest.cursor tlh] at sound
  · obtain ⟨middle, detached, atHead⟩ := reaping_detach ok.rest tlh
    obtain ⟨last, reaped, atCursor⟩ := reaping_rounds rounds detached
    rw [atHead] at reaped atCursor
    rw [← atCursor]
    exact flight_sound ok trivial reaped tlh

/-- A block waits in the mailbox of heap 4096 and pages of it in the batch of the
heap that thread 3 has adopted. -/
def inFlightRun : List ApiAct := mixedRun.dropLast ++ [.free 3 4357885952]

theorem in_flight_chunks_hold_mixed :
    ∃ sys, run apiStep (apiStart generousEnv 7 true) inFlightRun = some sys ∧
      sys.state.remoteFreeHead 4096 = 4359979136 ∧
      (sys.state.outgoingBatch 8192).head = 4357885952 ∧
      FlightSound sys.state sys.live sys.born 4096 0 := by
  have facts : (run apiStep (apiStart generousEnv 7 true) inFlightRun).map (fun sys =>
      (sys.state.remoteFreeHead 4096, (sys.state.outgoingBatch 8192).head)) =
        some (4359979136, 4357885952) := by decide +kernel
  obtain ⟨sys, ran, values⟩ := Option.map_eq_some_iff.mp facts
  obtain ⟨mailed, batched⟩ := Prod.mk.inj values
  have fits : Along apiStep ApiFits (apiStart generousEnv 7 true) inFlightRun :=
    along_fits_of_small (by decide) _
  exact ⟨sys, ran, mailed, batched,
    (in_flight_chunks_hold generousEnv 7 true inFlightRun sys fits ran 4096 0).1⟩

/-- The first region ends where the second begins. -/
def adjacentEnv : Env :=
  { generousEnv with regionMmap := fun call => some (2 ^ 32 + call * 2 ^ 21) }

/-- Thread 2 holds an empty payload behind its mapping; the extent of thread 1
comes to lie there, its last chunk becomes a span, and thread 2 frees. -/
def capturedPayloadRun : List ApiAct :=
  .memalign 2 2097152 0 :: List.replicate 32 (.malloc 1 1048576) ++ [.free 2 4297064448]

/-- The payload of a direct object travels to the owner of a span chunk. -/
theorem foreign_node_in_flight :
    ∃ sys, run apiStep (apiStart adjacentEnv 7 true) capturedPayloadRun = some sys ∧
      ∀ tlh, ¬FlightSound sys.state sys.live sys.born tlh 0 := by
  have facts : (run apiStep (apiStart adjacentEnv 7 true) capturedPayloadRun).map (fun sys =>
      (sys.state.outgoingBatch 8192, sys.born 4297064448, readOrigin sys.state 4297064448)) =
        some (⟨4096, 4297064448, 4297064448, 1⟩, .direct 0, .span 0) := by
    decide +kernel
  obtain ⟨sys, ran, values⟩ := Option.map_eq_some_iff.mp facts
  simp only [Prod.mk.injEq] at values
  refine ⟨sys, ran, fun tlh sound => ?_⟩
  have batched : InBatch sys.state 8192 4297064448 := by
    rw [InBatch, values.1]
    exact ⟨[], rfl, rfl, List.mem_singleton.mpr rfl⟩
  have origin := (sound.batch 8192 4297064448 batched).origin
  rw [values.2.1, values.2.2] at origin
  cases origin

end Lzmalloc.ChunkContracts
