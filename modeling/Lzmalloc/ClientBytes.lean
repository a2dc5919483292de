import Lzmalloc.DirectContracts
import Lzmalloc.FreeFootprint

/-!
# Bytes of the clients

What the allocator writes into payload memory: link words of objects that are
not live, chunks that it has given up, and regions it has just mapped. So no
call changes a byte of a live object that it was not asked about.
-/

namespace Lzmalloc.ClientBytes

open SizeClasses HeapState VirtualMemoryManager Mappings ByteMemory Engines ThreadHeap PublicApi
open PointerChain HeapInvariant InvariantFacts ClientView ObjectRanges SlabAllocation RemoteFree
open ThreadFrames HeapOperations DirectObjects ThreadLifecycle ApiOperations FreeFootprint
open DirectContracts RadixTree ChunkTransfer ChunkCaches ChunkRoles

set_option autoImplicit false

variable {mode : Mode} {s middle after : State} {g last : Ghost}
  {thread tlh ptr other size byte : Nat}

/-! ## Allocation writes nothing that was mapped -/

structure KeepsMapped (s after : State) : Prop where
  mem : ∀ address, Mapped s.regions address → after.mem address = s.mem address
  regions : ∀ address, Mapped s.regions address → Mapped after.regions address

theorem keeps_mapped_same (mem : after.mem = s.mem) (regions : after.regions = s.regions) :
    KeepsMapped s after := by
  constructor
  · intro address _
    rw [mem]
  · intro address mapped
    rwa [regions]

theorem keeps_mapped_trans (first : KeepsMapped s middle) (second : KeepsMapped middle after) :
    KeepsMapped s after := by
  constructor
  · intro address mapped
    rw [second.mem address (first.regions address mapped), first.mem address mapped]
  · intro address mapped
    exact second.regions address (first.regions address mapped)

theorem maps_fresh_keeps {start length : Nat} (maps : MapsFresh s after start length) :
    KeepsMapped s after :=
  ⟨maps.mem, fun address mapped => (maps.mapped address).mpr (Or.inl mapped)⟩

theorem global_alloc_keeps (s : State) : KeepsMapped s (globalAlloc s).2 := by
  have extent : KeepsMapped s (sysAllocExtent s) := by
    unfold sysAllocExtent
    cases map_extent_cases s with
    | inl failed =>
        rw [failed]
        exact keeps_mapped_same rfl rfl
    | inr granted =>
        obtain ⟨start, mapped, done, maps⟩ := granted
        rw [done]
        exact keeps_mapped_trans (maps_fresh_keeps maps) (keeps_mapped_same rfl rfl)
  unfold globalAlloc
  split
  · exact keeps_mapped_trans extent (keeps_mapped_same rfl rfl)
  · exact keeps_mapped_same rfl rfl

theorem vmm_alloc_keeps (s : State) : KeepsMapped s (lzVmmAllocChunk s).2 := by
  have located : KeepsMapped s (lzGetCurrentNode s).2 := keeps_mapped_same rfl rfl
  unfold lzVmmAllocChunk
  simp only
  split
  · exact keeps_mapped_trans located (keeps_mapped_same rfl rfl)
  · have global := keeps_mapped_trans located (global_alloc_keeps (lzGetCurrentNode s).2)
    split
    · exact global
    · exact keeps_mapped_trans global (keeps_mapped_same rfl rfl)

theorem format_slab_keeps (s : State) (tlh classIdx chunk : Nat) :
    KeepsMapped s (formatSlab s tlh classIdx chunk) := by
  obtain ⟨regions, mem⟩ :=
    rtree_set_frame { s with vmm := claimHeader s.vmm chunk tlh .slab } chunk chunk
  exact keeps_mapped_same mem regions

theorem format_span_keeps (s : State) (tlh chunk : Nat) :
    KeepsMapped s (formatSpan s tlh chunk) := by
  obtain ⟨regions, mem⟩ :=
    rtree_set_frame { s with vmm := claimHeader s.vmm chunk tlh .span } chunk chunk
  exact keeps_mapped_same mem regions

theorem span_alloc_keeps (s : State) (tlh size : Nat) :
    KeepsMapped s (lzSpanAlloc s tlh size).2 := by
  unfold lzSpanAlloc
  simp only
  split
  · exact keeps_mapped_same rfl rfl
  · split
    · exact keeps_mapped_same rfl rfl
    · split
      · exact vmm_alloc_keeps s
      · have formatted := keeps_mapped_trans (vmm_alloc_keeps s)
          (format_span_keeps (lzVmmAllocChunk s).2 tlh (lzVmmAllocChunk s).1)
        split
        · exact formatted
        · exact keeps_mapped_trans formatted (keeps_mapped_same rfl rfl)

theorem retire_current_keeps (s : State) (tlh scIdx : Nat) :
    KeepsMapped s (retireCurrent s tlh scIdx) := by
  rw [retire_current_only]
  exact keeps_mapped_same rfl rfl

theorem alloc_slow_keeps (s : State) (tlh scIdx : Nat) :
    KeepsMapped s (lzTlhAllocSlow s tlh scIdx).2 := by
  unfold lzTlhAllocSlow
  split
  · exact keeps_mapped_trans (retire_current_keeps s tlh scIdx) (keeps_mapped_same rfl rfl)
  · have created : KeepsMapped s (lzSlabCreate s tlh scIdx).2 := by
      unfold lzSlabCreate
      simp only
      split
      · exact vmm_alloc_keeps s
      · exact keeps_mapped_trans (vmm_alloc_keeps s) (format_slab_keeps _ _ _ _)
    simp only
    split
    · exact created
    · have retired := keeps_mapped_trans created (retire_current_keeps _ tlh scIdx)
      generalize retireCurrent (lzSlabCreate s tlh scIdx).2 tlh scIdx = after at retired ⊢
      exact keeps_mapped_trans retired (keeps_mapped_same rfl rfl)

theorem try_current_keeps (s : State) (tlh scIdx : Nat) :
    KeepsMapped s (tryCurrent s tlh scIdx).2 := by
  unfold tryCurrent bumpBlock
  simp only
  split
  · exact keeps_mapped_same rfl rfl
  · split
    · split
      · exact keeps_mapped_same rfl rfl
      · exact keeps_mapped_same rfl rfl
    · exact keeps_mapped_same rfl rfl

theorem map_direct_keeps {offset : Nat} (done : mapDirect s offset size = some (ptr, after)) :
    KeepsMapped s after := by
  rcases map_direct_cases s offset size with
    ⟨_, failed⟩ | ⟨_, _, died⟩ | ⟨_, _, start, mapped, reached, maps, registered, served⟩
  · rw [failed, Option.some.injEq, Prod.mk.injEq] at done
    rw [← done.2]
    exact keeps_mapped_same rfl rfl
  · rw [died] at done
    cases done
  · rw [served, Option.some.injEq, Prod.mk.injEq] at done
    rw [← done.2]
    apply keeps_mapped_trans (maps_fresh_keeps maps)
    apply keeps_mapped_same
    · rw [registered.only]
      rfl
    · rw [registered.only]
      rfl

/-! ## Fresh mappings are zero -/

theorem mmap_zero {length raw : Nat} (granted : mmap s length = (some raw, after))
    (lower : raw ≤ byte) (upper : byte < raw + length) : after.mem byte = 0 := by
  unfold mmap at granted
  cases answer : s.env.regionMmap s.regionCalls with
  | none => simp [answer] at granted
  | some address =>
      simp only [answer] at granted
      split at granted
      · simp only [Prod.mk.injEq, Option.some.injEq] at granted
        obtain ⟨rfl, rfl⟩ := granted
        exact if_pos ⟨lower, upper⟩
      · simp at granted

theorem munmap_mem (s : State) (start length : Nat) (trimmed : Prop) [Decidable trimmed] :
    (if trimmed then munmap s start length else s).mem = s.mem := by
  split
  · rfl
  · rfl

theorem huge_aligned_zero {total start : Nat} (multiple : total % 2097152 = 0)
    (bound : total < 2 ^ 64) (granted : lzSysAllocHugeAligned s total = (some start, after))
    (lower : start ≤ byte) (upper : byte < start + total) : after.mem byte = 0 := by
  unfold lzSysAllocHugeAligned at granted
  rcases mmap_cases s ((total + lzHugePageSize) % 2 ^ 64) with failed | ⟨raw, mapped, done, fresh⟩
  · simp only [failed] at granted
    cases granted
  obtain ⟨_, _, nonempty, limit, _⟩ := fresh.valid
  simp only [lzHugePageSize, addressLimit] at nonempty limit
  have request : (total + lzHugePageSize) % 2 ^ 64 = total + 2097152 := by
    simp only [lzHugePageSize]
    omega
  simp only [done] at granted
  rw [request] at done
  have limitSum : raw + (total + 2097152) ≤ 2 ^ 48 := by omega
  by_cases aligned : raw % lzHugePageSize = 0
  · simp only [if_pos aligned, Prod.mk.injEq, Option.some.injEq] at granted
    have zero : mapped.mem byte = 0 := mmap_zero done (by omega) (by omega)
    rw [← granted.2]
    exact zero
  · simp only [if_neg aligned, Prod.mk.injEq, Option.some.injEq] at granted
    have below :=
      lz_align_up_le (by norm_num : 0 < 2097152) (by omega : raw + (2097152 - 1) < 2 ^ 64)
    have above :=
      lz_align_up_lt (by norm_num : 0 < 2097152) (by omega : raw + (2097152 - 1) < 2 ^ 64)
    have place : lzAlignUp raw 2097152 = start := granted.1
    rw [← granted.2, munmap_mem, munmap_mem]
    exact mmap_zero done (by omega) (by omega)

theorem map_direct_zero {offset : Nat} (room : offset + size ≤ directTotal offset size)
    (done : mapDirect s offset size = some (ptr, after)) (nonnull : ptr ≠ 0) (lower : ptr ≤ byte)
    (upper : byte < ptr + size) : after.mem byte = 0 := by
  unfold mapDirect at done
  cases granted : lzSysAllocHugeAligned s (directTotal offset size) with
  | mk answer mapped =>
      simp only [granted] at done
      cases answer with
      | none =>
          simp only [Option.some.injEq, Prod.mk.injEq] at done
          exact absurd done.1.symm nonnull
      | some start =>
          simp only at done
          split at done
          · simp only [Option.some.injEq, Prod.mk.injEq] at done
            have zero : mapped.mem byte = 0 :=
              huge_aligned_zero (direct_total_multiple offset size) (direct_total_lt offset size)
                granted (by omega) (by omega)
            rw [← done.2, lz_rtree_set_range_eq _ _ _ (direct_total_multiple offset size),
              set_blocks_eq]
            exact zero
          · cases done

/-! ## Bytes of live objects -/

def Short (s : State) : Prop := ∀ header ∈ s.directs, (s.direct header).size < 2 ^ 63

theorem short_unwrapped (core : Core mode s g) (short : Short s) (ptr : Nat) : Unwrapped s g ptr :=
  fun header isDirect => short header (direct_known core isDirect)

theorem short_same (short : Short s) (same : SameThreads s after) : Short after := by
  intro header
  rw [same.directs, same.direct]
  exact short header

def Undisturbed (g : Ghost) (mem later : Memory) : Prop :=
  ∀ ptr byte, g.node ptr = .live → ptr ≤ byte → byte < ptr + originLength (g.record ptr) →
    later byte = mem byte

theorem undisturbed_refl (g : Ghost) (mem : Memory) : Undisturbed g mem mem :=
  fun _ _ _ _ _ => rfl

theorem undisturbed_trans {first second third : Memory} (before : Undisturbed g first second)
    (quiet : Quiet g last) (behind : Undisturbed last second third) :
    Undisturbed g first third := by
  intro ptr byte live lower upper
  have later : third byte = second byte := by
    apply behind ptr byte ((quiet.live ptr).mpr live) lower
    rwa [quiet.record]
  rw [later, before ptr byte live lower upper]

theorem object_length_record (core : Core mode s g) (used : (g.node ptr).InUse) :
    objectLength s g ptr = originLength (g.record ptr) := by
  rw [objectLength, core.recorded ptr used]

theorem holder_mapped (core : Core mode s g) (holds : (g.kind (chunkBase byte)).HoldsObjects) :
    Mapped s.regions byte := by
  apply core.geom.mapped (chunkBase byte) _ byte (chunk_base_le byte) (lt_chunk_base_add byte)
  intro unused
  rw [unused] at holds
  exact holds

theorem object_mapped (core : Core mode s g) (short : Short s) (live : g.node ptr = .live)
    (lower : ptr ≤ byte) (upper : byte < ptr + originLength (g.record ptr)) :
    Mapped s.regions byte := by
  have present : g.node ptr ≠ .none := by simp [live]
  rw [← object_length_record core (by simp [live, NodePlace.InUse])] at upper
  obtain ⟨kinds, _⟩ := object_range_kind core present (short_unwrapped core short ptr) lower upper
  apply holder_mapped core
  rw [kinds]
  exact core.objects.scope ptr present

theorem live_apart (core : Core mode s g) (short : Short s) (live : g.node ptr = .live)
    (otherLive : g.node other = .live) (different : other ≠ ptr) (lower : other ≤ byte)
    (upper : byte < other + originLength (g.record other)) :
    ¬(ptr ≤ byte ∧ byte < ptr + originLength (g.record ptr)) := by
  have present : g.node ptr ≠ .none := by simp [live]
  have otherPresent : g.node other ≠ .none := by simp [otherLive]
  rw [← object_length_record core (by simp [live, NodePlace.InUse])]
  rw [← object_length_record core (by simp [otherLive, NodePlace.InUse])] at upper
  cases Nat.lt_or_gt_of_ne different with
  | inl before =>
      have ends := object_ranges core otherPresent present (short_unwrapped core short other) before
      omega
  | inr behind =>
      have ends := object_ranges core present otherPresent (short_unwrapped core short ptr) behind
      omega

theorem undisturbed_keeps (core : Core mode s g) (short : Short s) (keeps : KeepsMapped s after) :
    Undisturbed g s.mem after.mem := by
  intro ptr byte live lower upper
  exact keeps.mem byte (object_mapped core short live lower upper)

theorem cell_outside (core : Core mode s g) {cell owner : Nat} (present : g.node other ≠ .none)
    (unwrapped : Unwrapped s g other) (cellPresent : g.node cell ≠ .none)
    (owned : (g.kind (chunkBase cell)).owner = some owner) (different : other ≠ cell)
    (inside : other ≤ byte ∧ byte < other + objectLength s g other) :
    ¬(cell ≤ byte ∧ byte < cell + 8) := by
  have long := cell_le_length core cellPresent owned
  have cellUnwrapped : Unwrapped s g cell := by
    intro header isDirect
    simp [isDirect, BlockKind.owner] at owned
  rcases Nat.lt_or_gt_of_ne different with before | behind
  · have apart := object_ranges core present cellPresent unwrapped before
    omega
  · have apart := object_ranges core cellPresent present cellUnwrapped behind
    omega

theorem deflated_outside (core : Core mode s g) (present : g.node ptr ≠ .none)
    (unwrapped : Unwrapped s g ptr) (inside : ptr ≤ byte ∧ byte < ptr + objectLength s g ptr) :
    ¬Deflated s byte := by
  intro deflated
  obtain ⟨kinds, _⟩ := object_range_kind core present unwrapped inside.1 inside.2
  apply deflated_idle core deflated
  rw [kinds]
  exact core.objects.scope ptr present

theorem undisturbed_footprint {cells : Nat → Prop} (core : Core mode s g) (short : Short s)
    (laterCore : Core mode after last) (laterShort : Short after)
    (footprint : Footprint cells s after) (record : last.record = g.record)
    (stays : ∀ ptr, last.node ptr = .live → g.node ptr = .live)
    (owned : ∀ cell, cells cell → last.node cell ≠ .live ∧ g.node cell ≠ .none ∧
      ∃ owner, (g.kind (chunkBase cell)).owner = some owner) :
    Undisturbed last s.mem after.mem := by
  intro ptr byte live lower upper
  have before := stays ptr live
  have present : g.node ptr ≠ .none := by simp [before]
  rcases footprint.bytes byte with same | ⟨cell, known, touched⟩ | deflated
  · exact same
  · obtain ⟨dead, cellPresent, owner, ownedBy⟩ := owned cell known
    have different : ptr ≠ cell := by
      intro same
      rw [same] at live
      exact dead live
    rw [record, ← object_length_record core (by simp [before, NodePlace.InUse])] at upper
    exact absurd touched (cell_outside core present (short_unwrapped core short ptr) cellPresent
      ownedBy different ⟨lower, upper⟩)
  · rw [← object_length_record laterCore (by simp [live, NodePlace.InUse])] at upper
    exact absurd deflated (deflated_outside laterCore (by simp [live])
      (short_unwrapped laterCore laterShort ptr) ⟨lower, upper⟩)

/-! ## Reaping -/

theorem undisturbed_reap_node (inv : Inv mode s g) (short : Short s) (more : g.cursor tlh ≠ 0)
    (lastInv : Inv mode (lzTlhReapNode s tlh (g.cursor tlh)) last) (quiet : Quiet g last) :
    Undisturbed g s.mem (lzTlhReapNode s tlh (g.cursor tlh)).mem := by
  have laterShort := short_same short (reap_node_outside s tlh (g.cursor tlh)).threads
  obtain ⟨_, reaping, owned⟩ := inv_advance inv more
  have footprint : Footprint (fun cell => cell = g.cursor tlh) s
      (lzTlhReapNode s tlh (g.cursor tlh)) := reap_node_footprint s tlh rfl
  have settled : Undisturbed last s.mem (lzTlhReapNode s tlh (g.cursor tlh)).mem := by
    apply undisturbed_footprint inv.toCore short lastInv.toCore laterShort footprint quiet.record
      fun ptr => (quiet.live ptr).mp
    intro cell same
    rw [same]
    constructor
    · rw [ne_eq, quiet.live, reaping]
      exact NodePlace.noConfusion
    · constructor
      · rw [reaping]
        exact NodePlace.noConfusion
      · exact ⟨tlh, owned⟩
  intro ptr byte live lower upper
  apply settled ptr byte ((quiet.live ptr).mpr live) lower
  rwa [quiet.record]

theorem undisturbed_reap_loop (fuel : Nat) (inv : Inv mode s g) (short : Short s) :
    Undisturbed g s.mem (lzTlhReapLoop fuel s tlh (g.cursor tlh)).mem := by
  -- One object of the detached list after the other; what is live stays live.
  induction fuel generalizing s g with
  | zero => exact undisturbed_refl g s.mem
  | succ fuel ih =>
      unfold lzTlhReapLoop
      by_cases null : g.cursor tlh = 0
      · rw [if_pos null]
        exact undisturbed_refl g s.mem
      · rw [if_neg null]
        obtain ⟨after, afterInv, quiet, _, swept, _⟩ := inv_reap_node inv null
        have next : linkAt s.mem (g.cursor tlh) = after.cursor tlh := by
          rw [swept.cursor]
          simp [advance]
        have laterShort := short_same short (reap_node_outside s tlh (g.cursor tlh)).threads
        simp only [next]
        exact undisturbed_trans (undisturbed_reap_node inv short null afterInv quiet) quiet
          (ih afterInv laterShort)

theorem undisturbed_reap (inv : Inv mode s g) (short : Short s) (idle : g.cursor tlh = 0) :
    Undisturbed g s.mem (lzTlhReap s tlh).mem := by
  have detachedInv := inv_detach inv idle
  have walked := @undisturbed_reap_loop mode _ _ tlh addressLimit detachedInv short
  simp only [Function.update_self] at walked
  intro ptr byte live lower upper
  apply walked ptr byte _ lower upper
  simp [detached, live]

/-! ## Calls -/

theorem undisturbed_attempt (inv : Inv mode s g) (short : Short s) (idle : g.cursor tlh = 0)
    (scIdx : Nat) : Undisturbed g s.mem (lzTlhAllocAttempt s tlh scIdx).2.mem := by
  rw [lz_tlh_alloc_attempt_eq]
  split
  · exact undisturbed_refl g s.mem
  · obtain ⟨reaped, reapedInv, quiet, _⟩ := inv_reap inv idle
    have laterShort := short_same short (reap_threads s tlh)
    apply undisturbed_trans (undisturbed_reap inv short idle) quiet
    exact undisturbed_keeps reapedInv.toCore laterShort
      (try_current_keeps (lzTlhReap s tlh) tlh scIdx)

theorem undisturbed_tlh_alloc (inv : Inv mode s g) (short : Short s) (idle : g.cursor tlh = 0)
    (size : Nat) : Undisturbed g s.mem (lzTlhAlloc s tlh size).2.mem := by
  unfold lzTlhAlloc
  split
  · exact undisturbed_keeps inv.toCore short (span_alloc_keeps s tlh size)
  · have attempted := undisturbed_attempt inv short idle (lzSizeToClass size)
    have outcome := inv_alloc_attempt inv idle (lzSizeToClass size)
    have laterShort := short_same short (alloc_attempt_batches s tlh (lzSizeToClass size)).threads
    simp only
    generalize lzTlhAllocAttempt s tlh (lzSizeToClass size) =
      attempt at attempted outcome laterShort ⊢
    have got : Undisturbed g s.mem (if attempt.1 = 0 then
        lzTlhAllocSlow attempt.2 tlh (lzSizeToClass size) else attempt).2.mem := by
      cases outcome with
      | inl none =>
          obtain ⟨failed, middle, middleInv, quiet, _⟩ := none
          rw [if_pos failed]
          apply undisturbed_trans attempted quiet
          exact undisturbed_keeps middleInv.toCore laterShort
            (alloc_slow_keeps attempt.2 tlh (lzSizeToClass size))
      | inr some =>
          rw [if_neg some.1]
          exact attempted
    generalize (if attempt.1 = 0 then lzTlhAllocSlow attempt.2 tlh (lzSizeToClass size)
      else attempt) = result at got ⊢
    split
    · exact got
    · rw [account_alloc_eq]
      exact got

theorem ensure_tls_init_frame (done : ensureTlsInit s thread = some after) :
    after.mem = s.mem ∧ after.regions = s.regions := by
  unfold ensureTlsInit at done
  split at done
  · obtain rfl := Option.some.inj done
    exact ⟨rfl, rfl⟩
  · simp only at done
    split at done
    · obtain rfl := Option.some.inj done
      simp only [attachHeap, lzResurrectZombie]
      split <;> exact ⟨rfl, rfl⟩
    · unfold mapHeap at done
      cases answer : s.env.tlhMmap s.tlhCalls with
      | none => simp [answer] at done
      | some address =>
          simp only [answer] at done
          by_cases valid : HeapMmapValid s.heaps address
          · simp only [if_pos valid] at done
            obtain rfl := Option.some.inj done
            exact ⟨rfl, rfl⟩
          · simp [if_neg valid] at done

theorem undisturbed_malloc (rest : AtRest mode s g)
    (done : lzMalloc s thread size = some (ptr, after)) : Undisturbed g s.mem after.mem := by
  unfold lzMalloc at done
  simp only at done
  generalize (if size = 0 then 1 else size) = asked at done
  by_cases small : asked ≤ lzMaxSlabObjSize
  · rw [if_pos small] at done
    obtain ⟨ready, attached, result⟩ := Option.map_eq_some_iff.mp done
    obtain ⟨readyRest, _, _⟩ := at_rest_attach rest attached
    have taken := undisturbed_tlh_alloc readyRest.inv readyRest.short
      (readyRest.cursor (ready.tls thread)) asked
    rw [result, (ensure_tls_init_frame attached).1] at taken
    exact taken
  rw [if_neg small] at done
  by_cases medium : asked ≤ lzMaxSpanObjSize
  · rw [if_pos medium] at done
    obtain ⟨ready, attached, result⟩ := Option.map_eq_some_iff.mp done
    obtain ⟨readyRest, _, _⟩ := at_rest_attach rest attached
    have taken := undisturbed_keeps readyRest.inv.toCore readyRest.short
      (span_alloc_keeps ready (ready.tls thread) asked)
    rw [result, (ensure_tls_init_frame attached).1] at taken
    exact taken
  · rw [if_neg medium] at done
    exact undisturbed_keeps rest.inv.toCore rest.short (map_direct_keeps done)

theorem malloc_apart (rest : AtRest mode s g) (fits : MallocFits size) (bound : size < 2 ^ 64)
    (done : lzMalloc s thread size = some (ptr, after)) (nonnull : ptr ≠ 0)
    (live : g.node other = .live) (lower : other ≤ byte)
    (upper : byte < other + originLength (g.record other)) :
    ¬(ptr ≤ byte ∧ byte < ptr + size) := by
  obtain ⟨last, afterRest, outcome⟩ := served_malloc rest fits done
  have fresh := (outcome.resolve_left fun failed => nonnull failed.1).2
  have different : other ≠ ptr := by
    intro same
    rw [same] at live
    exact fresh.fresh.1 live
  have here : last.node ptr = .live := (fresh.live ptr).mpr (Or.inl rfl)
  have there : last.node other = .live := (fresh.live other).mpr (Or.inr live)
  have length := malloc_length bound
  rw [← @Function.update_of_ne _ _ _ other ptr different (mallocOrigin size) g.record,
    ← fresh.record] at upper
  have apart := live_apart afterRest.inv.toCore afterRest.short here there different lower upper
  rw [fresh.record, Function.update_self] at apart
  omega

theorem undisturbed_tlh_free (rest : AtRest mode s g) (live : g.node ptr = .live) {owner : Nat}
    (owned : (g.kind (chunkBase ptr)).owner = some owner)
    (afterRest : AtRest mode (lzTlhFree s tlh ptr) last) (withdrawn : Withdrawn g last ptr) :
    Undisturbed last s.mem (lzTlhFree s tlh ptr).mem := by
  have core := rest.inv.toCore
  have footprint : Footprint (fun cell => cell = ptr ∨ g.node cell = .batch tlh) s
      (lzTlhFree s tlh ptr) := by
    apply tlh_free_footprint
    · exact Or.inl rfl
    · intro filled
      have tail := ends_at_tail (core.mail.batchList tlh filled)
      exact Or.inr tail
  apply undisturbed_footprint core rest.short afterRest.inv.toCore afterRest.short footprint
    withdrawn.record fun other there => ((withdrawn.live other).mp there).2
  intro cell known
  cases known with
  | inl same =>
      rw [same]
      constructor
      · intro there
        exact ((withdrawn.live ptr).mp there).1 rfl
      · constructor
        · simp [live]
        · exact ⟨owner, owned⟩
  | inr batched =>
      constructor
      · intro there
        have before := ((withdrawn.live cell).mp there).2
        rw [batched] at before
        cases before
      · constructor
        · simp [batched]
        · exact ⟨_, core.objects.owners.batch cell tlh batched⟩

theorem munmap_registered_mem {cleared : State} {header total : Nat} {directs : List Nat}
    (registered : Registered s cleared header total 0) :
    ({ munmap cleared header total with directs := directs } : State).mem = s.mem := by
  rw [registered.only]
  rfl

theorem unmap_direct_mem {header : Nat} (range : DirectRange header (s.direct header).totalBytes) :
    (unmapDirect s header).mem = s.mem :=
  munmap_registered_mem (lz_rtree_set_range_registered range 0)

theorem undisturbed_free (rest : AtRest mode s g) (live : g.node ptr = .live)
    (lost : mode.noLeaks → mode.leavesMapped) (done : lzFree s thread ptr = some after) :
    ∃ last, AtRest mode after last ∧ Withdrawn g last ptr ∧ Undisturbed last s.mem after.mem := by
  obtain ⟨last, afterRest, withdrawn⟩ := withdrawn_free rest live lost done
  apply Exists.intro last
  constructor
  · exact afterRest
  constructor
  · exact withdrawn
  have core := rest.inv.toCore
  have present : g.node ptr ≠ .none := by simp [live]
  by_cases found : resolve s ptr = 0
  · have positive := (core_node_bound core present).1
    simp only [lzFree, if_neg (Nat.pos_iff_ne_zero.mp positive), if_pos found] at done
    obtain rfl := Option.some.inj done
    exact undisturbed_refl last s.mem
  cases free_cases core live found done with
  | inl chunk =>
      obtain ⟨owner, ready, owned, attached, rfl⟩ := chunk
      obtain ⟨readyRest, _, _⟩ := at_rest_attach rest attached
      have freed := undisturbed_tlh_free readyRest live owned afterRest withdrawn
      rw [(ensure_tls_init_frame attached).1] at freed
      exact freed
  | inr direct =>
      obtain ⟨header, isDirect, _, rfl⟩ := direct
      rw [unmap_direct_mem (direct_range core (direct_known core isDirect))]
      exact undisturbed_refl last s.mem

theorem undisturbed_memalign (rest : AtRest mode s g) {alignment : Nat}
    (done : lzMemalign s thread alignment size = some (ptr, after)) :
    Undisturbed g s.mem after.mem := by
  unfold lzMemalign at done
  by_cases invalid : alignment = 0 ∨ ¬isPowerOfTwo alignment
  · rw [if_pos invalid, Option.some.injEq, Prod.mk.injEq] at done
    rw [← done.2]
    exact undisturbed_refl g s.mem
  rw [if_neg invalid] at done
  by_cases small : alignment ≤ 64 ∧ size ≤ lzMaxSlabObjSize
  · rw [if_pos small] at done
    exact undisturbed_malloc rest done
  rw [if_neg small] at done
  by_cases medium : alignment ≤ lzPageSize ∧ size ≤ lzMaxSpanObjSize
  · rw [if_pos medium] at done
    obtain ⟨ready, attached, result⟩ := Option.map_eq_some_iff.mp done
    obtain ⟨readyRest, _, _⟩ := at_rest_attach rest attached
    have taken := undisturbed_keeps readyRest.inv.toCore readyRest.short
      (span_alloc_keeps ready (ready.tls thread) size)
    rw [result, (ensure_tls_init_frame attached).1] at taken
    exact taken
  · rw [if_neg medium] at done
    exact undisturbed_keeps rest.inv.toCore rest.short (map_direct_keeps done)

/-! ## Thread exit and garbage collection -/

theorem thread_exit_frame (s : State) (thread : Nat) :
    (threadExit s thread).regions = s.regions ∧ (threadExit s thread).mem =
      (if s.tls thread = 0 then s else lzTlhFlushOutgoingBatch s (s.tls thread)).mem := by
  have flushed : ∀ (ready : State) (tlh : Nat), (flushTelemetry ready tlh).regions = ready.regions ∧
      (flushTelemetry ready tlh).mem = ready.mem := by
    intro ready tlh
    unfold flushTelemetry
    simp only
    split
    · exact ⟨rfl, rfl⟩
    · exact ⟨rfl, rfl⟩
  unfold threadExit lzTlhDestructor
  by_cases detached : s.tls thread = 0
  · simp only [detached, if_true, and_self]
  · simp only [detached, if_false]
    obtain ⟨regions, mem⟩ := flushed (lzTlhFlushOutgoingBatch s (s.tls thread)) (s.tls thread)
    obtain ⟨same, _⟩ := @flush_frame (fun _ => True) s (s.tls thread) fun _ => trivial
    exact ⟨regions.trans same, mem⟩

/-- The exit of a thread only links the objects of its outgoing batch. -/
theorem undisturbed_exit (rest : AtRest mode s g) (thread : Nat) :
    Undisturbed g s.mem (threadExit s thread).mem := by
  have core := rest.inv.toCore
  obtain ⟨regions, mem⟩ := thread_exit_frame s thread
  obtain ⟨last, afterRest, quiet⟩ := at_rest_exit rest thread
  have footprint : Footprint (fun cell => g.node cell = .batch (s.tls thread)) s
      (threadExit s thread) := by
    constructor
    · exact regions
    · intro byte
      rw [mem]
      split
      · exact Or.inl rfl
      · have tail : (s.outgoingBatch (s.tls thread)).count ≠ 0 →
            g.node (s.outgoingBatch (s.tls thread)).tail = .batch (s.tls thread) := by
          intro filled
          have batched := ends_at_tail (core.mail.batchList (s.tls thread) filled)
          exact batched
        exact ((flush_frame s (s.tls thread) tail).2 byte).imp id Or.inl
  have settled : Undisturbed last s.mem (threadExit s thread).mem := by
    apply undisturbed_footprint core rest.short afterRest.inv.toCore afterRest.short footprint
      quiet.record fun ptr => (quiet.live ptr).mp
    intro cell batched
    constructor
    · rw [ne_eq, quiet.live, batched]
      exact NodePlace.noConfusion
    constructor
    · rw [batched]
      exact NodePlace.noConfusion
    · exact ⟨_, core.objects.owners.batch cell _ batched⟩
  intro ptr byte live lower upper
  apply settled ptr byte ((quiet.live ptr).mpr live) lower
  rwa [quiet.record]

def Spares (kind : Nat → BlockKind) (mem later : Memory) : Prop :=
  ∀ byte, (kind (chunkBase byte)).HoldsObjects → later byte = mem byte

theorem undisturbed_spares (core : Core mode s g) (short : Short s)
    (spares : Spares g.kind s.mem after.mem) : Undisturbed g s.mem after.mem := by
  intro ptr byte live lower upper
  have present : g.node ptr ≠ .none := by simp [live]
  rw [← object_length_record core (by simp [live, NodePlace.InUse])] at upper
  obtain ⟨kinds, _⟩ := object_range_kind core present (short_unwrapped core short ptr) lower upper
  apply spares byte
  rw [kinds]
  exact core.objects.scope ptr present

theorem purge_loop_bytes (fuel : Nat) {chunk count : Nat} {pending : Nat → Prop}
    (chain : Enumerates s.vmm.next chunk pending count)
    (aligned : ∀ each, pending each → each % 2097152 = 0)
    (outside : ¬pending (chunkBase byte)) :
    (purgeLoop fuel s chunk).mem byte = s.mem byte := by
  induction fuel generalizing s chunk count pending with
  | zero => rfl
  | succ fuel ih =>
      unfold purgeLoop
      by_cases done : chunk = 0
      · rw [if_pos done]
      · rw [if_neg done]
        have first := enumerates_head chain done
        obtain ⟨_, popped⟩ := enumerates_pop chain done
          (fun old _ different =>
            (Function.update_of_ne different s.vmm.globalFreeChunks s.vmm.next))
          fun each => (Iff.rfl : pending each ∧ each ≠ chunk ↔ _)
        have later :=
          @ih { deflate s chunk with vmm := globalPush (deflate s chunk).vmm chunk } _ _ _
          popped (fun each waits => aligned each waits.1) fun waits => outside waits.1
        rw [later]
        apply fill_outside
        simp only [lzPageSize, lzHugePageSize]
        by_contra inside
        apply outside
        rw [chunk_base_eq (aligned chunk first) (by omega) (by omega)]
        exact first

theorem purge_pool_spares (core : Core mode s g) {index : Nat} (bound : index < 16) :
    Spares g.kind s.mem (lzVmmPurgePool s index).mem := by
  intro byte holds
  obtain ⟨_, count, _, chain⟩ := cache_inv_pool_drain core.vmm.caches bound
  have pooled : ∀ each, (g.kind each).cached = some (.pool index) →
      g.kind each = .idle (.pool index) := by
    intro each cached
    cases known : g.kind each <;> simp_all [BlockKind.cached]
  have aligned : ∀ each, (g.kind each).cached = some (.pool index) → each % 2097152 = 0 := by
    intro each cached
    exact (core.geom.placed each (by simp [pooled each cached])).1
  have outside : ¬(g.kind (chunkBase byte)).cached = some (.pool index) := by
    intro cached
    rw [pooled (chunkBase byte) cached] at holds
    exact holds
  unfold lzVmmPurgePool
  generalize addressLimit = fuel
  exact @purge_loop_bytes { s with vmm := (poolDrain s.vmm index).2 } byte fuel _ _ _ chain aligned
    outside

theorem purge_all_spares (core : Core mode s g) :
    Spares g.kind s.mem (lzVmmPurgeAllCaches s).mem := by
  have steps : ∀ (indices : List Nat) (state : State) (roles : Nat → BlockKind),
      (∀ index ∈ indices, index < 16) → SameHolders g.kind roles →
      Core mode state { g with kind := roles } →
        Spares g.kind state.mem (indices.foldl lzVmmPurgePool state).mem := by
    intro indices
    induction indices with
    | nil => exact fun _ _ _ _ _ _ _ => rfl
    | cons first rest ih =>
        intro state roles bounds same stateCore byte holds
        obtain ⟨_, middle, middleSame, _, middleCore⟩ :=
          core_purge_pool stateCore (bounds first (by simp))
        have later := ih _ middle (fun index member => bounds index (by simp [member]))
          (same_holders_trans same middleSame) middleCore byte holds
        rw [List.foldl_cons, later]
        apply purge_pool_spares stateCore (bounds first (by simp)) byte
        have kept : roles (chunkBase byte) = g.kind (chunkBase byte) := by
          exact same (chunkBase byte) (Or.inl holds)
        simp only [kept]
        exact holds
  exact steps _ s g.kind (by simp) (same_holders_refl g.kind) core

theorem undisturbed_gc_loop (fuel : Nat) {current : Nat} (rest : AtRest mode s g) :
    Undisturbed g s.mem (gcLoop fuel s current).mem := by
  induction fuel generalizing s g current with
  | zero => exact undisturbed_refl g s.mem
  | succ fuel ih =>
      unfold gcLoop
      by_cases ended : current = 0
      · rw [if_pos ended]
        exact undisturbed_refl g s.mem
      · rw [if_neg ended]
        obtain ⟨last, reapedRest, quiet⟩ := at_rest_housekeeping rest
          (housekeeping_of_sweeping (sweeping_reap rest.inv rest.cursor current))
        exact undisturbed_trans (undisturbed_reap rest.inv rest.short (rest.cursor current)) quiet
          (ih reapedRest)

theorem undisturbed_gc (rest : AtRest mode s g) (thread : Nat) :
    Undisturbed g s.mem (lzmallocGc s thread).mem := by
  have own : ∃ last, AtRest mode (if s.tls thread ≠ 0 then lzTlhReap s (s.tls thread) else s) last ∧
      Quiet g last ∧ Undisturbed g s.mem
        (if s.tls thread ≠ 0 then lzTlhReap s (s.tls thread) else s).mem := by
    split
    · obtain ⟨last, reapedRest, quiet⟩ := at_rest_housekeeping rest
        (housekeeping_of_sweeping (sweeping_reap rest.inv rest.cursor (s.tls thread)))
      exact ⟨last, reapedRest, quiet,
        undisturbed_reap rest.inv rest.short (rest.cursor (s.tls thread))⟩
    · exact ⟨g, rest, quiet_refl g, undisturbed_refl g s.mem⟩
  unfold lzmallocGc
  generalize (if s.tls thread ≠ 0 then lzTlhReap s (s.tls thread) else s) = reaped at own ⊢
  obtain ⟨last, reapedRest, quiet, reapedBytes⟩ := own
  apply undisturbed_trans reapedBytes quiet
  obtain ⟨walked, walkedRest, walkedQuiet⟩ := at_rest_housekeeping reapedRest
    (housekeeping_of_sweeping (sweeping_gc_loop addressLimit reapedRest.inv reapedRest.cursor))
  apply undisturbed_trans (undisturbed_gc_loop addressLimit reapedRest) walkedQuiet
  have core := walkedRest.inv.toCore
  exact undisturbed_spares core walkedRest.short (purge_all_spares core)

end Lzmalloc.ClientBytes
