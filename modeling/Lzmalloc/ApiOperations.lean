import Lzmalloc.ThreadLifecycle

/-!
# Calls of the public interface

Between two calls the allocator is at rest: no list is half reaped, no chunk is
on its way, and every mapped direct object still has its payload pointer. Each
call takes a state at rest to a state at rest and changes the set of live
objects as its contract says.
-/

namespace Lzmalloc.ApiOperations

open SizeClasses HeapState VirtualMemoryManager ByteMemory Engines ThreadHeap PublicApi
open HeapInvariant InvariantFacts ClientView SpanLifecycle RemoteFree ThreadFrames ObjectRanges
open HeapOperations DirectObjects ThreadLifecycle RadixTree

set_option autoImplicit false

variable {mode : Mode} {s after : State} {g last : Ghost} {thread ptr size : Nat} {origin : Origin}

def Held (place : NodePlace) : Prop := place = .live ∨ place = .leaked

structure AtRest (mode : Mode) (s : State) (g : Ghost) : Prop where
  inv : Inv mode s g
  threads : ThreadsOk s
  cursor : ∀ tlh, g.cursor tlh = 0
  settled : ∀ chunk, g.kind chunk ≠ .loose
  tenants : ∀ header ∈ s.directs, ∃ ptr, g.kind (chunkBase ptr) = .direct header ∧ Held (g.node ptr)
  short : ∀ header ∈ s.directs, (s.direct header).size < 2 ^ 63

/-! ## From one state at rest to the next -/

theorem direct_kind_kept (core : Core mode s g) (later : Core mode after last)
    (direct : after.direct = s.direct) {base header : Nat} (isDirect : g.kind base = .direct header)
    (member : header ∈ after.directs) : last.kind base = .direct header := by
  obtain ⟨_, index, rfl, bound⟩ := core.geom.directOf base header isDirect
  rw [← direct] at bound
  exact later.geom.directBlock header member index bound

/-- Direct objects may go, others must keep their payload pointer. -/
theorem at_rest_of (rest : AtRest mode s g) (inv : Inv mode after last) (threads : ThreadsOk after)
    (steady : Steady g last) (direct : after.direct = s.direct)
    (fewer : ∀ header ∈ after.directs, header ∈ s.directs)
    (kept : ∀ ptr header, g.kind (chunkBase ptr) = .direct header → header ∈ after.directs →
      Held (g.node ptr) → Held (last.node ptr)) : AtRest mode after last := by
  refine ⟨inv, threads, ?_, ?_, ?_, ?_⟩
  · intro tlh
    rw [steady.cursor]
    exact rest.cursor tlh
  · intro chunk loose
    exact rest.settled chunk (steady.loose chunk loose)
  · intro header member
    obtain ⟨ptr, isDirect, held⟩ := rest.tenants header (fewer header member)
    exact ⟨ptr, direct_kind_kept rest.inv.toCore inv.toCore direct isDirect member,
      kept ptr header isDirect member held⟩
  · intro header member
    rw [direct]
    exact rest.short header (fewer header member)

theorem quiet_held (quiet : Quiet g last) (held : Held (g.node ptr)) : Held (last.node ptr) :=
  held.imp (quiet.live ptr).mpr (quiet.leaked ptr).mpr

theorem allocated_held {other : Nat} (allocated : Allocated g last ptr origin)
    (held : Held (g.node other)) : Held (last.node other) :=
  held.imp (fun live => (allocated.live other).mpr (Or.inr live)) (allocated.leaked other).mpr

theorem at_rest_housekeeping (rest : AtRest mode s g) (work : Housekeeping mode s g after) :
    ∃ last, AtRest mode after last ∧ Quiet g last := by
  obtain ⟨frame, last, inv, quiet, steady⟩ := work
  refine ⟨last, ?_, quiet⟩
  apply at_rest_of rest inv (threads_ok_same rest.threads frame) steady frame.direct
  · rw [frame.directs]
    exact fun _ => id
  · exact fun _ _ _ _ held => quiet_held quiet held

theorem at_rest_attach (rest : AtRest mode s g) (done : ensureTlsInit s thread = some after) :
    AtRest mode after g ∧ after.tls thread ∈ after.heaps ∧ after.rtree = s.rtree := by
  obtain ⟨inv, threads, attached, same⟩ := inv_ensure_tls_init rest.inv rest.threads done
  refine ⟨?_, threads.attached thread attached, same.rtree⟩
  apply at_rest_of rest inv threads (steady_refl g) same.direct
  · rw [same.directs]
    exact fun _ => id
  · exact fun _ _ _ _ held => held

theorem at_rest_exit (rest : AtRest mode s g) (thread : Nat) :
    ∃ last, AtRest mode (threadExit s thread) last ∧ Quiet g last := by
  obtain ⟨node, inv, quiet, threads, direct, directs⟩ :=
    inv_thread_exit rest.inv rest.threads thread
  refine ⟨_, ?_, quiet⟩
  apply at_rest_of rest inv threads (steady_of_kind rfl rfl) direct
  · rw [directs]
    exact fun _ => id
  · exact fun _ _ _ _ held => quiet_held quiet held

theorem at_rest_write (rest : AtRest mode s g) (live : g.node ptr = .live) {mem : Memory}
    (outside : ∀ byte, ¬(ptr ≤ byte ∧ byte < ptr + originLength (g.record ptr)) →
      mem byte = s.mem byte) : AtRest mode { s with mem := mem } g := by
  have present : g.node ptr ≠ .none := by simp [live]
  have length : objectLength s g ptr = originLength (g.record ptr) := by
    rw [objectLength, rest.inv.recorded ptr (by simp [live, NodePlace.InUse])]
  have unwrapped : Unwrapped s g ptr :=
    fun header isDirect => rest.short header (direct_known rest.inv.toCore isDirect)
  have written := inv_write rest.inv present (by simp [live, NodePlace.InFlight]) unwrapped
    (by rwa [length])
  apply at_rest_of rest written
  · exact threads_ok_same rest.threads rfl
  · exact steady_refl g
  · rfl
  · exact fun _ => id
  · exact fun _ _ _ _ held => held

/-! ## Allocation -/

def Served (mode : Mode) (g : Ghost) (after : State) (ptr : Nat) (origin : Origin) : Prop :=
  ∃ last, AtRest mode after last ∧
    ((ptr = 0 ∧ Quiet g last) ∨ (ptr ≠ 0 ∧ Allocated g last ptr origin))

theorem served_of_engine (rest : AtRest mode s g) (frame : SameThreads s after)
    (outcome : ∃ last, Inv mode after last ∧ Steady g last ∧
      ((ptr = 0 ∧ Quiet g last) ∨ (ptr ≠ 0 ∧ Allocated g last ptr origin))) :
    Served mode g after ptr origin := by
  obtain ⟨last, inv, steady, result⟩ := outcome
  refine ⟨last, ?_, result⟩
  apply at_rest_of rest inv (threads_ok_same rest.threads frame) steady frame.direct
  · rw [frame.directs]
    exact fun _ => id
  · intro other header _ _ held
    rcases result with ⟨_, quiet⟩ | ⟨_, allocated⟩
    · exact quiet_held quiet held
    · exact allocated_held allocated held

theorem served_map_direct (rest : AtRest mode s g) {offset : Nat} (behind : 128 ≤ offset)
    (aligned : offset % 16 = 0) (fits : PayloadFits offset size)
    (done : mapDirect s offset size = some (ptr, after)) :
    Served mode g after ptr (.direct size) := by
  obtain ⟨frame, last, inv, steady, result⟩ := inv_map_direct rest.inv behind aligned fits done
  rcases result with ⟨null, quiet, same⟩ | ⟨nonnull, allocated, header, maps⟩
  · exact served_of_engine rest same ⟨last, inv, steady, Or.inl ⟨null, quiet⟩⟩
  refine ⟨last, ⟨inv, ?_, ?_, ?_, ?_, ?_⟩, Or.inr ⟨nonnull, allocated⟩⟩
  · have threads : ThreadsOk { s with direct := after.direct, directs := after.directs } :=
      ⟨rest.threads.attached, rest.threads.apart, rest.threads.zombies⟩
    exact threads_ok_same threads frame
  · intro tlh
    rw [steady.cursor]
    exact rest.cursor tlh
  · intro chunk loose
    exact rest.settled chunk (steady.loose chunk loose)
  · intro other member
    rw [maps.directs] at member
    have distinct := inv.geom.nodup
    rw [maps.directs, List.nodup_cons] at distinct
    rcases List.mem_cons.mp member with rfl | old
    · exact ⟨ptr, maps.kind, Or.inl ((allocated.live ptr).mpr (Or.inl rfl))⟩
    · obtain ⟨tenant, isDirect, held⟩ := rest.tenants other old
      refine ⟨tenant, ?_, allocated_held allocated held⟩
      obtain ⟨_, index, position, bound⟩ := rest.inv.geom.directOf _ other isDirect
      have different : other ≠ header := by
        rintro rfl
        exact distinct.1 old
      rw [← maps.elsewhere other different] at bound
      rw [position]
      exact inv.geom.directBlock other (by rw [maps.directs]; exact member) index bound
  · intro other member
    rw [maps.directs] at member
    by_cases same : other = header
    · rw [same, maps.here.1]
      exact maps.here.2
    · rw [maps.elsewhere other same]
      exact rest.short other ((List.mem_cons.mp member).resolve_left same)

/-- Routing of `lz_malloc`: what an object of `size` bytes is allocated as. -/
def mallocOrigin (size : Nat) : Origin :=
  if size ≤ lzMaxSlabObjSize then .slab (lzSizeToClass (if size = 0 then 1 else size))
  else if size ≤ lzMaxSpanObjSize then .span (spanPages size)
  else .direct size

def MallocFits (size : Nat) : Prop := size ≤ lzMaxSpanObjSize ∨ PayloadFits 128 size

instance (size : Nat) : Decidable (MallocFits size) := inferInstanceAs (Decidable (_ ∨ _))

theorem served_malloc (rest : AtRest mode s g) (fits : MallocFits size)
    (done : lzMalloc s thread size = some (ptr, after)) :
    Served mode g after ptr (mallocOrigin size) := by
  unfold lzMalloc at done
  obtain ⟨asked, askedEq⟩ : ∃ asked, (if size = 0 then 1 else size) = asked := ⟨_, rfl⟩
  simp only [askedEq] at done
  by_cases small : size ≤ lzMaxSlabObjSize
  · have askedSmall : asked ≤ lzMaxSlabObjSize := by
      rw [← askedEq]
      split
      · decide
      · exact small
    rw [if_pos askedSmall] at done
    obtain ⟨ready, attached, result⟩ := Option.map_eq_some_iff.mp done
    obtain ⟨readyRest, heap, _⟩ := at_rest_attach rest attached
    have allocated := inv_tlh_alloc readyRest.inv heap (readyRest.cursor _) asked
    have frame := tlh_alloc_threads ready (ready.tls thread) asked
    have kind : tlhOrigin asked = mallocOrigin size := by
      rw [tlhOrigin, if_neg (by omega), mallocOrigin, if_pos small, askedEq]
    rw [result, kind] at allocated
    rw [result] at frame
    obtain ⟨last, inv, course, outcome⟩ := allocated
    exact served_of_engine readyRest frame ⟨last, inv, course.toSteady, outcome⟩
  · have positive : size ≠ 0 := by
      rintro rfl
      exact small (by decide)
    rw [if_neg positive] at askedEq
    subst askedEq
    rw [if_neg small] at done
    by_cases medium : size ≤ lzMaxSpanObjSize
    · rw [if_pos medium] at done
      obtain ⟨ready, attached, result⟩ := Option.map_eq_some_iff.mp done
      obtain ⟨readyRest, heap, _⟩ := at_rest_attach rest attached
      have allocated := inv_span_alloc readyRest.inv heap size
      have frame := (span_alloc_accounts ready (ready.tls thread) size).outside.threads
      rw [result] at allocated frame
      rw [mallocOrigin, if_neg small, if_pos medium]
      obtain ⟨last, inv, course, outcome⟩ := allocated
      exact served_of_engine readyRest frame ⟨last, inv, course.toSteady, outcome⟩
    · rw [if_neg medium] at done
      rw [mallocOrigin, if_neg small, if_neg medium]
      exact served_map_direct rest (by norm_num) (by norm_num) (fits.resolve_left medium) done

theorem malloc_length (bound : size < 2 ^ 64) : size ≤ originLength (mallocOrigin size) := by
  unfold mallocOrigin
  by_cases small : size ≤ lzMaxSlabObjSize
  · rw [if_pos small]
    simp only [originLength]
    by_cases zero : size = 0
    · omega
    · rw [if_neg zero]
      apply size_le_class_size
      simp only [lzMaxSlabObjSize] at small
      omega
  · rw [if_neg small]
    by_cases medium : size ≤ lzMaxSpanObjSize
    · rw [if_pos medium]
      simp only [lzMaxSpanObjSize] at medium
      simp only [originLength, spanPages, lzPageSize, lz_align_up_page]
      omega
    · rw [if_neg medium]
      exact le_rfl

/-! ## Aligned allocation -/

def memalignOrigin (alignment size : Nat) : Origin :=
  if alignment ≤ 64 ∧ size ≤ lzMaxSlabObjSize then mallocOrigin (lzAlignUp size alignment)
  else if alignment ≤ lzPageSize ∧ size ≤ lzMaxSpanObjSize then .span (spanPages size)
  else .direct size

def MemalignFits (alignment size : Nat) : Prop :=
  isPowerOfTwo alignment = true → memalignDirect alignment size →
    PayloadFits (memalignOffset alignment) size

instance (alignment size : Nat) : Decidable (MemalignFits alignment size) :=
  inferInstanceAs (Decidable (_ → _ → _))

theorem memalign_offset {alignment : Nat} (bound : alignment < 2 ^ 64)
    (power : isPowerOfTwo alignment = true) :
    128 ≤ memalignOffset alignment ∧ memalignOffset alignment % 16 = 0 ∧
      memalignOffset alignment ≤ 2 ^ 63 := by
  obtain ⟨k, rfl⟩ := is_power_of_two_eq power
  have kBound : k < 64 := (Nat.pow_lt_pow_iff_right (by norm_num)).mp bound
  have checked : ∀ k < 64, 128 ≤ memalignOffset (2 ^ k) ∧ memalignOffset (2 ^ k) % 16 = 0 ∧
      memalignOffset (2 ^ k) ≤ 2 ^ 63 := by decide
  exact checked k kBound

theorem promoted_bound {alignment : Nat} (small : alignment ≤ 64) (slab : size ≤ lzMaxSlabObjSize) :
    lzAlignUp size alignment ≤ lzMaxSpanObjSize := by
  simp only [lzMaxSlabObjSize] at slab
  cases Nat.eq_zero_or_pos alignment with
  | inl zero =>
      rw [zero, lz_align_up_zero]
      exact Nat.zero_le _
  | inr positive =>
      have raised := @lz_align_up_lt size alignment positive (by omega)
      simp only [lzMaxSpanObjSize]
      omega

theorem served_memalign (rest : AtRest mode s g) {alignment : Nat} (bound : alignment < 2 ^ 64)
    (fits : MemalignFits alignment size)
    (done : lzMemalign s thread alignment size = some (ptr, after)) :
    Served mode g after ptr (memalignOrigin alignment size) := by
  unfold lzMemalign at done
  by_cases invalid : alignment = 0 ∨ ¬isPowerOfTwo alignment
  · rw [if_pos invalid] at done
    simp only [Option.some.injEq, Prod.mk.injEq] at done
    obtain ⟨rfl, rfl⟩ := done
    exact ⟨g, rest, Or.inl ⟨rfl, quiet_refl g⟩⟩
  rw [if_neg invalid] at done
  have power : isPowerOfTwo alignment = true := by
    by_contra other
    exact invalid (Or.inr other)
  unfold memalignOrigin
  by_cases slab : alignment ≤ 64 ∧ size ≤ lzMaxSlabObjSize
  · rw [if_pos slab] at done ⊢
    exact served_malloc rest (Or.inl (promoted_bound slab.1 slab.2)) done
  rw [if_neg slab] at done ⊢
  by_cases span : alignment ≤ lzPageSize ∧ size ≤ lzMaxSpanObjSize
  · rw [if_pos span] at done ⊢
    obtain ⟨ready, attached, result⟩ := Option.map_eq_some_iff.mp done
    obtain ⟨readyRest, heap, _⟩ := at_rest_attach rest attached
    have allocated := inv_span_alloc readyRest.inv heap size
    have frame := (span_alloc_accounts ready (ready.tls thread) size).outside.threads
    rw [result] at allocated frame
    obtain ⟨last, inv, course, outcome⟩ := allocated
    exact served_of_engine readyRest frame ⟨last, inv, course.toSteady, outcome⟩
  · rw [if_neg span] at done ⊢
    obtain ⟨behind, aligned, _⟩ := memalign_offset bound power
    exact served_map_direct rest behind aligned (fits power ⟨slab, span⟩) done

theorem memalign_length {alignment : Nat} (positive : 0 < alignment) (bound : size < 2 ^ 64) :
    size ≤ originLength (memalignOrigin alignment size) := by
  unfold memalignOrigin
  by_cases slab : alignment ≤ 64 ∧ size ≤ lzMaxSlabObjSize
  · rw [if_pos slab]
    obtain ⟨small, fits⟩ := slab
    simp only [lzMaxSlabObjSize] at fits
    have promoted := @lz_align_up_le size alignment positive (by omega)
    have limit := promoted_bound small fits
    simp only [lzMaxSpanObjSize] at limit
    exact promoted.trans (malloc_length (by omega))
  · rw [if_neg slab]
    by_cases span : alignment ≤ lzPageSize ∧ size ≤ lzMaxSpanObjSize
    · rw [if_pos span]
      have medium := span.2
      simp only [lzMaxSpanObjSize] at medium
      simp only [originLength, spanPages, lzPageSize, lz_align_up_page]
      omega
    · rw [if_neg span]
      exact le_rfl

/-! ## Free -/

structure Withdrawn (g last : Ghost) (ptr : Nat) : Prop where
  live : ∀ other, last.node other = .live ↔ other ≠ ptr ∧ g.node other = .live
  used : ∀ other, (last.node other).InUse → (g.node other).InUse
  record : last.record = g.record

theorem in_use_cases {place : NodePlace} (used : place.InUse) :
    place = .live ∨ place = .leaked ∨ place.InFlight := by
  cases place with
  | live => exact Or.inl rfl
  | leaked => exact Or.inr (Or.inl rfl)
  | batch tlh => exact Or.inr (Or.inr trivial)
  | mail tlh => exact Or.inr (Or.inr trivial)
  | reaping tlh => exact Or.inr (Or.inr trivial)
  | none => exact used.elim
  | free => exact used.elim

theorem withdrawn_of_released (live : g.node ptr = .live) (released : Released g last ptr) :
    Withdrawn g last ptr := by
  refine ⟨released.live, ?_, released.record⟩
  intro other used
  rcases in_use_cases used with there | there | there
  · rw [((released.live other).mp there).2]
    trivial
  · rw [(released.leaked other).mp there]
    trivial
  · rcases released.flying other there with rfl | flying
    · rw [live]
      trivial
    · exact in_flight_used flying

/-- A free that finds no chunk drops the object. -/
theorem inv_leak (inv : Inv mode s g) (live : g.node ptr = .live) (allowed : ¬mode.noLeaks) :
    Inv mode s (g.settle ptr .leaked) := by
  have other : ∀ each place, place ≠ .live → place ≠ .leaked →
      (Function.update g.node ptr .leaked each = place ↔ g.node each = place) := by
    intro each place notLive notLeaked
    by_cases same : each = ptr
    · rw [same, Function.update_self, live]
      exact iff_of_false notLeaked.symm notLive.symm
    · rw [Function.update_of_ne same]
  have relocated : Relocated g.node (Function.update g.node ptr .leaked) := by
    intro each
    by_cases same : each = ptr
    · rw [same, live, Function.update_self]
      exact Or.inr ⟨trivial, trivial⟩
    · exact Or.inl (Function.update_of_ne same _ _)
  have mail := mail_inv_congr inv.mail (fun each tlh => other each (.mail tlh) (by simp) (by simp))
    (fun each tlh => other each (.batch tlh) (by simp) (by simp))
    (fun each tlh => other each (.reaping tlh) (by simp) (by simp)) fun _ _ => rfl
  have objects : ObjectInv mode s.rtree s.outgoingBatch s.direct s.heaps g.kind
      (Function.update g.node ptr .leaked) := by
    refine object_inv_update inv.objects ?_ (by simp) (by simp) (by simp) ?_ ?_ ?_
    · intro _
      exact inv.objects.scope ptr (by simp [live])
    · exact fun _ _ => Or.inr ⟨by simp [live], Or.inr rfl⟩
    · intro _ flying
      exact flying.elim
    · exact fun forbidden => absurd forbidden allowed
  exact inv_relocate inv relocated (fun _ _ => rfl) mail objects

/-- Masking the pointer does not change the lookup. -/
theorem resolve_eq (s : State) (ptr : Nat) : resolve s ptr = lzRtreeGet s.rtree ptr := by
  have same : chunkBase ptr / 2097152 = ptr / 2097152 := by
    simp only [chunkBase, lzHugePageSize]
    omega
  have lookup : lzRtreeGet s.rtree (chunkBase ptr) = lzRtreeGet s.rtree ptr := by
    obtain ⟨first, second⟩ := rtree_index_block same
    simp only [lzRtreeGet, first, second]
  unfold resolve
  simp only [lookup, ite_self]

theorem resolve_cases (core : Core mode s g) (present : g.node ptr ≠ .none)
    (found : resolve s ptr ≠ 0) :
    ((∃ tlh, (g.kind (chunkBase ptr)).owner = some tlh) ∧ resolve s ptr = chunkBase ptr ∧
        magicOk s.vmm (chunkBase ptr) ∧ (s.vmm.header (chunkBase ptr)).chunkType ≠ .direct) ∨
      ∃ header, g.kind (chunkBase ptr) = .direct header ∧ resolve s ptr = header ∧
        magicOk s.vmm header ∧ (s.vmm.header header).chunkType = .direct := by
  obtain ⟨_, bound⟩ := core_node_bound core present
  rw [resolve_eq] at found ⊢
  have entry := (core.rtree.sound ptr (by omega)).resolve_left found
  cases kind : g.kind (chunkBase ptr) with
  | slab tlh classIdx =>
      rw [kind] at entry
      have magic := (core.vmm.takenHeader (chunkBase ptr) (by simp [kind, BlockKind.TakenOut])).1
      have type := (core.header.slab _ tlh classIdx kind).2.1
      exact Or.inl ⟨⟨tlh, rfl⟩, entry, magic, by simp [type]⟩
  | span tlh =>
      rw [kind] at entry
      have magic := (core.vmm.takenHeader (chunkBase ptr) (by simp [kind, BlockKind.TakenOut])).1
      have type := (core.header.span _ tlh kind).2
      exact Or.inl ⟨⟨tlh, rfl⟩, entry, magic, by simp [type]⟩
  | direct header =>
      rw [kind] at entry
      have first := geom_direct_header core.geom (direct_known core kind)
      exact Or.inr ⟨header, rfl, entry, core.header.direct header first⟩
  | unused =>
      have holds := core.objects.scope ptr present
      simp [kind, BlockKind.HoldsObjects] at holds
  | idle place =>
      have holds := core.objects.scope ptr present
      simp [kind, BlockKind.HoldsObjects] at holds
  | loose =>
      have holds := core.objects.scope ptr present
      simp [kind, BlockKind.HoldsObjects] at holds

theorem leaves_granted_of_mapped (core : Core mode s g) (leaves : mode.leavesMapped) :
    LeavesGranted s :=
  fun call _ => core.leaves leaves call

/-- With every leaf mapped that was asked for, every object resolves. -/
theorem resolve_granted (rest : AtRest mode s g) (granted : LeavesGranted s)
    (present : g.node ptr ≠ .none) : resolve s ptr ≠ 0 := by
  obtain ⟨_, bound⟩ := core_node_bound rest.inv.toCore present
  obtain ⟨_, positive, _⟩ := core_placed rest.inv.toCore present
  rw [resolve_eq, rest.inv.rtree.complete granted ptr (by omega) (rest.settled _)]
  cases kind : g.kind (chunkBase ptr) with
  | slab tlh classIdx => exact Nat.pos_iff_ne_zero.mp positive
  | span tlh => exact Nat.pos_iff_ne_zero.mp positive
  | loose => exact Nat.pos_iff_ne_zero.mp positive
  | direct header =>
      have first := geom_direct_header rest.inv.geom (direct_known rest.inv.toCore kind)
      obtain ⟨_, nonnull, _⟩ := rest.inv.geom.placed header (by simp [first])
      exact Nat.pos_iff_ne_zero.mp nonnull
  | unused =>
      have holds := rest.inv.objects.scope ptr present
      simp [kind, BlockKind.HoldsObjects] at holds
  | idle place =>
      have holds := rest.inv.objects.scope ptr present
      simp [kind, BlockKind.HoldsObjects] at holds

theorem resolve_found (rest : AtRest mode s g) (leaves : mode.leavesMapped)
    (present : g.node ptr ≠ .none) : resolve s ptr ≠ 0 :=
  resolve_granted rest (leaves_granted_of_mapped rest.inv.toCore leaves) present

theorem withdrawn_unmap (rest : AtRest mode s g) (live : g.node ptr = .live) {header : Nat}
    (isDirect : g.kind (chunkBase ptr) = .direct header) :
    ∃ last, AtRest mode (unmapDirect s header) last ∧ Withdrawn g last ptr := by
  obtain ⟨frame, last, inv, released, steady⟩ := inv_unmap_direct rest.inv live isDirect
  have directs : (unmapDirect s header).directs = s.directs.erase header := frame.directs
  have threads : ThreadsOk { s with directs := s.directs.erase header } :=
    ⟨rest.threads.attached, rest.threads.apart, rest.threads.zombies⟩
  refine ⟨last, ?_, withdrawn_of_released live released⟩
  apply at_rest_of rest inv (threads_ok_same threads frame) steady frame.direct
  · rw [directs]
    exact fun _ => List.mem_of_mem_erase
  · intro other owner otherDirect member held
    rw [directs, rest.inv.geom.nodup.mem_erase_iff] at member
    have different : other ≠ ptr := by
      rintro rfl
      rw [isDirect] at otherDirect
      cases otherDirect
      exact member.1 rfl
    exact held.imp (fun there => (released.live other).mpr ⟨different, there⟩)
      (released.leaked other).mpr

theorem withdrawn_tlh_free (rest : AtRest mode s g) (live : g.node ptr = .live) {owner tlh : Nat}
    (owned : (g.kind (chunkBase ptr)).owner = some owner) (heap : tlh ∈ s.heaps)
    (found : resolve s ptr ≠ 0) :
    ∃ last, AtRest mode (lzTlhFree s tlh ptr) last ∧ Withdrawn g last ptr := by
  rw [resolve_eq] at found
  obtain ⟨last, inv, released, swept, _⟩ := inv_tlh_free rest.inv live owned heap fun _ => found
  have frame := tlh_free_threads s tlh ptr
  refine ⟨last, ?_, withdrawn_of_released live released⟩
  apply at_rest_of rest inv (threads_ok_same rest.threads frame) swept.toSteady frame.direct
  · rw [frame.directs]
    exact fun _ => id
  · intro other header isDirect _ held
    have different : other ≠ ptr := by
      rintro rfl
      simp [isDirect, BlockKind.owner] at owned
    exact held.imp (fun there => (released.live other).mpr ⟨different, there⟩)
      (released.leaked other).mpr

theorem free_cases (core : Core mode s g) (live : g.node ptr = .live) (found : resolve s ptr ≠ 0)
    (done : lzFree s thread ptr = some after) :
    (∃ owner ready, (g.kind (chunkBase ptr)).owner = some owner ∧
        ensureTlsInit s thread = some ready ∧ after = lzTlhFree ready (ready.tls thread) ptr) ∨
      ∃ header, g.kind (chunkBase ptr) = .direct header ∧ resolve s ptr = header ∧
        after = unmapDirect s header := by
  have present : g.node ptr ≠ .none := by simp [live]
  obtain ⟨positive, _⟩ := core_node_bound core present
  simp only [lzFree, if_neg (Nat.pos_iff_ne_zero.mp positive), if_neg found] at done
  rcases resolve_cases core present found with
    ⟨⟨owner, owned⟩, chunk, magic, type⟩ | ⟨header, isDirect, chunk, magic, type⟩
  · rw [chunk, if_neg (not_not.mpr magic), if_neg type] at done
    obtain ⟨ready, attached, rfl⟩ := Option.map_eq_some_iff.mp done
    exact Or.inl ⟨owner, ready, owned, attached, rfl⟩
  · rw [chunk, if_neg (not_not.mpr magic), if_pos type] at done
    obtain rfl := Option.some.inj done
    exact Or.inr ⟨header, isDirect, chunk, rfl⟩

theorem withdrawn_free (rest : AtRest mode s g) (live : g.node ptr = .live)
    (lost : mode.noLeaks → mode.leavesMapped) (done : lzFree s thread ptr = some after) :
    ∃ last, AtRest mode after last ∧ Withdrawn g last ptr := by
  have present : g.node ptr ≠ .none := by simp [live]
  by_cases found : resolve s ptr = 0
  · obtain ⟨positive, _⟩ := core_node_bound rest.inv.toCore present
    simp only [lzFree, if_neg (Nat.pos_iff_ne_zero.mp positive), if_pos found] at done
    obtain rfl := Option.some.inj done
    have allowed : ¬mode.noLeaks := fun noLeaks => resolve_found rest (lost noLeaks) present found
    refine ⟨g.settle ptr .leaked, ?_, ⟨?_, ?_, rfl⟩⟩
    · apply at_rest_of rest (inv_leak rest.inv live allowed) rest.threads
        (steady_of_kind rfl rfl) rfl
      · exact fun _ => id
      · intro other header _ _ held
        by_cases same : other = ptr
        · exact Or.inr (by simp [same])
        · simpa [same] using held
    · intro other
      by_cases same : other = ptr
      · simp [same]
      · simp [same]
    · intro other used
      by_cases same : other = ptr
      · rw [same, live]
        trivial
      · simpa [same] using used
  rcases free_cases rest.inv.toCore live found done with
    ⟨owner, ready, owned, attached, rfl⟩ | ⟨header, isDirect, _, rfl⟩
  · obtain ⟨readyRest, heap, rtree⟩ := at_rest_attach rest attached
    refine withdrawn_tlh_free readyRest live owned heap ?_
    rw [resolve_eq, rtree, ← resolve_eq]
    exact found
  · exact withdrawn_unmap rest live isDirect

/-! ## Usable size, calloc and realloc -/

theorem usable_size_eq (core : Core mode s g) (present : g.node ptr ≠ .none)
    (found : resolve s ptr ≠ 0) : lzMallocUsableSize s ptr = objectLength s g ptr := by
  obtain ⟨positive, _⟩ := core_node_bound core present
  unfold lzMallocUsableSize
  simp only [if_neg (Nat.pos_iff_ne_zero.mp positive), if_neg found]
  rcases resolve_cases core present found with
    ⟨⟨owner, owned⟩, chunk, magic, type⟩ | ⟨header, isDirect, chunk, magic, type⟩
  · rw [chunk, if_neg (not_not.mpr magic)]
    cases kind : g.kind (chunkBase ptr) with
    | slab tlh classIdx =>
        simp only [(core.header.slab _ tlh classIdx kind).2.1, lzCacheLineSize,
          (core.slabs _ tlh classIdx kind).blockSize, objectLength, kind,
          objectOrigin, originLength]
    | span tlh =>
        obtain ⟨page, position, listed, _, inside, length⟩ := span_object core present kind
        have startPage : (ptr - chunkBase ptr) / 4096 % 2 ^ 32 = page := by omega
        simp only [(core.header.span _ tlh kind).2, length, lzCacheLineSize, lzPageSize, startPage]
    | unused => simp [kind, BlockKind.owner] at owned
    | idle place => simp [kind, BlockKind.owner] at owned
    | loose => simp [kind, BlockKind.owner] at owned
    | direct header => simp [kind, BlockKind.owner] at owned
  · rw [chunk, if_neg (not_not.mpr magic)]
    simp only [type, objectLength, isDirect, objectOrigin, originLength]

theorem usable_size_zero (missing : resolve s ptr = 0) : lzMallocUsableSize s ptr = 0 := by
  unfold lzMallocUsableSize
  by_cases null : ptr = 0
  · rw [if_pos null]
  · rw [if_neg null]
    simp only [if_pos missing]

theorem served_write (served : Served mode g after ptr origin) (nonnull : ptr ≠ 0) {mem : Memory}
    (outside : ∀ byte, ¬(ptr ≤ byte ∧ byte < ptr + originLength origin) →
      mem byte = after.mem byte) : Served mode g { after with mem := mem } ptr origin := by
  obtain ⟨last, rest, result⟩ := served
  rcases result with ⟨null, _⟩ | ⟨_, allocated⟩
  · exact absurd null nonnull
  · refine ⟨last, ?_, Or.inr ⟨nonnull, allocated⟩⟩
    apply at_rest_write rest ((allocated.live ptr).mpr (Or.inl rfl))
    rwa [allocated.record, Function.update_self]

def callocSize (num size : Nat) : Nat := if num = 0 ∨ size = 0 then 1 else num * size

/-- `SIZE_MAX / num < size` fails exactly when the product fits in a word. -/
theorem calloc_size_bound {num : Nat} (positive : 0 < num)
    (fits : ¬(2 ^ 64 - 1) / num < size) : num * size < 2 ^ 64 := by
  have product := (Nat.le_div_iff_mul_le positive).mp (Nat.not_lt.mp fits)
  rw [Nat.mul_comm] at product
  omega

theorem lz_calloc_eq (s : State) (thread num size : Nat) :
    lzCalloc s thread num size =
      if callocSize num size < 2 ^ 64 then
        (lzMalloc s thread (callocSize num size)).map fun allocated =>
          if allocated.1 = 0 then (0, allocated.2)
          else if callocSize num size ≤ lzMaxSpanObjSize then
            (allocated.1,
              { allocated.2 with mem := fill allocated.2.mem allocated.1 (callocSize num size) 0 })
          else allocated
      else some (0, s) := by
  obtain ⟨count, countEq⟩ : ∃ count, (if num = 0 ∨ size = 0 then 1 else num) = count := ⟨_, rfl⟩
  obtain ⟨width, widthEq⟩ : ∃ width, (if num = 0 ∨ size = 0 then 1 else size) = width := ⟨_, rfl⟩
  have positive : 0 < count := by
    rw [← countEq]
    split
    · exact Nat.one_pos
    · omega
  have total : callocSize num size = count * width := by
    rw [callocSize, ← countEq, ← widthEq]
    split <;> rfl
  simp only [lzCalloc, countEq, widthEq, total]
  by_cases overflow : (2 ^ 64 - 1) / count < width
  · have wide := (Nat.div_lt_iff_lt_mul positive).mp overflow
    rw [Nat.mul_comm] at wide
    rw [if_pos overflow, if_neg (by omega)]
  · rw [if_neg overflow, if_pos (calloc_size_bound positive overflow)]

theorem calloc_cases {num result : Nat} (done : lzCalloc s thread num size = some (result, after)) :
    (2 ^ 64 ≤ callocSize num size ∧ result = 0 ∧ after = s) ∨
      callocSize num size < 2 ^ 64 ∧
        ∃ ready, lzMalloc s thread (callocSize num size) = some (result, ready) ∧
          (after = ready ∨ result ≠ 0 ∧
            after = { ready with mem := fill ready.mem result (callocSize num size) 0 }) := by
  rw [lz_calloc_eq] at done
  by_cases bound : callocSize num size < 2 ^ 64
  · rw [if_pos bound] at done
    obtain ⟨⟨found, ready⟩, allocated, finished⟩ := Option.map_eq_some_iff.mp done
    refine Or.inr ⟨bound, ready, ?_⟩
    by_cases null : found = 0
    · simp only [null, if_true, Prod.mk.injEq] at finished
      obtain ⟨rfl, rfl⟩ := finished
      rw [null] at allocated
      exact ⟨allocated, Or.inl rfl⟩
    · simp only [if_neg null] at finished
      split at finished
      · simp only [Prod.mk.injEq] at finished
        obtain ⟨rfl, rfl⟩ := finished
        exact ⟨allocated, Or.inr ⟨null, rfl⟩⟩
      · simp only [Prod.mk.injEq] at finished
        obtain ⟨rfl, rfl⟩ := finished
        exact ⟨allocated, Or.inl rfl⟩
  · rw [if_neg bound, Option.some.injEq, Prod.mk.injEq] at done
    exact Or.inl ⟨Nat.not_lt.mp bound, done.1.symm, done.2.symm⟩

theorem served_calloc (rest : AtRest mode s g) {num : Nat}
    (fits : callocSize num size < 2 ^ 64 → MallocFits (callocSize num size))
    (done : lzCalloc s thread num size = some (ptr, after)) :
    Served mode g after ptr (mallocOrigin (callocSize num size)) := by
  rcases calloc_cases done with
    ⟨_, rfl, rfl⟩ | ⟨bound, ready, allocated, rfl | ⟨nonnull, rfl⟩⟩
  · exact ⟨g, rest, Or.inl ⟨rfl, quiet_refl g⟩⟩
  · exact served_malloc rest (fits bound) allocated
  · apply served_write (served_malloc rest (fits bound) allocated) nonnull
    intro byte outside
    apply fill_outside
    have room := malloc_length bound
    omega

theorem lz_realloc_branches {newSize result : Nat} (nonnull : ptr ≠ 0) (positive : newSize ≠ 0)
    (done : lzRealloc s thread ptr newSize = some (result, after)) :
    (result = 0 ∧ after = s ∧ lzMallocUsableSize s ptr = 0) ∨
      (result = ptr ∧ after = s ∧ newSize ≤ lzMallocUsableSize s ptr) ∨
      (lzMallocUsableSize s ptr ≠ 0 ∧ lzMallocUsableSize s ptr < newSize ∧
        (result = 0 ∧ lzMalloc s thread newSize = some (0, after) ∨
          result ≠ 0 ∧ ∃ ready, lzMalloc s thread newSize = some (result, ready) ∧
            lzFree { ready with mem := copy ready.mem result ptr (lzMallocUsableSize s ptr) } thread
              ptr = some after)) := by
  simp only [lzRealloc, if_neg nonnull, if_neg positive] at done
  by_cases unknown : lzMallocUsableSize s ptr = 0
  · rw [if_pos unknown, Option.some.injEq, Prod.mk.injEq] at done
    exact Or.inl ⟨done.1.symm, done.2.symm, unknown⟩
  rw [if_neg unknown] at done
  by_cases shrinks : newSize ≤ lzMallocUsableSize s ptr
  · rw [if_pos shrinks, Option.some.injEq, Prod.mk.injEq] at done
    exact Or.inr (Or.inl ⟨done.1.symm, done.2.symm, shrinks⟩)
  rw [if_neg shrinks] at done
  obtain ⟨⟨found, ready⟩, allocated, moved⟩ := Option.bind_eq_some_iff.mp done
  simp only at moved
  refine Or.inr (Or.inr ⟨unknown, by omega, ?_⟩)
  by_cases null : found = 0
  · rw [if_pos null, Option.some.injEq, Prod.mk.injEq] at moved
    rw [null, moved.2] at allocated
    exact Or.inl ⟨moved.1.symm, allocated⟩
  rw [if_neg null] at moved
  split at moved
  · cases moved
  · obtain ⟨freed, released, same⟩ := Option.map_eq_some_iff.mp moved
    rw [Prod.mk.injEq] at same
    obtain ⟨rfl, rfl⟩ := same
    exact Or.inr ⟨null, ready, allocated, released⟩

theorem served_copy {ready : State} {result newSize source length : Nat}
    (served : Served mode g ready result (mallocOrigin newSize)) (nonnull : result ≠ 0)
    (bound : newSize < 2 ^ 64) (shorter : length ≤ newSize) :
    Served mode g { ready with mem := copy ready.mem result source length } result
      (mallocOrigin newSize) := by
  apply served_write served nonnull
  intro byte outside
  apply copy_outside
  have room := malloc_length bound
  omega

/-- `lz_realloc` of a live object to a positive size: it fails and changes
nothing, or keeps the object where it is, or moves it. -/
theorem realloc_cases (rest : AtRest mode s g) (live : g.node ptr = .live)
    (lost : mode.noLeaks → mode.leavesMapped) {newSize result : Nat} (positive : newSize ≠ 0)
    (bound : newSize < 2 ^ 64)
    (fits : lzMallocUsableSize s ptr ≠ 0 → lzMallocUsableSize s ptr < newSize → MallocFits newSize)
    (done : lzRealloc s thread ptr newSize = some (result, after)) :
    (result = 0 ∧ ∃ last, AtRest mode after last ∧ Quiet g last) ∨
      (result = ptr ∧ after = s ∧ newSize ≤ lzMallocUsableSize s ptr) ∨
      (result ≠ 0 ∧ ∃ middle last, AtRest mode after last ∧
        Allocated g middle result (mallocOrigin newSize) ∧ Withdrawn middle last ptr) := by
  obtain ⟨nonnull, _⟩ := core_node_bound rest.inv.toCore (by simp [live] : g.node ptr ≠ .none)
  rcases lz_realloc_branches (Nat.pos_iff_ne_zero.mp nonnull) positive done with
    ⟨rfl, rfl, _⟩ | stays | ⟨known, grows, ⟨rfl, refused⟩ | ⟨moved, ready, allocated, released⟩⟩
  · exact Or.inl ⟨rfl, g, rest, quiet_refl g⟩
  · exact Or.inr (Or.inl stays)
  · obtain ⟨last, readyRest, outcome⟩ := served_malloc rest (fits known grows) refused
    exact Or.inl ⟨rfl, last, readyRest, (outcome.resolve_right fun some => some.1 rfl).2⟩
  · have served := served_malloc rest (fits known grows) allocated
    obtain ⟨middle, copiedRest, outcome⟩ := served_copy served moved bound (le_of_lt grows)
    have fresh := (outcome.resolve_left fun failed => moved failed.1).2
    obtain ⟨last, lastRest, withdrawn⟩ :=
      withdrawn_free copiedRest ((fresh.live ptr).mpr (Or.inr live)) lost released
    exact Or.inr (Or.inr ⟨moved, middle, last, lastRest, fresh, withdrawn⟩)

end Lzmalloc.ApiOperations
