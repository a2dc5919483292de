import Lzmalloc.ObjectContracts
import Lzmalloc.TwinStates

/-!
# Clients cannot steer the allocator

Free blocks carry links of the allocator in memory that clients owned a moment
ago, masked with a secret that differs from process to process. Two runs that
make the same calls but write other bytes into their objects, at other times and
under another secret, stay indistinguishable: every call returns the same
pointer, or kills the process in both, and the two allocators differ in nothing
but memory and secret.
-/

namespace Lzmalloc.Noninterference

open SizeClasses HeapState VirtualMemoryManager ByteMemory Engines ThreadHeap PublicApi PointerChain
open StepSystem HeapInvariant InvariantFacts ClientView ObjectRanges HeapOperations DirectObjects
open ThreadLifecycle RemoteFree ThreadFrames DirectContracts ApiOperations ApiRuns ClientBytes
open ConcreteView MemoryBlind TwinStates SlabContracts ObjectContracts

set_option autoImplicit false

variable {mode : Mode} {s t after later : State} {g last : Ghost} {thread ptr size : Nat}

/-! ## Thread start -/

theorem paired_alike (paired : Paired mode s t) : Alike s t := by
  obtain ⟨_, _, _, twin⟩ := paired
  exact twin.alike

theorem ensure_tls_init_secret (done : ensureTlsInit s thread = some after) :
    after.secret = s.secret := by
  rcases ensure_tls_init_cases done with ⟨_, rfl⟩ | ⟨_, _, rfl⟩ | ⟨_, _, address, _, rfl⟩
  · rfl
  · rfl
  · rfl

theorem option_rel_cases {Value : Type*} {related : Value → Value → Prop}
    {left right : Option Value}
    (rel : Option.Rel related left right) :
    (left = none ∧ right = none) ∨
      ∃ first second, left = some first ∧ right = some second ∧ related first second := by
  cases rel with
  | none => exact Or.inl ⟨rfl, rfl⟩
  | some same => exact Or.inr ⟨_, _, rfl, rfl, same⟩

theorem option_rel_map {Value Final : Type*} {related : Value → Value → Prop}
    {outcome : Final → Final → Prop} {left right : Option Value} {finish later : Value → Final}
    (rel : Option.Rel related left right)
    (finished : ∀ first second, left = some first → related first second →
      outcome (finish first) (later second)) :
    Option.Rel outcome (left.map finish) (right.map later) := by
  cases rel with
  | none => exact Option.Rel.none
  | some same => exact Option.Rel.some (finished _ _ rfl same)

theorem paired_outcome {left right : Option (Nat × State)}
    (rel : Option.Rel (PairedResult mode) left right) :
    (left = none ∧ right = none) ∨ ∃ ptr first second, left = some (ptr, first) ∧
      right = some (ptr, second) ∧ Paired mode first second := by
  cases rel with
  | none => exact Or.inl ⟨rfl, rfl⟩
  | @some first second same =>
      refine Or.inr ⟨first.1, first.2, second.2, rfl, ?_, same.states⟩
      rw [← same.value]

theorem paired_attach (rest : AtRest mode s g) (paired : Paired mode s t) (thread : Nat) :
    Option.Rel (Paired mode) (ensureTlsInit s thread) (ensureTlsInit t thread) := by
  have twin := paired_twin paired rest.inv.toCore rest.cursor
  rcases option_rel_cases (ensure_tls_init_alike twin.alike thread) with
    ⟨leftDied, rightDied⟩ | ⟨left, right, leftDone, rightDone, alike⟩
  · rw [leftDied, rightDied]
    exact Option.Rel.none
  · rw [leftDone, rightDone]
    obtain ⟨leftRest, _, _⟩ := at_rest_attach rest leftDone
    apply Option.Rel.some
    refine ⟨g, leftRest.inv, rest.cursor, ?_⟩
    exact twin_same twin alike (ensure_tls_init_frame leftDone).1 (ensure_tls_init_secret leftDone)
      (ensure_tls_init_frame rightDone).1 (ensure_tls_init_secret rightDone)

theorem paired_on_heap {Value : Type*} {related : Value → Value → Prop} {call : State → Value}
    (rest : AtRest mode s g) (paired : Paired mode s t)
    (same : ∀ left right, ensureTlsInit s thread = some left → Paired mode left right →
      right.tls = left.tls → related (call left) (call right)) :
    Option.Rel related ((ensureTlsInit s thread).map call) ((ensureTlsInit t thread).map call) := by
  apply option_rel_map (paired_attach rest paired thread)
  intro left right leftDone attached
  exact same left right leftDone attached (alike_tls (paired_alike attached))

/-! ## Direct objects -/

theorem map_direct_frame {offset : Nat} (done : mapDirect s offset size = some (ptr, after)) :
    SameSlabs s after ∧ after.secret = s.secret := by
  rcases map_direct_cases s offset size with
    ⟨_, failed⟩ | ⟨_, _, died⟩ | ⟨_, _, start, mapped, reached, maps, registered, served⟩
  · rw [failed, Option.some.injEq, Prod.mk.injEq] at done
    rw [← done.2]
    exact ⟨⟨rfl, rfl, rfl⟩, rfl⟩
  · rw [died] at done
    cases done
  · rw [served, Option.some.injEq, Prod.mk.injEq] at done
    rw [← done.2, registered.only, writeDirect, maps.rest]
    exact ⟨⟨rfl, rfl, rfl⟩, rfl⟩

theorem paired_map_direct (paired : Paired mode s t) {offset : Nat} (behind : 128 ≤ offset)
    (aligned : offset % 16 = 0) (fits : PayloadFits offset size) :
    Option.Rel (PairedResult mode) (mapDirect s offset size) (mapDirect t offset size) := by
  obtain ⟨g, inv, idle, twin⟩ := paired
  rcases option_rel_cases (map_direct_matches twin.alike offset size) with
    ⟨leftDied, rightDied⟩ | ⟨⟨ptr, left⟩, ⟨_, right⟩, leftDone, rightDone, ⟨rfl, alike⟩⟩
  · rw [leftDied, rightDied]
    exact Option.Rel.none
  rw [leftDone, rightDone]
  obtain ⟨_, last, lastInv, steady, outcome⟩ := inv_map_direct inv behind aligned fits leftDone
  have flying : ∀ ptr, (last.node ptr).InFlight → (g.node ptr).InFlight := by
    rcases outcome with ⟨_, quiet, _⟩ | ⟨_, allocated, _⟩
    · exact quiet.flying
    · exact allocated.flying
  obtain ⟨slabs, secret⟩ := map_direct_frame leftDone
  apply Option.Rel.some
  refine ⟨rfl, last, lastInv, ?_, ?_⟩
  · rw [steady.cursor]
    exact idle
  · apply twin_keeps inv.toCore lastInv.toCore twin alike
    · exact lists_shrink_same inv.toCore lastInv.toCore slabs
    · exact flying
    · exact map_direct_keeps leftDone
    · exact map_direct_keeps rightDone
    · exact secret
    · exact (map_direct_frame rightDone).2

structure SameLoads (s after : State) : Prop where
  slabs : SameSlabs s after
  mem : after.mem = s.mem
  secret : after.secret = s.secret
  heaps : after.heaps = s.heaps
  batches : after.outgoingBatch = s.outgoingBatch
  mailboxes : after.remoteFreeHead = s.remoteFreeHead

theorem munmap_registered_loads {cleared : State} {header total : Nat} {directs : List Nat}
    (registered : Registered s cleared header total 0) :
    SameLoads s { munmap cleared header total with directs := directs } := by
  rw [registered.only]
  exact ⟨⟨rfl, rfl, rfl⟩, rfl, rfl, rfl, rfl, rfl⟩

theorem unmap_direct_loads {header : Nat}
    (range : DirectRange header (s.direct header).totalBytes) :
    SameLoads s (unmapDirect s header) :=
  munmap_registered_loads (lz_rtree_set_range_registered range 0)

theorem travelling_same (same : SameLoads s after) : Travelling after ptr ↔ Travelling s ptr := by
  simp only [Travelling, InBatch, InMailbox, same.mem, same.heaps, same.batches, same.mailboxes]

theorem paired_unmap_direct (inv : Inv mode s g) (idle : ∀ tlh, g.cursor tlh = 0)
    (twin : Twin g s t) (live : g.node ptr = .live) {header : Nat}
    (isDirect : g.kind (chunkBase ptr) = .direct header) :
    Paired mode (unmapDirect s header) (unmapDirect t header) := by
  obtain ⟨_, last, lastInv, released, steady⟩ := inv_unmap_direct inv live isDirect
  have range := direct_range inv.toCore (direct_known inv.toCore isDirect)
  have direct : t.direct = s.direct := by
    obtain ⟨mem, secret, rfl⟩ := twin.alike
    rfl
  have leftSame := unmap_direct_loads range
  have rightSame : SameLoads t (unmapDirect t header) := by
    apply unmap_direct_loads
    rwa [direct]
  have lastIdle : ∀ tlh, last.cursor tlh = 0 := by
    rw [steady.cursor]
    exact idle
  refine ⟨last, lastInv, lastIdle, ?_⟩
  apply twin_frame inv.toCore lastInv.toCore twin (unmap_direct_alike twin.alike header)
  · exact lists_shrink_same inv.toCore lastInv.toCore leftSame.slabs
  · intro other flying
    rw [← travelling_iff lastInv.toCore lastIdle, travelling_same leftSame] at flying
    exact (travelling_iff inv.toCore idle).mp flying
  · rw [leftSame.mem]
    exact same_links_refl g last s.mem
  · rw [rightSame.mem]
    exact same_links_refl g last t.mem
  · exact leftSame.secret
  · exact rightSame.secret

/-! ## Allocation and free -/

theorem paired_malloc (rest : AtRest mode s g) (paired : Paired mode s t) (fits : MallocFits size)
    (thread : Nat) :
    Option.Rel (PairedResult mode) (lzMalloc s thread size) (lzMalloc t thread size) := by
  unfold lzMalloc
  obtain ⟨asked, askedEq⟩ : ∃ asked, (if size = 0 then 1 else size) = asked := ⟨_, rfl⟩
  simp only [askedEq]
  by_cases small : asked ≤ lzMaxSlabObjSize
  · rw [if_pos small, if_pos small]
    apply paired_on_heap rest paired
    intro left right attached same tls
    rw [tls]
    exact paired_tlh_alloc same (at_rest_attach rest attached).2.1 asked
  rw [if_neg small, if_neg small]
  by_cases medium : asked ≤ lzMaxSpanObjSize
  · rw [if_pos medium, if_pos medium]
    apply paired_on_heap rest paired
    intro left right attached same tls
    rw [tls]
    exact paired_span_alloc same (at_rest_attach rest attached).2.1 asked
  · rw [if_neg medium, if_neg medium]
    have positive : size ≠ 0 := by
      rintro rfl
      rw [← askedEq] at small
      exact small (by decide)
    rw [if_neg positive] at askedEq
    rw [← askedEq] at medium ⊢
    exact paired_map_direct paired (Nat.le_refl 128) rfl (fits.resolve_left medium)

theorem paired_memalign {alignment : Nat} (rest : AtRest mode s g) (paired : Paired mode s t)
    (bound : alignment < 2 ^ 64) (fits : MemalignFits alignment size) :
    Option.Rel (PairedResult mode) (lzMemalign s thread alignment size)
      (lzMemalign t thread alignment size) := by
  unfold lzMemalign
  by_cases invalid : alignment = 0 ∨ ¬isPowerOfTwo alignment
  · rw [if_pos invalid, if_pos invalid]
    exact Option.Rel.some ⟨rfl, paired⟩
  rw [if_neg invalid, if_neg invalid]
  have power : isPowerOfTwo alignment = true := by
    by_contra other
    exact invalid (Or.inr other)
  by_cases slab : alignment ≤ 64 ∧ size ≤ lzMaxSlabObjSize
  · rw [if_pos slab, if_pos slab]
    exact paired_malloc rest paired (Or.inl (promoted_bound slab.1 slab.2)) thread
  rw [if_neg slab, if_neg slab]
  by_cases span : alignment ≤ lzPageSize ∧ size ≤ lzMaxSpanObjSize
  · rw [if_pos span, if_pos span]
    apply paired_on_heap rest paired
    intro left right attached same tls
    rw [tls]
    exact paired_span_alloc same (at_rest_attach rest attached).2.1 size
  · rw [if_neg span, if_neg span]
    obtain ⟨behind, aligned, _⟩ := memalign_offset bound power
    exact paired_map_direct paired behind aligned (fits power ⟨slab, span⟩)

/-- An object that the tree does not know is left alone in both states. -/
theorem paired_free (rest : AtRest mode s g) (paired : Paired mode s t) (live : g.node ptr = .live)
    (thread : Nat) :
    Option.Rel (Paired mode) (lzFree s thread ptr) (lzFree t thread ptr) := by
  have present : g.node ptr ≠ .none := by simp [live]
  have core := rest.inv.toCore
  have twin := paired_twin paired core rest.cursor
  obtain ⟨positive, _⟩ := core_node_bound core present
  simp only [lzFree, if_neg (Nat.pos_iff_ne_zero.mp positive), resolve_alike twin.alike,
    alike_vmm_eq twin.alike]
  by_cases missing : resolve s ptr = 0
  · rw [if_pos missing, if_pos missing]
    exact Option.Rel.some paired
  rw [if_neg missing, if_neg missing]
  rcases resolve_cases core present missing with
    ⟨⟨owner, owned⟩, chunk, magic, type⟩ | ⟨header, isDirect, chunk, magic, type⟩
  · rw [chunk, if_neg (not_not.mpr magic), if_neg (not_not.mpr magic), if_neg type, if_neg type]
    apply paired_on_heap rest paired
    intro left right attached same tls
    rw [tls]
    obtain ⟨leftRest, heap, rtree⟩ := at_rest_attach rest attached
    apply paired_tlh_free leftRest.inv leftRest.cursor
      (paired_twin same leftRest.inv.toCore leftRest.cursor) live owned heap
    intro _
    rw [rtree, ← resolve_eq]
    exact missing
  · rw [chunk, if_neg (not_not.mpr magic), if_neg (not_not.mpr magic), if_pos type, if_pos type]
    exact Option.Rel.some (paired_unmap_direct rest.inv rest.cursor twin live isDirect)

/-! ## Bytes of clients -/

theorem link_kept (rest : AtRest mode s g) (live : g.node ptr = .live) {cell : Nat}
    (carries : g.node cell = .free ∨ (g.node cell).InFlight) {before now : Memory}
    (outside : ∀ byte, ¬(ptr ≤ byte ∧ byte < ptr + originLength (g.record ptr)) →
      now byte = before byte) : linkAt now cell = linkAt before cell := by
  have core := rest.inv.toCore
  have present : g.node ptr ≠ .none := by simp [live]
  have length : objectLength s g ptr = originLength (g.record ptr) := by
    rw [objectLength, rest.inv.recorded ptr (by simp [live, NodePlace.InUse])]
  have unwrapped : Unwrapped s g ptr :=
    fun header isDirect => rest.short header (direct_known core isDirect)
  have cellPresent : g.node cell ≠ .none := by
    intro absent
    simp [absent, NodePlace.InFlight] at carries
  have different : ptr ≠ cell := by
    rintro rfl
    simp [live, NodePlace.InFlight] at carries
  obtain ⟨owner, owned⟩ : ∃ owner, (g.kind (chunkBase cell)).owner = some owner := by
    apply (holder_cases (core.objects.scope cell cellPresent)).resolve_right
    rintro ⟨header, isDirect⟩
    rcases core.objects.direct.places cell header isDirect with there | there | there <;>
      simp [there, NodePlace.InFlight] at carries
  apply load_congr
  intro byte lower upper
  apply outside
  intro inside
  rw [← length] at inside
  exact cell_outside core present unwrapped cellPresent owned different inside ⟨lower, upper⟩

theorem paired_write (rest : AtRest mode s g) (paired : Paired mode s t) (live : g.node ptr = .live)
    {mem other : Memory}
    (outside : ∀ byte, ¬(ptr ≤ byte ∧ byte < ptr + originLength (g.record ptr)) →
      mem byte = s.mem byte)
    (otherOutside : ∀ byte, ¬(ptr ≤ byte ∧ byte < ptr + originLength (g.record ptr)) →
      other byte = t.mem byte) :
    Paired mode { s with mem := mem } { t with mem := other } := by
  have twin := paired_twin paired rest.inv.toCore rest.cursor
  refine ⟨g, (at_rest_write rest live outside).inv, rest.cursor, ?_⟩
  constructor
  · obtain ⟨_, secret, rfl⟩ := twin.alike
    exact ⟨other, secret, rfl⟩
  · intro cell free
    have carries : g.node cell = .free ∨ (g.node cell).InFlight := Or.inl free
    rw [free_link_congr _ (link_kept rest live carries outside),
      free_link_congr _ (link_kept rest live carries otherOutside)]
    exact twin.free cell free
  · intro cell flying
    have carries : g.node cell = .free ∨ (g.node cell).InFlight := Or.inr flying
    rw [link_kept rest live carries outside, link_kept rest live carries otherOutside]
    exact twin.flying cell flying

theorem paired_served_write {origin : Origin} (served : Served mode g after ptr origin)
    (nonnull : ptr ≠ 0) (paired : Paired mode after later) {mem other : Memory}
    (outside : ∀ byte, ¬(ptr ≤ byte ∧ byte < ptr + originLength origin) → mem byte = after.mem byte)
    (otherOutside : ∀ byte, ¬(ptr ≤ byte ∧ byte < ptr + originLength origin) →
      other byte = later.mem byte) :
    Paired mode { after with mem := mem } { later with mem := other } := by
  obtain ⟨last, rest, outcome⟩ := served
  rcases outcome with ⟨null, _⟩ | ⟨_, allocated⟩
  · exact absurd null nonnull
  · have record : last.record ptr = origin := by rw [allocated.record, Function.update_self]
    rw [← record] at outside otherOutside
    exact paired_write rest paired ((allocated.live ptr).mpr (Or.inl rfl)) outside otherOutside

theorem paired_calloc {num : Nat} (rest : AtRest mode s g) (paired : Paired mode s t)
    (fits : callocSize num size < 2 ^ 64 → MallocFits (callocSize num size)) :
    Option.Rel (PairedResult mode) (lzCalloc s thread num size) (lzCalloc t thread num size) := by
  rw [lz_calloc_eq, lz_calloc_eq]
  by_cases bound : callocSize num size < 2 ^ 64
  · rw [if_pos bound, if_pos bound]
    rcases paired_outcome (paired_malloc rest paired (fits bound) thread) with
      ⟨leftDied, rightDied⟩ | ⟨ptr, left, right, leftDone, rightDone, same⟩
    · rw [leftDied, rightDied]
      exact Option.Rel.none
    rw [leftDone, rightDone]
    apply Option.Rel.some
    have served := served_malloc rest (fits bound) leftDone
    have room := malloc_length bound
    by_cases null : ptr = 0
    · simp only [if_pos null]
      exact ⟨rfl, same⟩
    · simp only [if_neg null]
      split
      · refine ⟨rfl, paired_served_write served null same ?_ ?_⟩
        · intro byte outside
          exact fill_outside _ (by omega)
        · intro byte outside
          exact fill_outside _ (by omega)
      · exact ⟨rfl, same⟩
  · rw [if_neg bound, if_neg bound]
    exact Option.Rel.some ⟨rfl, paired⟩

theorem paired_realloc (rest : AtRest mode s g) (paired : Paired mode s t)
    (known : ptr = 0 ∨ g.node ptr = .live) (bound : size < 2 ^ 64)
    (fits : ptr = 0 ∨ lzMallocUsableSize s ptr ≠ 0 ∧ lzMallocUsableSize s ptr < size →
      MallocFits size) :
    Option.Rel (PairedResult mode) (lzRealloc s thread ptr size) (lzRealloc t thread ptr size) := by
  unfold lzRealloc
  by_cases null : ptr = 0
  · rw [if_pos null, if_pos null]
    exact paired_malloc rest paired (fits (Or.inl null)) thread
  rw [if_neg null, if_neg null]
  have live := known.resolve_left null
  by_cases nothing : size = 0
  · rw [if_pos nothing, if_pos nothing]
    exact option_rel_map (paired_free rest paired live thread) fun _ _ _ same => ⟨rfl, same⟩
  rw [if_neg nothing, if_neg nothing]
  simp only [usable_size_alike (paired_alike paired)]
  by_cases unknown : lzMallocUsableSize s ptr = 0
  · rw [if_pos unknown, if_pos unknown]
    exact Option.Rel.some ⟨rfl, paired⟩
  rw [if_neg unknown, if_neg unknown]
  by_cases stays : size ≤ lzMallocUsableSize s ptr
  · rw [if_pos stays, if_pos stays]
    exact Option.Rel.some ⟨rfl, paired⟩
  rw [if_neg stays, if_neg stays]
  have room := fits (Or.inr ⟨unknown, Nat.lt_of_not_le stays⟩)
  rcases paired_outcome (paired_malloc rest paired room thread) with
    ⟨leftDied, rightDied⟩ | ⟨result, left, right, leftDone, rightDone, same⟩
  · rw [leftDied, rightDied]
    exact Option.Rel.none
  rw [leftDone, rightDone]
  simp only [Option.bind_some]
  by_cases refused : result = 0
  · rw [if_pos refused, if_pos refused]
    exact Option.Rel.some ⟨rfl, same⟩
  rw [if_neg refused, if_neg refused]
  split
  · exact Option.Rel.none
  have shorter := Nat.le_of_not_le stays
  have served := served_malloc rest room leftDone
  have length := malloc_length bound
  have copied : Paired mode
      { left with mem := copy left.mem result ptr (lzMallocUsableSize s ptr) }
      { right with mem := copy right.mem result ptr (lzMallocUsableSize s ptr) } := by
    apply paired_served_write served refused same
    · intro byte outside
      exact copy_outside _ (by omega)
    · intro byte outside
      exact copy_outside _ (by omega)
  obtain ⟨middle, copiedRest, outcome⟩ := served_copy served refused bound shorter
  have fresh := (outcome.resolve_left fun failed => refused failed.1).2
  have freed := paired_free copiedRest copied ((fresh.live ptr).mpr (Or.inr live)) thread
  exact option_rel_map freed fun _ _ _ same => ⟨rfl, same⟩

/-! ## Thread exit and garbage collection -/

theorem thread_exit_detached (detached : s.tls thread = 0) : threadExit s thread = s := by
  have same : Function.update s.tls thread 0 = s.tls := by
    rw [← detached, Function.update_eq_self]
  simp only [threadExit, lzTlhDestructor, if_pos detached, same]

theorem thread_exit_flushed (attached : s.tls thread ≠ 0) :
    (threadExit s thread).mem = (lzTlhFlushOutgoingBatch s (s.tls thread)).mem ∧
      (threadExit s thread).secret = (lzTlhFlushOutgoingBatch s (s.tls thread)).secret := by
  have counted := flush_telemetry_outside (lzTlhFlushOutgoingBatch s (s.tls thread)) (s.tls thread)
  constructor
  · rw [(thread_exit_frame s thread).2, if_neg attached]
  · rw [← counted.secret]
    simp only [threadExit, lzTlhDestructor, if_neg attached]

theorem inv_exit_flushed (attached : s.tls thread ≠ 0)
    (flushed : Inv mode (lzTlhFlushOutgoingBatch s (s.tls thread)) g) :
    Inv mode (threadExit s thread) g := by
  have counted := inv_flush_telemetry flushed (s.tls thread)
  unfold threadExit lzTlhDestructor
  simp only [if_neg attached]
  exact { counted.toCore with filled := counted.filled }

theorem paired_exit (paired : Paired mode s t) (thread : Nat) :
    Paired mode (threadExit s thread) (threadExit t thread) := by
  have tls := alike_tls (paired_alike paired)
  by_cases attached : s.tls thread = 0
  · rw [thread_exit_detached attached, thread_exit_detached (by rw [tls, attached])]
    exact paired
  obtain ⟨g, inv, idle, twin⟩ := paired
  obtain ⟨node, flushed, _, _, flushedTwin⟩ := twin_flush inv twin (s.tls thread)
  obtain ⟨leftMem, leftSecret⟩ := thread_exit_flushed attached
  have rightAttached : t.tls thread ≠ 0 := by rwa [tls]
  obtain ⟨rightMem, rightSecret⟩ := thread_exit_flushed rightAttached
  rw [tls] at rightMem rightSecret
  refine ⟨{ g with node := node }, inv_exit_flushed attached flushed, idle, ?_⟩
  exact twin_same flushedTwin (thread_exit_alike twin.alike thread) leftMem leftSecret rightMem
    rightSecret

theorem paired_gc_loop (fuel current : Nat) (paired : Paired mode s t) :
    Paired mode (gcLoop fuel s current) (gcLoop fuel t current) := by
  induction fuel generalizing s t current with
  | zero => exact paired
  | succ fuel ih =>
      by_cases finished : current = 0
      · rw [gcLoop, gcLoop, if_pos finished, if_pos finished]
        exact paired
      · have reaped := paired_reap paired current
        have heaps : (lzTlhReap t current).tlh = (lzTlhReap s current).tlh := by
          obtain ⟨mem, secret, same⟩ := paired_alike reaped
          rw [same]
        rw [gcLoop, gcLoop, if_neg finished, if_neg finished]
        dsimp only
        rw [heaps]
        exact ih _ reaped

theorem paired_purge (paired : Paired mode s t) :
    Paired mode (lzVmmPurgeAllCaches s) (lzVmmPurgeAllCaches t) := by
  obtain ⟨g, inv, idle, twin⟩ := paired
  obtain ⟨last, lastInv, quiet, swept⟩ := inv_purge inv
  refine ⟨last, lastInv, ?_, ?_⟩
  · rw [swept.cursor]
    exact idle
  · apply twin_frame inv.toCore lastInv.toCore twin (purge_alike twin.alike)
    · exact lists_shrink_same inv.toCore lastInv.toCore
        (only_manager_slabs (ChunkTransfer.core_purge_all inv.toCore).1)
    · exact quiet.flying
    · exact same_links_spares lastInv.toCore (purge_all_spares inv.toCore)
    · exact same_links_spares lastInv.toCore (purge_all_spares (core_twin inv.toCore twin))
    · exact (purge_all_accounts s).outside.secret
    · exact (purge_all_accounts t).outside.secret

theorem paired_gc (paired : Paired mode s t) (thread : Nat) :
    Paired mode (lzmallocGc s thread) (lzmallocGc t thread) := by
  have tls := alike_tls (paired_alike paired)
  have reaped : Paired mode (if s.tls thread ≠ 0 then lzTlhReap s (s.tls thread) else s)
      (if s.tls thread ≠ 0 then lzTlhReap t (s.tls thread) else t) := by
    split
    · exact paired_reap paired _
    · exact paired
  unfold lzmallocGc
  rw [tls]
  generalize (if s.tls thread ≠ 0 then lzTlhReap s (s.tls thread) else s) = left at *
  generalize (if s.tls thread ≠ 0 then lzTlhReap t (s.tls thread) else t) = right at *
  have zombies : right.gZombieTlhs = left.gZombieTlhs := by
    obtain ⟨mem, secret, rfl⟩ := paired_alike reaped
    rfl
  dsimp only
  rw [zombies]
  exact paired_purge (paired_gc_loop addressLimit _ reaped)

/-! ## Steps of the public interface -/

structure Indistinct (mode : Mode) (sys other : ApiSys) : Prop where
  live : other.live = sys.live
  born : other.born = sys.born
  states : Paired mode sys.state other.state

def isCall : ApiAct → Bool
  | .write _ _ _ => false
  | _ => true

variable {sys other reached : ApiSys} {left right : State}

theorem read_origin_alike (alike : Alike left right) (ptr : Nat) :
    readOrigin right ptr = readOrigin left ptr := by
  obtain ⟨mem, secret, rfl⟩ := alike
  rfl

theorem indistinct_state (same : Indistinct mode sys other) (paired : Paired mode left right) :
    Indistinct mode { sys with state := left } { other with state := right } :=
  ⟨same.live, same.born, paired⟩

theorem indistinct_hand_out {direct : Prop} [Decidable direct] (same : Indistinct mode sys other)
    (paired : Paired mode left right) (ptr size : Nat) :
    Indistinct mode (handOut sys left ptr size direct) (handOut other right ptr size direct) := by
  unfold handOut
  split
  · exact indistinct_state same paired
  · constructor
    · simp only [same.live]
    · simp only [same.born, read_origin_alike (paired_alike paired)]
    · exact paired

theorem indistinct_take_back (same : Indistinct mode sys other) (paired : Paired mode left right)
    (ptr : Nat) : Indistinct mode (takeBack sys left ptr) (takeBack other right ptr) := by
  constructor
  · simp only [takeBack, same.live]
  · exact same.born
  · exact paired

theorem indistinct_finish_realloc (same : Indistinct mode sys other)
    (paired : Paired mode left right) (ptr size result : Nat) :
    Indistinct mode (finishRealloc sys left ptr size result)
      (finishRealloc other right ptr size result) := by
  unfold finishRealloc
  split
  · exact indistinct_hand_out same paired result size
  split
  · exact indistinct_take_back same paired ptr
  split
  · exact indistinct_state same paired
  split
  · constructor
    · simp only [same.live]
    · exact same.born
    · exact paired
  · exact indistinct_hand_out (indistinct_take_back same paired ptr) paired result size

theorem indistinct_result {first second : Option (Nat × State)}
    {finish later : Nat × State → ApiSys}
    (rel : Option.Rel (PairedResult mode) first second)
    (finished : ∀ ptr left right, Paired mode left right →
      Indistinct mode (finish (ptr, left)) (later (ptr, right))) :
    Option.Rel (Indistinct mode) (first.map finish) (second.map later) := by
  apply option_rel_map rel
  rintro ⟨ptr, left⟩ ⟨other, right⟩ _ ⟨value, states⟩
  rw [show other = ptr from value]
  exact finished ptr left right states

theorem indistinct_call (ok : ApiOk mode sys g) (same : Indistinct mode sys other) {act : ApiAct}
    (fits : ApiFits sys act) (call : isCall act = true) :
    Option.Rel (Indistinct mode) (apiStep sys act) (apiStep other act) := by
  have paired := same.states
  cases act with
  | malloc thread size =>
      simp only [apiStep]
      split
      · apply indistinct_result (paired_malloc ok.rest paired fits thread)
        intro ptr left right returned
        exact indistinct_hand_out same returned ptr size
      · exact Option.Rel.none
  | calloc thread num size =>
      simp only [apiStep]
      split
      · apply indistinct_result (paired_calloc ok.rest paired fits)
        intro ptr left right returned
        exact indistinct_hand_out same returned ptr (num * size)
      · exact Option.Rel.none
  | realloc thread ptr size =>
      simp only [apiStep, same.live]
      split
      · next allowed =>
          have known := allowed.2.imp_right (ok.live ptr).mp
          apply indistinct_result (paired_realloc ok.rest paired known allowed.1 fits)
          intro result left right returned
          exact indistinct_finish_realloc same returned ptr size result
      · exact Option.Rel.none
  | memalign thread alignment size =>
      simp only [apiStep]
      split
      · next bound =>
          apply indistinct_result (paired_memalign ok.rest paired bound.1 fits)
          intro ptr left right returned
          exact indistinct_hand_out same returned ptr size
      · exact Option.Rel.none
  | free thread ptr =>
      simp only [apiStep, same.live]
      split
      · next known =>
          have freed : Option.Rel (Paired mode) (lzFree sys.state thread ptr)
              (lzFree other.state thread ptr) := by
            by_cases null : ptr = 0
            · rw [lzFree, lzFree, if_pos null, if_pos null]
              exact Option.Rel.some paired
            · exact paired_free ok.rest paired ((ok.live ptr).mp (known.resolve_left null)) thread
          apply option_rel_map freed
          intro left right _ returned
          exact indistinct_take_back same returned ptr
      · exact Option.Rel.none
  | exit thread => exact Option.Rel.some (indistinct_state same (paired_exit paired thread))
  | gc thread => exact Option.Rel.some (indistinct_state same (paired_gc paired thread))
  | attach thread =>
      apply option_rel_map (paired_attach ok.rest paired thread)
      intro left right _ returned
      exact indistinct_state same returned
  | reap tlh =>
      have heaps : other.state.heaps = sys.state.heaps := by
        obtain ⟨mem, secret, alike⟩ := paired_alike paired
        rw [alike]
      simp only [apiStep, heaps]
      split
      · exact Option.Rel.some (indistinct_state same (paired_reap paired tlh))
      · exact Option.Rel.none
  | write ptr offset value => cases call

theorem write_inside (ok : ApiOk mode sys g) {ptr offset : Nat} (mem : Memory) (value : UInt8)
    (inside : offset < max ((sys.live ptr).getD 0) (lzMallocUsableSize sys.state ptr))
    (known : (sys.live ptr).isSome) :
    g.node ptr = .live ∧
      ∀ byte, ¬(ptr ≤ byte ∧ byte < ptr + originLength (g.record ptr)) →
        Function.update mem (ptr + offset) value byte = mem byte := by
  obtain ⟨asked, askedEq⟩ := Option.isSome_iff_exists.mp known
  have room := client_range ok askedEq
  rw [askedEq, Option.getD_some] at inside
  constructor
  · exact (ok.live ptr).mp known
  · intro byte outside
    exact Function.update_of_ne (by omega) _ _

theorem indistinct_write (ok : ApiOk mode sys g) (same : Indistinct mode sys other) {act : ApiAct}
    (writes : isCall act = false) (stepped : apiStep sys act = some reached) :
    Indistinct mode reached other := by
  cases act with
  | write ptr offset value =>
      simp only [apiStep] at stepped
      split at stepped
      · next allowed =>
          obtain rfl := Option.some.inj stepped
          obtain ⟨live, outside⟩ := write_inside ok sys.state.mem value allowed.1 allowed.2
          exact ⟨same.live, same.born, paired_write ok.rest same.states live outside fun _ _ => rfl⟩
      · cases stepped
  | _ => cases writes

theorem indistinct_other_write (ok : ApiOk mode sys g) (same : Indistinct mode sys other)
    {act : ApiAct} (writes : isCall act = false) (stepped : apiStep other act = some reached) :
    Indistinct mode sys reached := by
  cases act with
  | write ptr offset value =>
      simp only [apiStep, same.live, usable_size_alike (paired_alike same.states)] at stepped
      split at stepped
      · next allowed =>
          obtain rfl := Option.some.inj stepped
          obtain ⟨live, outside⟩ := write_inside ok other.state.mem value allowed.1 allowed.2
          exact ⟨rfl, same.born, paired_write ok.rest same.states live (fun _ _ => rfl) outside⟩
      · cases stepped
  | _ => cases writes

theorem indistinct_other_writes (ok : ApiOk mode sys g) (same : Indistinct mode sys other)
    {acts : List ApiAct} (writes : ∀ act ∈ acts, ¬isCall act = true)
    (ran : run apiStep other acts = some reached) : Indistinct mode sys reached := by
  induction acts generalizing other with
  | nil =>
      obtain rfl := Option.some.inj ran
      exact same
  | cons act rest ih =>
      obtain ⟨next, stepped, ran⟩ := Option.bind_eq_some_iff.mp ran
      have quiet : isCall act = false := by simpa using writes act List.mem_cons_self
      apply ih (indistinct_other_write ok same quiet stepped) _ ran
      exact fun later member => writes later (List.mem_cons_of_mem _ member)

/-- Runs that make the same calls stay indistinguishable. -/
theorem indistinct_run {acts others : List ApiAct} {finish otherFinish : ApiSys}
    (lost : mode.noLeaks → mode.leavesMapped) (ok : ∃ g, ApiOk mode sys g)
    (same : Indistinct mode sys other) (fits : Along apiStep ApiFits sys acts)
    (ran : run apiStep sys acts = some finish)
    (otherRan : run apiStep other others = some otherFinish)
    (calls : others.filter isCall = acts.filter isCall) :
    Indistinct mode finish otherFinish := by
  induction acts generalizing sys other others with
  | nil =>
      obtain rfl := Option.some.inj ran
      obtain ⟨g, ok⟩ := ok
      exact indistinct_other_writes ok same (List.filter_eq_nil_iff.mp calls) otherRan
  | cons act rest ih =>
      obtain ⟨g, ok⟩ := ok
      obtain ⟨next, stepped, ran⟩ := Option.bind_eq_some_iff.mp ran
      obtain ⟨allowed, onward⟩ := fits
      have nextOk := api_step_ok ok lost allowed stepped
      cases call : isCall act with
      | false =>
          rw [List.filter_cons_of_neg (by simp [call])] at calls
          exact ih nextOk (indistinct_write ok same call stepped) (onward next stepped) ran otherRan
            calls
      | true =>
          -- The other run reaches the same call after some writes.
          rw [List.filter_cons_of_pos call] at calls
          obtain ⟨writes, behind, rfl, quiet, _, onwardCalls⟩ := List.filter_eq_cons_iff.mp calls
          rw [run_append] at otherRan
          obtain ⟨middle, written, otherRan⟩ := Option.bind_eq_some_iff.mp otherRan
          have sameMiddle := indistinct_other_writes ok same quiet written
          obtain ⟨otherNext, otherStepped, otherRan⟩ := Option.bind_eq_some_iff.mp otherRan
          have rel := indistinct_call ok sameMiddle allowed call
          rw [stepped, otherStepped] at rel
          cases rel with
          | some sameNext => exact ih nextOk sameNext (onward next stepped) ran otherRan onwardCalls

/-! ## What a client can learn and change -/

theorem twin_start (env : Env) (secret key : BitVec 64) (telemetry : Bool) :
    Twin emptyGhost (initial env secret telemetry) (initial env key telemetry) := by
  constructor
  · exact ⟨_, key, rfl⟩
  · intro ptr free
    cases free
  · intro ptr flying
    exact flying.elim

theorem indistinct_start (env : Env) (secret key : BitVec 64) (telemetry : Bool)
    (leaves : mode.leavesMapped → ∀ call, env.leafMmap call = true) :
    Indistinct mode (apiStart env secret telemetry) (apiStart env key telemetry) := by
  constructor
  · rfl
  · rfl
  · exact ⟨emptyGhost, inv_initial env secret telemetry leaves, fun _ => rfl,
      twin_start env secret key telemetry⟩

/-- Every link that the allocator may still load, free blocks decoded with the
secret of their process. -/
structure LinksAgree (s t : State) : Prop where
  free : ∀ ptr, SlabObject s ptr → OnFreeList s ptr →
    freeLink t.secret t.mem ptr = freeLink s.secret s.mem ptr
  travelling : ∀ ptr, Travelling s ptr → linkAt t.mem ptr = linkAt s.mem ptr

theorem links_agree (ok : ApiOk mode sys g) (same : Indistinct mode sys other) :
    LinksAgree sys.state other.state := by
  have core := ok.rest.inv.toCore
  have twin := paired_twin same.states core ok.rest.cursor
  constructor
  · rintro ptr ⟨⟨tlh, classIdx, owned⟩, _⟩ free
    have isSlab := (owns_slab_iff core ok.rest.settled).mp owned
    exact twin.free ptr ((on_free_list_iff core isSlab).mp free)
  · intro ptr flying
    exact twin.flying ptr ((travelling_iff core ok.rest.cursor).mp flying)

section Runs

variable {act : ApiAct} {acts others : List ApiAct} {env : Env} {secret key : BitVec 64}
  {telemetry : Bool}

theorem survives_alike (ok : ApiOk mode sys g) (same : Indistinct mode sys other)
    (fits : ApiFits sys act) (call : isCall act = true) :
    (apiStep other act).isSome = (apiStep sys act).isSome := by
  rcases option_rel_cases (indistinct_call ok same fits call) with
    ⟨leftDied, rightDied⟩ | ⟨left, right, leftDone, rightDone, _⟩
  · rw [leftDied, rightDied]
  · rw [leftDone, rightDone]
    rfl

theorem value_alike {first second : Option (Nat × State)}
    (rel : Option.Rel (PairedResult mode) first second) :
    second.map Prod.fst = first.map Prod.fst := by
  rcases paired_outcome rel with ⟨rfl, rfl⟩ | ⟨ptr, left, right, rfl, rfl, _⟩
  · rfl
  · rfl

theorem returned_alike (ok : ApiOk mode sys g) (same : Indistinct mode sys other)
    (fits : ApiFits sys act) (survives : (apiStep sys act).isSome) :
    returned other.state act = returned sys.state act := by
  have paired := same.states
  cases act with
  | malloc thread size => exact value_alike (paired_malloc ok.rest paired fits thread)
  | calloc thread num size => exact value_alike (paired_calloc ok.rest paired fits)
  | realloc thread ptr size =>
      simp only [apiStep] at survives
      split at survives
      · next allowed =>
          have known := allowed.2.imp_right (ok.live ptr).mp
          exact value_alike (paired_realloc ok.rest paired known allowed.1 fits)
      · cases survives
  | memalign thread alignment size =>
      simp only [apiStep] at survives
      split at survives
      · next bound => exact value_alike (paired_memalign ok.rest paired bound.1 fits)
      · cases survives
  | free thread ptr => rfl
  | exit thread => rfl
  | gc thread => rfl
  | attach thread => rfl
  | reap tlh => rfl
  | write ptr offset value => rfl

theorem runs_indistinct (fits : Along apiStep ApiFits (apiStart env secret telemetry) acts)
    (ran : run apiStep (apiStart env secret telemetry) acts = some sys)
    (otherRan : run apiStep (apiStart env key telemetry) others = some other)
    (calls : others.filter isCall = acts.filter isCall) :
    ∃ g, ApiOk (apiMode False) sys g ∧ Indistinct (apiMode False) sys other := by
  have started : ∃ g, ApiOk (apiMode False) (apiStart env secret telemetry) g :=
    ⟨emptyGhost, api_start_ok env secret telemetry False.elim⟩
  have same := indistinct_run id started (indistinct_start env secret key telemetry False.elim) fits
    ran otherRan calls
  have reachable : ∃ g, ApiOk (apiMode False) sys g := api_run_ok False.elim fits ran
  obtain ⟨g, ok⟩ := reachable
  exact ⟨g, ok, same⟩

/-- Two processes that make the same calls get the same pointers and keep the same
heap up to the masked links, whatever their clients write and whatever their
secrets are. -/
theorem same_calls_same_pointers (small : ∀ act ∈ acts, SmallCall act)
    (ran : run apiStep (apiStart env secret telemetry) acts = some sys)
    (otherRan : run apiStep (apiStart env key telemetry) others = some other)
    (calls : others.filter isCall = acts.filter isCall) :
    Alike sys.state other.state ∧ LinksAgree sys.state other.state ∧
      ∀ act, isCall act = true → SmallCall act →
        (apiStep other act).isSome = (apiStep sys act).isSome ∧
          ((apiStep sys act).isSome → returned other.state act = returned sys.state act) := by
  have fits : Along apiStep ApiFits (apiStart env secret telemetry) acts :=
    along_fits_of_small small _
  obtain ⟨g, ok, same⟩ := runs_indistinct fits ran otherRan calls
  refine ⟨paired_alike same.states, links_agree ok same, ?_⟩
  intro act call bounded
  have allowed := api_fits_of_small sys act bounded
  exact ⟨survives_alike ok same allowed call, returned_alike ok same allowed⟩

end Runs

/-- One process writes into the block it is about to free. -/
def writingClient : List ApiAct :=
  [.malloc 1 24, .write 4359979136 0 255, .malloc 1 24, .free 2 4359979136, .exit 2, .gc 1]

/-- The other writes elsewhere and at other times. -/
def quietClient : List ApiAct :=
  [.malloc 1 24, .malloc 1 24, .write 4359979168 5 1, .write 4359979136 3 77, .free 2 4359979136,
    .exit 2, .gc 1]

theorem reuse_returns_same_pointer :
    ∃ sys other, run apiStep (apiStart generousEnv 7 true) writingClient = some sys ∧
      run apiStep (apiStart generousEnv 12345 true) quietClient = some other ∧
      returned sys.state (.malloc 1 24) = some 4359979136 ∧
      returned other.state (.malloc 1 24) = some 4359979136 := by
  have facts : (run apiStep (apiStart generousEnv 7 true) writingClient).map (fun sys =>
      ((apiStep sys (.malloc 1 24)).isSome, returned sys.state (.malloc 1 24))) =
        some (true, some 4359979136) := by decide +kernel
  obtain ⟨sys, ran, here⟩ := Option.map_eq_some_iff.mp facts
  obtain ⟨survives, pointer⟩ := Prod.mk.inj here
  obtain ⟨other, otherRan⟩ := Option.isSome_iff_exists.mp (by decide +kernel :
    (run apiStep (apiStart generousEnv 12345 true) quietClient).isSome = true)
  have same := (same_calls_same_pointers (by decide) ran otherRan rfl).2.2 (.malloc 1 24) rfl
    (by decide)
  refine ⟨sys, other, ran, otherRan, pointer, ?_⟩
  rw [same.2 survives, pointer]

/-- Two processes that make the same calls keep the same tables of live objects, and
the next call that fits kills both or neither. -/
theorem calls_ignore_bytes {env : Env} {secret key : BitVec 64} {telemetry : Bool}
    {acts others : List ApiAct} {sys other : ApiSys}
    (fits : Along apiStep ApiFits (apiStart env secret telemetry) acts)
    (ran : run apiStep (apiStart env secret telemetry) acts = some sys)
    (otherRan : run apiStep (apiStart env key telemetry) others = some other)
    (calls : others.filter isCall = acts.filter isCall) :
    other.live = sys.live ∧ other.born = sys.born ∧ Alike sys.state other.state ∧
      LinksAgree sys.state other.state ∧
      ∀ act, isCall act = true → ApiFits sys act →
        (apiStep other act).isSome = (apiStep sys act).isSome := by
  obtain ⟨g, ok, same⟩ := runs_indistinct fits ran otherRan calls
  exact ⟨same.live, same.born, paired_alike same.states, links_agree ok same,
    fun _ call allowed => survives_alike ok same allowed call⟩

/-- Both processes hand the block out again and write into it. -/
theorem reuse_ignores_bytes :
    ∃ sys other, run apiStep (apiStart generousEnv 7 true)
        (writingClient ++ [.malloc 1 24, .write 4359979136 7 9]) = some sys ∧
      run apiStep (apiStart generousEnv 12345 true) (quietClient ++ [.malloc 1 24]) =
        some other ∧
      (sys.live 4359979136).isSome ∧ other.live = sys.live ∧ Alike sys.state other.state := by
  have fits : Along apiStep ApiFits (apiStart generousEnv 7 true)
      (writingClient ++ [.malloc 1 24, .write 4359979136 7 9]) := by decide +kernel
  have facts : (run apiStep (apiStart generousEnv 7 true)
      (writingClient ++ [.malloc 1 24, .write 4359979136 7 9])).map
        (fun sys => sys.live 4359979136) = some (some 24) := by decide +kernel
  have otherRuns : (run apiStep (apiStart generousEnv 12345 true)
      (quietClient ++ [.malloc 1 24])).isSome = true := by decide +kernel
  obtain ⟨sys, ran, live⟩ := Option.map_eq_some_iff.mp facts
  obtain ⟨other, otherRan⟩ := Option.isSome_iff_exists.mp otherRuns
  obtain ⟨same, _, alike, _⟩ := calls_ignore_bytes fits ran otherRan rfl
  exact ⟨sys, other, ran, otherRan, by simp [live], same, alike⟩

end Lzmalloc.Noninterference
