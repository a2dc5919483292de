import Lzmalloc.HookRuns

/-!
# Contents under `realloc`

The `realloc` hook moves blocks of the array into the array or into the engine
and objects of the engine inside it. Whatever happens, the bytes of the old
block arrive, no other block changes, and a failed call changes nothing.
-/

namespace Lzmalloc.ReallocContracts

open SizeClasses HeapState ByteMemory PublicApi StepSystem HeapInvariant InvariantFacts ClientView
open ObjectRanges ApiOperations ApiRuns ClientBytes BootstrapAllocator PosixHooks PayloadContracts
open HookRuns
open CallParts (finish_realloc_state)
open ObjectContracts (malloc_fits_of_small)
open SlabContracts (generousEnv)
open ChunkContracts (adjacentEnv)

set_option autoImplicit false

variable {heap : BaseHeap} {sys : HookSys} {after grown : Hooks} {g last : Ghost}
  {thread ptr other newSize result index : Nat}

/-! ## Blocks that clients hold -/

theorem holds_cases (ok : HookOk heap sys g) (holds : sys.Holds ptr) :
    (isBasePtr heap ptr = true ∧ sys.granted ptr = some (usableSize heap sys.hooks ptr)) ∨
      (isBasePtr heap ptr = false ∧ g.node ptr = .live ∧
        usableSize heap sys.hooks ptr = originLength (g.record ptr)) := by
  cases array : isBasePtr heap ptr with
  | true =>
      obtain ⟨size, known⟩ := holds_array ok holds array
      have header := ok.base.header ptr size known
      left
      constructor
      · rfl
      · rw [usableSize, if_pos array, known, ← header]
        simp only [baseHeaderSize]
  | false =>
      have live := (ok.api.live ptr).mp (holds_engine ok holds array)
      right
      constructor
      · rfl
      constructor
      · exact live
      · rw [usableSize, if_neg (by simp [array])]
        exact usable_size_record ok.api.rest trivial live

theorem covers_usable (ok : HookOk heap sys g) {length : Nat} (covers : Covers sys ptr length) :
    length ≤ usableSize heap sys.hooks ptr := by
  obtain ⟨size, shorter, known⟩ := covers
  have holds : sys.Holds ptr := by
    cases known with
    | inl granted => exact Or.inr (by simp [granted])
    | inr live => exact Or.inl (by simp [live])
  cases holds_cases ok holds with
  | inl array =>
      cases known with
      | inl granted =>
          rw [granted, Option.some.injEq] at array
          omega
      | inr live =>
          have node := (ok.api.live ptr).mp (by simp [HookSys.api, live])
          have core := ok.api.rest.inv.toCore
          have outside := mapped_not_base ok.outside
            (holder_mapped core (core.objects.scope ptr (by simp [node])))
          rw [array.1] at outside
          cases outside
  | inr engine =>
      cases known with
      | inl granted =>
          have array := granted_base ok.base granted
          rw [engine.1] at array
          cases array
      | inr live =>
          have asked := ok.api.asked ptr size live
          rw [engine.2.2]
          omega

theorem array_bytes (ok : HookOk heap sys g) {size : Nat} (known : sys.granted ptr = some size)
    (inside : index < size) : isBasePtr heap (ptr + index) = true := by
  have placed := ok.base.placed ptr size known
  have limit := ok.base.inside
  rw [is_base_ptr_iff]
  omega

theorem byte_at_engine (hooks : Hooks) {address : Nat} (engine : isBasePtr heap address = false) :
    byteAt heap hooks address = hooks.engine.mem address := by
  rw [byteAt, if_neg (by simp [engine])]

theorem byte_at_array (hooks : Hooks) {address : Nat} (array : isBasePtr heap address = true) :
    byteAt heap hooks address = hooks.base address := if_pos array

/-! ## The new block -/

theorem routed_keeps (ok : HookOk heap sys g) (sizeWord : newSize < 2 ^ 64)
    (fits : HookFits heap sys (.malloc thread newSize))
    (routed : lzMallocRouted heap sys.hooks thread newSize = some (result, grown))
    (holds : sys.Holds other) (inside : index < usableSize heap sys.hooks other) :
    byteAt heap grown (other + index) = byteAt heap sys.hooks (other + index) := by
  cases ready : sys.hooks.ready with
  | true =>
      rw [lzMallocRouted, if_pos ready] at routed
      obtain ⟨s, called, _, rfl⟩ := engine_call_cases routed
      cases holds_cases ok holds with
      | inl array =>
          have place := array_bytes ok array.2 inside
          rw [byte_at_array _ place, byte_at_array _ place]
      | inr engine =>
          obtain ⟨_, live, length⟩ := engine
          rw [length] at inside
          have place := live_bytes_not_base ok live (by omega : other ≤ other + index) (by omega)
          rw [byte_at_engine _ place, byte_at_engine _ place]
          exact undisturbed_malloc ok.api.rest called other (other + index) live
            (by omega) (by omega)
  | false =>
      have waiting : ¬sys.hooks.ready = true := by simp [ready]
      simp only [HookFits] at fits
      rw [if_neg waiting] at fits
      rw [lzMallocRouted, if_neg waiting] at routed
      cases holds_cases ok holds with
      | inl array =>
          have place := array_bytes ok array.2 inside
          have behind := reserved_behind ok sizeWord fits routed array.2
          obtain ⟨next, _, rfl⟩ := base_grant_cases routed
          rw [byte_at_array _ place, byte_at_array _ place]
          exact store_outside sys.hooks.base (by simp only [baseHeaderSize]; omega)
      | inr engine =>
          obtain ⟨_, live, length⟩ := engine
          rw [length] at inside
          have place := live_bytes_not_base ok live (by omega : other ≤ other + index) (by omega)
          obtain ⟨next, _, rfl⟩ := base_grant_cases routed
          rw [byte_at_engine _ place, byte_at_engine _ place]

theorem routed_apart (ok : HookOk heap sys g) (sizeWord : newSize < 2 ^ 64)
    (fits : HookFits heap sys (.malloc thread newSize))
    (routed : lzMallocRouted heap sys.hooks thread newSize = some (result, grown))
    (moved : result ≠ 0) (holds : sys.Holds other)
    (inside : index < usableSize heap sys.hooks other) :
    ¬(result ≤ other + index ∧ other + index < result + newSize) := by
  intro shared
  cases ready : sys.hooks.ready with
  | true =>
      obtain ⟨last, received⟩ := hook_ok_routed ok sizeWord fits routed
      simp only [HookFits] at fits
      rw [if_pos ready] at fits
      rw [lzMallocRouted, if_pos ready] at routed
      obtain ⟨s, called, outside, rfl⟩ := engine_call_cases routed
      cases holds_cases ok holds with
      | inl array =>
          have known := @receive_live { sys.hooks with engine := s } sys newSize result
            (lzMaxSpanObjSize < newSize) _ moved ready
          have node := (received.api.live result).mp (Option.isSome_iff_exists.mpr ⟨newSize, known⟩)
          have asked := received.api.asked result newSize known
          have place := live_bytes_not_base received node shared.1 (by omega)
          rw [array_bytes ok array.2 inside] at place
          cases place
      | inr engine =>
          obtain ⟨_, live, length⟩ := engine
          exact malloc_apart ok.api.rest fits sizeWord called moved live
            (by omega : other ≤ other + index) (by omega) shared
  | false =>
      have waiting : ¬sys.hooks.ready = true := by simp [ready]
      simp only [HookFits] at fits
      rw [if_neg waiting] at fits
      rw [lzMallocRouted, if_neg waiting] at routed
      cases holds_cases ok holds with
      | inl array =>
          have behind := reserved_behind ok sizeWord fits routed array.2
          omega
      | inr engine =>
          obtain ⟨_, live, length⟩ := engine
          have place := live_bytes_not_base ok live (by omega : other ≤ other + index) (by omega)
          obtain ⟨next, returned, _⟩ := base_grant_cases routed
          obtain ⟨behind, covered, limit⟩ :=
            base_malloc_block fits.1 sizeWord ok.base.inside fits.2 returned
          have exact : newSize ≤ baseExactSize newSize := by
            unfold baseExactSize
            split <;> omega
          have array : isBasePtr heap (other + index) = true := by
            rw [is_base_ptr_iff]
            omega
          rw [place] at array
          cases array

/-! ## The law -/

/-- What `realloc` of the live block `ptr` owes the clients of `sys`. -/
structure ReallocLaw (heap : BaseHeap) (sys : HookSys) (after : Hooks)
    (thread ptr newSize result : Nat) : Prop where
  served : result ≠ 0 → newSize ≤ usableSize heap after result ∧
    ∀ index < min newSize (usableSize heap sys.hooks ptr),
      byteAt heap after (result + index) = byteAt heap sys.hooks (ptr + index)
  others : ∀ other index, sys.Holds other → other ≠ ptr → index < usableSize heap sys.hooks other →
    byteAt heap after (other + index) = byteAt heap sys.hooks (other + index)
  freed : result ≠ 0 → result ≠ ptr → isBasePtr heap ptr = false →
    FreedOnce sys.hooks.engine after.engine (fun other => (sys.live other).isSome)
    thread ptr newSize
      result
  failed : result = 0 → (isBasePtr heap ptr = false → Reserved after.engine ptr) ∧
    usableSize heap after ptr = usableSize heap sys.hooks ptr ∧
    ∀ index < usableSize heap sys.hooks ptr,
      byteAt heap after (ptr + index) = byteAt heap sys.hooks (ptr + index)

theorem law_unchanged (ok : HookOk heap sys g) (holds : sys.Holds ptr)
    (room : result ≠ 0 → result = ptr ∧ newSize ≤ usableSize heap sys.hooks ptr) :
    ReallocLaw heap sys sys.hooks thread ptr newSize result := by
  constructor
  · intro nonnull
    obtain ⟨rfl, fits⟩ := room nonnull
    exact ⟨fits, fun _ _ => rfl⟩
  · exact fun _ _ _ _ _ => rfl
  · exact fun nonnull moved => absurd (room nonnull).1 moved
  · intro _
    constructor
    · intro engine
      have live := (ok.api.live ptr).mp (holds_engine ok holds engine)
      exact reserved_live ok.api.rest trivial trivial live
    · exact ⟨rfl, fun _ _ => rfl⟩

theorem law_array (ok : HookOk heap sys g) (holds : sys.Holds ptr) (nonnull : ptr ≠ 0)
    (positive : newSize ≠ 0) (bound : newSize ≤ 2 ^ 62) (array : isBasePtr heap ptr = true)
    (done : realloc heap sys.hooks thread ptr newSize = some (result, after)) :
    ReallocLaw heap sys after thread ptr newSize result := by
  have fits : HookFits heap sys (.malloc thread newSize) := by
    simp only [HookFits]
    split
    · exact malloc_fits_of_small (by omega)
    · exact default_request_apart ok.base.inside (by omega)
  have old : usableSize heap sys.hooks ptr = load sys.hooks.base (ptr - baseHeaderSize) 8 :=
    if_pos array
  rcases realloc_array_branches nonnull positive array done with
    ⟨rfl, rfl, room⟩ | ⟨grows, grown, routed, outcome⟩
  · exact law_unchanged ok holds fun _ => ⟨rfl, by rwa [old]⟩
  rw [← old] at grows outcome
  obtain ⟨last, received⟩ := hook_ok_routed ok (by omega) fits routed
  have kept : ∀ other index, sys.Holds other → index < usableSize heap sys.hooks other →
      byteAt heap grown (other + index) = byteAt heap sys.hooks (other + index) :=
    fun other index there inside => routed_keeps ok (by omega) fits routed there inside
  cases outcome with
  | inl failed =>
      obtain ⟨null, rfl⟩ := failed
      constructor
      · exact fun nonnull => absurd null nonnull
      · exact fun other index there _ inside => kept other index there inside
      · exact fun nonnull => absurd null nonnull
      · intro _
        constructor
        · intro engine
          rw [array] at engine
          cases engine
        constructor
        · obtain ⟨size, known⟩ := holds_array ok holds array
          rw [null, receive_null] at received
          rw [usableSize, if_pos array, old]
          exact (received.base.header ptr size known).trans (ok.base.header ptr size known).symm
        · exact fun index inside => kept ptr index holds inside
  | inr moved =>
      obtain ⟨found, rfl⟩ := moved
      have apart : ∀ other index, sys.Holds other → index < usableSize heap sys.hooks other →
          ¬(result ≤ other + index ∧
            other + index < result + usableSize heap sys.hooks ptr) := by
        intro other index there inside shared
        apply routed_apart ok (by omega) fits routed found there inside
        omega
      constructor
      · intro _
        constructor
        · have filled := hook_ok_filled received found (le_of_lt grows)
            fun index => byteAt heap grown (ptr + index)
          have covers := covers_usable filled (receive_covers found le_rfl)
          rw [receive_hooks] at covers
          exact covers
        · intro index inside
          rw [@byte_at_memcpy heap grown result ptr (usableSize heap sys.hooks ptr)
            index (by omega)]
          exact kept ptr index holds (by omega)
      · intro other index there _ inside
        rw [byte_at_memcpy_outside grown (apart other index there inside)]
        exact kept other index there inside
      · intro _ _ engine
        rw [array] at engine
        cases engine
      · exact fun null => absurd null found

theorem realloc_not_base {s : State} (ok : HookOk heap sys g) (holds : sys.Holds ptr)
    (nonnull : ptr ≠ 0) (positive : newSize ≠ 0) (bound : newSize < 2 ^ 63)
    (engine : isBasePtr heap ptr = false)
    (called : lzRealloc sys.hooks.engine thread ptr newSize = some (result, s))
    (outside : OutsideArray heap s.regions) (found : result ≠ 0) (index : Nat)
    (inside : index < newSize) : isBasePtr heap (result + index) = false := by
  have live := holds_engine ok holds engine
  have word : newSize < 2 ^ 64 := by omega
  have taken : apiStep sys.api (.realloc thread ptr newSize) =
      some (finishRealloc sys.api s ptr newSize result) := by
    simp only [apiStep, HookSys.api, live, word, or_true, and_self, if_true, called,
      Option.map_some]
  have fits : ApiFits sys.api (.realloc thread ptr newSize) := fun _ => malloc_fits_of_small bound
  obtain ⟨last, settled⟩ := hook_ok_engine ok fits taken (by rwa [finish_realloc_state])
  have known : (finishRealloc sys.api s ptr newSize result).live result = some newSize := by
    rw [finishRealloc, if_neg nonnull, if_neg positive, if_neg found]
    split
    · next same => simp [same]
    · simp [handOut, found]
  have node := (settled.api.live result).mp (Option.isSome_iff_exists.mpr ⟨newSize, known⟩)
  have asked := settled.api.asked result newSize known
  exact live_bytes_not_base settled node (by omega) (by omega)

theorem law_engine (ok : HookOk heap sys g) (holds : sys.Holds ptr) (nonnull : ptr ≠ 0)
    (positive : newSize ≠ 0) (bound : newSize ≤ 2 ^ 62) (engine : isBasePtr heap ptr = false)
    (done : realloc heap sys.hooks thread ptr newSize = some (result, after)) :
    ReallocLaw heap sys after thread ptr newSize result := by
  rcases realloc_engine_branches nonnull positive engine done with
    ⟨_, rfl, rfl⟩ | ⟨_, s, called, outside, rfl⟩
  · exact law_unchanged ok holds fun some => absurd rfl some
  have live := (ok.api.live ptr).mp (holds_engine ok holds engine)
  have known : ∀ other, (sys.live other).isSome → g.node other = .live :=
    fun other => (ok.api.live other).mp
  have law := lz_realloc_realloced ok.api.rest trivial trivial live known positive (by omega) called
  have outsideArray : ¬isBasePtr heap ptr = true := by simp [engine]
  have old : usableSize heap sys.hooks ptr = lzMallocUsableSize sys.hooks.engine ptr :=
    if_neg outsideArray
  have oldLength := usable_size_record ok.api.rest trivial live
  have source : ∀ index, index < lzMallocUsableSize sys.hooks.engine ptr →
      isBasePtr heap (ptr + index) = false := by
    intro index inside
    exact live_bytes_not_base ok live (by omega)
      (by rw [← oldLength]; exact Nat.add_lt_add_left inside ptr)
  constructor
  · intro found
    obtain ⟨room, copied⟩ := law.served found
    have target := realloc_not_base ok holds nonnull positive (by omega) engine called outside found
    have first : isBasePtr heap result = false := target 0 (by omega)
    constructor
    · rw [usableSize, if_neg (by simp [first])]
      exact room
    · intro index inside
      rw [old] at inside
      rw [byte_at_engine _ (target index (by omega)), byte_at_engine _ (source index (by omega))]
      exact copied index inside
  · intro other index there different inside
    cases holds_cases ok there with
    | inl array =>
        have place := array_bytes ok array.2 inside
        rw [byte_at_array _ place, byte_at_array _ place]
    | inr elsewhere =>
        obtain ⟨otherEngine, otherLive, length⟩ := elsewhere
        have place := live_bytes_not_base ok otherLive (by omega : other ≤ other + index) (by omega)
        rw [usableSize, if_neg (by simp [otherEngine])] at inside
        rw [byte_at_engine _ place, byte_at_engine _ place]
        exact law.others other index (holds_engine ok there otherEngine) different inside
  · intro found moved _
    exact law.freed found moved
  · intro null
    obtain ⟨reserved, usable, bytes⟩ := law.failed null
    constructor
    · exact fun _ => reserved
    constructor
    · rw [usableSize, if_neg outsideArray, old]
      exact usable
    · intro index inside
      rw [old] at inside
      rw [byte_at_engine _ (source index inside), byte_at_engine _ (source index inside)]
      exact bytes index inside

/-- In every state of every run: `realloc` of a live pointer keeps its contents
and those of all others, frees an engine object exactly once when it moves it,
and leaves everything in place when it fails. -/
theorem realloc_preserves {env : Env} {secret : BitVec 64} {telemetry : Bool} {base : Memory}
    {acts : List HookAct} (leaves : ∀ call, env.leafMmap call = true)
    (fits : Along (hookStep heap) (HookFits heap) (hookStart env secret telemetry base) acts)
    (ran : run (hookStep heap) (hookStart env secret telemetry base) acts = some sys)
    (holds : sys.Holds ptr) (positive : 1 ≤ newSize) (bound : newSize ≤ 2 ^ 62)
    (done : realloc heap sys.hooks thread ptr newSize = some (result, after)) :
    ReallocLaw heap sys after thread ptr newSize result := by
  obtain ⟨g, ok⟩ := hook_run_ok leaves fits ran
  have nonnull : ptr ≠ 0 := by
    cases holds_cases ok holds with
    | inl array =>
        have placed := ok.base.placed ptr _ array.2
        omega
    | inr engine =>
        have bound :=
          core_node_bound ok.api.rest.inv.toCore (by simp [engine.2.1] : g.node ptr ≠ .none)
        omega
  cases array : isBasePtr heap ptr with
  | true => exact law_array ok holds nonnull (by omega) bound array done
  | false => exact law_engine ok holds nonnull (by omega) bound array done

/-- A block granted before the engine was ready, and an object of the engine. -/
def migrationRun : List HookAct :=
  [.malloc 1 24, .write 1048592 3 65, .bootstrap, .malloc 1 24]

/-- Growing the block moves it into the engine. -/
theorem block_migrates :
    ∃ sys after, run (hookStep sampleHeap) (hookStart generousEnv 7 true fun _ => 0) migrationRun =
        some sys ∧ sys.Holds 1048592 ∧
      realloc sampleHeap sys.hooks 1 1048592 100 = some (4357881984, after) ∧
      ReallocLaw sampleHeap sys after 1 1048592 100 4357881984 := by
  have fits : Along (hookStep sampleHeap) (HookFits sampleHeap)
      (hookStart generousEnv 7 true fun _ => 0) migrationRun := by decide +kernel
  have facts : (run (hookStep sampleHeap) (hookStart generousEnv 7 true fun _ => 0)
      migrationRun).map (fun sys =>
        (sys.granted 1048592, (realloc sampleHeap sys.hooks 1 1048592 100).map Prod.fst)) =
      some (some 24, some 4357881984) := by decide +kernel
  obtain ⟨sys, ran, values⟩ := Option.map_eq_some_iff.mp facts
  simp only [Prod.mk.injEq] at values
  obtain ⟨granted, moved⟩ := values
  obtain ⟨⟨result, after⟩, done, here⟩ := Option.map_eq_some_iff.mp moved
  simp only at here
  subst here
  have holds : sys.Holds 1048592 := Or.inr (by simp [granted])
  exact ⟨sys, after, ran, holds, done,
    realloc_preserves (fun _ => rfl) fits ran holds (by norm_num) (by norm_num) done⟩

/-- Like `capturedHeaderRun`, with an object whose `realloc` takes the block at the header. -/
def capturedTargetRun : List HookAct :=
  [.bootstrap, .memalign 1 2097152 0, .malloc 1 1024] ++ List.replicate 30 (.malloc 1 1048576) ++
    [.malloc 1 4096, .malloc 1 4096, .library (.write 4297064576 0 65), .free 1 4297064448]

/-- Moving the object overwrites a byte of another one. -/
theorem realloc_overwrites_other :
    ∃ sys after, run (hookStep sampleHeap) (hookStart adjacentEnv 7 true fun _ => 0)
        capturedTargetRun = some sys ∧
      sys.Holds 4362076288 ∧ sys.Holds 4297064576 ∧
      byteAt sampleHeap sys.hooks 4297064576 = 65 ∧
      realloc sampleHeap sys.hooks 1 4362076288 4096 = some (4297064448, after) ∧
      byteAt sampleHeap after 4297064576 = 0 := by
  have facts : (run (hookStep sampleHeap) (hookStart adjacentEnv 7 true fun _ => 0)
      capturedTargetRun).map (fun sys =>
        (sys.live 4362076288, sys.live 4297064576, byteAt sampleHeap sys.hooks 4297064576,
          (realloc sampleHeap sys.hooks 1 4362076288 4096).map fun result =>
            (result.1, byteAt sampleHeap result.2 4297064576))) =
      some (some 1024, some 4096, 65, some (4297064448, 0)) := by decide +kernel
  obtain ⟨sys, ran, values⟩ := Option.map_eq_some_iff.mp facts
  simp only [Prod.mk.injEq] at values
  obtain ⟨source, live, written, called⟩ := values
  obtain ⟨⟨result, after⟩, done, moved⟩ := Option.map_eq_some_iff.mp called
  simp only [Prod.mk.injEq] at moved
  rw [moved.1] at done
  exact ⟨sys, after, ran, Or.inl (by simp [source]), Or.inl (by simp [live]), written, done,
    moved.2⟩

end Lzmalloc.ReallocContracts
