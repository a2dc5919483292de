import Lzmalloc.HeapRefinement
import Lzmalloc.ReallocContracts

/-!
# The interposed interface refines an abstract heap

The hooks serve one heap from two places: the static array, before the
constructor has run and for good, and the engine. What clients see across that
switch is one abstract heap. A block of the array that is given back stays
where it is; so does every block that is given back before the switch.
-/

namespace Lzmalloc.HookRefinement

open SizeClasses HeapState ByteMemory PublicApi StepSystem HeapInvariant HeapOperations ObjectRanges
open ApiOperations ApiRuns ClientBytes BootstrapAllocator PosixHooks HookRuns ReallocContracts
open HeapRefinement
open CallParts (hand_out_state finish_realloc_state)
open SlabContracts (generousEnv)
open AbstractHeap (Heap Event Places Grants AtLeast Cleared Extends emptyHeap release
  Separate Beside join)

set_option autoImplicit false

/-! ## What clients hold -/

def extent (sys : HookSys) (ptr : Nat) : Option Nat :=
  if (sys.live ptr).isSome then some (originLength (sys.born ptr)) else sys.granted ptr

def hookBlocks (heap : BaseHeap) (sys : HookSys) : Heap := fun ptr =>
  (extent sys ptr).map (bytesFrom (byteAt heap sys.hooks) ptr)

def hookAnswer (called : Option (Nat × Hooks)) : Nat := (called.map Prod.fst).getD 0

/-- Whether the hooks hand a block that is given back to the engine. -/
def takesBack (heap : BaseHeap) (hooks : Hooks) (ptr : Nat) : Bool :=
  !isBasePtr heap ptr && hooks.ready

def hookEvent (heap : BaseHeap) (sys : HookSys) : HookAct → Event
  | .bootstrap => .internal
  | .malloc thread size => .malloc size (hookAnswer (malloc heap sys.hooks thread size))
  | .calloc thread num size => .calloc num size (hookAnswer (calloc heap sys.hooks thread num size))
  | .realloc thread ptr size =>
      .realloc ptr size (hookAnswer (realloc heap sys.hooks thread ptr size))
        (takesBack heap sys.hooks ptr)
  | .memalign thread alignment size =>
      .memalign alignment size (hookAnswer (memalign heap sys.hooks thread alignment size))
  | .posixMemalign thread memptr alignment size =>
      .memalign alignment size (hookAnswer
        (storedPointer (posixMemalign heap sys.hooks thread memptr alignment size)))
  | .alignedAlloc thread alignment size =>
      .memalign alignment size (hookAnswer (alignedAlloc heap sys.hooks thread alignment size))
  | .valloc thread sysconf size =>
      .memalign (reportedPageSize sysconf) size
        (hookAnswer (valloc heap sys.hooks thread sysconf size))
  | .pvalloc thread sysconf size =>
      .memalign (reportedPageSize sysconf) size
        (hookAnswer (pvalloc heap sys.hooks thread sysconf size))
  | .free _ ptr => .free ptr (takesBack heap sys.hooks ptr)
  | .library act => apiEvent sys.api act
  | .write ptr offset value => .write ptr offset value

variable {heap : BaseHeap} {sys reached : HookSys} {after grown : Hooks} {g last : Ghost}
  {thread ptr other size result length : Nat}

theorem hook_answer_some {called : Option (Nat × Hooks)} (done : called = some (result, after)) :
    hookAnswer called = result := by
  rw [hookAnswer, done]
  rfl

def arrayBlocks (sys : HookSys) : Heap := fun ptr =>
  (sys.granted ptr).map (bytesFrom sys.hooks.base ptr)

theorem array_blocks_some {bytes : List UInt8} (held : arrayBlocks sys ptr = some bytes) :
    ∃ size, sys.granted ptr = some size ∧ bytes = bytesFrom sys.hooks.base ptr size := by
  obtain ⟨size, granted, same⟩ := Option.map_eq_some_iff.mp held
  exact ⟨size, granted, same.symm⟩

theorem engine_not_base (ok : HookOk heap sys g) (known : (sys.live ptr).isSome) :
    isBasePtr heap ptr = false := by
  have core := ok.api.rest.inv.toCore
  have node := (ok.api.live ptr).mp known
  exact mapped_not_base ok.outside (holder_mapped core (core.objects.scope ptr (by simp [node])))

theorem engine_not_granted (ok : HookOk heap sys g) (known : (sys.live ptr).isSome) :
    sys.granted ptr = none := by
  cases granted : sys.granted ptr with
  | none => rfl
  | some size =>
      have array := granted_base ok.base granted
      rw [engine_not_base ok known] at array
      cases array

theorem blocks_beside (ok : HookOk heap sys g) : Beside (blocks sys.api) (arrayBlocks sys) := by
  intro ptr bytes other held there granted
  obtain ⟨known, rfl⟩ := blocks_some there
  obtain ⟨size, placedAt, rfl⟩ := array_blocks_some granted
  obtain ⟨live, born⟩ := live_record ok.api known
  have start := engine_not_base ok known
  have base := granted_base ok.base placedAt
  have placed := ok.base.placed other size placedAt
  have limit := ok.base.inside
  rw [bytes_from_length, bytes_from_length]
  constructor
  · intro same
    rw [same, base] at start
    cases start
  · by_contra overlap
    by_cases behind : other ≤ ptr
    · have inArray : isBasePtr heap ptr = true := by
        rw [is_base_ptr_iff]
        omega
      rw [inArray] at start
      cases start
    · have outside := live_bytes_not_base ok live (by omega : ptr ≤ other) (by rw [← born]; omega)
      rw [base] at outside
      cases outside

theorem array_separate (ok : HookOk heap sys g) : Separate (arrayBlocks sys) := by
  constructor
  · cases granted : sys.granted 0 with
    | none => simp [arrayBlocks, granted]
    | some size =>
        have placed := ok.base.placed 0 size granted
        omega
  · intro left right leftBytes rightBytes before leftHeld rightHeld
    obtain ⟨leftSize, leftGranted, rfl⟩ := array_blocks_some leftHeld
    obtain ⟨rightSize, rightGranted, _⟩ := array_blocks_some rightHeld
    have apart := ok.base.apart left leftSize right rightSize leftGranted rightGranted before
    rw [bytes_from_length]
    omega

theorem hook_blocks_eq (ok : HookOk heap sys g) :
    hookBlocks heap sys = join (blocks sys.api) (arrayBlocks sys) := by
  funext ptr
  by_cases known : (sys.live ptr).isSome
  · obtain ⟨live, born⟩ := live_record ok.api known
    have held := @blocks_live sys.api ptr known
    rw [AbstractHeap.join_left held]
    simp only [hookBlocks, extent, if_pos known, Option.map_some, Option.some.injEq]
    apply bytes_from_congr
    intro byte lower upper
    exact byte_at_engine sys.hooks (live_bytes_not_base ok live lower (by rw [← born]; exact upper))
  · have absent : sys.live ptr = none := by simpa using known
    rw [AbstractHeap.join_of_none (@blocks_none sys.api ptr absent)]
    simp only [hookBlocks, extent, if_neg known, arrayBlocks]
    cases granted : sys.granted ptr with
    | none => rfl
    | some size =>
        apply congrArg some
        apply bytes_from_congr
        intro byte lower upper
        have place := @array_bytes heap sys g ptr (byte - ptr) ok size granted (by omega)
        rw [Nat.add_sub_cancel' lower] at place
        exact byte_at_array sys.hooks place

theorem hook_separate (ok : HookOk heap sys g) : Separate (hookBlocks heap sys) := by
  rw [hook_blocks_eq ok]
  exact AbstractHeap.separate_join (blocks_separate ok.api) (array_separate ok) (blocks_beside ok)

theorem hook_blocks_held (held : extent sys ptr = some length) :
    hookBlocks heap sys ptr = some (bytesFrom (byteAt heap sys.hooks) ptr length) := by
  rw [hookBlocks, held]
  rfl

theorem holds_extent (holds : sys.Holds ptr) : (hookBlocks heap sys ptr).isSome := by
  rw [hookBlocks, Option.isSome_map]
  unfold extent
  split
  · rfl
  · next unknown => exact holds.resolve_left unknown

/-! ## Steps of the engine -/

/-- The engine works beside the array. -/
theorem engine_refines (ok : HookOk heap sys g) {act : ApiAct} {api : ApiSys}
    (fits : ApiFits sys.api act) (stepped : apiStep sys.api act = some api)
    (outside : OutsideArray heap api.state.regions) :
    AbstractHeap.Step (hookBlocks heap sys) (apiEvent sys.api act)
      (hookBlocks heap (sys.settle { sys.hooks with engine := api.state } api)) := by
  obtain ⟨last, later⟩ := hook_ok_engine ok fits stepped outside
  have beside : Beside (blocks api) (arrayBlocks sys) := blocks_beside later
  rw [hook_blocks_eq ok, hook_blocks_eq later]
  exact AbstractHeap.step_frame (blocks_beside ok) beside (api_step_refines ok.api id fits stepped)

theorem api_answer {called : Option (Nat × State)} {s : State} (done : called = some (result, s)) :
    answer called = result := by
  rw [answer, done]
  rfl

/-! ## Steps of the array -/

theorem receive_waiting (direct : Prop) [Decidable direct] (waiting : sys.hooks.ready = false)
    (nonnull : ptr ≠ 0) :
    sys.receive after ptr size direct =
      { sys with
        hooks := after
        granted := Function.update sys.granted ptr (some (baseExactSize size)) } := by
  rw [HookSys.receive, if_neg nonnull, if_neg (by simp [waiting])]

theorem places_reserve {alignment : Nat} (direct : Prop) [Decidable direct] (ok : HookOk heap sys g)
    (waiting : sys.hooks.ready = false) (sizeWord : size < 2 ^ 64)
    (fits : BaseFits heap sys.hooks.offset alignment size)
    (reserved : baseReserve heap sys.hooks alignment size = some (ptr, after)) :
    ∃ bytes, Places (hookBlocks heap sys) ptr (AtLeast size) bytes ∧
      hookBlocks heap (sys.receive after ptr size direct) =
        Function.update (hookBlocks heap sys) ptr (some bytes) := by
  obtain ⟨nonnull, later⟩ := hook_ok_reserve direct ok waiting sizeWord fits reserved
  have separate := hook_separate later
  rw [receive_waiting direct waiting nonnull] at later separate ⊢
  have behind : ∀ other length, sys.granted other = some length → other + length + 16 ≤ ptr :=
    fun other length known => reserved_behind ok sizeWord fits reserved known
  obtain ⟨next, returned, rfl⟩ := base_grant_cases reserved
  have base : isBasePtr heap ptr = true :=
    granted_base later.base (Function.update_self ptr (some (baseExactSize size)) sys.granted)
  have idle : sys.live ptr = none := by
    cases known : sys.live ptr with
    | none => rfl
    | some asked =>
        have outside := engine_not_base ok (by simp [known] : (sys.live ptr).isSome)
        rw [base] at outside
        cases outside
  have unused : hookBlocks heap sys ptr = none := by
    cases granted : sys.granted ptr with
    | none => simp [hookBlocks, extent, idle, granted]
    | some size =>
        have apart := behind ptr size granted
        omega
  have placed : hookBlocks heap { sys with
        hooks := { sys.hooks with
          offset := next
          base := store sys.hooks.base (ptr - baseHeaderSize) 8 (baseExactSize size) }
        granted := Function.update sys.granted ptr (some (baseExactSize size)) } =
      Function.update (hookBlocks heap sys) ptr (some (bytesFrom
        (byteAt heap { sys.hooks with
          offset := next
          base := store sys.hooks.base (ptr - baseHeaderSize) 8 (baseExactSize size) }) ptr
        (baseExactSize size))) := by
    funext other
    by_cases same : other = ptr
    · rw [same, Function.update_self]
      apply hook_blocks_held
      simp [extent, idle]
    · rw [Function.update_of_ne same]
      unfold hookBlocks extent
      simp only [Function.update_of_ne same]
      by_cases known : (sys.live other).isSome
      · simp only [if_pos known, Option.map_some, Option.some.injEq]
        obtain ⟨live, born⟩ := live_record ok.api known
        apply bytes_from_congr
        intro byte lower upper
        have outside := live_bytes_not_base ok live lower (by rw [← born]; exact upper)
        rw [byte_at_engine _ outside, byte_at_engine _ outside]
      · simp only [if_neg known]
        cases granted : sys.granted other with
        | none => rfl
        | some length =>
            have apart := behind other length granted
            apply congrArg some
            apply bytes_from_congr
            intro byte lower upper
            unfold byteAt
            split
            · exact store_outside sys.hooks.base (by simp only [baseHeaderSize]; omega)
            · rfl
  rw [placed] at separate
  apply Exists.intro
  constructor
  · constructor
    · exact AbstractHeap.fresh_of_separate separate unused
    · rw [AtLeast, bytes_from_length]
      unfold baseExactSize
      split <;> omega
  · exact placed

/-! ## Filling a new block -/

theorem hook_blocks_overwrite (ok : HookOk heap sys g)
    {room : Nat} (held : extent sys ptr = some room)
    (inside : length ≤ room) (value : Nat → UInt8) :
    hookBlocks heap { sys with hooks := overwrite heap sys.hooks ptr length value } =
      Function.update (hookBlocks heap sys) ptr
        (some (bytesFrom (byteAt heap (overwrite heap sys.hooks ptr length value)) ptr room)) := by
  have separate := hook_separate ok
  funext other
  by_cases same : other = ptr
  · rw [same, Function.update_self]
    exact hook_blocks_held held
  · rw [Function.update_of_ne same]
    cases there : extent sys other with
    | none =>
        have absent : extent { sys with hooks := overwrite heap sys.hooks ptr length value } other =
            none := there
        rw [hookBlocks, hookBlocks, there, absent]
        rfl
    | some otherRoom =>
        have stays : extent { sys with hooks := overwrite heap sys.hooks ptr length value } other =
            some otherRoom := there
        have here := @hook_blocks_held heap sys ptr room held
        have beside := @hook_blocks_held heap sys other otherRoom there
        rw [beside, hook_blocks_held stays]
        apply congrArg some
        apply bytes_from_congr
        intro byte lower upper
        rw [byte_at_overwrite, if_neg]
        intro shared
        cases Nat.lt_or_gt_of_ne same with
        | inl before =>
            have apart := separate.apart other ptr _ _ before beside here
            rw [bytes_from_length] at apart
            omega
        | inr behind =>
            have apart := separate.apart ptr other _ _ behind here beside
            rw [bytes_from_length] at apart
            omega

theorem extent_of_held {bytes : List UInt8} (held : hookBlocks heap sys ptr = some bytes) :
    extent sys ptr = some bytes.length ∧
      bytes = bytesFrom (byteAt heap sys.hooks) ptr bytes.length := by
  obtain ⟨room, there, same⟩ := Option.map_eq_some_iff.mp held
  have length : bytes.length = room := by rw [← same, bytes_from_length]
  rw [length]
  exact ⟨there, same.symm⟩

def Filled (room length : Nat) (value : Nat → UInt8) (bytes : List UInt8) : Prop :=
  bytes.length = room ∧ ∀ index < length, bytes[index]? = some (value index)

theorem places_filled {direct : Prop} [Decidable direct] {fit : List UInt8 → Prop}
    {bytes : List UInt8} (later : HookOk heap (sys.receive grown ptr size direct) last)
    (places : Places (hookBlocks heap sys) ptr fit bytes)
    (placed : hookBlocks heap (sys.receive grown ptr size direct) =
      Function.update (hookBlocks heap sys) ptr (some bytes))
    (inside : length ≤ bytes.length) (value : Nat → UInt8) :
    ∃ filled, Places (hookBlocks heap sys) ptr (Filled bytes.length length value) filled ∧
      hookBlocks heap (sys.receive (overwrite heap grown ptr length value) ptr size direct) =
        Function.update (hookBlocks heap sys) ptr (some filled) := by
  have held : hookBlocks heap (sys.receive grown ptr size direct) ptr = some bytes := by
    rw [placed, Function.update_self]
  have written := hook_blocks_overwrite later (extent_of_held held).1 inside value
  rw [receive_hooks, placed, Function.update_idem] at written
  rw [receive_overwrite]
  apply Exists.intro (bytesFrom (byteAt heap (overwrite heap grown ptr length value))
    ptr bytes.length)
  constructor
  · constructor
    · rw [bytes_from_length]
      exact places.fresh
    · constructor
      · exact bytes_from_length _ _ _
      · intro index within
        rw [bytes_from_get _ (by omega : index < bytes.length), byte_at_overwrite,
          if_pos (by omega), Nat.add_sub_cancel_left]
  · exact written

/-! ## The hooks -/

theorem routed_refines (ok : HookOk heap sys g) (sizeWord : size < 2 ^ 64)
    (fits : HookFits heap sys (.malloc thread size))
    (routed : lzMallocRouted heap sys.hooks thread size = some (result, grown)) :
    Grants (hookBlocks heap sys) result (AtLeast size)
      (hookBlocks heap (sys.receive grown result size (lzMaxSpanObjSize < size))) := by
  simp only [HookFits] at fits
  unfold lzMallocRouted at routed
  cases ready : sys.hooks.ready with
  | true =>
      rw [if_pos ready] at routed fits
      obtain ⟨s, called, outside, rfl⟩ := engine_call_cases routed
      have allowed : ApiFits sys.api (.malloc thread size) := fits
      have taken : apiStep sys.api (.malloc thread size) =
          some (handOut sys.api s result size (lzMaxSpanObjSize < size)) := by
        simp only [apiStep, if_pos sizeWord, HookSys.api, called, Option.map_some]
      have step := engine_refines ok allowed taken (by rwa [hand_out_state])
      rw [hand_out_state] at step
      have answered : answer (lzMalloc sys.api.state thread size) = result := api_answer called
      simp only [apiEvent, answered] at step
      rw [receive_ready ready]
      cases step with
      | malloc grants => exact grants
  | false =>
      have waiting : ¬sys.hooks.ready = true := by simp [ready]
      rw [if_neg waiting] at routed fits
      obtain ⟨bytes, places, placed⟩ :=
        places_reserve (lzMaxSpanObjSize < size) ok ready sizeWord fits routed
      rw [placed]
      exact Grants.granted bytes places

theorem hook_malloc_refines (ok : HookOk heap sys g)
    (fits : HookFits heap sys (.malloc thread size))
    (stepped : hookStep heap sys (.malloc thread size) = some reached) :
    AbstractHeap.Step (hookBlocks heap sys) (hookEvent heap sys (.malloc thread size))
      (hookBlocks heap reached) := by
  simp only [hookStep] at stepped
  split at stepped
  · next bound =>
    obtain ⟨⟨result, after⟩, called, rfl⟩ := Option.map_eq_some_iff.mp stepped
    simp only [hookEvent, hook_answer_some called]
    exact AbstractHeap.Step.malloc (routed_refines ok bound fits called)
  · cases stepped

theorem hook_aligned_refines {alignment : Nat} (ok : HookOk heap sys g)
    (fits : AlignedFits heap sys alignment size) {answers : Option (Nat × Hooks)}
    (routes : Routes heap sys.hooks thread alignment size answers)
    (stepped : alignedStep sys alignment size answers = some reached) :
    AbstractHeap.Step (hookBlocks heap sys) (.memalign alignment size (hookAnswer answers))
      (hookBlocks heap reached) := by
  unfold alignedStep at stepped
  split at stepped
  · next bound =>
    obtain ⟨⟨result, after⟩, answered, rfl⟩ := Option.map_eq_some_iff.mp stepped
    rw [hook_answer_some answered]
    cases routes result after answered with
    | inl refused =>
        rw [refused.1, refused.2, receive_null]
        exact AbstractHeap.Step.memalign (Grants.refused rfl)
    | inr called =>
        unfold AlignedFits at fits
        unfold memalign at called
        cases ready : sys.hooks.ready with
        | true =>
            rw [if_pos ready] at called fits
            obtain ⟨s, served, outside, rfl⟩ := engine_call_cases called
            have allowed : ApiFits sys.api (.memalign thread alignment size) := fits
            have taken : apiStep sys.api (.memalign thread alignment size) =
                some (handOut sys.api s result size (memalignDirect alignment size)) := by
              simp only [apiStep, if_pos bound, HookSys.api, served, Option.map_some]
            have step := engine_refines ok allowed taken (by rwa [hand_out_state])
            rw [hand_out_state] at step
            have same : answer (lzMemalign sys.api.state thread alignment size) = result :=
              api_answer served
            simp only [apiEvent, same] at step
            rw [receive_ready ready]
            exact step
        | false =>
            have waiting : ¬sys.hooks.ready = true := by simp [ready]
            rw [if_neg waiting] at called fits
            obtain ⟨bytes, places, placed⟩ := places_reserve (memalignDirect alignment size) ok
              ready bound.2 fits called
            rw [placed]
            exact AbstractHeap.Step.memalign (Grants.granted bytes places)
  · cases stepped

theorem hook_calloc_refines {num : Nat} (ok : HookOk heap sys g)
    (fits : HookFits heap sys (.calloc thread num size))
    (stepped : hookStep heap sys (.calloc thread num size) = some reached) :
    AbstractHeap.Step (hookBlocks heap sys) (hookEvent heap sys (.calloc thread num size))
      (hookBlocks heap reached) := by
  simp only [hookStep] at stepped
  split at stepped
  · next bound =>
    obtain ⟨⟨result, after⟩, called, rfl⟩ := Option.map_eq_some_iff.mp stepped
    simp only [hookEvent, hook_answer_some called]
    simp only [HookFits] at fits
    unfold calloc at called
    by_cases overflow : num * size ≥ 2 ^ 64
    · rw [if_pos overflow, Option.some.injEq, Prod.mk.injEq] at called
      rw [← called.1, ← called.2, receive_null]
      exact AbstractHeap.Step.calloc (Grants.refused rfl)
    rw [if_neg overflow] at called
    cases ready : sys.hooks.ready with
    | true =>
        rw [if_pos ready] at called fits
        obtain ⟨s, served, outside, rfl⟩ := engine_call_cases called
        have allowed : ApiFits sys.api (.calloc thread num size) := fits
        have taken : apiStep sys.api (.calloc thread num size) =
            some (handOut sys.api s result (num * size) (lzMaxSpanObjSize < num * size)) := by
          simp only [apiStep, if_pos bound, HookSys.api, served, Option.map_some]
        have step := engine_refines ok allowed taken (by rwa [hand_out_state])
        rw [hand_out_state] at step
        have answered : answer (lzCalloc sys.api.state thread num size) = result :=
          api_answer served
        simp only [apiEvent, answered] at step
        rw [receive_ready ready]
        exact step
    | false =>
        have waiting : ¬sys.hooks.ready = true := by simp [ready]
        rw [if_neg waiting] at called fits
        obtain ⟨⟨found, granted⟩, reserved, same⟩ := Option.map_eq_some_iff.mp called
        rw [Prod.mk.injEq] at same
        obtain ⟨rfl, rfl⟩ := same
        have narrow : num * size < 2 ^ 64 := by omega
        obtain ⟨_, later⟩ := hook_ok_reserve (lzMaxSpanObjSize < num * size) ok ready
          narrow (fits narrow) reserved
        obtain ⟨bytes, places, placed⟩ := places_reserve (lzMaxSpanObjSize < num * size) ok ready
          narrow (fits narrow) reserved
        have room : num * size ≤ bytes.length := places.fit
        obtain ⟨filled, filledPlaces, filledBlocks⟩ :=
          places_filled later places placed room fun _ => 0
        have cleared : Places (hookBlocks heap sys) found (Cleared (num * size)) filled :=
          ⟨filledPlaces.fresh, filledPlaces.fit.2⟩
        apply AbstractHeap.Step.calloc
        rw [memset, filledBlocks]
        exact Grants.granted filled cleared
  · cases stepped

/-! ## Free -/

theorem takes_back_iff : takesBack heap sys.hooks ptr = true ↔
    ¬isBasePtr heap ptr = true ∧ sys.hooks.ready = true := by
  simp [takesBack]

theorem hook_free_refines (ok : HookOk heap sys g)
    (stepped : hookStep heap sys (.free thread ptr) = some reached) :
    AbstractHeap.Step (hookBlocks heap sys) (hookEvent heap sys (.free thread ptr))
      (hookBlocks heap reached) := by
  simp only [hookStep] at stepped
  split at stepped
  · next allowed =>
    obtain ⟨after, called, rfl⟩ := Option.map_eq_some_iff.mp stepped
    simp only [hookEvent]
    cases lz_free_routed_cases called with
    | inl nothing =>
        rw [if_neg nothing.1, nothing.2]
        by_cases null : ptr = 0
        · rw [null]
          exact AbstractHeap.Step.freeNull
        · have kept : takesBack heap sys.hooks ptr = false := by
            rw [Bool.eq_false_iff]
            intro taken
            exact nothing.1 ⟨null, takes_back_iff.mp taken⟩
          rw [kept]
          exact AbstractHeap.Step.free (holds_extent (allowed.resolve_left null))
    | inr engine =>
        obtain ⟨routed, s, done, outside, rfl⟩ := engine
        rw [if_pos routed, takes_back_iff.mpr routed.2]
        have live := holds_engine ok (allowed.resolve_left routed.1) (by simpa using routed.2.1)
        have taken : apiStep sys.api (.free thread ptr) = some (takeBack sys.api s ptr) := by
          simp only [apiStep, HookSys.api, live, or_true, if_true, done, Option.map_some]
        have fits : ApiFits sys.api (.free thread ptr) := trivial
        exact engine_refines ok fits taken outside
  · cases stepped

/-! ## Realloc -/

theorem array_moves (ok : HookOk heap sys g) (sizeWord : size < 2 ^ 64)
    (fits : HookFits heap sys (.malloc thread size)) (known : sys.granted ptr = some length)
    (grows : length < size)
    (routed : lzMallocRouted heap sys.hooks thread size = some (result, grown))
    (moved : result ≠ 0) :
    ∃ bytes, Places (hookBlocks heap sys) result
        (Extends (bytesFrom (byteAt heap sys.hooks) ptr length) size) bytes ∧
      hookBlocks heap (sys.receive (memcpy heap grown result ptr length) result size
        (lzMaxSpanObjSize < size)) = Function.update (hookBlocks heap sys) result (some bytes) := by
  obtain ⟨last, later⟩ := hook_ok_routed ok sizeWord fits routed
  have apart := routed_fresh ok sizeWord fits routed moved known
  have grants := routed_refines ok sizeWord fits routed
  generalize blocksEq : hookBlocks heap (sys.receive grown result size (lzMaxSpanObjSize < size)) =
    received at grants
  cases grants with
  | refused null => exact absurd null moved
  | granted bytes places =>
      have room : size ≤ bytes.length := places.fit
      obtain ⟨filled, filledPlaces, filledBlocks⟩ := places_filled later places blocksEq
        (by omega : length ≤ bytes.length) fun index => byteAt heap grown (ptr + index)
      refine ⟨filled, ⟨filledPlaces.fresh, ?_⟩, filledBlocks⟩
      -- The old block is as it was when it is read.
      have absent : ¬(sys.live ptr).isSome := by
        intro live
        rw [engine_not_granted ok live] at known
        cases known
      have held : extent sys ptr = some length := by rw [extent, if_neg absent, known]
      have before := @hook_blocks_held heap sys ptr length held
      have source : hookBlocks heap (sys.receive grown result size (lzMaxSpanObjSize < size)) ptr =
          some (bytesFrom (byteAt heap sys.hooks) ptr length) := by
        rw [blocksEq, Function.update_of_ne apart.symm, before]
      have kept := (extent_of_held source).2
      rw [bytes_from_length, receive_hooks] at kept
      constructor
      · rw [filledPlaces.fit.1]
        exact room
      · intro index within
        rw [bytes_from_length] at within
        rw [filledPlaces.fit.2 index (by omega), kept, bytes_from_get _ (by omega)]

theorem array_realloc_refines (ok : HookOk heap sys g) (sizeWord : size < 2 ^ 64)
    (fits : HookFits heap sys (.malloc thread size)) (holds : sys.Holds ptr) (nonnull : ptr ≠ 0)
    (positive : size ≠ 0) (array : isBasePtr heap ptr = true)
    (called : realloc heap sys.hooks thread ptr size = some (result, after)) :
    AbstractHeap.Step (hookBlocks heap sys) (.realloc ptr size result false)
      (hookBlocks heap (finishHook heap sys after ptr size result)) := by
  obtain ⟨length, known⟩ := holds_array ok holds array
  have absent : ¬(sys.live ptr).isSome := by
    intro live
    rw [engine_not_granted ok live] at known
    cases known
  have held : hookBlocks heap sys ptr = some (bytesFrom (byteAt heap sys.hooks) ptr length) :=
    hook_blocks_held (by rw [extent, if_neg absent, known])
  have header : load sys.hooks.base (ptr - baseHeaderSize) 8 = length :=
    ok.base.header ptr length known
  rw [finishHook, if_neg nonnull, if_pos array]
  rcases realloc_array_branches nonnull positive array called with
    ⟨rfl, rfl, room⟩ | ⟨grows, grown, routed, outcome⟩
  · rw [if_pos rfl]
    apply AbstractHeap.Step.reallocStays held
    rw [bytes_from_length, ← header]
    exact room
  · rw [header] at grows outcome
    cases outcome with
    | inl failed =>
        obtain ⟨rfl, rfl⟩ := failed
        have grants := routed_refines ok sizeWord fits routed
        rw [receive_null] at grants
        rw [if_neg nonnull.symm, receive_null]
        generalize hookBlocks heap { sys with hooks := after } = received at grants
        cases grants with
        | refused _ => exact AbstractHeap.Step.reallocFailed (holds_extent holds)
        | granted bytes places => exact absurd rfl places.fresh.nonnull
    | inr moved =>
        obtain ⟨found, rfl⟩ := moved
        obtain ⟨bytes, places, placed⟩ := array_moves ok sizeWord fits known grows routed found
        rw [if_neg (routed_fresh ok sizeWord fits routed found known), placed]
        exact AbstractHeap.Step.reallocMoves held places

theorem engine_realloc_refines (ok : HookOk heap sys g) (sizeWord : size < 2 ^ 64)
    (fits : MallocFits size) (live : (sys.live ptr).isSome)
    {s : State} (called : lzRealloc sys.hooks.engine thread ptr size = some (result, s))
    (outside : OutsideArray heap s.regions) :
    AbstractHeap.Step (hookBlocks heap sys) (.realloc ptr size result true)
      (hookBlocks heap (sys.settle { sys.hooks with engine := s }
        (finishRealloc sys.api s ptr size result))) := by
  have taken : apiStep sys.api (.realloc thread ptr size) =
      some (finishRealloc sys.api s ptr size result) := by
    simp only [apiStep, HookSys.api, live, sizeWord, or_true, and_self, if_true, called,
      Option.map_some]
  have within : ApiFits sys.api (.realloc thread ptr size) := fun _ => fits
  have step := engine_refines ok within taken (by rwa [finish_realloc_state])
  have answered : answer (lzRealloc sys.api.state thread ptr size) = result := api_answer called
  simp only [apiEvent, answered] at step
  rwa [finish_realloc_state] at step

theorem realloc_zero_refines (ok : HookOk heap sys g)
    (fits : HookFits heap sys (.realloc thread ptr 0))
    (holds : sys.Holds ptr) (nonnull : ptr ≠ 0)
    (called : realloc heap sys.hooks thread ptr 0 = some (result, after)) :
    AbstractHeap.Step (hookBlocks heap sys)
      (.realloc ptr 0 result (takesBack heap sys.hooks ptr))
      (hookBlocks heap (finishHook heap sys after ptr 0 result)) := by
  rw [realloc, if_neg nonnull, if_pos rfl] at called
  obtain ⟨released, freed, same⟩ := Option.map_eq_some_iff.mp called
  rw [Prod.mk.injEq] at same
  obtain ⟨rfl, rfl⟩ := same
  rw [finishHook, if_neg nonnull]
  cases lz_free_routed_cases freed with
  | inl skipped =>
      have kept : takesBack heap sys.hooks ptr = false := by
        rw [Bool.eq_false_iff]
        intro taken
        exact skipped.1 ⟨nonnull, takes_back_iff.mp taken⟩
      have stays : AbstractHeap.Step (hookBlocks heap sys) (.realloc ptr 0 0 false)
          (hookBlocks heap sys) :=
        AbstractHeap.Step.reallocZero nonnull (holds_extent holds)
      rw [skipped.2, kept]
      by_cases array : isBasePtr heap ptr = true
      · rw [if_pos array, if_neg nonnull.symm, receive_null]
        exact stays
      · rw [if_neg array, if_pos fun ready => skipped.1 ⟨nonnull, array, ready⟩]
        exact stays
  | inr engine =>
      obtain ⟨routed, s, done, outside, rfl⟩ := engine
      have moved : lzRealloc sys.hooks.engine thread ptr 0 = some (0, s) := by
        simp only [lzRealloc, if_neg nonnull, if_true, done, Option.map_some]
      simp only [HookFits] at fits
      rw [if_pos routed.2.2] at fits
      rw [if_neg routed.2.1, if_neg (not_not.mpr routed.2.2), takes_back_iff.mpr routed.2]
      exact engine_realloc_refines ok (by norm_num) fits
        (holds_engine ok holds (by simpa using routed.2.1)) moved outside

theorem hook_realloc_refines (ok : HookOk heap sys g)
    (fits : HookFits heap sys (.realloc thread ptr size))
    (stepped : hookStep heap sys (.realloc thread ptr size) = some reached) :
    AbstractHeap.Step (hookBlocks heap sys) (hookEvent heap sys (.realloc thread ptr size))
      (hookBlocks heap reached) := by
  simp only [hookStep] at stepped
  split at stepped
  · next allowed =>
    obtain ⟨⟨result, after⟩, called, rfl⟩ := Option.map_eq_some_iff.mp stepped
    simp only [hookEvent, hook_answer_some called]
    have room : HookFits heap sys (.malloc thread size) := fits
    by_cases null : ptr = 0
    · rw [realloc, if_pos null] at called
      rw [finishHook, if_pos null, null]
      exact AbstractHeap.Step.reallocNull (routed_refines ok allowed.1 room called)
    have holds := allowed.2.resolve_left null
    by_cases nothing : size = 0
    · rw [nothing] at called fits ⊢
      exact realloc_zero_refines ok fits holds null called
    cases array : isBasePtr heap ptr with
    | true =>
        have kept : takesBack heap sys.hooks ptr = false := by simp [takesBack, array]
        rw [kept]
        exact array_realloc_refines ok allowed.1 room holds null nothing array called
    | false =>
        rw [finishHook, if_neg null, if_neg (by simp [array])]
        rcases realloc_engine_branches null nothing array called with
          ⟨waiting, rfl, rfl⟩ | ⟨ready, s, moved, outside, rfl⟩
        · rw [if_pos (by simp [waiting])]
          exact AbstractHeap.Step.reallocFailed (holds_extent holds)
        · have taken : takesBack heap sys.hooks ptr = true := by simp [takesBack, array, ready]
          simp only [HookFits] at fits
          rw [if_pos ready] at fits
          rw [if_neg (by simp [ready]), taken]
          exact engine_realloc_refines ok allowed.1 fits (holds_engine ok holds array) moved
            outside
  · cases stepped

/-! ## Runs -/

theorem byte_at_write {hooks : Hooks} {address : Nat} {value : UInt8}
    (array : isBasePtr heap address = true) :
    byteAt heap { hooks with base := Function.update hooks.base address value } =
      Function.update (byteAt heap hooks) address value := by
  funext byte
  by_cases same : byte = address
  · rw [same, Function.update_self, byte_at_array _ array]
    exact Function.update_self address value hooks.base
  · rw [Function.update_of_ne same]
    simp only [byteAt, Function.update_of_ne same]

theorem hook_write_refines {offset : Nat} {value : UInt8} (ok : HookOk heap sys g)
    (stepped : hookStep heap sys (.write ptr offset value) = some reached) :
    AbstractHeap.Step (hookBlocks heap sys) (hookEvent heap sys (.write ptr offset value))
      (hookBlocks heap reached) := by
  simp only [hookStep] at stepped
  split at stepped
  · next inside =>
    obtain rfl := Option.some.inj stepped
    obtain ⟨size, granted⟩ : ∃ size, sys.granted ptr = some size := by
      cases known : sys.granted ptr with
      | none =>
          rw [known] at inside
          exact absurd inside (Nat.not_lt_zero offset)
      | some size => exact ⟨size, rfl⟩
    rw [granted, Option.getD_some] at inside
    have absent : ¬(sys.live ptr).isSome := by
      intro live
      rw [engine_not_granted ok live] at granted
      cases granted
    have held : extent sys ptr = some size := by rw [extent, if_neg absent, granted]
    have here := @hook_blocks_held heap sys ptr size held
    have separate := hook_separate ok
    have written : hookBlocks heap { sys with hooks := { sys.hooks with
        base := Function.update sys.hooks.base (ptr + offset) value } } =
        Function.update (hookBlocks heap sys) ptr
          (some ((bytesFrom (byteAt heap sys.hooks) ptr size).set offset value)) := by
      funext other
      unfold hookBlocks
      rw [byte_at_write (array_bytes ok granted inside)]
      by_cases same : other = ptr
      · have there : extent { sys with hooks := { sys.hooks with
            base := Function.update sys.hooks.base (ptr + offset) value } } ptr = some size := held
        rw [same, Function.update_self, there, Option.map_some, bytes_from_update]
      · rw [Function.update_of_ne same]
        cases there : extent sys other with
        | none =>
            have absent : extent { sys with hooks := { sys.hooks with
                base := Function.update sys.hooks.base (ptr + offset) value } }
                other = none := there
            rw [absent]
            rfl
        | some room =>
            have stays : extent { sys with hooks := { sys.hooks with
                base := Function.update sys.hooks.base (ptr + offset) value } } other = some room :=
              there
            have beside := @hook_blocks_held heap sys other room there
            rw [stays]
            apply congrArg some
            apply bytes_from_congr
            intro byte lower upper
            apply Function.update_of_ne
            cases Nat.lt_or_gt_of_ne same with
            | inl before =>
                have apart := separate.apart other ptr _ _ before beside here
                rw [bytes_from_length] at apart
                omega
            | inr behind =>
                have apart := separate.apart ptr other _ _ behind here beside
                rw [bytes_from_length] at apart
                omega
    rw [written]
    apply AbstractHeap.Step.write here
    rw [bytes_from_length]
    exact inside
  · cases stepped

theorem hook_step_refines (ok : HookOk heap sys g) {act : HookAct} (fits : HookFits heap sys act)
    (stepped : hookStep heap sys act = some reached) :
    AbstractHeap.Step (hookBlocks heap sys) (hookEvent heap sys act) (hookBlocks heap reached) := by
  cases act with
  | bootstrap =>
      obtain rfl := Option.some.inj stepped
      exact AbstractHeap.Step.internal
  | malloc thread size => exact hook_malloc_refines ok fits stepped
  | calloc thread num size => exact hook_calloc_refines ok fits stepped
  | realloc thread ptr size => exact hook_realloc_refines ok fits stepped
  | memalign thread alignment size =>
      exact hook_aligned_refines ok fits (routes_memalign heap _ thread alignment size) stepped
  | posixMemalign thread memptr alignment size =>
      exact hook_aligned_refines ok fits
        (routes_posix_memalign heap _ thread memptr alignment size) stepped
  | alignedAlloc thread alignment size =>
      exact hook_aligned_refines ok fits (routes_aligned_alloc heap _ thread alignment size) stepped
  | valloc thread sysconf size =>
      exact hook_aligned_refines ok fits (routes_memalign heap _ thread _ size) stepped
  | pvalloc thread sysconf size =>
      exact hook_aligned_refines ok fits (routes_memalign heap _ thread _ size) stepped
  | free thread ptr => exact hook_free_refines ok stepped
  | library act =>
      obtain ⟨⟨api, after⟩, called, rfl⟩ := Option.map_eq_some_iff.mp stepped
      obtain ⟨s, answered, outside, rfl⟩ := engine_call_cases called
      obtain ⟨same, taken, eq⟩ := Option.map_eq_some_iff.mp answered
      rw [Prod.mk.injEq] at eq
      obtain ⟨rfl, rfl⟩ := eq
      exact engine_refines ok fits taken outside
  | write ptr offset value => exact hook_write_refines ok stepped

theorem hook_blocks_start (heap : BaseHeap) (env : Env) (secret : BitVec 64) (telemetry : Bool)
    (base : Memory) : hookBlocks heap (hookStart env secret telemetry base) = emptyHeap := by
  funext ptr
  rfl

/-- Across the switch from the array to the engine the hooks refine the abstract
heap. -/
theorem hooks_refine_heap {heap : BaseHeap} {env : Env} {secret : BitVec 64} {telemetry : Bool}
    {base : Memory} {acts : List HookAct} {sys : HookSys}
    (leaves : ∀ call, env.leafMmap call = true)
    (fits : Along (hookStep heap) (HookFits heap) (hookStart env secret telemetry base) acts)
    (ran : run (hookStep heap) (hookStart env secret telemetry base) acts = some sys) :
    Path AbstractHeap.Step emptyHeap
      (trace (hookStep heap) (hookEvent heap) (hookStart env secret telemetry base) acts)
      (hookBlocks heap sys) := by
  have refines : ∀ before act next, (∃ ghost, HookOk heap before ghost) →
      HookFits heap before act → hookStep heap before act = some next →
        (∃ ghost, HookOk heap next ghost) ∧
          AbstractHeap.Step (hookBlocks heap before) (hookEvent heap before act)
            (hookBlocks heap next) := by
    intro before act next holds allowed stepped
    obtain ⟨ghost, ok⟩ := holds
    constructor
    · exact hook_step_ok ok allowed stepped
    · exact hook_step_refines ok allowed stepped
  rw [← hook_blocks_start heap env secret telemetry base]
  exact run_refines refines
    ⟨emptyGhost, hook_start_ok heap env secret telemetry base leaves⟩ fits ran

/-- A block of the array is written, outlives the switch and moves into the
engine. -/
theorem migration_refines :
    ∃ sys, run (hookStep sampleHeap) (hookStart generousEnv 7 true fun _ => 0)
        [.malloc 1 24, .write 1048592 3 65, .bootstrap, .realloc 1 1048592 100] = some sys ∧
      (hookBlocks sampleHeap sys 1048592).isSome ∧ (hookBlocks sampleHeap sys 4359979136).isSome ∧
      Path AbstractHeap.Step emptyHeap
        (trace (hookStep sampleHeap) (hookEvent sampleHeap)
          (hookStart generousEnv 7 true fun _ => 0)
          [.malloc 1 24, .write 1048592 3 65, .bootstrap, .realloc 1 1048592 100])
        (hookBlocks sampleHeap sys) := by
  have fits : Along (hookStep sampleHeap) (HookFits sampleHeap)
      (hookStart generousEnv 7 true fun _ => 0)
      [.malloc 1 24, .write 1048592 3 65, .bootstrap, .realloc 1 1048592 100] := by decide +kernel
  have facts : (run (hookStep sampleHeap) (hookStart generousEnv 7 true fun _ => 0)
      [.malloc 1 24, .write 1048592 3 65, .bootstrap, .realloc 1 1048592 100]).map (fun sys =>
        (sys.granted 1048592, sys.live 4359979136)) = some (some 24, some 100) := by decide +kernel
  obtain ⟨sys, ran, values⟩ := Option.map_eq_some_iff.mp facts
  rw [Prod.mk.injEq] at values
  have array : sys.Holds 1048592 := Or.inr (by simp [values.1])
  have engine : sys.Holds 4359979136 := Or.inl (by simp [values.2])
  exact ⟨sys, ran, holds_extent array, holds_extent engine,
    hooks_refine_heap (fun _ => rfl) fits ran⟩

end Lzmalloc.HookRefinement
