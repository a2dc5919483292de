import Lzmalloc.AbstractHeap
import Lzmalloc.PayloadContracts

/-!
# The allocator refines an abstract heap

Read through the live objects and the bytes of the memory, every run of the
public interface is a run of the abstract heap: requests are answered with
blocks that share no byte with a live object, `lz_calloc` clears, `lz_realloc`
keeps the contents, and a free by any thread, a thread exit, an adoption or a
garbage collection changes no block of a client.
-/

namespace Lzmalloc.HeapRefinement

open SizeClasses HeapState ByteMemory PublicApi StepSystem HeapInvariant InvariantFacts ClientView
open ObjectRanges ThreadLifecycle ApiOperations ApiRuns ClientBytes PayloadContracts
open SlabContracts (generousEnv)
open AbstractHeap (Heap Event Places Grants AtLeast Cleared Extends emptyHeap release
  Separate)

set_option autoImplicit false

def blocks (sys : ApiSys) : Heap := fun ptr =>
  if (sys.live ptr).isSome then some (bytesFrom sys.state.mem ptr (originLength (sys.born ptr)))
  else none

def answer (called : Option (Nat × State)) : Nat := (called.map Prod.fst).getD 0

def apiEvent (sys : ApiSys) : ApiAct → Event
  | .malloc thread size => .malloc size (answer (lzMalloc sys.state thread size))
  | .calloc thread num size => .calloc num size (answer (lzCalloc sys.state thread num size))
  | .realloc thread ptr size =>
      .realloc ptr size (answer (lzRealloc sys.state thread ptr size)) true
  | .memalign thread alignment size =>
      .memalign alignment size (answer (lzMemalign sys.state thread alignment size))
  | .free _ ptr => .free ptr true
  | .write ptr offset value => .write ptr offset value
  | .exit _ | .gc _ | .attach _ | .reap _ => .internal

variable {mode : Mode} {sys reached : ApiSys} {g last : Ghost} {after : State}
  {thread ptr other size : Nat}

/-! ## Blocks -/

theorem blocks_live (known : (sys.live ptr).isSome) :
    blocks sys ptr =
      some (bytesFrom sys.state.mem ptr (originLength (sys.born ptr))) := if_pos known

theorem blocks_none (unknown : sys.live ptr = none) : blocks sys ptr = none := by
  simp [blocks, unknown]

theorem blocks_some {bytes : List UInt8} (held : blocks sys ptr = some bytes) :
    (sys.live ptr).isSome ∧
      bytes = bytesFrom sys.state.mem ptr (originLength (sys.born ptr)) := by
  unfold blocks at held
  split at held
  · next known => exact ⟨known, (Option.some.inj held).symm⟩
  · cases held

theorem live_record (ok : ApiOk mode sys g) (known : (sys.live ptr).isSome) :
    g.node ptr = .live ∧ sys.born ptr = g.record ptr := by
  have live := (ok.live ptr).mp known
  exact ⟨live, ok.born ptr (by simp [live, NodePlace.InUse])⟩

theorem bytes_undisturbed (ok : ApiOk mode sys g) {mem : Memory}
    (undisturbed : Undisturbed g sys.state.mem mem) (known : (sys.live ptr).isSome) :
    bytesFrom mem ptr (originLength (sys.born ptr)) =
      bytesFrom sys.state.mem ptr (originLength (sys.born ptr)) := by
  obtain ⟨live, born⟩ := live_record ok known
  apply bytes_from_congr
  intro byte lower upper
  rw [born] at upper
  exact undisturbed ptr byte live lower upper

theorem blocks_quiet (ok : ApiOk mode sys g) (undisturbed : Undisturbed g sys.state.mem after.mem) :
    blocks { sys with state := after } = blocks sys := by
  funext ptr
  by_cases known : (sys.live ptr).isSome
  · rw [blocks_live known, @blocks_live { sys with state := after } _ known]
    exact congrArg some (bytes_undisturbed ok undisturbed known)
  · simp [blocks, known]

theorem live_objects_apart (ok : ApiOk mode sys g) (known : (sys.live ptr).isSome)
    (otherKnown : (sys.live other).isSome) (different : other ≠ ptr) :
    ptr + originLength (sys.born ptr) ≤ other ∨ other + originLength (sys.born other) ≤ ptr := by
  have core := ok.rest.inv.toCore
  obtain ⟨live, born⟩ := live_record ok known
  obtain ⟨otherLive, otherBorn⟩ := live_record ok otherKnown
  have present : g.node ptr ≠ .none := by simp [live]
  have otherPresent : g.node other ≠ .none := by simp [otherLive]
  rw [born, otherBorn, ← object_length_record core (by simp [live, NodePlace.InUse]),
    ← object_length_record core (by simp [otherLive, NodePlace.InUse])]
  cases Nat.lt_or_gt_of_ne different with
  | inl before =>
      right
      exact object_ranges core otherPresent present
        (short_unwrapped core ok.rest.short other) before
  | inr behind =>
      left
      exact object_ranges core present otherPresent (short_unwrapped core ok.rest.short ptr) behind

theorem blocks_separate (ok : ApiOk mode sys g) : Separate (blocks sys) := by
  constructor
  · exact blocks_none (live_nonnull ok)
  · intro left right leftBytes rightBytes before leftHeld rightHeld
    obtain ⟨leftKnown, rfl⟩ := blocks_some leftHeld
    obtain ⟨rightKnown, rfl⟩ := blocks_some rightHeld
    have apart := live_objects_apart ok leftKnown rightKnown (by omega)
    rw [bytes_from_length]
    omega

/-! ## Requests -/

section HandOut

variable {direct : Prop} [Decidable direct]

theorem hand_out_live (nonnull : ptr ≠ 0) :
    (handOut sys after ptr size direct).live = Function.update sys.live ptr (some size) := by
  rw [handOut, if_neg nonnull]

theorem hand_out_born (nonnull : ptr ≠ 0) (different : other ≠ ptr) :
    (handOut sys after ptr size direct).born other = sys.born other := by
  rw [handOut, if_neg nonnull]
  exact Function.update_of_ne different _ _

theorem hand_out_mem : (handOut sys after ptr size direct).state.mem = after.mem := by
  unfold handOut
  split
  · rfl
  · rfl

theorem hand_out_room (later : ApiOk mode (handOut sys after ptr size direct) last)
    (nonnull : ptr ≠ 0) : size ≤ originLength ((handOut sys after ptr size direct).born ptr) := by
  have asked : (handOut sys after ptr size direct).live ptr = some size := by
    simp [hand_out_live nonnull]
  rw [(live_record later (by simp [asked])).2]
  exact later.asked ptr size asked

def Kept (sys : ApiSys) (after : State) : Prop :=
  ∀ other, (sys.live other).isSome →
    bytesFrom after.mem other (originLength (sys.born other)) =
      bytesFrom sys.state.mem other (originLength (sys.born other))

theorem places_hand_out {fit : List UInt8 → Prop}
    (later : ApiOk mode (handOut sys after ptr size direct) last) (nonnull : ptr ≠ 0)
    (unused : sys.live ptr = none) (kept : Kept sys after)
    (fits : ∀ length, size ≤ length → fit (bytesFrom after.mem ptr length)) :
    ∃ bytes, Places (blocks sys) ptr fit bytes ∧
      blocks (handOut sys after ptr size direct) =
        Function.update (blocks sys) ptr (some bytes) := by
  have placed : blocks (handOut sys after ptr size direct) = Function.update (blocks sys) ptr
      (some (bytesFrom after.mem ptr
        (originLength ((handOut sys after ptr size direct).born ptr)))) := by
    funext other
    by_cases same : other = ptr
    · rw [same, Function.update_self, blocks_live (by simp [hand_out_live nonnull]), hand_out_mem]
    · rw [Function.update_of_ne same]
      unfold blocks
      rw [hand_out_live nonnull, Function.update_of_ne same,
        hand_out_born nonnull same, hand_out_mem]
      by_cases known : (sys.live other).isSome
      · rw [if_pos known, if_pos known, kept other known]
      · rw [if_neg known, if_neg known]
  have separate := blocks_separate later
  rw [placed] at separate
  apply Exists.intro
    (bytesFrom after.mem ptr (originLength ((handOut sys after ptr size direct).born ptr)))
  constructor
  · constructor
    · exact AbstractHeap.fresh_of_separate separate (blocks_none unused)
    · exact fits _ (hand_out_room later nonnull)
  · exact placed

theorem grants_served {fit : List UInt8 → Prop} {origin : Origin} (ok : ApiOk mode sys g)
    (served : Served mode g after ptr origin)
    (later : ApiOk mode (handOut sys after ptr size direct) last)
    (undisturbed : Undisturbed g sys.state.mem after.mem)
    (fits : ∀ length, size ≤ length → ptr ≠ 0 → fit (bytesFrom after.mem ptr length)) :
    Grants (blocks sys) ptr fit (blocks (handOut sys after ptr size direct)) := by
  by_cases null : ptr = 0
  · rw [handOut, if_pos null, blocks_quiet ok undisturbed]
    exact Grants.refused null
  · have unused : sys.live ptr = none := by
      obtain ⟨middle, _, outcome⟩ := served
      have fresh := (outcome.resolve_left fun failed => null failed.1).2.fresh.1
      by_contra known
      exact fresh ((ok.live ptr).mp (Option.isSome_iff_ne_none.mpr known))
    obtain ⟨bytes, places, same⟩ := places_hand_out later null unused
      (fun other known => bytes_undisturbed ok undisturbed known)
      fun length room => fits length room null
    rw [same]
    exact Grants.granted bytes places

end HandOut

theorem at_least_bytes {mem : Memory} (length : Nat) (room : size ≤ length) (_ : ptr ≠ 0) :
    AtLeast size (bytesFrom mem ptr length) := by
  rw [AtLeast, bytes_from_length]
  exact room

theorem malloc_refines (ok : ApiOk mode sys g) (fits : ApiFits sys (.malloc thread size))
    (stepped : apiStep sys (.malloc thread size) = some reached) (later : ApiOk mode reached last) :
    AbstractHeap.Step (blocks sys) (apiEvent sys (.malloc thread size)) (blocks reached) := by
  simp only [apiStep] at stepped
  split at stepped
  · obtain ⟨⟨ptr, after⟩, called, rfl⟩ := Option.map_eq_some_iff.mp stepped
    have answered : answer (lzMalloc sys.state thread size) = ptr := by rw [answer, called]; rfl
    simp only [apiEvent, answered]
    apply AbstractHeap.Step.malloc
    exact grants_served ok (served_malloc ok.rest fits called) later
      (undisturbed_malloc ok.rest called) at_least_bytes
  · cases stepped

theorem memalign_refines {alignment : Nat} (ok : ApiOk mode sys g)
    (fits : ApiFits sys (.memalign thread alignment size))
    (stepped : apiStep sys (.memalign thread alignment size) = some reached)
    (later : ApiOk mode reached last) :
    AbstractHeap.Step (blocks sys) (apiEvent sys (.memalign thread alignment size))
      (blocks reached) := by
  simp only [apiStep] at stepped
  split at stepped
  · next bound =>
    obtain ⟨⟨ptr, after⟩, called, rfl⟩ := Option.map_eq_some_iff.mp stepped
    have answered : answer (lzMemalign sys.state thread alignment size) = ptr := by
      rw [answer, called]
      rfl
    simp only [apiEvent, answered]
    apply AbstractHeap.Step.memalign
    exact grants_served ok (served_memalign ok.rest bound.1 fits called) later
      (undisturbed_memalign ok.rest called) at_least_bytes
  · cases stepped

theorem calloc_size_word {num : Nat} (narrow : num * size < 2 ^ 64) :
    callocSize num size < 2 ^ 64 := by
  unfold callocSize
  split
  · norm_num
  · exact narrow

theorem calloc_refines {num : Nat} (ok : ApiOk mode sys g)
    (fits : ApiFits sys (.calloc thread num size))
    (stepped : apiStep sys (.calloc thread num size) = some reached)
    (later : ApiOk mode reached last) :
    AbstractHeap.Step (blocks sys) (apiEvent sys (.calloc thread num size)) (blocks reached) := by
  simp only [apiStep] at stepped
  split at stepped
  · obtain ⟨⟨ptr, after⟩, called, rfl⟩ := Option.map_eq_some_iff.mp stepped
    have answered : answer (lzCalloc sys.state thread num size) = ptr := by rw [answer, called]; rfl
    simp only [apiEvent, answered]
    apply AbstractHeap.Step.calloc
    by_cases narrow : num * size < 2 ^ 64
    · have word := calloc_size_word narrow
      apply grants_served ok (served_calloc ok.rest fits called) later
        (calloc_undisturbed_fitting ok.rest narrow word (fits word) called)
      intro length room nonnull index inside
      rw [bytes_from_get after.mem (by omega : index < length)]
      exact congrArg some
        (calloc_clears_fitting narrow (fits word) called nonnull (by omega) (by omega))
    · rw [lz_calloc_overflow sys.state thread (by omega), Option.some.injEq,
        Prod.mk.injEq] at called
      obtain ⟨rfl, rfl⟩ := called
      exact Grants.refused rfl
  · cases stepped

/-! ## Objects that are given back -/

theorem blocks_take_back (kept : ∀ other, (sys.live other).isSome → other ≠ ptr →
      bytesFrom after.mem other (originLength (sys.born other)) =
        bytesFrom sys.state.mem other (originLength (sys.born other))) :
    blocks (takeBack sys after ptr) = release (blocks sys) ptr true := by
  funext other
  rw [release, if_pos rfl]
  by_cases same : other = ptr
  · rw [same, Function.update_self]
    exact blocks_none (by simp [takeBack])
  · rw [Function.update_of_ne same]
    unfold blocks takeBack
    simp only [Function.update_of_ne same]
    by_cases known : (sys.live other).isSome
    · rw [if_pos known, if_pos known, kept other known same]
    · rw [if_neg known, if_neg known]

theorem blocks_freed (ok : ApiOk mode sys g) (withdrawn : Withdrawn g last ptr)
    (undisturbed : Undisturbed last sys.state.mem after.mem) :
    blocks (takeBack sys after ptr) = release (blocks sys) ptr true := by
  apply blocks_take_back
  intro other known different
  obtain ⟨live, born⟩ := live_record ok known
  apply bytes_from_congr
  intro byte lower upper
  apply undisturbed other byte ((withdrawn.live other).mpr ⟨different, live⟩) lower
  rwa [withdrawn.record, ← born]

theorem free_refines (ok : ApiOk mode sys g) (lost : mode.noLeaks → mode.leavesMapped)
    (stepped : apiStep sys (.free thread ptr) = some reached) :
    AbstractHeap.Step (blocks sys) (apiEvent sys (.free thread ptr)) (blocks reached) := by
  simp only [apiEvent]
  rcases api_free_cases stepped with ⟨rfl, rfl⟩ | ⟨-, known, after, called, rfl⟩
  · rw [take_back_null ok]
    exact AbstractHeap.Step.freeNull
  · obtain ⟨last, _, withdrawn, undisturbed⟩ :=
      undisturbed_free ok.rest ((ok.live ptr).mp known) lost called
    rw [blocks_freed ok withdrawn undisturbed]
    apply AbstractHeap.Step.free
    rw [blocks_live known]
    rfl

/-! ## Reallocation -/

/-- The old contents of an object that `lz_realloc` moves arrive, and no other
object changes. -/
structure Moves (sys : ApiSys) (after : State) (ptr size result : Nat) : Prop where
  unused : sys.live result = none
  arrived : ∀ index < min (originLength (sys.born ptr)) size,
    after.mem (result + index) = sys.state.mem (ptr + index)
  others : ∀ other, (sys.live other).isSome → other ≠ ptr →
    bytesFrom after.mem other (originLength (sys.born other)) =
      bytesFrom sys.state.mem other (originLength (sys.born other))

theorem realloc_moves (ok : ApiOk mode sys g) (lost : mode.noLeaks → mode.leavesMapped)
    (known : (sys.live ptr).isSome) (bound : size < 2 ^ 64) (fits : MallocFits size)
    (registered : lzMallocUsableSize sys.state ptr ≠ 0)
    (grows : lzMallocUsableSize sys.state ptr < size) {result : Nat} (moved : result ≠ 0)
    {grown : State} (allocated : lzMalloc sys.state thread size = some (result, grown))
    (released :
      lzFree { grown with mem := copy grown.mem result ptr (lzMallocUsableSize sys.state ptr) }
        thread ptr = some after) :
    Moves sys after ptr size result := by
  have rest := ok.rest
  obtain ⟨live, born⟩ := live_record ok known
  have present : g.node ptr ≠ .none := by simp [live]
  have length : lzMallocUsableSize sys.state ptr = originLength (sys.born ptr) := by
    have found : resolve sys.state ptr ≠ 0 := fun missing => registered (usable_size_zero missing)
    rw [usable_size_eq rest.inv.toCore present found,
      object_length_record rest.inv.toCore (by simp [live, NodePlace.InUse]), born]
  have grownServed := served_malloc rest fits allocated
  have copiedServed := @served_copy mode g grown result size ptr _ grownServed moved bound
    (le_of_lt grows)
  have undisturbed := undisturbed_malloc rest allocated
  rw [length] at released copiedServed grows
  obtain ⟨copied, copiedEq⟩ : ∃ copied : State,
      { grown with mem := copy grown.mem result ptr (originLength (sys.born ptr)) } = copied :=
    ⟨_, rfl⟩
  have mem : copied.mem = copy grown.mem result ptr (originLength (sys.born ptr)) := by
    rw [← copiedEq]
  rw [copiedEq] at released copiedServed
  obtain ⟨middle, copiedRest, outcome⟩ := copiedServed
  have fresh := (outcome.resolve_left fun failed => moved failed.1).2
  have apart : ∀ other, g.node other = .live → other ≠ result := by
    intro other there same
    rw [same] at there
    exact fresh.fresh.1 there
  obtain ⟨last, _, withdrawn, later⟩ :=
    undisturbed_free copiedRest ((fresh.live ptr).mpr (Or.inr live)) lost released
  constructor
  · by_contra there
    exact fresh.fresh.1 ((ok.live result).mp (Option.isSome_iff_ne_none.mpr there))
  · intro index inside
    have resultLive : last.node result = .live :=
      (withdrawn.live result).mpr ⟨(apart ptr live).symm, (fresh.live result).mpr (Or.inl rfl)⟩
    have record : last.record result = mallocOrigin size := by
      rw [withdrawn.record, fresh.record, Function.update_self]
    have room := malloc_length bound
    have position : result + index - result + ptr = ptr + index := by omega
    rw [later result (result + index) resultLive (by omega) (by rw [record]; omega), mem]
    simp only [copy, if_pos (show result ≤ result + index ∧
      result + index < result + originLength (sys.born ptr) by omega), position]
    exact undisturbed ptr (ptr + index) live (by omega) (by rw [← born]; omega)
  · intro other otherKnown different
    obtain ⟨otherLive, otherBorn⟩ := live_record ok otherKnown
    have otherRecord : last.record other = g.record other := by
      rw [withdrawn.record, fresh.record, Function.update_of_ne (apart other otherLive)]
    apply bytes_from_congr
    intro byte lower upper
    rw [otherBorn] at upper
    have outside := malloc_apart rest fits bound allocated moved otherLive lower upper
    rw [later other byte ((withdrawn.live other).mpr
      ⟨different, (fresh.live other).mpr (Or.inr otherLive)⟩) lower
      (by rw [otherRecord]; exact upper),
      mem, copy_outside grown.mem (by omega)]
    exact undisturbed other byte otherLive lower upper

theorem realloc_refines (ok : ApiOk mode sys g) (lost : mode.noLeaks → mode.leavesMapped)
    (fits : ApiFits sys (.realloc thread ptr size))
    (stepped : apiStep sys (.realloc thread ptr size) = some reached)
    (later : ApiOk mode reached last) :
    AbstractHeap.Step (blocks sys) (apiEvent sys (.realloc thread ptr size)) (blocks reached) := by
  simp only [apiStep] at stepped
  split at stepped
  · next allowed =>
    obtain ⟨bound, holds⟩ := allowed
    obtain ⟨⟨result, after⟩, called, rfl⟩ := Option.map_eq_some_iff.mp stepped
    have answered : answer (lzRealloc sys.state thread ptr size) = result := by
      rw [answer, called]
      rfl
    simp only [apiEvent, answered]
    unfold finishRealloc at later ⊢
    by_cases null : ptr = 0
    · subst null
      simp only [if_true] at later ⊢
      rw [lzRealloc, if_pos rfl] at called
      apply AbstractHeap.Step.reallocNull
      exact grants_served ok (served_malloc ok.rest (fits (Or.inl rfl)) called) later
        (undisturbed_malloc ok.rest called) at_least_bytes
    have known := holds.resolve_left null
    have live := (ok.live ptr).mp known
    have held : (blocks sys ptr).isSome := by
      rw [blocks_live known]
      rfl
    simp only [if_neg null] at later ⊢
    by_cases nothing : size = 0
    · simp only [lzRealloc, if_neg null, if_pos nothing] at called
      obtain ⟨freed, released, same⟩ := Option.map_eq_some_iff.mp called
      rw [Prod.mk.injEq] at same
      obtain ⟨rfl, rfl⟩ := same
      obtain ⟨gone, _, withdrawn, undisturbed⟩ := undisturbed_free ok.rest live lost released
      rw [if_pos nothing, nothing,
        blocks_freed ok withdrawn undisturbed]
      exact AbstractHeap.Step.reallocZero null held
    simp only [if_neg nothing] at later ⊢
    rcases lz_realloc_branches null nothing called with
      ⟨rfl, rfl, _⟩ | ⟨rfl, rfl, room⟩ |
        ⟨registered, grows, ⟨rfl, refused⟩ | ⟨moved, grown, allocated, released⟩⟩
    · rw [if_pos rfl]
      exact AbstractHeap.Step.reallocFailed held
    · rw [if_neg null, if_pos rfl]
      have same : blocks { sys with live := Function.update sys.live result (some size) } =
          blocks sys := by
        funext other
        by_cases here : other = result
        · simp [blocks, here, known]
        · simp [blocks, here]
      rw [same]
      apply AbstractHeap.Step.reallocStays (blocks_live known)
      obtain ⟨asked, askedEq⟩ := Option.isSome_iff_exists.mp known
      have range := client_range ok askedEq
      rw [bytes_from_length, (live_record ok known).2]
      omega
    · rw [if_pos rfl, blocks_quiet ok (undisturbed_malloc ok.rest refused)]
      exact AbstractHeap.Step.reallocFailed held
    · have moves := realloc_moves ok lost known bound (fits (Or.inr ⟨registered, grows⟩)) registered
        grows moved allocated released
      have apart : result ≠ ptr := by
        intro same
        rw [← same, moves.unused] at known
        cases known
      simp only [if_neg moved, if_neg apart] at later ⊢
      have unused : (takeBack sys after ptr).live result = none := by
        simp [takeBack, apart, moves.unused]
      have extended : ∀ length, size ≤ length →
          Extends (bytesFrom sys.state.mem ptr (originLength (sys.born ptr))) size
            (bytesFrom after.mem result length) := by
        intro length room
        constructor
        · rw [bytes_from_length]
          exact room
        · intro index inside
          rw [bytes_from_length] at inside
          rw [bytes_from_get _ (by omega), bytes_from_get _ (by omega), moves.arrived index inside]
      obtain ⟨bytes, places, same⟩ := places_hand_out later moved unused (fun _ _ => rfl) extended
      rw [blocks_take_back moves.others] at places same
      rw [same]
      exact AbstractHeap.Step.reallocMoves (blocks_live known) places
  · cases stepped

/-! ## Writes and housekeeping -/

theorem write_refines {offset : Nat} {value : UInt8} (ok : ApiOk mode sys g)
    (stepped : apiStep sys (.write ptr offset value) = some reached) :
    AbstractHeap.Step (blocks sys) (apiEvent sys (.write ptr offset value)) (blocks reached) := by
  simp only [apiStep] at stepped
  split at stepped
  · next allowed =>
    obtain ⟨inside, known⟩ := allowed
    obtain rfl := Option.some.inj stepped
    obtain ⟨asked, askedEq⟩ := Option.isSome_iff_exists.mp known
    have range := client_range ok askedEq
    rw [askedEq, Option.getD_some] at inside
    rw [← (live_record ok known).2] at range
    have written : blocks { sys with
        state := { sys.state with mem := Function.update sys.state.mem (ptr + offset) value } } =
        Function.update (blocks sys) ptr (some
          ((bytesFrom sys.state.mem ptr (originLength (sys.born ptr))).set offset value)) := by
      funext other
      by_cases same : other = ptr
      · rw [same, Function.update_self, blocks, if_pos known, bytes_from_update]
      · rw [Function.update_of_ne same]
        unfold blocks
        by_cases there : (sys.live other).isSome
        · simp only [if_pos there]
          have apart := live_objects_apart ok known there same
          apply congrArg some
          apply bytes_from_congr
          intro byte lower upper
          exact Function.update_of_ne (by omega) _ _
        · simp only [if_neg there]
    rw [written]
    apply AbstractHeap.Step.write (blocks_live known)
    rw [bytes_from_length]
    omega
  · cases stepped

theorem api_step_refines (ok : ApiOk mode sys g) (lost : mode.noLeaks → mode.leavesMapped)
    {act : ApiAct} (fits : ApiFits sys act) (stepped : apiStep sys act = some reached) :
    AbstractHeap.Step (blocks sys) (apiEvent sys act) (blocks reached) := by
  obtain ⟨last, later⟩ := api_step_ok ok lost fits stepped
  cases act with
  | malloc thread size => exact malloc_refines ok fits stepped later
  | calloc thread num size => exact calloc_refines ok fits stepped later
  | realloc thread ptr size => exact realloc_refines ok lost fits stepped later
  | memalign thread alignment size => exact memalign_refines ok fits stepped later
  | free thread ptr => exact free_refines ok lost stepped
  | exit thread =>
      obtain rfl := Option.some.inj stepped
      rw [blocks_quiet ok (undisturbed_exit ok.rest thread)]
      exact AbstractHeap.Step.internal
  | gc thread =>
      obtain rfl := Option.some.inj stepped
      rw [blocks_quiet ok (undisturbed_gc ok.rest thread)]
      exact AbstractHeap.Step.internal
  | attach thread =>
      obtain ⟨after, attached, rfl⟩ := Option.map_eq_some_iff.mp stepped
      have same : Undisturbed g sys.state.mem after.mem := by
        rw [(ensure_tls_init_frame attached).1]
        exact undisturbed_refl g sys.state.mem
      rw [blocks_quiet ok same]
      exact AbstractHeap.Step.internal
  | reap tlh =>
      simp only [apiStep] at stepped
      split at stepped
      · obtain rfl := Option.some.inj stepped
        rw [blocks_quiet ok (undisturbed_reap ok.rest.inv ok.rest.short (ok.rest.cursor tlh))]
        exact AbstractHeap.Step.internal
      · cases stepped
  | write ptr offset value => exact write_refines ok stepped

/-! ## Runs -/

theorem blocks_start (env : Env) (secret : BitVec 64) (telemetry : Bool) :
    blocks (apiStart env secret telemetry) = emptyHeap := by
  funext ptr
  exact blocks_none rfl

/-- From every state of a run, whatever the calls answer and whatever clients
write is a run of the abstract heap. -/
theorem path_of_run {acts : List ApiAct} (ok : ApiOk (apiMode False) sys g)
    (fits : Along apiStep ApiFits sys acts) (ran : run apiStep sys acts = some reached) :
    Path AbstractHeap.Step (blocks sys) (trace apiStep apiEvent sys acts) (blocks reached) := by
  have refines : ∀ before act next, (∃ ghost, ApiOk (apiMode False) before ghost) →
      ApiFits before act → apiStep before act = some next →
        (∃ ghost, ApiOk (apiMode False) next ghost) ∧
          AbstractHeap.Step (blocks before) (apiEvent before act) (blocks next) := by
    intro before act next holds allowed stepped
    obtain ⟨ghost, beforeOk⟩ := holds
    constructor
    · exact api_step_ok beforeOk id allowed stepped
    · exact api_step_refines beforeOk id allowed stepped
  exact run_refines refines ⟨g, ok⟩ fits ran

/-- The allocator refines the abstract heap, with any answers of the operating
system. -/
theorem allocator_refines_heap {env : Env} {secret : BitVec 64} {telemetry : Bool}
    {acts : List ApiAct} {sys : ApiSys}
    (fits : Along apiStep ApiFits (apiStart env secret telemetry) acts)
    (ran : run apiStep (apiStart env secret telemetry) acts = some sys) :
    Path AbstractHeap.Step emptyHeap
      (trace apiStep apiEvent (apiStart env secret telemetry) acts) (blocks sys) := by
  rw [← blocks_start env secret telemetry]
  exact path_of_run (api_start_ok env secret telemetry False.elim) fits ran

/-- The client writes into a block that is then moved to a larger class. -/
def movingRun : List ApiAct := [.malloc 1 24, .write 4359979136 3 7, .realloc 1 4359979136 100]

theorem moving_run_refines :
    ∃ sys, run apiStep (apiStart generousEnv 7 true) movingRun = some sys ∧
      (blocks sys 4357881984).isSome ∧ blocks sys 4359979136 = none ∧
      Path AbstractHeap.Step emptyHeap
        (trace apiStep apiEvent (apiStart generousEnv 7 true) movingRun) (blocks sys) := by
  have fits : Along apiStep ApiFits (apiStart generousEnv 7 true) movingRun := by decide +kernel
  have facts : (run apiStep (apiStart generousEnv 7 true) movingRun).map (fun sys =>
      (sys.live 4357881984, sys.live 4359979136)) = some (some 100, none) := by decide +kernel
  obtain ⟨sys, ran, values⟩ := Option.map_eq_some_iff.mp facts
  rw [Prod.mk.injEq] at values
  have here : (blocks sys 4357881984).isSome := by
    rw [blocks_live (by simp [values.1])]
    rfl
  exact ⟨sys, ran, here, blocks_none values.2, allocator_refines_heap fits ran⟩

/-- In the rest of a run the bytes of an object stay as they are until the
client frees, reallocates or writes it, and no two objects share a byte. -/
theorem client_blocks_last {env : Env} {secret : BitVec 64} {telemetry : Bool}
    {acts more : List ApiAct} {sys final : ApiSys}
    (fits : Along apiStep ApiFits (apiStart env secret telemetry) (acts ++ more))
    (ran : run apiStep (apiStart env secret telemetry) acts = some sys)
    (ranMore : run apiStep sys more = some final) {ptr : Nat} {bytes : List UInt8}
    (held : blocks sys ptr = some bytes)
    (untouched : ∀ event ∈ trace apiStep apiEvent sys more, ¬event.Concerns ptr) :
    blocks final ptr = some bytes ∧ Separate (blocks final) := by
  obtain ⟨firstFits, laterFits⟩ := (along_append _ acts more).mp fits
  have reachable : ∃ g, ApiOk (apiMode False) sys g := api_run_ok False.elim firstFits ran
  obtain ⟨g, ok⟩ := reachable
  have later := path_of_run ok (laterFits sys ran) ranMore
  have first := path_of_run (api_start_ok env secret telemetry False.elim) firstFits ran
  rw [blocks_start] at first
  constructor
  · exact AbstractHeap.path_keeps later untouched held
  · exact AbstractHeap.path_separate later
      (AbstractHeap.path_separate first AbstractHeap.separate_empty)

/-- Another thread allocates, frees into the heap of the first and exits. -/
theorem block_lasts_past_other_thread :
    ∃ sys final, run apiStep (apiStart generousEnv 7 true)
        [.malloc 1 24, .malloc 1 24, .write 4359979136 3 7] = some sys ∧
      run apiStep sys [.free 2 4359979168, .exit 2, .gc 1] = some final ∧
      (blocks sys 4359979136).isSome ∧ blocks final 4359979136 = blocks sys 4359979136 := by
  have fits : Along apiStep ApiFits (apiStart generousEnv 7 true)
      ([.malloc 1 24, .malloc 1 24, .write 4359979136 3 7] ++
        [.free 2 4359979168, .exit 2, .gc 1]) := by
    decide +kernel
  have facts : (run apiStep (apiStart generousEnv 7 true)
      [.malloc 1 24, .malloc 1 24, .write 4359979136 3 7]).map (fun sys =>
        ((run apiStep sys [.free 2 4359979168, .exit 2, .gc 1]).isSome, sys.live 4359979136,
          decide (∀ event ∈ trace apiStep apiEvent sys [.free 2 4359979168, .exit 2, .gc 1],
            ¬event.Concerns 4359979136))) = some (true, some 24, true) := by decide +kernel
  obtain ⟨sys, ran, values⟩ := Option.map_eq_some_iff.mp facts
  simp only [Prod.mk.injEq, decide_eq_true_eq] at values
  obtain ⟨more, live, untouched⟩ := values
  obtain ⟨final, ranMore⟩ := Option.isSome_iff_exists.mp more
  have held := @blocks_live sys 4359979136 (by simp [live])
  have lasts := client_blocks_last fits ran ranMore held untouched
  exact ⟨sys, final, ran, ranMore, by simp [held], lasts.1.trans held.symm⟩

end Lzmalloc.HeapRefinement
