import Lzmalloc.ApiOperations
import Lzmalloc.ConcreteView
import Lzmalloc.StepSystem

/-!
# Runs of the public interface

Any number of threads call the allocator, exit, start again with an adopted
heap and collect garbage; every call is one step. Clients free and reallocate
live pointers only and write only into the memory they were given. Beside the
allocator a run records, for every live pointer, the size that was asked for
and what the object was allocated as. Reaping a heap and starting a thread are
also steps of their own, so every state in which a call of the allocator begins
to reap is a state of some run.
-/

namespace Lzmalloc.ApiRuns

open SizeClasses HeapState VirtualMemoryManager Engines ThreadHeap PublicApi StepSystem
open HeapInvariant InvariantFacts ClientView ObjectRanges HeapOperations DirectObjects
open ThreadLifecycle ApiOperations

set_option autoImplicit false

structure ApiSys where
  state : State
  live : Nat → Option Nat
  born : Nat → Origin

inductive ApiAct
  | malloc (thread size : Nat)
  | calloc (thread num size : Nat)
  | realloc (thread ptr size : Nat)
  | memalign (thread alignment size : Nat)
  | free (thread ptr : Nat)
  | exit (thread : Nat)
  | gc (thread : Nat)
  | attach (thread : Nat)
  | reap (tlh : Nat)
  | write (ptr offset : Nat) (value : UInt8)

def readOrigin (s : State) (ptr : Nat) : Origin :=
  match (s.vmm.header (chunkBase ptr)).chunkType with
  | .slab => .slab (s.slab (chunkBase ptr + lzCacheLineSize)).sizeClass
  | .span =>
      .span ((s.span (chunkBase ptr + lzCacheLineSize)).allocSizePages
        ((ptr - chunkBase ptr) / lzPageSize))
  | .direct => .direct (s.direct (chunkBase ptr)).size

def handOut (sys : ApiSys) (after : State) (ptr size : Nat) (direct : Prop) [Decidable direct] :
    ApiSys :=
  if ptr = 0 then { sys with state := after }
  else
    { state := after
      live := Function.update sys.live ptr (some size)
      born := Function.update sys.born ptr
        (if direct then .direct size else readOrigin after ptr) }

def takeBack (sys : ApiSys) (after : State) (ptr : Nat) : ApiSys :=
  { sys with state := after, live := Function.update sys.live ptr none }

def finishRealloc (sys : ApiSys) (after : State) (ptr size result : Nat) : ApiSys :=
  if ptr = 0 then handOut sys after result size (lzMaxSpanObjSize < size)
  else if size = 0 then takeBack sys after ptr
  else if result = 0 then { sys with state := after }
  else if result = ptr then
    { sys with state := after, live := Function.update sys.live ptr (some size) }
  else handOut (takeBack sys after ptr) after result size (lzMaxSpanObjSize < size)

def apiStep (sys : ApiSys) : ApiAct → Option ApiSys
  | .malloc thread size =>
      if size < 2 ^ 64 then
        (lzMalloc sys.state thread size).map fun result =>
          handOut sys result.2 result.1 size (lzMaxSpanObjSize < size)
      else none
  | .calloc thread num size =>
      if num < 2 ^ 64 ∧ size < 2 ^ 64 then
        (lzCalloc sys.state thread num size).map fun result =>
          handOut sys result.2 result.1 (num * size) (lzMaxSpanObjSize < num * size)
      else none
  | .realloc thread ptr size =>
      if size < 2 ^ 64 ∧ (ptr = 0 ∨ (sys.live ptr).isSome) then
        (lzRealloc sys.state thread ptr size).map fun result =>
          finishRealloc sys result.2 ptr size result.1
      else none
  | .memalign thread alignment size =>
      if alignment < 2 ^ 64 ∧ size < 2 ^ 64 then
        (lzMemalign sys.state thread alignment size).map fun result =>
          handOut sys result.2 result.1 size (memalignDirect alignment size)
      else none
  | .free thread ptr =>
      if ptr = 0 ∨ (sys.live ptr).isSome then
        (lzFree sys.state thread ptr).map fun after => takeBack sys after ptr
      else none
  | .exit thread => some { sys with state := threadExit sys.state thread }
  | .gc thread => some { sys with state := lzmallocGc sys.state thread }
  | .attach thread => (ensureTlsInit sys.state thread).map fun after => { sys with state := after }
  | .reap tlh =>
      if tlh ∈ sys.state.heaps then some { sys with state := lzTlhReap sys.state tlh } else none
  | .write ptr offset value =>
      if offset < max ((sys.live ptr).getD 0) (lzMallocUsableSize sys.state ptr) ∧
          (sys.live ptr).isSome then
        some { sys with
          state := { sys.state with mem := Function.update sys.state.mem (ptr + offset) value } }
      else none

def apiStart (env : Env) (secret : BitVec 64) (telemetry : Bool) : ApiSys where
  state := initial env secret telemetry
  live := fun _ => none
  born := fun _ => .none

/-- Whatever the call asks of the direct engine fits into the mapping. -/
def ApiFits (sys : ApiSys) : ApiAct → Prop
  | .malloc _ size => MallocFits size
  | .calloc _ num size => callocSize num size < 2 ^ 64 → MallocFits (callocSize num size)
  | .realloc _ ptr size =>
      ptr = 0 ∨ lzMallocUsableSize sys.state ptr ≠ 0 ∧ lzMallocUsableSize sys.state ptr < size →
        MallocFits size
  | .memalign _ alignment size => MemalignFits alignment size
  | _ => True

instance (sys : ApiSys) (act : ApiAct) : Decidable (ApiFits sys act) := by
  cases act <;> unfold ApiFits <;> infer_instance

/-! ## The invariant of runs -/

/-- Frees that do not resolve are ignored; with every leaf mapped there are none. -/
def apiMode (leavesMapped : Prop) : Mode := ⟨leavesMapped, True, leavesMapped⟩

structure ApiOk (mode : Mode) (sys : ApiSys) (g : Ghost) : Prop where
  rest : AtRest mode sys.state g
  live : ∀ ptr, (sys.live ptr).isSome ↔ g.node ptr = .live
  asked : ∀ ptr size, sys.live ptr = some size → size ≤ originLength (g.record ptr)
  born : ∀ ptr, (g.node ptr).InUse → sys.born ptr = g.record ptr

variable {mode : Mode} {sys reached : ApiSys} {g last middle : Ghost} {after : State}
  {ptr size : Nat} {origin : Origin}

theorem quiet_used (quiet : Quiet g last) (used : (last.node ptr).InUse) : (g.node ptr).InUse := by
  rcases in_use_cases used with there | there | there
  · rw [(quiet.live ptr).mp there]
    trivial
  · rw [(quiet.leaked ptr).mp there]
    trivial
  · exact RemoteFree.in_flight_used (quiet.flying ptr there)

theorem allocated_used {other : Nat} (allocated : Allocated g last ptr origin)
    (different : other ≠ ptr)
    (used : (last.node other).InUse) : (g.node other).InUse := by
  rcases in_use_cases used with there | there | there
  · rw [((allocated.live other).mp there).resolve_left different]
    trivial
  · rw [(allocated.leaked other).mp there]
    trivial
  · exact RemoteFree.in_flight_used (allocated.flying other there)

theorem api_ok_quiet (ok : ApiOk mode sys g) (rest : AtRest mode after last)
    (quiet : Quiet g last) :
    ApiOk mode { sys with state := after } last := by
  refine ⟨rest, ?_, ?_, ?_⟩
  · intro ptr
    rw [quiet.live ptr]
    exact ok.live ptr
  · rw [quiet.record]
    exact ok.asked
  · intro ptr used
    rw [quiet.record]
    exact ok.born ptr (quiet_used quiet used)

theorem api_ok_withdrawn (ok : ApiOk mode sys g) (rest : AtRest mode after last)
    (withdrawn : Withdrawn g last ptr) : ApiOk mode (takeBack sys after ptr) last := by
  refine ⟨rest, ?_, ?_, ?_⟩
  · intro other
    rw [withdrawn.live other, ← ok.live other]
    by_cases same : other = ptr
    · simp [takeBack, same]
    · simp [takeBack, same]
  · intro other size asked
    have different : other ≠ ptr := by
      rintro rfl
      simp [takeBack] at asked
    rw [withdrawn.record]
    exact ok.asked other size (by simpa [takeBack, different] using asked)
  · intro other used
    rw [withdrawn.record]
    exact ok.born other (withdrawn.used other used)

theorem read_origin_eq {s : State} (core : Core mode s g) (used : (g.node ptr).InUse)
    (chunk : ∀ size, g.record ptr ≠ .direct size) : readOrigin s ptr = g.record ptr := by
  have present : g.node ptr ≠ .none := by
    intro absent
    simp [absent, NodePlace.InUse] at used
  have holds := core.objects.scope ptr present
  rw [← core.recorded ptr used] at chunk ⊢
  unfold readOrigin
  cases kind : g.kind (chunkBase ptr) with
  | slab tlh classIdx =>
      simp only [(core.header.slab _ tlh classIdx kind).2.1, lzCacheLineSize,
        (core.slabs _ tlh classIdx kind).sizeClass, objectOrigin]
  | span tlh =>
      simp only [(core.header.span _ tlh kind).2, lzCacheLineSize, lzPageSize, objectOrigin]
  | direct header => exact absurd (by rw [kind]; rfl) (chunk (s.direct header).size)
  | unused => simp [kind, BlockKind.HoldsObjects] at holds
  | idle place => simp [kind, BlockKind.HoldsObjects] at holds
  | loose => simp [kind, BlockKind.HoldsObjects] at holds

/-- The bookkeeping of an allocation; `sys` may have given back an object in
the same step. -/
theorem api_ok_allocated {direct : Prop} [Decidable direct] (rest : AtRest mode after last)
    (nonnull : ptr ≠ 0) (length : size ≤ originLength origin)
    (isDirect : direct → origin = .direct size)
    (isChunk : ¬direct → ∀ size, origin ≠ .direct size)
    (recorded : last.record ptr = origin) (here : last.node ptr = .live)
    (live : ∀ other, other ≠ ptr → ((sys.live other).isSome ↔ last.node other = .live))
    (asked : ∀ other size, other ≠ ptr → sys.live other = some size →
      size ≤ originLength (last.record other))
    (born : ∀ other, other ≠ ptr → (last.node other).InUse → sys.born other = last.record other) :
    ApiOk mode (handOut sys after ptr size direct) last := by
  rw [handOut, if_neg nonnull]
  refine ⟨rest, ?_, ?_, ?_⟩
  · intro other
    by_cases same : other = ptr
    · simp [same, here]
    · simpa [same] using live other same
  · intro other length' known
    by_cases same : other = ptr
    · simp only [same, Function.update_self, Option.some.injEq] at known
      rw [same, recorded, ← known]
      exact length
    · exact asked other length' same (by simpa [same] using known)
  · intro other used
    by_cases same : other = ptr
    · simp only [same, Function.update_self]
      split
      · next direct =>
          rw [recorded, isDirect direct]
      · next chunk =>
          apply read_origin_eq rest.inv.toCore (by simp [here, NodePlace.InUse])
          rw [recorded]
          exact isChunk chunk
    · simpa [same] using born other same used

theorem api_ok_served {direct : Prop} [Decidable direct] (ok : ApiOk mode sys g)
    (served : Served mode g after ptr origin) (length : ptr ≠ 0 → size ≤ originLength origin)
    (isDirect : direct → origin = .direct size)
    (isChunk : ¬direct → ∀ size, origin ≠ .direct size) :
    ∃ last, ApiOk mode (handOut sys after ptr size direct) last := by
  obtain ⟨last, rest, result⟩ := served
  refine ⟨last, ?_⟩
  rcases result with ⟨null, quiet⟩ | ⟨nonnull, allocated⟩
  · rw [handOut, if_pos null]
    exact api_ok_quiet ok rest quiet
  · apply api_ok_allocated rest nonnull (length nonnull) isDirect isChunk
    · rw [allocated.record, Function.update_self]
    · exact (allocated.live ptr).mpr (Or.inl rfl)
    · intro other different
      rw [allocated.live other, ok.live other]
      simp [different]
    · intro other asked different known
      rw [allocated.record, Function.update_of_ne different]
      exact ok.asked other asked known
    · intro other different used
      rw [allocated.record, Function.update_of_ne different]
      exact ok.born other (allocated_used allocated different used)

/-! ## Steps -/

theorem malloc_origin_direct (large : lzMaxSpanObjSize < size) :
    mallocOrigin size = .direct size := by
  have notMedium : ¬size ≤ lzMaxSpanObjSize := Nat.not_le.mpr large
  have notSmall : ¬size ≤ lzMaxSlabObjSize := by
    simp only [lzMaxSpanObjSize, lzMaxSlabObjSize] at large ⊢
    omega
  rw [mallocOrigin, if_neg notSmall, if_neg notMedium]

theorem malloc_origin_chunk (small : ¬lzMaxSpanObjSize < size) (other : Nat) :
    mallocOrigin size ≠ .direct other := by
  unfold mallocOrigin
  split
  · simp
  · rw [if_pos (Nat.not_lt.mp small)]
    simp

theorem memalign_origin_direct {alignment : Nat} (direct : memalignDirect alignment size) :
    memalignOrigin alignment size = .direct size := by
  rw [memalignOrigin, if_neg direct.1, if_neg direct.2]

theorem memalign_origin_chunk {alignment : Nat} (chunk : ¬memalignDirect alignment size)
    (other : Nat) : memalignOrigin alignment size ≠ .direct other := by
  unfold memalignOrigin
  split
  · next slab =>
      apply malloc_origin_chunk
      exact Nat.not_lt.mpr (promoted_bound slab.1 slab.2)
  · next notSlab =>
      split
      · simp
      · next notSpan => exact absurd ⟨notSlab, notSpan⟩ chunk

theorem api_malloc_ok (ok : ApiOk mode sys g)
    {thread : Nat} (fits : ApiFits sys (.malloc thread size))
    (stepped : apiStep sys (.malloc thread size) = some reached) :
    ∃ last, ApiOk mode reached last := by
  simp only [apiStep] at stepped
  split at stepped
  · next bound =>
      obtain ⟨⟨ptr, after⟩, called, rfl⟩ := Option.map_eq_some_iff.mp stepped
      exact api_ok_served ok (served_malloc ok.rest fits called) (fun _ => malloc_length bound)
        malloc_origin_direct malloc_origin_chunk
  · cases stepped

theorem api_calloc_ok (ok : ApiOk mode sys g) {thread num : Nat}
    (fits : ApiFits sys (.calloc thread num size))
    (stepped : apiStep sys (.calloc thread num size) = some reached) :
    ∃ last, ApiOk mode reached last := by
  simp only [apiStep] at stepped
  split at stepped
  · obtain ⟨⟨ptr, after⟩, called, rfl⟩ := Option.map_eq_some_iff.mp stepped
    have served := served_calloc ok.rest fits called
    by_cases none : num = 0 ∨ size = 0
    · have product : num * size = 0 := by rcases none with rfl | rfl <;> simp
      rw [callocSize, if_pos none] at served
      simp only [product]
      apply api_ok_served ok served (fun _ => Nat.zero_le _)
      · intro large
        simp at large
      · exact fun _ => malloc_origin_chunk (by decide)
    · rw [callocSize, if_neg none] at served
      apply api_ok_served ok served _ malloc_origin_direct malloc_origin_chunk
      intro nonnull
      apply malloc_length
      -- A product that does not fit in a word makes the call fail.
      by_contra overflow
      have wide : (2 ^ 64 - 1) / num < size := by
        rw [Nat.div_lt_iff_lt_mul (by omega), Nat.mul_comm]
        omega
      simp only [lzCalloc, if_neg none, if_pos wide, Option.some.injEq, Prod.mk.injEq] at called
      exact nonnull called.1.symm
  · cases stepped

theorem api_memalign_ok (ok : ApiOk mode sys g) {thread alignment : Nat}
    (fits : ApiFits sys (.memalign thread alignment size))
    (stepped : apiStep sys (.memalign thread alignment size) = some reached) :
    ∃ last, ApiOk mode reached last := by
  simp only [apiStep] at stepped
  split at stepped
  · next bound =>
      obtain ⟨⟨ptr, after⟩, called, rfl⟩ := Option.map_eq_some_iff.mp stepped
      apply api_ok_served ok (served_memalign ok.rest bound.1 fits called) _ memalign_origin_direct
        memalign_origin_chunk
      intro nonnull
      apply memalign_length _ bound.2
      by_contra zero
      have invalid : alignment = 0 ∨ ¬isPowerOfTwo alignment := Or.inl (by omega)
      simp only [lzMemalign, if_pos invalid, Option.some.injEq, Prod.mk.injEq] at called
      exact nonnull called.1.symm
  · cases stepped

theorem live_nonnull (ok : ApiOk mode sys g) : sys.live 0 = none := by
  by_contra known
  have live := (ok.live 0).mp (Option.isSome_iff_ne_none.mpr known)
  have bound := core_node_bound ok.rest.inv.toCore (by simp [live] : g.node 0 ≠ .none)
  omega

theorem take_back_null (ok : ApiOk mode sys g) : takeBack sys sys.state 0 = sys := by
  rw [takeBack, ← live_nonnull ok, Function.update_eq_self]

/-- `lz_free` is called on null, where it does nothing, or on a live object. -/
theorem api_free_cases {thread : Nat}
    (stepped : apiStep sys (.free thread ptr) = some reached) :
    (ptr = 0 ∧ reached = takeBack sys sys.state 0) ∨
      (ptr ≠ 0 ∧ (sys.live ptr).isSome ∧
        ∃ after, lzFree sys.state thread ptr = some after ∧ reached = takeBack sys after ptr) := by
  simp only [apiStep] at stepped
  split at stepped
  · next allowed =>
      obtain ⟨after, called, rfl⟩ := Option.map_eq_some_iff.mp stepped
      by_cases null : ptr = 0
      · simp only [lzFree, if_pos null, Option.some.injEq] at called
        rw [called, null]
        exact Or.inl ⟨rfl, rfl⟩
      · exact Or.inr ⟨null, allowed.resolve_left null, after, called, rfl⟩
  · cases stepped

theorem api_free_ok (ok : ApiOk mode sys g) {thread : Nat}
    (lost : mode.noLeaks → mode.leavesMapped)
    (stepped : apiStep sys (.free thread ptr) = some reached) :
    ∃ last, ApiOk mode reached last := by
  rcases api_free_cases stepped with ⟨-, rfl⟩ | ⟨-, known, after, called, rfl⟩
  · rw [take_back_null ok]
    exact ⟨g, ok⟩
  · obtain ⟨last, rest, withdrawn⟩ := withdrawn_free ok.rest ((ok.live ptr).mp known) lost called
    exact ⟨last, api_ok_withdrawn ok rest withdrawn⟩

theorem api_realloc_ok (ok : ApiOk mode sys g) {thread : Nat}
    (lost : mode.noLeaks → mode.leavesMapped) (fits : ApiFits sys (.realloc thread ptr size))
    (stepped : apiStep sys (.realloc thread ptr size) = some reached) :
    ∃ last, ApiOk mode reached last := by
  simp only [apiStep] at stepped
  split at stepped
  · next allowed =>
      obtain ⟨bound, known⟩ := allowed
      obtain ⟨⟨result, after⟩, called, rfl⟩ := Option.map_eq_some_iff.mp stepped
      simp only [finishRealloc]
      by_cases null : ptr = 0
      · rw [if_pos null]
        rw [lzRealloc, if_pos null] at called
        exact api_ok_served ok (served_malloc ok.rest (fits (Or.inl null)) called)
          (fun _ => malloc_length bound) malloc_origin_direct malloc_origin_chunk
      rw [if_neg null]
      have live := (ok.live ptr).mp (known.resolve_left null)
      by_cases nothing : size = 0
      · rw [if_pos nothing]
        simp only [lzRealloc, if_neg null, if_pos nothing] at called
        obtain ⟨freed, released, same⟩ := Option.map_eq_some_iff.mp called
        simp only [Prod.mk.injEq] at same
        obtain ⟨_, rfl⟩ := same
        obtain ⟨last, rest, withdrawn⟩ := withdrawn_free ok.rest live lost released
        exact ⟨last, api_ok_withdrawn ok rest withdrawn⟩
      rw [if_neg nothing]
      rcases realloc_cases ok.rest live lost nothing bound
          (fun found grows => fits (Or.inr ⟨found, grows⟩)) called with
        ⟨failed, last, rest, quiet⟩ | ⟨stayed, rfl, room⟩ | ⟨moved, middle, last, rest, fresh, gone⟩
      · rw [if_pos failed]
        exact ⟨last, api_ok_quiet ok rest quiet⟩
      · rw [if_neg (by rw [stayed]; exact null), if_pos stayed]
        refine ⟨g, ok.rest, ?_, ?_, ok.born⟩
        · intro other
          by_cases same : other = ptr
          · simp [same, live]
          · simpa [same] using ok.live other
        · intro other asked there
          by_cases same : other = ptr
          · simp only [same, Function.update_self, Option.some.injEq] at there
            have found : resolve sys.state ptr ≠ 0 := by
              intro missing
              rw [usable_size_zero missing] at room
              omega
            have present : g.node ptr ≠ .none := by simp [live]
            rw [usable_size_eq ok.rest.inv.toCore present found, objectLength,
              ok.rest.inv.recorded ptr (by simp [live, NodePlace.InUse])] at room
            rw [same, ← there]
            exact room
          · exact ok.asked other asked (by simpa [same] using there)
      · have apart : result ≠ ptr := by
          rintro rfl
          exact fresh.fresh.1 live
        rw [if_neg moved, if_neg apart]
        refine ⟨last, api_ok_allocated rest moved (malloc_length bound) malloc_origin_direct
          malloc_origin_chunk ?_ ?_ ?_ ?_ ?_⟩
        · rw [gone.record, fresh.record, Function.update_self]
        · exact (gone.live result).mpr ⟨apart, (fresh.live result).mpr (Or.inl rfl)⟩
        · intro other different
          rw [gone.live other, fresh.live other, ← ok.live other]
          by_cases same : other = ptr
          · simp [takeBack, same]
          · simp [takeBack, same, different]
        · intro other asked different there
          have same : other ≠ ptr := by
            rintro rfl
            simp [takeBack] at there
          rw [gone.record, fresh.record, Function.update_of_ne different]
          exact ok.asked other asked (by simpa [takeBack, same] using there)
        · intro other different used
          rw [gone.record, fresh.record, Function.update_of_ne different]
          exact ok.born other (allocated_used fresh different (gone.used other used))
  · cases stepped

theorem client_range (ok : ApiOk mode sys g) (known : sys.live ptr = some size) :
    max size (lzMallocUsableSize sys.state ptr) ≤ originLength (g.record ptr) := by
  have live := (ok.live ptr).mp (by simp [known])
  have present : g.node ptr ≠ .none := by simp [live]
  apply max_le (ok.asked ptr size known)
  by_cases missing : resolve sys.state ptr = 0
  · rw [usable_size_zero missing]
    exact Nat.zero_le _
  · rw [usable_size_eq ok.rest.inv.toCore present missing, objectLength,
      ok.rest.inv.recorded ptr (by simp [live, NodePlace.InUse])]

theorem api_write_ok (ok : ApiOk mode sys g) {offset : Nat} {value : UInt8}
    (stepped : apiStep sys (.write ptr offset value) = some reached) :
    ∃ last, ApiOk mode reached last := by
  simp only [apiStep] at stepped
  split at stepped
  · next allowed =>
      obtain ⟨inside, known⟩ := allowed
      obtain rfl := Option.some.inj stepped
      have live := (ok.live ptr).mp known
      obtain ⟨asked, askedEq⟩ := Option.isSome_iff_exists.mp known
      have room := client_range ok askedEq
      rw [askedEq, Option.getD_some] at inside
      refine ⟨g, at_rest_write ok.rest live ?_, ok.live, ok.asked, ok.born⟩
      intro byte outside
      exact Function.update_of_ne (by omega) _ _
  · cases stepped

theorem api_step_ok (ok : ApiOk mode sys g) {act : ApiAct}
    (lost : mode.noLeaks → mode.leavesMapped) (fits : ApiFits sys act)
    (stepped : apiStep sys act = some reached) : ∃ last, ApiOk mode reached last := by
  cases act with
  | malloc thread size => exact api_malloc_ok ok fits stepped
  | calloc thread num size => exact api_calloc_ok ok fits stepped
  | realloc thread ptr size => exact api_realloc_ok ok lost fits stepped
  | memalign thread alignment size => exact api_memalign_ok ok fits stepped
  | free thread ptr => exact api_free_ok ok lost stepped
  | exit thread =>
      obtain rfl := Option.some.inj stepped
      obtain ⟨last, rest, quiet⟩ := at_rest_exit ok.rest thread
      exact ⟨last, api_ok_quiet ok rest quiet⟩
  | gc thread =>
      obtain rfl := Option.some.inj stepped
      obtain ⟨last, rest, quiet⟩ := at_rest_housekeeping ok.rest
        (housekeeping_of_sweeping (sweeping_gc ok.rest.inv ok.rest.cursor thread))
      exact ⟨last, api_ok_quiet ok rest quiet⟩
  | attach thread =>
      obtain ⟨after, attached, rfl⟩ := Option.map_eq_some_iff.mp stepped
      exact ⟨g, api_ok_quiet ok (at_rest_attach ok.rest attached).1 (quiet_refl g)⟩
  | reap tlh =>
      simp only [apiStep] at stepped
      split at stepped
      · obtain rfl := Option.some.inj stepped
        obtain ⟨last, rest, quiet⟩ := at_rest_housekeeping ok.rest
          (housekeeping_of_sweeping (sweeping_reap ok.rest.inv ok.rest.cursor tlh))
        exact ⟨last, api_ok_quiet ok rest quiet⟩
      · cases stepped
  | write ptr offset value => exact api_write_ok ok stepped

theorem api_start_ok (env : Env) (secret : BitVec 64) (telemetry : Bool)
    (leaves : mode.leavesMapped → ∀ call, env.leafMmap call = true) :
    ApiOk mode (apiStart env secret telemetry) emptyGhost := by
  have inv := inv_initial env secret telemetry leaves
  refine ⟨⟨inv, ⟨?_, ?_, fun _ => False, 0, ?_, ?_⟩, ?_, ?_, ?_, ?_⟩, ?_, ?_, ?_⟩
  · intro thread attached
    exact absurd rfl attached
  · intro left right attached
    exact absurd rfl attached
  · exact PointerChain.enumerates_empty fun _ => id
  · exact fun _ => False.elim
  · exact fun _ => rfl
  · simp [emptyGhost]
  · intro header member
    cases member
  · intro header member
    cases member
  · simp [apiStart, emptyGhost]
  · simp [apiStart]
  · intro ptr used
    exact used.elim

/-- Every state of a run whose direct requests fit. -/
theorem api_run_ok {leavesMapped : Prop} {env : Env} {secret : BitVec 64} {telemetry : Bool}
    {acts : List ApiAct} (leaves : leavesMapped → ∀ call, env.leafMmap call = true)
    (fits : Along apiStep ApiFits (apiStart env secret telemetry) acts)
    (ran : run apiStep (apiStart env secret telemetry) acts = some sys) :
    ∃ g, ApiOk (apiMode leavesMapped) sys g := by
  have preserved : ∀ state act reached, (∃ g, ApiOk (apiMode leavesMapped) state g) →
      ApiFits state act → apiStep state act = some reached →
        ∃ g, ApiOk (apiMode leavesMapped) reached g := by
    rintro state act reached ⟨g, ok⟩ allowed stepped
    exact api_step_ok ok id allowed stepped
  exact run_invariant preserved ⟨emptyGhost, api_start_ok env secret telemetry leaves⟩ fits ran

end Lzmalloc.ApiRuns
