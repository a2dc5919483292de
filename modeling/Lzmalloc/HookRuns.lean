import Lzmalloc.PosixHooks
import Lzmalloc.PayloadContracts
import Lzmalloc.CallParts

/-!
# Runs of the interposed interface

`posix_hooks.c` routes every call: until `g_lz_ready` is set, requests are served
from the static array, afterwards by the engine. Blocks of the array are never
given back and can be told by their address. The array and the mappings of the
engine are two parts of one address space; the operating system does not map
over the array, so a call after which it would have does not happen.
-/

namespace Lzmalloc.HookRuns

open SizeClasses HeapState ByteMemory PublicApi StepSystem HeapOperations HeapInvariant
open InvariantFacts ClientView ObjectRanges ApiOperations ApiRuns ClientBytes BootstrapAllocator
open PosixHooks PayloadContracts
open CallParts (hand_out_state finish_realloc_state)
open ObjectContracts (malloc_fits_of_small)
open SlabContracts (generousEnv)

set_option autoImplicit false

/-- The engine, `g_lz_ready`, and the contents of the array with `g_base_offset`. -/
structure Hooks where
  engine : State
  ready : Bool
  base : Memory
  offset : Nat

section Hooks

variable (heap : BaseHeap)

def OutsideArray (regions : List (Nat × Nat)) : Prop :=
  ∀ region ∈ regions, region.1 + region.2 ≤ heap.address ∨
    heap.address + lzBaseHeapSize ≤ region.1

instance (regions : List (Nat × Nat)) : Decidable (OutsideArray heap regions) :=
  inferInstanceAs (Decidable (∀ region ∈ regions, _))

/-! ## Memory -/

def byteAt (hooks : Hooks) (address : Nat) : UInt8 :=
  if isBasePtr heap address then hooks.base address else hooks.engine.mem address

/-- Stores `value index` at `target + index` for all `index < length`. -/
def overwrite (hooks : Hooks) (target length : Nat) (value : Nat → UInt8) : Hooks :=
  { hooks with
    base := fun address =>
      if isBasePtr heap address ∧ target ≤ address ∧ address < target + length then
        value (address - target)
      else hooks.base address
    engine := { hooks.engine with
      mem := fun address =>
        if ¬isBasePtr heap address ∧ target ≤ address ∧ address < target + length then
          value (address - target)
        else hooks.engine.mem address } }

def memcpy (hooks : Hooks) (target source length : Nat) : Hooks :=
  overwrite heap hooks target length fun index => byteAt heap hooks (source + index)

def memset (hooks : Hooks) (target length : Nat) (value : UInt8) : Hooks :=
  overwrite heap hooks target length fun _ => value

/-! ## Routing -/

/-- The header store of `lz_base_malloc_aligned`; `none` is the end of the process. -/
def baseGrant (hooks : Hooks) (size : Nat) : BaseResult → Option (Nat × Hooks)
  | .trap | .fault => none
  | .returned ptr next =>
      some (ptr,
        { hooks with
          offset := next
          base := store hooks.base (ptr - baseHeaderSize) 8 (baseExactSize size) })

def baseReserve (hooks : Hooks) (alignment size : Nat) : Option (Nat × Hooks) :=
  baseGrant hooks size (lzBaseMallocAligned heap hooks.offset alignment size)

def engineCall {Result : Type} (hooks : Hooks) (answer : Option (Result × State)) :
    Option (Result × Hooks) :=
  answer.bind fun result =>
    if OutsideArray heap result.2.regions then some (result.1, { hooks with engine := result.2 })
    else none

def lzMallocRouted (hooks : Hooks) (thread size : Nat) : Option (Nat × Hooks) :=
  if hooks.ready then engineCall heap hooks (lzMalloc hooks.engine thread size)
  else baseReserve heap hooks lzAbiAlignment size

def lzFreeRouted (hooks : Hooks) (thread ptr : Nat) : Option Hooks :=
  if ptr = 0 then some hooks
  else if isBasePtr heap ptr then some hooks
  else if hooks.ready then
    (engineCall heap hooks ((lzFree hooks.engine thread ptr).map fun s => ((), s))).map Prod.snd
  else some hooks

/-! ## The hooks -/

def malloc (hooks : Hooks) (thread size : Nat) : Option (Nat × Hooks) :=
  lzMallocRouted heap hooks thread size

def free (hooks : Hooks) (thread ptr : Nat) : Option Hooks := lzFreeRouted heap hooks thread ptr

def calloc (hooks : Hooks) (thread num size : Nat) : Option (Nat × Hooks) :=
  if num * size ≥ 2 ^ 64 then some (0, hooks)
  else if hooks.ready then engineCall heap hooks (lzCalloc hooks.engine thread num size)
  else
    (baseReserve heap hooks lzAbiAlignment (num * size)).map fun reserved =>
      (reserved.1, memset heap reserved.2 reserved.1 (num * size) 0)

def realloc (hooks : Hooks) (thread ptr newSize : Nat) : Option (Nat × Hooks) :=
  if ptr = 0 then lzMallocRouted heap hooks thread newSize
  else if newSize = 0 then (lzFreeRouted heap hooks thread ptr).map fun hooks => (0, hooks)
  else if isBasePtr heap ptr then
    let oldSize := load hooks.base (ptr - baseHeaderSize) 8
    if newSize ≤ oldSize then some (ptr, hooks)
    else
      (lzMallocRouted heap hooks thread newSize).map fun allocated =>
        if allocated.1 = 0 then (0, allocated.2)
        else (allocated.1, memcpy heap allocated.2 allocated.1 ptr oldSize)
  else if ¬hooks.ready then some (0, hooks)
  else engineCall heap hooks (lzRealloc hooks.engine thread ptr newSize)

def memalign (hooks : Hooks) (thread alignment size : Nat) : Option (Nat × Hooks) :=
  if hooks.ready then engineCall heap hooks (lzMemalign hooks.engine thread alignment size)
  else baseReserve heap hooks alignment size

/-- The return code and what is stored through `memptr`. Before the engine is
ready the store is not guarded. -/
def posixMemalign (hooks : Hooks) (thread memptr alignment size : Nat) :
    Option ((Nat × Option Nat) × Hooks) :=
  if hooks.ready then
    engineCall heap hooks ((lzPosixMemalign hooks.engine thread memptr alignment size).map
      fun result => ((result.1, result.2.1), result.2.2))
  else
    (baseReserve heap hooks alignment size).bind fun reserved =>
      if memptr = 0 then none else some ((0, some reserved.1), reserved.2)

def alignedAlloc (hooks : Hooks) (thread alignment size : Nat) : Option (Nat × Hooks) :=
  if hooks.ready then engineCall heap hooks (lzAlignedAlloc hooks.engine thread alignment size)
  else baseReserve heap hooks alignment size

def valloc (hooks : Hooks) (thread : Nat) (sysconf : Int) (size : Nat) : Option (Nat × Hooks) :=
  if hooks.ready then engineCall heap hooks (lzValloc hooks.engine thread sysconf size)
  else baseReserve heap hooks (reportedPageSize sysconf) size

-- The size is not rounded up to pages, as `lz_pvalloc` does.
def pvalloc (hooks : Hooks) (thread : Nat) (sysconf : Int) (size : Nat) : Option (Nat × Hooks) :=
  valloc heap hooks thread sysconf size

/-- `exact_size` of a bootstrap block, the usable size of an engine object. -/
def usableSize (hooks : Hooks) (ptr : Nat) : Nat :=
  if isBasePtr heap ptr then load hooks.base (ptr - baseHeaderSize) 8
  else lzMallocUsableSize hooks.engine ptr

end Hooks

/-! ## Steps -/

/-- Beside the hooks a run records the live objects of the engine and the blocks
that the array has granted. A block of the array stays granted for good. -/
structure HookSys where
  hooks : Hooks
  live : Nat → Option Nat
  born : Nat → Origin
  granted : Nat → Option Nat

namespace HookSys

def api (sys : HookSys) : ApiSys := ⟨sys.hooks.engine, sys.live, sys.born⟩

def Holds (sys : HookSys) (ptr : Nat) : Prop := (sys.live ptr).isSome ∨ (sys.granted ptr).isSome

instance (sys : HookSys) (ptr : Nat) : Decidable (sys.Holds ptr) :=
  inferInstanceAs (Decidable (_ ∨ _))

def settle (sys : HookSys) (after : Hooks) (api : ApiSys) : HookSys :=
  { sys with hooks := after, live := api.live, born := api.born }

def receive (sys : HookSys) (after : Hooks) (ptr size : Nat) (direct : Prop) [Decidable direct] :
    HookSys :=
  if ptr = 0 then { sys with hooks := after }
  else if sys.hooks.ready then sys.settle after (handOut sys.api after.engine ptr size direct)
  else
    { sys with
      hooks := after
      granted := Function.update sys.granted ptr (some (baseExactSize size)) }

end HookSys

inductive HookAct
  | bootstrap
  | malloc (thread size : Nat)
  | calloc (thread num size : Nat)
  | realloc (thread ptr size : Nat)
  | memalign (thread alignment size : Nat)
  | posixMemalign (thread memptr alignment size : Nat)
  | alignedAlloc (thread alignment size : Nat)
  | valloc (thread : Nat) (sysconf : Int) (size : Nat)
  | pvalloc (thread : Nat) (sysconf : Int) (size : Nat)
  | free (thread ptr : Nat)
  | library (act : ApiAct)
  | write (ptr offset : Nat) (value : UInt8)

section Steps

variable (heap : BaseHeap)

def finishHook (sys : HookSys) (after : Hooks) (ptr size result : Nat) : HookSys :=
  if ptr = 0 then sys.receive after result size (lzMaxSpanObjSize < size)
  else if isBasePtr heap ptr then
    if result = ptr then { sys with hooks := after }
    else sys.receive after result size (lzMaxSpanObjSize < size)
  else if ¬sys.hooks.ready then { sys with hooks := after }
  else sys.settle after (finishRealloc sys.api after.engine ptr size result)

def alignedStep (sys : HookSys) (alignment size : Nat) (answer : Option (Nat × Hooks)) :
    Option HookSys :=
  if alignment < 2 ^ 64 ∧ size < 2 ^ 64 then
    answer.map fun result => sys.receive result.2 result.1 size (memalignDirect alignment size)
  else none

/-- The pointer that `posix_memalign` stores, null if it stores none. -/
def storedPointer (answer : Option ((Nat × Option Nat) × Hooks)) : Option (Nat × Hooks) :=
  answer.map fun result => (result.1.2.getD 0, result.2)

/-- Calls of the hooks, direct calls of the library (with thread exits, garbage
collections and client writes into engine objects), the constructor that sets
`g_lz_ready`, and client writes into bootstrap blocks. -/
def hookStep (sys : HookSys) : HookAct → Option HookSys
  | .bootstrap => some { sys with hooks := { sys.hooks with ready := true } }
  | .malloc thread size =>
      if size < 2 ^ 64 then
        (malloc heap sys.hooks thread size).map fun result =>
          sys.receive result.2 result.1 size (lzMaxSpanObjSize < size)
      else none
  | .calloc thread num size =>
      if num < 2 ^ 64 ∧ size < 2 ^ 64 then
        (calloc heap sys.hooks thread num size).map fun result =>
          sys.receive result.2 result.1 (num * size) (lzMaxSpanObjSize < num * size)
      else none
  | .realloc thread ptr size =>
      if size < 2 ^ 64 ∧ (ptr = 0 ∨ sys.Holds ptr) then
        (realloc heap sys.hooks thread ptr size).map fun result =>
          finishHook heap sys result.2 ptr size result.1
      else none
  | .memalign thread alignment size =>
      alignedStep sys alignment size (memalign heap sys.hooks thread alignment size)
  | .posixMemalign thread memptr alignment size =>
      alignedStep sys alignment size
        (storedPointer (posixMemalign heap sys.hooks thread memptr alignment size))
  | .alignedAlloc thread alignment size =>
      alignedStep sys alignment size (alignedAlloc heap sys.hooks thread alignment size)
  | .valloc thread sysconf size =>
      alignedStep sys (reportedPageSize sysconf) size (valloc heap sys.hooks thread sysconf size)
  | .pvalloc thread sysconf size =>
      alignedStep sys (reportedPageSize sysconf) size (pvalloc heap sys.hooks thread sysconf size)
  | .free thread ptr =>
      if ptr = 0 ∨ sys.Holds ptr then
        (free heap sys.hooks thread ptr).map fun after =>
          if ptr ≠ 0 ∧ ¬isBasePtr heap ptr ∧ sys.hooks.ready then
            sys.settle after (takeBack sys.api after.engine ptr)
          else { sys with hooks := after }
      else none
  | .library act =>
      (engineCall heap sys.hooks ((apiStep sys.api act).map fun api => (api, api.state))).map
        fun result => sys.settle result.2 result.1
  | .write ptr offset value =>
      if offset < (sys.granted ptr).getD 0 then
        some { sys with
          hooks := { sys.hooks with base := Function.update sys.hooks.base (ptr + offset) value } }
      else none

def hookStart (env : Env) (secret : BitVec 64) (telemetry : Bool) (base : Memory) : HookSys where
  hooks := ⟨initial env secret telemetry, false, base, 0⟩
  live := fun _ => none
  born := fun _ => .none
  granted := fun _ => none

/-- A request of the array does not wrap around the address space. -/
def BaseFits (offset alignment size : Nat) : Prop :=
  PayloadExact heap offset alignment ∧ ¬WrapsIntoHeap heap offset alignment size

instance (offset alignment size : Nat) : Decidable (BaseFits heap offset alignment size) :=
  inferInstanceAs (Decidable (_ ∧ _))

def AlignedFits (sys : HookSys) (alignment size : Nat) : Prop :=
  if sys.hooks.ready then MemalignFits alignment size
  else BaseFits heap sys.hooks.offset alignment size

instance (sys : HookSys) (alignment size : Nat) :
    Decidable (AlignedFits heap sys alignment size) := by
  unfold AlignedFits
  infer_instance

/-- Requests fit, in the array and in the direct engine. -/
def HookFits (sys : HookSys) : HookAct → Prop
  | .malloc _ size =>
      if sys.hooks.ready then MallocFits size
      else BaseFits heap sys.hooks.offset lzAbiAlignment size
  | .calloc _ num size =>
      if sys.hooks.ready then callocSize num size < 2 ^ 64 → MallocFits (callocSize num size)
      else num * size < 2 ^ 64 → BaseFits heap sys.hooks.offset lzAbiAlignment (num * size)
  | .realloc _ _ size =>
      if sys.hooks.ready then MallocFits size
      else BaseFits heap sys.hooks.offset lzAbiAlignment size
  | .memalign _ alignment size => AlignedFits heap sys alignment size
  | .posixMemalign _ _ alignment size => AlignedFits heap sys alignment size
  | .alignedAlloc _ alignment size => AlignedFits heap sys alignment size
  | .valloc _ sysconf size => AlignedFits heap sys (reportedPageSize sysconf) size
  | .pvalloc _ sysconf size => AlignedFits heap sys (reportedPageSize sysconf) size
  | .library act => ApiFits sys.api act
  | _ => True

instance (sys : HookSys) (act : HookAct) : Decidable (HookFits heap sys act) := by
  cases act <;> unfold HookFits <;> infer_instance

end Steps

/-! ## Memory of the array and of the engine -/

variable {heap : BaseHeap} {hooks after : Hooks} {sys reached : HookSys} {g last : Ghost}
  {thread ptr other size result address : Nat}

theorem byte_at_overwrite (hooks : Hooks) (target length : Nat) (value : Nat → UInt8)
    (address : Nat) :
    byteAt heap (overwrite heap hooks target length value) address =
      if target ≤ address ∧ address < target + length then value (address - target)
      else byteAt heap hooks address := by
  unfold byteAt overwrite
  cases array : isBasePtr heap address with
  | true => simp [array]
  | false => simp [array]

theorem byte_at_memcpy (hooks : Hooks) (target source length : Nat) {index : Nat}
    (inside : index < length) :
    byteAt heap (memcpy heap hooks target source length) (target + index) =
      byteAt heap hooks (source + index) := by
  rw [memcpy, byte_at_overwrite, if_pos (by omega)]
  simp only [Nat.add_sub_cancel_left]

theorem byte_at_memcpy_outside (hooks : Hooks) {target source length : Nat}
    (outside : ¬(target ≤ address ∧ address < target + length)) :
    byteAt heap (memcpy heap hooks target source length) address = byteAt heap hooks address := by
  rw [memcpy, byte_at_overwrite, if_neg outside]

theorem is_base_ptr_iff : isBasePtr heap address = true ↔
    heap.address ≤ address ∧ address < heap.address + lzBaseHeapSize := by
  rw [isBasePtr, Bool.and_eq_true, decide_eq_true_eq, decide_eq_true_eq]

theorem mapped_not_base {regions : List (Nat × Nat)} (outside : OutsideArray heap regions)
    (mapped : Mapped regions address) : isBasePtr heap address = false := by
  obtain ⟨region, member, lower, upper⟩ := mapped
  have apart := outside region member
  by_contra array
  rw [Bool.not_eq_false, is_base_ptr_iff] at array
  omega

/-! ## Blocks of the array -/

structure BaseOk (heap : BaseHeap) (base : Memory) (offset : Nat) (granted : Nat → Option Nat) :
    Prop where
  inside : offset ≤ lzBaseHeapSize
  placed : ∀ ptr size, granted ptr = some size →
    1 ≤ size ∧ heap.address + 16 ≤ ptr ∧ ptr + size ≤ heap.address + offset
  header : ∀ ptr size, granted ptr = some size → load base (ptr - 16) 8 = size
  apart : ∀ ptr size other length, granted ptr = some size → granted other = some length →
    ptr < other → ptr + size + 16 ≤ other

variable {base later : Memory} {offset alignment : Nat} {granted : Nat → Option Nat}

theorem base_ok_reserve (ok : BaseOk heap base offset granted) (sizeWord : size < 2 ^ 64)
    (fits : BaseFits heap offset alignment size) {next : Nat}
    (returned : lzBaseMallocAligned heap offset alignment size = .returned ptr next) :
    BaseOk heap (store base (ptr - 16) 8 (baseExactSize size)) next
      (Function.update granted ptr (some (baseExactSize size))) := by
  obtain ⟨behind, covered, inside⟩ :=
    base_malloc_block fits.1 sizeWord ok.inside fits.2 returned
  have exact : 1 ≤ baseExactSize size ∧ baseExactSize size < 2 ^ 64 := by
    unfold baseExactSize
    split
    · norm_num
    · omega
  constructor
  · exact inside
  · intro other length known
    by_cases same : other = ptr
    · rw [same, Function.update_self, Option.some.injEq] at known
      rw [same]
      omega
    · rw [Function.update_of_ne same] at known
      have placed := ok.placed other length known
      omega
  · intro other length known
    by_cases same : other = ptr
    · rw [same, Function.update_self, Option.some.injEq] at known
      rw [same, load_store, known, Nat.mod_eq_of_lt (by omega)]
    · rw [Function.update_of_ne same] at known
      have placed := ok.placed other length known
      rw [← ok.header other length known]
      apply load_congr
      intro byte lower upper
      exact store_outside base (by omega)
  · intro left leftSize right rightSize leftKnown rightKnown before
    by_cases leftNew : left = ptr
    · have rightOld : right ≠ ptr := by omega
      rw [Function.update_of_ne rightOld] at rightKnown
      have placed := ok.placed right rightSize rightKnown
      omega
    rw [Function.update_of_ne leftNew] at leftKnown
    have placed := ok.placed left leftSize leftKnown
    by_cases rightNew : right = ptr
    · omega
    · rw [Function.update_of_ne rightNew] at rightKnown
      exact ok.apart left leftSize right rightSize leftKnown rightKnown before

theorem base_ok_write (ok : BaseOk heap base offset granted) (known : granted ptr = some size)
    (outside : ∀ byte, ¬(ptr ≤ byte ∧ byte < ptr + size) → later byte = base byte) :
    BaseOk heap later offset granted := by
  refine { ok with header := ?_ }
  intro other length there
  rw [← ok.header other length there]
  have placed := ok.placed other length there
  apply load_congr
  intro byte lower upper
  apply outside
  intro inside
  cases Nat.lt_or_ge ptr other with
  | inl before =>
      have apart := ok.apart ptr size other length known there before
      omega
  | inr behind => omega

theorem granted_base (ok : BaseOk heap base offset granted) (known : granted ptr = some size) :
    isBasePtr heap ptr = true := by
  have placed := ok.placed ptr size known
  have limit := ok.inside
  rw [is_base_ptr_iff]
  omega

/-! ## The invariant of runs -/

structure HookOk (heap : BaseHeap) (sys : HookSys) (g : Ghost) : Prop where
  api : ApiOk (apiMode True) sys.api g
  outside : OutsideArray heap sys.hooks.engine.regions
  base : BaseOk heap sys.hooks.base sys.hooks.offset sys.granted

theorem engine_call_cases {Result : Type} {answer : Option (Result × State)} {found : Result}
    (called : engineCall heap hooks answer = some (found, after)) :
    ∃ s, answer = some (found, s) ∧ OutsideArray heap s.regions ∧
      after = { hooks with engine := s } := by
  obtain ⟨⟨value, s⟩, answered, checked⟩ := Option.bind_eq_some_iff.mp called
  simp only at checked
  split at checked
  · next outside =>
      simp only [Option.some.injEq, Prod.mk.injEq] at checked
      obtain ⟨rfl, rfl⟩ := checked
      exact ⟨s, answered, outside, rfl⟩
  · cases checked

theorem live_bytes_not_base (ok : HookOk heap sys g) (live : g.node ptr = .live)
    (lower : ptr ≤ address) (upper : address < ptr + originLength (g.record ptr)) :
    isBasePtr heap address = false :=
  mapped_not_base ok.outside
    (object_mapped ok.api.rest.inv.toCore ok.api.rest.short live lower upper)

theorem receive_ready (ready : sys.hooks.ready = true) (after : Hooks) (ptr size : Nat)
    (direct : Prop) [Decidable direct] :
    sys.receive after ptr size direct =
      sys.settle after (handOut sys.api after.engine ptr size direct) := by
  unfold HookSys.receive
  by_cases null : ptr = 0
  · rw [if_pos null, handOut, if_pos null]
    rfl
  · rw [if_neg null, if_pos ready]

theorem hook_ok_engine (ok : HookOk heap sys g) {act : ApiAct} {api : ApiSys}
    (fits : ApiFits sys.api act) (stepped : apiStep sys.api act = some api)
    (outside : OutsideArray heap api.state.regions) :
    ∃ last, HookOk heap (sys.settle { sys.hooks with engine := api.state } api) last := by
  obtain ⟨last, apiOk⟩ := api_step_ok ok.api id fits stepped
  exact ⟨last, apiOk, outside, ok.base⟩

theorem base_grant_cases {answer : BaseResult}
    (granted : baseGrant hooks size answer = some (ptr, after)) :
    ∃ next, answer = .returned ptr next ∧
      after = { hooks with
        offset := next
        base := store hooks.base (ptr - baseHeaderSize) 8 (baseExactSize size) } := by
  cases answer with
  | trap => cases granted
  | fault => cases granted
  | returned found next =>
      simp only [baseGrant, Option.some.injEq, Prod.mk.injEq] at granted
      rw [← granted.1, ← granted.2]
      exact ⟨next, rfl, rfl⟩

theorem hook_ok_reserve (direct : Prop) [Decidable direct] (ok : HookOk heap sys g)
    (waiting : sys.hooks.ready = false) (sizeWord : size < 2 ^ 64)
    (fits : BaseFits heap sys.hooks.offset alignment size)
    (reserved : baseReserve heap sys.hooks alignment size = some (ptr, after)) :
    ptr ≠ 0 ∧ HookOk heap (sys.receive after ptr size direct) g := by
  obtain ⟨next, returned, rfl⟩ := base_grant_cases reserved
  have granted := base_ok_reserve ok.base sizeWord fits returned
  have nonnull : ptr ≠ 0 := by
    have placed := granted.placed ptr (baseExactSize size) (by simp)
    omega
  rw [HookSys.receive, if_neg nonnull, if_neg (by simp [waiting])]
  exact ⟨nonnull, ok.api, ok.outside, granted⟩

theorem hook_ok_served {direct : Prop} [Decidable direct] {act : ApiAct} {s : State}
    (ok : HookOk heap sys g) (ready : sys.hooks.ready = true) (fits : ApiFits sys.api act)
    (taken : apiStep sys.api act = some (handOut sys.api s ptr size direct))
    (outside : OutsideArray heap s.regions) :
    ∃ last, HookOk heap (sys.receive { sys.hooks with engine := s } ptr size direct) last := by
  have received := hook_ok_engine ok fits taken (by rwa [hand_out_state])
  rw [hand_out_state] at received
  rwa [receive_ready ready]

theorem hook_ok_routed (ok : HookOk heap sys g) (sizeWord : size < 2 ^ 64)
    (fits : HookFits heap sys (.malloc thread size))
    (routed : lzMallocRouted heap sys.hooks thread size = some (ptr, after)) :
    ∃ last, HookOk heap (sys.receive after ptr size (lzMaxSpanObjSize < size)) last := by
  unfold lzMallocRouted at routed
  simp only [HookFits] at fits
  cases ready : sys.hooks.ready with
  | true =>
      rw [if_pos ready] at routed fits
      obtain ⟨s, called, outside, rfl⟩ := engine_call_cases routed
      have allowed : ApiFits sys.api (.malloc thread size) := fits
      apply hook_ok_served ok ready allowed _ outside
      simp only [apiStep, if_pos sizeWord, HookSys.api, called, Option.map_some]
  | false =>
      rw [if_neg (by simp [ready])] at routed fits
      exact ⟨g, (hook_ok_reserve _ ok ready sizeWord fits routed).2⟩

/-! ## Writes into blocks -/

theorem overwrite_array {target length : Nat} {value : Nat → UInt8}
    (array : ∀ address, target ≤ address → address < target + length →
      isBasePtr heap address = true) :
    (overwrite heap hooks target length value).engine = hooks.engine := by
  have same : (overwrite heap hooks target length value).engine.mem = hooks.engine.mem := by
    funext address
    apply if_neg
    intro inside
    exact inside.1 (array address inside.2.1 inside.2.2)
  exact congrArg (fun mem => { hooks.engine with mem := mem }) same

theorem overwrite_engine {target length : Nat} {value : Nat → UInt8}
    (mapped : ∀ address, target ≤ address → address < target + length →
      isBasePtr heap address = false) :
    (overwrite heap hooks target length value).base = hooks.base := by
  funext address
  apply if_neg
  intro inside
  have outside := mapped address inside.2.1 inside.2.2
  rw [inside.1] at outside
  cases outside

def Covers (sys : HookSys) (ptr length : Nat) : Prop :=
  ∃ size, length ≤ size ∧ (sys.granted ptr = some size ∨ sys.live ptr = some size)

theorem hook_ok_overwrite (ok : HookOk heap sys g) {length : Nat} (covers : Covers sys ptr length)
    (value : Nat → UInt8) :
    HookOk heap { sys with hooks := overwrite heap sys.hooks ptr length value } g := by
  obtain ⟨size, shorter, known⟩ := covers
  cases known with
  | inl granted =>
      have placed := ok.base.placed ptr size granted
      have limit := ok.base.inside
      have array : ∀ address, ptr ≤ address → address < ptr + length →
          isBasePtr heap address = true := by
        intro address lower upper
        rw [is_base_ptr_iff]
        omega
      have engine := @overwrite_array heap sys.hooks ptr length value array
      have written : BaseOk heap (overwrite heap sys.hooks ptr length value).base
          sys.hooks.offset sys.granted := by
        apply base_ok_write ok.base granted
        intro byte outside
        apply if_neg
        intro inside
        omega
      refine ⟨?_, ?_, written⟩
      · have same : HookSys.api { sys with hooks := overwrite heap sys.hooks ptr length value } =
            sys.api := by
          rw [HookSys.api, engine]
          rfl
        rw [same]
        exact ok.api
      · rw [engine]
        exact ok.outside
  | inr live =>
      have node := (ok.api.live ptr).mp (by simp [HookSys.api, live])
      have room := ok.api.asked ptr size live
      have mapped : ∀ address, ptr ≤ address → address < ptr + length →
          isBasePtr heap address = false := fun address lower upper =>
        live_bytes_not_base ok node lower (by omega)
      have base := @overwrite_engine heap sys.hooks ptr length value mapped
      refine ⟨⟨?_, ok.api.live, ok.api.asked, ok.api.born⟩, ok.outside, ?_⟩
      · apply at_rest_write ok.api.rest node
        intro byte outside
        apply if_neg
        intro inside
        omega
      · rw [base]
        exact ok.base

theorem receive_overwrite {direct : Prop} [Decidable direct] (target length : Nat)
    (value : Nat → UInt8) :
    sys.receive (overwrite heap after target length value) ptr size direct =
      { sys.receive after ptr size direct with
        hooks := overwrite heap after target length value } := by
  unfold HookSys.receive
  split
  · rfl
  · split
    · next nonnull _ =>
        simp only [HookSys.settle, handOut, if_neg nonnull]
        rfl
    · rfl

theorem receive_hooks (direct : Prop) [Decidable direct] :
    (sys.receive after ptr size direct).hooks = after := by
  unfold HookSys.receive
  split
  · rfl
  · split
    · rfl
    · rfl

theorem receive_covers {direct : Prop} [Decidable direct] (nonnull : ptr ≠ 0) {length : Nat}
    (shorter : length ≤ size) : Covers (sys.receive after ptr size direct) ptr length := by
  unfold HookSys.receive
  rw [if_neg nonnull]
  by_cases ready : sys.hooks.ready = true
  · rw [if_pos ready]
    apply Exists.intro size
    constructor
    · exact shorter
    · right
      simp [HookSys.settle, handOut, nonnull]
  · rw [if_neg ready]
    apply Exists.intro (baseExactSize size)
    constructor
    · unfold baseExactSize
      split <;> omega
    · left
      simp

theorem hook_ok_filled {direct : Prop} [Decidable direct]
    (ok : HookOk heap (sys.receive after ptr size direct) g) (nonnull : ptr ≠ 0) {length : Nat}
    (shorter : length ≤ size) (value : Nat → UInt8) :
    HookOk heap (sys.receive (overwrite heap after ptr length value) ptr size direct) g := by
  have written := hook_ok_overwrite ok (receive_covers nonnull shorter) value
  rw [receive_hooks] at written
  rw [receive_overwrite]
  exact written

/-! ## Steps keep the invariant -/

theorem receive_null (direct : Prop) [Decidable direct] :
    sys.receive after 0 size direct = { sys with hooks := after } := if_pos rfl

theorem hook_malloc_ok (ok : HookOk heap sys g) (fits : HookFits heap sys (.malloc thread size))
    (stepped : hookStep heap sys (.malloc thread size) = some reached) :
    ∃ last, HookOk heap reached last := by
  simp only [hookStep] at stepped
  split at stepped
  · next bound =>
      obtain ⟨⟨ptr, after⟩, called, rfl⟩ := Option.map_eq_some_iff.mp stepped
      exact hook_ok_routed ok bound fits called
  · cases stepped

theorem hook_calloc_ok (ok : HookOk heap sys g) {num : Nat}
    (fits : HookFits heap sys (.calloc thread num size))
    (stepped : hookStep heap sys (.calloc thread num size) = some reached) :
    ∃ last, HookOk heap reached last := by
  simp only [hookStep] at stepped
  split at stepped
  · next bound =>
      obtain ⟨⟨ptr, after⟩, called, rfl⟩ := Option.map_eq_some_iff.mp stepped
      simp only [calloc] at called
      simp only [HookFits] at fits
      by_cases overflow : num * size ≥ 2 ^ 64
      · rw [if_pos overflow, Option.some.injEq, Prod.mk.injEq] at called
        rw [← called.1, ← called.2, receive_null]
        exact ⟨g, ok⟩
      rw [if_neg overflow] at called
      cases ready : sys.hooks.ready with
      | true =>
          rw [if_pos ready] at called fits
          obtain ⟨s, served, outside, rfl⟩ := engine_call_cases called
          have allowed : ApiFits sys.api (.calloc thread num size) := fits
          apply hook_ok_served ok ready allowed _ outside
          simp only [apiStep, if_pos bound, HookSys.api, served, Option.map_some]
      | false =>
          rw [if_neg (by simp [ready])] at called fits
          obtain ⟨⟨found, granted⟩, reserved, same⟩ := Option.map_eq_some_iff.mp called
          rw [Prod.mk.injEq] at same
          obtain ⟨rfl, rfl⟩ := same
          obtain ⟨nonnull, received⟩ := hook_ok_reserve (lzMaxSpanObjSize < num * size) ok ready
            (by omega) (fits (by omega)) reserved
          exact ⟨g, hook_ok_filled received nonnull le_rfl fun _ => 0⟩
  · cases stepped

/-- An aligned hook refuses the request or routes it as `memalign` does. -/
def Routes (heap : BaseHeap) (hooks : Hooks) (thread alignment size : Nat)
    (answer : Option (Nat × Hooks)) : Prop :=
  ∀ ptr after, answer = some (ptr, after) →
    ptr = 0 ∧ after = hooks ∨ memalign heap hooks thread alignment size = some (ptr, after)

theorem routes_memalign (heap : BaseHeap) (hooks : Hooks) (thread alignment size : Nat) :
    Routes heap hooks thread alignment size (memalign heap hooks thread alignment size) :=
  fun _ _ => Or.inr

theorem engine_call_refused {answer : Option (Nat × State)}
    (refused : answer = some (0, hooks.engine))
    (called : engineCall heap hooks answer = some (ptr, after)) : ptr = 0 ∧ after = hooks := by
  obtain ⟨s, answered, _, rfl⟩ := engine_call_cases called
  rw [refused, Option.some.injEq, Prod.mk.injEq] at answered
  rw [← answered.1, ← answered.2]
  exact ⟨rfl, rfl⟩

theorem routes_aligned_alloc (heap : BaseHeap) (hooks : Hooks) (thread alignment size : Nat) :
    Routes heap hooks thread alignment size (alignedAlloc heap hooks thread alignment size) := by
  intro ptr after called
  unfold alignedAlloc at called
  unfold memalign
  by_cases ready : hooks.ready = true
  · rw [if_pos ready] at called ⊢
    by_cases invalid : alignment = 0 ∨ ¬isPowerOfTwo alignment = true
    · exact Or.inl (engine_call_refused (by rw [lzAlignedAlloc, if_pos invalid]) called)
    by_cases uneven : size % alignment ≠ 0
    · exact Or.inl (engine_call_refused
        (by rw [lzAlignedAlloc, if_neg invalid, if_pos uneven]) called)
    rw [lzAlignedAlloc, if_neg invalid, if_neg uneven] at called
    exact Or.inr called
  · rw [if_neg ready] at called ⊢
    exact Or.inr called

theorem lz_posix_memalign_cases {s later : State} {memptr code : Nat} {stored : Option Nat}
    (done : lzPosixMemalign s thread memptr alignment size = some (code, stored, later)) :
    stored = none ∧ later = s ∨
      lzMemalign s thread alignment size = some (stored.getD 0, later) := by
  unfold lzPosixMemalign at done
  split at done
  · simp only [Option.some.injEq, Prod.mk.injEq] at done
    exact Or.inl ⟨done.2.1.symm, done.2.2.symm⟩
  split at done
  · simp only [Option.some.injEq, Prod.mk.injEq] at done
    exact Or.inl ⟨done.2.1.symm, done.2.2.symm⟩
  obtain ⟨⟨found, reached⟩, allocated, result⟩ := Option.map_eq_some_iff.mp done
  right
  simp only at result
  split at result
  · next null =>
      simp only [Prod.mk.injEq] at result
      rw [allocated, null, ← result.2.1, ← result.2.2, Option.getD_none]
  · simp only [Prod.mk.injEq] at result
    rw [allocated, ← result.2.1, ← result.2.2, Option.getD_some]

theorem routes_posix_memalign (heap : BaseHeap) (hooks : Hooks)
    (thread memptr alignment size : Nat) :
    Routes heap hooks thread alignment size
      (storedPointer (posixMemalign heap hooks thread memptr alignment size)) := by
  intro ptr after answered
  obtain ⟨⟨⟨code, stored⟩, reached⟩, called, same⟩ := Option.map_eq_some_iff.mp answered
  simp only [Prod.mk.injEq] at same
  obtain ⟨rfl, rfl⟩ := same
  unfold posixMemalign at called
  unfold memalign
  by_cases ready : hooks.ready = true
  · rw [if_pos ready] at called ⊢
    obtain ⟨s, mapped, outside, rfl⟩ := engine_call_cases called
    obtain ⟨⟨_, _, later⟩, done, eq⟩ := Option.map_eq_some_iff.mp mapped
    simp only [Prod.mk.injEq] at eq
    obtain ⟨⟨rfl, rfl⟩, rfl⟩ := eq
    cases lz_posix_memalign_cases done with
    | inl refused =>
        rw [refused.1, refused.2]
        exact Or.inl ⟨rfl, rfl⟩
    | inr served =>
        right
        rw [served, engineCall, Option.bind_some, if_pos outside]
  · rw [if_neg ready] at called ⊢
    obtain ⟨⟨found, reserved⟩, granted, stores⟩ := Option.bind_eq_some_iff.mp called
    right
    simp only at stores
    split at stores
    · cases stores
    · simp only [Option.some.injEq, Prod.mk.injEq] at stores
      rw [granted, ← stores.1.2, ← stores.2, Option.getD_some]

theorem hook_aligned_ok (ok : HookOk heap sys g) (fits : AlignedFits heap sys alignment size)
    {answer : Option (Nat × Hooks)} (routes : Routes heap sys.hooks thread alignment size answer)
    (stepped : alignedStep sys alignment size answer = some reached) :
    ∃ last, HookOk heap reached last := by
  unfold alignedStep at stepped
  split at stepped
  · next bound =>
      obtain ⟨⟨ptr, after⟩, answered, rfl⟩ := Option.map_eq_some_iff.mp stepped
      cases routes ptr after answered with
      | inl refused =>
          rw [refused.1, refused.2, receive_null]
          exact ⟨g, ok⟩
      | inr called =>
          simp only [memalign] at called
          unfold AlignedFits at fits
          cases ready : sys.hooks.ready with
          | true =>
              rw [if_pos ready] at called fits
              obtain ⟨s, served, outside, rfl⟩ := engine_call_cases called
              have allowed : ApiFits sys.api (.memalign thread alignment size) := fits
              apply hook_ok_served ok ready allowed _ outside
              simp only [apiStep, if_pos bound, HookSys.api, served, Option.map_some]
          | false =>
              rw [if_neg (by simp [ready])] at called fits
              exact ⟨g, (hook_ok_reserve _ ok ready bound.2 fits called).2⟩
  · cases stepped

theorem holds_engine (ok : HookOk heap sys g) (holds : sys.Holds ptr)
    (engine : isBasePtr heap ptr = false) : (sys.live ptr).isSome := by
  cases holds with
  | inl live => exact live
  | inr granted =>
      obtain ⟨size, known⟩ := Option.isSome_iff_exists.mp granted
      have array := granted_base ok.base known
      rw [engine] at array
      cases array

theorem holds_array (ok : HookOk heap sys g) (holds : sys.Holds ptr)
    (array : isBasePtr heap ptr = true) : ∃ size, sys.granted ptr = some size := by
  cases holds with
  | inl live =>
      obtain ⟨size, known⟩ := Option.isSome_iff_exists.mp live
      have node := (ok.api.live ptr).mp live
      have core := ok.api.rest.inv.toCore
      have mapped := holder_mapped core (core.objects.scope ptr (by simp [node]))
      have outside := mapped_not_base ok.outside mapped
      rw [array] at outside
      cases outside
  | inr granted => exact Option.isSome_iff_exists.mp granted

theorem lz_free_routed_cases (called : lzFreeRouted heap hooks thread ptr = some after) :
    (¬(ptr ≠ 0 ∧ ¬isBasePtr heap ptr = true ∧ hooks.ready = true) ∧ after = hooks) ∨
      ((ptr ≠ 0 ∧ ¬isBasePtr heap ptr = true ∧ hooks.ready = true) ∧
        ∃ s, lzFree hooks.engine thread ptr = some s ∧ OutsideArray heap s.regions ∧
          after = { hooks with engine := s }) := by
  unfold lzFreeRouted at called
  by_cases null : ptr = 0
  · rw [if_pos null, Option.some.injEq] at called
    exact Or.inl ⟨fun engine => engine.1 null, called.symm⟩
  rw [if_neg null] at called
  by_cases array : isBasePtr heap ptr = true
  · rw [if_pos array, Option.some.injEq] at called
    exact Or.inl ⟨fun engine => engine.2.1 array, called.symm⟩
  rw [if_neg array] at called
  by_cases ready : hooks.ready = true
  · rw [if_pos ready] at called
    obtain ⟨⟨_, released⟩, answered, rfl⟩ := Option.map_eq_some_iff.mp called
    obtain ⟨s, freed, outside, rfl⟩ := engine_call_cases answered
    obtain ⟨same, done, eq⟩ := Option.map_eq_some_iff.mp freed
    rw [Prod.mk.injEq] at eq
    obtain ⟨_, rfl⟩ := eq
    exact Or.inr ⟨⟨null, array, ready⟩, same, done, outside, rfl⟩
  · rw [if_neg ready, Option.some.injEq] at called
    exact Or.inl ⟨fun engine => ready engine.2.2, called.symm⟩

theorem hook_free_ok (ok : HookOk heap sys g)
    (stepped : hookStep heap sys (.free thread ptr) = some reached) :
    ∃ last, HookOk heap reached last := by
  simp only [hookStep] at stepped
  split at stepped
  · next allowed =>
      obtain ⟨after, called, rfl⟩ := Option.map_eq_some_iff.mp stepped
      cases lz_free_routed_cases called with
      | inl nothing =>
          rw [if_neg nothing.1, nothing.2]
          exact ⟨g, ok⟩
      | inr engine =>
          obtain ⟨routed, s, done, outside, rfl⟩ := engine
          rw [if_pos routed]
          have live := holds_engine ok (allowed.resolve_left routed.1) (by simpa using routed.2.1)
          have taken : apiStep sys.api (.free thread ptr) = some (takeBack sys.api s ptr) := by
            simp only [apiStep, HookSys.api, live, or_true, if_true, done, Option.map_some]
          have fits : ApiFits sys.api (.free thread ptr) := trivial
          exact hook_ok_engine ok fits taken outside
  · cases stepped

section Realloc

variable {newSize : Nat}

theorem realloc_array_branches (nonnull : ptr ≠ 0) (positive : newSize ≠ 0)
    (array : isBasePtr heap ptr = true)
    (done : realloc heap hooks thread ptr newSize = some (result, after)) :
    (result = ptr ∧ after = hooks ∧ newSize ≤ load hooks.base (ptr - baseHeaderSize) 8) ∨
      (load hooks.base (ptr - baseHeaderSize) 8 < newSize ∧ ∃ grown,
        lzMallocRouted heap hooks thread newSize = some (result, grown) ∧
          (result = 0 ∧ after = grown ∨ result ≠ 0 ∧
            after = memcpy heap grown result ptr (load hooks.base (ptr - baseHeaderSize) 8))) := by
  simp only [realloc, if_neg nonnull, if_neg positive, if_pos array] at done
  by_cases shrinks : newSize ≤ load hooks.base (ptr - baseHeaderSize) 8
  · rw [if_pos shrinks, Option.some.injEq, Prod.mk.injEq] at done
    exact Or.inl ⟨done.1.symm, done.2.symm, shrinks⟩
  rw [if_neg shrinks] at done
  obtain ⟨⟨found, grown⟩, routed, same⟩ := Option.map_eq_some_iff.mp done
  refine Or.inr ⟨by omega, grown, ?_⟩
  simp only at same
  split at same
  · next null =>
      rw [Prod.mk.injEq] at same
      rw [null, same.1] at routed
      exact ⟨routed, Or.inl ⟨same.1.symm, same.2.symm⟩⟩
  · next moved =>
      rw [Prod.mk.injEq] at same
      rw [← same.1, ← same.2]
      exact ⟨routed, Or.inr ⟨moved, rfl⟩⟩

theorem realloc_engine_branches (nonnull : ptr ≠ 0) (positive : newSize ≠ 0)
    (engine : isBasePtr heap ptr = false)
    (done : realloc heap hooks thread ptr newSize = some (result, after)) :
    (hooks.ready = false ∧ result = 0 ∧ after = hooks) ∨
      (hooks.ready = true ∧ ∃ s, lzRealloc hooks.engine thread ptr newSize = some (result, s) ∧
        OutsideArray heap s.regions ∧ after = { hooks with engine := s }) := by
  have outside : ¬isBasePtr heap ptr = true := by simp [engine]
  simp only [realloc, if_neg nonnull, if_neg positive, if_neg outside] at done
  by_cases ready : hooks.ready = true
  · rw [if_neg (not_not.mpr ready)] at done
    exact Or.inr ⟨ready, engine_call_cases done⟩
  · rw [if_pos ready, Option.some.injEq, Prod.mk.injEq] at done
    exact Or.inl ⟨by simpa using ready, done.1.symm, done.2.symm⟩

theorem receive_live {direct : Prop} [Decidable direct] (moved : result ≠ 0)
    (ready : sys.hooks.ready = true) :
    (sys.receive after result size direct).live result = some size := by
  simp [HookSys.receive, moved, ready, HookSys.settle, handOut]

theorem received_not_base {direct : Prop} [Decidable direct]
    (ok : HookOk heap (sys.receive after result size direct) last) (moved : result ≠ 0)
    (ready : sys.hooks.ready = true) : isBasePtr heap result = false := by
  have core := ok.api.rest.inv.toCore
  have known : ((sys.receive after result size direct).live result).isSome := by
    rw [receive_live moved ready]
    rfl
  have node := (ok.api.live result).mp known
  exact mapped_not_base ok.outside (holder_mapped core (core.objects.scope result (by simp [node])))

theorem reserved_behind (ok : HookOk heap sys g) (sizeWord : size < 2 ^ 64)
    (fits : BaseFits heap sys.hooks.offset alignment size)
    (reserved : baseReserve heap sys.hooks alignment size = some (result, after)) {length : Nat}
    (known : sys.granted ptr = some length) : ptr + length + 16 ≤ result := by
  obtain ⟨next, returned, _⟩ := base_grant_cases reserved
  have behind := (base_malloc_block fits.1 sizeWord ok.base.inside fits.2 returned).1
  have placed := ok.base.placed ptr length known
  omega

theorem routed_fresh (ok : HookOk heap sys g) (sizeWord : newSize < 2 ^ 64)
    (fits : HookFits heap sys (.malloc thread newSize))
    (routed : lzMallocRouted heap sys.hooks thread newSize = some (result, after))
    (moved : result ≠ 0) {length : Nat} (known : sys.granted ptr = some length) : result ≠ ptr := by
  intro same
  cases ready : sys.hooks.ready with
  | true =>
      obtain ⟨last, received⟩ := hook_ok_routed ok sizeWord fits routed
      have engine := received_not_base received moved ready
      rw [same, granted_base ok.base known] at engine
      cases engine
  | false =>
      have waiting : ¬sys.hooks.ready = true := by simp [ready]
      simp only [HookFits] at fits
      rw [if_neg waiting] at fits
      rw [lzMallocRouted, if_neg waiting] at routed
      have behind := reserved_behind ok sizeWord fits routed known
      omega

theorem hook_ok_realloc_array (ok : HookOk heap sys g) (holds : sys.Holds ptr)
    (sizeWord : newSize < 2 ^ 64) (fits : HookFits heap sys (.malloc thread newSize))
    (nonnull : ptr ≠ 0) (positive : newSize ≠ 0) (array : isBasePtr heap ptr = true)
    (done : realloc heap sys.hooks thread ptr newSize = some (result, after)) :
    ∃ last, HookOk heap (finishHook heap sys after ptr newSize result) last := by
  rw [finishHook, if_neg nonnull, if_pos array]
  rcases realloc_array_branches nonnull positive array done with
    ⟨rfl, rfl, _⟩ | ⟨grows, grown, routed, outcome⟩
  · rw [if_pos rfl]
    exact ⟨g, ok⟩
  obtain ⟨last, received⟩ := hook_ok_routed ok sizeWord fits routed
  cases outcome with
  | inl failed =>
      rw [failed.1] at received ⊢
      rw [if_neg nonnull.symm, failed.2]
      exact ⟨last, received⟩
  | inr moved =>
      obtain ⟨length, known⟩ := holds_array ok holds array
      rw [if_neg (routed_fresh ok sizeWord fits routed moved.1 known), moved.2]
      exact ⟨last, hook_ok_filled received moved.1 (le_of_lt grows) _⟩

theorem hook_ok_released (ok : HookOk heap sys g) (holds : sys.Holds ptr) (nonnull : ptr ≠ 0)
    (nothing : newSize = 0)
    (done : realloc heap sys.hooks thread ptr newSize = some (result, after)) :
    ∃ last, HookOk heap (finishHook heap sys after ptr newSize result) last := by
  rw [realloc, if_neg nonnull, if_pos nothing] at done
  obtain ⟨released, freed, same⟩ := Option.map_eq_some_iff.mp done
  rw [Prod.mk.injEq] at same
  obtain ⟨rfl, rfl⟩ := same
  rw [finishHook, if_neg nonnull]
  cases lz_free_routed_cases freed with
  | inl skipped =>
      rw [skipped.2]
      by_cases array : isBasePtr heap ptr = true
      · rw [if_pos array, if_neg nonnull.symm, receive_null]
        exact ⟨g, ok⟩
      · rw [if_neg array, if_pos fun ready => skipped.1 ⟨nonnull, array, ready⟩]
        exact ⟨g, ok⟩
  | inr engine =>
      obtain ⟨routed, s, called, outside, rfl⟩ := engine
      rw [if_neg routed.2.1, if_neg (not_not.mpr routed.2.2)]
      have live := holds_engine ok holds (by simpa using routed.2.1)
      have taken : apiStep sys.api (.free thread ptr) = some (takeBack sys.api s ptr) := by
        simp only [apiStep, HookSys.api, live, or_true, if_true, called, Option.map_some]
      have fits : ApiFits sys.api (.free thread ptr) := trivial
      rw [finishRealloc, if_neg nonnull, if_pos nothing]
      exact hook_ok_engine ok fits taken outside

theorem hook_realloc_ok (ok : HookOk heap sys g)
    (fits : HookFits heap sys (.realloc thread ptr newSize))
    (stepped : hookStep heap sys (.realloc thread ptr newSize) = some reached) :
    ∃ last, HookOk heap reached last := by
  simp only [hookStep] at stepped
  split at stepped
  · next allowed =>
      obtain ⟨⟨result, after⟩, called, rfl⟩ := Option.map_eq_some_iff.mp stepped
      have room : HookFits heap sys (.malloc thread newSize) := fits
      simp only
      by_cases null : ptr = 0
      · rw [realloc, if_pos null] at called
        rw [finishHook, if_pos null]
        exact hook_ok_routed ok allowed.1 room called
      have holds := allowed.2.resolve_left null
      by_cases nothing : newSize = 0
      · exact hook_ok_released ok holds null nothing called
      cases array : isBasePtr heap ptr with
      | true => exact hook_ok_realloc_array ok holds allowed.1 room null nothing array called
      | false =>
          rw [finishHook, if_neg null, if_neg (by simp [array])]
          rcases realloc_engine_branches null nothing array called with
            ⟨waiting, _, rfl⟩ | ⟨ready, s, moved, outside, rfl⟩
          · rw [if_pos (by simp [waiting])]
            exact ⟨g, ok⟩
          · rw [if_neg (by simp [ready])]
            have live := holds_engine ok holds array
            have taken : apiStep sys.api (.realloc thread ptr newSize) =
                some (finishRealloc sys.api s ptr newSize result) := by
              simp only [apiStep, HookSys.api, live, allowed.1, or_true, and_self, if_true, moved,
                Option.map_some]
            simp only [HookFits] at fits
            rw [if_pos ready] at fits
            have within : ApiFits sys.api (.realloc thread ptr newSize) := fun _ => fits
            have settled := hook_ok_engine ok within taken (by rwa [finish_realloc_state])
            rwa [finish_realloc_state] at settled
  · cases stepped

end Realloc

theorem hook_step_ok (ok : HookOk heap sys g) {act : HookAct} (fits : HookFits heap sys act)
    (stepped : hookStep heap sys act = some reached) : ∃ last, HookOk heap reached last := by
  cases act with
  | bootstrap =>
      obtain rfl := Option.some.inj stepped
      exact ⟨g, ok.api, ok.outside, ok.base⟩
  | malloc thread size => exact hook_malloc_ok ok fits stepped
  | calloc thread num size => exact hook_calloc_ok ok fits stepped
  | realloc thread ptr size => exact hook_realloc_ok ok fits stepped
  | memalign thread alignment size =>
      exact hook_aligned_ok ok fits (routes_memalign heap _ thread alignment size) stepped
  | posixMemalign thread memptr alignment size =>
      exact hook_aligned_ok ok fits (routes_posix_memalign heap _ thread memptr alignment size)
        stepped
  | alignedAlloc thread alignment size =>
      exact hook_aligned_ok ok fits (routes_aligned_alloc heap _ thread alignment size) stepped
  | valloc thread sysconf size =>
      exact hook_aligned_ok ok fits (routes_memalign heap _ thread _ size) stepped
  | pvalloc thread sysconf size =>
      exact hook_aligned_ok ok fits (routes_memalign heap _ thread _ size) stepped
  | free thread ptr => exact hook_free_ok ok stepped
  | library act =>
      obtain ⟨⟨api, after⟩, called, rfl⟩ := Option.map_eq_some_iff.mp stepped
      obtain ⟨s, answered, outside, rfl⟩ := engine_call_cases called
      obtain ⟨same, taken, eq⟩ := Option.map_eq_some_iff.mp answered
      rw [Prod.mk.injEq] at eq
      obtain ⟨rfl, rfl⟩ := eq
      exact hook_ok_engine ok fits taken outside
  | write ptr offset value =>
      simp only [hookStep] at stepped
      split at stepped
      · next inside =>
          obtain rfl := Option.some.inj stepped
          cases known : sys.granted ptr with
          | none => simp [known] at inside
          | some size =>
              rw [known, Option.getD_some] at inside
              refine ⟨g, ok.api, ok.outside, ?_⟩
              apply base_ok_write ok.base known
              intro byte outside
              exact Function.update_of_ne (by omega) _ _
      · cases stepped

theorem hook_start_ok (heap : BaseHeap) (env : Env) (secret : BitVec 64) (telemetry : Bool)
    (base : Memory) (leaves : ∀ call, env.leafMmap call = true) :
    HookOk heap (hookStart env secret telemetry base) emptyGhost := by
  refine ⟨api_start_ok env secret telemetry fun _ => leaves, ?_, ⟨by simp [hookStart], ?_, ?_, ?_⟩⟩
  · intro region member
    cases member
  · simp [hookStart]
  · simp [hookStart]
  · simp [hookStart]

/-- Every state of a run whose requests fit. -/
theorem hook_run_ok {env : Env} {secret : BitVec 64} {telemetry : Bool} {base : Memory}
    {acts : List HookAct} (leaves : ∀ call, env.leafMmap call = true)
    (fits : Along (hookStep heap) (HookFits heap) (hookStart env secret telemetry base) acts)
    (ran : run (hookStep heap) (hookStart env secret telemetry base) acts = some sys) :
    ∃ g, HookOk heap sys g := by
  have preserved : ∀ state act reached, (∃ g, HookOk heap state g) → HookFits heap state act →
      hookStep heap state act = some reached → ∃ g, HookOk heap reached g := by
    intro state act reached known allowed stepped
    obtain ⟨g, ok⟩ := known
    exact hook_step_ok ok allowed stepped
  exact run_invariant preserved
    ⟨emptyGhost, hook_start_ok heap env secret telemetry base leaves⟩ fits ran

end Lzmalloc.HookRuns
