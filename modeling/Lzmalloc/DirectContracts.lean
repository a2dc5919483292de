import Lzmalloc.ApiRuns
import Lzmalloc.SlabContracts

/-!
# Size arithmetic of large requests

The direct engine adds the payload offset, rounds up to 2 MB and adds 2 MB for
trimming, all in 64-bit arithmetic and without a check. A request that ends in
the last 2 MB of the word range or beyond it is served with a region that does
not contain it, or ends the process; all others are served correctly.
-/

namespace Lzmalloc.DirectContracts

open SizeClasses HeapState VirtualMemoryManager Engines PublicApi Mappings DirectObjects
open ApiOperations ApiRuns
open SlabContracts (generousEnv)

set_option autoImplicit false

variable {s after : State} {offset size ptr : Nat}

/-! ## Outcomes of the direct path -/

def MmapRefused (s : State) (offset size : Nat) : Prop :=
  (mmap s ((directTotal offset size + lzHugePageSize) % 2 ^ 64)).1 = none

/-- The call added the region `[header, header + length)` and put header words,
payload and sizes where they belong. -/
structure DirectPlaced (s after : State) (offset size ptr header length : Nat) : Prop where
  pointer : ptr = header + offset
  remains : ∀ address, Mapped after.regions address ↔
    Mapped s.regions address ∨ header ≤ address ∧ address < header + length
  fresh : ∀ address, header ≤ address → address < header + length → ¬Mapped s.regions address
  headerInside : header + lzCacheLineSize + 16 ≤ ptr
  payloadInside : ptr + size ≤ header + length
  unwrapped : ptr + size < 2 ^ 64
  recorded : after.direct header = ⟨length, size⟩

/-- Null, or the region that remains contains header and payload. A process
that dies in the call is not safe. -/
def DirectSafe (s : State) (offset size : Nat) : Option (Nat × State) → Prop
  | none => False
  | some (ptr, after) => ptr = 0 ∨ ∃ header length,
    DirectPlaced s after offset size ptr header length

theorem huge_aligned_refused (total : Nat) (refused :
    lzSysAllocHugeAligned s total = (none, { s with regionCalls := s.regionCalls + 1 })) :
    (mmap s ((total + lzHugePageSize) % 2 ^ 64)).1 = none := by
  unfold lzSysAllocHugeAligned at refused
  rcases mmap_cases s ((total + lzHugePageSize) % 2 ^ 64) with failed | ⟨raw, mapped, done, _⟩
  · rw [failed]
  · simp only [done] at refused
    split at refused <;> cases refused

theorem huge_aligned_granted {total start : Nat}
    (granted : lzSysAllocHugeAligned s total = (some start, after)) :
    (mmap s ((total + lzHugePageSize) % 2 ^ 64)).1 ≠ none := by
  unfold lzSysAllocHugeAligned at granted
  rcases mmap_cases s ((total + lzHugePageSize) % 2 ^ 64) with failed | ⟨raw, mapped, done, _⟩
  · simp only [failed] at granted
    cases granted
  · rw [done]
    exact Option.some_ne_none raw

theorem map_direct_cases (s : State) (offset size : Nat) :
    MmapRefused s offset size ∧
        mapDirect s offset size = some (0, { s with regionCalls := s.regionCalls + 1 }) ∨
      ¬MmapRefused s offset size ∧ directTotal offset size = 0 ∧ mapDirect s offset size = none ∨
      ¬MmapRefused s offset size ∧ directTotal offset size ≠ 0 ∧ ∃ start mapped after,
        MapsFresh s mapped start (directTotal offset size) ∧
        Registered (writeDirect mapped start (directTotal offset size) size) after start
          (directTotal offset size) start ∧
        mapDirect s offset size = some (start + offset, after) := by
  unfold mapDirect
  rcases lz_sys_alloc_huge_aligned_cases s (direct_total_multiple offset size)
    (direct_total_lt offset size) with failed | ⟨start, mapped, granted, maps⟩
  · exact Or.inl ⟨huge_aligned_refused _ failed, by simp only [failed]⟩
  right
  have allowed : ¬MmapRefused s offset size := huge_aligned_granted granted
  simp only [granted]
  by_cases nothing : directTotal offset size = 0
  · left
    refine ⟨allowed, nothing, if_neg ?_⟩
    rw [maps.mapped, nothing]
    rintro (before | inside)
    · exact maps.freshStart before
    · omega
  · right
    have range : DirectRange start (directTotal offset size) :=
      ⟨maps.aligned, maps.positive, direct_total_multiple offset size, Nat.pos_of_ne_zero nothing,
        maps.bound⟩
    have known : Mapped mapped.regions start :=
      (maps.mapped start).mpr (Or.inr ⟨le_rfl, Nat.lt_add_of_pos_right range.nonempty⟩)
    exact ⟨allowed, nothing, start, mapped, _, maps, lz_rtree_set_range_registered range start,
      if_pos known⟩

/-! ## The exact range of safe requests -/

theorem direct_total_covers (behind : 128 ≤ offset) (small : offset + size ≤ 2 ^ 64 - 2 ^ 21) :
    offset + size ≤ directTotal offset size ∧ directTotal offset size ≠ 0 := by
  have sum : (offset + size) % 2 ^ 64 = offset + size := Nat.mod_eq_of_lt (by omega)
  have covers : offset + size ≤ directTotal offset size := by
    rw [directTotal, sum]
    exact lz_align_up_le (by decide) (by simp only [lzHugePageSize]; omega)
  exact ⟨covers, by omega⟩

/-- A region below the word limit that covers the request ends 2 MB before it. -/
theorem direct_total_covers_only (covers : offset + size ≤ directTotal offset size) :
    offset + size ≤ 2 ^ 64 - 2 ^ 21 := by
  have multiple := direct_total_multiple offset size
  have bound := direct_total_lt offset size
  omega

theorem direct_safe_iff (behind : 128 ≤ offset) :
    DirectSafe s offset size (mapDirect s offset size) ↔
      offset + size ≤ 2 ^ 64 - 2 ^ 21 ∨ MmapRefused s offset size := by
  rcases map_direct_cases s offset size with
    ⟨refused, failed⟩ | ⟨allowed, nothing, died⟩ |
      ⟨allowed, nonempty, start, mapped, after, maps, registered, served⟩
  · rw [failed]
    exact iff_of_true (Or.inl rfl) (Or.inr refused)
  · rw [died]
    refine iff_of_false id ?_
    rintro (small | refused)
    · exact (direct_total_covers behind small).2 nothing
    · exact allowed refused
  · rw [served]
    have positive := maps.positive
    have limit := maps.bound
    have regions : after.regions = mapped.regions := by rw [registered.only]; rfl
    have direct : after.direct start = ⟨directTotal offset size, size⟩ := by
      rw [registered.only]
      exact Function.update_self _ _ _
    constructor
    · rintro (null | ⟨header, length, placed⟩)
      · omega
      · left
        -- The recorded length is that of the region.
        have same : header = start := by
          have pointer := placed.pointer
          omega
        have recorded := placed.recorded
        rw [same, direct, DirectInfo.mk.injEq] at recorded
        have inside := placed.payloadInside
        apply direct_total_covers_only
        omega
    · rintro (small | refused)
      · right
        obtain ⟨covers, _⟩ := direct_total_covers behind small
        refine ⟨start, directTotal offset size, rfl, ?_, maps.fresh, ?_, ?_, ?_, direct⟩
        · rw [regions]
          exact maps.mapped
        · simp only [lzCacheLineSize]
          omega
        · omega
        · omega
      · exact absurd refused allowed

/-! ## The calls that lead there -/

/-- The request with which a call enters the direct engine: payload offset and
size. -/
def directRequest (s : State) : ApiAct → Option (Nat × Nat)
  | .malloc _ size => if lzMaxSpanObjSize < size then some (128, size) else none
  | .calloc _ num size =>
      if callocSize num size < 2 ^ 64 ∧ lzMaxSpanObjSize < callocSize num size then
        some (128, callocSize num size)
      else none
  | .realloc _ ptr size =>
      if (ptr = 0 ∨ lzMallocUsableSize s ptr ≠ 0 ∧ lzMallocUsableSize s ptr < size) ∧
          lzMaxSpanObjSize < size then
        some (128, size)
      else none
  | .memalign _ alignment size =>
      if alignment < 2 ^ 64 ∧ isPowerOfTwo alignment ∧ memalignDirect alignment size then
        some (memalignOffset alignment, size)
      else none
  | _ => none

/-- What the allocation inside the call returns; `lz_realloc` goes on to copy
and free. -/
def allocationOf (s : State) : ApiAct → Option (Nat × State)
  | .malloc thread size => lzMalloc s thread size
  | .calloc thread num size => lzCalloc s thread num size
  | .realloc thread _ size => lzMalloc s thread size
  | .memalign thread alignment size => lzMemalign s thread alignment size
  | _ => none

theorem lz_malloc_large (thread : Nat) (large : lzMaxSpanObjSize < size) :
    lzMalloc s thread size = mapDirect s 128 size := by
  have positive : size ≠ 0 := by omega
  have notSmall : ¬size ≤ lzMaxSlabObjSize := by
    simp only [lzMaxSpanObjSize, lzMaxSlabObjSize] at large ⊢
    omega
  simp only [lzMalloc, if_neg positive, if_neg notSmall, if_neg (Nat.not_le.mpr large)]

theorem lz_calloc_large (thread num : Nat) (bound : callocSize num size < 2 ^ 64)
    (large : lzMaxSpanObjSize < callocSize num size) :
    lzCalloc s thread num size = mapDirect s 128 (callocSize num size) := by
  have some : ¬(num = 0 ∨ size = 0) := by
    intro none
    simp [callocSize, none, lzMaxSpanObjSize] at large
  rw [callocSize, if_neg some] at bound large ⊢
  have fits : ¬(2 ^ 64 - 1) / num < size := by
    rw [Nat.not_lt, Nat.le_div_iff_mul_le (by omega), Nat.mul_comm]
    omega
  simp only [lzCalloc, if_neg some, if_neg fits, if_neg (Nat.not_le.mpr large),
    lz_malloc_large thread large]
  cases mapDirect s 128 (num * size) with
  | none => rfl
  | some result =>
      by_cases null : result.1 = 0
      · simp [← null]
      · simp [null]

theorem lz_memalign_large (thread : Nat) {alignment : Nat} (power : isPowerOfTwo alignment = true)
    (direct : memalignDirect alignment size) :
    lzMemalign s thread alignment size = mapDirect s (memalignOffset alignment) size := by
  have valid : ¬(alignment = 0 ∨ ¬isPowerOfTwo alignment) := by
    rintro (rfl | invalid)
    · simp [isPowerOfTwo] at power
    · exact invalid power
  rw [lzMemalign, if_neg valid, if_neg direct.1, if_neg direct.2]

theorem direct_request_served {call : ApiAct}
    (request : directRequest s call = some (offset, size)) :
    128 ≤ offset ∧ allocationOf s call = mapDirect s offset size := by
  cases call with
  | malloc thread asked =>
      simp only [directRequest, Option.ite_none_right_eq_some, Option.some.injEq,
        Prod.mk.injEq] at request
      obtain ⟨large, rfl, rfl⟩ := request
      exact ⟨le_rfl, lz_malloc_large thread large⟩
  | calloc thread num each =>
      simp only [directRequest, Option.ite_none_right_eq_some, Option.some.injEq,
        Prod.mk.injEq] at request
      obtain ⟨⟨bound, large⟩, rfl, rfl⟩ := request
      exact ⟨le_rfl, lz_calloc_large thread num bound large⟩
  | realloc thread old asked =>
      simp only [directRequest, Option.ite_none_right_eq_some, Option.some.injEq,
        Prod.mk.injEq] at request
      obtain ⟨⟨_, large⟩, rfl, rfl⟩ := request
      exact ⟨le_rfl, lz_malloc_large thread large⟩
  | memalign thread alignment asked =>
      simp only [directRequest, Option.ite_none_right_eq_some, Option.some.injEq,
        Prod.mk.injEq] at request
      obtain ⟨⟨bound, power, direct⟩, rfl, rfl⟩ := request
      exact ⟨(memalign_offset bound power).1, lz_memalign_large thread power direct⟩
  | free thread ptr => cases request
  | exit thread => cases request
  | gc thread => cases request
  | attach thread => cases request
  | reap tlh => cases request
  | write ptr offset value => cases request

/-- A call that enters the direct engine is safe exactly when its payload ends
at least 2 MB below the word limit, or the operating system refuses the region. -/
theorem large_request_safe_iff (s : State) (call : ApiAct) (offset size : Nat)
    (request : directRequest s call = some (offset, size)) :
    DirectSafe s offset size (allocationOf s call) ↔
      offset + size ≤ 2 ^ 64 - 2 ^ 21 ∨ MmapRefused s offset size := by
  obtain ⟨behind, served⟩ := direct_request_served request
  rw [served]
  exact direct_safe_iff behind

theorem two_megabytes_safe :
    DirectSafe (initial generousEnv 7 true) 128 2097152
      (allocationOf (initial generousEnv 7 true) (.malloc 1 2097152)) :=
  (large_request_safe_iff _ (.malloc 1 2097152) 128 2097152 rfl).mpr (Or.inl (by norm_num))

/-- The largest size is served with 2 MB. -/
theorem largest_size_unsafe :
    ¬DirectSafe (initial generousEnv 7 true) 128 (2 ^ 64 - 1)
      (allocationOf (initial generousEnv 7 true) (.malloc 1 (2 ^ 64 - 1))) := by
  have served : (allocationOf (initial generousEnv 7 true) (.malloc 1 (2 ^ 64 - 1))).map
      (fun result => result.1) = some 4294967424 := by decide +kernel
  obtain ⟨⟨ptr, after⟩, called, pointer⟩ := Option.map_eq_some_iff.mp served
  simp only at pointer
  rw [called]
  rintro (null | ⟨header, length, placed⟩)
  · omega
  · have unwrapped := placed.unwrapped
    omega

end Lzmalloc.DirectContracts
