import Lzmalloc.BootstrapAllocator

/-!
# Hooks over the bootstrap allocator

`lz_base_malloc_aligned` as one call, for any 64-bit size. The size is rounded,
the payload aligned and the two are added modulo `2 ^ 64`, and only the wrapped
sum is compared with the length of the array.
-/

namespace Lzmalloc.PosixHooks

open SizeClasses BootstrapAllocator

set_option autoImplicit false

/-- The end of a call: the trap, a header store outside the array, or the pointer
and the new `g_base_offset`. -/
inductive BaseResult
  | trap
  | fault
  | returned (ptr offset : Nat)
  deriving DecidableEq

def baseAlign (alignment : Nat) : Nat :=
  if alignment < lzAbiAlignment then lzAbiAlignment else alignment

def baseExactSize (size : Nat) : Nat := if size = 0 then lzAbiAlignment else size

def basePayloadAddr (heap : BaseHeap) (currentOffset alignment : Nat) : Nat :=
  lzAlignUp ((heap.address + currentOffset + baseHeaderSize) % 2 ^ 64) (baseAlign alignment)

def baseAlignedOffset (heap : BaseHeap) (currentOffset alignment : Nat) : Nat :=
  (basePayloadAddr heap currentOffset alignment + (2 ^ 64 - baseHeaderSize) +
    (2 ^ 64 - heap.address)) % 2 ^ 64

def baseTotalSize (size : Nat) : Nat := lzAlignUp (baseExactSize size) lzAbiAlignment

def baseNextOffset (heap : BaseHeap) (currentOffset alignment size : Nat) : Nat :=
  (baseAlignedOffset heap currentOffset alignment + baseHeaderSize + baseTotalSize size) % 2 ^ 64

/-- A call whose compare-exchange succeeds on `currentOffset`. The only access to
memory is the store of the eight bytes of `header->exact_size`. -/
def lzBaseMallocAligned (heap : BaseHeap) (currentOffset alignment size : Nat) : BaseResult :=
  let next := baseNextOffset heap currentOffset alignment size
  let header := baseAlignedOffset heap currentOffset alignment
  if next > lzBaseHeapSize then .trap
  else if header + 8 > lzBaseHeapSize then .fault
  else .returned (heap.address + header + baseHeaderSize) next

/-- The steps of the interleaved model compute the same offsets. -/
theorem base_malloc_of_request (heap : BaseHeap) (request : BaseRequest) {currentOffset : Nat}
    (inside : currentOffset ≤ lzBaseHeapSize) :
    lzBaseMallocAligned heap currentOffset request.alignment request.size =
      if nextOffset heap request currentOffset > lzBaseHeapSize then .trap
      else
        .returned (heap.address + alignedOffset heap request currentOffset + baseHeaderSize)
          (nextOffset heap request currentOffset) := by
  obtain ⟨_, exact, _⟩ := reservation_spec heap request inside
  have fields : baseNextOffset heap currentOffset request.alignment request.size =
      nextOffset heap request currentOffset ∧
      baseAlignedOffset heap currentOffset request.alignment =
        alignedOffset heap request currentOffset := ⟨rfl, rfl⟩
  simp only [lzBaseMallocAligned, fields]
  split
  · rfl
  · next fits =>
      have header : ¬alignedOffset heap request currentOffset + 8 > lzBaseHeapSize := by omega
      rw [if_neg header]

/-! ## Rounding without wrap-around -/

/-- The mathematical value of `LZ_ALIGN_UP`. -/
def roundUp (size align : Nat) : Nat := size + (align - 1) - (size + (align - 1) &&& (align - 1))

theorem round_up_le (size align : Nat) : size ≤ roundUp size align := by
  have cleared := @Nat.and_le_right (size + (align - 1)) (align - 1)
  unfold roundUp
  omega

theorem round_up_sixteen (size : Nat) : roundUp size 16 = size + 15 - (size + 15) % 16 := by
  rw [roundUp, ← Nat.and_two_pow_sub_one_eq_mod (size + 15) 4]

variable {heap : BaseHeap} {currentOffset alignment size : Nat}

def payloadPlace (heap : BaseHeap) (currentOffset alignment : Nat) : Nat :=
  roundUp (heap.address + currentOffset + 16) (baseAlign alignment) - heap.address

def payloadEnd (heap : BaseHeap) (currentOffset alignment size : Nat) : Nat :=
  payloadPlace heap currentOffset alignment + roundUp (baseExactSize size) 16

theorem base_align_le (alignment : Nat) : 16 ≤ baseAlign alignment := by
  unfold baseAlign
  split
  · exact le_rfl
  · next large => exact Nat.le_of_not_lt large

/-- The sum under the mask of the payload address stays in the address space. -/
def PayloadExact (heap : BaseHeap) (currentOffset alignment : Nat) : Prop :=
  heap.address + currentOffset + baseHeaderSize + (baseAlign alignment - 1) < 2 ^ 64

instance (heap : BaseHeap) (currentOffset alignment : Nat) :
    Decidable (PayloadExact heap currentOffset alignment) := inferInstanceAs (Decidable (_ < _))

theorem payload_exact_of_power (power : isPowerOfTwo alignment = true) (word : alignment < 2 ^ 64)
    (inside : currentOffset ≤ lzBaseHeapSize) : PayloadExact heap currentOffset alignment := by
  obtain ⟨k, rfl⟩ := is_power_of_two_eq power
  have exponent : k < 64 := (Nat.pow_lt_pow_iff_right (by norm_num)).mp word
  have bound : 2 ^ k ≤ 2 ^ 63 := Nat.pow_le_pow_right (by norm_num) (by omega)
  have align : baseAlign (2 ^ k) ≤ 2 ^ 63 := by
    unfold baseAlign
    split
    · norm_num
    · exact bound
  obtain ⟨_, mapped⟩ := heap.mapped
  simp only [lzBaseHeapSize, addressLimit] at inside mapped
  simp only [PayloadExact, baseHeaderSize]
  omega

theorem base_place_exact (payload : PayloadExact heap currentOffset alignment)
    (inside : currentOffset ≤ lzBaseHeapSize) :
    baseAlignedOffset heap currentOffset alignment + 16 =
        payloadPlace heap currentOffset alignment ∧
      currentOffset + 16 ≤ payloadPlace heap currentOffset alignment ∧
      heap.address + payloadPlace heap currentOffset alignment < 2 ^ 64 := by
  have lower := base_align_le alignment
  obtain ⟨_, mapped⟩ := heap.mapped
  simp only [lzBaseHeapSize, addressLimit] at inside mapped
  simp only [PayloadExact, baseHeaderSize] at payload
  have base : (heap.address + currentOffset + baseHeaderSize) % 2 ^ 64 =
      heap.address + currentOffset + 16 := Nat.mod_eq_of_lt (by simp only [baseHeaderSize]; omega)
  have exact : basePayloadAddr heap currentOffset alignment =
      roundUp (heap.address + currentOffset + 16) (baseAlign alignment) := by
    rw [basePayloadAddr, base, lz_align_up_bits (by omega) (by omega), Nat.mod_eq_of_lt payload]
    rfl
  have above : heap.address + currentOffset + 16 ≤
      roundUp (heap.address + currentOffset + 16) (baseAlign alignment) := round_up_le _ _
  have below : roundUp (heap.address + currentOffset + 16) (baseAlign alignment) ≤
      heap.address + currentOffset + 16 + (baseAlign alignment - 1) := Nat.sub_le _ _
  unfold baseAlignedOffset payloadPlace
  rw [exact]
  simp only [baseHeaderSize]
  omega

theorem base_total_size (word : size < 2 ^ 64) :
    baseTotalSize size = roundUp (baseExactSize size) 16 % 2 ^ 64 ∧
      size ≤ roundUp (baseExactSize size) 16 ∧ roundUp (baseExactSize size) 16 ≤ 2 ^ 64 ∧
      (baseExactSize size + 15 < 2 ^ 64 ↔ roundUp (baseExactSize size) 16 < 2 ^ 64) := by
  have exact : baseExactSize size < 2 ^ 64 ∧ size ≤ baseExactSize size := by
    simp only [baseExactSize, lzAbiAlignment]
    split
    · omega
    · omega
  have rounded := lz_align_up_eq (baseExactSize size) (by decide : isPowerOfTwo 16 = true)
  simp only [baseTotalSize, lzAbiAlignment, rounded, round_up_sixteen]
  omega

theorem base_next_offset (payload : PayloadExact heap currentOffset alignment)
    (sizeWord : size < 2 ^ 64) (inside : currentOffset ≤ lzBaseHeapSize) :
    baseNextOffset heap currentOffset alignment size =
      payloadEnd heap currentOffset alignment size % 2 ^ 64 := by
  obtain ⟨place, _, _⟩ := base_place_exact payload inside
  obtain ⟨total, _⟩ := base_total_size sizeWord
  simp only [baseNextOffset, payloadEnd, baseHeaderSize]
  omega

/-! ## What a returned pointer promises -/

/-- The block lies in the array, the offset is behind it, and no sum has wrapped. -/
structure Promise (heap : BaseHeap) (currentOffset alignment size ptr next : Nat) : Prop where
  inside : heap.address ≤ ptr ∧ ptr + size ≤ heap.address + lzBaseHeapSize
  covered : ptr + size ≤ heap.address + next
  payload : heap.address + currentOffset + baseHeaderSize + (baseAlign alignment - 1) < 2 ^ 64
  rounded : baseExactSize size + (lzAbiAlignment - 1) < 2 ^ 64
  summed : baseAlignedOffset heap currentOffset alignment + baseHeaderSize + baseTotalSize size <
    2 ^ 64

/-- The call traps before it stores anything, or returns a block that it may hand
out. -/
def KeepsPromise (heap : BaseHeap) (currentOffset alignment size : Nat) : Prop :=
  lzBaseMallocAligned heap currentOffset alignment size ≠ .fault ∧
    ∀ ptr next, lzBaseMallocAligned heap currentOffset alignment size = .returned ptr next →
      Promise heap currentOffset alignment size ptr next

/-- The end of the payload is at most the length of the array beyond `2 ^ 64`. -/
def WrapsIntoHeap (heap : BaseHeap) (currentOffset alignment size : Nat) : Prop :=
  2 ^ 64 ≤ payloadEnd heap currentOffset alignment size ∧
    payloadEnd heap currentOffset alignment size ≤ 2 ^ 64 + lzBaseHeapSize

instance (heap : BaseHeap) (currentOffset alignment size : Nat) :
    Decidable (WrapsIntoHeap heap currentOffset alignment size) :=
      inferInstanceAs (Decidable (_ ∧ _))

theorem promise_of_exact (payload : PayloadExact heap currentOffset alignment)
    (sizeWord : size < 2 ^ 64) (inside : currentOffset ≤ lzBaseHeapSize)
    (exact : payloadEnd heap currentOffset alignment size < 2 ^ 64) :
    KeepsPromise heap currentOffset alignment size := by
  obtain ⟨place, behind, addressed⟩ := base_place_exact payload inside
  obtain ⟨total, covers, _, wraps⟩ := base_total_size sizeWord
  have nextEq := base_next_offset payload sizeWord inside
  rw [Nat.mod_eq_of_lt exact] at nextEq
  unfold payloadEnd at exact nextEq
  unfold KeepsPromise lzBaseMallocAligned
  simp only
  split
  · exact ⟨nofun, nofun⟩
  · next fits =>
      simp only [lzBaseHeapSize] at fits
      -- The header lies before the end of the block, which is inside the array.
      rw [if_neg (by simp only [lzBaseHeapSize]; omega)]
      refine ⟨nofun, fun ptr next returned => ?_⟩
      cases returned
      constructor
      · simp only [baseHeaderSize, lzBaseHeapSize]
        omega
      · simp only [baseHeaderSize]
        omega
      · exact payload
      · exact wraps.mpr (by omega)
      · simp only [baseHeaderSize]
        omega

theorem broken_of_wrap (payload : PayloadExact heap currentOffset alignment)
    (sizeWord : size < 2 ^ 64) (inside : currentOffset ≤ lzBaseHeapSize)
    (wraps : WrapsIntoHeap heap currentOffset alignment size) :
    ¬KeepsPromise heap currentOffset alignment size := by
  obtain ⟨beyond, within⟩ := wraps
  simp only [lzBaseHeapSize] at within
  have nextEq := base_next_offset payload sizeWord inside
  have small : ¬baseNextOffset heap currentOffset alignment size > lzBaseHeapSize := by
    simp only [lzBaseHeapSize]
    omega
  intro ⟨stored, keeps⟩
  simp only [lzBaseMallocAligned, if_neg small] at stored keeps
  split at stored
  · exact stored rfl
  · next header =>
      rw [if_neg header] at keeps
      have promise := keeps _ _ rfl
      obtain ⟨place, _, _⟩ := base_place_exact payload inside
      obtain ⟨total, _, _, exactSum⟩ := base_total_size sizeWord
      have rounded := exactSum.mp promise.rounded
      have summed := promise.summed
      rw [total, Nat.mod_eq_of_lt rounded] at summed
      simp only [baseHeaderSize, payloadEnd] at summed beyond
      omega

theorem promise_of_apart (payload : PayloadExact heap currentOffset alignment)
    (sizeWord : size < 2 ^ 64) (inside : currentOffset ≤ lzBaseHeapSize)
    (apart : ¬WrapsIntoHeap heap currentOffset alignment size) :
    KeepsPromise heap currentOffset alignment size := by
  by_cases exact : payloadEnd heap currentOffset alignment size < 2 ^ 64
  · exact promise_of_exact payload sizeWord inside exact
  · -- The wrapped sum is beyond the array, so the call traps.
    obtain ⟨_, _, addressed⟩ := base_place_exact payload inside
    obtain ⟨_, _, bound, _⟩ := base_total_size sizeWord
    have nextEq := base_next_offset payload sizeWord inside
    have trapped : baseNextOffset heap currentOffset alignment size > lzBaseHeapSize := by
      simp only [WrapsIntoHeap, lzBaseHeapSize] at apart ⊢
      unfold payloadEnd at exact apart nextEq
      omega
    simp only [KeepsPromise, lzBaseMallocAligned, if_pos trapped]
    exact ⟨nofun, nofun⟩

/-- For every offset inside the array, every power of two and every 64-bit size:
the call traps or keeps its promise, unless the end of the payload exceeds
`2 ^ 64` by at most the length of the array. -/
theorem base_malloc_promise_iff (heap : BaseHeap) {currentOffset alignment size : Nat}
    (inside : currentOffset ≤ lzBaseHeapSize) (power : isPowerOfTwo alignment = true)
    (word : alignment < 2 ^ 64) (sizeWord : size < 2 ^ 64) :
    KeepsPromise heap currentOffset alignment size ↔
      ¬WrapsIntoHeap heap currentOffset alignment size := by
  have payload := @payload_exact_of_power heap currentOffset alignment power word inside
  constructor
  · exact fun keeps wraps => broken_of_wrap payload sizeWord inside wraps keeps
  · exact promise_of_apart payload sizeWord inside

def sampleHeap : BaseHeap := ⟨1048576, by decide, by decide⟩

theorem small_request_keeps_promise : KeepsPromise sampleHeap 0 64 100 :=
  (base_malloc_promise_iff sampleHeap (by decide) (by decide) (by decide) (by decide)).mpr
    (by decide)

/-- A request of `2 ^ 64 - 16` bytes is granted without moving the offset. -/
theorem huge_request_granted :
    lzBaseMallocAligned sampleHeap 0 16 (2 ^ 64 - 16) = .returned 1048592 0 ∧
      ¬KeepsPromise sampleHeap 0 16 (2 ^ 64 - 16) := by
  have returned : lzBaseMallocAligned sampleHeap 0 16 (2 ^ 64 - 16) = .returned 1048592 0 := by
    decide +kernel
  constructor
  · exact returned
  · intro keeps
    have covered := (keeps.2 1048592 0 returned).covered
    simp [sampleHeap] at covered

-- With the payload half way up the address space, the header is no byte of the array.
example : lzBaseMallocAligned sampleHeap 0 (2 ^ 63) (2 ^ 63 + 2 ^ 20) = .fault := by decide +kernel

/-! ## The block of a returned pointer -/

theorem base_malloc_block (payload : PayloadExact heap currentOffset alignment)
    (sizeWord : size < 2 ^ 64) (inside : currentOffset ≤ lzBaseHeapSize)
    (apart : ¬WrapsIntoHeap heap currentOffset alignment size) {ptr next : Nat}
    (returned : lzBaseMallocAligned heap currentOffset alignment size = .returned ptr next) :
    heap.address + currentOffset + 16 ≤ ptr ∧ ptr + baseExactSize size ≤ heap.address + next ∧
      next ≤ lzBaseHeapSize := by
  have promise := (promise_of_apart payload sizeWord inside apart).2 ptr next returned
  have summed := promise.summed
  have rounded := promise.rounded
  obtain ⟨place, behind, addressed⟩ := base_place_exact payload inside
  unfold lzBaseMallocAligned at returned
  simp only at returned
  split at returned
  · cases returned
  · next fits =>
      split at returned
      · cases returned
      · cases returned
        have total : baseExactSize size ≤ baseTotalSize size :=
          lz_align_up_le (by decide) rounded
        simp only [baseNextOffset, baseHeaderSize] at fits summed ⊢
        omega

theorem default_request_apart (inside : currentOffset ≤ lzBaseHeapSize) (small : size ≤ 2 ^ 63) :
    PayloadExact heap currentOffset 16 ∧ ¬WrapsIntoHeap heap currentOffset 16 size := by
  have payload : PayloadExact heap currentOffset 16 :=
    payload_exact_of_power (by decide) (by norm_num) inside
  obtain ⟨_, mapped⟩ := heap.mapped
  simp only [lzBaseHeapSize, addressLimit] at mapped inside
  have exact : baseExactSize size ≤ 2 ^ 63 := by
    unfold baseExactSize
    split
    · norm_num
    · exact small
  have align : baseAlign 16 = 16 := rfl
  refine ⟨payload, ?_⟩
  simp only [WrapsIntoHeap, payloadEnd, payloadPlace, align, round_up_sixteen]
  omega

end Lzmalloc.PosixHooks
