import Mathlib.Data.Nat.Log
import Mathlib.Data.Nat.Bitwise
import Mathlib.Order.Bounds.Basic
import Mathlib.Tactic.NormNum
import Mathlib.Tactic.Ring
import Mathlib.Tactic.IntervalCases

/-!
# Build constants and size classes

The constants are those of the default Linux x86_64 profile of
`CMakeLists.txt`. Sizes are 64-bit, so every addition that the source performs
on a `size_t` is reduced modulo `2 ^ 64` here. The size class functions follow
`sizes.h`: sixteen byte steps up to 128, then four steps per power of two.
-/

namespace Lzmalloc.SizeClasses

set_option autoImplicit false

@[simp] def lzCacheLineSize : Nat := 64
@[simp] def lzPageSize : Nat := 4096
@[simp] def lzHugePageSize : Nat := 2097152
@[simp] def lzMaxNumaNodes : Nat := 16
@[simp] def lzVmmMaxCachedChunks : Nat := 32
@[simp] def lzBatchMaxSize : Nat := 64
@[simp] def lzMaxTelemetrySlots : Nat := 4096
@[simp] def lzThreadSlotBaseIdx : Nat := 1
@[simp] def lzMaxSlabObjSize : Nat := 32768
@[simp] def lzMaxSpanObjSize : Nat := 1048576
@[simp] def lzMinAllocSize : Nat := 16
@[simp] def lzSmallLinearMax : Nat := 128

/-- User addresses; `mmap` answers and the radix tree live below this bound. -/
@[simp] def addressLimit : Nat := 2 ^ 48

/-- `LZ_ALIGN_UP` on 64-bit operands. -/
def lzAlignUp (size align : Nat) : Nat :=
  let mask := BitVec.ofNat 64 align - 1
  ((BitVec.ofNat 64 size + mask) &&& ~~~mask).toNat

/-- `ptr & ~((1 << LZ_CHUNK_SHIFT) - 1)`. -/
def chunkBase (address : Nat) : Nat := address - address % lzHugePageSize

/-- `is_power_of_two`. -/
def isPowerOfTwo (x : Nat) : Bool := x != 0 && x &&& (x - 1) == 0

/-- Index of the most significant bit; `lz_fls`. -/
def lzFls (x : Nat) : Nat := if x = 0 then 0 else Nat.log2 x

def lzSizeToClass (size : Nat) : Nat :=
  if size ≤ lzMinAllocSize then 0
  else
    let s := size - 1
    if s < lzSmallLinearMax then (s >>> 4) % 2 ^ 32
    else
      let msb := lzFls s
      let shift := msb - 2
      let base := (msb - 7) <<< 2
      let offset := (s >>> shift) &&& 3
      8 + base + offset

def lzClassToSize (classIdx : Nat) : Nat :=
  if classIdx < 8 then (classIdx + 1) <<< 4
  else
    let baseIdx := classIdx - 8
    let group := baseIdx >>> 2
    let shift := group + 5
    let offset := baseIdx &&& 3
    ((5 + offset) <<< shift) % 2 ^ 64

theorem chunk_base_mod (address : Nat) : chunkBase address % 2097152 = 0 := by
  simp only [chunkBase, lzHugePageSize]
  omega

theorem chunk_base_le (address : Nat) : chunkBase address ≤ address := by
  simp only [chunkBase]
  omega

theorem lt_chunk_base_add (address : Nat) : address < chunkBase address + 2097152 := by
  simp only [chunkBase, lzHugePageSize]
  omega

theorem chunk_base_eq {base address : Nat} (aligned : base % 2097152 = 0)
    (lower : base ≤ address) (upper : address < base + 2097152) : chunkBase address = base := by
  simp only [chunkBase, lzHugePageSize]
  omega

theorem is_power_of_two_eq {x : Nat} (power : isPowerOfTwo x = true) : ∃ k, x = 2 ^ k := by
  simp only [isPowerOfTwo, Bool.and_eq_true, bne_iff_ne, ne_eq, beq_iff_eq] at power
  exact (Nat.and_sub_one_eq_zero_iff_isPowerOfTwo power.1).mp power.2

theorem and_not_eq_sub (word mask : BitVec 64) : word &&& ~~~mask = word - (word &&& mask) := by
  have apart : word &&& ~~~mask &&& (word &&& mask) = 0#64 := by
    ext i
    cases bit : word[i] <;> simp [bit]
  have whole : (word &&& ~~~mask ||| word &&& mask) = word := by
    ext i
    cases bit : word[i] <;> simp [bit]
  have sum := BitVec.add_eq_or_of_and_eq_zero _ _ apart
  rw [whole] at sum
  exact BitVec.eq_sub_iff_add_eq.mpr sum

theorem lz_align_up_bits {size align : Nat} (positive : 0 < align) (small : align ≤ 2 ^ 64) :
    lzAlignUp size align = (size + (align - 1)) % 2 ^ 64 -
      ((size + (align - 1)) % 2 ^ 64 &&& (align - 1)) := by
  have mask : (BitVec.ofNat 64 align - 1).toNat = align - 1 := by
    rw [BitVec.toNat_sub, BitVec.toNat_ofNat]
    simp only [BitVec.ofNat_eq_ofNat, BitVec.toNat_ofNat]
    omega
  simp only [lzAlignUp]
  rw [and_not_eq_sub, BitVec.toNat_sub_of_le]
  · simp only [BitVec.toNat_and, BitVec.toNat_add, mask, BitVec.toNat_ofNat, Nat.mod_add_mod]
  · rw [BitVec.le_def, BitVec.toNat_and]
    exact Nat.and_le_left

theorem lz_align_up_zero (size : Nat) : lzAlignUp size 0 = 0 := by
  have clear : ~~~(BitVec.ofNat 64 0 - 1) = 0#64 := by decide
  simp only [lzAlignUp]
  rw [clear, BitVec.and_zero, BitVec.toNat_zero]

theorem lz_align_up_eq (size : Nat) {align : Nat} (power : isPowerOfTwo align = true) :
    lzAlignUp size align =
      (size + (align - 1)) % 2 ^ 64 - (size + (align - 1)) % 2 ^ 64 % align := by
  obtain ⟨k, rfl⟩ := is_power_of_two_eq power
  by_cases small : k < 64
  · rw [lz_align_up_bits (Nat.two_pow_pos k) (Nat.pow_le_pow_right (by norm_num) small.le),
      Nat.and_two_pow_sub_one_eq_mod]
  · have wide : BitVec.ofNat 64 (2 ^ k) = 0 := by
      rw [BitVec.ofNat_eq_ofNat]
      apply BitVec.eq_of_toNat_eq
      rw [BitVec.toNat_ofNat]
      exact Nat.mod_eq_zero_of_dvd (Nat.pow_dvd_pow 2 (by omega))
    have large : 2 ^ 64 ≤ 2 ^ k := Nat.pow_le_pow_right (by norm_num) (by omega)
    have below : (size + (2 ^ k - 1)) % 2 ^ 64 < 2 ^ k :=
      lt_of_lt_of_le (Nat.mod_lt _ (by norm_num)) large
    rw [Nat.mod_eq_of_lt below, Nat.sub_self]
    exact (congrArg (fun align => ((BitVec.ofNat 64 size + (align - 1)) &&& ~~~(align - 1)).toNat)
      wide).trans (lz_align_up_zero size)

theorem lz_align_up_page (size : Nat) :
    lzAlignUp size 4096 = (size + 4095) % 2 ^ 64 - (size + 4095) % 2 ^ 64 % 4096 :=
  lz_align_up_eq size (by decide)

theorem lz_align_up_huge (size : Nat) :
    lzAlignUp size 2097152 = (size + 2097151) % 2 ^ 64 - (size + 2097151) % 2 ^ 64 % 2097152 :=
  lz_align_up_eq size (by decide)

/-- Without wrap-around the macro never goes down, whatever the alignment. -/
theorem lz_align_up_le {size align : Nat} (positive : 0 < align)
    (small : size + (align - 1) < 2 ^ 64) : size ≤ lzAlignUp size align := by
  rw [lz_align_up_bits positive (by omega), Nat.mod_eq_of_lt small]
  have cleared := @Nat.and_le_right (size + (align - 1)) (align - 1)
  omega

theorem lz_align_up_lt {size align : Nat} (positive : 0 < align)
    (small : size + (align - 1) < 2 ^ 64) : lzAlignUp size align < size + align := by
  rw [lz_align_up_bits positive (by omega), Nat.mod_eq_of_lt small]
  omega

theorem lz_align_up_dvd (size : Nat) {align : Nat} (power : isPowerOfTwo align = true) :
    align ∣ lzAlignUp size align := by
  rw [lz_align_up_eq size power]
  exact Nat.dvd_sub_mod _

theorem lz_align_up_of_dvd {size align : Nat} (power : isPowerOfTwo align = true)
    (small : size + (align - 1) < 2 ^ 64) (divides : align ∣ size) :
    lzAlignUp size align = size := by
  obtain ⟨count, rfl⟩ := divides
  have positive : align ≠ 0 := by
    rintro rfl
    exact absurd power (by decide)
  rw [lz_align_up_eq _ power, Nat.mod_eq_of_lt small]
  have remainder : (align * count + (align - 1)) % align = align - 1 := by
    rw [Nat.mul_add_mod]
    exact Nat.mod_eq_of_lt (by omega)
  rw [remainder]
  omega

-- The macro is meant for powers of two: 24 clears bits 0, 1, 2 and 4.
example : lzAlignUp 25 24 = 32 := by decide

private theorem log2_bounds {s : Nat} (nonzero : s ≠ 0) :
    2 ^ Nat.log2 s ≤ s ∧ s < 2 ^ (Nat.log2 s + 1) :=
  ⟨Nat.log2_self_le nonzero, Nat.lt_log2_self⟩

/-- The logarithmic range: with `m` the leading bit of `size - 1` and `q` its
two following bits, the class is `8 + 4 (m - 7) + q`. -/
theorem lz_size_to_class_log {size : Nat} (large : 128 < size) :
    ∃ m q, 7 ≤ m ∧ q < 4 ∧ lzSizeToClass size = 8 + 4 * (m - 7) + q ∧
      (4 + q) * 2 ^ (m - 2) ≤ size - 1 ∧ size - 1 < (5 + q) * 2 ^ (m - 2) := by
  have nonzero : size - 1 ≠ 0 := by omega
  obtain ⟨lower, upper⟩ := log2_bounds nonzero
  have leading : 7 ≤ Nat.log2 (size - 1) := (Nat.le_log2 nonzero).mpr (by omega)
  set m := Nat.log2 (size - 1) with mEq
  have power : 2 ^ m = 4 * 2 ^ (m - 2) := by
    rw [show m = m - 2 + 2 by omega, pow_add, Nat.add_sub_cancel]
    ring
  have powerNext : 2 ^ (m + 1) = 8 * 2 ^ (m - 2) := by
    rw [pow_succ, power]
    ring
  have positive : 0 < 2 ^ (m - 2) := Nat.two_pow_pos _
  have quotientLower : 4 ≤ (size - 1) / 2 ^ (m - 2) :=
    (Nat.le_div_iff_mul_le positive).mpr (by omega)
  have quotientUpper : (size - 1) / 2 ^ (m - 2) < 8 :=
    (Nat.div_lt_iff_lt_mul positive).mpr (by omega)
  refine ⟨m, (size - 1) / 2 ^ (m - 2) - 4, leading, by omega, ?_, ?_, ?_⟩
  · have notSmall : ¬size ≤ lzMinAllocSize := by
      simp only [lzMinAllocSize]
      omega
    have notLinear : ¬size - 1 < lzSmallLinearMax := by
      simp only [lzSmallLinearMax]
      omega
    have fls : lzFls (size - 1) = m := by rw [lzFls, if_neg nonzero]
    have masked : (size - 1) / 2 ^ (m - 2) &&& 3 = (size - 1) / 2 ^ (m - 2) - 4 := by
      rw [show (3 : Nat) = 2 ^ 2 - 1 by norm_num, Nat.and_two_pow_sub_one_eq_mod]
      omega
    simp only [lzSizeToClass, if_neg notSmall, if_neg notLinear, fls, Nat.shiftRight_eq_div_pow,
      masked, Nat.shiftLeft_eq]
    omega
  · rw [show 4 + ((size - 1) / 2 ^ (m - 2) - 4) = (size - 1) / 2 ^ (m - 2) by omega]
    exact Nat.div_mul_le_self _ _
  · rw [show 5 + ((size - 1) / 2 ^ (m - 2) - 4) = (size - 1) / 2 ^ (m - 2) + 1 by omega,
      Nat.add_mul, Nat.one_mul]
    exact Nat.lt_div_mul_add positive

theorem lz_class_to_size_log {m q : Nat} (leading : 7 ≤ m) (bound : m ≤ 62) (step : q < 4) :
    lzClassToSize (8 + 4 * (m - 7) + q) = (5 + q) * 2 ^ (m - 2) := by
  have notLinear : ¬8 + 4 * (m - 7) + q < 8 := by omega
  have baseIdx : 8 + 4 * (m - 7) + q - 8 = 4 * (m - 7) + q := by omega
  have group : (4 * (m - 7) + q) / 2 ^ 2 + 5 = m - 2 := by omega
  have offset : (4 * (m - 7) + q) &&& 3 = q := by
    rw [show (3 : Nat) = 2 ^ 2 - 1 by norm_num, Nat.and_two_pow_sub_one_eq_mod]
    omega
  have small : (5 + q) * 2 ^ (m - 2) < 2 ^ 64 := by
    have power : 2 ^ (m - 2) ≤ 2 ^ 60 := Nat.pow_le_pow_right (by norm_num) (by omega)
    have product : (5 + q) * 2 ^ (m - 2) ≤ 8 * 2 ^ 60 := Nat.mul_le_mul (by omega) power
    omega
  simp only [lzClassToSize, if_neg notLinear, baseIdx, Nat.shiftRight_eq_div_pow, group, offset,
    Nat.shiftLeft_eq]
  exact Nat.mod_eq_of_lt small

theorem lz_size_to_class_linear {size : Nat} (small : size ≤ 128) :
    lzSizeToClass size = (size - 1) / 16 := by
  by_cases tiny : size ≤ 16
  · simp only [lzSizeToClass, lzMinAllocSize, if_pos tiny]
    omega
  · have linear : size - 1 < 128 := by omega
    simp only [lzSizeToClass, lzMinAllocSize, if_neg tiny, lzSmallLinearMax, if_pos linear,
      Nat.shiftRight_eq_div_pow]
    omega

theorem size_le_class_size {size : Nat} (bound : size ≤ 2 ^ 63) :
    size ≤ lzClassToSize (lzSizeToClass size) := by
  by_cases small : size ≤ 128
  · have linear : (size - 1) / 16 < 8 := by omega
    rw [lz_size_to_class_linear small]
    simp only [lzClassToSize, if_pos linear, Nat.shiftLeft_eq]
    omega
  · obtain ⟨m, q, leading, step, classEq, lower, upper⟩ :=
      lz_size_to_class_log (by omega : 128 < size)
    have powerBound : 2 ^ m < 2 ^ 63 := by
      have split : 2 ^ m = 4 * 2 ^ (m - 2) := by
        rw [show m = m - 2 + 2 by omega, pow_add, Nat.add_sub_cancel]
        ring
      have scaled : 4 * 2 ^ (m - 2) ≤ (4 + q) * 2 ^ (m - 2) :=
        Nat.mul_le_mul_right _ (by omega)
      omega
    have mBound : m < 63 := (Nat.pow_lt_pow_iff_right (by norm_num)).mp powerBound
    rw [classEq, lz_class_to_size_log leading (by omega) step]
    omega

theorem slab_class_bound {size : Nat} (bound : size ≤ 32768) : lzSizeToClass size < 40 := by
  by_cases small : size ≤ 128
  · rw [lz_size_to_class_linear small]
    omega
  · obtain ⟨m, q, leading, step, classEq, lower, _⟩ :=
      lz_size_to_class_log (by omega : 128 < size)
    have mBound : m < 15 := by
      by_contra large
      have power : 2 ^ 13 ≤ 2 ^ (m - 2) := Nat.pow_le_pow_right (by norm_num) (by omega)
      have scaled : 4 * 2 ^ 13 ≤ (4 + q) * 2 ^ (m - 2) := Nat.mul_le_mul (by omega) power
      omega
    omega

theorem slab_block_size {classIdx : Nat} (bound : classIdx < 40) :
    lzClassToSize classIdx % 16 = 0 ∧ 16 ≤ lzClassToSize classIdx ∧
      lzClassToSize classIdx ≤ 32768 := by
  have checked : ∀ index < 40, lzClassToSize index % 16 = 0 ∧ 16 ≤ lzClassToSize index ∧
      lzClassToSize index ≤ 32768 := by decide
  exact checked classIdx bound

/-! ## Exact fit -/

/-- The class before the one with leading bit `m` and following bits `q`, across
the group boundaries and the seam to the linear classes. -/
theorem lz_class_to_size_pred {m q : Nat} (leading : 7 ≤ m) (bound : m ≤ 62) (step : q < 4) :
    lzClassToSize (7 + 4 * (m - 7) + q) = (4 + q) * 2 ^ (m - 2) := by
  cases q with
  | zero =>
      by_cases seam : m = 7
      · subst seam
        rfl
      · have index : 7 + 4 * (m - 7) + 0 = 8 + 4 * (m - 1 - 7) + 3 := by omega
        have power : 2 ^ (m - 2) = 2 * 2 ^ (m - 1 - 2) := by
          rw [show m - 2 = m - 1 - 2 + 1 by omega, pow_succ, Nat.mul_comm]
        rw [index, lz_class_to_size_log (by omega) (by omega) (by omega), power]
        ring
  | succ q =>
      have index : 7 + 4 * (m - 7) + (q + 1) = 8 + 4 * (m - 7) + q := by omega
      rw [index, lz_class_to_size_log leading bound (by omega)]
      ring

theorem class_size_lt_next {k : Nat} (bound : k < 231) :
    lzClassToSize k < lzClassToSize (k + 1) := by
  by_cases linear : k < 7
  · have here : k < 8 := by omega
    have next : k + 1 < 8 := by omega
    simp only [lzClassToSize, if_pos here, if_pos next, Nat.shiftLeft_eq]
    omega
  · obtain ⟨m, mEq⟩ : ∃ m, m = 7 + (k - 7) / 4 := ⟨_, rfl⟩
    obtain ⟨q, qEq⟩ : ∃ q, q = (k - 7) % 4 := ⟨_, rfl⟩
    have here : k = 7 + 4 * (m - 7) + q := by omega
    have next : k + 1 = 8 + 4 * (m - 7) + q := by omega
    rw [next, lz_class_to_size_log (by omega) (by omega) (by omega), here,
      lz_class_to_size_pred (by omega) (by omega) (by omega)]
    exact Nat.mul_lt_mul_of_pos_right (by omega) (Nat.two_pow_pos _)

theorem class_size_lt {j k : Nat} (before : j < k) (bound : k ≤ 231) :
    lzClassToSize j < lzClassToSize k := by
  induction k, before using Nat.le_induction with
  | base => exact class_size_lt_next (by omega)
  | succ k _ ih => exact (ih (by omega)).trans (class_size_lt_next (by omega))

theorem class_size_bounds {k : Nat} (bound : k ≤ 231) :
    1 ≤ lzClassToSize k ∧ lzClassToSize k ≤ 2 ^ 63 := by
  constructor
  · cases k with
    | zero => decide
    | succ k => exact Nat.one_le_of_lt (class_size_lt (Nat.zero_lt_succ k) bound)
  · have last : lzClassToSize 231 = 2 ^ 63 := by decide +kernel
    by_cases top : k = 231
    · rw [top, last]
    · rw [← last]
      exact (class_size_lt (by omega) le_rfl).le

theorem size_class_tight {size : Nat} (positive : 1 ≤ size) (bound : size ≤ 2 ^ 63) :
    lzSizeToClass size ≤ 231 ∧
      (lzSizeToClass size ≠ 0 → lzClassToSize (lzSizeToClass size - 1) < size) ∧
      (128 < size → 4 * (lzClassToSize (lzSizeToClass size) - size) < size) := by
  by_cases small : size ≤ 128
  · rw [lz_size_to_class_linear small]
    constructor
    · omega
    constructor
    · intro later
      have linear : (size - 1) / 16 - 1 < 8 := by omega
      simp only [lzClassToSize, if_pos linear, Nat.shiftLeft_eq]
      omega
    · intro large
      omega
  · obtain ⟨m, q, leading, step, classEq, lower, upper⟩ :=
      lz_size_to_class_log (by omega : 128 < size)
    have mBound : m ≤ 62 := by
      by_contra large
      have power : 2 ^ 61 ≤ 2 ^ (m - 2) := Nat.pow_le_pow_right (by norm_num) (by omega)
      have scaled : 4 * 2 ^ 61 ≤ (4 + q) * 2 ^ (m - 2) := Nat.mul_le_mul (by omega) power
      omega
    have before : lzSizeToClass size - 1 = 7 + 4 * (m - 7) + q := by omega
    rw [before, classEq, lz_class_to_size_pred leading mBound step,
      lz_class_to_size_log leading mBound step]
    have width : (5 + q) * 2 ^ (m - 2) = (4 + q) * 2 ^ (m - 2) + 2 ^ (m - 2) := by ring
    have quarter : 4 * 2 ^ (m - 2) ≤ (4 + q) * 2 ^ (m - 2) := Nat.mul_le_mul_right _ (by omega)
    constructor
    · omega
    constructor
    · intro _
      omega
    · intro _
      omega

theorem size_class_least {size : Nat} (positive : 1 ≤ size) (bound : size ≤ 2 ^ 63) :
    IsLeast { k | size ≤ lzClassToSize k } (lzSizeToClass size) := by
  obtain ⟨range, before, _⟩ := size_class_tight positive bound
  constructor
  · exact size_le_class_size bound
  · intro k fits
    have room : size ≤ lzClassToSize k := fits
    apply Nat.le_of_not_lt
    intro earlier
    have short := before (by omega)
    by_cases last : k = lzSizeToClass size - 1
    · rw [← last] at short
      omega
    · have smaller := class_size_lt (by omega : k < lzSizeToClass size - 1) (by omega)
      omega

/-- The classes of the sizes from 1 to `2 ^ 63`. -/
def reachedClasses : Set Nat := lzSizeToClass '' Set.Icc 1 (2 ^ 63)

theorem reached_class_bound {k : Nat} (reached : k ∈ reachedClasses) : k ≤ 231 := by
  obtain ⟨size, range, rfl⟩ := reached
  exact (size_class_tight range.1 range.2).1

/-- The size classes are an exact fit: the class of a size is the first one with
room for it, the two functions are inverse to one another, and above 128 bytes
less than a quarter of the size is wasted. -/
theorem size_classes_exact_fit :
    (∀ size, 1 ≤ size → size ≤ 2 ^ 63 →
      IsLeast { k | size ≤ lzClassToSize k } (lzSizeToClass size) ∧
        (128 < size → 4 * (lzClassToSize (lzSizeToClass size) - size) < size)) ∧
    StrictMonoOn lzClassToSize reachedClasses ∧
    ∀ k ∈ reachedClasses, lzSizeToClass (lzClassToSize k) = k := by
  constructor
  · intro size positive bound
    exact ⟨size_class_least positive bound, (size_class_tight positive bound).2.2⟩
  constructor
  · intro j _ k reached before
    exact class_size_lt before (reached_class_bound reached)
  · intro k reached
    have bound := reached_class_bound reached
    obtain ⟨positive, short⟩ := class_size_bounds bound
    have itself : IsLeast { other | lzClassToSize k ≤ lzClassToSize other } k := by
      constructor
      · exact le_refl (lzClassToSize k)
      · intro other fits
        apply Nat.le_of_not_lt
        intro earlier
        exact absurd (class_size_lt earlier bound) (Nat.not_lt.mpr fits)
    exact (size_class_least positive short).unique itself

/-- The first size behind the linear classes goes to the class of 160 bytes. -/
theorem size_classes_exact_fit_seam :
    IsLeast { k | 129 ≤ lzClassToSize k } 8 ∧ 4 * (160 - 129) < 129 := by
  obtain ⟨least, waste⟩ := size_classes_exact_fit.1 129 (by decide) (by decide)
  have index : lzSizeToClass 129 = 8 := by decide
  have length : lzClassToSize 8 = 160 := by decide
  rw [index] at least waste
  rw [length] at waste
  exact ⟨least, waste (by decide)⟩

end Lzmalloc.SizeClasses
