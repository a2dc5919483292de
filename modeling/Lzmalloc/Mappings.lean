import Lzmalloc.PublicApi

/-!
# Aligned regions from the operating system

Extents and direct objects are mapped the same way: 2 MB more than needed, then
the ends are trimmed. What is left is exactly the aligned region that was asked
for, and everything mapped before is as it was.
-/

namespace Lzmalloc.Mappings

open SizeClasses HeapState VirtualMemoryManager ByteMemory PublicApi

set_option autoImplicit false

variable {s after : State} {start length : Nat}

/-- `after` has `[start, start + length)` mapped in addition to what `s` had. -/
structure MapsFresh (s after : State) (start length : Nat) : Prop where
  aligned : start % 2097152 = 0
  positive : 0 < start
  bound : start + length ≤ 2 ^ 48
  mapped : ∀ address, Mapped after.regions address ↔
    Mapped s.regions address ∨ start ≤ address ∧ address < start + length
  fresh : ∀ address, start ≤ address → address < start + length → ¬Mapped s.regions address
  freshStart : ¬Mapped s.regions start
  rest : after =
    { s with
      regions := after.regions
      mem := after.mem
      regionCalls := after.regionCalls
      vmm := { s.vmm with header := after.vmm.header, next := after.vmm.next } }
  mem : ∀ address, Mapped s.regions address → after.mem address = s.mem address
  header : ∀ address, Mapped s.regions address → after.vmm.header address = s.vmm.header address
  next : ∀ address, Mapped s.regions address → after.vmm.next address = s.vmm.next address

structure Mmapped (s after : State) (raw length : Nat) : Prop where
  valid : MmapValid s.regions raw length
  regions : after.regions = (raw, length) :: s.regions
  rest : after =
    { s with
      regions := after.regions
      mem := after.mem
      regionCalls := after.regionCalls
      vmm := { s.vmm with header := after.vmm.header, next := after.vmm.next } }
  mem : ∀ address, ¬(raw ≤ address ∧ address < raw + length) → after.mem address = s.mem address
  header : ∀ address, ¬(raw ≤ address ∧ address < raw + length) →
    after.vmm.header address = s.vmm.header address
  next : ∀ address, ¬(raw ≤ address ∧ address < raw + length) →
    after.vmm.next address = s.vmm.next address

theorem mmap_cases (s : State) (length : Nat) :
    (mmap s length = (none, { s with regionCalls := s.regionCalls + 1 })) ∨
      ∃ raw after, mmap s length = (some raw, after) ∧ Mmapped s after raw length := by
  unfold mmap
  cases s.env.regionMmap s.regionCalls with
  | none => exact Or.inl rfl
  | some raw =>
      by_cases valid : MmapValid s.regions raw length
      · refine Or.inr ⟨raw, _, if_pos valid, valid, rfl, rfl, ?_, ?_, ?_⟩
        · intro address outside
          exact fill_outside s.mem (by omega)
        · intro address outside
          exact if_neg outside
        · intro address outside
          exact if_neg outside
      · exact Or.inl (if_neg valid)

theorem mapped_cons (raw length address : Nat) (regions : List (Nat × Nat)) :
    Mapped ((raw, length) :: regions) address ↔
      raw ≤ address ∧ address < raw + length ∨ Mapped regions address := by
  simp [Mapped]

theorem mmapped_apart {raw address : Nat} (mapped : Mmapped s after raw length)
    (known : Mapped s.regions address) : ¬(raw ≤ address ∧ address < raw + length) := by
  obtain ⟨region, member, lower, upper⟩ := known
  have disjoint := mapped.valid.2.2.2.2 region member
  omega

theorem maps_fresh_trim {trimmed : State} {raw request : Nat}
    (mapped : Mmapped s after raw request) (aligned : start % 2097152 = 0) (lower : raw ≤ start)
    (inside : start < raw + request) (upper : start + length ≤ raw + request)
    (only : trimmed = { after with regions := trimmed.regions })
    (trim : ∀ address, Mapped trimmed.regions address ↔ Mapped after.regions address ∧
      (raw ≤ address → address < raw + request → start ≤ address ∧ address < start + length)) :
    MapsFresh s trimmed start length := by
  obtain ⟨_, positive, _, limit, _⟩ := mapped.valid
  simp only [addressLimit] at limit
  have outside : ∀ address, Mapped s.regions address →
      ¬(raw ≤ address ∧ address < raw + request) := fun _ known => mmapped_apart mapped known
  refine ⟨aligned, by omega, by omega, fun address => ?_, fun address first last known => ?_,
    fun known => outside start known ⟨lower, inside⟩, ?_, ?_, ?_, ?_⟩
  · rw [trim address, mapped.regions, mapped_cons]
    constructor
    · rintro ⟨⟨first, last⟩ | known, inside⟩
      · exact Or.inr (inside first last)
      · exact Or.inl known
    · rintro (known | ⟨first, last⟩)
      · refine ⟨Or.inr known, fun first last => absurd ⟨first, last⟩ (outside address known)⟩
      · exact ⟨Or.inl ⟨by omega, by omega⟩, fun _ _ => ⟨first, last⟩⟩
  · exact outside address known ⟨by omega, by omega⟩
  · rw [only, mapped.rest]
  · intro address known
    rw [only]
    exact mapped.mem address (outside address known)
  · intro address known
    rw [only]
    exact mapped.header address (outside address known)
  · intro address known
    rw [only]
    exact mapped.next address (outside address known)

theorem lz_sys_alloc_huge_aligned_cases (s : State) {total : Nat} (multiple : total % 2097152 = 0)
    (bound : total < 2 ^ 64) :
    lzSysAllocHugeAligned s total = (none, { s with regionCalls := s.regionCalls + 1 }) ∨
      ∃ start after, lzSysAllocHugeAligned s total = (some start, after) ∧
        MapsFresh s after start total := by
  unfold lzSysAllocHugeAligned
  rcases mmap_cases s ((total + lzHugePageSize) % 2 ^ 64) with failed | ⟨raw, after, done, mapped⟩
  · left
    simp only [failed]
  · right
    obtain ⟨_, _, nonempty, limit, _⟩ := mapped.valid
    simp only [lzHugePageSize, addressLimit] at nonempty limit
    have request : (total + lzHugePageSize) % 2 ^ 64 = total + 2097152 := by
      simp only [lzHugePageSize]
      omega
    rw [request] at done mapped
    simp only [request, done]
    by_cases aligned : raw % 2097152 = 0
    · refine ⟨raw, _, if_pos aligned, ?_⟩
      refine maps_fresh_trim mapped aligned le_rfl (by omega) (by omega) rfl fun address => ?_
      rw [mapped_munmap]
      refine and_congr_right fun _ => ?_
      simp only [lzHugePageSize]
      omega
    · have small : raw + (2097152 - 1) < 2 ^ 64 := by omega
      have lower := lz_align_up_le (by norm_num) small
      have upper := lz_align_up_lt (by norm_num) small
      have divides := Nat.mod_eq_zero_of_dvd
        (lz_align_up_dvd raw (by decide : isPowerOfTwo 2097152 = true))
      have hole : lzAlignUp raw lzHugePageSize - raw > 0 := by
        simp only [lzHugePageSize]
        omega
      have tail : total + 2097152 - (lzAlignUp raw lzHugePageSize - raw) - total > 0 := by
        simp only [lzHugePageSize]
        omega
      refine ⟨lzAlignUp raw lzHugePageSize,
        munmap (munmap after raw (lzAlignUp raw lzHugePageSize - raw))
          (lzAlignUp raw lzHugePageSize + total)
          (total + 2097152 - (lzAlignUp raw lzHugePageSize - raw) - total), ?_, ?_⟩
      · have shifted : ¬raw % lzHugePageSize = 0 := aligned
        rw [if_neg shifted, if_pos hole, if_pos tail]
      · refine maps_fresh_trim mapped divides lower (by omega) (by omega) rfl fun address => ?_
        rw [mapped_munmap, mapped_munmap, and_assoc]
        refine and_congr_right fun _ => ?_
        simp only [lzHugePageSize]
        omega

/-- `sys_alloc_extent` maps its region the way direct objects are mapped. -/
theorem map_extent_eq (s : State) : mapExtent s = lzSysAllocHugeAligned s lzExtentSize := by
  have request : (lzExtentSize + lzHugePageSize) % 2 ^ 64 = lzExtentSize + lzHugePageSize := rfl
  unfold mapExtent lzSysAllocHugeAligned
  rw [request]
  rcases mmap_cases s (lzExtentSize + lzHugePageSize) with failed | ⟨raw, after, done, _⟩
  · simp only [failed]
  · simp only [done]
    by_cases aligned : raw % lzHugePageSize = 0
    · rw [if_neg (not_not.mpr aligned), if_pos aligned]
    · rw [if_pos aligned, if_neg aligned]

theorem map_extent_cases (s : State) :
    mapExtent s = (none, { s with regionCalls := s.regionCalls + 1 }) ∨
      ∃ start after, mapExtent s = (some start, after) ∧ MapsFresh s after start 67108864 := by
  rw [map_extent_eq]
  exact lz_sys_alloc_huge_aligned_cases s (by norm_num) (by norm_num)

end Lzmalloc.Mappings
