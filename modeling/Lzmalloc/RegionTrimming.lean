import Mathlib.Data.List.Pairwise
import Lzmalloc.ChunkCaches
import Lzmalloc.Mappings

/-!
# Trimming a mapping to 2 MB alignment

`lz_sys_alloc_huge_aligned` and `sys_alloc_extent` map 2 MB more than they need
and unmap what lies before and behind the aligned part, each with its own copy
of the arithmetic. Here both are followed in 64-bit arithmetic for every page
aligned answer of `mmap` up to the end of the address space; in the allocator's
state, where answers stay below `2 ^ 48`, they are the functions of the model.
-/

namespace Lzmalloc.RegionTrimming

open SizeClasses HeapState VirtualMemoryManager PublicApi ChunkCaches Mappings

set_option autoImplicit false

/-- Aligned start and the `munmap` calls of `lz_sys_alloc_huge_aligned` when
`mmap` has answered `rawAddr`. -/
def trimHugeAligned (rawAddr totalSize : Nat) : Nat × List (Nat × Nat) :=
  let requestSize := (totalSize + lzHugePageSize) % 2 ^ 64
  if rawAddr % lzHugePageSize = 0 then
    (rawAddr, [((rawAddr + totalSize) % 2 ^ 64, lzHugePageSize)])
  else
    let alignedAddr := lzAlignUp rawAddr lzHugePageSize
    let prefixSize := (alignedAddr + (2 ^ 64 - rawAddr)) % 2 ^ 64
    let suffixSize := (requestSize + (2 ^ 64 - prefixSize) + (2 ^ 64 - totalSize)) % 2 ^ 64
    let before := if prefixSize > 0 then [(rawAddr, prefixSize)] else []
    let behind := if suffixSize > 0 then [((alignedAddr + totalSize) % 2 ^ 64, suffixSize)] else []
    (alignedAddr, before ++ behind)

/-- The same for `sys_alloc_extent`. -/
def trimExtent (rawAddr : Nat) : Nat × List (Nat × Nat) :=
  let requestSize := lzExtentSize + lzHugePageSize
  if rawAddr % lzHugePageSize ≠ 0 then
    let alignedAddr := lzAlignUp rawAddr lzHugePageSize
    let prefixSize := (alignedAddr + (2 ^ 64 - rawAddr)) % 2 ^ 64
    let suffixSize := (requestSize + (2 ^ 64 - prefixSize) + (2 ^ 64 - lzExtentSize)) % 2 ^ 64
    let before := if prefixSize > 0 then [(rawAddr, prefixSize)] else []
    let behind :=
      if suffixSize > 0 then [((alignedAddr + lzExtentSize) % 2 ^ 64, suffixSize)] else []
    (alignedAddr, before ++ behind)
  else (rawAddr, [((rawAddr + lzExtentSize) % 2 ^ 64, lzHugePageSize)])

def munmapAll (s : State) (pieces : List (Nat × Nat)) : State :=
  pieces.foldl (fun s piece => munmap s piece.1 piece.2) s

/-- `mmap` has just added `[rawAddr, rawAddr + length)` to what was mapped. -/
structure JustMapped (s mapped : State) (rawAddr length : Nat) : Prop where
  regions : mapped.regions = (rawAddr, length) :: s.regions
  apart : ∀ address, Mapped s.regions address → ¬(rawAddr ≤ address ∧ address < rawAddr + length)

/-- What is left is the aligned region, and no unmapping reaches outside of what
has just been mapped. -/
structure ExactTrim (s mapped : State) (rawAddr totalSize : Nat)
    (trim : Nat × List (Nat × Nat)) : Prop where
  aligned : trim.1 % lzHugePageSize = 0
  fresh : ∀ address, trim.1 ≤ address → address < trim.1 + totalSize → ¬Mapped s.regions address
  mapped : ∀ address, Mapped (munmapAll mapped trim.2).regions address ↔
    Mapped s.regions address ∨ trim.1 ≤ address ∧ address < trim.1 + totalSize
  within : ∀ piece ∈ trim.2, rawAddr ≤ piece.1 ∧
    piece.1 + piece.2 ≤ rawAddr + (totalSize + lzHugePageSize)

variable {s mapped : State} {rawAddr totalSize : Nat}

theorem mapped_munmap_all (s : State) (pieces : List (Nat × Nat)) (address : Nat) :
    Mapped (munmapAll s pieces).regions address ↔ Mapped s.regions address ∧
      ∀ piece ∈ pieces, ¬(piece.1 ≤ address ∧ address < piece.1 + piece.2) := by
  induction pieces generalizing s with
  | nil => simp [munmapAll]
  | cons piece rest ih =>
      have step : munmapAll s (piece :: rest) = munmapAll (munmap s piece.1 piece.2) rest := rfl
      rw [step, ih, mapped_munmap, List.forall_mem_cons, and_assoc]

theorem exact_trim_of_pieces {trim : Nat × List (Nat × Nat)}
    (just : JustMapped s mapped rawAddr (totalSize + lzHugePageSize))
    (aligned : trim.1 % lzHugePageSize = 0) (lower : rawAddr ≤ trim.1)
    (upper : trim.1 ≤ rawAddr + lzHugePageSize)
    (within : ∀ piece ∈ trim.2, rawAddr ≤ piece.1 ∧
      piece.1 + piece.2 ≤ rawAddr + (totalSize + lzHugePageSize))
    (covered : ∀ address, rawAddr ≤ address → address < rawAddr + (totalSize + lzHugePageSize) →
      ((∀ piece ∈ trim.2, ¬(piece.1 ≤ address ∧ address < piece.1 + piece.2)) ↔
        trim.1 ≤ address ∧ address < trim.1 + totalSize)) :
    ExactTrim s mapped rawAddr totalSize trim := by
  constructor
  · exact aligned
  · intro address first last known
    exact just.apart address known (by omega)
  · intro address
    rw [mapped_munmap_all, just.regions, mapped_cons]
    constructor
    · intro still
      obtain ⟨fresh | known, kept⟩ := still
      · exact Or.inr ((covered address fresh.1 fresh.2).mp kept)
      · exact Or.inl known
    · intro either
      obtain known | ⟨first, last⟩ := either
      · constructor
        · exact Or.inr known
        · intro piece member inside
          have bounds := within piece member
          exact just.apart address known (by omega)
      · constructor
        · exact Or.inl (by omega)
        · exact (covered address (by omega) (by omega)).mpr ⟨first, last⟩
  · exact within

/-- The values of the 64-bit expressions when nothing wraps. -/
theorem trim_values (shifted : rawAddr % lzHugePageSize ≠ 0)
    (bound : rawAddr + totalSize + lzHugePageSize ≤ 2 ^ 64) :
    ∃ hole, 0 < hole ∧ hole < lzHugePageSize ∧
      (rawAddr + hole) % lzHugePageSize = 0 ∧
      lzAlignUp rawAddr lzHugePageSize = rawAddr + hole ∧
      (rawAddr + hole + (2 ^ 64 - rawAddr)) % 2 ^ 64 = hole ∧
      (totalSize + lzHugePageSize + (2 ^ 64 - hole) + (2 ^ 64 - totalSize)) % 2 ^ 64 =
        lzHugePageSize - hole ∧
      (rawAddr + hole + totalSize) % 2 ^ 64 = rawAddr + hole + totalSize := by
  apply Exists.intro (lzHugePageSize - rawAddr % lzHugePageSize)
  simp only [lzHugePageSize, lz_align_up_huge] at *
  omega

theorem trim_huge_aligned_exact
    (just : JustMapped s mapped rawAddr (totalSize + lzHugePageSize)) (positive : 0 < totalSize)
    (bound : rawAddr + totalSize + lzHugePageSize ≤ 2 ^ 64) :
    ExactTrim s mapped rawAddr totalSize (trimHugeAligned rawAddr totalSize) := by
  by_cases aligned : rawAddr % lzHugePageSize = 0
  · have stop : (rawAddr + totalSize) % 2 ^ 64 = rawAddr + totalSize :=
      Nat.mod_eq_of_lt (by simp only [lzHugePageSize] at bound; omega)
    simp only [trimHugeAligned, if_pos aligned, stop]
    apply exact_trim_of_pieces just
    · exact aligned
    · exact le_rfl
    · exact Nat.le_add_right _ _
    · simp only [List.mem_singleton, forall_eq]
      omega
    · intro address lower upper
      simp only [List.mem_singleton, forall_eq]
      omega
  · have request : (totalSize + lzHugePageSize) % 2 ^ 64 = totalSize + lzHugePageSize := by
      simp only [lzHugePageSize] at *
      omega
    obtain ⟨hole, nonempty, short, start, alignedEq, prefixEq, suffixEq, stop⟩ :=
      trim_values aligned bound
    have behind : lzHugePageSize - hole > 0 := by omega
    simp only [trimHugeAligned, if_neg aligned, request, alignedEq, prefixEq, suffixEq, stop,
      if_pos nonempty, if_pos behind]
    apply exact_trim_of_pieces just
    · exact start
    · exact Nat.le_add_right _ _
    · dsimp only
      omega
    · simp only [List.singleton_append, List.mem_cons, List.not_mem_nil, or_false, forall_eq_or_imp,
        forall_eq]
      omega
    · intro address lower upper
      simp only [List.singleton_append, List.mem_cons, List.not_mem_nil, or_false, forall_eq_or_imp,
        forall_eq]
      omega

theorem trim_extent_eq (rawAddr : Nat) :
    trimExtent rawAddr = trimHugeAligned rawAddr lzExtentSize := by
  have request : (lzExtentSize + lzHugePageSize) % 2 ^ 64 = lzExtentSize + lzHugePageSize := rfl
  unfold trimExtent trimHugeAligned
  rw [request]
  by_cases aligned : rawAddr % lzHugePageSize = 0
  · rw [if_neg (not_not.mpr aligned), if_pos aligned]
  · rw [if_pos aligned, if_neg aligned]

/-- The chunks of an extent are pairwise disjoint and fill it. -/
structure Tiles (start : Nat) (chunks : List Nat) : Prop where
  apart : chunks.Pairwise fun chunk other => chunk + lzHugePageSize ≤ other
  cover : ∀ address, start ≤ address ∧ address < start + lzExtentSize ↔
    ∃ chunk ∈ chunks, chunk ≤ address ∧ address < chunk + lzHugePageSize

theorem extent_chunks_tile (start : Nat) : Tiles start (extentChunks start) := by
  constructor
  · rw [extentChunks, List.pairwise_map]
    apply List.Pairwise.imp _ List.pairwise_lt_range
    intro index other before
    simp only [lzHugePageSize]
    omega
  · intro address
    simp only [mem_extent_chunks, lzExtentChunks, lzExtentSize, lzHugePageSize]
    constructor
    · intro inside
      exact ⟨start + (address - start) / 2097152 * 2097152, ⟨_, by omega, rfl⟩, by omega⟩
    · intro inside
      obtain ⟨chunk, ⟨index, bound, rfl⟩, within⟩ := inside
      omega

/-- For every answer of `mmap` and every length that fit in the address space, in
particular for multiples of 2 MB, both functions leave exactly the aligned region
mapped in addition to what was mapped before, and the chunks of an extent tile it. -/
theorem trimming_exact
    (just : JustMapped s mapped rawAddr (totalSize + lzHugePageSize)) (positive : 0 < totalSize)
    (bound : rawAddr + totalSize + lzHugePageSize ≤ 2 ^ 64) :
    ExactTrim s mapped rawAddr totalSize (trimHugeAligned rawAddr totalSize) ∧
      (totalSize = lzExtentSize →
        ExactTrim s mapped rawAddr totalSize (trimExtent rawAddr) ∧
          Tiles (trimExtent rawAddr).1 (extentChunks (trimExtent rawAddr).1)) := by
  have exact := trim_huge_aligned_exact just positive bound
  constructor
  · exact exact
  · intro extent
    subst extent
    rw [trim_extent_eq]
    exact ⟨exact, extent_chunks_tile _⟩

/-- A mapping for an extent that ends one page before the end of the address space. -/
def lastPages : State :=
  { initial ⟨fun _ => none, fun _ => false, fun _ => none, fun _ => 0⟩ 0 false with
    regions := [(2 ^ 64 - 69206016 - 4096, 69206016)] }

theorem trimming_exact_last_pages :
    ExactTrim (initial ⟨fun _ => none, fun _ => false, fun _ => none, fun _ => 0⟩ 0 false) lastPages
        (2 ^ 64 - 69206016 - 4096) lzExtentSize (2 ^ 64 - 69206016,
          [(2 ^ 64 - 69206016 - 4096, 4096), (2 ^ 64 - 2097152, 2093056)]) ∧
      Tiles (2 ^ 64 - 69206016) (extentChunks (2 ^ 64 - 69206016)) := by
  have just : JustMapped
    (initial ⟨fun _ => none, fun _ => false, fun _ => none, fun _ => 0⟩ 0 false)
      lastPages (2 ^ 64 - 69206016 - 4096) (lzExtentSize + lzHugePageSize) := by
    constructor
    · rfl
    · intro address known
      obtain ⟨region, member, _⟩ := known
      cases member
  have trimmed : trimExtent (2 ^ 64 - 69206016 - 4096) = (2 ^ 64 - 69206016,
      [(2 ^ 64 - 69206016 - 4096, 4096), (2 ^ 64 - 2097152, 2093056)]) := by decide +kernel
  obtain ⟨exact, tiles⟩ := (trimming_exact just (by decide) (by decide)).2 rfl
  rw [trimmed] at exact tiles
  exact ⟨exact, tiles⟩

/-! ## The functions of the model -/

theorem sys_alloc_huge_aligned_trims {s mapped : State} {rawAddr totalSize : Nat}
    (bound : totalSize + lzHugePageSize < 2 ^ 64)
    (answered : mmap s (totalSize + lzHugePageSize) = (some rawAddr, mapped)) :
    lzSysAllocHugeAligned s totalSize =
      (some (trimHugeAligned rawAddr totalSize).1,
        munmapAll mapped (trimHugeAligned rawAddr totalSize).2) := by
  obtain failed | ⟨raw, after, done, mmapped⟩ := mmap_cases s (totalSize + lzHugePageSize)
  · rw [answered] at failed
    cases failed
  rw [answered] at done
  cases done
  obtain ⟨_, _, _, limit, _⟩ := mmapped.valid
  simp only [addressLimit] at limit
  have request : (totalSize + lzHugePageSize) % 2 ^ 64 = totalSize + lzHugePageSize :=
    Nat.mod_eq_of_lt bound
  by_cases aligned : rawAddr % lzHugePageSize = 0
  · have stop : (rawAddr + totalSize) % 2 ^ 64 = rawAddr + totalSize := Nat.mod_eq_of_lt (by omega)
    simp only [lzSysAllocHugeAligned, trimHugeAligned, request, answered, if_pos aligned, stop]
    rfl
  · obtain ⟨hole, nonempty, short, _, alignedEq, prefixEq, suffixEq, stop⟩ :=
      trim_values aligned (by omega : rawAddr + totalSize + lzHugePageSize ≤ 2 ^ 64)
    have behind : lzHugePageSize - hole > 0 := by omega
    have before : rawAddr + hole - rawAddr = hole := by omega
    have tail : totalSize + lzHugePageSize - hole - totalSize = lzHugePageSize - hole := by omega
    simp only [lzSysAllocHugeAligned, trimHugeAligned, request, answered, if_neg aligned, alignedEq,
      prefixEq, suffixEq, stop, before, tail, if_pos nonempty, if_pos behind]
    rfl

theorem munmap_all_vmm (s : State) (pieces : List (Nat × Nat)) :
    (munmapAll s pieces).vmm = s.vmm := by
  induction pieces generalizing s with
  | nil => rfl
  | cons piece rest ih => exact ih (munmap s piece.1 piece.2)

theorem sys_alloc_extent_trims {s mapped : State} {rawAddr : Nat}
    (answered : mmap s (lzExtentSize + lzHugePageSize) = (some rawAddr, mapped)) :
    (sysAllocExtent s).regions = (munmapAll mapped (trimExtent rawAddr).2).regions ∧
      (sysAllocExtent s).vmm = carveExtent mapped.vmm (trimExtent rawAddr).1 ∧
      (carveExtent mapped.vmm (trimExtent rawAddr).1).carved =
        extentChunks (trimExtent rawAddr).1 ++ mapped.vmm.carved := by
  have trims := sys_alloc_huge_aligned_trims (by decide) answered
  rw [← trim_extent_eq] at trims
  have done : sysAllocExtent s =
      { munmapAll mapped (trimExtent rawAddr).2 with
        vmm := carveExtent mapped.vmm (trimExtent rawAddr).1 } := by
    unfold sysAllocExtent
    rw [map_extent_eq, trims]
    simp only [munmap_all_vmm]
  rw [done]
  exact ⟨rfl, rfl, carve_extent_carved _ _⟩

end Lzmalloc.RegionTrimming
