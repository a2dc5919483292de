import Lzmalloc.DirectContracts
import Lzmalloc.ObjectContracts

/-!
# Aligned allocations

Over all runs of the public interface: which alignments `lz_memalign` and the
functions built on it keep, and what can be done with the pointers they return.
-/

namespace Lzmalloc.AlignedContracts

open SizeClasses HeapState PublicApi StepSystem HeapInvariant InvariantFacts ObjectRanges ClientView
open Mappings DirectObjects ApiOperations ApiRuns DirectContracts ObjectContracts
open SlabContracts (generousEnv)

set_option autoImplicit false

variable {mode : Mode} {s after : State} {sys : ApiSys} {g last : Ghost}
  {thread ptr alignment size : Nat}

/-! ## The functions of the aligned interface -/

inductive AlignedCall
  | memalign (alignment size : Nat)
  | posixMemalign (memptr alignment size : Nat)
  | alignedAlloc (alignment size : Nat)
  | valloc (sysconf : Int) (size : Nat)
  | pvalloc (sysconf : Int) (size : Nat)

/-- Alignment and size that the call asks of `lz_memalign`. -/
def AlignedCall.request : AlignedCall → Nat × Nat
  | .memalign alignment size => (alignment, size)
  | .posixMemalign _ alignment size => (alignment, size)
  | .alignedAlloc alignment size => (alignment, size)
  | .valloc sysconf size => (reportedPageSize sysconf, size)
  | .pvalloc sysconf size =>
      (reportedPageSize sysconf, lzAlignUp size (reportedPageSize sysconf))

def alignedResult (s : State) (thread : Nat) : AlignedCall → Option (Nat × State)
  | .memalign alignment size => lzMemalign s thread alignment size
  | .posixMemalign memptr alignment size =>
      (lzPosixMemalign s thread memptr alignment size).map fun result =>
        (result.2.1.getD 0, result.2.2)
  | .alignedAlloc alignment size => lzAlignedAlloc s thread alignment size
  | .valloc sysconf size => lzValloc s thread sysconf size
  | .pvalloc sysconf size => lzPvalloc s thread sysconf size

theorem aligned_result_memalign {call : AlignedCall}
    (done : alignedResult s thread call = some (ptr, after)) (nonnull : ptr ≠ 0) :
    lzMemalign s thread call.request.1 call.request.2 = some (ptr, after) := by
  cases call with
  | memalign alignment size => exact done
  | posixMemalign memptr alignment size =>
      simp only [alignedResult, lzPosixMemalign, Option.map_eq_some_iff, Prod.mk.injEq] at done
      obtain ⟨⟨code, stored, reached⟩, called, pointer, rfl⟩ := done
      have known : stored ≠ none := by
        rintro rfl
        exact nonnull pointer.symm
      split at called
      · simp only [Option.some.injEq, Prod.mk.injEq] at called
        exact absurd called.2.1.symm known
      split at called
      · simp only [Option.some.injEq, Prod.mk.injEq] at called
        exact absurd called.2.1.symm known
      obtain ⟨⟨found, reached⟩, allocated, result⟩ := Option.map_eq_some_iff.mp called
      simp only at result
      split at result
      · simp only [Prod.mk.injEq] at result
        exact absurd result.2.1.symm known
      · simp only [Prod.mk.injEq] at result
        obtain ⟨_, rfl, rfl⟩ := result
        rw [← pointer]
        exact allocated
  | alignedAlloc alignment size =>
      simp only [alignedResult, lzAlignedAlloc] at done
      split at done
      · simp only [Option.some.injEq, Prod.mk.injEq] at done
        exact absurd done.1.symm nonnull
      split at done
      · simp only [Option.some.injEq, Prod.mk.injEq] at done
        exact absurd done.1.symm nonnull
      · exact done
  | valloc sysconf size => exact done
  | pvalloc sysconf size => exact done

/-! ## The alignment of each engine -/

theorem promoted_class_divides (wide : alignment = 32 ∨ alignment = 64) (positive : 0 < size)
    (small : size ≤ lzMaxSlabObjSize) :
    alignment ∣ lzClassToSize (lzSizeToClass (lzAlignUp size alignment)) := by
  have checked : ∀ count < 1024, 32 ∣ lzClassToSize (lzSizeToClass ((count + 1) * 32)) ∧
      (count % 2 = 1 → 64 ∣ lzClassToSize (lzSizeToClass ((count + 1) * 32))) := by decide +kernel
  simp only [lzMaxSlabObjSize] at small
  rcases wide with rfl | rfl
  · have rounded : lzAlignUp size 32 = ((size - 1) / 32 + 1) * 32 := by
      rw [lz_align_up_eq size (by decide)]
      omega
    rw [rounded]
    exact (checked _ (by omega)).1
  · have rounded : lzAlignUp size 64 = ((size - 1) / 64 * 2 + 1 + 1) * 32 := by
      rw [lz_align_up_eq size (by decide)]
      omega
    rw [rounded]
    exact (checked _ (by omega)).2 (by omega)

theorem slab_object_divides (core : Core mode s g) (present : g.node ptr ≠ .none)
    {tlh classIdx : Nat} (isSlab : g.kind (chunkBase ptr) = .slab tlh classIdx)
    (front : alignment ∣ 128) (divides : alignment ∣ lzClassToSize classIdx) : alignment ∣ ptr := by
  obtain ⟨index, position, _⟩ := slab_object core present isSlab
  rw [position]
  have base : alignment ∣ chunkBase ptr := by
    apply front.trans
    have aligned := chunk_base_mod ptr
    omega
  exact Nat.dvd_add (Nat.dvd_add base front) (divides.mul_left index)

theorem span_object_divides (core : Core mode s g) (present : g.node ptr ≠ .none) {tlh : Nat}
    (isSpan : g.kind (chunkBase ptr) = .span tlh) (page : alignment ∣ 4096) : alignment ∣ ptr := by
  obtain ⟨index, position, _⟩ := span_object core present isSpan
  rw [position]
  have base : 4096 ∣ chunkBase ptr := by
    have aligned := chunk_base_mod ptr
    omega
  exact Nat.dvd_add (page.trans base) (page.mul_left index)

theorem map_direct_divides {offset : Nat} (done : mapDirect s offset size = some (ptr, after))
    (base : alignment ∣ 2097152) (divides : alignment ∣ offset) : alignment ∣ ptr := by
  rcases map_direct_cases s offset size with
    ⟨_, failed⟩ | ⟨_, _, died⟩ | ⟨_, _, start, mapped, reached, maps, _, served⟩
  · rw [failed, Option.some.injEq, Prod.mk.injEq] at done
    rw [← done.1]
    exact Nat.dvd_zero _
  · rw [died] at done
    cases done
  · rw [served, Option.some.injEq, Prod.mk.injEq] at done
    rw [← done.1]
    exact Nat.dvd_add (base.trans (Nat.dvd_of_mod_eq_zero maps.aligned)) divides

theorem power_divides (power : isPowerOfTwo alignment = true) {exponent : Nat}
    (small : alignment ≤ 2 ^ exponent) : alignment ∣ 2 ^ exponent := by
  obtain ⟨k, rfl⟩ := is_power_of_two_eq power
  exact Nat.pow_dvd_pow 2 ((Nat.pow_le_pow_iff_right (by norm_num)).mp small)

theorem power_between (power : isPowerOfTwo alignment = true) (lower : 16 < alignment)
    (upper : alignment ≤ 64) : alignment = 32 ∨ alignment = 64 := by
  obtain ⟨k, rfl⟩ := is_power_of_two_eq power
  have above : 4 < k := (Nat.pow_lt_pow_iff_right (by norm_num : 1 < 2)).mp lower
  have below : k ≤ 6 := (Nat.pow_le_pow_iff_right (by norm_num : 1 < 2)).mp upper
  interval_cases k
  · exact Or.inl rfl
  · exact Or.inr rfl

theorem memalign_chunk_object (rest : AtRest mode s g) (bound : alignment < 2 ^ 64)
    (chunk : ¬memalignDirect alignment size)
    (done : lzMemalign s thread alignment size = some (ptr, after)) (nonnull : ptr ≠ 0) :
    ∃ last, AtRest mode after last ∧ last.node ptr = .live ∧
      objectOrigin after.span after.direct ptr (last.kind (chunkBase ptr)) =
        memalignOrigin alignment size := by
  obtain ⟨last, afterRest, result⟩ :=
    served_memalign rest bound (fun _ direct => absurd direct chunk) done
  obtain ⟨_, allocated⟩ := result.resolve_left fun failed => nonnull failed.1
  have live := (allocated.live ptr).mpr (Or.inl rfl)
  refine ⟨last, afterRest, live, ?_⟩
  rw [afterRest.inv.recorded ptr (by simp [live, NodePlace.InUse]), allocated.record,
    Function.update_self]

theorem memalign_slab_divides (rest : AtRest mode s g) (bound : alignment < 2 ^ 64)
    (power : isPowerOfTwo alignment = true) (small : alignment ≤ 64 ∧ size ≤ lzMaxSlabObjSize)
    (proper : ¬(size = 0 ∧ 16 < alignment))
    (done : lzMemalign s thread alignment size = some (ptr, after)) (nonnull : ptr ≠ 0) :
    alignment ∣ ptr := by
  obtain ⟨last, afterRest, live, origin⟩ :=
    memalign_chunk_object rest bound (fun direct => direct.1 small) done nonnull
  have core := afterRest.inv.toCore
  have present : last.node ptr ≠ .none := by simp [live]
  by_cases narrow : alignment ≤ 16
  · exact (@power_divides alignment power 4 narrow).trans
      (Nat.dvd_of_mod_eq_zero (object_aligned core present))
  have wide := power_between power (Nat.not_le.mp narrow) small.1
  have positive : 0 < size := by omega
  have promoted : lzAlignUp size alignment ≤ lzMaxSlabObjSize ∧ lzAlignUp size alignment ≠ 0 := by
    have fits := small.2
    simp only [lzMaxSlabObjSize] at fits
    rcases wide with rfl | rfl <;> simp only [lz_align_up_eq size power, lzMaxSlabObjSize] <;> omega
  rw [memalignOrigin, if_pos small, mallocOrigin, if_pos promoted.1, if_neg promoted.2] at origin
  have divides := promoted_class_divides wide positive small.2
  cases kind : last.kind (chunkBase ptr) with
  | slab tlh classIdx =>
      simp only [kind, objectOrigin, Origin.slab.injEq] at origin
      rw [← origin] at divides
      exact slab_object_divides core present kind
        (@power_divides alignment power 7 (by omega)) divides
  | span tlh => simp [kind, objectOrigin] at origin
  | direct header => simp [kind, objectOrigin] at origin
  | unused => simp [kind, objectOrigin] at origin
  | idle place => simp [kind, objectOrigin] at origin
  | loose => simp [kind, objectOrigin] at origin

theorem memalign_span_divides (rest : AtRest mode s g) (bound : alignment < 2 ^ 64)
    (power : isPowerOfTwo alignment = true) (large : ¬(alignment ≤ 64 ∧ size ≤ lzMaxSlabObjSize))
    (medium : alignment ≤ lzPageSize ∧ size ≤ lzMaxSpanObjSize)
    (done : lzMemalign s thread alignment size = some (ptr, after)) (nonnull : ptr ≠ 0) :
    alignment ∣ ptr := by
  obtain ⟨last, afterRest, live, origin⟩ :=
    memalign_chunk_object rest bound (fun direct => direct.2 medium) done nonnull
  have present : last.node ptr ≠ .none := by simp [live]
  rw [memalignOrigin, if_neg large, if_pos medium] at origin
  cases kind : last.kind (chunkBase ptr) with
  | span tlh =>
      exact span_object_divides afterRest.inv.toCore present kind
        (@power_divides alignment power 12 medium.1)
  | slab tlh classIdx => simp [kind, objectOrigin] at origin
  | direct header => simp [kind, objectOrigin] at origin
  | unused => simp [kind, objectOrigin] at origin
  | idle place => simp [kind, objectOrigin] at origin
  | loose => simp [kind, objectOrigin] at origin

theorem memalign_divides (rest : AtRest mode s g) (bound : alignment < 2 ^ 64)
    (power : isPowerOfTwo alignment = true) (small : alignment ≤ 2 ^ 21)
    (proper : ¬(size = 0 ∧ 16 < alignment ∧ alignment ≤ 64))
    (done : lzMemalign s thread alignment size = some (ptr, after)) (nonnull : ptr ≠ 0) :
    alignment ∣ ptr := by
  by_cases slab : alignment ≤ 64 ∧ size ≤ lzMaxSlabObjSize
  · exact memalign_slab_divides rest bound power slab
      (fun degenerate => proper ⟨degenerate.1, degenerate.2, slab.1⟩) done nonnull
  by_cases span : alignment ≤ lzPageSize ∧ size ≤ lzMaxSpanObjSize
  · exact memalign_span_divides rest bound power slab span done nonnull
  · rw [lz_memalign_large thread power ⟨slab, span⟩] at done
    exact map_direct_divides done (@power_divides alignment power 21 small)
      (lz_align_up_dvd _ power)

/-! ## The alignment law -/

/-- No region of the user address space is large enough for the request. -/
theorem mmap_refused_large {offset : Nat} (huge : 2 ^ 48 - 2 ^ 22 < directTotal offset size) :
    MmapRefused s offset size := by
  unfold MmapRefused
  rcases mmap_cases s ((directTotal offset size + lzHugePageSize) % 2 ^ 64) with
    failed | ⟨raw, mapped, _, granted⟩
  · rw [failed]
  · obtain ⟨_, positive, nonempty, limit, _⟩ := granted.valid
    have multiple := direct_total_multiple offset size
    have bound := direct_total_lt offset size
    simp only [lzHugePageSize, addressLimit] at nonempty limit
    omega

theorem map_direct_at {offset raw : Nat} (answer : s.env.regionMmap s.regionCalls = some raw)
    (aligned : raw % 2097152 = 0) (nonempty : directTotal offset size ≠ 0)
    (valid : MmapValid s.regions raw (directTotal offset size + 2097152)) :
    ∃ after, mapDirect s offset size = some (raw + offset, after) := by
  have limit := valid.2.2.2.1
  simp only [addressLimit] at limit
  have request : (directTotal offset size + lzHugePageSize) % 2 ^ 64 =
      directTotal offset size + 2097152 := by
    simp only [lzHugePageSize]
    omega
  simp only [mapDirect, lzSysAllocHugeAligned, request, mmap, answer, if_pos valid]
  rw [if_pos (by exact aligned)]
  refine ⟨_, if_pos ?_⟩
  rw [mapped_munmap, mapped_cons]
  constructor
  · left
    omega
  · omega

/-- Alignments and sizes for which the law holds: up to 2 MB apart from the
empty requests that are served as one byte, and beyond that only where nothing
can be mapped. -/
def AlignmentKept (alignment size : Nat) : Prop :=
  (alignment ≤ 2 ^ 21 ∧ ¬(size = 0 ∧ 16 < alignment ∧ alignment ≤ 64)) ∨
    (2 ^ 21 < alignment ∧ (directTotal (memalignOffset alignment) size = 0 ∨
      2 ^ 48 - 2 ^ 22 < directTotal (memalignOffset alignment) size))

/-- In every reachable state, whatever function of the aligned interface makes
the request, the pointer is a multiple of the alignment. -/
def AlignmentLaw (alignment size : Nat) : Prop :=
  ∀ env secret telemetry acts sys, Along apiStep ApiFits (apiStart env secret telemetry) acts →
    run apiStep (apiStart env secret telemetry) acts = some sys →
      ∀ (call : AlignedCall) thread ptr after, call.request = (alignment, size) →
        alignedResult sys.state thread call = some (ptr, after) → ptr ≠ 0 → alignment ∣ ptr

theorem alignment_law_of_kept (power : isPowerOfTwo alignment = true) (bound : alignment < 2 ^ 64)
    (kept : AlignmentKept alignment size) : AlignmentLaw alignment size := by
  intro env secret telemetry acts sys fits ran call thread ptr after request done nonnull
  have served := aligned_result_memalign done nonnull
  rw [request] at served
  have reached : ∃ g, ApiOk (apiMode False) sys g := api_run_ok False.elim fits ran
  obtain ⟨g, ok⟩ := reached
  rcases kept with ⟨small, proper⟩ | ⟨large, unmappable⟩
  · exact memalign_divides ok.rest bound power small proper served nonnull
  · have direct : memalignDirect alignment size := by
      simp only [memalignDirect, lzPageSize]
      omega
    rw [lz_memalign_large thread power direct] at served
    rcases map_direct_cases sys.state (memalignOffset alignment) size with
      ⟨_, failed⟩ | ⟨_, _, died⟩ | ⟨allowed, nonempty, _⟩
    · rw [failed, Option.some.injEq, Prod.mk.injEq] at served
      exact absurd served.1.symm nonnull
    · rw [died] at served
      cases served
    · rcases unmappable with nothing | huge
      · exact absurd nothing nonempty
      · exact absurd (mmap_refused_large huge) allowed

/-- The second block of a slab for one byte. -/
theorem empty_request_misaligned (wide : alignment = 32 ∨ alignment = 64) :
    ¬AlignmentLaw alignment 0 := by
  intro law
  have facts : ∀ alignment, alignment = 32 ∨ alignment = 64 →
      ((run apiStep (apiStart generousEnv 7 true) [.malloc 1 1]).bind fun sys =>
        lzMemalign sys.state 1 alignment 0).map (fun result => result.1) = some 4359979152 := by
    rintro alignment (rfl | rfl) <;> decide +kernel
  obtain ⟨⟨ptr, after⟩, called, pointer⟩ := Option.map_eq_some_iff.mp (facts alignment wide)
  obtain ⟨sys, ran, served⟩ := Option.bind_eq_some_iff.mp called
  have fits : Along apiStep ApiFits (apiStart generousEnv 7 true) [.malloc 1 1] :=
    along_fits_of_small (by decide) _
  simp only at pointer
  have divides :=
    law generousEnv 7 true _ sys fits ran (.memalign alignment 0) 1 ptr after rfl served
    (by omega)
  rcases wide with rfl | rfl <;> omega

/-- All regions at 2 MB. -/
def lowEnv : Env := { generousEnv with regionMmap := fun _ => some 2097152 }

theorem huge_alignment_misaligned (power : isPowerOfTwo alignment = true)
    (large : 2 ^ 21 < alignment) (nonempty : directTotal (memalignOffset alignment) size ≠ 0)
    (mappable : directTotal (memalignOffset alignment) size ≤ 2 ^ 48 - 2 ^ 22) :
    ¬AlignmentLaw alignment size := by
  intro law
  have direct : memalignDirect alignment size := by
    simp only [memalignDirect, lzPageSize]
    omega
  have valid : MmapValid (apiStart lowEnv 7 true).state.regions 2097152
      (directTotal (memalignOffset alignment) size + 2097152) := by
    refine ⟨by decide, by decide, by omega, ?_, fun region member => by cases member⟩
    simp only [addressLimit]
    omega
  have mapped : ∃ after, mapDirect (apiStart lowEnv 7 true).state (memalignOffset alignment) size =
      some (2097152 + memalignOffset alignment, after) := map_direct_at rfl rfl nonempty valid
  obtain ⟨after, mapped⟩ := mapped
  rw [← lz_memalign_large 1 power direct] at mapped
  have divides := law lowEnv 7 true [] (apiStart lowEnv 7 true) trivial rfl
    (.memalign alignment size) 1 _ after rfl mapped (by omega)
  have base := (Nat.dvd_add_left (lz_align_up_dvd 128 power)).mp divides
  have short := Nat.le_of_dvd (by norm_num) base
  omega

/-- The law holds exactly for the requests of `AlignmentKept`. -/
theorem aligned_pointers_iff (alignment size : Nat) (power : isPowerOfTwo alignment = true)
    (bound : alignment < 2 ^ 64) :
    AlignmentLaw alignment size ↔ AlignmentKept alignment size := by
  refine ⟨fun law => ?_, alignment_law_of_kept power bound⟩
  by_cases small : alignment ≤ 2 ^ 21
  · left
    refine ⟨small, ?_⟩
    rintro ⟨rfl, lower, upper⟩
    exact empty_request_misaligned (power_between power lower upper) law
  · right
    refine ⟨by omega, ?_⟩
    by_contra mappable
    rw [not_or, Nat.not_lt] at mappable
    exact huge_alignment_misaligned power (by omega) mappable.1 mappable.2 law

theorem page_aligned_always : AlignmentLaw 4096 100 :=
  (aligned_pointers_iff 4096 100 (by decide) (by norm_num)).mpr (Or.inl (by decide))

/-- 4 MB alignment over a region at 2 MB. -/
theorem four_megabytes_misaligned :
    (lzMemalign (initial lowEnv 7 true) 1 4194304 1).map (fun result => result.1) = some 6291456 ∧
      ¬4194304 ∣ 6291456 ∧ ¬AlignmentLaw 4194304 1 :=
  ⟨by decide +kernel, by decide,
    huge_alignment_misaligned (by decide) (by decide) (by decide) (by decide)⟩

end Lzmalloc.AlignedContracts
