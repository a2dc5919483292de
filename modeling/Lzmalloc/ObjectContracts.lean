import Lzmalloc.ApiRuns
import Lzmalloc.SlabContracts

/-!
# Objects of clients

What a client may rely on about its live pointers, over all runs of the public
interface: the bytes behind different pointers do not meet, they are as many as
were asked for, mapped, aligned, and away from every header.
-/

namespace Lzmalloc.ObjectContracts

open SizeClasses HeapState PublicApi StepSystem HeapInvariant InvariantFacts ChunkRoles ObjectRanges
open ConcreteView DirectObjects ApiOperations ApiRuns
open SlabContracts (generousEnv)

set_option autoImplicit false

variable {mode : Mode} {s : State} {sys : ApiSys} {g : Ghost} {ptr base : Nat}

/-! ## Objects and foreign blocks -/

theorem chunk_object_avoids (core : Core mode s g) (present : g.node ptr ≠ .none) {tlh : Nat}
    (owned : (g.kind (chunkBase ptr)).owner = some tlh) (aligned : base % 2097152 = 0)
    (foreign : base ≠ chunkBase ptr) :
    ptr + objectLength s g ptr ≤ base ∨ base + 2097152 ≤ ptr := by
  obtain ⟨behind, inside⟩ := chunk_object_inside core present owned
  have baseAligned := chunk_base_mod ptr
  omega

theorem direct_object_avoids (core : Core mode s g) (present : g.node ptr ≠ .none) {header : Nat}
    (isDirect : g.kind (chunkBase ptr) = .direct header)
    (short : (s.direct header).size < 2 ^ 63) (aligned : base % 2097152 = 0)
    (foreign : g.kind base ≠ .direct header) :
    ptr + objectLength s g ptr ≤ base ∨ base + 2097152 ≤ ptr := by
  obtain ⟨behind, inside⟩ := direct_object_inside core present isDirect short
  have member := direct_known core isDirect
  have headerAligned := (direct_range core member).aligned
  have outside : ¬(header ≤ base ∧ base < header + (s.direct header).totalBytes) := by
    rintro ⟨lower, upper⟩
    have block := direct_block core member lower upper
    rw [chunk_base_eq aligned le_rfl (by omega)] at block
    exact foreign block
  omega

/-- The first bytes of a block are not part of any object that starts behind
them or in another block. -/
theorem object_avoids_front (core : Core mode s g) (present : g.node ptr ≠ .none)
    (unwrapped : Unwrapped s g ptr) (aligned : base % 2097152 = 0) {front : Nat}
    (small : front ≤ 2097152) (own : base = chunkBase ptr → base + front ≤ ptr)
    (first : ∀ header, g.kind (chunkBase ptr) = .direct header → g.kind base = .direct header →
      base + front ≤ ptr) :
    ptr + objectLength s g ptr ≤ base ∨ base + front ≤ ptr := by
  rcases holder_cases (core.objects.scope ptr present) with ⟨tlh, owned⟩ | ⟨header, isDirect⟩
  · by_cases same : base = chunkBase ptr
    · exact Or.inr (own same)
    · have apart := chunk_object_avoids core present owned aligned same
      omega
  · by_cases same : g.kind base = .direct header
    · exact Or.inr (first header isDirect same)
    · have apart :=
        direct_object_avoids core present isDirect (unwrapped header isDirect) aligned same
      omega

theorem object_behind_base (core : Core mode s g) (present : g.node ptr ≠ .none)
    (isChunk : (g.kind (chunkBase ptr)).IsChunk) : chunkBase ptr + 128 ≤ ptr := by
  rcases holder_cases (core.objects.scope ptr present) with ⟨tlh, owned⟩ | ⟨header, isDirect⟩
  · exact (chunk_object_inside core present owned).1
  · simp [isDirect, BlockKind.IsChunk] at isChunk

theorem object_aligned (core : Core mode s g) (present : g.node ptr ≠ .none) : ptr % 16 = 0 := by
  have aligned := chunk_base_mod ptr
  cases kind : g.kind (chunkBase ptr) with
  | slab tlh classIdx =>
      obtain ⟨index, position, _, classBound⟩ := slab_object core present kind
      rw [position]
      exact slab_block_aligned index classBound aligned
  | span tlh =>
      obtain ⟨page, position, _⟩ := span_object core present kind
      omega
  | direct header => exact (core.objects.direct.inside ptr header present kind).2.2
  | unused => simpa [kind, BlockKind.HoldsObjects] using core.objects.scope ptr present
  | idle place => simpa [kind, BlockKind.HoldsObjects] using core.objects.scope ptr present
  | loose => simpa [kind, BlockKind.HoldsObjects] using core.objects.scope ptr present

theorem object_mapped (core : Core mode s g) (present : g.node ptr ≠ .none)
    (unwrapped : Unwrapped s g ptr) {address : Nat} (lower : ptr ≤ address)
    (upper : address < ptr + objectLength s g ptr) : Mapped s.regions address := by
  apply core_mapped core
  obtain ⟨kinds, _⟩ := object_range_kind core present unwrapped lower upper
  rw [kinds]
  intro unused
  have holds := core.objects.scope ptr present
  simp [unused, BlockKind.HoldsObjects] at holds

/-! ## The contract -/

def Visible (sys : ApiSys) (ptr : Nat) : Prop :=
  (sys.live ptr).isSome ∧ resolve sys.state ptr ≠ 0

def usableEnd (sys : ApiSys) (ptr : Nat) : Nat := ptr + lzMallocUsableSize sys.state ptr

structure ObjectsSound (sys : ApiSys) : Prop where
  disjoint : ∀ left right, Visible sys left → Visible sys right → left ≠ right →
    usableEnd sys left ≤ right ∨ usableEnd sys right ≤ left
  length : ∀ ptr size, Visible sys ptr → sys.live ptr = some size →
    size ≤ lzMallocUsableSize sys.state ptr
  aligned : ∀ ptr, Visible sys ptr → ptr % 16 = 0
  mapped : ∀ ptr address, Visible sys ptr → ptr ≤ address → address < usableEnd sys ptr →
    Mapped sys.state.regions address
  /-- Chunk header and slab descriptor take 64 bytes each. -/
  headers : ∀ ptr chunk, Visible sys ptr → chunk ∈ sys.state.vmm.carved →
    usableEnd sys ptr ≤ chunk ∨ chunk + 128 ≤ ptr
  pageZero : ∀ ptr tlh chunk, Visible sys ptr → OwnsSpan sys.state tlh chunk →
    usableEnd sys ptr ≤ chunk ∨ chunk + lzPageSize ≤ ptr
  directHeaders : ∀ ptr header, Visible sys ptr → header ∈ sys.state.directs →
    usableEnd sys ptr ≤ header ∨ header + 128 ≤ ptr

theorem objects_sound (ok : ApiOk mode sys g) : ObjectsSound sys := by
  have core := ok.rest.inv.toCore
  have live : ∀ ptr, Visible sys ptr → g.node ptr = .live := fun ptr seen => (ok.live ptr).mp seen.1
  have present : ∀ ptr, Visible sys ptr → g.node ptr ≠ .none := by
    intro ptr seen
    simp [live ptr seen]
  have unwrapped : ∀ ptr, Unwrapped sys.state g ptr :=
    fun ptr header isDirect => ok.rest.short header (direct_known core isDirect)
  have usable : ∀ ptr, Visible sys ptr →
      lzMallocUsableSize sys.state ptr = objectLength sys.state g ptr :=
    fun ptr seen => usable_size_eq core (present ptr seen) seen.2
  refine ⟨?_, ?_, ?_, ?_, ?_, ?_, ?_⟩
  · intro left right leftSeen rightSeen different
    rw [usableEnd, usableEnd, usable left leftSeen, usable right rightSeen]
    rcases Nat.lt_or_gt_of_ne different with before | behind
    · exact Or.inl (object_ranges core (present left leftSeen) (present right rightSeen)
        (unwrapped left) before)
    · exact Or.inr (object_ranges core (present right rightSeen) (present left leftSeen)
        (unwrapped right) behind)
  · intro ptr size seen asked
    have used : (g.node ptr).InUse := by simp [live ptr seen, NodePlace.InUse]
    rw [usable ptr seen, objectLength, ok.rest.inv.recorded ptr used]
    exact ok.asked ptr size asked
  · intro ptr seen
    exact object_aligned core (present ptr seen)
  · intro ptr address seen lower upper
    rw [usableEnd, usable ptr seen] at upper
    exact object_mapped core (present ptr seen) (unwrapped ptr) lower upper
  · intro ptr chunk seen carved
    have isChunk := (core.vmm.carved chunk).mp carved
    have used : g.kind chunk ≠ .unused := by
      intro unused
      simp [unused, BlockKind.IsChunk] at isChunk
    rw [usableEnd, usable ptr seen]
    apply object_avoids_front core (present ptr seen) (unwrapped ptr)
      (core.geom.placed chunk used).1
      (by norm_num)
    · rintro rfl
      exact object_behind_base core (present ptr seen) isChunk
    · intro header _ isDirect
      simp [isDirect, BlockKind.IsChunk] at isChunk
  · intro ptr tlh chunk seen owns
    have isSpan := (owns_span_iff core ok.rest.settled).mp owns
    rw [usableEnd, usable ptr seen]
    apply object_avoids_front core (present ptr seen) (unwrapped ptr)
      (core.geom.placed chunk (by simp [isSpan])).1 (by norm_num)
    · rintro rfl
      obtain ⟨page, position, _, behind, _, _⟩ := span_object core (present ptr seen) isSpan
      simp only [lzPageSize]
      omega
    · intro header _ isDirect
      rw [isSpan] at isDirect
      cases isDirect
  · intro ptr header seen member
    have isHeader := geom_direct_header core.geom member
    have behind : g.kind (chunkBase ptr) = .direct header → header + 128 ≤ ptr :=
      fun isDirect => (core.objects.direct.inside ptr header (present ptr seen) isDirect).1
    rw [usableEnd, usable ptr seen]
    apply object_avoids_front core (present ptr seen) (unwrapped ptr)
      (core.geom.placed header (by simp [isHeader])).1 (by norm_num)
    · intro same
      apply behind
      rw [← same]
      exact isHeader
    · intro owner isDirect same
      rw [isHeader] at same
      cases same
      exact behind isDirect

def requestBytes : ApiAct → Nat
  | .malloc _ size => size
  | .calloc _ num size => num * size
  | .realloc _ _ size => size
  | .memalign _ alignment size => size + alignment
  | _ => 0

def alignedRequest : ApiAct → Option (Nat × Nat)
  | .memalign _ alignment size => some (alignment, size)
  | _ => none

/-- No wrap-around; aligned requests ask for at least one byte. -/
def SmallCall (act : ApiAct) : Prop :=
  requestBytes act < 2 ^ 63 ∧ ∀ request ∈ alignedRequest act, 1 ≤ request.2

instance : DecidablePred SmallCall := fun _ => inferInstanceAs (Decidable (_ ∧ _))

theorem malloc_fits_of_small {size : Nat} (small : size < 2 ^ 63) : MallocFits size := by
  by_cases medium : size ≤ lzMaxSpanObjSize
  · exact Or.inl medium
  · right
    by_cases nothing : directTotal 128 size = 0
    · exact Or.inl nothing
    · have fits := direct_total_fits (by norm_num : 128 ≤ 2 ^ 63) small nothing
      right
      simp only [lzMaxSpanObjSize] at medium
      omega

theorem memalign_fits_of_small {alignment size : Nat} (positive : 1 ≤ size)
    (bound : size + alignment < 2 ^ 63) : MemalignFits alignment size := by
  intro power _
  by_cases nothing : directTotal (memalignOffset alignment) size = 0
  · exact Or.inl nothing
  · obtain ⟨_, _, offsetBound⟩ := memalign_offset (by omega) power
    have fits := direct_total_fits offsetBound (by omega) nothing
    right
    omega

theorem calloc_fits_of_small {num size : Nat} (bound : num * size < 2 ^ 63) :
    MallocFits (callocSize num size) := by
  apply malloc_fits_of_small
  unfold callocSize
  split
  · norm_num
  · exact bound

theorem api_fits_of_small (sys : ApiSys) (act : ApiAct) (small : SmallCall act) :
    ApiFits sys act := by
  cases act with
  | malloc thread size => exact malloc_fits_of_small small.1
  | calloc thread num size => exact fun _ => calloc_fits_of_small small.1
  | realloc thread ptr size => exact fun _ => malloc_fits_of_small small.1
  | memalign thread alignment size =>
      exact memalign_fits_of_small (small.2 (alignment, size) rfl) small.1
  | free thread ptr => trivial
  | exit thread => trivial
  | gc thread => trivial
  | attach thread => trivial
  | reap tlh => trivial
  | write ptr offset value => trivial

theorem along_fits_of_small {acts : List ApiAct} (small : ∀ act ∈ acts, SmallCall act)
    (sys : ApiSys) : Along apiStep ApiFits sys acts :=
  along_of_mem (fun act member state => api_fits_of_small state act (small act member)) sys

/-! ## New objects -/

variable {after : State} {last : Ghost} {size : Nat}

def returned (s : State) : ApiAct → Option Nat
  | .malloc thread size => (lzMalloc s thread size).map Prod.fst
  | .calloc thread num size => (lzCalloc s thread num size).map Prod.fst
  | .realloc thread ptr size => (lzRealloc s thread ptr size).map Prod.fst
  | .memalign thread alignment size => (lzMemalign s thread alignment size).map Prod.fst
  | _ => none

/-- What the call hands out nobody holds, unless `lz_realloc` leaves its object in
place. -/
def HandsOutFresh (sys : ApiSys) (act : ApiAct) : Prop :=
  ∀ ptr, returned sys.state act = some ptr → ptr ≠ 0 →
    sys.live ptr = none ∨ ∃ thread size, act = .realloc thread ptr size

theorem allocated_fresh {origin : Origin} (ok : ApiOk mode sys g)
    (allocated : ClientView.Allocated g last ptr origin) : sys.live ptr = none := by
  by_contra known
  exact allocated.fresh.1 ((ok.live ptr).mp (Option.isSome_iff_ne_none.mpr known))

theorem served_fresh {origin : Origin} (ok : ApiOk mode sys g)
    (served : Served mode g after ptr origin) (nonnull : ptr ≠ 0) : sys.live ptr = none := by
  obtain ⟨last, _, outcome⟩ := served
  exact allocated_fresh ok (outcome.resolve_left fun refused => nonnull refused.1).2

theorem realloc_fresh {thread old : Nat} (ok : ApiOk mode sys g)
    (lost : mode.noLeaks → mode.leavesMapped) (bound : size < 2 ^ 64)
    (known : old = 0 ∨ (sys.live old).isSome) (fits : ApiFits sys (.realloc thread old size))
    (done : lzRealloc sys.state thread old size = some (ptr, after)) (nonnull : ptr ≠ 0) :
    sys.live ptr = none ∨ ptr = old := by
  by_cases null : old = 0
  · rw [lzRealloc, if_pos null] at done
    exact Or.inl (served_fresh ok (served_malloc ok.rest (fits (Or.inl null)) done) nonnull)
  by_cases nothing : size = 0
  · rw [lzRealloc, if_neg null, if_pos nothing] at done
    obtain ⟨_, _, same⟩ := Option.map_eq_some_iff.mp done
    exact absurd (Prod.mk.inj same).1.symm nonnull
  have live := (ok.live old).mp (known.resolve_left null)
  rcases realloc_cases ok.rest live lost nothing bound
    (fun usable grows => fits (Or.inr ⟨usable, grows⟩)) done with
    ⟨refused, _⟩ | ⟨same, _⟩ | ⟨_, middle, _, _, allocated, _⟩
  · exact absurd refused nonnull
  · exact Or.inr same
  · exact Or.inl (allocated_fresh ok allocated)

theorem hands_out_fresh (ok : ApiOk mode sys g) (lost : mode.noLeaks → mode.leavesMapped)
    {act : ApiAct} (fits : ApiFits sys act) (taken : (apiStep sys act).isSome) :
    HandsOutFresh sys act := by
  intro ptr answered nonnull
  cases act with
  | malloc thread size =>
      obtain ⟨⟨_, after⟩, called, rfl⟩ := Option.map_eq_some_iff.mp answered
      exact Or.inl (served_fresh ok (served_malloc ok.rest fits called) nonnull)
  | calloc thread num size =>
      obtain ⟨⟨_, after⟩, called, rfl⟩ := Option.map_eq_some_iff.mp answered
      exact Or.inl (served_fresh ok (served_calloc ok.rest fits called) nonnull)
  | memalign thread alignment size =>
      obtain ⟨⟨_, after⟩, called, rfl⟩ := Option.map_eq_some_iff.mp answered
      simp only [apiStep] at taken
      split at taken
      · next bound =>
        exact Or.inl (served_fresh ok (served_memalign ok.rest bound.1 fits called) nonnull)
      · cases taken
  | realloc thread old size =>
      obtain ⟨⟨_, after⟩, called, rfl⟩ := Option.map_eq_some_iff.mp answered
      simp only [apiStep] at taken
      split at taken
      · next allowed =>
        rcases realloc_fresh ok lost allowed.1 allowed.2 fits called nonnull with idle | rfl
        · exact Or.inl idle
        · exact Or.inr ⟨thread, size, rfl⟩
      · cases taken
  | free thread ptr => cases answered
  | exit thread => cases answered
  | gc thread => cases answered
  | attach thread => cases answered
  | reap tlh => cases answered
  | write ptr offset value => cases answered

/-- In every state of every run of requests without wrap-around the live
objects are disjoint, long enough, aligned, mapped and away from all headers, and
the next call hands out a pointer that is not live. -/
theorem live_objects_sound (env : Env) (secret : BitVec 64) (telemetry : Bool)
    (acts : List ApiAct) (sys : ApiSys) (small : ∀ act ∈ acts, SmallCall act)
    (ran : run apiStep (apiStart env secret telemetry) acts = some sys) :
    ObjectsSound sys ∧
      ∀ act, SmallCall act → (apiStep sys act).isSome → HandsOutFresh sys act := by
  have fits : Along apiStep ApiFits (apiStart env secret telemetry) acts :=
    along_fits_of_small small _
  have reached : ∃ g, ApiOk (apiMode False) sys g := api_run_ok False.elim fits ran
  obtain ⟨g, ok⟩ := reached
  exact ⟨objects_sound ok, fun act narrow =>
    hands_out_fresh ok id (api_fits_of_small sys act narrow)⟩

/-- Two threads, one object of each engine, a remote free, an exit whose heap is
adopted, and garbage collection. -/
def mixedRun : List ApiAct :=
  [.malloc 1 24, .malloc 1 40000, .memalign 2 8192 10, .malloc 2 24, .free 2 4359979136, .exit 2,
    .malloc 3 24, .gc 1]

-- The next call returns the block of the first, which thread 2 has freed.
theorem live_objects_sound_mixed :
    ∃ sys, run apiStep (apiStart generousEnv 7 true) mixedRun = some sys ∧ ObjectsSound sys ∧
      returned sys.state (.malloc 1 24) = some 4359979136 ∧
      HandsOutFresh sys (.malloc 1 24) := by
  have facts : (run apiStep (apiStart generousEnv 7 true) mixedRun).map (fun sys =>
      (returned sys.state (.malloc 1 24), (apiStep sys (.malloc 1 24)).isSome)) =
      some (some 4359979136, true) := by decide +kernel
  obtain ⟨sys, ran, values⟩ := Option.map_eq_some_iff.mp facts
  rw [Prod.mk.injEq] at values
  obtain ⟨sound, fresh⟩ := live_objects_sound generousEnv 7 true mixedRun sys (by decide) ran
  exact ⟨sys, ran, sound, values.1, fresh _ (by decide) values.2⟩

end Lzmalloc.ObjectContracts
