import Mathlib.Algebra.BigOperators.Group.Finset.Basic
import Mathlib.Algebra.BigOperators.Group.Finset.Sigma
import Lzmalloc.TelemetryLedger

/-!
# What the telemetry reports

With slab objects only, the slots and the pending counters of all heaps add up
to the block sizes of the objects that are live or freed and not yet reaped, in
every state of every run, until a thread adopts a zombie heap with pending
counters.
-/

namespace Lzmalloc.TelemetryContracts

open SizeClasses HeapState VirtualMemoryManager Engines ThreadHeap PublicApi StepSystem
open HeapInvariant InvariantFacts ClientView SlabBlocks ThreadFrames HeapOperations ObjectRanges
open DirectObjects ThreadLifecycle ConcreteView ApiOperations ApiRuns CallParts CollectionContracts
open TelemetryBooks TelemetryLedger
open SlabContracts (generousEnv)

set_option autoImplicit false

variable {mode : Mode} {s middle after : State} {g last : Ghost} {sys reached : ApiSys}
  {thread ptr size : Nat} {lost : Int}

/-! ## Calls -/

/-- The ledger is off by `lost` bytes more than before. -/
structure Drifts (lost : Int) (s after : State) : Prop where
  audited : Audited after
  level : discrepancy after = discrepancy s - lost

theorem drifts_of_square (square : Square s after) : Drifts 0 s after :=
  ⟨square.audited, by rw [square.level, Int.cast_zero, sub_zero]⟩

theorem drifts_square (first : Drifts lost s middle) (second : Square middle after) :
    Drifts lost s after :=
  ⟨second.audited, second.level.trans first.level⟩

theorem attached_adopts_nothing (attached : s.tls thread ≠ 0) : adoptedBytes s thread = 0 := by
  rw [adoptedBytes, if_neg fun both => attached both.1]

theorem malloc_drifts (rest : AtRest mode s g) (audited : Audited s)
    (small : size ≤ lzMaxSlabObjSize) (done : lzMalloc s thread size = some (ptr, after)) :
    Drifts (adoptedBytes s thread) s after ∧ after.tls thread ≠ 0 := by
  unfold lzMalloc at done
  obtain ⟨asked, askedEq⟩ : ∃ asked, (if size = 0 then 1 else size) = asked := ⟨_, rfl⟩
  have askedSmall : asked ≤ lzMaxSlabObjSize := by
    rw [← askedEq]
    split
    · decide
    · exact small
  simp only [askedEq, if_pos askedSmall] at done
  obtain ⟨ready, attached, result⟩ := Option.map_eq_some_iff.mp done
  obtain ⟨readyRest, heap, _⟩ := at_rest_attach rest attached
  obtain ⟨readyAudited, level⟩ := attach_discrepancy rest audited attached
  have taken := square_tlh_alloc readyRest readyAudited heap askedSmall
  have frame := tlh_alloc_threads ready (ready.tls thread) asked
  rw [result] at taken frame
  constructor
  · exact drifts_square ⟨readyAudited, level⟩ taken
  · rw [frame.tls]
    exact attached_of_init attached rest

theorem free_drifts (rest : AtRest mode s g) (audited : Audited s) (live : g.node ptr = .live)
    (done : lzFree s thread ptr = some after) :
    Drifts (if resolve s ptr = 0 then 0 else adoptedBytes s thread) s after := by
  have core := rest.inv.toCore
  by_cases found : resolve s ptr = 0
  · have positive := (core_node_bound core (by simp [live] : g.node ptr ≠ .none)).1
    simp only [lzFree, if_neg (Nat.pos_iff_ne_zero.mp positive), if_pos found] at done
    obtain rfl := Option.some.inj done
    rw [if_pos found]
    exact drifts_of_square (square_refl audited)
  · rw [if_neg found]
    rcases free_cases core live found done with
      ⟨owner, ready, owned, attached, rfl⟩ | ⟨header, isDirect, _⟩
    · obtain ⟨readyRest, heap, rtree⟩ := at_rest_attach rest attached
      obtain ⟨readyAudited, level⟩ := attach_discrepancy rest audited attached
      have known : lzRtreeGet ready.rtree ptr ≠ 0 := by
        rw [rtree, ← resolve_eq]
        exact found
      exact drifts_square ⟨readyAudited, level⟩
        (square_tlh_free readyRest readyAudited heap live owned known)
    · have listed := direct_known core isDirect
      rw [audited.mapless] at listed
      cases listed

/-! ## Steps -/

def SlabSized : ApiAct → Prop
  | .malloc _ size => size ≤ lzMaxSlabObjSize
  | .calloc _ num size => num * size ≤ lzMaxSlabObjSize
  | .realloc _ _ size => size ≤ lzMaxSlabObjSize
  | .memalign _ alignment size =>
      isPowerOfTwo alignment = true → alignment ≤ 64 ∧ size ≤ lzMaxSlabObjSize
  | _ => True

instance : (act : ApiAct) → Decidable (SlabSized act)
  | .malloc _ size | .realloc _ _ size => inferInstanceAs (Decidable (size ≤ lzMaxSlabObjSize))
  | .calloc _ num size => inferInstanceAs (Decidable (num * size ≤ lzMaxSlabObjSize))
  | .memalign _ _ _ => inferInstanceAs (Decidable (_ → _))
  | .free _ _ | .exit _ | .gc _ | .attach _ | .reap _ | .write _ _ _ =>
      inferInstanceAs (Decidable True)

/-- The thread for which the step calls `ensure_tls_init`, if it does. -/
def initialises (s : State) : ApiAct → Option Nat
  | .malloc thread _ => some thread
  | .calloc thread _ _ => some thread
  | .attach thread => some thread
  | .memalign thread alignment _ => if isPowerOfTwo alignment then some thread else none
  | .free thread ptr => if ptr = 0 ∨ resolve s ptr = 0 then none else some thread
  | .realloc thread ptr size =>
      if ptr = 0 then some thread
      else if size = 0 then if resolve s ptr = 0 then none else some thread
      else if lzMallocUsableSize s ptr = 0 ∨ size ≤ lzMallocUsableSize s ptr then none
      else some thread
  | _ => none

/-- What is pending in the zombie heap that the step adopts, if it adopts one. -/
def lostBytes (s : State) (act : ApiAct) : Int := (initialises s act).elim 0 (adoptedBytes s)

theorem calloc_size_small {num : Nat} (small : num * size ≤ lzMaxSlabObjSize) :
    callocSize num size ≤ lzMaxSlabObjSize := by
  unfold callocSize
  split
  · decide
  · exact small

theorem align_up_small {alignment : Nat} (power : isPowerOfTwo alignment = true)
    (narrow : alignment ≤ 64) (small : size ≤ lzMaxSlabObjSize) :
    lzAlignUp size alignment ≤ lzMaxSlabObjSize := by
  obtain ⟨k, rfl⟩ := is_power_of_two_eq power
  have exponent : k ≤ 6 := by
    by_contra large
    have wide : 2 ^ 7 ≤ 2 ^ k := Nat.pow_le_pow_right (by norm_num) (by omega)
    omega
  simp only [lzMaxSlabObjSize] at small ⊢
  rw [lz_align_up_eq size power]
  interval_cases k <;> omega

theorem slab_malloc_fits (small : size ≤ lzMaxSlabObjSize) : MallocFits size := by
  simp only [lzMaxSlabObjSize] at small
  apply Or.inl
  simp only [lzMaxSpanObjSize]
  omega

theorem slab_sized_fits {act : ApiAct} (small : SlabSized act) : ApiFits sys act := by
  cases act with
  | malloc thread size => exact slab_malloc_fits small
  | calloc thread num size => exact fun _ => slab_malloc_fits (calloc_size_small small)
  | realloc thread ptr size => exact fun _ => slab_malloc_fits small
  | memalign thread alignment size =>
      intro power direct
      exact absurd (small power) direct.1
  | free thread ptr => trivial
  | exit thread => trivial
  | gc thread => trivial
  | attach thread => trivial
  | reap tlh => trivial
  | write ptr offset value => trivial

theorem calloc_drifts (rest : AtRest mode s g) (audited : Audited s) {num : Nat}
    (small : num * size ≤ lzMaxSlabObjSize)
    (done : lzCalloc s thread num size = some (ptr, after)) :
    Drifts (adoptedBytes s thread) s after := by
  have total := calloc_size_small small
  rcases calloc_cases done with
    ⟨wide, _⟩ | ⟨_, ready, allocated, rfl | ⟨_, rfl⟩⟩
  · simp only [lzMaxSlabObjSize] at total
    omega
  · exact (malloc_drifts rest audited total allocated).1
  · obtain ⟨drifts, _⟩ := malloc_drifts rest audited total allocated
    exact drifts_square drifts (square_mem drifts.audited _)

theorem realloc_drifts (rest : AtRest mode s g) (audited : Audited s) {result : Nat}
    (known : ptr = 0 ∨ g.node ptr = .live) (small : size ≤ lzMaxSlabObjSize)
    (done : lzRealloc s thread ptr size = some (result, after)) :
    Drifts (lostBytes s (.realloc thread ptr size)) s after := by
  simp only [lostBytes, initialises]
  by_cases null : ptr = 0
  · rw [lzRealloc, if_pos null] at done
    rw [if_pos null]
    exact (malloc_drifts rest audited small done).1
  have live := known.resolve_left null
  rw [if_neg null]
  by_cases nothing : size = 0
  · rw [lzRealloc, if_neg null, if_pos nothing] at done
    obtain ⟨freed, released, same⟩ := Option.map_eq_some_iff.mp done
    rw [← (Prod.mk.inj same).2, if_pos nothing]
    have drifts := free_drifts rest audited live released
    split at drifts
    · next unknown => rwa [if_pos unknown]
    · next found => rwa [if_neg found]
  rw [if_neg nothing]
  rcases lz_realloc_branches null nothing done with
    ⟨_, rfl, unknown⟩ | ⟨_, rfl, fits⟩ |
    ⟨usable, grows, ⟨_, refused⟩ | ⟨moved, ready, allocated, released⟩⟩
  · rw [if_pos (Or.inl unknown)]
    exact drifts_of_square (square_refl audited)
  · rw [if_pos (Or.inr fits)]
    exact drifts_of_square (square_refl audited)
  · rw [if_neg (not_or.mpr ⟨usable, Nat.not_le.mpr grows⟩)]
    exact (malloc_drifts rest audited small refused).1
  · rw [if_neg (not_or.mpr ⟨usable, Nat.not_le.mpr grows⟩)]
    obtain ⟨drifts, attached⟩ := malloc_drifts rest audited small allocated
    have bound : size < 2 ^ 64 := by
      simp only [lzMaxSlabObjSize] at small
      omega
    obtain ⟨final, copiedRest, outcome⟩ :=
      served_copy (served_malloc rest (slab_malloc_fits small) allocated) moved bound
      (le_of_lt grows)
    have fresh := (outcome.resolve_left fun failed => moved failed.1).2
    have copied := drifts_square drifts (square_mem drifts.audited
      (ByteMemory.copy ready.mem result ptr (lzMallocUsableSize s ptr)))
    have freed :=
      free_drifts copiedRest copied.audited ((fresh.live ptr).mpr (Or.inr live)) released
    have nothing : adoptedBytes
        { ready with
          mem := ByteMemory.copy ready.mem result ptr (lzMallocUsableSize s ptr) } thread = 0 :=
      attached_adopts_nothing attached
    rw [nothing, ite_self] at freed
    exact ⟨freed.audited, by rw [freed.level, copied.level, Int.cast_zero, sub_zero]; rfl⟩

theorem memalign_drifts (rest : AtRest mode s g) (audited : Audited s) {alignment : Nat}
    (small : isPowerOfTwo alignment = true → alignment ≤ 64 ∧ size ≤ lzMaxSlabObjSize)
    (done : lzMemalign s thread alignment size = some (ptr, after)) :
    Drifts (lostBytes s (.memalign thread alignment size)) s after := by
  simp only [lostBytes, initialises]
  unfold lzMemalign at done
  by_cases power : isPowerOfTwo alignment = true
  · have valid : ¬(alignment = 0 ∨ ¬isPowerOfTwo alignment) := by
      intro invalid
      cases invalid with
      | inl zero => simp [zero, isPowerOfTwo] at power
      | inr other => exact other power
    rw [if_neg valid, if_pos (small power)] at done
    rw [if_pos power]
    exact (malloc_drifts rest audited (align_up_small power (small power).1 (small power).2) done).1
  · rw [if_pos (Or.inr power), Option.some.injEq, Prod.mk.injEq] at done
    rw [if_neg power, ← done.2]
    exact drifts_of_square (square_refl audited)

/-- Every step of a slab-only run moves both sides by the same amount, except
for what is pending in a zombie that it adopts. -/
theorem step_drifts (ok : ApiOk mode sys g) (audited : Audited sys.state) {act : ApiAct}
    (small : SlabSized act) (stepped : apiStep sys act = some reached) :
    Drifts (lostBytes sys.state act) sys.state reached.state := by
  have rest := ok.rest
  cases act with
  | malloc thread size =>
      simp only [apiStep] at stepped
      split at stepped
      · obtain ⟨⟨ptr, after⟩, called, rfl⟩ := Option.map_eq_some_iff.mp stepped
        rw [hand_out_state]
        exact (malloc_drifts rest audited small called).1
      · cases stepped
  | calloc thread num size =>
      simp only [apiStep] at stepped
      split at stepped
      · obtain ⟨⟨ptr, after⟩, called, rfl⟩ := Option.map_eq_some_iff.mp stepped
        rw [hand_out_state]
        exact calloc_drifts rest audited small called
      · cases stepped
  | realloc thread ptr size =>
      simp only [apiStep] at stepped
      split at stepped
      · next allowed =>
        obtain ⟨⟨result, after⟩, called, rfl⟩ := Option.map_eq_some_iff.mp stepped
        rw [finish_realloc_state]
        exact realloc_drifts rest audited (allowed.2.imp_right (ok.live ptr).mp) small called
      · cases stepped
  | memalign thread alignment size =>
      simp only [apiStep] at stepped
      split at stepped
      · obtain ⟨⟨ptr, after⟩, called, rfl⟩ := Option.map_eq_some_iff.mp stepped
        rw [hand_out_state]
        exact memalign_drifts rest audited small called
      · cases stepped
  | free thread ptr =>
      rcases api_free_cases stepped with ⟨null, rfl⟩ | ⟨null, known, after, called, rfl⟩
      · simp only [takeBack, lostBytes, initialises]
        rw [if_pos (Or.inl null)]
        exact drifts_of_square (square_refl audited)
      · simp only [takeBack, lostBytes, initialises]
        have drifts := free_drifts rest audited ((ok.live ptr).mp known) called
        split at drifts
        · next unknown => rwa [if_pos (Or.inr unknown)]
        · next found => rwa [if_neg (not_or.mpr ⟨null, found⟩)]
  | exit thread =>
      simp only [apiStep, Option.some.injEq] at stepped
      rw [← stepped]
      dsimp only [lostBytes, initialises, Option.elim_none]
      exact drifts_of_square (square_exit rest audited thread)
  | gc thread =>
      simp only [apiStep, Option.some.injEq] at stepped
      rw [← stepped]
      dsimp only [lostBytes, initialises, Option.elim_none]
      exact drifts_of_square (square_gc rest audited thread)
  | attach thread =>
      obtain ⟨after, attached, rfl⟩ := Option.map_eq_some_iff.mp stepped
      obtain ⟨later, level⟩ := attach_discrepancy rest audited attached
      exact ⟨later, level⟩
  | reap tlh =>
      simp only [apiStep] at stepped
      split at stepped
      · next heap =>
        simp only [Option.some.injEq] at stepped
        rw [← stepped]
        dsimp only [lostBytes, initialises, Option.elim_none]
        exact drifts_of_square (square_reap rest audited heap)
      · cases stepped
  | write ptr offset value =>
      simp only [apiStep] at stepped
      split at stepped
      · obtain rfl := Option.some.inj stepped
        exact drifts_of_square (square_mem audited _)
      · cases stepped

/-! ## Runs -/

structure Ledgered (sys : ApiSys) : Prop where
  ok : ∃ g, ApiOk (apiMode False) sys g
  audited : Audited sys.state

theorem ledgered_start (env : Env) (secret : BitVec 64) : Ledgered (apiStart env secret true) := by
  constructor
  · exact ⟨emptyGhost, api_start_ok env secret true False.elim⟩
  · exact ⟨rfl, by simp [apiStart, initial], fun _ => rfl, rfl, fun _ _ => rfl⟩

theorem start_level (env : Env) (secret : BitVec 64) :
    discrepancy (apiStart env secret true).state = 0 := by
  have slots : ∑ slot ∈ threadSlots, (apiStart env secret true).state.slots slot = 0 :=
    Finset.sum_eq_zero fun _ _ => rfl
  have heaps : (apiStart env secret true).state.heaps = [] := rfl
  have reported : reportedBytes (apiStart env secret true).state = 0 := by
    rw [reportedBytes, slots, heaps, List.toFinset_nil, Finset.sum_empty, Int.cast_zero, add_zero]
  have counted : countedBytes (apiStart env secret true).state.slab = 0 :=
    Finset.sum_eq_zero fun _ _ => rfl
  rw [discrepancy, reported, counted, Nat.cast_zero, sub_zero]

theorem ledgered_step (ledgered : Ledgered sys) {act : ApiAct} (small : SlabSized act)
    (stepped : apiStep sys act = some reached) :
    Ledgered reached ∧
      discrepancy reached.state = discrepancy sys.state - lostBytes sys.state act := by
  obtain ⟨⟨g, ok⟩, audited⟩ := ledgered
  have drifts := step_drifts ok audited small stepped
  exact ⟨⟨api_step_ok ok id (slab_sized_fits small) stepped, drifts.audited⟩, drifts.level⟩

/-- Everything that the adoptions of a run have lost. -/
def lostAlong : ApiSys → List ApiAct → Int
  | _, [] => 0
  | sys, act :: acts =>
      lostBytes sys.state act + (apiStep sys act).elim 0 fun reached => lostAlong reached acts

theorem ledgered_run {acts : List ApiAct} (ledgered : Ledgered sys)
    (small : ∀ act ∈ acts, SlabSized act) (ran : run apiStep sys acts = some reached) :
    Ledgered reached ∧ discrepancy reached.state = discrepancy sys.state - lostAlong sys acts := by
  induction acts generalizing sys with
  | nil =>
      obtain rfl := Option.some.inj ran
      exact ⟨ledgered, by rw [lostAlong, Int.cast_zero, sub_zero]⟩
  | cons act acts ih =>
      obtain ⟨next, stepped, later⟩ := Option.bind_eq_some_iff.mp ran
      obtain ⟨nextLedgered, level⟩ := ledgered_step ledgered (small act List.mem_cons_self) stepped
      obtain ⟨final, drifted⟩ := ih nextLedgered
        (fun each member => small each (List.mem_cons_of_mem act member)) later
      refine ⟨final, ?_⟩
      rw [drifted, level, lostAlong, stepped, Option.elim_some, Int.cast_add]
      ring

/-! ## Objects -/

def Outstanding (sys : ApiSys) (ptr : Nat) : Prop :=
  (sys.live ptr).isSome ∨ Travelling sys.state ptr ∨ Lost sys ptr

open Classical in
/-- The block sizes of all slab objects that are live or freed and not yet reaped. -/
noncomputable def outstandingBytes (sys : ApiSys) : Nat :=
  ∑ ptr ∈ (Finset.range addressLimit).filter (Outstanding sys),
    (sys.state.slab (chunkBase ptr + lzCacheLineSize)).blockSize

theorem used_slab_only (ok : ApiOk mode sys g) (audited : Audited sys.state)
    (used : (g.node ptr).InUse) : ∃ tlh classIdx, g.kind (chunkBase ptr) = .slab tlh classIdx := by
  have core := ok.rest.inv.toCore
  have present : g.node ptr ≠ .none := by
    intro absent
    simp [absent, NodePlace.InUse] at used
  have holds := core.objects.scope ptr present
  cases kind : g.kind (chunkBase ptr) with
  | slab tlh classIdx => exact ⟨tlh, classIdx, rfl⟩
  | span tlh => exact absurd kind (audited.only core _ tlh)
  | direct header =>
      have listed := direct_known core kind
      rw [audited.mapless] at listed
      cases listed
  | unused => simp [kind, BlockKind.HoldsObjects] at holds
  | idle place => simp [kind, BlockKind.HoldsObjects] at holds
  | loose => simp [kind, BlockKind.HoldsObjects] at holds

theorem outstanding_iff (ok : ApiOk mode sys g) (audited : Audited sys.state) :
    Outstanding sys ptr ↔ (g.node ptr).InUse := by
  have core := ok.rest.inv.toCore
  rw [Outstanding, ok.live ptr, travelling_iff core ok.rest.cursor, lost_iff ok]
  constructor
  · intro outstanding
    rcases outstanding with live | flying | lost
    · rw [live]
      trivial
    · exact RemoteFree.in_flight_used flying
    · rw [lost.2]
      trivial
  · intro used
    rcases in_use_cases used with live | leaked | flying
    · exact Or.inl live
    · obtain ⟨tlh, classIdx, isSlab⟩ := used_slab_only ok audited used
      exact Or.inr (Or.inr ⟨⟨tlh, by rw [isSlab]; rfl⟩, leaked⟩)
    · exact Or.inr (Or.inl flying)

theorem slab_used_card {chunk tlh classIdx : Nat} (core : Core mode s g)
    (isSlab : g.kind chunk = .slab tlh classIdx) :
    (s.slab (chunk + 64)).usedObjects =
      Set.ncard { ptr | chunkBase ptr = chunk ∧ (g.node ptr).InUse } := by
  have ok := core.slabs chunk tlh classIdx isSlab
  have aligned := (core.geom.placed chunk (by simp [isSlab])).1
  have used : ∀ ptr, (g.node ptr).InUse ↔ g.node ptr ≠ .none ∧ g.node ptr ≠ .free := by
    intro ptr
    cases g.node ptr <;> simp [NodePlace.InUse]
  have image : { ptr | chunkBase ptr = chunk ∧ (g.node ptr).InUse } =
      Set.image (fun index => chunk + 128 + index * lzClassToSize classIdx)
        { index | index < bumpedCount (s.slab (chunk + 64)) ∧
          g.node (chunk + 128 + index * lzClassToSize classIdx) ≠ .free } := by
    ext ptr
    simp only [Set.mem_ofPred_eq, Set.mem_image, used]
    constructor
    · rintro ⟨inside, present, taken⟩
      obtain ⟨index, below, rfl⟩ := (ok.blocks ptr inside).mp present
      exact ⟨index, ⟨below, taken⟩, rfl⟩
    · rintro ⟨index, ⟨below, taken⟩, rfl⟩
      have inside := slab_block_base ok aligned below
      exact ⟨inside, (ok.blocks _ inside).mpr ⟨index, below, rfl⟩, taken⟩
  rw [slab_used_count ok aligned, image,
    Set.ncard_image_of_injective _ fun _ _ same => slab_block_injective ok.classBound same]

open Classical in
theorem outstanding_card (ok : ApiOk mode sys g) (audited : Audited sys.state) (block : Nat) :
    (((Finset.range addressLimit).filter (Outstanding sys)).filter
      fun ptr => ptr / 2097152 = block).card =
      (sys.state.slab (block * 2097152 + 64)).usedObjects := by
  have core := ok.rest.inv.toCore
  have members : (((Finset.range addressLimit).filter (Outstanding sys)).filter
      (fun ptr => ptr / 2097152 = block) : Set Nat) =
      { ptr | chunkBase ptr = block * 2097152 ∧ (g.node ptr).InUse } := by
    ext ptr
    have base : chunkBase ptr = block * 2097152 ↔ ptr / 2097152 = block := by
      simp only [chunkBase, lzHugePageSize]
      omega
    simp only [Finset.coe_filter, Finset.mem_filter, Finset.mem_range, Set.mem_ofPred_eq, base,
      outstanding_iff ok audited]
    constructor
    · exact fun both => ⟨both.2, both.1.2⟩
    · intro both
      have present : g.node ptr ≠ .none := by
        intro absent
        simp [absent, NodePlace.InUse] at both
      have bound := (core_node_bound core present).2
      exact ⟨⟨by simp only [addressLimit]; omega, both.2⟩, both.1⟩
  rw [← Set.ncard_coe_finset, members]
  by_cases isSlab : ∃ tlh classIdx, g.kind (block * 2097152) = .slab tlh classIdx
  · obtain ⟨tlh, classIdx, kind⟩ := isSlab
    exact (slab_used_card core kind).symm
  · have idle := audited.clear ok.rest (block * 2097152)
      fun tlh classIdx kind => isSlab ⟨tlh, classIdx, kind⟩
    have empty : { ptr | chunkBase ptr = block * 2097152 ∧ (g.node ptr).InUse } = ∅ := by
      ext ptr
      simp only [Set.mem_ofPred_eq, Set.mem_empty_iff_false, iff_false, not_and]
      intro base used
      obtain ⟨tlh, classIdx, kind⟩ := used_slab_only ok audited used
      exact isSlab ⟨tlh, classIdx, base ▸ kind⟩
    rw [empty, Set.ncard_empty, idle]

open Classical in
/-- What the descriptors count is what the client, the batches and the mailboxes
hold. -/
theorem outstanding_counted (ok : ApiOk mode sys g) (audited : Audited sys.state) :
    outstandingBytes sys = countedBytes sys.state.slab := by
  have bounded : ∀ ptr ∈ (Finset.range addressLimit).filter (Outstanding sys),
      ptr / 2097152 ∈ Finset.range 134217728 := by
    intro ptr member
    have below := Finset.mem_range.mp (Finset.mem_filter.mp member).1
    simp only [addressLimit] at below
    rw [Finset.mem_range]
    omega
  unfold outstandingBytes countedBytes
  rw [← Finset.sum_fiberwise_of_maps_to bounded]
  apply Finset.sum_congr rfl
  intro block _
  rw [slabBytes, ← outstanding_card ok audited block]
  apply Finset.sum_const_nat
  intro ptr member
  have here := (Finset.mem_filter.mp member).2
  have base : chunkBase ptr = block * 2097152 := by
    simp only [chunkBase, lzHugePageSize]
    omega
  rw [base, lzCacheLineSize]

/-! ## The balance -/

/-- The slots have 64 bits, so the two sums are compared modulo `2 ^ 64`. -/
def Balanced (sys : ApiSys) : Prop :=
  reportedBytes sys.state = BitVec.ofNat 64 (outstandingBytes sys)

theorem balanced_iff (ledgered : Ledgered sys) : Balanced sys ↔ discrepancy sys.state = 0 := by
  obtain ⟨⟨g, ok⟩, audited⟩ := ledgered
  rw [Balanced, outstanding_counted ok audited, discrepancy, sub_eq_zero, BitVec.natCast_eq_ofNat]

theorem lost_bytes_wrapped (act : ApiAct) (ledgered : Ledgered sys) :
    (lostBytes sys.state act : BitVec 64) = 0 ↔ lostBytes sys.state act = 0 := by
  obtain ⟨⟨g, ok⟩, audited⟩ := ledgered
  have adopted := adopted_bytes_bound ok.rest audited
  have bound : -4096 < lostBytes sys.state act ∧ lostBytes sys.state act < 1048576 := by
    unfold lostBytes
    cases initialises sys.state act with
    | none => exact ⟨by norm_num, by norm_num⟩
    | some thread => exact adopted thread
  generalize lostBytes sys.state act = lost at bound
  constructor
  · intro wrapped
    have value := congrArg BitVec.toInt wrapped
    rw [show (lost : BitVec 64) = BitVec.ofInt 64 lost from rfl, BitVec.toInt_ofInt,
      Int.bmod_eq_of_le_mul_two (by push_cast; omega) (by push_cast; omega)] at value
    exact value
  · rintro rfl
    rfl

theorem balanced_step (act : ApiAct) (ledgered : Ledgered sys) (balanced : Balanced sys)
    (small : SlabSized act) (stepped : apiStep sys act = some reached) :
    Ledgered reached ∧ (Balanced reached ↔ lostBytes sys.state act = 0) := by
  obtain ⟨later, drifted⟩ := ledgered_step ledgered small stepped
  have level := (balanced_iff ledgered).mp balanced
  rw [balanced_iff later, drifted, level, zero_sub, neg_eq_zero, lost_bytes_wrapped act ledgered]
  exact ⟨later, Iff.rfl⟩

/-- Every state of a slab-only run is balanced exactly when no step adopts a
zombie heap with pending counters. -/
theorem telemetry_balanced_iff {env : Env} {secret : BitVec 64} {acts : List ApiAct}
    {final : ApiSys}
    (small : ∀ act ∈ acts, SlabSized act)
    (ran : run apiStep (apiStart env secret true) acts = some final) :
    (∀ before sys, before <+: acts → run apiStep (apiStart env secret true) before = some sys →
        Balanced sys) ↔
      Along apiStep (fun sys act => lostBytes sys.state act = 0)
      (apiStart env secret true) acts := by
  have ledgered := ledgered_start env secret
  have balanced := (balanced_iff ledgered).mpr (start_level env secret)
  exact good_along_iff (fun _ act _ => balanced_step act) ledgered balanced small ran

/-- Thread 2 adopts the heap of thread 1 after the destructor has flushed it. -/
def adoptionRun : List ApiAct := [.malloc 1 24, .exit 1, .malloc 2 24]

theorem balanced_after_adoption :
    ∃ sys, run apiStep (apiStart generousEnv 7 true) adoptionRun = some sys ∧
      sys.state.tls 2 = 4096 ∧ Balanced sys := by
  have facts : (run apiStep (apiStart generousEnv 7 true) adoptionRun).map
      (fun sys => sys.state.tls 2) = some 4096 := by decide +kernel
  obtain ⟨sys, ran, heap⟩ := Option.map_eq_some_iff.mp facts
  have along : Along apiStep (fun sys act => lostBytes sys.state act = 0)
      (apiStart generousEnv 7 true) adoptionRun := by decide +kernel
  have balanced := (telemetry_balanced_iff (by decide) ran).mpr along
  exact ⟨sys, ran, heap, balanced adoptionRun sys (List.prefix_refl _) ran⟩

/-- Thread 2 frees a block of thread 1, both exit, a collection by thread 3 reaps
the block, and thread 3 adopts the heap in which the free is still pending. -/
def handOverRun : List ApiAct :=
  [.malloc 1 24, .free 2 4359979136, .exit 2, .exit 1, .gc 3, .malloc 3 24]

theorem adoption_loses_free :
    ∃ sys, run apiStep (apiStart generousEnv 7 true) handOverRun = some sys ∧
      reportedBytes sys.state = BitVec.ofNat 64 (outstandingBytes sys) + 32 ∧ ¬Balanced sys := by
  have facts : (run apiStep (apiStart generousEnv 7 true) handOverRun).isSome = true := by
    decide +kernel
  obtain ⟨sys, ran⟩ := Option.isSome_iff_exists.mp facts
  have lost : lostAlong (apiStart generousEnv 7 true) handOverRun = -32 := by decide +kernel
  obtain ⟨⟨⟨g, ok⟩, audited⟩, drifted⟩ :=
    ledgered_run (ledgered_start generousEnv 7) (by decide) ran
  rw [start_level, lost, discrepancy, ← outstanding_counted ok audited] at drifted
  have more : reportedBytes sys.state = BitVec.ofNat 64 (outstandingBytes sys) + 32 := by
    rw [← BitVec.natCast_eq_ofNat]
    linear_combination drifted
  refine ⟨sys, ran, more, fun balanced => ?_⟩
  rw [Balanced, more, add_eq_left] at balanced
  exact absurd balanced (by decide)

end Lzmalloc.TelemetryContracts
