import Lzmalloc.ObjectRanges

/-!
# Operations of a heap

The whole of `lz_tlh_alloc`, a new heap, the purge of the chunk caches and the
state in which everything starts.
-/

namespace Lzmalloc.HeapOperations

open SizeClasses HeapState VirtualMemoryManager PointerChain DoublyLinked Engines ThreadHeap
open HeapInvariant InvariantFacts ChunkRoles ChunkTransfer ClientView SlabAllocation SpanLifecycle
open RemoteFree BinLists ThreadFrames

set_option autoImplicit false

variable {mode : Mode} {s : State} {g : Ghost} {tlh : Nat}

/-! ## Allocation -/

theorem account_alloc_eq (s : State) (tlh bytes : Nat) :
    accountAlloc s tlh bytes =
      { s with
        slots := (accountAlloc s tlh bytes).slots
        tlh := (accountAlloc s tlh bytes).tlh } := by
  unfold accountAlloc
  cases (s.tlh tlh).statSlot with
  | none => rfl
  | some slot =>
      simp only
      split
      · rfl
      · rfl

@[simp] theorem account_alloc_slab (s : State) (tlh bytes : Nat) :
    (accountAlloc s tlh bytes).slab = s.slab := by
  rw [account_alloc_eq]

theorem inv_account_alloc (inv : Inv mode s g) (tlh bytes : Nat) :
    Inv mode (accountAlloc s tlh bytes) g := by
  rw [account_alloc_eq]
  exact { inv with }

theorem lz_tlh_alloc_attempt_eq (s : State) (tlh scIdx : Nat) :
    lzTlhAllocAttempt s tlh scIdx =
      if (s.bins tlh scIdx).currentSlab ≠ 0 ∧
          (s.slab (s.bins tlh scIdx).currentSlab).freeListHead ≠ 0 then
        popFreeBlock s (s.bins tlh scIdx).currentSlab
      else tryCurrent (lzTlhReap s tlh) tlh scIdx := rfl

/-- Paths 1 and 2: a block of the current slab, or an exhausted current slab. -/
theorem inv_alloc_attempt (inv : Inv mode s g) (idle : g.cursor tlh = 0) (scIdx : Nat) :
    ((lzTlhAllocAttempt s tlh scIdx).1 = 0 ∧ ∃ last,
        Inv mode (lzTlhAllocAttempt s tlh scIdx).2 last ∧ Quiet g last ∧
          Course s.slab g (lzTlhAllocAttempt s tlh scIdx).2.slab last ∧
          Exhausted (lzTlhAllocAttempt s tlh scIdx).2 tlh scIdx) ∨
      ((lzTlhAllocAttempt s tlh scIdx).1 ≠ 0 ∧ ∃ last,
        Inv mode (lzTlhAllocAttempt s tlh scIdx).2 last ∧
          Allocated g last (lzTlhAllocAttempt s tlh scIdx).1 (.slab scIdx) ∧
          Course s.slab g (lzTlhAllocAttempt s tlh scIdx).2.slab last) := by
  rw [lz_tlh_alloc_attempt_eq]
  by_cases listed : (s.bins tlh scIdx).currentSlab ≠ 0 ∧
      (s.slab (s.bins tlh scIdx).currentSlab).freeListHead ≠ 0
  · rw [if_pos listed]
    obtain ⟨chunk, position, isSlab, current⟩ := core_current_slab inv.toCore listed.1
    rw [position] at listed ⊢
    exact Or.inr ⟨listed.2, inv_pop_current inv isSlab current listed.2⟩
  · rw [if_neg listed]
    obtain ⟨reaped, reapedInv, quiet, swept, _⟩ := inv_reap inv idle
    rcases inv_try_current reapedInv tlh scIdx with ⟨failed, still, kept, exhausted⟩ | ⟨got, last,
      lastInv, allocated, course⟩
    · exact Or.inl ⟨failed, reaped, still, quiet, course_trans swept.toCourse kept, exhausted⟩
    · exact Or.inr ⟨got, last, lastInv, quiet_allocated quiet allocated,
        course_trans swept.toCourse course⟩

def tlhOrigin (size : Nat) : Origin :=
  if size > lzMaxSlabObjSize then .span (spanPages size) else .slab (lzSizeToClass size)

theorem inv_tlh_alloc (inv : Inv mode s g) (heap : tlh ∈ s.heaps) (idle : g.cursor tlh = 0)
    (size : Nat) :
    ∃ last, Inv mode (lzTlhAlloc s tlh size).2 last ∧
      Course s.slab g (lzTlhAlloc s tlh size).2.slab last ∧
      (((lzTlhAlloc s tlh size).1 = 0 ∧ Quiet g last) ∨
        ((lzTlhAlloc s tlh size).1 ≠ 0 ∧
          Allocated g last (lzTlhAlloc s tlh size).1 (tlhOrigin size))) := by
  unfold lzTlhAlloc tlhOrigin
  by_cases large : size > lzMaxSlabObjSize
  · rw [if_pos large, if_pos large]
    exact inv_span_alloc inv heap size
  · rw [if_neg large, if_neg large]
    have classBound := slab_class_bound (by simpa using large : size ≤ 32768)
    obtain ⟨scIdx, scEq⟩ : ∃ scIdx, lzSizeToClass size = scIdx := ⟨_, rfl⟩
    have frame := (alloc_attempt_batches s tlh scIdx).threads
    have outcome := inv_alloc_attempt inv idle scIdx
    rw [scEq] at classBound
    simp only [scEq]
    generalize lzTlhAllocAttempt s tlh scIdx = attempt at outcome frame ⊢
    have got : ∃ last, Inv mode (if attempt.1 = 0 then lzTlhAllocSlow attempt.2 tlh scIdx
        else attempt).2 last ∧ Course s.slab g (if attempt.1 = 0 then
          lzTlhAllocSlow attempt.2 tlh scIdx else attempt).2.slab last ∧
        (((if attempt.1 = 0 then lzTlhAllocSlow attempt.2 tlh scIdx else attempt).1 = 0 ∧
            Quiet g last) ∨
          ((if attempt.1 = 0 then lzTlhAllocSlow attempt.2 tlh scIdx else attempt).1 ≠ 0 ∧
            Allocated g last (if attempt.1 = 0 then lzTlhAllocSlow attempt.2 tlh scIdx
              else attempt).1 (.slab scIdx))) := by
      rcases outcome with ⟨failed, middle, middleInv, quiet, course, exhausted⟩ | ⟨some, last,
        lastInv, allocated, course⟩
      · rw [if_pos failed]
        obtain ⟨last, lastInv, lastCourse, cases⟩ := inv_alloc_slow middleInv
          (by rw [frame.heaps]; exact heap) classBound exhausted
        refine ⟨last, lastInv, course_trans course lastCourse, cases.imp ?_ ?_⟩
        · exact fun none => ⟨none.1, quiet_trans quiet none.2⟩
        · exact fun some => ⟨some.1, quiet_allocated quiet some.2⟩
      · rw [if_neg some]
        exact ⟨last, lastInv, course, Or.inr ⟨some, allocated⟩⟩
    generalize (if attempt.1 = 0 then lzTlhAllocSlow attempt.2 tlh scIdx else attempt) = result
      at got ⊢
    obtain ⟨last, lastInv, course, cases⟩ := got
    by_cases none : result.1 = 0
    · rw [if_pos none]
      exact ⟨last, lastInv, course, Or.inl ⟨rfl, (cases.resolve_right fun some => some.1 none).2⟩⟩
    · rw [if_neg none]
      simp only [account_alloc_slab]
      exact ⟨last, inv_account_alloc lastInv _ _, course,
        Or.inr ⟨none, (cases.resolve_left fun failed => none failed.1).2⟩⟩

/-! ## A new heap -/

/-- A heap that is not on the list owns nothing, so initialising it changes no
list that matters. -/
theorem inv_tlh_init (inv : Inv mode s g) (fresh : tlh ∉ s.heaps) (nonnull : tlh ≠ 0)
    (tid calls : Nat) :
    Inv mode (lzTlhInit { s with tlhCalls := calls, heaps := tlh :: s.heaps } tlh tid) g := by
  have stranger : ∀ chunk, (g.kind chunk).owner ≠ some tlh := fun chunk owned =>
    fresh (inv.objects.heaps.owner chunk tlh owned)
  have unowned : ∀ classIdx place slab, ¬InBin g.kind g.bin tlh classIdx place slab := by
    rintro classIdx place slab ⟨chunk, _, isSlab, _⟩
    exact stranger chunk (by simp [isSlab, BlockKind.owner])
  have heaps : HeapsInv (tlh :: s.heaps) g.kind g.node := by
    refine ⟨fun heap member => ?_, fun chunk heap owned => ?_, fun ptr heap there => ?_⟩
    · rcases List.mem_cons.mp member with rfl | old
      · exact nonnull
      · exact inv.objects.heaps.nonnull heap old
    · exact List.mem_cons_of_mem _ (inv.objects.heaps.owner chunk heap owned)
    · exact List.mem_cons_of_mem _ (inv.objects.heaps.batch ptr heap there)
  have apart : ∀ ptr heap, g.node ptr = .batch heap → heap ≠ tlh := by
    rintro ptr heap there rfl
    exact fresh (inv.objects.heaps.batch ptr heap there)
  have owners : OwnerInv (Function.update s.outgoingBatch tlh {}) g.kind g.node := by
    refine { inv.objects.owners with batch := fun ptr heap there => ?_ }
    rw [Function.update_of_ne (apart ptr heap there)]
    exact inv.objects.owners.batch ptr heap there
  refine { inv with
    lists := ?_, current := ?_, spanList := ?_, mail := ⟨?_, inv.mail.reaping, ?_, ?_, ?_, ?_⟩,
    objects := { inv.objects with owners := owners, heaps := heaps } }
  · intro heap classIdx place listed
    by_cases same : heap = tlh
    · subst same
      cases place with
      | inCurrent => exact absurd rfl listed
      | inPartial =>
          simp only [lzTlhInit, Function.update_self]
          exact doubly_empty (unowned classIdx .inPartial)
      | inFull =>
          simp only [lzTlhInit, Function.update_self]
          exact doubly_empty (unowned classIdx .inFull)
    · simp only [lzTlhInit, Function.update_of_ne same]
      exact inv.lists heap classIdx place listed
  · intro heap classIdx
    by_cases same : heap = tlh
    · subst same
      simp only [lzTlhInit, Function.update_self]
      refine ⟨fun slab => iff_of_false (unowned classIdx .inCurrent slab) ?_,
        fun slab there => absurd there (unowned classIdx .inCurrent slab)⟩
      exact fun both => both.1 both.2
    · simp only [lzTlhInit, Function.update_of_ne same]
      exact inv.current heap classIdx
  · intro heap
    by_cases same : heap = tlh
    · subst same
      simp only [lzTlhInit, Function.update_self]
      refine doubly_empty ?_
      rintro span ⟨chunk, _, isSpan⟩
      exact stranger chunk (by simp [isSpan, BlockKind.owner])
    · simp only [lzTlhInit, Function.update_of_ne same]
      exact inv.spanList heap
  · intro heap
    by_cases same : heap = tlh
    · subst same
      simp only [lzTlhInit, Function.update_self]
      exact ⟨0, enumerates_empty fun ptr mailed =>
        stranger _ (inv.objects.owners.mail ptr heap mailed)⟩
    · simp only [lzTlhInit, Function.update_of_ne same]
      exact inv.mail.mail heap
  · intro heap empty
    by_cases same : heap = tlh
    · subst same
      simp only [lzTlhInit, Function.update_self]
      exact ⟨trivial, fun ptr there => apart ptr heap there rfl⟩
    · simp only [lzTlhInit, Function.update_of_ne same] at empty ⊢
      exact inv.mail.batchEmpty heap empty
  · intro heap filled
    by_cases same : heap = tlh
    · subst same
      simp [lzTlhInit] at filled
    · simp only [lzTlhInit, Function.update_of_ne same] at filled ⊢
      exact inv.mail.batchList heap filled
  · intro heap
    by_cases same : heap = tlh
    · subst same
      simp [lzTlhInit]
    · simp only [lzTlhInit, Function.update_of_ne same]
      exact inv.mail.batchBound heap
  · intro heap filled
    by_cases same : heap = tlh
    · subst same
      simp [lzTlhInit] at filled
    · simp only [lzTlhInit, Function.update_of_ne same] at filled ⊢
      exact inv.mail.batchTarget heap filled

/-! ## Purge and start -/

theorem kept_or_idle {kind roles : Nat → BlockKind} (same : SameHolders kind roles)
    (chunks : ∀ base, (roles base).IsChunk ↔ (kind base).IsChunk)
    (loose : ∀ base, roles base = .loose → kind base = .loose) (base : Nat) :
    roles base = kind base ∨ ∃ place, roles base = .idle place := by
  cases known : roles base with
  | idle place => exact Or.inr ⟨place, rfl⟩
  | loose => exact Or.inl (loose base known).symm
  | slab tlh classIdx => exact Or.inl ((same_slab same).mp known).symm
  | span tlh => exact Or.inl ((same_span same).mp known).symm
  | direct header => exact Or.inl ((same_direct same).mp known).symm
  | unused =>
      have outside : ¬(kind base).IsChunk := by
        rw [← chunks base, known]
        exact id
      cases before : kind base with
      | unused => exact Or.inl rfl
      | direct header => simp [(same_direct same).mpr before] at known
      | idle place => simp [before, BlockKind.IsChunk] at outside
      | loose => simp [before, BlockKind.IsChunk] at outside
      | slab tlh classIdx => simp [before, BlockKind.IsChunk] at outside
      | span tlh => simp [before, BlockKind.IsChunk] at outside

theorem inv_purge (inv : Inv mode s g) :
    ∃ last, Inv mode (lzVmmPurgeAllCaches s) last ∧ Quiet g last ∧
      Swept s.slab g (lzVmmPurgeAllCaches s).slab last := by
  obtain ⟨only, roles, same, loose, core⟩ := core_purge_all inv.toCore
  have slabs : (lzVmmPurgeAllCaches s).slab = s.slab := by rw [only]
  have chunks : ∀ base, (roles base).IsChunk ↔ (g.kind base).IsChunk := by
    intro base
    have after := core.vmm.carved base
    rw [purge_all_carved, inv.vmm.carved base] at after
    exact after.symm
  have kept := kept_or_idle same chunks fun base dropped => (loose base dropped).resolve_left id
  rw [slabs]
  refine ⟨{ g with kind := roles }, inv_same_holders core same slabs inv.filled,
    quiet_of_node rfl rfl, ⟨⟨rfl, fun base dropped => ?_⟩, cleared_same_holders same⟩, kept,
    fun ptr _ _ _ => id, fun base _ _ => id⟩
  exact (loose base dropped).resolve_left id

def emptyGhost : Ghost where
  kind := fun _ => .unused
  bin := fun _ => .inCurrent
  node := fun _ => .none
  cursor := fun _ => 0
  record := fun _ => .none

theorem inv_initial (env : Env) (secret : BitVec 64) (telemetry : Bool)
    (leaves : mode.leavesMapped → ∀ call, env.leafMmap call = true) :
    Inv mode (initial env secret telemetry) emptyGhost := by
  have empty : ∀ next : Nat → Nat, ∀ member : Nat → Prop, (∀ node, ¬member node) →
      Enumerates next 0 member 0 := fun _ _ none => enumerates_empty none
  refine
    { leaves := leaves
      geom := ⟨by simp [emptyGhost], by simp [emptyGhost], by simp [initial], by simp [initial],
        by simp [emptyGhost], List.nodup_nil⟩
      vmm := ⟨⟨fun node _ => empty _ _ (by simp [emptyGhost, BlockKind.cached]),
          fun node _ => by simp [initial], by simp [emptyGhost, BlockKind.cached],
          ⟨0, empty _ _ (by simp [emptyGhost, BlockKind.cached])⟩⟩,
        by simp [emptyGhost, BlockKind.TakenOut], by simp [initial, emptyGhost, BlockKind.IsChunk]⟩
      header := ⟨by simp [emptyGhost], by simp [emptyGhost], by simp [emptyGhost]⟩
      rtree := ⟨fun address _ => Or.inl rfl, fun _ address _ _ => rfl⟩
      lists := ?_
      current := ?_
      slabs := by simp [emptyGhost]
      spanList := fun heap => doubly_empty (by simp [emptyGhost])
      spans := by simp [emptyGhost]
      mail := ⟨fun heap => ⟨0, empty _ _ (by simp [emptyGhost])⟩,
        fun heap => ⟨0, empty _ _ (by simp [emptyGhost])⟩, by simp [initial, emptyGhost],
        by simp [initial], by simp [initial], by simp [initial]⟩
      objects := ⟨⟨by simp [emptyGhost], by simp [emptyGhost], by simp [emptyGhost]⟩,
        ⟨by simp [emptyGhost], by simp [emptyGhost], by simp [emptyGhost], by simp [emptyGhost]⟩,
        by simp [emptyGhost],
        ⟨by simp [initial], by simp [emptyGhost, BlockKind.owner], by simp [emptyGhost]⟩,
        by simp [emptyGhost, NodePlace.InFlight], by simp [emptyGhost]⟩
      recorded := by simp [RecordInv, emptyGhost, NodePlace.InUse]
      filled := by simp [FilledAt, emptyGhost] }
  · rintro heap classIdx place listed
    have none : ∀ slab, ¬InBin emptyGhost.kind emptyGhost.bin heap classIdx place slab := by
      rintro slab ⟨chunk, _, isSlab, _⟩
      simp [emptyGhost] at isSlab
    cases place with
    | inCurrent => exact absurd rfl listed
    | inPartial => exact doubly_empty none
    | inFull => exact doubly_empty none
  · intro heap classIdx
    have none : ∀ slab, ¬InBin emptyGhost.kind emptyGhost.bin heap classIdx .inCurrent slab := by
      rintro slab ⟨chunk, _, isSlab, _⟩
      simp [emptyGhost] at isSlab
    exact ⟨fun slab => iff_of_false (none slab) fun both => both.1 both.2,
      fun slab there => absurd there (none slab)⟩

end Lzmalloc.HeapOperations
