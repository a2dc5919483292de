import Lzmalloc.SlabAllocation
import Lzmalloc.SpanPages

/-!
# Life of a span

`lz_span_alloc` takes a free run of an active span or formats a new chunk,
`lz_span_free_local` gives a run back and releases the chunk when only its first
page is left in use.
-/

namespace Lzmalloc.SpanLifecycle

open SizeClasses HeapState VirtualMemoryManager PointerChain DoublyLinked Engines ThreadHeap
open HeapInvariant InvariantFacts SlabBlocks BinLists RadixTree ChunkRoles ChunkTransfer ClientView
open SlabLifecycle SlabAllocation SpanPages

set_option autoImplicit false

variable {mode : Mode} {s : State} {g : Ghost} {tlh chunk start requiredPages : Nat}

/-! ## Objects of a span -/

theorem span_object_page (core : Core mode s g)
    {ptr : Nat} (isSpan : g.kind (chunkBase ptr) = .span tlh)
    (present : g.node ptr ≠ .none) :
    ∃ page, ptr = chunkBase ptr + page * 4096 ∧ 1 ≤ page ∧ page < 512 ∧
      (ptr - chunkBase ptr) / 4096 = page ∧
      (s.span (chunkBase ptr + 64)).allocSizePages page ≠ 0 := by
  have ok := core.spans _ tlh isSpan
  obtain ⟨page, position, listed⟩ := (ok.nodes ptr rfl).mp present
  obtain ⟨behind, bound⟩ := ok.table page listed
  exact ⟨page, position, behind, by omega, by omega, listed⟩

theorem record_inv_span {span : Nat → Span} {direct : Nat → DirectInfo} {kind : Nat → BlockKind}
    {node place : Nat → NodePlace} {record : Nat → Origin} {descriptor : Span} {entry : Nat}
    (inv : RecordInv span direct kind node record)
    (table : descriptor.allocSizePages =
      Function.update (span (chunk + 64)).allocSizePages start entry)
    (others : ∀ ptr, ptr ≠ chunk + start * 4096 → place ptr = node ptr)
    (pages : ∀ ptr, chunkBase ptr = chunk → (node ptr).InUse →
      ∃ page, ptr = chunk + page * 4096)
    {ptr : Nat} (different : ptr ≠ chunk + start * 4096) (used : (place ptr).InUse) :
    objectOrigin (Function.update span (chunk + 64) descriptor) direct ptr (kind (chunkBase ptr)) =
      record ptr := by
  have old : (node ptr).InUse := others ptr different ▸ used
  rw [← inv ptr old]
  cases known : kind (chunkBase ptr) with
  | span owner =>
      by_cases here : chunkBase ptr = chunk
      · obtain ⟨page, position⟩ := pages ptr here old
        have index : (ptr - chunk) / 4096 = page := by omega
        have apart : page ≠ start := by
          rintro rfl
          exact different position
        simp only [objectOrigin, here, Function.update_self, table, index,
          Function.update_of_ne apart]
      · have apart : chunkBase ptr + 64 ≠ chunk + 64 := by omega
        simp only [objectOrigin, Function.update_of_ne apart]
  | _ => rfl

theorem span_in_use_page (core : Core mode s g) (isSpan : g.kind chunk = .span tlh) {ptr : Nat}
    (inside : chunkBase ptr = chunk) (used : (g.node ptr).InUse) :
    ∃ page, ptr = chunk + page * 4096 := by
  subst inside
  have present : g.node ptr ≠ .none := by
    intro none
    simp [none, NodePlace.InUse] at used
  obtain ⟨page, position, _⟩ := span_object_page core isSpan present
  exact ⟨page, position⟩

/-! ## Taking a run -/

theorem core_span_take (core : Core mode s g) (isSpan : g.kind chunk = .span tlh)
    (run : FreeRun (s.span (chunk + 64)).freeBitmap start requiredPages) :
    g.node (chunk + start * 4096) = .none ∧
      Core mode
        { s with
          span := Function.update s.span (chunk + 64)
            (takeRun (s.span (chunk + 64)) start requiredPages) }
        (g.allocate (chunk + start * 4096) (.span requiredPages)) := by
  obtain ⟨aligned, _, _⟩ := core.geom.placed chunk (by simp [isSpan])
  obtain ⟨unborn, taken⟩ := span_ok_take (core.spans chunk tlh isSpan) aligned run
  have base : chunkBase (chunk + start * 4096) = chunk := span_object_base aligned (by
    have bound := run.2.1
    have positive := run.1
    omega)
  have width : requiredPages < 65536 := by
    have bound := run.2.1
    omega
  refine ⟨unborn, { core with slabs := ?_, spans := ?_, mail := ?_, objects := ?_, recorded := ?_ }⟩
  · intro other owner size isSlab
    refine slab_ok_elsewhere core isSlab ?_ fun _ _ _ => rfl
    rintro rfl
    rw [base] at isSlab
    exact absurd (isSpan.symm.trans isSlab) (by simp)
  · intro other owner otherSpan
    by_cases here : other = chunk
    · subst here
      simp only [Function.update_self]
      exact taken
    · have apart : other + 64 ≠ chunk + 64 := by omega
      simp only [Function.update_of_ne apart]
      exact span_ok_elsewhere core otherSpan (by rwa [base])
  · exact mail_inv_settle core (by simp [unborn, NodePlace.InFlight])
      (by simp [NodePlace.InFlight]) fun _ _ _ => rfl
  · exact object_inv_settle core.objects (by simp [base, isSpan, BlockKind.owner]) (by simp)
  · intro ptr used
    by_cases here : ptr = chunk + start * 4096
    · subst here
      simpa [Ghost.allocate, base, isSpan, objectOrigin, takeRun] using width
    · simp only [Ghost.allocate, Function.update_of_ne here] at used ⊢
      exact record_inv_span core.recorded rfl (fun _ _ => rfl)
        (fun _ inside inUse => span_in_use_page core isSpan inside inUse) here used

theorem inv_finish_span (inv : Inv mode s g) (isSpan : g.kind chunk = .span tlh) {hit : SpanHit}
    (current : hit.current = chunk + 64)
    (found : findContiguousPages (s.span (chunk + 64)).freeBitmap requiredPages =
      (some hit.pageIdx, hit.bitmap)) :
    (finishSpanAlloc s hit requiredPages).1 ≠ 0 ∧
      ∃ last, Inv mode (finishSpanAlloc s hit requiredPages).2 last ∧
        Course s.slab g (finishSpanAlloc s hit requiredPages).2.slab last ∧
        Allocated g last (finishSpanAlloc s hit requiredPages).1 (.span requiredPages) ∧
        last.kind = g.kind ∧ chunkBase (finishSpanAlloc s hit requiredPages).1 = chunk := by
  obtain ⟨aligned, positive, _⟩ := inv.geom.placed chunk (by simp [isSpan])
  obtain ⟨run, bitmap⟩ := find_contiguous_pages_sound found
  obtain ⟨unborn, core⟩ := core_span_take inv.toCore isSpan run
  have base : chunkBase (chunk + 64) = chunk := chunk_base_eq aligned (by omega) (by omega)
  have inside : chunkBase (chunk + hit.pageIdx * 4096) = chunk := by
    obtain ⟨atLeast, bound, _⟩ := run
    exact span_object_base aligned (by omega)
  simp only [finishSpanAlloc, current, base, bitmap, lzPageSize]
  exact ⟨by omega, _, { core with filled := inv.filled }, course_same rfl rfl,
    allocate_allocated (by simp [unborn, NodePlace.InUse]), rfl, inside⟩

/-! ## Formatting a span -/

theorem inv_format_span (inv : Inv mode s g) (loose : g.kind chunk = .loose)
    (heap : tlh ∈ s.heaps) :
    ∃ last, Inv mode (formatSpan s tlh chunk) last ∧ Quiet g last ∧
      Course s.slab g (formatSpan s tlh chunk).slab last ∧
      last.kind = Function.update g.kind chunk (.span tlh) := by
  obtain ⟨aligned, _, bound⟩ := inv.geom.placed chunk (by simp [loose])
  have empty : ∀ ptr, chunkBase ptr = chunk → g.node ptr = .none := by
    intro ptr inside
    by_contra present
    have holds := inv.objects.scope ptr present
    rw [inside, loose] at holds
    exact holds
  have unused : ∀ ptr, chunkBase ptr = chunk → ¬(g.node ptr).InUse := fun ptr inside => by
    simp [empty ptr inside, NodePlace.InUse]
  have apart : ∀ owner span, (∃ base, span = base + 64 ∧ g.kind base = .span owner) →
      span ≠ chunk + 64 := by
    rintro owner span ⟨base, rfl, isSpan⟩ same
    obtain rfl : base = chunk := by omega
    simp [loose] at isSpan
  have roles : ∀ base, base ≠ chunk →
      Function.update g.kind chunk (.span tlh) base = g.kind base := fun base different =>
    Function.update_of_ne different _ _
  have core : Core mode (formatSpan s tlh chunk) (setRole g chunk (.span tlh) g.bin) := by
    unfold formatSpan
    rw [lz_rtree_set_eq]
    refine core_role inv.toCore ⟨rfl, rfl, rfl, rfl, rfl, rfl, rfl, rfl, rfl⟩
      (by rw [loose]; trivial) trivial unused ?_ ?_
      (vmm_inv_claim inv.vmm loose .span trivial rfl)
      (header_inv_claim inv.header trivial (by simp) ?_) ?_ ?_ ?_ (fun _ _ => rfl)
      (by simp) ?_ ?_ ?_
    · intro owner same
      simp only [BlockKind.owner, Option.some.injEq] at same
      rwa [← same]
    · intro address below outside
      exact lz_rtree_get_set_other below (by omega) fun same =>
        outside ((chunk_base_iff_div aligned).mpr same)
    · intro owner same
      cases same
      exact ⟨rfl, rfl⟩
    · refine rtree_inv_register ?_ rfl rfl aligned (by omega) rfl
      exact inv.rtree
    · refine list_inv_role inv.lists ?_ ?_ fun other different => ⟨roles other different, rfl⟩
      · intro owner size place _
        simp [in_bin_descriptor, loose]
      · intro owner size place _
        simp [in_bin_descriptor]
    · intro owner size
      refine current_at_congr (inv.current owner size) (fun _ _ => ⟨rfl, rfl⟩) fun slab => ?_
      by_cases here : slab = chunk + 64
      · simp [here, in_bin_descriptor, loose]
      · exact in_bin_elsewhere (fun other different => ⟨roles other different, rfl⟩) here
    · intro owner
      have list := inv.spanList tlh
      by_cases same : owner = tlh
      · subst same
        simp only [Function.update_self]
        refine doubly_push list (by simp) (fun member => apart owner _ member rfl) fun span => ?_
        constructor
        · rintro ⟨base, rfl, isSpan⟩
          by_cases here : base = chunk
          · exact Or.inl (by rw [here]; rfl)
          · rw [roles base here] at isSpan
            exact Or.inr ⟨base, rfl, isSpan⟩
        · rintro (rfl | ⟨base, rfl, isSpan⟩)
          · exact ⟨chunk, rfl, by simp⟩
          · refine ⟨base, rfl, ?_⟩
            rw [roles base (by rintro rfl; simp [loose] at isSpan)]
            exact isSpan
      · simp only [Function.update_of_ne same]
        have outside : ∀ span, (∃ base, span = base + 64 ∧ g.kind base = .span owner) →
            ¬∃ base, span = base + 64 ∧ g.kind base = .span tlh := by
          rintro span ⟨base, rfl, isSpan⟩ ⟨other, position, otherSpan⟩
          obtain rfl : base = other := by omega
          rw [isSpan] at otherSpan
          cases otherSpan
          exact same rfl
        refine doubly_congr (inv.spanList owner) ?_ ?_ fun span => ?_
        · intro span member
          exact (push_front_outside list (apart owner span member) (outside span member)).1
        · intro span member
          exact (push_front_outside list (apart owner span member) (outside span member)).2
        · refine exists_congr fun base => and_congr_right fun _ => ?_
          by_cases here : base = chunk
          · simp [here, loose, Ne.symm same]
          · rw [roles base here]
    · intro base different
      exact Function.update_of_ne (by simp only [lzCacheLineSize]; omega) _ _
    · intro owner same
      simp only [lzCacheLineSize, Function.update_self]
      exact fresh_span_ok fun ptr inside => drop_nodes_inside inside
  have slabs : (formatSpan s tlh chunk).slab = s.slab := by
    rw [formatSpan, lz_rtree_set_eq]
  rw [slabs]
  refine ⟨_, { core with filled := fun other => ?_ }, quiet_set_role unused,
    ⟨⟨rfl, fun base dropped => ?_⟩, fun clear base other => ?_⟩, rfl⟩
  rotate_left
  · by_cases same : base = chunk
    · simp [same, setRole] at dropped
    · simpa [setRole, same] using dropped
  · by_cases same : base = chunk
    · subst same
      exact clear base (by simp [loose])
    · exact clear base (by simpa [setRole, same] using other)
  rw [slabs]
  by_cases same : other = chunk
  · intro owner size isSlab
    simp [setRole, same] at isSlab
  · exact filled_at_other (inv.filled other) (by simp [setRole, same]) rfl rfl

/-! ## Allocation -/

theorem search_spans_sound (core : Core mode s g) {fuel current : Nat} {hit : SpanHit}
    (member : current ≠ 0 → ∃ chunk, current = chunk + 64 ∧ g.kind chunk = .span tlh)
    (found : searchSpans fuel s current requiredPages = some hit) :
    ∃ chunk, hit.current = chunk + 64 ∧ g.kind chunk = .span tlh ∧
      findContiguousPages (s.span (chunk + 64)).freeBitmap requiredPages =
        (some hit.pageIdx, hit.bitmap) := by
  induction fuel generalizing current with
  | zero => simp [searchSpans] at found
  | succ fuel ih =>
      unfold searchSpans at found
      by_cases ended : current = 0
      · simp [ended] at found
      · obtain ⟨chunk, rfl, isSpan⟩ := member ended
        have next : s.spanLinks.next (chunk + 64) ≠ 0 →
            ∃ base, s.spanLinks.next (chunk + 64) = base + 64 ∧ g.kind base = .span tlh :=
          (doubly_neighbours (core.spanList tlh) ⟨chunk, rfl, isSpan⟩).1
        rw [if_neg ended] at found
        split at found
        · cases outcome : findContiguousPages (s.span (chunk + 64)).freeBitmap requiredPages with
          | mk result bitmap =>
              cases result with
              | some pageIdx =>
                  simp only [outcome, Option.some.injEq] at found
                  subst found
                  exact ⟨chunk, rfl, isSpan, outcome⟩
              | none =>
                  simp only [outcome] at found
                  exact ih next found
        · exact ih next found

def spanPages (size : Nat) : Nat := lzAlignUp size lzPageSize / lzPageSize % 2 ^ 32

def Hosted (g last : Ghost) : Prop :=
  ∀ base owner, last.kind base = .span owner → g.kind base = .span owner ∨
    ∃ ptr, chunkBase ptr = base ∧ last.node ptr = .live

theorem hosted_of_kind {last : Ghost} (kinds : last.kind = g.kind) : Hosted g last := by
  intro base owner isSpan
  rw [kinds] at isSpan
  exact Or.inl isSpan

/-- A fresh span is never too small for the request it was made for. -/
theorem fresh_span_found {pages : Nat} (positive : 1 ≤ pages) (small : ¬pages ≥ lzSpanTotalPages)
    (tlh chunk : Nat) : ∃ pageIdx bitmap,
      findContiguousPages ((formatSpan s tlh chunk).span (chunk + 64)).freeBitmap pages =
        (some pageIdx, bitmap) := by
  have fresh : (formatSpan s tlh chunk).span (chunk + 64) = freshSpan := by
    simp only [formatSpan, lzCacheLineSize, Function.update_self]
  rw [fresh]
  exact find_contiguous_pages_complete (fresh_span_run positive (by simpa using small))

theorem inv_span_alloc_hosted (inv : Inv mode s g) (heap : tlh ∈ s.heaps) (size : Nat) :
    ∃ last, Inv mode (lzSpanAlloc s tlh size).2 last ∧
      Course s.slab g (lzSpanAlloc s tlh size).2.slab last ∧
      (((lzSpanAlloc s tlh size).1 = 0 ∧ Quiet g last) ∨
        ((lzSpanAlloc s tlh size).1 ≠ 0 ∧
          Allocated g last (lzSpanAlloc s tlh size).1 (.span (spanPages size)))) ∧
      (1 ≤ spanPages size → Hosted g last) := by
  obtain ⟨pages, pagesEq⟩ : ∃ pages, spanPages size = pages := ⟨_, rfl⟩
  unfold lzSpanAlloc
  simp only [show lzAlignUp size lzPageSize / lzPageSize % 2 ^ 32 = pages from pagesEq]
  rw [pagesEq]
  by_cases large : pages ≥ lzSpanTotalPages
  · rw [if_pos large]
    exact ⟨g, inv, course_same rfl rfl, Or.inl ⟨rfl, quiet_refl g⟩, fun _ => hosted_of_kind rfl⟩
  · rw [if_neg large]
    cases search : searchSpans addressLimit s (s.activeSpans tlh) pages with
    | some hit =>
        simp only
        have first : s.activeSpans tlh ≠ 0 →
            ∃ chunk, s.activeSpans tlh = chunk + 64 ∧ g.kind chunk = .span tlh := fun nonnull => by
          have member := doubly_head (inv.spanList tlh) nonnull
          exact member
        obtain ⟨chunk, current, isSpan, found⟩ := search_spans_sound inv.toCore first search
        obtain ⟨nonnull, last, lastInv, course, allocated, kinds, _⟩ :=
          inv_finish_span inv isSpan current found
        exact ⟨last, lastInv, course, Or.inr ⟨nonnull, allocated⟩, fun _ => hosted_of_kind kinds⟩
    | none =>
        simp only
        obtain ⟨only, roles, same, onlyLoose, core, loose⟩ := core_vmm_alloc inv.toCore
        obtain ⟨chunk, chunkEq⟩ : ∃ chunk, (lzVmmAllocChunk s).1 = chunk := ⟨_, rfl⟩
        obtain ⟨after, afterEq⟩ : ∃ after, (lzVmmAllocChunk s).2 = after := ⟨_, rfl⟩
        rw [chunkEq] at loose onlyLoose
        rw [afterEq] at only core
        simp only [chunkEq, afterEq]
        have slabs : after.slab = s.slab := by rw [only]
        have ready : Inv mode after { g with kind := roles } :=
          inv_same_holders core same slabs inv.filled
        have before : Quiet g { g with kind := roles } := quiet_of_node rfl rfl
        by_cases failed : chunk = 0
        · have course : Course s.slab g after.slab { g with kind := roles } := by
            rw [slabs]
            exact course_failed same onlyLoose failed
          rw [if_pos failed]
          refine ⟨_, ready, course, Or.inl ⟨rfl, before⟩, fun _ base owner isSpan => ?_⟩
          exact Or.inl ((same_span same).mp isSpan)
        · rw [if_neg failed]
          obtain ⟨fresh, formatted, quiet, kept, kinds⟩ := inv_format_span ready (loose failed)
            (by rw [only]; exact heap)
          have isSpan : fresh.kind chunk = .span tlh := by rw [kinds, Function.update_self]
          rw [slabs] at kept
          have course := course_formatted same onlyLoose kept (by simp [isSpan])
          cases outcome : findContiguousPages
              ((formatSpan after tlh chunk).span (chunk + 64)).freeBitmap pages with
          | mk result bitmap =>
              cases result with
              | none =>
                  simp only [lzCacheLineSize, outcome]
                  refine ⟨fresh, formatted, course, Or.inl ⟨trivial, quiet_trans before quiet⟩, ?_⟩
                  intro positive
                  obtain ⟨pageIdx, bits, found⟩ :=
                    @fresh_span_found after pages positive large tlh chunk
                  rw [outcome] at found
                  cases found
              | some pageIdx =>
                  simp only [lzCacheLineSize, outcome]
                  obtain ⟨nonnull, last, lastInv, lastCourse, allocated, lastKinds, inside⟩ :=
                    inv_finish_span formatted isSpan
                      (show (SpanHit.mk (chunk + 64) pageIdx bitmap).current = _ from rfl) outcome
                  refine ⟨last, lastInv, course_trans course lastCourse,
                    Or.inr ⟨nonnull, quiet_allocated (quiet_trans before quiet) allocated⟩, ?_⟩
                  intro _ base owner baseSpan
                  by_cases here : base = chunk
                  · exact Or.inr ⟨_, inside.trans here.symm, (allocated.live _).mpr (Or.inl rfl)⟩
                  · rw [lastKinds, kinds, Function.update_of_ne here] at baseSpan
                    exact Or.inl ((same_span same).mp baseSpan)

theorem inv_span_alloc (inv : Inv mode s g) (heap : tlh ∈ s.heaps) (size : Nat) :
    ∃ last, Inv mode (lzSpanAlloc s tlh size).2 last ∧
      Course s.slab g (lzSpanAlloc s tlh size).2.slab last ∧
      (((lzSpanAlloc s tlh size).1 = 0 ∧ Quiet g last) ∨
        ((lzSpanAlloc s tlh size).1 ≠ 0 ∧
          Allocated g last (lzSpanAlloc s tlh size).1 (.span (spanPages size)))) := by
  obtain ⟨last, lastInv, course, outcome, _⟩ := inv_span_alloc_hosted inv heap size
  exact ⟨last, lastInv, course, outcome⟩

/-! ## Free -/

theorem core_span_release (core : Core mode s g) (isSpan : g.kind chunk = .span tlh)
    (listed : (s.span (chunk + 64)).allocSizePages start ≠ 0)
    (live : g.node (chunk + start * 4096) = .live) :
    Core mode
      { s with
        span := Function.update s.span (chunk + 64) (releaseRun (s.span (chunk + 64)) start) }
      (g.settle (chunk + start * 4096) .none) := by
  obtain ⟨aligned, _, _⟩ := core.geom.placed chunk (by simp [isSpan])
  have ok := core.spans chunk tlh isSpan
  obtain ⟨_, bound⟩ := ok.table start listed
  have base : chunkBase (chunk + start * 4096) = chunk := span_object_base aligned (by omega)
  refine { core with slabs := ?_, spans := ?_, mail := ?_, objects := ?_, recorded := ?_ }
  · intro other owner size isSlab
    refine slab_ok_elsewhere core isSlab ?_ fun _ _ _ => rfl
    rintro rfl
    rw [base] at isSlab
    exact absurd (isSpan.symm.trans isSlab) (by simp)
  · intro other owner otherSpan
    by_cases here : other = chunk
    · subst here
      simp only [Function.update_self]
      exact span_ok_release ok listed
    · have apart : other + 64 ≠ chunk + 64 := by omega
      simp only [Function.update_of_ne apart]
      exact span_ok_elsewhere core otherSpan (by rwa [base])
  · exact mail_inv_settle core (by simp [live, NodePlace.InFlight])
      (by simp [NodePlace.InFlight]) fun _ _ _ => rfl
  · exact object_inv_settle core.objects (by simp [base, isSpan, BlockKind.owner]) (by simp)
  · intro ptr used
    by_cases here : ptr = chunk + start * 4096
    · simp [here, NodePlace.InUse] at used
    · exact record_inv_span core.recorded rfl (fun _ other => Function.update_of_ne other _ _)
        (fun _ inside inUse => span_in_use_page core isSpan inside inUse) here used

theorem inv_destroy_span (inv : Inv mode s g) (isSpan : g.kind chunk = .span tlh)
    (single : (s.span (chunk + 64)).usedPages = 1) :
    ∃ last, Inv mode (destroySpan s tlh chunk) last ∧ Quiet g last ∧
      Swept s.slab g (destroySpan s tlh chunk).slab last ∧ Landed g last ∧
      ∃ place, last.kind chunk = .idle place := by
  have empty : ∀ ptr, chunkBase ptr = chunk → ¬(g.node ptr).InUse := fun ptr inside => by
    simp [span_ok_empty (inv.spans chunk tlh isSpan) single inside, NodePlace.InUse]
  have roles : ∀ base, base ≠ chunk → Function.update g.kind chunk .loose base = g.kind base :=
    fun base different => Function.update_of_ne different _ _
  have visited : ∃ base, chunk + 64 = base + 64 ∧ g.kind base = .span tlh := ⟨chunk, rfl, isSpan⟩
  have spanList : ∀ owner, Doubly (unlink s.spanLinks (chunk + 64))
      (Function.update s.activeSpans tlh (unlinkHead s.spanLinks (s.activeSpans tlh) (chunk + 64))
        owner)
      (fun span => ∃ base, span = base + 64 ∧
        Function.update g.kind chunk .loose base = .span owner) := by
    intro owner
    by_cases same : owner = tlh
    · subst same
      simp only [Function.update_self]
      refine doubly_unlink (inv.spanList owner) visited fun span => ?_
      constructor
      · rintro ⟨base, rfl, still⟩
        have different : base ≠ chunk := by
          rintro rfl
          simp at still
        rw [roles base different] at still
        exact ⟨⟨base, rfl, still⟩, by omega⟩
      · rintro ⟨⟨base, rfl, was⟩, different⟩
        exact ⟨base, rfl, by rw [roles base (by omega)]; exact was⟩
    · simp only [Function.update_of_ne same]
      have outside : ∀ span, (∃ base, span = base + 64 ∧ g.kind base = .span owner) →
          ¬∃ base, span = base + 64 ∧ g.kind base = .span tlh := by
        rintro span ⟨base, rfl, otherSpan⟩ ⟨other, position, thisSpan⟩
        obtain rfl : base = other := by omega
        rw [otherSpan] at thisSpan
        cases thisSpan
        exact same rfl
      refine doubly_congr (inv.spanList owner) ?_ ?_ fun span => ?_
      · intro span member
        exact (unlink_outside (inv.spanList tlh) visited (outside span member)).1
      · intro span member
        exact (unlink_outside (inv.spanList tlh) visited (outside span member)).2
      · refine exists_congr fun base => and_congr_right fun _ => ?_
        by_cases here : base = chunk
        · simp [here, isSpan, Ne.symm same]
        · rw [roles base here]
  have lists : ListInv s.bins s.slabLinks (Function.update g.kind chunk .loose) g.bin := by
    refine list_inv_role inv.lists ?_ ?_ fun other different => ⟨roles other different, rfl⟩
    · intro owner size place _
      simp [in_bin_descriptor, isSpan]
    · intro owner size place _
      simp [in_bin_descriptor]
  have current : CurrentInv s.bins s.slabLinks (Function.update g.kind chunk .loose) g.bin := by
    intro owner size
    refine current_at_congr (inv.current owner size) (fun _ _ => ⟨rfl, rfl⟩) fun slab => ?_
    by_cases here : slab = chunk + 64
    · simp [here, in_bin_descriptor, isSpan]
    · exact in_bin_elsewhere (fun other different => ⟨roles other different, rfl⟩) here
  have released := core_release inv.toCore (by rw [isSpan]; rfl) empty lists current spanList
  have loose : (setRole g chunk .loose g.bin).kind chunk = .loose := by simp [setRole]
  obtain ⟨place, destroyed⟩ := core_destroy released loose
  have quiet : Quiet g (setRole g chunk .loose g.bin) := quiet_set_role empty
  refine ⟨_, { destroyed with filled := fun other => ?_ },
    quiet_trans quiet (quiet_of_node rfl rfl), ?_, landed_dropped rfl, place,
    Function.update_self ..⟩
  · rw [destroySpan, destroy_slab_field]
    by_cases same : other = chunk
    · exact filled_at_unowned (by simp [same, BlockKind.owner])
    · exact filled_at_other (inv.filled other) (by simp [setRole, same]) rfl rfl
  · rw [destroySpan, destroy_slab_field]
    refine swept_destroyed (fun clear => clear chunk (by simp [isSpan])) rfl
      (Function.update_self ..) (fun base different => ?_) fun ptr outside =>
        drop_nodes_outside outside
    simp [setRole, different]

theorem span_ok_tenant {span : Span} {node : Nat → NodePlace} (ok : SpanOk span node chunk)
    (aligned : chunk % 2097152 = 0) (more : span.usedPages ≠ 1) :
    ∃ ptr, chunkBase ptr = chunk ∧ node ptr ≠ .none := by
  have total := span_ok_total ok
  have positive : ∑ page ∈ Finset.range 512, span.allocSizePages page ≠ 0 := by omega
  obtain ⟨page, member, listed⟩ := Finset.exists_ne_zero_of_sum_ne_zero positive
  have base := span_object_base aligned (Finset.mem_range.mp member)
  exact ⟨_, base, (ok.nodes _ base).mpr ⟨page, rfl, listed⟩⟩

theorem swept_last_object {slab after : Nat → Slab} {last : Ghost} {ptr : Nat} {place : CachePlace}
    (swept : Swept slab (g.settle ptr .none) after last)
    (gone : last.kind (chunkBase ptr) = .idle place) : Swept slab g after last := by
  have others : ∀ node, node ≠ ptr → g.node node ≠ .none →
      (g.settle ptr .none).node node ≠ .none := by
    intro node different present
    simpa [Ghost.settle, different] using present
  refine ⟨⟨⟨swept.cursor, swept.loose⟩, swept.cleared⟩, swept.kinds, ?_, ?_⟩
  · intro node heap size isSlab present
    have different : node ≠ ptr := by
      rintro rfl
      rw [gone] at isSlab
      cases isSlab
    exact swept.present node heap size isSlab (others node different present)
  · rintro base heap isSpan ⟨node, inside, present⟩
    have different : node ≠ ptr := by
      rintro rfl
      rw [← inside, gone] at isSpan
      cases isSpan
    exact swept.tenants base heap isSpan ⟨node, inside, others node different present⟩

theorem inv_span_free (inv : Inv mode s g) {ptr : Nat}
    (isSpan : g.kind (chunkBase ptr) = .span tlh) (live : g.node ptr = .live) :
    ∃ last, Inv mode (lzSpanFreeLocal s tlh (chunkBase ptr) ptr) last ∧ Released g last ptr ∧
      Swept s.slab g (lzSpanFreeLocal s tlh (chunkBase ptr) ptr).slab last ∧ Landed g last := by
  obtain ⟨page, position, behind, bound, index, listed⟩ :=
    span_object_page inv.toCore isSpan (by simp [live])
  obtain ⟨chunk, chunkEq⟩ : ∃ chunk, chunkBase ptr = chunk := ⟨_, rfl⟩
  rw [chunkEq] at isSpan position index listed ⊢
  have startPage : (ptr - chunk) / lzPageSize % 2 ^ 32 = page := by
    simp only [lzPageSize, index]
    omega
  have inside : ¬(page = 0 ∨ page ≥ lzSpanTotalPages) := by
    simp only [lzSpanTotalPages]
    omega
  have core := core_span_release inv.toCore isSpan listed (by rwa [← position])
  rw [← position] at core
  have released : Released g (g.settle ptr .none) ptr :=
    settle_released live (by simp) (by simp)
  have landed : Landed g (g.settle ptr .none) := settle_landed id
  unfold lzSpanFreeLocal
  simp only [startPage, if_neg inside, lzCacheLineSize, if_neg listed]
  obtain ⟨accounted, accountedEq⟩ : ∃ accounted, accountFree
      (releasePages s (chunk + 64) page ((s.span (chunk + 64)).allocSizePages page)) tlh
      ((s.span (chunk + 64)).allocSizePages page * lzPageSize % 2 ^ 32) = accounted := ⟨_, rfl⟩
  have after : Inv mode accounted (g.settle ptr .none) := by
    rw [← accountedEq]
    exact inv_account_free { core with filled := inv.filled } _ _
  have slabs : accounted.slab = s.slab := by
    rw [← accountedEq, account_free_slab]
    rfl
  rw [accountedEq]
  by_cases single : (accounted.span (chunk + 64)).usedPages = 1
  · rw [if_pos single]
    obtain ⟨last, lastInv, quiet, swept, dropped, place, idle⟩ :=
      inv_destroy_span after isSpan single
    rw [slabs] at swept
    exact ⟨last, lastInv, released_quiet released quiet,
      swept_last_object swept (chunkEq ▸ idle), landed_trans landed dropped⟩
  · rw [if_neg single, slabs]
    obtain ⟨aligned, _, _⟩ := inv.geom.placed chunk (by simp [isSpan])
    refine ⟨_, after, released, ⟨course_same rfl rfl, fun _ => Or.inl rfl, ?_, ?_⟩, landed⟩
    · intro node heap size isSlab present
      have different : node ≠ ptr := by
        rintro rfl
        rw [chunkEq] at isSlab
        simp [isSpan] at isSlab
      simpa [Ghost.settle, different] using present
    · rintro base heap baseSpan ⟨node, inside, present⟩
      by_cases here : base = chunk
      · subst here
        exact span_ok_tenant (after.spans base tlh isSpan) aligned single
      · refine ⟨node, inside, ?_⟩
        have different : node ≠ ptr := by
          rintro rfl
          exact here (inside.symm.trans chunkEq)
        simpa [Ghost.settle, different] using present

end Lzmalloc.SpanLifecycle
