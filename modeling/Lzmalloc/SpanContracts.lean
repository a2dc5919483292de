import Mathlib.Algebra.Order.BigOperators.Group.Finset
import Lzmalloc.ConcreteView
import Lzmalloc.EngineRuns
import Lzmalloc.SlabContracts

/-!
# Spans in every reachable state

Any number of heaps take runs of pages with `lz_span_alloc` and call
`lz_span_free_local` on any address inside one of their spans, whether or not
an object starts there. The bitmap, the table of lengths and the counter of
every span on the heap's list describe the same runs after every call.
-/

namespace Lzmalloc.SpanContracts

open SizeClasses HeapState PointerChain DoublyLinked Engines ThreadHeap PublicApi StepSystem
open HeapInvariant InvariantFacts ClientView SpanPages SpanLifecycle HeapOperations ConcreteView
open EngineRuns
open SlabContracts (generousEnv)

set_option autoImplicit false

inductive SpanAct
  | init (tlh tid : Nat)
  | alloc (tlh size : Nat)
  | free (tlh chunk ptr : Nat)

def spanStep (s : State) : SpanAct → Option State
  | .init tlh tid =>
      if HeapMmapValid s.heaps tlh then
        some (lzTlhInit { s with heaps := tlh :: s.heaps } tlh tid)
      else none
  | .alloc tlh size => if tlh ∈ s.heaps then some (lzSpanAlloc s tlh size).2 else none
  | .free tlh chunk ptr => some (lzSpanFreeLocal s tlh chunk ptr)

def Active (s : State) (tlh span : Nat) : Prop :=
  OnChain s.spanLinks.next (s.activeSpans tlh) span

/-- Requests have between one byte and 1 MB; what is freed is an address inside
an active span. -/
def SpanFits (s : State) : SpanAct → Prop
  | .init _ _ => True
  | .alloc _ size => 1 ≤ size ∧ size ≤ lzMaxSpanObjSize
  | .free tlh chunk ptr =>
      Active s tlh (chunk + lzCacheLineSize) ∧ chunk ≤ ptr ∧ ptr < chunk + lzHugePageSize

variable {s after : State} {g last : Ghost} {tlh chunk ptr size : Nat}

/-! ## The invariant of runs -/

structure SpansOk (s : State) (g : Ghost) : Prop where
  inv : Inv engineMode s g
  grounded : ∀ ptr, ¬(g.node ptr).InFlight
  settled : ∀ chunk, g.kind chunk ≠ .loose
  tenants : ∀ chunk tlh, g.kind chunk = .span tlh →
    ∃ ptr, chunkBase ptr = chunk ∧ g.node ptr = .live

/-- Nothing is freed remotely, so an object of a span is live. -/
theorem span_object_live (inv : Inv engineMode s g) (grounded : ∀ ptr, ¬(g.node ptr).InFlight)
    (isSpan : g.kind (chunkBase ptr) = .span tlh) (present : g.node ptr ≠ .none) :
    g.node ptr = .live := by
  have flying := grounded ptr
  cases place : g.node ptr with
  | live => rfl
  | none => exact absurd place present
  | free => exact absurd place ((inv.spans _ tlh isSpan).notFree ptr rfl)
  | leaked => exact absurd place (inv.objects.noLeaks trivial ptr)
  | batch heap => simp [place, NodePlace.InFlight] at flying
  | mail heap => simp [place, NodePlace.InFlight] at flying
  | reaping heap => simp [place, NodePlace.InFlight] at flying

theorem active_iff (core : Core engineMode s g) :
    Active s tlh (chunk + 64) ↔ g.kind chunk = .span tlh := by
  obtain ⟨count, chain⟩ := doubly_enumerates (core.spanList tlh)
  rw [Active, enumerates_on_chain chain]
  constructor
  · rintro ⟨base, position, isSpan⟩
    obtain rfl : base = chunk := by omega
    exact isSpan
  · exact fun isSpan => ⟨chunk, rfl, isSpan⟩

theorem spans_ok_init (ok : SpansOk s g) (valid : HeapMmapValid s.heaps tlh) (tid : Nat) :
    SpansOk (lzTlhInit { s with heaps := tlh :: s.heaps } tlh tid) g :=
  ⟨inv_tlh_init ok.inv valid.2.2 (Nat.pos_iff_ne_zero.mp valid.1) tid _, ok.grounded, ok.settled,
    ok.tenants⟩

theorem span_pages_positive (positive : 1 ≤ size) (bound : size ≤ lzMaxSpanObjSize) :
    1 ≤ spanPages size := by
  simp only [lzMaxSpanObjSize] at bound
  simp only [spanPages, lzPageSize, lz_align_up_page]
  omega

theorem spans_ok_alloc (ok : SpansOk s g) (heap : tlh ∈ s.heaps) (positive : 1 ≤ size)
    (bound : size ≤ lzMaxSpanObjSize) : ∃ last, SpansOk (lzSpanAlloc s tlh size).2 last := by
  obtain ⟨last, inv, course, outcome, hosted⟩ := inv_span_alloc_hosted ok.inv heap size
  have flying : ∀ ptr, (last.node ptr).InFlight → (g.node ptr).InFlight := by
    obtain ⟨_, quiet⟩ | ⟨_, allocated⟩ := outcome
    · exact quiet.flying
    · exact allocated.flying
  have live : ∀ ptr, g.node ptr = .live → last.node ptr = .live := by
    obtain ⟨_, quiet⟩ | ⟨_, allocated⟩ := outcome
    · exact fun ptr => (quiet.live ptr).mpr
    · exact fun ptr there => (allocated.live ptr).mpr (Or.inr there)
  refine ⟨last, inv, fun ptr flies => ok.grounded ptr (flying ptr flies),
    fun base loose => ok.settled base (course.loose base loose), fun base owner isSpan => ?_⟩
  obtain before | tenant := hosted (span_pages_positive positive bound) base owner isSpan
  · obtain ⟨ptr, inside, there⟩ := ok.tenants base owner before
    exact ⟨ptr, inside, live ptr there⟩
  · exact tenant

theorem span_free_page (s : State) (tlh chunk ptr : Nat) :
    lzSpanFreeLocal s tlh chunk ptr =
      lzSpanFreeLocal s tlh chunk (chunk + (ptr - chunk) / 4096 * 4096) := by
  have page : (chunk + (ptr - chunk) / 4096 * 4096 - chunk) / lzPageSize
      = (ptr - chunk) / lzPageSize := by
    simp only [lzPageSize]
    omega
  unfold lzSpanFreeLocal
  rw [page]

theorem span_free_ignored (inside : ptr < chunk + 2097152)
    (vacant : (s.span (chunk + 64)).allocSizePages ((ptr - chunk) / 4096) = 0) :
    lzSpanFreeLocal s tlh chunk ptr = s := by
  have small : (ptr - chunk) / 4096 % 2 ^ 32 = (ptr - chunk) / 4096 := by omega
  simp only [lzSpanFreeLocal, lzPageSize, lzCacheLineSize, small, vacant, if_true]
  exact ite_self s

theorem spans_ok_free (ok : SpansOk s g) (active : Active s tlh (chunk + 64)) (lower : chunk ≤ ptr)
    (upper : ptr < chunk + 2097152) : ∃ last, SpansOk (lzSpanFreeLocal s tlh chunk ptr) last := by
  have isSpan := (active_iff ok.inv.toCore).mp active
  obtain ⟨aligned, _, _⟩ := ok.inv.geom.placed chunk (by simp [isSpan])
  by_cases vacant : (s.span (chunk + 64)).allocSizePages ((ptr - chunk) / 4096) = 0
  · rw [span_free_ignored upper vacant]
    exact ⟨g, ok⟩
  rw [span_free_page]
  obtain ⟨start, startEq⟩ : ∃ start, chunk + (ptr - chunk) / 4096 * 4096 = start := ⟨_, rfl⟩
  have base : chunkBase start = chunk := by
    rw [← startEq]
    exact span_object_base aligned (by omega)
  have present : g.node start ≠ .none :=
    ((ok.inv.spans chunk tlh isSpan).nodes start base).mpr ⟨_, startEq.symm, vacant⟩
  rw [startEq]
  rw [← base] at isSpan ⊢
  have live := span_object_live ok.inv ok.grounded isSpan present
  obtain ⟨last, inv, _, swept, landed⟩ := inv_span_free ok.inv isSpan live
  have grounded : ∀ other, ¬(last.node other).InFlight := by
    intro other flies
    have before := landed other flies
    rw [before] at flies
    exact ok.grounded other flies
  refine ⟨last, inv, grounded, fun base loose => ok.settled base (swept.loose base loose), ?_⟩
  intro base owner baseSpan
  have before := swept_kind swept (by simp [baseSpan] : ∀ place, last.kind base ≠ .idle place)
  obtain ⟨tenant, inside, there⟩ := ok.tenants base owner (before.symm.trans baseSpan)
  obtain ⟨other, within, remains⟩ := swept.tenants base owner baseSpan
    ⟨tenant, inside, by simp [there]⟩
  exact ⟨other, within, span_object_live inv grounded (within ▸ baseSpan) remains⟩

theorem span_step_ok (ok : SpansOk s g) {act : SpanAct} (fits : SpanFits s act)
    (stepped : spanStep s act = some after) : ∃ last, SpansOk after last := by
  cases act with
  | init tlh tid =>
      by_cases valid : HeapMmapValid s.heaps tlh
      · simp only [spanStep, if_pos valid, Option.some.injEq] at stepped
        subst stepped
        exact ⟨g, spans_ok_init ok valid tid⟩
      · simp [spanStep, if_neg valid] at stepped
  | alloc tlh size =>
      by_cases heap : tlh ∈ s.heaps
      · simp only [spanStep, if_pos heap, Option.some.injEq] at stepped
        subst stepped
        exact spans_ok_alloc ok heap fits.1 fits.2
      · simp [spanStep, if_neg heap] at stepped
  | free tlh chunk ptr =>
      simp only [spanStep, Option.some.injEq] at stepped
      subst stepped
      exact spans_ok_free ok fits.1 fits.2.1 fits.2.2

theorem span_run_ok {env : Env} {secret : BitVec 64} {telemetry : Bool}
    {acts : List SpanAct}
    (fits : Along spanStep SpanFits (initial env secret telemetry) acts)
    (ran : run spanStep (initial env secret telemetry) acts = some s) : ∃ g, SpansOk s g := by
  have preserved : ∀ state act reached, (∃ g, SpansOk state g) → SpanFits state act →
      spanStep state act = some reached → ∃ g, SpansOk reached g := by
    rintro state act reached ⟨g, ok⟩ allowed stepped
    exact span_step_ok ok allowed stepped
  have started : SpansOk (initial env secret telemetry) emptyGhost :=
    ⟨inv_initial env secret telemetry False.elim, by simp [emptyGhost, NodePlace.InFlight],
      by simp [emptyGhost], by simp [emptyGhost]⟩
  exact run_invariant preserved ⟨emptyGhost, started⟩ fits ran

/-! ## The contract -/

/-- What the bitmap, the table of lengths and the counter say of one another. -/
structure SpanRepresented (span : Span) : Prop where
  inside : ∀ page, span.allocSizePages page ≠ 0 →
    1 ≤ page ∧ page + span.allocSizePages page ≤ 512
  disjoint : ∀ first second, first < second → span.allocSizePages first ≠ 0 →
    span.allocSizePages second ≠ 0 → first + span.allocSizePages first ≤ second
  bits : ∀ page < 512, pageFree span.freeBitmap page = false ↔
    page = 0 ∨ ∃ first, first ≤ page ∧ page < first + span.allocSizePages first
  counted : span.usedPages = 1 + ∑ page ∈ Finset.range 512, span.allocSizePages page
  bounded : span.usedPages ≤ 512
  busy : 1 < span.usedPages

theorem span_represented (ok : SpansOk s g) (isSpan : g.kind chunk = .span tlh) :
    SpanRepresented (s.span (chunk + 64)) := by
  have spanOk := ok.inv.spans chunk tlh isSpan
  obtain ⟨aligned, _, _⟩ := ok.inv.geom.placed chunk (by simp [isSpan])
  have total := span_ok_total spanOk
  have bounded : (s.span (chunk + 64)).usedPages ≤ 512 := by
    rw [spanOk.used, usedPageSet]
    exact (Finset.card_filter_le _ _).trans (Finset.card_range 512).le
  obtain ⟨ptr, inside, live⟩ := ok.tenants chunk tlh isSpan
  obtain ⟨page, _, listed⟩ := (spanOk.nodes ptr inside).mp (by simp [live])
  obtain ⟨_, bound⟩ := spanOk.table page listed
  have term : (s.span (chunk + 64)).allocSizePages page ≤
      ∑ page ∈ Finset.range 512, (s.span (chunk + 64)).allocSizePages page :=
    Finset.single_le_sum (fun _ _ => Nat.zero_le _) (Finset.mem_range.mpr (by omega))
  exact ⟨spanOk.table, spanOk.apart, spanOk.bits, total, bounded, by omega⟩

/-- In every state that allocations and frees of any addresses inside active
spans reach, a heap's list is well linked and holds the heap's span chunks once
each, each of them consistent, and freeing where no allocation starts changes
nothing. -/
theorem span_representation {env : Env} {secret : BitVec 64} {telemetry : Bool}
    {acts : List SpanAct}
    (fits : Along spanStep SpanFits (initial env secret telemetry) acts)
    (ran : run spanStep (initial env secret telemetry) acts = some s) (tlh : Nat) :
    ∃ spans, WellLinked s.spanLinks (s.activeSpans tlh) spans ∧
      (∀ span, span ∈ spans ↔ ∃ chunk, span = chunk + 64 ∧ OwnsSpan s tlh chunk) ∧
      (∀ span ∈ spans, SpanRepresented (s.span span)) ∧
      ∀ chunk ptr, chunk + 64 ∈ spans → chunk ≤ ptr → ptr < chunk + 2097152 →
        (s.span (chunk + 64)).allocSizePages ((ptr - chunk) / 4096) = 0 →
          lzSpanFreeLocal s tlh chunk ptr = s := by
  obtain ⟨g, ok⟩ := span_run_ok fits ran
  obtain ⟨spans, linked, members⟩ := ok.inv.spanList tlh
  refine ⟨spans, linked, fun span => ?_, fun span member => ?_, ?_⟩
  · rw [members span]
    refine exists_congr fun chunk => and_congr_right fun _ => ?_
    rw [owns_span_iff ok.inv.toCore ok.settled]
  · obtain ⟨chunk, rfl, isSpan⟩ := (members span).mp member
    exact span_represented ok isSpan
  · intro chunk ptr _ _ inside vacant
    exact span_free_ignored inside vacant

theorem active_alone {span : Nat} (head : s.activeSpans tlh = span) (positive : span ≠ 0)
    (alone : s.spanLinks.next span = 0) : Active s tlh span :=
  ⟨[span], ⟨head, positive, alone⟩, List.mem_singleton.mpr rfl⟩

/-- Two runs of pages are taken, an address in the middle of the first and one in
the descriptor page are freed to no effect, then the first run is freed through
an address on its first page. -/
def spanRun : List SpanAct :=
  [.init 4096 0, .alloc 4096 12288, .alloc 4096 5000, .free 4096 4359979008 4359987300,
    .free 4096 4359979008 4359979100, .free 4096 4359979008 4359983113]

def AloneFits (s : State) : SpanAct → Prop
  | .init _ _ => True
  | .alloc _ size => 1 ≤ size ∧ size ≤ lzMaxSpanObjSize
  | .free tlh chunk ptr =>
      (s.activeSpans tlh = chunk + 64 ∧ s.spanLinks.next (chunk + 64) = 0) ∧
        chunk ≤ ptr ∧ ptr < chunk + lzHugePageSize

instance (s : State) (act : SpanAct) : Decidable (AloneFits s act) := by
  cases act <;> unfold AloneFits <;> infer_instance

theorem span_fits_of_alone (s : State) (act : SpanAct) (alone : AloneFits s act) :
    SpanFits s act := by
  cases act with
  | init tlh tid => trivial
  | alloc tlh size => exact alone
  | free tlh chunk ptr =>
      exact ⟨active_alone alone.1.1 (Nat.succ_ne_zero _) alone.1.2, alone.2⟩

theorem span_representation_after_frees :
    ∃ s, run spanStep (initial generousEnv 7 true) spanRun = some s ∧
      (s.span (4359979008 + 64)).usedPages = 3 ∧
      ∃ spans, WellLinked s.spanLinks (s.activeSpans 4096) spans ∧
        ∀ span ∈ spans, SpanRepresented (s.span span) := by
  have fits : Along spanStep AloneFits (initial generousEnv 7 true) spanRun := by decide +kernel
  have used : (run spanStep (initial generousEnv 7 true) spanRun).map
      (fun s => (s.span (4359979008 + 64)).usedPages) = some 3 := by decide +kernel
  obtain ⟨s, ran, count⟩ := Option.map_eq_some_iff.mp used
  obtain ⟨spans, linked, _, represented, _⟩ :=
    span_representation (along_imp span_fits_of_alone fits) ran 4096
  exact ⟨s, ran, count, spans, linked, represented⟩

end Lzmalloc.SpanContracts
