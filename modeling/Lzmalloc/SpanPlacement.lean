import Mathlib.Order.Bounds.Basic
import Lzmalloc.ApiRuns
import Lzmalloc.EngineRuns
import Lzmalloc.SlabContracts

/-!
# Where spans put objects

`find_contiguous_pages` is an exact search for the first run of free pages, and
`lz_span_alloc` is first fit: the first active span that has a run, at the first
page where one starts. A new chunk is asked for only when no active span has a
run. A request of zero bytes asks for zero pages, which no search finds.
-/

namespace Lzmalloc.SpanPlacement

open SizeClasses HeapState VirtualMemoryManager PointerChain DoublyLinked Engines ThreadHeap
open PublicApi StepSystem HeapInvariant ChunkRoles ChunkTransfer RadixTree SpanPages SpanLifecycle
open EngineRuns ApiOperations ApiRuns
open SlabContracts (generousEnv)

set_option autoImplicit false

/-! ## Page search -/

/-- For every bitmap, the search returns the least page at which a run starts and
clears exactly that run, or it returns nothing, changes nothing and there is no
run. -/
theorem page_search_exact (bitmap : Bitmap) {requiredPages : Nat} (positive : 1 ≤ requiredPages) :
    (∀ start, (findContiguousPages bitmap requiredPages).1 = some start →
      IsLeast { first | first + requiredPages ≤ 512 ∧ ∀ page, first ≤ page →
        page < first + requiredPages → pageFree bitmap page = true } start ∧
      ∀ page, pageFree (findContiguousPages bitmap requiredPages).2 page =
        (pageFree bitmap page && !decide (start ≤ page ∧ page < start + requiredPages))) ∧
    ((findContiguousPages bitmap requiredPages).1 = none →
      (findContiguousPages bitmap requiredPages).2 = bitmap) ∧
    ((findContiguousPages bitmap requiredPages).1 = none ↔
      ¬∃ first, first + requiredPages ≤ 512 ∧ ∀ page, first ≤ page →
        page < first + requiredPages → pageFree bitmap page = true) := by
  have isRun : ∀ first, (first + requiredPages ≤ 512 ∧ ∀ page, first ≤ page →
      page < first + requiredPages → pageFree bitmap page = true) ↔
        FreeRun bitmap first requiredPages := by
    intro first
    rw [FreeRun]
    exact (and_iff_right positive).symm
  simp only [isRun]
  cases outcome : findContiguousPages bitmap requiredPages with
  | mk result after =>
      cases result with
      | some found =>
          obtain ⟨run, cleared⟩ := find_contiguous_pages_sound outcome
          constructor
          · intro start same
            obtain rfl : found = start := Option.some.inj same
            constructor
            · constructor
              · exact run
              · intro earlier other
                apply Nat.le_of_not_lt
                intro before
                exact find_contiguous_pages_least outcome before other
            · intro page
              rw [cleared, page_free_clear_pages, decide_not]
          · constructor
            · intro missing
              cases missing
            · constructor
              · intro missing
                cases missing
              · intro none
                exact absurd ⟨found, run⟩ none
      | none =>
          constructor
          · intro start same
            cases same
          · constructor
            · intro _
              unfold findContiguousPages at outcome
              cases searched : scanWords bitmap requiredPages lzSpanBitmapWords ⟨0, 0⟩ with
              | none =>
                  rw [searched] at outcome
                  exact (congrArg Prod.snd outcome).symm
              | some first =>
                  rw [searched] at outcome
                  cases congrArg Prod.fst outcome
            · constructor
              · rintro _ ⟨first, run⟩
                obtain ⟨found, bits, other⟩ := find_contiguous_pages_complete run
                rw [outcome] at other
                cases other
              · intro _
                rfl

/-- Pages 5 and 6 are free, and pages 62 to 66 across the first two words. -/
def fragmented : Bitmap := fun word =>
  if word = 0 then 3#64 <<< 62 ||| 3#64 <<< 5 else if word = 1 then 7#64 else 0

theorem page_search_exact_across_words :
    (findContiguousPages fragmented 4).1 = some 62 ∧
      ∀ page, pageFree (findContiguousPages fragmented 4).2 page =
        (pageFree fragmented page && !decide (62 ≤ page ∧ page < 62 + 4)) := by
  have found : (findContiguousPages fragmented 4).1 = some 62 := by decide +kernel
  have exact := page_search_exact fragmented (by decide : 1 ≤ 4)
  exact ⟨found, (exact.1 62 found).2⟩

/-! ## Reachable heaps -/

/-- States of the allocator and the pointers that are live there: states of the
heap engine and of runs of the public interface whose direct requests fit. -/
inductive ReachableHeap : State → (Nat → Prop) → Prop
  | engine {env : Env} {secret : BitVec 64} {telemetry : Bool} {acts : List EngineAct}
      {sys : EngineSys} (ran : run engineStep (engineStart env secret telemetry) acts = some sys) :
      ReachableHeap sys.state fun ptr => sys.live ptr = true
  | interface {env : Env} {secret : BitVec 64} {telemetry : Bool} {acts : List ApiAct}
      {sys : ApiSys} (fits : Along apiStep ApiFits (apiStart env secret telemetry) acts)
      (ran : run apiStep (apiStart env secret telemetry) acts = some sys) :
      ReachableHeap sys.state fun ptr => (sys.live ptr).isSome

structure Standing (mode : Mode) (s : State) (live : Nat → Prop) (g : Ghost) : Prop where
  inv : Inv mode s g
  cursor : ∀ tlh, g.cursor tlh = 0
  settled : ∀ chunk, g.kind chunk ≠ .loose
  live : ∀ ptr, live ptr ↔ g.node ptr = .live

theorem standing_reachable {s : State} {live : Nat → Prop} (reachable : ReachableHeap s live) :
    ∃ mode g, Standing mode s live g := by
  cases reachable with
  | engine ran =>
      obtain ⟨g, ok⟩ := engine_run_ok ran
      exact ⟨engineMode, g, ok.inv, ok.cursor, ok.settled, fun ptr => (ok.live ptr).symm⟩
  | interface fits ran =>
      have reached : ∃ g, ApiOk (apiMode False) _ g := api_run_ok False.elim fits ran
      obtain ⟨g, ok⟩ := reached
      exact ⟨apiMode False, g, ok.rest.inv, ok.rest.cursor, ok.rest.settled, ok.live⟩

/-! ## First fit -/

variable {mode : Mode} {s : State} {g : Ghost} {live : Nat → Prop}
  {tlh chunk start pages size : Nat}

def HasRun (span : Span) (pages : Nat) : Prop := ∃ start, FreeRun span.freeBitmap start pages

/-- The counter of a span never hides a run: with a run of free pages at most
`512 - pages` pages are in use. -/
theorem span_room {span : Span} {node : Nat → NodePlace} (ok : SpanOk span node chunk)
    (room : HasRun span pages) :
    (lzSpanTotalPages + (2 ^ 32 - span.usedPages)) % 2 ^ 32 ≥ pages := by
  obtain ⟨start, run⟩ := room
  have total := used_page_set_clear run
  have limit := used_page_set_card_le (clearPages span.freeBitmap start pages)
  have used := ok.used
  simp only [lzSpanTotalPages]
  omega

theorem search_spans_first (core : Core mode s g) {fuel current : Nat} {spans : List Nat}
    (segment : Segment s.spanLinks.next current spans 0) (enough : spans.length ≤ fuel)
    (owned : ∀ span ∈ spans, ∃ chunk, span = chunk + 64 ∧ g.kind chunk = .span tlh) :
    (∀ hit, searchSpans fuel s current pages = some hit →
      ∃ front back, spans = front ++ hit.current :: back ∧
        (∀ other ∈ front, ¬HasRun (s.span other) pages) ∧
        findContiguousPages (s.span hit.current).freeBitmap pages =
          (some hit.pageIdx, hit.bitmap)) ∧
    (searchSpans fuel s current pages = none → ∀ other ∈ spans, ¬HasRun (s.span other) pages) := by
  induction spans generalizing fuel current with
  | nil =>
      have ended : current = 0 := segment
      constructor
      · intro hit found
        cases fuel with
        | zero => simp [searchSpans] at found
        | succ fuel => simp [searchSpans, ended] at found
      · intro _ other visited
        cases visited
  | cons span rest ih =>
      obtain ⟨rfl, nonnull, tail⟩ := segment
      cases fuel with
      | zero => simp at enough
      | succ fuel =>
          obtain ⟨chunk, position, isSpan⟩ := owned current (by simp)
          have ok := core.spans chunk tlh isSpan
          rw [← position] at ok
          obtain ⟨hits, misses⟩ := ih tail (by simpa using enough)
            fun span visited => owned span (by simp [visited])
          -- The search goes on behind a span without a run.
          have onward (barren : ¬HasRun (s.span current) pages)
              (next : searchSpans (fuel + 1) s current pages =
                searchSpans fuel s (s.spanLinks.next current) pages) :
              (∀ hit, searchSpans (fuel + 1) s current pages = some hit →
                ∃ front back, current :: rest = front ++ hit.current :: back ∧
                  (∀ other ∈ front, ¬HasRun (s.span other) pages) ∧
                  findContiguousPages (s.span hit.current).freeBitmap pages =
                    (some hit.pageIdx, hit.bitmap)) ∧
              (searchSpans (fuel + 1) s current pages = none →
                ∀ other ∈ current :: rest, ¬HasRun (s.span other) pages) := by
            rw [next]
            constructor
            · intro hit found
              obtain ⟨front, back, split, passed, search⟩ := hits hit found
              exact ⟨current :: front, back, by rw [split]; rfl,
                List.forall_mem_cons.mpr ⟨barren, passed⟩, search⟩
            · intro missed
              exact List.forall_mem_cons.mpr ⟨barren, misses missed⟩
          by_cases roomy : (lzSpanTotalPages + (2 ^ 32 - (s.span current).usedPages)) %
            2 ^ 32 ≥ pages
          · cases outcome : findContiguousPages (s.span current).freeBitmap pages with
            | mk result bitmap =>
                cases result with
                | some pageIdx =>
                    have stop : searchSpans (fuel + 1) s current pages =
                        some ⟨current, pageIdx, bitmap⟩ := by
                      simp only [searchSpans, if_neg nonnull, if_pos roomy, outcome]
                    rw [stop]
                    constructor
                    · intro hit found
                      obtain rfl := Option.some.inj found
                      exact ⟨[], rest, rfl, by simp, outcome⟩
                    · intro missed
                      cases missed
                | none =>
                    apply onward
                    · rintro ⟨start, run⟩
                      obtain ⟨found, after, other⟩ := find_contiguous_pages_complete run
                      rw [outcome] at other
                      cases other
                    · simp only [searchSpans, if_neg nonnull, if_pos roomy, outcome]
          · apply onward
            · intro room
              exact roomy (span_room ok room)
            · simp only [searchSpans, if_neg nonnull, if_neg roomy]

structure RunTaken (span after : Span) (start pages : Nat) : Prop where
  first : IsLeast { first | FreeRun span.freeBitmap first pages } start
  bits : ∀ page, pageFree after.freeBitmap page =
    (pageFree span.freeBitmap page && !decide (start ≤ page ∧ page < start + pages))
  table : after.allocSizePages = Function.update span.allocSizePages start pages
  used : after.usedPages = span.usedPages + pages

theorem run_taken {span : Span} {node : Nat → NodePlace} {bitmap : Bitmap}
    (ok : SpanOk span node chunk)
    (found : findContiguousPages span.freeBitmap pages = (some start, bitmap)) :
    RunTaken span
      { freeBitmap := bitmap
        usedPages := (span.usedPages + pages) % 2 ^ 32
        allocSizePages := Function.update span.allocSizePages start (pages % 2 ^ 16) }
      start pages := by
  obtain ⟨run, cleared⟩ := find_contiguous_pages_sound found
  have total := used_page_set_clear run
  have limit := used_page_set_card_le (clearPages span.freeBitmap start pages)
  have used := ok.used
  have bound := run.2.1
  constructor
  · constructor
    · exact run
    · intro earlier other
      apply Nat.le_of_not_lt
      intro before
      exact find_contiguous_pages_least found before other
  · intro page
    rw [cleared, page_free_clear_pages, decide_not]
  · rw [Nat.mod_eq_of_lt (by omega : pages < 2 ^ 16)]
  · exact Nat.mod_eq_of_lt (by omega)

/-- Where `lz_span_alloc` puts an object of `pages` pages; `spans` are the active
spans in list order. -/
inductive SpanPlaced (s : State) (tlh pages : Nat) (spans : List Nat) : Nat × State → Prop
  | active {front back : List Nat} {chunk start : Nat} {span : Nat → Span}
      (position : spans = front ++ (chunk + 64) :: back)
      (passed : ∀ other ∈ front, ¬HasRun (s.span other) pages)
      (taken : RunTaken (s.span (chunk + 64)) (span (chunk + 64)) start pages)
      (others : ∀ other, other ≠ chunk + 64 → span other = s.span other) :
      SpanPlaced s tlh pages spans (chunk + start * 4096, { s with span := span })
  | refused (full : ∀ span ∈ spans, ¬HasRun (s.span span) pages)
      (failed : (lzVmmAllocChunk s).1 = 0) :
      SpanPlaced s tlh pages spans (0, (lzVmmAllocChunk s).2)
  | provisioned {chunk start : Nat} {after : State}
      (full : ∀ span ∈ spans, ¬HasRun (s.span span) pages)
      (given : (lzVmmAllocChunk s).1 = chunk) (nonnull : chunk ≠ 0)
      (linked : WellLinked after.spanLinks (after.activeSpans tlh) ((chunk + 64) :: spans))
      (taken : RunTaken freshSpan (after.span (chunk + 64)) start pages)
      (others : ∀ other, other ≠ chunk + 64 → after.span other = s.span other) :
      SpanPlaced s tlh pages spans (chunk + start * 4096, after)

/-! ## The paths of `lz_span_alloc` -/

/-- `lz_span_alloc` gets past the search and calls `lz_vmm_alloc_chunk`. -/
def AsksForChunk (s : State) (tlh size : Nat) : Prop :=
  spanPages size < lzSpanTotalPages ∧
    searchSpans addressLimit s (s.activeSpans tlh) (spanPages size) = none

theorem span_alloc_hit {hit : SpanHit} (small : spanPages size < lzSpanTotalPages)
    (found : searchSpans addressLimit s (s.activeSpans tlh) (spanPages size) = some hit) :
    lzSpanAlloc s tlh size = finishSpanAlloc s hit (spanPages size) := by
  unfold spanPages at *
  simp only [lzSpanAlloc, if_neg (Nat.not_le.mpr small), found]

theorem span_alloc_refused (asks : AsksForChunk s tlh size) (failed : (lzVmmAllocChunk s).1 = 0) :
    lzSpanAlloc s tlh size = (0, (lzVmmAllocChunk s).2) := by
  unfold AsksForChunk spanPages at asks
  simp only [lzSpanAlloc, if_neg (Nat.not_le.mpr asks.1), asks.2, if_pos failed]

theorem span_alloc_provisioned {after : State} {bitmap : Bitmap} (asks : AsksForChunk s tlh size)
    (given : lzVmmAllocChunk s = (chunk, after)) (nonnull : chunk ≠ 0)
    (found : findContiguousPages ((formatSpan after tlh chunk).span (chunk + 64)).freeBitmap
      (spanPages size) = (some start, bitmap)) :
    lzSpanAlloc s tlh size =
      finishSpanAlloc (formatSpan after tlh chunk) ⟨chunk + 64, start, bitmap⟩
      (spanPages size) := by
  unfold AsksForChunk at asks
  unfold spanPages at *
  simp only [lzSpanAlloc, if_neg (Nat.not_le.mpr asks.1), asks.2, given, if_neg nonnull,
    lzCacheLineSize, found]

/-- The active spans of a heap are few enough for the search to reach them all. -/
theorem active_spans_short (core : Core mode s g) {spans : List Nat}
    (linked : WellLinked s.spanLinks (s.activeSpans tlh) spans)
    (owned : ∀ span ∈ spans, ∃ chunk, span = chunk + 64 ∧ g.kind chunk = .span tlh) :
    spans.length ≤ addressLimit := by
  have chain : Enumerates s.spanLinks.next (s.activeSpans tlh) (fun span => span ∈ spans)
      spans.length := ⟨spans, linked.forward, linked.nodup, fun _ => Iff.rfl, rfl⟩
  apply enumerates_bound chain
  intro span member
  obtain ⟨chunk, rfl, isSpan⟩ := owned span member
  obtain ⟨_, _, bound⟩ := core.geom.placed chunk (by simp [isSpan])
  simp only [addressLimit]
  omega

theorem span_provisioned {spans : List Nat} {after : State}
    (linked : WellLinked s.spanLinks (s.activeSpans tlh) spans)
    (owned : ∀ span ∈ spans, ∃ chunk, span = chunk + 64 ∧ g.kind chunk = .span tlh)
    (only : OnlyManager s after) (nonspan : g.kind chunk ≠ .span tlh) :
    WellLinked (formatSpan after tlh chunk).spanLinks ((formatSpan after tlh chunk).activeSpans tlh)
        ((chunk + 64) :: spans) ∧
      (formatSpan after tlh chunk).span (chunk + 64) = freshSpan ∧
      ∀ other, other ≠ chunk + 64 → (formatSpan after tlh chunk).span other = s.span other := by
  have fresh : chunk + 64 ∉ spans := by
    intro member
    obtain ⟨base, position, isSpan⟩ := owned _ member
    obtain rfl : base = chunk := by omega
    exact nonspan isSpan
  have links : after.spanLinks = s.spanLinks := by rw [only]
  have heads : after.activeSpans = s.activeSpans := by rw [only]
  have table : after.span = s.span := by rw [only]
  unfold formatSpan
  rw [lz_rtree_set_eq]
  simp only [lzCacheLineSize, links, heads, table, Function.update_self]
  constructor
  · exact well_linked_push linked (by omega) fresh
  · constructor
    · trivial
    · intro other different
      exact Function.update_of_ne different _ _

theorem given_chunk (core : Core mode s g) {after : State}
    (given : lzVmmAllocChunk s = (chunk, after)) (nonnull : chunk ≠ 0) :
    OnlyManager s after ∧ chunk % 2097152 = 0 ∧ ∀ owner, g.kind chunk ≠ .span owner := by
  obtain ⟨only, roles, same, _, later, loose⟩ := core_vmm_alloc core
  rw [given] at only later loose
  have isLoose := loose nonnull
  obtain ⟨aligned, _, _⟩ := later.geom.placed chunk (by simp [isLoose])
  constructor
  · exact only
  constructor
  · exact aligned
  · intro owner isSpan
    rw [(same_span same).mpr isSpan] at isLoose
    cases isLoose

theorem finish_span_taken {hit : SpanHit} {node : Nat → NodePlace} (aligned : chunk % 2097152 = 0)
    (here : hit.current = chunk + 64) (ok : SpanOk (s.span (chunk + 64)) node chunk)
    (found : findContiguousPages (s.span (chunk + 64)).freeBitmap pages =
      (some hit.pageIdx, hit.bitmap)) :
    ∃ span, finishSpanAlloc s hit pages = (chunk + hit.pageIdx * 4096, { s with span := span }) ∧
      RunTaken (s.span (chunk + 64)) (span (chunk + 64)) hit.pageIdx pages ∧
      ∀ other, other ≠ chunk + 64 → span other = s.span other := by
  have base : chunkBase (chunk + 64) = chunk := chunk_base_eq aligned (by omega) (by omega)
  unfold finishSpanAlloc
  simp only [here, base, lzPageSize]
  apply Exists.intro
  constructor
  · rfl
  constructor
  · rw [Function.update_self]
    exact run_taken ok found
  · intro other different
    exact Function.update_of_ne different _ _

theorem span_placed (inv : Inv mode s g) (tlh : Nat) (positive : 1 ≤ spanPages size)
    (small : spanPages size < 512) :
    ∃ spans, WellLinked s.spanLinks (s.activeSpans tlh) spans ∧
      SpanPlaced s tlh (spanPages size) spans (lzSpanAlloc s tlh size) := by
  obtain ⟨spans, linked, members⟩ := inv.spanList tlh
  have owned := fun span member => (members span).mp member
  obtain ⟨hits, misses⟩ := @search_spans_first mode s g tlh (spanPages size) inv.toCore _ _ _
    linked.forward (active_spans_short inv.toCore linked owned) owned
  apply Exists.intro spans
  constructor
  · exact linked
  cases search : searchSpans addressLimit s (s.activeSpans tlh) (spanPages size) with
  | some hit =>
      obtain ⟨front, back, split, passed, found⟩ := hits hit search
      obtain ⟨chunk, here, isSpan⟩ := owned hit.current (by simp [split])
      obtain ⟨aligned, _, _⟩ := inv.geom.placed chunk (by simp [isSpan])
      rw [here] at split found
      obtain ⟨span, result, taken, others⟩ :=
        finish_span_taken aligned here (inv.spans chunk tlh isSpan) found
      rw [span_alloc_hit small search, result]
      exact .active split passed taken others
  | none =>
      have full := misses search
      cases given : lzVmmAllocChunk s with
      | mk chunk after =>
          by_cases nonnull : chunk = 0
          · have failed : (lzVmmAllocChunk s).1 = 0 := by rw [given]; exact nonnull
            rw [span_alloc_refused ⟨small, search⟩ failed]
            exact .refused full failed
          · obtain ⟨only, aligned, nonspan⟩ := given_chunk inv.toCore given nonnull
            obtain ⟨pushed, fresh, others⟩ := span_provisioned linked owned only (nonspan tlh)
            obtain ⟨start, bitmap, found⟩ :=
              @fresh_span_found after _ positive (Nat.not_le.mpr small) tlh chunk
            have ok : SpanOk ((formatSpan after tlh chunk).span (chunk + 64))
                (fun _ => .none) chunk := by
              rw [fresh]
              exact fresh_span_ok fun _ _ => rfl
            obtain ⟨span, result, taken, kept⟩ := finish_span_taken aligned
              (show (SpanHit.mk (chunk + 64) start bitmap).current = chunk + 64 from rfl) ok found
            rw [fresh] at taken
            rw [span_alloc_provisioned ⟨small, search⟩ given nonnull found, result]
            exact .provisioned full (by rw [given]) nonnull pushed taken fun other different =>
              (kept other different).trans (others other different)

theorem span_pages_exact (bound : size ≤ 1048576) :
    spanPages size < 512 ∧ size ≤ spanPages size * 4096 ∧ spanPages size * 4096 < size + 4096 := by
  simp only [spanPages, lzPageSize, lz_align_up_page]
  omega

/-- In every reachable state an object of 1 to 1048576 bytes goes to the first
span of the list that has a run of its pages, to the first such run. A chunk is
asked for only when no span of the list has one. -/
theorem span_first_fit (reachable : ReachableHeap s live) (tlh : Nat) (positive : 1 ≤ size)
    (bound : size ≤ 1048576) :
    size ≤ spanPages size * 4096 ∧ spanPages size * 4096 < size + 4096 ∧
      ∃ spans, WellLinked s.spanLinks (s.activeSpans tlh) spans ∧
        SpanPlaced s tlh (spanPages size) spans (lzSpanAlloc s tlh size) := by
  obtain ⟨mode, g, standing⟩ := standing_reachable reachable
  obtain ⟨small, covers, tight⟩ := span_pages_exact bound
  exact ⟨covers, tight, span_placed standing.inv tlh (by omega) small⟩

/-- Thread 1 takes ten and nine pages and frees the ten: an object of nine pages
goes there. -/
def refillRun : List ApiAct :=
  [.malloc 1 40000, .malloc 1 36000, .free 1 4359983104]

theorem span_first_fit_refill :
    ∃ sys, run apiStep (apiStart generousEnv 7 true) refillRun = some sys ∧
      (lzSpanAlloc sys.state 4096 33000).1 = 4359983104 ∧
      ∃ spans, WellLinked sys.state.spanLinks (sys.state.activeSpans 4096) spans ∧
        SpanPlaced sys.state 4096 (spanPages 33000) spans (lzSpanAlloc sys.state 4096 33000) := by
  have fits : Along apiStep ApiFits (apiStart generousEnv 7 true) refillRun := by decide +kernel
  have placed : (run apiStep (apiStart generousEnv 7 true) refillRun).map
      (fun sys => (lzSpanAlloc sys.state 4096 33000).1) = some 4359983104 := by decide +kernel
  obtain ⟨sys, ran, pointer⟩ := Option.map_eq_some_iff.mp placed
  obtain ⟨_, _, spans, linked, first⟩ :=
    span_first_fit (.interface fits ran) 4096 (by decide : 1 ≤ 33000) (by decide)
  exact ⟨sys, ran, pointer, spans, linked, first⟩

/-! ## Failing cleanly -/

/-- The branch behind `LZ_FATAL`: the chunk is formatted, registered and linked,
and the search in it finds nothing. -/
def ReachesFailsafe (s : State) (tlh size : Nat) : Prop :=
  AsksForChunk s tlh size ∧ (lzVmmAllocChunk s).1 ≠ 0 ∧
    (findContiguousPages ((formatSpan (lzVmmAllocChunk s).2 tlh (lzVmmAllocChunk s).1).span
      ((lzVmmAllocChunk s).1 + lzCacheLineSize)).freeBitmap (spanPages size)).1 = none

structure FailsCleanly (s : State) (tlh size : Nat) : Prop where
  refused : (lzSpanAlloc s tlh size).1 = 0 →
    AsksForChunk s tlh size ∧ (lzVmmAllocChunk s).1 = 0
  unchanged : (lzSpanAlloc s tlh size).1 = 0 →
    (lzSpanAlloc s tlh size).2.activeSpans = s.activeSpans ∧
      (lzSpanAlloc s tlh size).2.spanLinks = s.spanLinks ∧
      (lzSpanAlloc s tlh size).2.span = s.span ∧ (lzSpanAlloc s tlh size).2.rtree = s.rtree
  pristine : ¬ReachesFailsafe s tlh size

theorem no_pages_found (bitmap : Bitmap) : (findContiguousPages bitmap 0).1 = none := by
  cases outcome : findContiguousPages bitmap 0 with
  | mk result after =>
      cases result with
      | none => rfl
      | some start =>
          have positive := (find_contiguous_pages_sound outcome).1.1
          omega

theorem search_no_pages (fuel : Nat) (s : State) (current : Nat) :
    searchSpans fuel s current 0 = none := by
  induction fuel generalizing current with
  | zero => rfl
  | succ fuel ih =>
      unfold searchSpans
      cases outcome : findContiguousPages (s.span current).freeBitmap 0 with
      | mk result after =>
          have missed := no_pages_found (s.span current).freeBitmap
          rw [outcome] at missed
          obtain rfl : result = none := missed
          simp [ih]

theorem empty_request_failsafe (s : State) (tlh : Nat) (given : (lzVmmAllocChunk s).1 ≠ 0) :
    ReachesFailsafe s tlh 0 := by
  constructor
  · constructor
    · decide
    · exact search_no_pages _ s _
  · constructor
    · exact given
    · exact no_pages_found _

theorem refused_clean (core : Core mode s g) (asks : AsksForChunk s tlh size)
    (failed : (lzVmmAllocChunk s).1 = 0) : FailsCleanly s tlh size := by
  have only := (core_vmm_alloc core).1
  have result := span_alloc_refused asks failed
  constructor
  · intro _
    exact ⟨asks, failed⟩
  · intro _
    rw [result]
    dsimp only
    rw [only]
    exact ⟨rfl, rfl, rfl, rfl⟩
  · intro failsafe
    exact failsafe.2.1 failed

theorem served_clean (served : (lzSpanAlloc s tlh size).1 ≠ 0)
    (pristine : ¬ReachesFailsafe s tlh size) : FailsCleanly s tlh size := by
  constructor
  · intro null
    exact absurd null served
  · intro null
    exact absurd null served
  · exact pristine

theorem span_alloc_clean (inv : Inv mode s g) (tlh : Nat) (positive : 1 ≤ spanPages size)
    (small : spanPages size < 512) : FailsCleanly s tlh size := by
  cases search : searchSpans addressLimit s (s.activeSpans tlh) (spanPages size) with
  | some hit =>
      obtain ⟨chunk, here, isSpan, found⟩ :=
        search_spans_sound inv.toCore (doubly_head (inv.spanList tlh)) search
      apply served_clean
      · rw [span_alloc_hit small search]
        exact (inv_finish_span inv isSpan here found).1
      · intro failsafe
        rw [failsafe.1.2] at search
        cases search
  | none =>
      cases given : lzVmmAllocChunk s with
      | mk chunk after =>
          by_cases nonnull : chunk = 0
          · exact refused_clean inv.toCore ⟨small, search⟩ (by rw [given]; exact nonnull)
          · obtain ⟨only, aligned, _⟩ := given_chunk inv.toCore given nonnull
            obtain ⟨start, bitmap, found⟩ :=
              @fresh_span_found after _ positive (Nat.not_le.mpr small) tlh chunk
            apply served_clean
            · rw [span_alloc_provisioned ⟨small, search⟩ given nonnull found]
              have base : chunkBase (chunk + 64) = chunk :=
                chunk_base_eq aligned (by omega) (by omega)
              simp only [finishSpanAlloc, base]
              omega
            · intro failsafe
              have missed := failsafe.2.2
              rw [given] at missed
              dsimp only [lzCacheLineSize] at missed
              rw [found] at missed
              cases missed

/-- In every reachable state and for every size its callers pass, `lz_span_alloc`
fails cleanly unless the size is zero and the manager has a chunk to give: then
the chunk is formatted, registered and linked before NULL is returned. -/
theorem span_alloc_fails_cleanly_iff (reachable : ReachableHeap s live) (tlh : Nat)
    (bound : size ≤ 1048576) :
    FailsCleanly s tlh size ↔ size ≠ 0 ∨ (lzVmmAllocChunk s).1 = 0 := by
  obtain ⟨mode, g, standing⟩ := standing_reachable reachable
  obtain ⟨small, covers, tight⟩ := span_pages_exact bound
  constructor
  · intro clean
    by_cases empty : size = 0
    · subst empty
      apply Or.inr
      by_contra given
      exact clean.pristine (empty_request_failsafe s tlh given)
    · exact Or.inl empty
  · intro condition
    by_cases empty : size = 0
    · have failed := condition.resolve_left (not_not.mpr empty)
      subst empty
      exact refused_clean standing.inv.toCore ⟨small, search_no_pages _ s _⟩ failed
    · exact span_alloc_clean standing.inv tlh (by omega) small

/-- One region is granted and every later one refused. -/
def oneRegionEnv : Env :=
  { generousEnv with regionMmap := fun call => if call = 0 then some (2 ^ 32) else none }

/-- A megabyte of pages, and a slab of each of 31 classes: no chunk of the region is
left. -/
def usedUpRun : List ApiAct :=
  .malloc 1 1048576 :: (List.range 31).map fun scIdx => .malloc 1 (lzClassToSize scIdx)

theorem refused_chunk_fails_cleanly :
    ∃ sys, run apiStep (apiStart oneRegionEnv 7 true) usedUpRun = some sys ∧
      sys.state.activeSpans 4096 ≠ 0 ∧ (lzSpanAlloc sys.state 4096 1048576).1 = 0 ∧
      FailsCleanly sys.state 4096 1048576 := by
  have facts : (run apiStep (apiStart oneRegionEnv 7 true) usedUpRun).map (fun sys =>
      (sys.state.activeSpans 4096, (lzSpanAlloc sys.state 4096 1048576).1)) =
        some (4359979072, 0) := by decide +kernel
  obtain ⟨sys, ran, values⟩ := Option.map_eq_some_iff.mp facts
  obtain ⟨active, refused⟩ := Prod.mk.inj values
  have fits : Along apiStep ApiFits (apiStart oneRegionEnv 7 true) usedUpRun := by decide +kernel
  refine ⟨sys, ran, by simp [active], refused, ?_⟩
  exact (span_alloc_fails_cleanly_iff (.interface fits ran) 4096 (by decide)).mpr
    (Or.inl (by decide))

/-- An aligned request of zero bytes is passed on to `lz_span_alloc`, which
takes a chunk from the manager, leaves it as an empty span on the list and
returns NULL. -/
theorem empty_request_leaves_span :
    ∃ sys, run apiStep (apiStart generousEnv 7 true) [.attach 1] = some sys ∧
      lzMemalign sys.state 1 128 0 = some (lzSpanAlloc sys.state 4096 0) ∧
      (lzSpanAlloc sys.state 4096 0).1 = 0 ∧
      (lzSpanAlloc sys.state 4096 0).2.activeSpans 4096 ≠ sys.state.activeSpans 4096 ∧
      ¬FailsCleanly sys.state 4096 0 := by
  have facts : (run apiStep (apiStart generousEnv 7 true) [.attach 1]).map (fun sys =>
      (sys.state.tls 1, sys.state.activeSpans 4096, (lzVmmAllocChunk sys.state).1,
        (lzSpanAlloc sys.state 4096 0).1, (lzSpanAlloc sys.state 4096 0).2.activeSpans 4096)) =
      some (4096, 0, 4359979008, 0, 4359979072) := by decide +kernel
  obtain ⟨sys, ran, values⟩ := Option.map_eq_some_iff.mp facts
  simp only [Prod.mk.injEq] at values
  obtain ⟨attached, before, given, null, after⟩ := values
  apply Exists.intro sys
  constructor
  · exact ran
  constructor
  · have ready : ensureTlsInit sys.state 1 = some sys.state := by
      simp [ensureTlsInit, attached]
    simp [lzMemalign, isPowerOfTwo, ready, attached, lzMaxSlabObjSize, lzPageSize, lzMaxSpanObjSize]
  constructor
  · exact null
  constructor
  · rw [after, before]
    decide
  · intro clean
    apply clean.pristine
    apply empty_request_failsafe
    rw [given]
    decide

end Lzmalloc.SpanPlacement
