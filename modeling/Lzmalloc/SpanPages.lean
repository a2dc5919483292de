import Lzmalloc.InvariantFacts
import Mathlib.Order.Interval.Finset.Nat
import Mathlib.Algebra.BigOperators.Group.Finset.Basic

/-!
# Pages of a span

The page bitmap bit by bit, the soundness of the search for a free run, and
what taking and releasing a run does to a span: the table of run lengths and
the bitmap always describe the same set of used pages.
-/

namespace Lzmalloc.SpanPages

open SizeClasses HeapState Engines HeapInvariant

set_option autoImplicit false

variable {bitmap : Bitmap} {page start count requiredPages : Nat}

/-! ## Single pages and runs of pages -/

theorem page_same {left right : Nat} (word : left / 64 = right / 64)
    (bit : left % 64 = right % 64) : left = right := by
  omega

theorem page_free_clear (bitmap : Bitmap) (j page : Nat) :
    pageFree (clearPage bitmap j) page = (pageFree bitmap page && decide (page ≠ j)) := by
  by_cases word : page / 64 = j / 64
  · have bit : page % 64 < 64 := Nat.mod_lt _ (by norm_num)
    by_cases same : page % 64 = j % 64
    · obtain rfl := page_same word same
      simp [pageFree, clearPage, bit]
    · have different : page ≠ j := by rintro rfl; exact same rfl
      have offset : page % 64 < j % 64 ∨ page % 64 - j % 64 ≠ 0 := by omega
      rcases offset with below | above
      · simp [pageFree, clearPage, word, different, bit, below]
      · simp [pageFree, clearPage, word, different, bit, above]
  · have different : page ≠ j := by rintro rfl; exact word rfl
    simp [pageFree, clearPage, word, different]

theorem page_free_set (bitmap : Bitmap) (j page : Nat) :
    pageFree (setPage bitmap j) page = (pageFree bitmap page || decide (page = j)) := by
  by_cases word : page / 64 = j / 64
  · have bit : page % 64 < 64 := Nat.mod_lt _ (by norm_num)
    by_cases same : page % 64 = j % 64
    · obtain rfl := page_same word same
      simp [pageFree, setPage, bit]
    · have different : page ≠ j := by rintro rfl; exact same rfl
      have offset : page % 64 < j % 64 ∨ page % 64 - j % 64 ≠ 0 := by omega
      rcases offset with below | above
      · simp [pageFree, setPage, word, different, bit, below]
      · simp [pageFree, setPage, word, different, bit, above]
  · have different : page ≠ j := by rintro rfl; exact word rfl
    simp [pageFree, setPage, word, different]

theorem page_free_clear_pages (bitmap : Bitmap) (start count page : Nat) :
    pageFree (clearPages bitmap start count) page =
      (pageFree bitmap page && decide (¬(start ≤ page ∧ page < start + count))) := by
  induction count with
  | zero => simp [clearPages]
  | succ count ih =>
      have step : clearPages bitmap start (count + 1) =
          clearPage (clearPages bitmap start count) (start + count) := by
        simp [clearPages, List.range_succ]
      rw [step, page_free_clear, ih, Bool.and_assoc, ← Bool.decide_and]
      congr 1
      apply decide_eq_decide.mpr
      omega

theorem page_free_set_pages (bitmap : Bitmap) (start count page : Nat) :
    pageFree (setPages bitmap start count) page =
      (pageFree bitmap page || decide (start ≤ page ∧ page < start + count)) := by
  induction count with
  | zero => simp [setPages]
  | succ count ih =>
      have step : setPages bitmap start (count + 1) =
          setPage (setPages bitmap start count) (start + count) := by
        simp [setPages, List.range_succ]
      rw [step, page_free_set, ih, Bool.or_assoc, ← Bool.decide_or]
      congr 1
      apply decide_eq_decide.mpr
      omega

/-! ## Search for a free run -/

/-- The run counter at page `position`: the counted pages end here and are all
free. -/
def ScanOk (bitmap : Bitmap) (scan : Scan) (position : Nat) : Prop :=
  scan.consecutive ≤ position ∧ (scan.consecutive ≠ 0 →
    scan.startIdx + scan.consecutive = position ∧
      ∀ page, scan.startIdx ≤ page → page < position → pageFree bitmap page = true)

def FreeRun (bitmap : Bitmap) (start requiredPages : Nat) : Prop :=
  1 ≤ requiredPages ∧ start + requiredPages ≤ 512 ∧
    ∀ page, start ≤ page → page < start + requiredPages → pageFree bitmap page = true

theorem scan_grown {scan : Scan} {position first : Nat} (ok : ScanOk bitmap scan position)
    (free : pageFree bitmap position = true)
    (firstEq : (if scan.consecutive = 0 then position else scan.startIdx) = first) :
    first + (scan.consecutive + 1) = position + 1 ∧
      ∀ page, first ≤ page → page < position + 1 → pageFree bitmap page = true := by
  obtain ⟨small, run⟩ := ok
  by_cases fresh : scan.consecutive = 0
  · rw [if_pos fresh] at firstEq
    constructor
    · omega
    · intro page lower upper
      have here : page = position := by omega
      rw [here]
      exact free
  · rw [if_neg fresh] at firstEq
    obtain ⟨ends, allFree⟩ := run fresh
    constructor
    · omega
    · intro page lower upper
      by_cases last : page = position
      · rw [last]
        exact free
      · apply allFree page
        · omega
        · omega

/-- Nothing has been found up to page `position`, and the counter is the length
of the longest free run that ends there. -/
structure Missed (bitmap : Bitmap) (requiredPages : Nat) (scan : Scan) (position : Nat) : Prop where
  short : scan.consecutive < requiredPages
  longest : ∀ start ≤ position,
    (∀ page, start ≤ page → page < position → pageFree bitmap page = true) →
      position - start ≤ scan.consecutive
  none : ∀ start, start + requiredPages ≤ position →
    ∃ page, start ≤ page ∧ page < start + requiredPages ∧ pageFree bitmap page = false

theorem missed_used {scan : Scan} {position : Nat}
    (missed : Missed bitmap requiredPages scan position)
    (used : pageFree bitmap position = false) :
    Missed bitmap requiredPages ⟨0, scan.startIdx⟩ (position + 1) := by
  have positive : 0 < requiredPages := Nat.zero_lt_of_lt missed.short
  refine ⟨positive, fun start below free => ?_, fun start ends => ?_⟩
  · by_contra long
    have last := free position (by dsimp only at long; omega) (by omega)
    rw [used] at last
    cases last
  · by_cases earlier : start + requiredPages ≤ position
    · exact missed.none start earlier
    · exact ⟨position, by omega, by omega, used⟩

theorem missed_free {scan : Scan} {position first : Nat}
    (missed : Missed bitmap requiredPages scan position)
    (short : scan.consecutive + 1 < requiredPages) :
    Missed bitmap requiredPages ⟨scan.consecutive + 1, first⟩ (position + 1) := by
  have grown : ∀ start ≤ position + 1,
      (∀ page, start ≤ page → page < position + 1 → pageFree bitmap page = true) →
        position + 1 - start ≤ scan.consecutive + 1 := by
    intro start below free
    by_cases here : start ≤ position
    · have before := missed.longest start here fun page lower upper => free page lower (by omega)
      omega
    · omega
  refine ⟨short, grown, fun start ends => ?_⟩
  by_cases earlier : start + requiredPages ≤ position
  · exact missed.none start earlier
  · by_contra none
    have length := grown start (by omega) fun page lower upper => by
      by_contra used
      exact none ⟨page, lower, by omega, by simpa using used⟩
    omega

theorem missed_found {scan : Scan} {position earlier : Nat}
    (missed : Missed bitmap requiredPages scan position)
    (before : earlier + requiredPages ≤ position) :
    ¬FreeRun bitmap earlier requiredPages := by
  intro run
  obtain ⟨page, lower, upper, used⟩ := missed.none earlier before
  rw [run.2.2 page lower upper] at used
  cases used

/-- The scan of one word finds the first free run, or carries both invariants to
the next word. -/
theorem scan_word_spec {word : BitVec 64} {i : Nat} (requiredPages remaining : Nat) (scan : Scan)
    (isWord : bitmap i = word) (bound : i < 8) (left : remaining ≤ 64)
    (ok : ScanOk bitmap scan (i * 64 + (64 - remaining)))
    (missed : 1 ≤ requiredPages → Missed bitmap requiredPages scan (i * 64 + (64 - remaining))) :
    (∀ start last, scanWord word i requiredPages remaining scan = (some start, last) →
        FreeRun bitmap start requiredPages ∧
          ∀ earlier < start, ¬FreeRun bitmap earlier requiredPages) ∧
      ∀ last, scanWord word i requiredPages remaining scan = (none, last) →
        ScanOk bitmap last ((i + 1) * 64) ∧
          (1 ≤ requiredPages → Missed bitmap requiredPages last ((i + 1) * 64)) := by
  induction remaining generalizing scan with
  | zero =>
      have position : i * 64 + (64 - 0) = (i + 1) * 64 := by omega
      rw [position] at ok missed
      constructor
      · intro start last found
        simp [scanWord] at found
      · intro last ended
        obtain rfl : scan = last := by simpa [scanWord] using ended
        exact ⟨ok, missed⟩
  | succ remaining ih =>
      have position : i * 64 + (64 - (remaining + 1)) = i * 64 + (63 - remaining) := by omega
      have next : i * 64 + (64 - remaining) = i * 64 + (63 - remaining) + 1 := by omega
      have bitEq : pageFree bitmap (i * 64 + (63 - remaining)) = word.getLsbD (63 - remaining) := by
        have index : (i * 64 + (63 - remaining)) / 64 = i := by omega
        have bit : (i * 64 + (63 - remaining)) % 64 = 63 - remaining := by omega
        simp only [pageFree, index, bit, isWord]
      rw [position] at ok missed
      rw [next] at ih
      unfold scanWord
      by_cases set : word.getLsbD (63 - remaining) = true
      · have small := ok.1
        have counted : (scan.consecutive + 1) % 2 ^ 32 = scan.consecutive + 1 := by omega
        obtain ⟨first, firstEq⟩ : ∃ first, (if scan.consecutive = 0 then i * 64 + (63 - remaining)
          else scan.startIdx) = first := ⟨_, rfl⟩
        have grown := scan_grown ok (bitEq.trans set) firstEq
        simp only [set, if_true, counted, firstEq]
        by_cases done : scan.consecutive + 1 = requiredPages
        · rw [if_pos done]
          constructor
          · intro start last found
            obtain ⟨rfl, _⟩ : first = start ∧ _ = last := by simpa using found
            constructor
            · exact ⟨by omega, by omega, fun page lower upper => grown.2 page lower (by omega)⟩
            · intro earlier before
              exact missed_found (missed (by omega)) (by omega)
          · intro last ended
            simp at ended
        · rw [if_neg done]
          apply ih
          · omega
          · constructor
            · dsimp only
              omega
            · intro _
              exact grown
          · intro positive
            have short := (missed positive).short
            exact missed_free (missed positive) (by omega)
      · simp only [set]
        apply ih
        · omega
        · exact ⟨by simp, fun counted => absurd rfl counted⟩
        · intro positive
          exact missed_used (missed positive) (by rw [bitEq]; simpa using set)

theorem missed_word {scan : Scan} {i : Nat} (missed : Missed bitmap requiredPages scan (i * 64))
    (empty : bitmap i = 0) :
    Missed bitmap requiredPages ⟨0, scan.startIdx⟩ ((i + 1) * 64) := by
  have used : ∀ page, i * 64 ≤ page → page < (i + 1) * 64 → pageFree bitmap page = false := by
    intro page lower upper
    have index : page / 64 = i := by omega
    simp [pageFree, index, empty]
  have positive : 0 < requiredPages := Nat.zero_lt_of_lt missed.short
  refine ⟨positive, fun start below free => ?_, fun start ends => ?_⟩
  · by_contra long
    have last := free ((i + 1) * 64 - 1) (by dsimp only at long; omega) (by omega)
    rw [used _ (by omega) (by omega)] at last
    cases last
  · by_cases earlier : start + requiredPages ≤ i * 64
    · exact missed.none start earlier
    · exact ⟨start + requiredPages - 1, by omega, by omega, used _ (by omega) (by omega)⟩

theorem scan_words_spec {remaining : Nat} {scan : Scan} (left : remaining ≤ 8)
    (ok : ScanOk bitmap scan ((8 - remaining) * 64))
    (missed : 1 ≤ requiredPages → Missed bitmap requiredPages scan ((8 - remaining) * 64)) :
    (∀ start, scanWords bitmap requiredPages remaining scan = some start →
        FreeRun bitmap start requiredPages ∧
          ∀ earlier < start, ¬FreeRun bitmap earlier requiredPages) ∧
      (scanWords bitmap requiredPages remaining scan = none →
        ∀ start, ¬FreeRun bitmap start requiredPages) := by
  induction remaining generalizing scan with
  | zero =>
      constructor
      · intro start found
        simp [scanWords] at found
      · intro _ start run
        exact missed_found (missed run.1) (by have bound := run.2.1; omega) run
  | succ remaining ih =>
      have index : 8 - (remaining + 1) = 7 - remaining := by omega
      have next : (8 - remaining) * 64 = (7 - remaining + 1) * 64 := by omega
      rw [index] at ok missed
      rw [next] at ih
      unfold scanWords
      by_cases empty : bitmap (7 - remaining) = 0
      · simp only [empty, if_true]
        apply ih
        · omega
        · exact ⟨by simp, fun counted => absurd rfl counted⟩
        · intro positive
          exact missed_word (missed positive) empty
      · simp only [empty, if_false]
        have word := scan_word_spec requiredPages 64 scan rfl (by omega : 7 - remaining < 8) le_rfl
          (by simpa using ok) (by simpa using missed)
        cases outcome : scanWord (bitmap (7 - remaining)) (7 - remaining) requiredPages 64 scan with
        | mk result last =>
            cases result with
            | some first =>
                constructor
                · intro start found
                  obtain rfl : first = start := by simpa using found
                  exact word.1 first last outcome
                · intro ended
                  simp at ended
            | none =>
                obtain ⟨carried, still⟩ := word.2 last outcome
                exact ih (by omega) carried still

theorem scan_spec (bitmap : Bitmap) (requiredPages : Nat) :
    (∀ start, scanWords bitmap requiredPages lzSpanBitmapWords ⟨0, 0⟩ = some start →
        FreeRun bitmap start requiredPages ∧
          ∀ earlier < start, ¬FreeRun bitmap earlier requiredPages) ∧
      (scanWords bitmap requiredPages lzSpanBitmapWords ⟨0, 0⟩ = none →
        ∀ start, ¬FreeRun bitmap start requiredPages) := by
  apply scan_words_spec
  · exact le_rfl
  · exact ⟨by simp, fun counted => absurd rfl counted⟩
  · intro positive
    refine ⟨positive, fun first below _ => ?_, fun first ends => ?_⟩
    · simp only [lzSpanBitmapWords]
      omega
    · simp only [lzSpanBitmapWords] at ends
      omega

/-- A page index returned by `find_contiguous_pages` starts a free run, and the
run is what the search takes out of the bitmap. -/
theorem find_contiguous_pages_sound {after : Bitmap}
    (found : findContiguousPages bitmap requiredPages = (some start, after)) :
    FreeRun bitmap start requiredPages ∧ after = clearPages bitmap start requiredPages := by
  unfold findContiguousPages at found
  cases outcome : scanWords bitmap requiredPages lzSpanBitmapWords ⟨0, 0⟩ with
  | none => simp only [outcome, Prod.mk.injEq, reduceCtorEq, false_and] at found
  | some first =>
      simp only [outcome, Prod.mk.injEq, Option.some.injEq] at found
      obtain ⟨rfl, rfl⟩ := found
      exact ⟨((scan_spec bitmap requiredPages).1 first outcome).1, rfl⟩

theorem find_contiguous_pages_least {after : Bitmap} {earlier : Nat}
    (found : findContiguousPages bitmap requiredPages = (some start, after))
    (before : earlier < start) : ¬FreeRun bitmap earlier requiredPages := by
  unfold findContiguousPages at found
  cases outcome : scanWords bitmap requiredPages lzSpanBitmapWords ⟨0, 0⟩ with
  | none => simp only [outcome, Prod.mk.injEq, reduceCtorEq, false_and] at found
  | some first =>
      simp only [outcome, Prod.mk.injEq, Option.some.injEq] at found
      rw [← found.1] at before
      exact ((scan_spec bitmap requiredPages).1 first outcome).2 earlier before

theorem find_contiguous_pages_complete (run : FreeRun bitmap start requiredPages) :
    ∃ found after, findContiguousPages bitmap requiredPages = (some found, after) := by
  unfold findContiguousPages
  cases outcome : scanWords bitmap requiredPages lzSpanBitmapWords ⟨0, 0⟩ with
  | some first => exact ⟨first, _, rfl⟩
  | none => exact absurd run ((scan_spec bitmap requiredPages).2 outcome start)

/-! ## Counting used pages -/

theorem mem_used_page_set :
    page ∈ usedPageSet bitmap ↔ page < 512 ∧ pageFree bitmap page = false := by
  simp [usedPageSet]

theorem used_page_set_clear (run : FreeRun bitmap start count) :
    (usedPageSet (clearPages bitmap start count)).card = (usedPageSet bitmap).card + count := by
  have union : usedPageSet (clearPages bitmap start count) =
      usedPageSet bitmap ∪ Finset.Ico start (start + count) := by
    ext page
    rw [Finset.mem_union, mem_used_page_set, mem_used_page_set, Finset.mem_Ico,
      page_free_clear_pages]
    obtain ⟨_, bound, _⟩ := run
    by_cases inside : start ≤ page ∧ page < start + count
    · simp [inside]
      omega
    · simp [inside]
  have disjoint : Disjoint (usedPageSet bitmap) (Finset.Ico start (start + count)) := by
    rw [Finset.disjoint_left]
    intro page used inside
    obtain ⟨lower, upper⟩ := Finset.mem_Ico.mp inside
    have free := run.2.2 page lower upper
    simp [(mem_used_page_set.mp used).2] at free
  rw [union, Finset.card_union_of_disjoint disjoint, Nat.card_Ico]
  omega

theorem used_page_set_set (bound : start + count ≤ 512)
    (used : ∀ page, start ≤ page → page < start + count → pageFree bitmap page = false) :
    (usedPageSet (setPages bitmap start count)).card + count = (usedPageSet bitmap).card := by
  have union : usedPageSet bitmap =
      usedPageSet (setPages bitmap start count) ∪ Finset.Ico start (start + count) := by
    ext page
    rw [Finset.mem_union, mem_used_page_set, mem_used_page_set, Finset.mem_Ico, page_free_set_pages]
    by_cases inside : start ≤ page ∧ page < start + count
    · simp [inside, used page inside.1 inside.2]
      omega
    · simp [inside]
  have disjoint : Disjoint (usedPageSet (setPages bitmap start count))
      (Finset.Ico start (start + count)) := by
    rw [Finset.disjoint_left]
    intro page still inside
    obtain ⟨lower, upper⟩ := Finset.mem_Ico.mp inside
    have free := (mem_used_page_set.mp still).2
    rw [page_free_set_pages] at free
    simp [lower, upper] at free
  rw [union, Finset.card_union_of_disjoint disjoint, Nat.card_Ico]
  omega

theorem used_page_set_card_le (bitmap : Bitmap) : (usedPageSet bitmap).card ≤ 512 := by
  calc (usedPageSet bitmap).card ≤ (Finset.range 512).card := Finset.card_filter_le _ _
    _ = 512 := Finset.card_range 512

/-! ## Taking and releasing a run -/

variable {span : Span} {node : Nat → NodePlace} {chunk : Nat}

def takeRun (span : Span) (start requiredPages : Nat) : Span where
  freeBitmap := clearPages span.freeBitmap start requiredPages
  usedPages := (span.usedPages + requiredPages) % 2 ^ 32
  allocSizePages := Function.update span.allocSizePages start (requiredPages % 2 ^ 16)

def releaseRun (span : Span) (start : Nat) : Span where
  freeBitmap := setPages span.freeBitmap start (span.allocSizePages start)
  usedPages := (span.usedPages + (2 ^ 32 - span.allocSizePages start)) % 2 ^ 32
  allocSizePages := Function.update span.allocSizePages start 0

theorem span_ok_zero (ok : SpanOk span node chunk) : pageFree span.freeBitmap 0 = false :=
  (ok.bits 0 (by norm_num)).mpr (Or.inl rfl)

theorem span_object_base (aligned : chunk % 2097152 = 0) (bound : page < 512) :
    chunkBase (chunk + page * 4096) = chunk :=
  chunk_base_eq aligned (by omega) (by omega)

theorem span_ok_run (ok : SpanOk span node chunk)
    (run : FreeRun span.freeBitmap start requiredPages) :
    1 ≤ start ∧ ∀ other page, start ≤ page → page < start + requiredPages → other ≤ page →
      other + span.allocSizePages other ≤ page := by
  obtain ⟨positive, bound, free⟩ := run
  constructor
  · by_contra zero
    have first := free 0 (by omega) (by omega)
    simp [span_ok_zero ok] at first
  · intro other page lower upper before
    by_contra covered
    have used := (ok.bits page (by omega)).mpr (Or.inr ⟨other, before, by omega⟩)
    simp [free page lower upper] at used

theorem span_ok_take (ok : SpanOk span node chunk) (aligned : chunk % 2097152 = 0)
    (run : FreeRun span.freeBitmap start requiredPages) :
    node (chunk + start * 4096) = .none ∧
      SpanOk (takeRun span start requiredPages)
        (Function.update node (chunk + start * 4096) .live) chunk := by
  obtain ⟨behind, uncovered⟩ := span_ok_run ok run
  obtain ⟨positive, bound, free⟩ := run
  have width : requiredPages % 2 ^ 16 = requiredPages := Nat.mod_eq_of_lt (by omega)
  have vacant : span.allocSizePages start = 0 := by
    have below := uncovered start start le_rfl (by omega) le_rfl
    omega
  have base : chunkBase (chunk + start * 4096) = chunk := span_object_base aligned (by omega)
  have unborn : node (chunk + start * 4096) = .none := by
    by_contra present
    obtain ⟨page, position, listed⟩ := (ok.nodes _ base).mp present
    obtain rfl : start = page := by omega
    exact listed vacant
  refine ⟨unborn, ?_⟩
  rw [takeRun, width]
  have total := used_page_set_clear ⟨positive, bound, free⟩
  have limit := used_page_set_card_le (clearPages span.freeBitmap start requiredPages)
  have used := ok.used
  refine ⟨fun page listed => ?_, fun left right before leftListed rightListed => ?_,
    fun page below => ?_, ?_, fun ptr inside => ?_, fun ptr inside => ?_⟩
  · by_cases same : page = start
    · subst same
      simp only [Function.update_self]
      omega
    · simp only [Function.update_of_ne same] at listed ⊢
      exact ok.table page listed
  · by_cases leftHere : left = start
    · subst leftHere
      have rightElse : right ≠ left := by omega
      simp only [Function.update_self, Function.update_of_ne rightElse] at rightListed ⊢
      by_contra inside
      have below := uncovered right right (by omega) (by omega) le_rfl
      omega
    · by_cases rightHere : right = start
      · subst rightHere
        simp only [Function.update_of_ne leftHere]
        exact uncovered left right le_rfl (by omega) (by omega)
      · simp only [Function.update_of_ne leftHere, Function.update_of_ne rightHere] at *
        exact ok.apart left right before leftListed rightListed
  · rw [page_free_clear_pages]
    by_cases inside : start ≤ page ∧ page < start + requiredPages
    · simp only [inside, and_self, not_true_eq_false, decide_false, Bool.and_false, true_iff]
      exact Or.inr ⟨start, inside.1, by simpa using inside.2⟩
    · simp only [inside, not_false_eq_true, decide_true, Bool.and_true]
      rw [ok.bits page below]
      refine or_congr_right (exists_congr fun other => ?_)
      by_cases here : other = start
      · subst here
        simp only [vacant, Function.update_self]
        omega
      · rw [Function.update_of_ne here]
  · simp only
    rw [total]
    omega
  · by_cases here : ptr = chunk + start * 4096
    · subst here
      rw [Function.update_self]
      refine iff_of_true (by simp) ⟨start, rfl, ?_⟩
      simp only [Function.update_self]
      omega
    · rw [Function.update_of_ne here, ok.nodes ptr inside]
      refine exists_congr fun page => and_congr_right fun position => ?_
      have other : page ≠ start := by
        rintro rfl
        exact here position
      simp only [Function.update_of_ne other]
  · by_cases here : ptr = chunk + start * 4096
    · simp [here]
    · rw [Function.update_of_ne here]
      exact ok.notFree ptr inside

theorem span_ok_release (ok : SpanOk span node chunk) (listed : span.allocSizePages start ≠ 0) :
    SpanOk (releaseRun span start) (Function.update node (chunk + start * 4096) .none) chunk := by
  obtain ⟨behind, bound⟩ := ok.table start listed
  have covered : ∀ page, start ≤ page → page < start + span.allocSizePages start →
      pageFree span.freeBitmap page = false := fun page lower upper =>
    (ok.bits page (by omega)).mpr (Or.inr ⟨start, lower, upper⟩)
  have total := used_page_set_set bound covered
  have limit := used_page_set_card_le span.freeBitmap
  have used := ok.used
  rw [releaseRun]
  refine ⟨fun page entry => ?_, fun left right before leftListed rightListed => ?_,
    fun page below => ?_, ?_, fun ptr inside => ?_, fun ptr inside => ?_⟩
  · by_cases same : page = start
    · simp [same] at entry
    · simp only [Function.update_of_ne same] at entry ⊢
      exact ok.table page entry
  · by_cases leftHere : left = start
    · simp [leftHere] at leftListed
    · by_cases rightHere : right = start
      · simp [rightHere] at rightListed
      · simp only [Function.update_of_ne leftHere, Function.update_of_ne rightHere] at *
        exact ok.apart left right before leftListed rightListed
  · rw [page_free_set_pages]
    by_cases inside : start ≤ page ∧ page < start + span.allocSizePages start
    · simp only [inside, and_self, decide_true, Bool.or_true, Bool.true_eq_false, false_iff]
      rintro (zero | ⟨other, lower, upper⟩)
      · omega
      · by_cases here : other = start
        · simp [here] at upper
          omega
        · simp only [Function.update_of_ne here] at upper
          -- two entries of the table would cover the same page
          rcases Nat.lt_or_ge other start with first | second
          · have apart := ok.apart other start first (by omega) listed
            omega
          · have apart := ok.apart start other (by omega) listed (by omega)
            omega
    · simp only [inside, decide_false, Bool.or_false]
      rw [ok.bits page below]
      refine or_congr_right (exists_congr fun other => ?_)
      by_cases here : other = start
      · subst here
        simp only [Function.update_self]
        omega
      · rw [Function.update_of_ne here]
  · simp only
    omega
  · by_cases here : ptr = chunk + start * 4096
    · subst here
      simp only [Function.update_self, ne_eq, not_true_eq_false, false_iff]
      rintro ⟨page, position, entry⟩
      obtain rfl : start = page := by omega
      simp at entry
    · rw [Function.update_of_ne here, ok.nodes ptr inside]
      refine exists_congr fun page => and_congr_right fun position => ?_
      have other : page ≠ start := by
        rintro rfl
        exact here position
      simp only [Function.update_of_ne other]
  · by_cases here : ptr = chunk + start * 4096
    · simp [here]
    · rw [Function.update_of_ne here]
      exact ok.notFree ptr inside

theorem span_ok_empty (ok : SpanOk span node chunk) (single : span.usedPages = 1) {ptr : Nat}
    (inside : chunkBase ptr = chunk) : node ptr = .none := by
  by_contra present
  obtain ⟨page, _, listed⟩ := (ok.nodes ptr inside).mp present
  obtain ⟨behind, bound⟩ := ok.table page listed
  have pair : ({0, page} : Finset Nat) ⊆ usedPageSet span.freeBitmap := by
    intro each member
    rw [Finset.mem_insert, Finset.mem_singleton] at member
    rcases member with rfl | rfl
    · exact mem_used_page_set.mpr ⟨by norm_num, span_ok_zero ok⟩
    · exact mem_used_page_set.mpr
        ⟨by omega, (ok.bits each (by omega)).mpr (Or.inr ⟨each, le_rfl, by omega⟩)⟩
  have two := Finset.card_le_card pair
  rw [Finset.card_pair (by omega : (0 : Nat) ≠ page)] at two
  have used := ok.used
  omega

/-- The counter of a span is one for page 0 and the length of every run. -/
theorem span_ok_total (ok : SpanOk span node chunk) :
    span.usedPages = 1 + ∑ page ∈ Finset.range 512, span.allocSizePages page := by
  have runs : usedPageSet span.freeBitmap = insert 0 ((Finset.range 512).biUnion fun page =>
      Finset.Ico page (page + span.allocSizePages page)) := by
    ext page
    rw [mem_used_page_set, Finset.mem_insert, Finset.mem_biUnion]
    constructor
    · rintro ⟨bound, used⟩
      refine ((ok.bits page bound).mp used).imp id ?_
      rintro ⟨first, lower, upper⟩
      exact ⟨first, Finset.mem_range.mpr (by omega), Finset.mem_Ico.mpr ⟨lower, upper⟩⟩
    · rintro (rfl | ⟨first, _, inside⟩)
      · exact ⟨by norm_num, span_ok_zero ok⟩
      · obtain ⟨lower, upper⟩ := Finset.mem_Ico.mp inside
        have bound := (ok.table first (by omega)).2
        exact ⟨by omega, (ok.bits page (by omega)).mpr (Or.inr ⟨first, lower, upper⟩)⟩
  have behind : (0 : Nat) ∉ (Finset.range 512).biUnion fun page =>
      Finset.Ico page (page + span.allocSizePages page) := by
    rw [Finset.mem_biUnion]
    rintro ⟨first, _, inside⟩
    obtain ⟨lower, upper⟩ := Finset.mem_Ico.mp inside
    have positive := (ok.table first (by omega)).1
    omega
  have apart : ∀ left ∈ Finset.range 512, ∀ right ∈ Finset.range 512, left ≠ right →
      Disjoint (Finset.Ico left (left + span.allocSizePages left))
        (Finset.Ico right (right + span.allocSizePages right)) := by
    intro left _ right _ different
    rw [Finset.disjoint_left]
    intro page inLeft inRight
    obtain ⟨leftLower, leftUpper⟩ := Finset.mem_Ico.mp inLeft
    obtain ⟨rightLower, rightUpper⟩ := Finset.mem_Ico.mp inRight
    rcases Nat.lt_or_gt_of_ne different with before | behind
    · have separate := ok.apart left right before (by omega) (by omega)
      omega
    · have separate := ok.apart right left behind (by omega) (by omega)
      omega
  rw [ok.used, runs, Finset.card_insert_of_notMem behind, Finset.card_biUnion apart, Nat.add_comm]
  simp only [Nat.card_Ico, Nat.add_sub_cancel_left]

theorem fresh_span_pages {page : Nat} (bound : page < 512) :
    pageFree freshSpan.freeBitmap page = decide (page ≠ 0) := by
  have bit : page % 64 < 64 := Nat.mod_lt _ (by norm_num)
  by_cases first : page / 64 = 0
  · have position : page % 64 = 0 ↔ page = 0 := by omega
    simp only [pageFree, freshSpan, first, if_true, BitVec.getLsbD_not, BitVec.getLsbD_one, bit]
    simp [position]
  · have other : page ≠ 0 := by
      rintro rfl
      simp at first
    simp only [pageFree, freshSpan, first, if_false, BitVec.getLsbD_not, bit]
    simp [other]

theorem fresh_span_run (positive : 1 ≤ requiredPages) (small : requiredPages < 512) :
    FreeRun freshSpan.freeBitmap 1 requiredPages := by
  refine ⟨positive, by omega, fun page lower upper => ?_⟩
  rw [fresh_span_pages (by omega)]
  simp only [decide_eq_true_eq]
  omega

theorem fresh_span_ok (empty : ∀ ptr, chunkBase ptr = chunk → node ptr = .none) :
    SpanOk freshSpan node chunk := by
  have pages : ∀ page < 512, pageFree freshSpan.freeBitmap page = decide (page ≠ 0) :=
    fun page bound => fresh_span_pages bound
  refine ⟨by simp [freshSpan], by simp [freshSpan], fun page bound => ?_, ?_, fun ptr inside => ?_,
    fun ptr inside => by simp [empty ptr inside]⟩
  · rw [pages page bound]
    simp only [freshSpan, Nat.add_zero, decide_eq_false_iff_not, ne_eq, not_not]
    constructor
    · exact Or.inl
    · rintro (zero | ⟨start, lower, upper⟩)
      · exact zero
      · omega
  · have single : usedPageSet freshSpan.freeBitmap = {0} := by
      ext page
      rw [mem_used_page_set, Finset.mem_singleton]
      constructor
      · rintro ⟨bound, used⟩
        simpa [pages page bound] using used
      · rintro rfl
        exact ⟨by norm_num, by simp [pages 0 (by norm_num)]⟩
    rw [single]
    rfl
  · simp [empty ptr inside, freshSpan]

end Lzmalloc.SpanPages
