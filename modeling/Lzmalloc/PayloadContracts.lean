import Lzmalloc.ReservationContracts
import Lzmalloc.ChunkContracts

/-!
# Contents of allocations

`lz_calloc` clears what it hands out, by hand for blocks and pages that may have
been used before and by a fresh mapping for direct objects. `lz_realloc` keeps
the contents of the object it moves and frees the old one once.
-/

namespace Lzmalloc.PayloadContracts

open SizeClasses HeapState ByteMemory ThreadHeap PublicApi StepSystem HeapInvariant ClientView
open InvariantFacts ObjectRanges ApiOperations ApiRuns ClientBytes ReservationContracts
open DirectContracts
open ObjectContracts (malloc_fits_of_small)
open SlabContracts (generousEnv)
open ChunkContracts (adjacentEnv)

set_option autoImplicit false

variable {mode : Mode} {s after : State} {g last : Ghost} {sys : ApiSys}
  {thread num size ptr other byte : Nat}

/-! ## Calloc -/

theorem lz_calloc_overflow (s : State) (thread : Nat) (wide : 2 ^ 64 - 1 < num * size) :
    lzCalloc s thread num size = some (0, s) := by
  have nonempty : ¬(num = 0 ∨ size = 0) := by
    intro empty
    cases empty with
    | inl none => simp [none] at wide
    | inr none => simp [none] at wide
  have overflow : (2 ^ 64 - 1) / num < size := by
    rw [Nat.div_lt_iff_lt_mul (by omega), Nat.mul_comm]
    exact wide
  simp only [lzCalloc, if_neg nonempty, if_pos overflow]

/-- What `lz_calloc` does with the answer of `lz_malloc`. -/
def callocFinish (total : Nat) (allocated : Nat × State) : Nat × State :=
  if allocated.1 = 0 then (0, allocated.2)
  else if total ≤ lzMaxSpanObjSize then
    (allocated.1, { allocated.2 with mem := fill allocated.2.mem allocated.1 total 0 })
  else allocated

theorem lz_calloc_eq (s : State) (thread : Nat) (narrow : num * size < 2 ^ 64) :
    lzCalloc s thread num size =
      (lzMalloc s thread (callocSize num size)).map (callocFinish (callocSize num size)) := by
  unfold lzCalloc callocSize
  by_cases empty : num = 0 ∨ size = 0
  · simp only [if_pos empty]
    rw [if_neg (by decide)]
    rfl
  · have fits : ¬(2 ^ 64 - 1) / num < size := by
      rw [Nat.div_lt_iff_lt_mul (by omega), Nat.mul_comm]
      omega
    simp only [if_neg empty, if_neg fits]
    rfl

theorem calloc_size_lt (bound : num * size < 2 ^ 63) : callocSize num size < 2 ^ 63 := by
  unfold callocSize
  split
  · norm_num
  · exact bound

theorem map_direct_wrapped {offset : Nat} (wrapped : directTotal offset size = 0)
    (done : mapDirect s offset size = some (ptr, after)) : ptr = 0 := by
  rcases map_direct_cases s offset size with refused | nothing | granted
  · rw [refused.2, Option.some.injEq, Prod.mk.injEq] at done
    exact done.1.symm
  · rw [nothing.2.2] at done
    cases done
  · exact absurd wrapped granted.2.1

theorem calloc_size_covers (num size : Nat) : num * size ≤ callocSize num size := by
  unfold callocSize
  split
  · next empty =>
      have product : num * size = 0 := by
        cases empty with
        | inl none => simp [none]
        | inr none => simp [none]
      omega
  · exact le_rfl

/-- The answer of `lz_malloc` is zero where `lz_calloc` does not clear it. -/
theorem calloc_clears_fitting (narrow : num * size < 2 ^ 64)
    (fits : MallocFits (callocSize num size))
    (done : lzCalloc s thread num size = some (ptr, after)) (nonnull : ptr ≠ 0) (lower : ptr ≤ byte)
    (upper : byte < ptr + num * size) : after.mem byte = 0 := by
  have covers := calloc_size_covers num size
  rw [lz_calloc_eq s thread narrow] at done
  generalize callocSize num size = total at fits covers done
  obtain ⟨⟨found, ready⟩, allocated, result⟩ := Option.map_eq_some_iff.mp done
  unfold callocFinish at result
  by_cases null : found = 0
  · simp only [null, if_true, Prod.mk.injEq] at result
    exact absurd result.1.symm nonnull
  simp only [if_neg null] at result
  by_cases cleared : total ≤ lzMaxSpanObjSize
  · simp only [if_pos cleared, Prod.mk.injEq] at result
    obtain ⟨rfl, rfl⟩ := result
    exact if_pos ⟨lower, by omega⟩
  · simp only [if_neg cleared, Prod.mk.injEq] at result
    obtain ⟨rfl, rfl⟩ := result
    have direct := fits.resolve_left cleared
    simp only [lzMaxSpanObjSize] at cleared
    have positive : total ≠ 0 := by omega
    have notSlab : ¬total ≤ lzMaxSlabObjSize := by
      simp only [lzMaxSlabObjSize]
      omega
    have notSpan : ¬total ≤ lzMaxSpanObjSize := by
      simp only [lzMaxSpanObjSize]
      omega
    simp only [lzMalloc, if_neg positive, if_neg notSlab, if_neg notSpan] at allocated
    cases direct with
    | inl unmapped =>
        exact absurd (map_direct_wrapped unmapped allocated) nonnull
    | inr room => exact map_direct_zero (by omega) allocated nonnull lower (by omega)

theorem calloc_clears (bound : num * size < 2 ^ 63)
    (done : lzCalloc s thread num size = some (ptr, after)) (nonnull : ptr ≠ 0) (lower : ptr ≤ byte)
    (upper : byte < ptr + num * size) : after.mem byte = 0 :=
  calloc_clears_fitting (by omega) (malloc_fits_of_small (calloc_size_lt bound)) done nonnull lower
    upper

theorem calloc_undisturbed_fitting (rest : AtRest mode s g) (narrow : num * size < 2 ^ 64)
    (word : callocSize num size < 2 ^ 64) (fits : MallocFits (callocSize num size))
    (done : lzCalloc s thread num size = some (ptr, after)) : Undisturbed g s.mem after.mem := by
  rw [lz_calloc_eq s thread narrow] at done
  generalize callocSize num size = total at word fits done
  obtain ⟨⟨found, ready⟩, allocated, result⟩ := Option.map_eq_some_iff.mp done
  have kept := undisturbed_malloc rest allocated
  unfold callocFinish at result
  by_cases null : found = 0
  · simp only [null, if_true, Prod.mk.injEq] at result
    rw [← result.2]
    exact kept
  simp only [if_neg null] at result
  by_cases cleared : total ≤ lzMaxSpanObjSize
  · simp only [if_pos cleared, Prod.mk.injEq] at result
    intro other byte live lower upper
    have apart := malloc_apart rest fits word allocated null live lower upper
    rw [← result.2, ← kept other byte live lower upper]
    exact fill_outside ready.mem (by omega)
  · simp only [if_neg cleared, Prod.mk.injEq] at result
    rw [← result.2]
    exact kept

theorem calloc_undisturbed (rest : AtRest mode s g) (bound : num * size < 2 ^ 63)
    (done : lzCalloc s thread num size = some (ptr, after)) : Undisturbed g s.mem after.mem := by
  have small := calloc_size_lt bound
  exact calloc_undisturbed_fitting rest (by omega) (by omega) (malloc_fits_of_small small) done

/-- In every state of a run, `lz_calloc` refuses products that do not fit in a
word, hands out zeros and touches no object of a client. -/
theorem calloc_zeroes {env : Env} {secret : BitVec 64} {telemetry : Bool} {acts : List ApiAct}
    {sys : ApiSys} (fits : Along apiStep ApiFits (apiStart env secret telemetry) acts)
    (ran : run apiStep (apiStart env secret telemetry) acts = some sys) (thread num size : Nat) :
    (2 ^ 64 - 1 < num * size → lzCalloc sys.state thread num size = some (0, sys.state)) ∧
      ∀ ptr after, num * size < 2 ^ 63 → lzCalloc sys.state thread num size = some (ptr, after) →
        ptr ≠ 0 → (∀ byte, ptr ≤ byte → byte < ptr + num * size → after.mem byte = 0) ∧
          ∀ other asked byte, sys.live other = some asked → other ≤ byte →
            byte < other + max asked (lzMallocUsableSize sys.state other) →
              after.mem byte = sys.state.mem byte := by
  have reached : ∃ g, ApiOk (apiMode False) sys g := api_run_ok False.elim fits ran
  obtain ⟨g, ok⟩ := reached
  constructor
  · exact lz_calloc_overflow sys.state thread
  intro ptr after bound done nonnull
  constructor
  · intro byte lower upper
    exact calloc_clears bound done nonnull lower upper
  · intro other asked byte known lower upper
    have range := client_range ok known
    exact calloc_undisturbed ok.rest bound done other byte
      ((ok.live other).mp (by simp [known])) lower
      (by omega)

/-- The client has written into the block and given it back. -/
def dirtyRun : List ApiAct :=
  [.malloc 1 24, .malloc 1 24, .write 4359979136 9 255, .free 1 4359979136]

/-- The recycled block is cleared, the other object keeps its bytes. -/
theorem recycled_block_cleared :
    ∃ sys after, run apiStep (apiStart generousEnv 7 true) dirtyRun = some sys ∧
      sys.state.mem 4359979145 = 255 ∧
      lzCalloc sys.state 1 3 8 = some (4359979136, after) ∧
      ∀ byte, 4359979136 ≤ byte → byte < 4359979136 + 3 * 8 → after.mem byte = 0 := by
  have fits : Along apiStep ApiFits (apiStart generousEnv 7 true) dirtyRun := by decide +kernel
  have facts : (run apiStep (apiStart generousEnv 7 true) dirtyRun).map (fun sys =>
      (sys.state.mem 4359979145, (lzCalloc sys.state 1 3 8).map Prod.fst)) =
      some (255, some 4359979136) := by decide +kernel
  obtain ⟨sys, ran, values⟩ := Option.map_eq_some_iff.mp facts
  simp only [Prod.mk.injEq] at values
  obtain ⟨dirty, found⟩ := values
  obtain ⟨⟨ptr, after⟩, called, here⟩ := Option.map_eq_some_iff.mp found
  simp only at here
  subst here
  obtain ⟨_, zeroes⟩ := calloc_zeroes fits ran 1 3 8
  obtain ⟨cleared, _⟩ := zeroes 4359979136 after (by norm_num) called (by norm_num)
  exact ⟨sys, after, ran, dirty, called, cleared⟩

/-- The empty payload behind the mapping of the first call becomes the header of a
chunk. Freeing it puts that header on the free list of the slab in the chunk. -/
def capturedHeaderRun : List ApiAct :=
  .memalign 1 2097152 0 :: List.replicate 31 (.malloc 1 1048576) ++
    [.malloc 1 4096, .malloc 1 4096, .write 4297064576 0 65, .free 1 4297064448]

/-- The next block starts at the header and overlaps an object of the client. -/
theorem calloc_clears_live_object :
    ∃ sys after, run apiStep (apiStart adjacentEnv 7 true) capturedHeaderRun = some sys ∧
      sys.live 4297064576 = some 4096 ∧ sys.state.mem 4297064576 = 65 ∧
      lzCalloc sys.state 1 1 4096 = some (4297064448, after) ∧ after.mem 4297064576 = 0 := by
  have facts : (run apiStep (apiStart adjacentEnv 7 true) capturedHeaderRun).map (fun sys =>
      (sys.live 4297064576, sys.state.mem 4297064576,
        (lzCalloc sys.state 1 1 4096).map fun result => (result.1, result.2.mem 4297064576))) =
      some (some 4096, 65, some (4297064448, 0)) := by decide +kernel
  obtain ⟨sys, ran, values⟩ := Option.map_eq_some_iff.mp facts
  simp only [Prod.mk.injEq] at values
  obtain ⟨live, written, called⟩ := values
  obtain ⟨⟨ptr, after⟩, done, result⟩ := Option.map_eq_some_iff.mp called
  simp only [Prod.mk.injEq] at result
  rw [result.1] at done
  exact ⟨sys, after, ran, live, written, done, result.2⟩

/-! ## Realloc -/

def Reserved (s : State) (ptr : Nat) : Prop :=
  HoldsBlock s ptr ∨ lzRtreeGet s.rtree ptr ∈ s.directs

theorem reserved_live (rest : AtRest mode s g) (leaves : mode.leavesMapped) (kept : mode.noLeaks)
    (live : g.node ptr = .live) : Reserved s ptr := by
  have core := rest.inv.toCore
  have present : g.node ptr ≠ .none := by simp [live]
  have found := resolve_found rest leaves present
  cases resolve_cases core present found with
  | inl chunk => exact Or.inl ((holds_block_iff rest kept).mpr ⟨live, chunk.1⟩)
  | inr direct =>
      obtain ⟨header, isDirect, entry, _⟩ := direct
      rw [resolve_eq] at entry
      right
      rw [entry]
      exact direct_known core isDirect

/-- The object moved: after the allocation and the copy it is still there, then
it is freed and nothing else is. -/
def FreedOnce (s after : State) (live : Nat → Prop) (thread ptr newSize result : Nat) : Prop :=
  ∃ grown copied, lzMalloc s thread newSize = some (result, grown) ∧
    copied = { grown with mem := copy grown.mem result ptr (lzMallocUsableSize s ptr) } ∧
    Reserved copied ptr ∧ lzFree copied thread ptr = some after ∧ ReleasesOnly copied after live ptr

/-- What `lz_realloc` of a live object owes its clients; `live` lists all live
objects. -/
structure Realloced (s after : State) (live : Nat → Prop) (thread ptr newSize result : Nat) :
    Prop where
  served : result ≠ 0 → newSize ≤ lzMallocUsableSize after result ∧
    ∀ index < min newSize (lzMallocUsableSize s ptr),
    after.mem (result + index) = s.mem (ptr + index)
  others : ∀ other index, live other → other ≠ ptr → index < lzMallocUsableSize s other →
    after.mem (other + index) = s.mem (other + index)
  freed : result ≠ 0 → result ≠ ptr → FreedOnce s after live thread ptr newSize result
  failed : result = 0 → Reserved after ptr ∧
    lzMallocUsableSize after ptr = lzMallocUsableSize s ptr ∧
    ∀ index < lzMallocUsableSize s ptr, after.mem (ptr + index) = s.mem (ptr + index)

theorem usable_size_record (rest : AtRest mode s g) (leaves : mode.leavesMapped)
    (live : g.node ptr = .live) : lzMallocUsableSize s ptr = originLength (g.record ptr) := by
  have present : g.node ptr ≠ .none := by simp [live]
  rw [usable_size_eq rest.inv.toCore present (resolve_found rest leaves present),
    object_length_record rest.inv.toCore (by simp [live, NodePlace.InUse])]

theorem undisturbed_usable (rest : AtRest mode s g) (leaves : mode.leavesMapped) {mem : Memory}
    (kept : Undisturbed g s.mem mem) (live : g.node other = .live) {index : Nat}
    (inside : index < lzMallocUsableSize s other) :
    mem (other + index) = s.mem (other + index) := by
  rw [usable_size_record rest leaves live] at inside
  exact kept other (other + index) live (by omega) (by omega)

section Realloc

variable {newSize result : Nat} {listed : Nat → Prop}

theorem realloced_same (nonnull : ptr ≠ 0) (room : newSize ≤ lzMallocUsableSize s ptr) :
    Realloced s s listed thread ptr newSize ptr := by
  constructor
  · exact fun _ => ⟨room, fun _ _ => rfl⟩
  · exact fun _ _ _ _ _ => rfl
  · exact fun _ moved => absurd rfl moved
  · exact fun null => absurd null nonnull

theorem realloced_null (rest : AtRest mode s g) (leaves : mode.leavesMapped) (kept : mode.noLeaks)
    (live : g.node ptr = .live) (known : ∀ other, listed other → g.node other = .live)
    (afterRest : AtRest mode after last) (quiet : Quiet g last)
    (undisturbed : Undisturbed g s.mem after.mem) :
    Realloced s after listed thread ptr newSize 0 := by
  constructor
  · exact fun nonnull => absurd rfl nonnull
  · intro other index there _ inside
    exact undisturbed_usable rest leaves undisturbed (known other there) inside
  · exact fun nonnull => absurd rfl nonnull
  · intro _
    have stays := (quiet.live ptr).mpr live
    constructor
    · exact reserved_live afterRest leaves kept stays
    constructor
    · rw [usable_size_record afterRest leaves stays,
        usable_size_record rest leaves live, quiet.record]
    · intro index inside
      exact undisturbed_usable rest leaves undisturbed live inside

theorem realloced_moved (rest : AtRest mode s g) (leaves : mode.leavesMapped) (kept : mode.noLeaks)
    (live : g.node ptr = .live) (known : ∀ other, listed other → g.node other = .live)
    (bound : newSize < 2 ^ 63) (grows : lzMallocUsableSize s ptr < newSize) (moved : result ≠ 0)
    {grown : State} (allocated : lzMalloc s thread newSize = some (result, grown))
    (released : lzFree { grown with mem := copy grown.mem result ptr (lzMallocUsableSize s ptr) }
      thread ptr = some after) : Realloced s after listed thread ptr newSize result := by
  have undisturbed := undisturbed_malloc rest allocated
  have grownServed := served_malloc rest (malloc_fits_of_small bound) allocated
  have old := usable_size_record rest leaves live
  obtain ⟨copied, copiedEq⟩ : ∃ copied : State,
      { grown with mem := copy grown.mem result ptr (lzMallocUsableSize s ptr) } =
      copied := ⟨_, rfl⟩
  have mem : copied.mem = copy grown.mem result ptr (lzMallocUsableSize s ptr) := by
    rw [← copiedEq]
  have copiedServed : Served mode g copied result (mallocOrigin newSize) := by
    rw [← copiedEq]
    exact served_copy grownServed moved (by omega) (le_of_lt grows)
  rw [copiedEq] at released
  obtain ⟨middle, copiedRest, outcome⟩ := copiedServed
  have fresh := (outcome.resolve_left fun failed => moved failed.1).2
  have here : middle.node result = .live := (fresh.live result).mpr (Or.inl rfl)
  have stillLive : middle.node ptr = .live := (fresh.live ptr).mpr (Or.inr live)
  obtain ⟨last, afterRest, withdrawn, later⟩ :=
    undisturbed_free copiedRest stillLive (fun _ => leaves) released
  have apart : ∀ other, g.node other = .live → other ≠ result := by
    intro other there same
    rw [same] at there
    exact fresh.fresh.1 there
  have length := malloc_length (by omega : newSize < 2 ^ 64)
  have record : last.record result = mallocOrigin newSize := by
    rw [withdrawn.record, fresh.record, Function.update_self]
  have resultLive : last.node result = .live :=
    (withdrawn.live result).mpr ⟨(apart ptr live).symm, here⟩
  constructor
  · intro _
    constructor
    · rw [usable_size_record afterRest leaves resultLive, record]
      exact length
    · intro index inside
      rw [later result (result + index) resultLive (by omega) (by rw [record]; omega), mem]
      have within : result ≤ result + index ∧
          result + index < result + lzMallocUsableSize s ptr := by omega
      have position : result + index - result + ptr = ptr + index := by omega
      simp only [copy, if_pos within, position]
      exact undisturbed ptr (ptr + index) live (by omega) (by omega)
  · intro other index there different inside
    have otherLive := known other there
    have otherMiddle : middle.node other = .live := (fresh.live other).mpr (Or.inr otherLive)
    have otherRecord : middle.record other = g.record other := by
      rw [fresh.record, Function.update_of_ne (apart other otherLive)]
    rw [usable_size_record rest leaves otherLive] at inside
    have outside := malloc_apart rest (malloc_fits_of_small bound) (by omega) allocated moved
      otherLive (by omega : other ≤ other + index) (by omega)
    rw [later other (other + index) ((withdrawn.live other).mpr ⟨different, otherMiddle⟩) (by omega)
      (by rw [withdrawn.record, otherRecord]; omega), mem, copy_outside grown.mem (by omega)]
    exact undisturbed other (other + index) otherLive (by omega) (by omega)
  · intro _ _
    refine ⟨grown, copied, allocated, copiedEq.symm,
      reserved_live copiedRest leaves kept stillLive, released, ?_⟩
    apply releases_only copiedRest leaves kept stillLive _ released
    intro other there
    exact (fresh.live other).mpr (Or.inr (known other there))
  · exact fun null => absurd null moved

theorem lz_realloc_realloced (rest : AtRest mode s g) (leaves : mode.leavesMapped)
    (kept : mode.noLeaks) (live : g.node ptr = .live)
    (known : ∀ other, listed other → g.node other = .live) (positive : newSize ≠ 0)
    (bound : newSize < 2 ^ 63) (done : lzRealloc s thread ptr newSize = some (result, after)) :
    Realloced s after listed thread ptr newSize result := by
  have nonnull := (core_node_bound rest.inv.toCore (by simp [live] : g.node ptr ≠ .none)).1
  rcases lz_realloc_branches (Nat.pos_iff_ne_zero.mp nonnull) positive done with
    ⟨rfl, rfl, _⟩ | ⟨rfl, rfl, room⟩ |
    ⟨_, grows, ⟨rfl, refused⟩ | ⟨moved, grown, allocated, released⟩⟩
  · exact realloced_null rest leaves kept live known rest (quiet_refl g) (undisturbed_refl g _)
  · exact realloced_same (Nat.pos_iff_ne_zero.mp nonnull) room
  · obtain ⟨last, afterRest, outcome⟩ := served_malloc rest (malloc_fits_of_small bound) refused
    have quiet := (outcome.resolve_right fun some => some.1 rfl).2
    exact realloced_null rest leaves kept live known afterRest quiet
      (undisturbed_malloc rest refused)
  · exact realloced_moved rest leaves kept live known bound grows moved allocated released

end Realloc

end Lzmalloc.PayloadContracts
