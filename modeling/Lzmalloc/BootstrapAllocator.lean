import Mathlib.Data.List.Pairwise
import Lzmalloc.SizeClasses
import Lzmalloc.ByteMemory
import Lzmalloc.StepSystem

/-!
# The bootstrap allocator

While the allocator is being initialised, `posix_hooks.c` serves requests from
the static array `g_base_heap`. `lz_base_malloc_aligned` reserves an interval by
moving `g_base_offset` forward in a compare-exchange loop and then writes the
block's size into a header in front of the payload.

Each thread is at one point of that function; the load of the offset, every
attempt of the weak compare-exchange and the header store are steps of their
own. The first reservation beyond the array traps, which ends the process: no
step is possible afterwards.
-/

namespace Lzmalloc.BootstrapAllocator

open SizeClasses ByteMemory StepSystem

set_option autoImplicit false

@[simp] def lzBaseHeapSize : Nat := 4 * 1024 * 1024
@[simp] def lzAbiAlignment : Nat := 16

/-- `sizeof(lz_base_header_t)`: `exact_size` and eight bytes of padding. -/
@[simp] def baseHeaderSize : Nat := 16

/-- Where the linker placed `g_base_heap`. -/
structure BaseHeap where
  address : Nat
  aligned : address % lzAbiAlignment = 0
  mapped : 0 < address ∧ address + lzBaseHeapSize ≤ addressLimit

structure BaseRequest where
  alignment : Nat
  size : Nat
  power : isPowerOfTwo alignment = true
  word : alignment < 2 ^ 64
  bounded : size ≤ lzBaseHeapSize

namespace BaseRequest

variable (request : BaseRequest)

def align : Nat :=
  if request.alignment < lzAbiAlignment then lzAbiAlignment else request.alignment

def exactSize : Nat := if request.size = 0 then lzAbiAlignment else request.size

def totalSize : Nat := lzAlignUp request.exactSize lzAbiAlignment

end BaseRequest

def isBasePtr (heap : BaseHeap) (ptr : Nat) : Bool :=
  heap.address ≤ ptr && ptr < heap.address + lzBaseHeapSize

def payloadAddr (heap : BaseHeap) (request : BaseRequest) (currentOffset : Nat) : Nat :=
  lzAlignUp ((heap.address + currentOffset + baseHeaderSize) % 2 ^ 64) request.align

-- The two subtractions are those of `uintptr_t`, modulo `2 ^ 64`.
def alignedOffset (heap : BaseHeap) (request : BaseRequest) (currentOffset : Nat) : Nat :=
  (payloadAddr heap request currentOffset + (2 ^ 64 - baseHeaderSize) +
    (2 ^ 64 - heap.address)) % 2 ^ 64

def nextOffset (heap : BaseHeap) (request : BaseRequest) (currentOffset : Nat) : Nat :=
  (alignedOffset heap request currentOffset + baseHeaderSize + request.totalSize) % 2 ^ 64

/-- A reservation: the request it serves and the offset of its header. -/
structure BaseBlock where
  request : BaseRequest
  offset : Nat

namespace BaseBlock

variable (heap : BaseHeap) (block : BaseBlock)

def header : Nat := heap.address + block.offset

def payload : Nat := block.header heap + baseHeaderSize

/-- The bytes the client may use: `max(size, 1)`. -/
def length : Nat := max block.request.size 1

def stop : Nat := block.offset + baseHeaderSize + block.request.totalSize

end BaseBlock

/-- Where a thread is in `lz_base_malloc_aligned`. -/
inductive BasePc where
  | idle
  | loading (request : BaseRequest)
  | trying (request : BaseRequest) (currentOffset : Nat)
  | storing (block : BaseBlock)

structure BaseSys where
  /-- `g_base_offset`. -/
  offset : Nat
  mem : Memory
  pc : Nat → BasePc
  /-- The blocks that calls have returned. -/
  blocks : List BaseBlock
  trapped : Bool

inductive BaseAct where
  | call (thread : Nat) (request : BaseRequest)
  | load (thread : Nat)
  | exchange (thread : Nat)
  | exchangeFails (thread : Nat)
  | storeHeader (thread : Nat)
  | write (index place : Nat) (value : UInt8)

def BaseSys.at (s : BaseSys) (thread : Nat) (pc : BasePc) : BaseSys :=
  { s with pc := Function.update s.pc thread pc }

/-- One step. A weak compare-exchange may fail although the offset is the
expected one; it then reloads the offset like any failed exchange. -/
def baseStep (heap : BaseHeap) (s : BaseSys) (action : BaseAct) : Option BaseSys :=
  if s.trapped then none
  else match action with
    | .call thread request =>
        match s.pc thread with
        | .idle => some (s.at thread (.loading request))
        | _ => none
    | .load thread =>
        match s.pc thread with
        | .loading request => some (s.at thread (.trying request s.offset))
        | _ => none
    | .exchange thread =>
        match s.pc thread with
        | .trying request currentOffset =>
            if s.offset = currentOffset then
              let next := nextOffset heap request currentOffset
              if next > lzBaseHeapSize then some { s with offset := next, trapped := true }
              else
                let block := ⟨request, alignedOffset heap request currentOffset⟩
                some { s.at thread (.storing block) with offset := next }
            else none
        | _ => none
    | .exchangeFails thread =>
        match s.pc thread with
        | .trying request _ => some (s.at thread (.trying request s.offset))
        | _ => none
    | .storeHeader thread =>
        match s.pc thread with
        | .storing block =>
            some { s.at thread .idle with
              mem := store s.mem (block.header heap) 8 block.request.exactSize
              blocks := block :: s.blocks }
        | _ => none
    | .write index place value =>
        match s.blocks[index]? with
        | some block =>
            if place < block.length then
              some { s with mem := store s.mem (block.payload heap + place) 1 value.toNat }
            else none
        | none => none

def baseStart (mem : Memory) : BaseSys :=
  { offset := 0, mem := mem, pc := fun _ => .idle, blocks := [], trapped := false }

section Arithmetic

variable (heap : BaseHeap) (request : BaseRequest)

theorem align_cases :
    request.alignment < 16 ∧ request.align = 16 ∨
      16 ≤ request.alignment ∧ request.align = request.alignment := by
  by_cases small : request.alignment < lzAbiAlignment
  · exact Or.inl ⟨small, if_pos small⟩
  · exact Or.inr ⟨Nat.le_of_not_lt small, if_neg small⟩

theorem align_covers : max request.alignment 16 = request.align := by
  obtain ⟨small, align⟩ | ⟨large, align⟩ := align_cases request <;> omega

theorem align_power : isPowerOfTwo request.align = true := by
  obtain ⟨_, align⟩ | ⟨_, align⟩ := align_cases request
  · rw [align]
    decide
  · rw [align]
    exact request.power

theorem align_word : 16 ≤ request.align ∧ request.align ≤ 2 ^ 63 := by
  obtain ⟨k, alignment⟩ := is_power_of_two_eq request.power
  have exponent : k < 64 := by
    have word := request.word
    rw [alignment] at word
    exact (Nat.pow_lt_pow_iff_right (by norm_num)).mp word
  have bound : request.alignment ≤ 2 ^ 63 := by
    rw [alignment]
    exact Nat.pow_le_pow_right (by norm_num) (by omega)
  have covers := align_covers request
  omega

theorem exact_size_bound :
    max request.size 1 ≤ request.exactSize ∧ request.exactSize ≤ lzBaseHeapSize := by
  have bounded := request.bounded
  simp only [BaseRequest.exactSize, lzAbiAlignment, lzBaseHeapSize] at bounded ⊢
  split <;> omega

theorem total_size_bound :
    request.exactSize ≤ request.totalSize ∧ request.totalSize < 2 ^ 23 := by
  obtain ⟨_, bound⟩ := exact_size_bound request
  simp only [lzBaseHeapSize] at bound
  have small : request.exactSize + (16 - 1) < 2 ^ 64 := by omega
  have above := lz_align_up_le (by norm_num) small
  have below := lz_align_up_lt (by norm_num) small
  simp only [BaseRequest.totalSize, lzAbiAlignment]
  omega

/-- What one successful exchange reserves: nothing wraps, the header starts
behind everything reserved before and the payload has the alignment. -/
theorem reservation_spec {currentOffset : Nat} (inside : currentOffset ≤ lzBaseHeapSize) :
    currentOffset ≤ alignedOffset heap request currentOffset ∧
      nextOffset heap request currentOffset =
        alignedOffset heap request currentOffset + 16 + request.totalSize ∧
      request.align ∣ heap.address + alignedOffset heap request currentOffset + 16 := by
  obtain ⟨positive, mapped⟩ := heap.mapped
  obtain ⟨lower, upper⟩ := align_word request
  obtain ⟨_, total⟩ := total_size_bound request
  simp only [lzBaseHeapSize, addressLimit] at inside mapped
  have base : (heap.address + currentOffset + baseHeaderSize) % 2 ^ 64 =
      heap.address + currentOffset + 16 := Nat.mod_eq_of_lt (by simp only [baseHeaderSize]; omega)
  have small : heap.address + currentOffset + 16 + (request.align - 1) < 2 ^ 64 := by omega
  have above := lz_align_up_le (by omega) small
  have below := lz_align_up_lt (by omega) small
  have divides := lz_align_up_dvd (heap.address + currentOffset + 16) (align_power request)
  have offset : alignedOffset heap request currentOffset =
      lzAlignUp (heap.address + currentOffset + 16) request.align - 16 - heap.address := by
    rw [alignedOffset, payloadAddr, base]
    simp only [baseHeaderSize]
    omega
  have payload : heap.address + alignedOffset heap request currentOffset + 16 =
      lzAlignUp (heap.address + currentOffset + 16) request.align := by omega
  refine ⟨by omega, ?_, payload ▸ divides⟩
  simp only [nextOffset, baseHeaderSize]
  omega

end Arithmetic

def Apart (block other : BaseBlock) : Prop := block.stop ≤ other.offset ∨ other.stop ≤ block.offset

theorem apart_symm {block other : BaseBlock} (apart : Apart block other) : Apart other block :=
  Or.symm apart

instance : Std.Symm Apart := ⟨fun _ _ => apart_symm⟩

/-- A block some call has reserved, whether it has returned already or not. -/
def Held (s : BaseSys) (block : BaseBlock) : Prop :=
  block ∈ s.blocks ∨ ∃ thread, s.pc thread = .storing block

structure BaseInv (heap : BaseHeap) (s : BaseSys) : Prop where
  bounded : s.trapped = false → s.offset ≤ lzBaseHeapSize
  reserved : ∀ block, Held s block → block.stop ≤ s.offset ∧ block.stop ≤ lzBaseHeapSize
  aligned : ∀ block, Held s block → block.request.align ∣ block.payload heap
  returned : s.blocks.Pairwise Apart
  pending : ∀ thread block, s.pc thread = .storing block → ∀ other ∈ s.blocks, Apart block other
  racing : ∀ thread rival block other, thread ≠ rival → s.pc thread = .storing block →
    s.pc rival = .storing other → Apart block other
  exact : ∀ block ∈ s.blocks, load s.mem (block.header heap) 8 = block.request.exactSize

theorem base_start_inv (heap : BaseHeap) (mem : Memory) : BaseInv heap (baseStart mem) := by
  constructor <;> simp [baseStart, Held]

theorem storing_of_at {s : BaseSys} {thread other : Nat} {pc : BasePc} {block : BaseBlock}
    (elsewhere : ∀ block, pc ≠ .storing block)
    (storing : (s.at thread pc).pc other = .storing block) :
    other ≠ thread ∧ s.pc other = .storing block := by
  by_cases same : other = thread
  · subst same
    simp only [BaseSys.at, Function.update_self] at storing
    exact absurd storing (elsewhere block)
  · simp only [BaseSys.at, Function.update_of_ne same] at storing
    exact ⟨same, storing⟩

variable {heap : BaseHeap} {s : BaseSys}

theorem inv_move (inv : BaseInv heap s) {thread : Nat} {pc : BasePc}
    (elsewhere : ∀ block, pc ≠ .storing block) : BaseInv heap (s.at thread pc) := by
  have held : ∀ block, Held (s.at thread pc) block → Held s block := by
    rintro block (returned | ⟨other, storing⟩)
    · exact Or.inl returned
    · exact Or.inr ⟨other, (storing_of_at elsewhere storing).2⟩
  refine ⟨inv.bounded, fun block h => inv.reserved block (held block h),
    fun block h => inv.aligned block (held block h), inv.returned, ?_, ?_, inv.exact⟩
  · intro other block storing
    exact inv.pending other block (storing_of_at elsewhere storing).2
  · intro other rival block second distinct storing rivalStoring
    exact inv.racing other rival block second distinct (storing_of_at elsewhere storing).2
      (storing_of_at elsewhere rivalStoring).2

theorem inv_trap (inv : BaseInv heap s) (running : s.trapped = false) {next : Nat}
    (exceeds : next > lzBaseHeapSize) :
    BaseInv heap { s with offset := next, trapped := true } := by
  have below := inv.bounded running
  refine ⟨nofun, fun block held => ?_, inv.aligned, inv.returned, inv.pending, inv.racing,
    inv.exact⟩
  have reserved := inv.reserved block held
  exact ⟨by simp only; omega, reserved.2⟩

theorem inv_reserve (inv : BaseInv heap s) (running : s.trapped = false) (thread : Nat)
    (request : BaseRequest) (fits : nextOffset heap request s.offset ≤ lzBaseHeapSize) :
    BaseInv heap { s.at thread (.storing ⟨request, alignedOffset heap request s.offset⟩) with
      offset := nextOffset heap request s.offset } := by
  obtain ⟨behind, next, divides⟩ := reservation_spec heap request (inv.bounded running)
  set fresh : BaseBlock := ⟨request, alignedOffset heap request s.offset⟩ with freshEq
  have stop : fresh.stop = nextOffset heap request s.offset := by
    simp only [BaseBlock.stop, freshEq, next, baseHeaderSize]
  have payload : fresh.payload heap = heap.address + fresh.offset + 16 := by
    simp only [BaseBlock.payload, BaseBlock.header, baseHeaderSize]
  have storing : ∀ other block, (s.at thread (.storing fresh)).pc other = .storing block →
      other = thread ∧ block = fresh ∨ other ≠ thread ∧ s.pc other = .storing block := by
    intro other block at_
    by_cases same : other = thread
    · subst same
      simp only [BaseSys.at, Function.update_self, BasePc.storing.injEq] at at_
      exact Or.inl ⟨rfl, at_.symm⟩
    · simp only [BaseSys.at, Function.update_of_ne same] at at_
      exact Or.inr ⟨same, at_⟩
  have held : ∀ block, Held { s.at thread (.storing fresh) with
      offset := nextOffset heap request s.offset } block → block = fresh ∨ Held s block := by
    rintro block (returned | ⟨other, at_⟩)
    · exact Or.inr (Or.inl returned)
    · obtain ⟨_, rfl⟩ | ⟨_, earlier⟩ := storing other block at_
      · exact Or.inl rfl
      · exact Or.inr (Or.inr ⟨other, earlier⟩)
  have apart : ∀ block, Held s block → Apart fresh block := by
    intro block earlier
    have reserved := inv.reserved block earlier
    exact Or.inr (le_trans reserved.1 behind)
  refine ⟨fun _ => fits, ?_, ?_, inv.returned, ?_, ?_, inv.exact⟩
  · intro block now
    obtain rfl | earlier := held block now
    · exact ⟨stop.le, stop ▸ fits⟩
    · have reserved := inv.reserved block earlier
      exact ⟨by simp only; omega, reserved.2⟩
  · intro block now
    obtain rfl | earlier := held block now
    · rw [payload]
      exact divides
    · exact inv.aligned block earlier
  · intro other block at_ second returned
    obtain ⟨_, rfl⟩ | ⟨_, earlier⟩ := storing other block at_
    · exact apart second (Or.inl returned)
    · exact inv.pending other block earlier second returned
  · intro other rival block second distinct at_ rivalAt
    obtain ⟨rfl, rfl⟩ | ⟨_, earlier⟩ := storing other block at_
    · obtain ⟨rfl, _⟩ | ⟨_, rivalEarlier⟩ := storing rival second rivalAt
      · exact absurd rfl distinct
      · exact apart second (Or.inr ⟨rival, rivalEarlier⟩)
    · obtain ⟨_, rfl⟩ | ⟨_, rivalEarlier⟩ := storing rival second rivalAt
      · exact apart_symm (apart block (Or.inr ⟨other, earlier⟩))
      · exact inv.racing other rival block second distinct earlier rivalEarlier

theorem header_outside {block other : BaseBlock} (apart : Apart block other) {byte : Nat}
    (lower : block.header heap ≤ byte) (upper : byte < heap.address + block.stop) :
    byte < other.header heap ∨ other.header heap + 16 ≤ byte := by
  simp only [Apart, BaseBlock.stop, BaseBlock.header, baseHeaderSize] at *
  omega

theorem header_kept (inv : BaseInv heap s) {memory : Memory} {block : BaseBlock}
    (returned : block ∈ s.blocks)
    (outside : ∀ byte, block.header heap ≤ byte → byte < block.header heap + 8 →
      memory byte = s.mem byte) :
    load memory (block.header heap) 8 = block.request.exactSize :=
  (load_congr outside).trans (inv.exact block returned)

theorem inv_store_header (inv : BaseInv heap s) {thread : Nat} {block : BaseBlock}
    (at_ : s.pc thread = .storing block) :
    BaseInv heap { s.at thread .idle with
      mem := store s.mem (block.header heap) 8 block.request.exactSize
      blocks := block :: s.blocks } := by
  have moved : ∀ other second, (s.at thread .idle).pc other = .storing second →
      other ≠ thread ∧ s.pc other = .storing second :=
    fun other second => storing_of_at nofun
  have held : ∀ second, Held { s.at thread .idle with
      mem := store s.mem (block.header heap) 8 block.request.exactSize
      blocks := block :: s.blocks } second → Held s second := by
    rintro second (returned | ⟨other, storing⟩)
    · obtain rfl | earlier := List.mem_cons.mp returned
      · exact Or.inr ⟨thread, at_⟩
      · exact Or.inl earlier
    · exact Or.inr ⟨other, (moved other second storing).2⟩
  refine ⟨inv.bounded, fun second h => inv.reserved second (held second h),
    fun second h => inv.aligned second (held second h), ?_, ?_, ?_, ?_⟩
  · exact List.pairwise_cons.mpr ⟨inv.pending thread block at_, inv.returned⟩
  · intro other second storing third returned
    obtain ⟨distinct, before⟩ := moved other second storing
    obtain rfl | earlier := List.mem_cons.mp returned
    · exact inv.racing other thread second third distinct before at_
    · exact inv.pending other second before third earlier
  · intro other rival second third distinct storing rivalStoring
    exact inv.racing other rival second third distinct (moved other second storing).2
      (moved rival third rivalStoring).2
  · intro second returned
    obtain rfl | earlier := List.mem_cons.mp returned
    · have word := exact_size_bound second.request
      simp only [lzBaseHeapSize] at word
      simp only [load_store]
      exact Nat.mod_eq_of_lt (by omega)
    · refine header_kept inv earlier fun byte lower upper => store_outside s.mem ?_
      have apart := apart_symm (inv.pending thread block at_ second earlier)
      have inside : byte < heap.address + second.stop := by
        simp only [BaseBlock.header, BaseBlock.stop, baseHeaderSize] at upper ⊢
        omega
      have outside := @header_outside heap _ _ apart byte lower inside
      omega

theorem payload_inside (block : BaseBlock) :
    block.payload heap + block.length ≤ heap.address + block.stop := by
  have exact := exact_size_bound block.request
  have total := total_size_bound block.request
  simp only [BaseBlock.payload, BaseBlock.header, BaseBlock.length, BaseBlock.stop]
  omega

theorem payload_avoids_header (inv : BaseInv heap s) {block other : BaseBlock}
    (returned : block ∈ s.blocks) (otherReturned : other ∈ s.blocks) :
    block.payload heap + block.length ≤ other.header heap ∨
      other.header heap + 16 ≤ block.payload heap := by
  by_cases same : block = other
  · subst same
    exact Or.inr le_rfl
  · have apart : Apart block other :=
      inv.returned.forall returned otherReturned same
    have inside := @payload_inside heap block
    simp only [Apart, BaseBlock.payload, BaseBlock.header, BaseBlock.stop, baseHeaderSize]
      at apart inside ⊢
    omega

theorem inv_write (inv : BaseInv heap s) {block : BaseBlock} (returned : block ∈ s.blocks)
    {place : Nat} (inside : place < block.length) (value : Nat) :
    BaseInv heap { s with mem := store s.mem (block.payload heap + place) 1 value } := by
  refine ⟨inv.bounded, inv.reserved, inv.aligned, inv.returned, inv.pending, inv.racing, ?_⟩
  intro other otherReturned
  refine header_kept inv otherReturned fun byte lower upper => store_outside s.mem ?_
  have avoids := payload_avoids_header inv returned otherReturned
  omega

theorem base_step_inv (inv : BaseInv heap s) {action : BaseAct} {after : BaseSys}
    (stepped : baseStep heap s action = some after) :
    BaseInv heap after ∧ s.offset ≤ after.offset := by
  unfold baseStep at stepped
  split at stepped
  · cases stepped
  rename_i running
  have running : s.trapped = false := by simpa using running
  cases action with
  | call thread request =>
      simp only at stepped
      split at stepped
      · cases stepped
        exact ⟨inv_move inv nofun, le_rfl⟩
      · cases stepped
  | load thread =>
      simp only at stepped
      split at stepped
      · cases stepped
        exact ⟨inv_move inv nofun, le_rfl⟩
      · cases stepped
  | exchange thread =>
      simp only at stepped
      split at stepped
      · rename_i request currentOffset trying
        split at stepped
        · rename_i current
          subst current
          obtain ⟨behind, next, _⟩ := reservation_spec heap request (inv.bounded running)
          split at stepped
          · rename_i exceeds
            cases stepped
            exact ⟨inv_trap inv running exceeds, by simp only; omega⟩
          · rename_i fits
            cases stepped
            exact ⟨inv_reserve inv running thread request (Nat.le_of_not_lt fits),
              by simp only; omega⟩
        · cases stepped
      · cases stepped
  | exchangeFails thread =>
      simp only at stepped
      split at stepped
      · cases stepped
        exact ⟨inv_move inv nofun, le_rfl⟩
      · cases stepped
  | storeHeader thread =>
      simp only at stepped
      split at stepped
      · rename_i block storing
        cases stepped
        exact ⟨inv_store_header inv storing, le_rfl⟩
      · cases stepped
  | write index place value =>
      simp only at stepped
      split at stepped
      · rename_i block found
        split at stepped
        · rename_i inside
          cases stepped
          exact ⟨inv_write inv (List.mem_of_getElem? found) inside _, le_rfl⟩
        · cases stepped
      · cases stepped

theorem base_run_inv {mem : Memory} {actions : List BaseAct}
    (ran : run (baseStep heap) (baseStart mem) actions = some s) : BaseInv heap s :=
  run_invariant_always (fun _ _ _ inv stepped => (base_step_inv inv stepped).1)
    (base_start_inv heap mem) ran

structure BaseSound (heap : BaseHeap) (s : BaseSys) : Prop where
  disjoint : s.blocks.Pairwise fun block other =>
    block.payload heap + block.length ≤ other.payload heap ∨
      other.payload heap + other.length ≤ block.payload heap
  inside : ∀ block ∈ s.blocks, heap.address ≤ block.payload heap ∧
    block.payload heap + block.length ≤ heap.address + lzBaseHeapSize
  aligned : ∀ block ∈ s.blocks, max block.request.alignment lzAbiAlignment ∣ block.payload heap
  headers : ∀ block ∈ s.blocks, ∀ other ∈ s.blocks,
    block.payload heap + block.length ≤ other.payload heap - baseHeaderSize ∨
      other.payload heap ≤ block.payload heap
  exact : ∀ block ∈ s.blocks,
    load s.mem (block.payload heap - baseHeaderSize) 8 = block.request.exactSize
  recognised : ∀ block ∈ s.blocks, isBasePtr heap (block.payload heap) = true

theorem base_sound (inv : BaseInv heap s) : BaseSound heap s := by
  have payloads : ∀ block : BaseBlock, block.payload heap = heap.address + block.offset + 16 :=
    fun _ => rfl
  have inside : ∀ block ∈ s.blocks, heap.address ≤ block.payload heap ∧
      block.payload heap + block.length ≤ heap.address + lzBaseHeapSize := by
    intro block returned
    have reserved := inv.reserved block (Or.inl returned)
    have payload := @payload_inside heap block
    have start := payloads block
    omega
  have positive : ∀ block : BaseBlock, 0 < block.length := fun block =>
    lt_of_lt_of_le Nat.zero_lt_one (Nat.le_max_right _ _)
  refine ⟨?_, inside, ?_, ?_, ?_, ?_⟩
  · apply inv.returned.imp
    intro block other apart
    have first := @payload_inside heap block
    have second := @payload_inside heap other
    simp only [Apart] at apart
    rw [payloads] at first second ⊢
    rw [payloads other]
    omega
  · intro block returned
    rw [lzAbiAlignment, align_covers]
    exact inv.aligned block (Or.inl returned)
  · intro block returned other otherReturned
    exact payload_avoids_header inv returned otherReturned
  · intro block returned
    exact inv.exact block returned
  · intro block returned
    have bounds := inside block returned
    have length := positive block
    simp only [isBasePtr, Bool.and_eq_true, decide_eq_true_eq]
    omega

/-- In every interleaving, up to the first reservation beyond the array, the
returned blocks keep apart from each other and from all headers, and the offset
only moves forward. -/
theorem bootstrap_blocks_sound (heap : BaseHeap) (mem : Memory) (actions : List BaseAct)
    (s : BaseSys) (ran : run (baseStep heap) (baseStart mem) actions = some s) :
    BaseSound heap s ∧
      ∀ action after, baseStep heap s action = some after → s.offset ≤ after.offset := by
  have inv := base_run_inv ran
  exact ⟨base_sound inv, fun action after stepped => (base_step_inv inv stepped).2⟩

/-- Two threads race for the first block and the loser retries; the winner's
client then fills the last byte of its payload. -/
def racingReservations : List BaseAct :=
  let request : BaseRequest := ⟨64, 40, by decide, by decide, by decide⟩
  [.call 0 request, .call 1 request, .load 0, .load 1, .exchange 0, .exchangeFails 1,
    .exchange 1, .storeHeader 1, .storeHeader 0, .write 0 39 255]

def exampleHeap : BaseHeap := ⟨4210704, by decide, by decide⟩

theorem racing_reservations_sound :
    ∃ s, run (baseStep exampleHeap) (baseStart fun _ => 0) racingReservations = some s ∧
      s.blocks.length = 2 ∧ BaseSound exampleHeap s := by
  have finishes : ((run (baseStep exampleHeap) (baseStart fun _ => 0) racingReservations).map
      fun s => s.blocks.length) = some 2 := by decide +kernel
  obtain ⟨s, ran, blocks⟩ := Option.map_eq_some_iff.mp finishes
  exact ⟨s, ran, blocks, (bootstrap_blocks_sound exampleHeap _ _ s ran).1⟩

end Lzmalloc.BootstrapAllocator
