import Lzmalloc.ThreadFrames

/-!
# Bytes of objects

Every object has a length: the block size of its class, its pages, or the size
that was asked for. The bytes of an object lie in blocks of its own role behind
all headers, and the bytes of different objects do not meet. Whatever is
written into live objects leaves the links of all free lists, batches and
mailboxes alone.
-/

namespace Lzmalloc.ObjectRanges

open SizeClasses HeapState VirtualMemoryManager ByteMemory Engines ThreadHeap HeapInvariant
open InvariantFacts RemoteFree

set_option autoImplicit false

variable {mode : Mode} {s : State} {g : Ghost} {ptr other : Nat}

def originLength : Origin → Nat
  | .none => 0
  | .slab classIdx => lzClassToSize classIdx
  | .span pages => pages * 4096
  | .direct size => size

def objectLength (s : State) (g : Ghost) (ptr : Nat) : Nat :=
  originLength (objectOrigin s.span s.direct ptr (g.kind (chunkBase ptr)))

theorem direct_block (core : Core mode s g) {header address : Nat} (known : header ∈ s.directs)
    (lower : header ≤ address) (upper : address < header + (s.direct header).totalBytes) :
    g.kind (chunkBase address) = .direct header := by
  obtain ⟨multiple, positive⟩ := core.geom.directSize header known
  have first : g.kind header = .direct header := by
    simpa using core.geom.directBlock header known 0 (by omega)
  obtain ⟨aligned, _, _⟩ := core.geom.placed header (by simp [first])
  have base : chunkBase address = header + (address - header) / 2097152 * 2097152 := by
    simp only [chunkBase, lzHugePageSize]
    omega
  rw [base]
  exact core.geom.directBlock header known _ (by omega)

theorem direct_known (core : Core mode s g) {header : Nat}
    (isDirect : g.kind (chunkBase ptr) = .direct header) : header ∈ s.directs :=
  (core.geom.directOf _ header isDirect).1

theorem slab_object (core : Core mode s g) {tlh classIdx : Nat} (present : g.node ptr ≠ .none)
    (isSlab : g.kind (chunkBase ptr) = .slab tlh classIdx) :
    ∃ index, ptr = chunkBase ptr + 128 + index * lzClassToSize classIdx ∧
      128 + index * lzClassToSize classIdx + lzClassToSize classIdx ≤ 2097152 ∧ classIdx < 40 := by
  have ok := core.slabs _ tlh classIdx isSlab
  obtain ⟨index, below, position⟩ := (ok.blocks ptr rfl).mp present
  have bound := ok.bumpBound
  rw [ok.maxObjects] at bound
  exact ⟨index, position, slab_block_inside ok.classBound bound below, ok.classBound⟩

theorem span_object (core : Core mode s g) {tlh : Nat} (present : g.node ptr ≠ .none)
    (isSpan : g.kind (chunkBase ptr) = .span tlh) :
    ∃ page, ptr = chunkBase ptr + page * 4096 ∧
      (s.span (chunkBase ptr + 64)).allocSizePages page ≠ 0 ∧ 1 ≤ page ∧
      page + (s.span (chunkBase ptr + 64)).allocSizePages page ≤ 512 ∧
      objectLength s g ptr = (s.span (chunkBase ptr + 64)).allocSizePages page * 4096 := by
  have ok := core.spans _ tlh isSpan
  obtain ⟨page, position, listed⟩ := (ok.nodes ptr rfl).mp present
  obtain ⟨behind, bound⟩ := ok.table page listed
  have index : (ptr - chunkBase ptr) / 4096 = page := by omega
  refine ⟨page, position, listed, behind, bound, ?_⟩
  rw [objectLength, isSpan, objectOrigin, originLength, index]

theorem holder_cases {kind : BlockKind} (holds : kind.HoldsObjects) :
    (∃ tlh, kind.owner = some tlh) ∨ ∃ header, kind = .direct header := by
  cases kind with
  | slab tlh classIdx => exact Or.inl ⟨tlh, rfl⟩
  | span tlh => exact Or.inl ⟨tlh, rfl⟩
  | direct header => exact Or.inr ⟨header, rfl⟩
  | unused => exact holds.elim
  | idle place => exact holds.elim
  | loose => exact holds.elim

theorem chunk_object_inside (core : Core mode s g) (present : g.node ptr ≠ .none) {tlh : Nat}
    (owned : (g.kind (chunkBase ptr)).owner = some tlh) :
    chunkBase ptr + 128 ≤ ptr ∧ ptr + objectLength s g ptr ≤ chunkBase ptr + 2097152 := by
  cases kind : g.kind (chunkBase ptr) with
  | slab heap classIdx =>
      obtain ⟨index, position, inside, _⟩ := slab_object core present kind
      simp only [objectLength, kind, objectOrigin, originLength]
      omega
  | span heap =>
      obtain ⟨page, position, _, behind, bound, length⟩ := span_object core present kind
      rw [length]
      omega
  | unused => simp [kind, BlockKind.owner] at owned
  | idle place => simp [kind, BlockKind.owner] at owned
  | loose => simp [kind, BlockKind.owner] at owned
  | direct header => simp [kind, BlockKind.owner] at owned

theorem direct_object_inside (core : Core mode s g) (present : g.node ptr ≠ .none) {header : Nat}
    (isDirect : g.kind (chunkBase ptr) = .direct header) (short : (s.direct header).size < 2 ^ 63) :
    header + 128 ≤ ptr ∧ ptr + objectLength s g ptr ≤ header + (s.direct header).totalBytes := by
  obtain ⟨behind, _, _⟩ := core.objects.direct.inside ptr header present isDirect
  refine ⟨behind, ?_⟩
  simp only [objectLength, isDirect, objectOrigin, originLength]
  exact core.objects.direct.fits ptr header present isDirect short

def Unwrapped (s : State) (g : Ghost) (ptr : Nat) : Prop :=
  ∀ header, g.kind (chunkBase ptr) = .direct header → (s.direct header).size < 2 ^ 63

theorem object_range_kind (core : Core mode s g) (present : g.node ptr ≠ .none)
    (unwrapped : Unwrapped s g ptr) {address : Nat} (lower : ptr ≤ address)
    (upper : address < ptr + objectLength s g ptr) :
    g.kind (chunkBase address) = g.kind (chunkBase ptr) ∧
      ((∃ tlh, (g.kind (chunkBase ptr)).owner = some tlh) → chunkBase address = chunkBase ptr) := by
  rcases holder_cases (core.objects.scope ptr present) with ⟨tlh, owned⟩ | ⟨header, isDirect⟩
  · obtain ⟨behind, inside⟩ := chunk_object_inside core present owned
    obtain ⟨aligned, _, _⟩ := core_placed core present
    have same : chunkBase address = chunkBase ptr := chunk_base_eq aligned (by omega) (by omega)
    exact ⟨by rw [same], fun _ => same⟩
  · obtain ⟨behind, inside⟩ :=
      direct_object_inside core present isDirect (unwrapped header isDirect)
    have same := direct_block core (direct_known core isDirect) (by omega : header ≤ address)
      (by omega)
    refine ⟨same.trans isDirect.symm, ?_⟩
    rintro ⟨tlh, owned⟩
    simp [isDirect, BlockKind.owner] at owned

/-- The bytes of an object end before the next object starts. -/
theorem object_ranges (core : Core mode s g) (present : g.node ptr ≠ .none)
    (otherPresent : g.node other ≠ .none) (unwrapped : Unwrapped s g ptr) (before : ptr < other) :
    ptr + objectLength s g ptr ≤ other := by
  by_contra overlap
  obtain ⟨kinds, bases⟩ := object_range_kind core present unwrapped (by omega : ptr ≤ other)
    (by omega)
  rcases holder_cases (core.objects.scope ptr present) with owned | ⟨header, isDirect⟩
  · have base := bases owned
    obtain ⟨tlh, owned⟩ := owned
    cases kind : g.kind (chunkBase ptr) with
    | slab heap classIdx =>
        obtain ⟨index, position, _, _⟩ := slab_object core present kind
        obtain ⟨later, laterPosition, _, _⟩ := slab_object core otherPresent (kinds.trans kind)
        rw [base] at laterPosition
        simp only [objectLength, kind, objectOrigin, originLength] at overlap
        have order : index < later := by
          by_contra disordered
          have product := Nat.mul_le_mul_right (lzClassToSize classIdx) (Nat.not_lt.mp disordered)
          omega
        have product := Nat.mul_le_mul_right (lzClassToSize classIdx) (Nat.succ_le_of_lt order)
        rw [Nat.succ_mul] at product
        omega
    | span heap =>
        obtain ⟨page, position, listed, _, _, length⟩ := span_object core present kind
        obtain ⟨later, laterPosition, laterListed, _, _, _⟩ :=
          span_object core otherPresent (kinds.trans kind)
        rw [base] at laterPosition laterListed
        have apart := (core.spans _ heap kind).apart page later (by omega) listed laterListed
        rw [length] at overlap
        omega
    | unused => simp [kind, BlockKind.owner] at owned
    | idle place => simp [kind, BlockKind.owner] at owned
    | loose => simp [kind, BlockKind.owner] at owned
    | direct header => simp [kind, BlockKind.owner] at owned
  · have same := core.objects.direct.single ptr other header present otherPresent isDirect
      (kinds.trans isDirect)
    omega

/-- The cell of an object is not shorter than its link word. -/
theorem cell_le_length (core : Core mode s g) (present : g.node ptr ≠ .none) {tlh : Nat}
    (owned : (g.kind (chunkBase ptr)).owner = some tlh) : 16 ≤ objectLength s g ptr := by
  cases kind : g.kind (chunkBase ptr) with
  | slab heap classIdx =>
      obtain ⟨_, _, _, classBound⟩ := slab_object core present kind
      obtain ⟨_, lower, _⟩ := slab_block_size classBound
      simpa only [objectLength, kind, objectOrigin, originLength] using lower
  | span heap =>
      obtain ⟨_, _, listed, _, _, length⟩ := span_object core present kind
      rw [length]
      omega
  | unused => simp [kind, BlockKind.owner] at owned
  | idle place => simp [kind, BlockKind.owner] at owned
  | loose => simp [kind, BlockKind.owner] at owned
  | direct header => simp [kind, BlockKind.owner] at owned

/-- Bytes of an object that carries no link may change freely. -/
theorem inv_write (inv : Inv mode s g) (present : g.node ptr ≠ .none)
    (quiet : g.node ptr ≠ .free ∧ ¬(g.node ptr).InFlight) (unwrapped : Unwrapped s g ptr)
    {mem : Memory}
    (outside : ∀ byte, ¬(ptr ≤ byte ∧ byte < ptr + objectLength s g ptr) → mem byte = s.mem byte) :
    Inv mode { s with mem := mem } g := by
  refine inv_mem inv fun other carries => ?_
  have apart : other ≠ ptr := by
    rintro rfl
    exact carries.elim quiet.1 quiet.2
  have otherPresent : g.node other ≠ .none := by
    intro absent
    simp [absent, NodePlace.InFlight] at carries
  have owned : ∃ tlh, (g.kind (chunkBase other)).owner = some tlh := by
    refine (holder_cases (inv.objects.scope other otherPresent)).resolve_right ?_
    rintro ⟨header, isDirect⟩
    rcases inv.objects.direct.places other header isDirect with there | there | there <;>
      simp [there, NodePlace.InFlight] at carries
  obtain ⟨tlh, owned⟩ := owned
  have cell := cell_le_length inv.toCore otherPresent owned
  have otherUnwrapped : Unwrapped s g other := by
    intro header isDirect
    simp [isDirect, BlockKind.owner] at owned
  refine load_congr fun byte lower upper => outside byte ?_
  rintro ⟨first, last⟩
  rcases Nat.lt_or_gt_of_ne apart with before | behind
  · have ends := object_ranges inv.toCore otherPresent present otherUnwrapped before
    omega
  · have ends := object_ranges inv.toCore present otherPresent unwrapped behind
    omega

end Lzmalloc.ObjectRanges
