import Lzmalloc.InvariantFacts

/-!
# Lookups after updates of the radix tree

A store is seen by every address of its own 2 MB block and by no other address.
Only the mapping of a leaf can fail, and then the lookup still answers null.
-/

namespace Lzmalloc.RadixTree

open SizeClasses HeapState HeapInvariant

set_option autoImplicit false

variable {s : State} {address chunkAddr metadata : Nat}

theorem rtree_index_block (same : address / 2097152 = chunkAddr / 2097152) :
    rtreeL1 address = rtreeL1 chunkAddr ∧ rtreeL2 address = rtreeL2 chunkAddr := by
  simp [rtreeL1, rtreeL2, same]

theorem chunk_base_iff_div {chunk : Nat} (aligned : chunk % 2097152 = 0) :
    chunkBase address = chunk ↔ address / 2097152 = chunk / 2097152 := by
  simp only [chunkBase, lzHugePageSize]
  omega

theorem lz_rtree_set_eq (s : State) (chunkAddr metadata : Nat) :
    lzRtreeSet s chunkAddr metadata =
      { s with
        rtree := (lzRtreeSet s chunkAddr metadata).rtree
        leafCalls := (lzRtreeSet s chunkAddr metadata).leafCalls } := by
  unfold lzRtreeSet
  cases s.rtree (rtreeL1 chunkAddr) with
  | some leaf => rfl
  | none =>
      by_cases null : metadata = 0
      · simp [null]
      · by_cases mapped : s.env.leafMmap s.leafCalls = true
        · simp [null, mapped]
        · simp [null, mapped]

theorem lz_rtree_get_store {rtree : Rtree} {leaf : Nat → Nat}
    (known : (rtree (rtreeL1 chunkAddr)).getD (fun _ => 0) = leaf)
    (bound : address < 2 ^ 48) (chunkBound : chunkAddr < 2 ^ 48) :
    lzRtreeGet (rtreeStore rtree leaf chunkAddr metadata) address =
      if address / 2097152 = chunkAddr / 2097152 then metadata else lzRtreeGet rtree address := by
  by_cases same : address / 2097152 = chunkAddr / 2097152
  · obtain ⟨first, second⟩ := rtree_index_block same
    simp [lzRtreeGet, rtreeStore, first, second, same]
  · rw [if_neg same]
    by_cases first : rtreeL1 address = rtreeL1 chunkAddr
    · have second : rtreeL2 address ≠ rtreeL2 chunkAddr := fun equal =>
        same (rtree_index_injective bound chunkBound first equal)
      subst known
      simp only [lzRtreeGet, rtreeStore, first, Function.update_self, ne_eq, second,
        not_false_eq_true, Function.update_of_ne]
      cases rtree (rtreeL1 chunkAddr) <;> rfl
    · simp [lzRtreeGet, rtreeStore, first]

/-- Every lookup after an update: the block itself sees the new value, or null
when its leaf could not be mapped; every other block sees what it saw before. -/
theorem lz_rtree_get_set (bound : address < 2 ^ 48) (chunkBound : chunkAddr < 2 ^ 48) :
    lzRtreeGet (lzRtreeSet s chunkAddr metadata).rtree address =
      if address / 2097152 = chunkAddr / 2097152 then
        if s.rtree (rtreeL1 chunkAddr) = none ∧ s.env.leafMmap s.leafCalls = false then 0
        else metadata
      else lzRtreeGet s.rtree address := by
  unfold lzRtreeSet
  cases known : s.rtree (rtreeL1 chunkAddr) with
  | some leaf =>
      simp only [reduceCtorEq, false_and, if_false]
      exact lz_rtree_get_store (by simp [known]) bound chunkBound
  | none =>
      have absent : address / 2097152 = chunkAddr / 2097152 → lzRtreeGet s.rtree address = 0 := by
        intro same
        simp [lzRtreeGet, (rtree_index_block same).1, known]
      by_cases null : metadata = 0
      · subst null
        by_cases same : address / 2097152 = chunkAddr / 2097152
        · simp [same, absent same]
        · simp [same]
      · by_cases mapped : s.env.leafMmap s.leafCalls = true
        · simp only [null, mapped, if_false, if_true, Bool.true_eq_false, and_false]
          exact lz_rtree_get_store (by simp [known]) bound chunkBound
        · simp only [null, if_false, mapped, Bool.false_eq_true]
          by_cases same : address / 2097152 = chunkAddr / 2097152
          · simp [same, absent same]
          · simp [same]

theorem lz_rtree_set_calls (s : State) (chunkAddr metadata : Nat) :
    s.leafCalls ≤ (lzRtreeSet s chunkAddr metadata).leafCalls := by
  unfold lzRtreeSet
  split
  · exact le_rfl
  · split
    · exact le_rfl
    · simp only
      split
      · exact Nat.le_succ _
      · exact Nat.le_succ _

theorem lz_rtree_set_asks (absent : s.rtree (rtreeL1 chunkAddr) = none) (nonnull : metadata ≠ 0) :
    (lzRtreeSet s chunkAddr metadata).leafCalls = s.leafCalls + 1 := by
  simp only [lzRtreeSet, absent, if_neg nonnull]
  split
  · rfl
  · rfl

theorem leaves_granted_before {after : State} (env : after.env = s.env)
    (calls : s.leafCalls ≤ after.leafCalls) (granted : LeavesGranted after) : LeavesGranted s := by
  intro call asked
  rw [← env]
  exact granted call (Nat.lt_of_lt_of_le asked calls)

theorem leaves_granted_set (granted : LeavesGranted (lzRtreeSet s chunkAddr metadata)) :
    LeavesGranted s :=
  leaves_granted_before (by rw [lz_rtree_set_eq]) (lz_rtree_set_calls s chunkAddr metadata) granted

theorem lz_rtree_get_set_other (bound : address < 2 ^ 48) (chunkBound : chunkAddr < 2 ^ 48)
    (different : address / 2097152 ≠ chunkAddr / 2097152) :
    lzRtreeGet (lzRtreeSet s chunkAddr metadata).rtree address = lzRtreeGet s.rtree address := by
  rw [lz_rtree_get_set bound chunkBound, if_neg different]

theorem lz_rtree_get_set_same (bound : address < 2 ^ 48) (chunkBound : chunkAddr < 2 ^ 48)
    (same : address / 2097152 = chunkAddr / 2097152) :
    (lzRtreeGet (lzRtreeSet s chunkAddr metadata).rtree address = 0 ∨
      lzRtreeGet (lzRtreeSet s chunkAddr metadata).rtree address = metadata) ∧
    (LeavesGranted (lzRtreeSet s chunkAddr metadata) →
      lzRtreeGet (lzRtreeSet s chunkAddr metadata).rtree address = metadata) := by
  rw [lz_rtree_get_set bound chunkBound, if_pos same]
  by_cases failed : s.rtree (rtreeL1 chunkAddr) = none ∧ s.env.leafMmap s.leafCalls = false
  · rw [if_pos failed]
    refine ⟨Or.inl rfl, fun granted => ?_⟩
    by_contra nonnull
    have asked := lz_rtree_set_asks failed.1 (Ne.symm nonnull)
    have mapped := granted s.leafCalls (by rw [asked]; exact Nat.lt_succ_self _)
    rw [lz_rtree_set_eq, failed.2] at mapped
    cases mapped
  · simp [failed]

theorem lz_rtree_get_clear (bound : address < 2 ^ 48) (chunkBound : chunkAddr < 2 ^ 48)
    (same : address / 2097152 = chunkAddr / 2097152) :
    lzRtreeGet (lzRtreeClear s chunkAddr).rtree address = 0 := by
  rw [lzRtreeClear, lz_rtree_get_set bound chunkBound, if_pos same]
  simp

/-! ## Ranges of blocks -/

/-- The loop over `count` blocks from `base` on. -/
def setBlocks (s : State) (base metadata count : Nat) : State :=
  (List.range count).foldl
    (fun state index => lzRtreeSet state (base + index * lzHugePageSize) metadata) s

theorem set_blocks_succ (s : State) (base metadata count : Nat) :
    setBlocks s base metadata (count + 1) =
      lzRtreeSet (setBlocks s base metadata count) (base + count * lzHugePageSize) metadata := by
  simp only [setBlocks, List.range_succ, List.foldl_append, List.foldl_cons, List.foldl_nil]

theorem set_blocks_eq (s : State) (base metadata count : Nat) :
    setBlocks s base metadata count =
      { s with
        rtree := (setBlocks s base metadata count).rtree
        leafCalls := (setBlocks s base metadata count).leafCalls } := by
  induction count with
  | zero => rfl
  | succ count ih =>
      rw [set_blocks_succ, lz_rtree_set_eq, ih]

theorem leaves_granted_blocks {base count : Nat}
    (granted : LeavesGranted (setBlocks s base metadata count)) : LeavesGranted s := by
  induction count with
  | zero => exact granted
  | succ count ih =>
      rw [set_blocks_succ] at granted
      exact ih (leaves_granted_set granted)

theorem lz_rtree_get_set_blocks_outside {base count : Nat} (aligned : base % 2097152 = 0)
    (limit : base + count * 2097152 ≤ 2 ^ 48) (bound : address < 2 ^ 48)
    (outside : ¬(base ≤ address ∧ address < base + count * 2097152)) :
    lzRtreeGet (setBlocks s base metadata count).rtree address = lzRtreeGet s.rtree address := by
  induction count with
  | zero => rfl
  | succ count ih =>
      have multiple : count * 2097152 % 2097152 = 0 := Nat.mul_mod_left count 2097152
      rw [Nat.succ_mul] at limit outside
      rw [set_blocks_succ]
      simp only [lzHugePageSize]
      generalize count * 2097152 = length at *
      rw [lz_rtree_get_set_other bound (by omega) (by omega)]
      exact ih (by omega) (by omega)

theorem lz_rtree_get_set_blocks_inside {base count : Nat} (aligned : base % 2097152 = 0)
    (limit : base + count * 2097152 ≤ 2 ^ 48) (lower : base ≤ address)
    (upper : address < base + count * 2097152) :
    (lzRtreeGet (setBlocks s base metadata count).rtree address = 0 ∨
        lzRtreeGet (setBlocks s base metadata count).rtree address = metadata) ∧
      (LeavesGranted (setBlocks s base metadata count) →
        lzRtreeGet (setBlocks s base metadata count).rtree address = metadata) := by
  induction count with
  | zero => omega
  | succ count ih =>
      have multiple : count * 2097152 % 2097152 = 0 := Nat.mul_mod_left count 2097152
      rw [Nat.succ_mul] at limit upper
      rw [set_blocks_succ]
      simp only [lzHugePageSize]
      generalize count * 2097152 = length at *
      have bound : address < 2 ^ 48 := Nat.lt_of_lt_of_le upper limit
      have blockBound : base + length < 2 ^ 48 := by
        clear multiple aligned
        omega
      by_cases here : address / 2097152 = (base + length) / 2097152
      · exact lz_rtree_get_set_same bound blockBound here
      · rw [lz_rtree_get_set_other bound blockBound here]
        obtain ⟨sound, complete⟩ := ih (Nat.le_of_lt blockBound) (by omega)
        exact ⟨sound, fun granted => complete (leaves_granted_set granted)⟩

theorem lz_rtree_set_range_eq (s : State) (base metadata : Nat) {total : Nat}
    (multiple : total % 2097152 = 0) :
    lzRtreeSetRange s base total metadata = setBlocks s base metadata (total / 2097152) := by
  have blocks : (total + (lzHugePageSize - 1)) / lzHugePageSize = total / 2097152 := by
    simp only [lzHugePageSize]
    omega
  rw [lzRtreeSetRange, blocks, setBlocks]

end Lzmalloc.RadixTree
