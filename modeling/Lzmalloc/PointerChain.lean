import Mathlib.Data.List.Nodup
import Mathlib.Data.List.Perm.Subperm
import Mathlib.Data.Set.Card
import Mathlib.Logic.Function.Basic

/-!
# Null-terminated pointer chains

A singly linked list in a memory is a `next` map and a head. `Segment` says
which nodes are visited on the way from one pointer to another, `Enumerates`
says that a null-terminated chain visits every pointer of a given set exactly
once. All list surgery of an intrusive list (push, pop, splice) is stated for
`Enumerates`, with the memory after the operation described only on the nodes
that the chain visits.
-/

namespace Lzmalloc.PointerChain

set_option autoImplicit false

variable {Pointer : Type*} [Zero Pointer]

/-- Following `next` from `start` visits exactly `nodes`, none of them null,
and arrives at `stop`. -/
def Segment (next : Pointer → Pointer) : Pointer → List Pointer → Pointer → Prop
  | start, [], stop => start = stop
  | start, node :: rest, stop =>
      start = node ∧ node ≠ 0 ∧ Segment next (next node) rest stop

@[simp] theorem segment_nil (next : Pointer → Pointer) (start stop : Pointer) :
    Segment next start [] stop ↔ start = stop := Iff.rfl

@[simp] theorem segment_cons (next : Pointer → Pointer) (start node stop : Pointer)
    (rest : List Pointer) :
    Segment next start (node :: rest) stop ↔
      start = node ∧ node ≠ 0 ∧ Segment next (next node) rest stop := Iff.rfl

theorem segment_append (next : Pointer → Pointer) (start stop : Pointer)
    (left right : List Pointer) :
    Segment next start (left ++ right) stop ↔
      ∃ middle, Segment next start left middle ∧ Segment next middle right stop := by
  induction left generalizing start with
  | nil => simp
  | cons node rest ih =>
      simp only [List.cons_append, segment_cons, ih]
      constructor
      · rintro ⟨same, nonnull, middle, first, second⟩
        exact ⟨middle, ⟨same, nonnull, first⟩, second⟩
      · rintro ⟨middle, ⟨same, nonnull, first⟩, second⟩
        exact ⟨same, nonnull, middle, first, second⟩

/-- Only the links of the visited nodes matter. -/
theorem segment_congr {next other : Pointer → Pointer} {start stop : Pointer}
    {nodes : List Pointer} (segment : Segment next start nodes stop)
    (agree : ∀ node ∈ nodes, other node = next node) :
    Segment other start nodes stop := by
  induction nodes generalizing start with
  | nil => exact segment
  | cons node rest ih =>
      obtain ⟨same, nonnull, tail⟩ := segment
      refine ⟨same, nonnull, ?_⟩
      rw [agree node (by simp)]
      exact ih tail fun later member => agree later (by simp [member])

theorem segment_nonnull {next : Pointer → Pointer} {start stop node : Pointer}
    {nodes : List Pointer} (segment : Segment next start nodes stop)
    (member : node ∈ nodes) : node ≠ 0 := by
  induction nodes generalizing start with
  | nil => simp at member
  | cons first rest ih =>
      obtain ⟨_, nonnull, tail⟩ := segment
      rcases List.mem_cons.mp member with rfl | later
      · exact nonnull
      · exact ih tail later

/-- A null-terminated chain is determined by its head. -/
theorem segment_unique {next : Pointer → Pointer} {start : Pointer}
    {left right : List Pointer} (first : Segment next start left 0)
    (second : Segment next start right 0) : left = right := by
  induction left generalizing start right with
  | nil =>
      cases right with
      | nil => rfl
      | cons node rest =>
          obtain ⟨same, nonnull, _⟩ := second
          exact absurd (same.symm.trans first) nonnull
  | cons node rest ih =>
      obtain ⟨same, nonnull, tail⟩ := first
      cases right with
      | nil => exact absurd (same.symm.trans second) nonnull
      | cons other more =>
          obtain ⟨sameOther, _, tailOther⟩ := second
          have equal : node = other := same.symm.trans sameOther
          subst equal
          rw [ih tail tailOther]

/-- The chain from `head` ends in null after visiting every pointer that
satisfies `member` exactly once, `count` of them in all. -/
def Enumerates (next : Pointer → Pointer) (head : Pointer) (member : Pointer → Prop)
    (count : Nat) : Prop :=
  ∃ nodes, Segment next head nodes 0 ∧ nodes.Nodup ∧ (∀ node, node ∈ nodes ↔ member node) ∧
    nodes.length = count

variable {next other : Pointer → Pointer} {head : Pointer} {member : Pointer → Prop}
  {count : Nat}

theorem enumerates_congr {same : Pointer → Prop} (chain : Enumerates next head member count)
    (agree : ∀ node, member node → other node = next node)
    (members : ∀ node, same node ↔ member node) : Enumerates other head same count := by
  obtain ⟨nodes, segment, nodup, exact, length⟩ := chain
  refine ⟨nodes, segment_congr segment fun node visited => ?_, nodup, fun node => ?_, length⟩
  · exact agree node ((exact node).mp visited)
  · rw [exact node, members node]

theorem enumerates_empty (none : ∀ node, ¬member node) : Enumerates next 0 member 0 :=
  ⟨[], rfl, List.nodup_nil, fun node => by simp [none node], rfl⟩

theorem enumerates_nonnull (chain : Enumerates next head member count) {node : Pointer}
    (visited : member node) : node ≠ 0 := by
  obtain ⟨nodes, segment, _, exact, _⟩ := chain
  exact segment_nonnull segment ((exact node).mpr visited)

theorem enumerates_null (chain : Enumerates next 0 member count) :
    count = 0 ∧ ∀ node, ¬member node := by
  obtain ⟨nodes, segment, _, exact, length⟩ := chain
  cases nodes with
  | nil => exact ⟨length.symm, fun node visited => by simpa using (exact node).mpr visited⟩
  | cons first rest => exact absurd segment.1.symm segment.2.1

theorem enumerates_zero (chain : Enumerates next head member 0) :
    head = 0 ∧ ∀ node, ¬member node := by
  obtain ⟨nodes, segment, _, exact, length⟩ := chain
  obtain rfl : nodes = [] := List.length_eq_zero_iff.mp length
  exact ⟨segment, fun node visited => by simpa using (exact node).mpr visited⟩

theorem enumerates_head (chain : Enumerates next head member count) (nonnull : head ≠ 0) :
    member head := by
  obtain ⟨nodes, segment, _, exact, _⟩ := chain
  cases nodes with
  | nil => exact absurd segment nonnull
  | cons first rest =>
      rw [segment.1]
      exact (exact first).mp (by simp)

theorem segment_next {start stop node : Pointer} {nodes : List Pointer}
    (segment : Segment next start nodes stop) (member : node ∈ nodes) :
    next node = stop ∨ next node ∈ nodes := by
  induction nodes generalizing start with
  | nil => simp at member
  | cons first rest ih =>
      obtain ⟨_, _, tail⟩ := segment
      obtain rfl | later := List.mem_cons.mp member
      · cases rest with
        | nil => exact Or.inl tail
        | cons second more =>
            rw [tail.1]
            simp
      · obtain stopped | inside := ih tail later
        · exact Or.inl stopped
        · exact Or.inr (List.mem_cons_of_mem first inside)

theorem enumerates_next (chain : Enumerates next head member count) {node : Pointer}
    (visited : member node) (nonnull : next node ≠ 0) : member (next node) := by
  obtain ⟨nodes, segment, _, exact, _⟩ := chain
  obtain stopped | inside := segment_next segment ((exact node).mpr visited)
  · exact absurd stopped nonnull
  · exact (exact _).mp inside

theorem enumerates_push {node : Pointer} {grown : Pointer → Prop}
    (chain : Enumerates next head member count) (nonnull : node ≠ 0) (fresh : ¬member node)
    (link : other node = head) (agree : ∀ old, member old → other old = next old)
    (members : ∀ each, grown each ↔ each = node ∨ member each) :
    Enumerates other node grown (count + 1) := by
  obtain ⟨nodes, segment, nodup, exact, length⟩ := chain
  refine ⟨node :: nodes, ⟨rfl, nonnull, ?_⟩, ?_, fun each => ?_, by simp [length]⟩
  · rw [link]
    exact segment_congr segment fun old visited => agree old ((exact old).mp visited)
  · exact List.nodup_cons.mpr ⟨fun visited => fresh ((exact node).mp visited), nodup⟩
  · rw [List.mem_cons, exact each, members each]

theorem enumerates_pop {shrunk : Pointer → Prop} (chain : Enumerates next head member count)
    (nonnull : head ≠ 0) (agree : ∀ old, member old → old ≠ head → other old = next old)
    (members : ∀ each, shrunk each ↔ member each ∧ each ≠ head) :
    0 < count ∧ Enumerates other (next head) shrunk (count - 1) := by
  obtain ⟨nodes, segment, nodup, exact, length⟩ := chain
  cases nodes with
  | nil => exact absurd segment nonnull
  | cons first rest =>
      obtain ⟨rfl, _, tail⟩ := segment
      obtain ⟨absent, nodupRest⟩ := List.nodup_cons.mp nodup
      simp only [List.length_cons] at length
      refine ⟨by omega, rest, ?_, nodupRest, fun each => ?_, by omega⟩
      · refine segment_congr tail fun old visited =>
          agree old ((exact old).mp (by simp [visited])) ?_
        rintro rfl
        exact absent visited
      · rw [members each, ← exact each, List.mem_cons]
        constructor
        · intro visited
          refine ⟨Or.inr visited, ?_⟩
          rintro rfl
          exact absent visited
        · rintro ⟨rfl | visited, different⟩
          · exact absurd rfl different
          · exact visited

/-- A chain with a known last node: `count` nodes lead from `head` to `tail`.
The link stored in `tail` itself is left open. -/
def EndsAt (next : Pointer → Pointer) (head tail : Pointer) (member : Pointer → Prop)
    (count : Nat) : Prop :=
  ∃ front, Segment next head front tail ∧ tail ≠ 0 ∧ (front ++ [tail]).Nodup ∧
    (∀ node, node ∈ front ++ [tail] ↔ member node) ∧ front.length + 1 = count

theorem ends_at_congr {tail : Pointer} {same : Pointer → Prop}
    (chain : EndsAt next head tail member count)
    (agree : ∀ node, member node → node ≠ tail → other node = next node)
    (members : ∀ node, same node ↔ member node) : EndsAt other head tail same count := by
  obtain ⟨front, segment, nonnull, nodup, exact, length⟩ := chain
  refine ⟨front, segment_congr segment fun node visited => ?_, nonnull, nodup,
    fun node => ?_, length⟩
  · refine agree node ((exact node).mp (by simp [visited])) ?_
    rintro rfl
    exact (List.nodup_append.mp nodup).2.2 node visited node (by simp) rfl
  · rw [exact node, members node]

theorem ends_at_tail {tail : Pointer} (chain : EndsAt next head tail member count) :
    member tail := by
  obtain ⟨front, _, _, _, exact, _⟩ := chain
  exact (exact tail).mp (by simp)

theorem ends_at_head {tail : Pointer} (chain : EndsAt next head tail member count) :
    member head := by
  obtain ⟨front, segment, _, _, exact, _⟩ := chain
  cases front with
  | nil => exact (exact head).mp (List.mem_singleton.mpr segment)
  | cons first rest => exact (exact head).mp (by simp [segment.1])

theorem ends_at_single {node : Pointer} (nonnull : node ≠ 0)
    (members : ∀ each, member each ↔ each = node) : EndsAt next node node member 1 :=
  ⟨[], rfl, nonnull, by simp, fun each => by simp [members each], rfl⟩

theorem ends_at_push {tail node : Pointer} {grown : Pointer → Prop}
    (chain : EndsAt next head tail member count) (nonnull : node ≠ 0) (fresh : ¬member node)
    (link : other node = head) (agree : ∀ old, member old → old ≠ tail → other old = next old)
    (members : ∀ each, grown each ↔ each = node ∨ member each) :
    EndsAt other node tail grown (count + 1) := by
  obtain ⟨front, segment, tailNonnull, nodup, exact, length⟩ :=
    ends_at_congr chain agree fun _ => Iff.rfl
  refine ⟨node :: front, ⟨rfl, nonnull, by rwa [link]⟩, tailNonnull, ?_, fun each => ?_,
    by simp [length]⟩
  · exact List.nodup_cons.mpr ⟨fun visited => fresh ((exact node).mp visited), nodup⟩
  · rw [List.cons_append, List.mem_cons, exact each, members each]

theorem segment_length_unique {start stop finish : Pointer} {left right : List Pointer}
    (first : Segment next start left stop) (second : Segment next start right finish)
    (length : left.length = right.length) : left = right := by
  induction left generalizing start right with
  | nil => exact (List.length_eq_zero_iff.mp length.symm).symm
  | cons node rest ih =>
      cases right with
      | nil => simp at length
      | cons visited more =>
          obtain ⟨same, _, tail⟩ := first
          obtain ⟨sameVisited, _, tailVisited⟩ := second
          obtain rfl : node = visited := same.symm.trans sameVisited
          rw [ih tail tailVisited (by simpa using length)]

/-- The null-terminated chain from `head` visits `node`. -/
def OnChain (next : Pointer → Pointer) (head node : Pointer) : Prop :=
  ∃ nodes, Segment next head nodes 0 ∧ node ∈ nodes

/-- The chain of `count` nodes from `head` to `tail` visits `node`. -/
def OnBatch (next : Pointer → Pointer) (head tail : Pointer) (count : Nat)
    (node : Pointer) : Prop :=
  ∃ front, Segment next head front tail ∧ front.length + 1 = count ∧ node ∈ front ++ [tail]

theorem enumerates_on_chain {node : Pointer} (chain : Enumerates next head member count) :
    OnChain next head node ↔ member node := by
  obtain ⟨nodes, segment, _, exact, _⟩ := chain
  constructor
  · rintro ⟨visited, visitedSegment, there⟩
    rw [segment_unique visitedSegment segment] at there
    exact (exact node).mp there
  · exact fun there => ⟨nodes, segment, (exact node).mpr there⟩

theorem ends_at_on_batch {tail node : Pointer} (chain : EndsAt next head tail member count) :
    OnBatch next head tail count node ↔ member node := by
  obtain ⟨front, segment, _, _, exact, length⟩ := chain
  constructor
  · rintro ⟨visited, visitedSegment, visitedLength, there⟩
    rw [segment_length_unique visitedSegment segment (by omega)] at there
    exact (exact node).mp there
  · exact fun there => ⟨front, segment, length, (exact node).mpr there⟩

theorem enumerates_splice {first last tail : Pointer} {left right union : Pointer → Prop}
    {leftCount rightCount : Nat} (front : EndsAt next first tail left leftCount)
    (back : Enumerates next last right rightCount) (disjoint : ∀ node, left node → ¬right node)
    (link : next tail = last) (members : ∀ node, union node ↔ left node ∨ right node) :
    Enumerates next first union (leftCount + rightCount) := by
  obtain ⟨nodes, segment, nonnull, nodup, exact, length⟩ := front
  obtain ⟨rest, segmentRest, nodupRest, exactRest, lengthRest⟩ := back
  refine ⟨(nodes ++ [tail]) ++ rest, ?_, ?_, fun node => ?_, ?_⟩
  · rw [segment_append]
    refine ⟨last, ?_, segmentRest⟩
    rw [segment_append]
    exact ⟨tail, segment, rfl, nonnull, link⟩
  · refine List.nodup_append.mpr ⟨nodup, nodupRest, ?_⟩
    rintro node inLeft other inRight rfl
    exact disjoint node ((exact node).mp inLeft) ((exactRest node).mp inRight)
  · rw [List.mem_append, exact node, exactRest node, members node]
  · simp only [List.length_append, List.length_cons, List.length_nil]
    omega

theorem enumerates_lt {first node : Pointer} {rest : Pointer → Prop} {fewer : Nat}
    (chain : Enumerates next head member count) (smaller : Enumerates other first rest fewer)
    (inside : ∀ each, rest each → member each) (visited : member node) (gone : ¬rest node) :
    fewer < count := by
  obtain ⟨nodes, _, _, exact, length⟩ := chain
  obtain ⟨short, _, nodup, exactShort, lengthShort⟩ := smaller
  have nodupCons : (node :: short).Nodup :=
    List.nodup_cons.mpr ⟨fun there => gone ((exactShort node).mp there), nodup⟩
  have contained : node :: short ⊆ nodes := by
    intro each there
    rcases List.mem_cons.mp there with rfl | later
    · exact (exact each).mpr visited
    · exact (exact each).mpr (inside each ((exactShort each).mp later))
  have lengths := (nodupCons.subperm contained).length_le
  rw [List.length_cons, lengthShort, length] at lengths
  exact lengths

theorem enumerates_bound {next : Nat → Nat} {head count limit : Nat} {member : Nat → Prop}
    (chain : Enumerates next head member count) (bounded : ∀ node, member node → node < limit) :
    count ≤ limit := by
  obtain ⟨nodes, _, nodup, exact, length⟩ := chain
  have contained : nodes ⊆ List.range limit := fun node visited =>
    List.mem_range.mpr (bounded node ((exact node).mp visited))
  have lengths := (nodup.subperm contained).length_le
  rwa [List.length_range, length] at lengths

/-- Of `total` distinct cells a chain through `count` of them leaves out the others. -/
theorem enumerates_unlisted (cell : Nat → Pointer) {total : Nat}
    (chain : Enumerates next head member count)
    (injective : ∀ left right, cell left = cell right → left = right)
    (inside : ∀ node, member node → ∃ index < total, node = cell index) :
    Set.ncard { index | index < total ∧ ¬member (cell index) } = total - count := by
  classical
  obtain ⟨nodes, _, nodup, exact, length⟩ := chain
  have listed : ((Finset.range total).filter fun index => member (cell index)).card = count := by
    rw [← length, ← List.toFinset_card_of_nodup nodup,
      ← Finset.card_image_of_injective _ fun left right => injective left right]
    congr 1
    ext node
    simp only [Finset.mem_image, Finset.mem_filter, Finset.mem_range, List.mem_toFinset, exact]
    constructor
    · rintro ⟨index, ⟨_, there⟩, rfl⟩
      exact there
    · intro there
      obtain ⟨index, bound, rfl⟩ := inside node there
      exact ⟨index, ⟨bound, there⟩, rfl⟩
  have same : { index | index < total ∧ ¬member (cell index) } =
      ((Finset.range total).filter fun index => ¬member (cell index) : Finset Nat) := by
    ext index
    simp
  have sum := Finset.card_filter_add_card_filter_not (s := Finset.range total)
    fun index => member (cell index)
  rw [same, Set.ncard_coe_finset]
  rw [listed, Finset.card_range] at sum
  omega

theorem enumerates_covers (cell : Nat → Pointer) (chain : Enumerates next head member count)
    (inside : ∀ node, member node → ∃ index < count, node = cell index)
    {index : Nat} (bound : index < count) : member (cell index) := by
  obtain ⟨nodes, _, nodup, exact, length⟩ := chain
  have contained : nodes ⊆ (List.range count).map cell := by
    intro node visited
    obtain ⟨position, positionBound, same⟩ := inside node ((exact node).mp visited)
    exact List.mem_map.mpr ⟨position, List.mem_range.mpr positionBound, same.symm⟩
  have permuted := (nodup.subperm contained).perm_of_length_le (by simp [length])
  exact (exact _).mp
    (permuted.mem_iff.mpr (List.mem_map.mpr ⟨index, List.mem_range.mpr bound, rfl⟩))

end Lzmalloc.PointerChain
