import Lzmalloc.PointerChain

/-!
# Intrusive doubly linked lists

`Links` is the pair of link maps of an intrusive list, `pushFront`, `popFront`
and `unlink` are the usual pointer updates on it. The head pointer is kept by
the caller, so each update comes with the head that belongs to it. A list is
well linked when its forward chain ends in null, visits no node twice, and
every back link names the node visited before (null for the first one).
-/

namespace Lzmalloc.DoublyLinked

open PointerChain

set_option autoImplicit false

structure Links (Pointer : Type*) where
  next : Pointer → Pointer
  prev : Pointer → Pointer

variable {Pointer : Type*} [Zero Pointer] [DecidableEq Pointer]

/-- `node->next = head; node->prev = NULL; if (head) head->prev = node`. -/
def pushFront (links : Links Pointer) (head node : Pointer) : Links Pointer where
  next := Function.update links.next node head
  prev :=
    let cleared := Function.update links.prev node 0
    if head = 0 then cleared else Function.update cleared head node

/-- `if (node->prev) node->prev->next = node->next` together with
`if (node->next) node->next->prev = node->prev`. -/
def unlink (links : Links Pointer) (node : Pointer) : Links Pointer where
  next :=
    if links.prev node = 0 then links.next
    else Function.update links.next (links.prev node) (links.next node)
  prev :=
    if links.next node = 0 then links.prev
    else Function.update links.prev (links.next node) (links.prev node)

/-- The list head after `unlink`: only the first node carries the head. -/
def unlinkHead (links : Links Pointer) (head node : Pointer) : Pointer :=
  if links.prev node = 0 then links.next node else head

/-- Detaches the first node: the second one loses its back link and both links
of the detached node are cleared. -/
def popFront (links : Links Pointer) (head : Pointer) : Links Pointer where
  next := Function.update links.next head 0
  prev :=
    Function.update
      (if links.next head = 0 then links.prev
        else Function.update links.prev (links.next head) 0)
      head 0

def BackLinked (prev : Pointer → Pointer) : Pointer → List Pointer → Prop
  | _, [] => True
  | before, node :: rest => prev node = before ∧ BackLinked prev node rest

omit [Zero Pointer] [DecidableEq Pointer] in
theorem back_linked_append (prev : Pointer → Pointer) (before : Pointer)
    (left right : List Pointer) :
    BackLinked prev before (left ++ right) ↔
      BackLinked prev before left ∧ BackLinked prev (left.getLastD before) right := by
  induction left generalizing before with
  | nil => simp [BackLinked]
  | cons node rest ih =>
      simp only [List.cons_append, BackLinked, ih, and_assoc, List.getLastD_cons]

omit [Zero Pointer] [DecidableEq Pointer] in
theorem back_linked_congr {prev other : Pointer → Pointer} {before : Pointer}
    {nodes : List Pointer} (linked : BackLinked prev before nodes)
    (agree : ∀ node ∈ nodes, other node = prev node) : BackLinked other before nodes := by
  induction nodes generalizing before with
  | nil => trivial
  | cons node rest ih =>
      refine ⟨(agree node (by simp)).trans linked.1, ?_⟩
      exact ih linked.2 fun later visited => agree later (by simp [visited])

structure WellLinked (links : Links Pointer) (head : Pointer) (nodes : List Pointer) : Prop where
  forward : Segment links.next head nodes 0
  backward : BackLinked links.prev 0 nodes
  nodup : nodes.Nodup

/-- The list from `head` is well linked and holds exactly the pointers that
satisfy `member`. -/
def Doubly (links : Links Pointer) (head : Pointer) (member : Pointer → Prop) : Prop :=
  ∃ nodes, WellLinked links head nodes ∧ ∀ node, node ∈ nodes ↔ member node

variable {links other : Links Pointer} {head : Pointer} {member : Pointer → Prop}

omit [DecidableEq Pointer] in
theorem doubly_congr {same : Pointer → Prop} (list : Doubly links head member)
    (nextAgree : ∀ node, member node → other.next node = links.next node)
    (prevAgree : ∀ node, member node → other.prev node = links.prev node)
    (members : ∀ node, same node ↔ member node) : Doubly other head same := by
  obtain ⟨nodes, linked, exact⟩ := list
  refine ⟨nodes, ⟨?_, ?_, linked.nodup⟩, fun node => by rw [exact node, members node]⟩
  · exact segment_congr linked.forward fun node visited => nextAgree node ((exact node).mp visited)
  · exact back_linked_congr linked.backward fun node visited =>
      prevAgree node ((exact node).mp visited)

omit [DecidableEq Pointer] in
theorem doubly_empty (none : ∀ node, ¬member node) : Doubly links 0 member :=
  ⟨[], ⟨rfl, trivial, List.nodup_nil⟩, fun node => by simp [none node]⟩

omit [DecidableEq Pointer] in
theorem doubly_enumerates (list : Doubly links head member) :
    ∃ count, Enumerates links.next head member count := by
  obtain ⟨nodes, linked, exact⟩ := list
  exact ⟨nodes.length, nodes, linked.forward, linked.nodup, exact, rfl⟩

omit [DecidableEq Pointer] in
theorem doubly_head (list : Doubly links head member) (nonnull : head ≠ 0) : member head := by
  obtain ⟨_, chain⟩ := doubly_enumerates list
  exact enumerates_head chain nonnull

omit [DecidableEq Pointer] in
theorem doubly_null (list : Doubly links 0 member) (node : Pointer) : ¬member node := by
  obtain ⟨_, chain⟩ := doubly_enumerates list
  exact (enumerates_null chain).2 node

omit [DecidableEq Pointer] in
theorem doubly_first (list : Doubly links head member) {node : Pointer} (visited : member node)
    (first : links.prev node = 0) : head = node := by
  obtain ⟨nodes, linked, exact⟩ := list
  obtain ⟨before, after, rfl⟩ := List.append_of_mem ((exact node).mpr visited)
  have backward := ((back_linked_append _ _ _ _).mp linked.backward).2.1
  rcases List.eq_nil_or_concat' before with rfl | ⟨front, last, rfl⟩
  · exact linked.forward.1
  · have lastNull : last = 0 := by
      rw [first] at backward
      simpa using backward.symm
    have lastNonnull : last ≠ 0 := segment_nonnull linked.forward (by simp)
    exact absurd lastNull lastNonnull

theorem well_linked_push {node : Pointer} {nodes : List Pointer}
    (linked : WellLinked links head nodes)
    (nonnull : node ≠ 0) (absent : node ∉ nodes) :
    WellLinked (pushFront links head node) node (node :: nodes) := by
  constructor
  · have forward : Segment (pushFront links head node).next head nodes 0 := by
      apply segment_congr linked.forward
      intro old visited
      have different : old ≠ node := fun same => absent (same ▸ visited)
      exact Function.update_of_ne different _ _
    exact ⟨rfl, nonnull, by simpa [pushFront] using forward⟩
  · cases nodes with
    | nil =>
        have empty : head = 0 := linked.forward
        simp [BackLinked, pushFront, empty]
    | cons first rest =>
        obtain ⟨rfl, firstNonnull, _⟩ := linked.forward
        have different : node ≠ head := fun same => absent (by simp [same])
        obtain ⟨firstAbsent, _⟩ := List.nodup_cons.mp linked.nodup
        refine ⟨by simp [pushFront, firstNonnull, different], by simp [pushFront, firstNonnull], ?_⟩
        refine back_linked_congr linked.backward.2 fun old visited => ?_
        have notHead : old ≠ head := fun same => firstAbsent (same ▸ visited)
        have notNode : old ≠ node := fun same => absent (by simp [← same, visited])
        simp [pushFront, firstNonnull, notHead, notNode]
  · exact List.nodup_cons.mpr ⟨absent, linked.nodup⟩

theorem doubly_push {node : Pointer} {grown : Pointer → Prop} (list : Doubly links head member)
    (nonnull : node ≠ 0) (fresh : ¬member node)
    (members : ∀ each, grown each ↔ each = node ∨ member each) :
    Doubly (pushFront links head node) node grown := by
  obtain ⟨nodes, linked, exact⟩ := list
  have absent : node ∉ nodes := fun visited => fresh ((exact node).mp visited)
  refine ⟨node :: nodes, well_linked_push linked nonnull absent, fun each => ?_⟩
  rw [List.mem_cons, exact each, members each]

theorem back_linked_redirect {next prev : Pointer → Pointer} {start before : Pointer}
    {nodes : List Pointer} (after : Pointer) (forward : Segment next start nodes 0)
    (nodup : nodes.Nodup)
    (backward : BackLinked prev before nodes) :
    BackLinked (if start = 0 then prev else Function.update prev start after) after nodes := by
  cases nodes with
  | nil => trivial
  | cons first rest =>
      obtain ⟨rfl, nonnull, _⟩ := forward
      obtain ⟨absent, _⟩ := List.nodup_cons.mp nodup
      rw [if_neg nonnull]
      refine ⟨by simp, back_linked_congr backward.2 fun old visited => ?_⟩
      have different : old ≠ start := fun same => absent (same ▸ visited)
      exact Function.update_of_ne different _ _

theorem doubly_unlink {node : Pointer} {shrunk : Pointer → Prop}
    (list : Doubly links head member) (visited : member node)
    (members : ∀ each, shrunk each ↔ member each ∧ each ≠ node) :
    Doubly (unlink links node) (unlinkHead links head node) shrunk := by
  obtain ⟨nodes, linked, exact⟩ := list
  obtain ⟨before, after, rfl⟩ := List.append_of_mem ((exact node).mpr visited)
  obtain ⟨middle, forwardBefore, same, nonnull, forwardAfter⟩ :=
    (segment_append _ _ _ _ _).mp linked.forward
  obtain rfl : middle = node := same
  obtain ⟨backBefore, backNode, backAfter⟩ := (back_linked_append _ _ _ _).mp linked.backward
  have nodup := linked.nodup
  rw [List.nodup_append] at nodup
  obtain ⟨nodupBefore, nodupTail, apart⟩ := nodup
  obtain ⟨absentAfter, nodupAfter⟩ := List.nodup_cons.mp nodupTail
  have absentBefore : middle ∉ before := fun inside => apart _ inside _ (by simp) rfl
  have memberShrunk : ∀ each, each ∈ before ++ after ↔ shrunk each := by
    intro each
    rw [members each, ← exact each]
    simp only [List.mem_append, List.mem_cons]
    constructor
    · rintro (inside | inside)
      · exact ⟨Or.inl inside, fun same => absentBefore (same ▸ inside)⟩
      · exact ⟨Or.inr (Or.inr inside), fun same => absentAfter (same ▸ inside)⟩
    · rintro ⟨inside | inside | inside, different⟩
      · exact Or.inl inside
      · exact absurd inside different
      · exact Or.inr inside
  have nodupShrunk : (before ++ after).Nodup :=
    List.nodup_append.mpr ⟨nodupBefore, nodupAfter, fun left inLeft right inRight =>
      apart left inLeft right (by simp [inRight])⟩
  refine ⟨before ++ after, ⟨?_, ?_, nodupShrunk⟩, memberShrunk⟩
  · rcases List.eq_nil_or_concat' before with rfl | ⟨front, last, rfl⟩
    · have first : links.prev middle = 0 := by simpa using backNode
      simpa [unlink, unlinkHead, first] using forwardAfter
    · have back : links.prev middle = last := by simpa using backNode
      obtain ⟨arrived, frontSegment, sameLast, lastNonnull, _⟩ :=
        (segment_append _ _ _ _ _).mp forwardBefore
      obtain rfl : arrived = last := sameLast
      have lastAbsentFront : arrived ∉ front := fun inside =>
        (List.nodup_append.mp nodupBefore).2.2 _ inside _ (by simp) rfl
      have lastAbsentAfter : arrived ∉ after := fun inside =>
        apart arrived (by simp) arrived (by simp [inside]) rfl
      have headSame : unlinkHead links head middle = head := by
        simp [unlinkHead, back, lastNonnull]
      have nextSame : (unlink links middle).next =
          Function.update links.next arrived (links.next middle) := by
        simp [unlink, back, lastNonnull]
      rw [headSame, nextSame, segment_append]
      refine ⟨links.next middle, ?_, ?_⟩
      · rw [segment_append]
        refine ⟨arrived, segment_congr frontSegment fun old inside => ?_, rfl, lastNonnull, ?_⟩
        · have different : old ≠ arrived := fun same => lastAbsentFront (same ▸ inside)
          exact Function.update_of_ne different _ _
        · simp
      · refine segment_congr forwardAfter fun old inside => ?_
        have different : old ≠ arrived := fun same => lastAbsentAfter (same ▸ inside)
        exact Function.update_of_ne different _ _
  · rw [back_linked_append]
    constructor
    · refine back_linked_congr backBefore fun old inside => ?_
      by_cases last : links.next middle = 0
      · simp [unlink, last]
      · have inAfter : links.next middle ∈ after := by
          cases after with
          | nil => exact absurd forwardAfter last
          | cons first rest => simp [forwardAfter.1]
        have different : old ≠ links.next middle := fun same =>
          apart old inside old (by simp [same, inAfter]) rfl
        simp [unlink, last, different]
    · have redirected := back_linked_redirect (links.prev middle) forwardAfter nodupAfter backAfter
      rw [backNode] at redirected
      simpa [unlink, backNode] using redirected

theorem doubly_pop {shrunk : Pointer → Prop} (list : Doubly links head member)
    (nonnull : head ≠ 0) (members : ∀ each, shrunk each ↔ member each ∧ each ≠ head) :
    Doubly (popFront links head) (links.next head) shrunk := by
  obtain ⟨nodes, linked, exact⟩ := list
  cases nodes with
  | nil => exact absurd linked.forward nonnull
  | cons first rest =>
      obtain ⟨rfl, _, forward⟩ := linked.forward
      obtain ⟨absent, nodup⟩ := List.nodup_cons.mp linked.nodup
      refine ⟨rest, ⟨?_, ?_, nodup⟩, fun each => ?_⟩
      · refine segment_congr forward fun old visited => ?_
        have different : old ≠ head := fun same => absent (same ▸ visited)
        exact Function.update_of_ne different _ _
      · have redirected := back_linked_redirect 0 forward nodup linked.backward.2
        refine back_linked_congr redirected fun old visited => ?_
        have different : old ≠ head := fun same => absent (same ▸ visited)
        simp [popFront, different]
      · rw [members each, ← exact each, List.mem_cons]
        constructor
        · intro visited
          exact ⟨Or.inr visited, fun same => absent (same ▸ visited)⟩
        · rintro ⟨same | visited, different⟩
          · exact absurd same different
          · exact visited

@[simp] theorem pop_front_next_head (links : Links Pointer) (head : Pointer) :
    (popFront links head).next head = 0 := by
  simp [popFront]

@[simp] theorem pop_front_prev_head (links : Links Pointer) (head : Pointer) :
    (popFront links head).prev head = 0 := by
  simp [popFront]

omit [DecidableEq Pointer] in
theorem doubly_neighbours (list : Doubly links head member) {node : Pointer}
    (visited : member node) :
    (links.next node ≠ 0 → member (links.next node)) ∧
      (links.prev node ≠ 0 → member (links.prev node)) := by
  obtain ⟨nodes, linked, exact⟩ := list
  obtain ⟨before, after, rfl⟩ := List.append_of_mem ((exact node).mpr visited)
  obtain ⟨middle, _, same, _, forwardAfter⟩ := (segment_append _ _ _ _ _).mp linked.forward
  have backNode := ((back_linked_append _ _ _ _).mp linked.backward).2.1
  constructor
  · intro nonnull
    cases after with
    | nil => exact absurd forwardAfter nonnull
    | cons first rest => exact (exact _).mp (by simp [forwardAfter.1])
  · intro nonnull
    rcases List.eq_nil_or_concat' before with rfl | ⟨front, last, rfl⟩
    · exact absurd backNode nonnull
    · have back : links.prev node = last := by simpa using backNode
      exact (exact _).mp (by simp [back])

/-! ## Frame

A memory holds many lists at once. Operating on one of them leaves the links of
every pointer outside that list alone. -/

theorem push_front_outside (list : Doubly links head member) {node pointer : Pointer}
    (notNode : pointer ≠ node) (outside : ¬member pointer) :
    (pushFront links head node).next pointer = links.next pointer ∧
      (pushFront links head node).prev pointer = links.prev pointer := by
  by_cases empty : head = 0
  · simp [pushFront, empty, notNode]
  · have notHead : pointer ≠ head := fun same => outside (same ▸ doubly_head list empty)
    simp [pushFront, empty, notNode, notHead]

theorem pop_front_outside (list : Doubly links head member) (nonnull : head ≠ 0)
    {pointer : Pointer} (outside : ¬member pointer) :
    (popFront links head).next pointer = links.next pointer ∧
      (popFront links head).prev pointer = links.prev pointer := by
  have first := doubly_head list nonnull
  have notHead : pointer ≠ head := fun same => outside (same ▸ first)
  by_cases single : links.next head = 0
  · simp [popFront, single, notHead]
  · have second := (doubly_neighbours list first).1 single
    have notSecond : pointer ≠ links.next head := fun same => outside (same ▸ second)
    simp [popFront, single, notHead, notSecond]

theorem unlink_outside (list : Doubly links head member) {node pointer : Pointer}
    (visited : member node) (outside : ¬member pointer) :
    (unlink links node).next pointer = links.next pointer ∧
      (unlink links node).prev pointer = links.prev pointer := by
  obtain ⟨after, before⟩ := doubly_neighbours list visited
  have notPrev : links.prev node ≠ 0 → pointer ≠ links.prev node := fun nonnull same =>
    outside (same ▸ before nonnull)
  have notNext : links.next node ≠ 0 → pointer ≠ links.next node := fun nonnull same =>
    outside (same ▸ after nonnull)
  by_cases first : links.prev node = 0 <;> by_cases last : links.next node = 0
  · simp [unlink, first, last]
  · simp [unlink, first, last, notNext last]
  · simp [unlink, first, last, notPrev first]
  · simp [unlink, first, last, notPrev first, notNext last]

end Lzmalloc.DoublyLinked
