import Lzmalloc.SlabBlocks

/-!
# Moving slabs between the lists of a bin

A slab is the current slab of its bin or on one of its two lists. Taking it off
a list, pushing it onto one and promoting the head of the partial list are
proved on the lists first, where a slab on no list counts as current; the
operations of `tlh.c` combine them.
-/

namespace Lzmalloc.BinLists

open HeapState PointerChain DoublyLinked ThreadHeap HeapInvariant

set_option autoImplicit false

variable {mode : Mode} {s : State} {g : Ghost} {kind : Nat → BlockKind} {bin : Nat → BinPlace}
  {bins moved : Nat → Nat → Bin} {links : Links Nat} {tlh classIdx chunk : Nat} {place : BinPlace}

/-! ## Membership -/

theorem in_bin_descriptor :
    InBin kind bin tlh classIdx place (chunk + 64) ↔
      kind chunk = .slab tlh classIdx ∧ bin chunk = place := by
  constructor
  · rintro ⟨other, same, isSlab, there⟩
    obtain rfl : chunk = other := by omega
    exact ⟨isSlab, there⟩
  · rintro ⟨isSlab, there⟩
    exact ⟨chunk, rfl, isSlab, there⟩

theorem in_bin_unique {slab heap size : Nat} {other : BinPlace}
    (first : InBin kind bin tlh classIdx place slab)
    (second : InBin kind bin heap size other slab) :
    heap = tlh ∧ size = classIdx ∧ other = place := by
  obtain ⟨base, rfl, isSlab, there⟩ := first
  obtain ⟨isSlabToo, thereToo⟩ := in_bin_descriptor.mp second
  obtain ⟨rfl, rfl⟩ := BlockKind.slab_unique isSlab isSlabToo
  exact ⟨rfl, rfl, thereToo.symm.trans there⟩

theorem in_bin_elsewhere {role : Nat → BlockKind} {after : Nat → BinPlace}
    {slab heap size : Nat}
    (same : ∀ other, other ≠ chunk → role other = kind other ∧ after other = bin other)
    (elsewhere : slab ≠ chunk + 64) :
    InBin role after heap size place slab ↔ InBin kind bin heap size place slab := by
  have unchanged : ∀ base, slab = base + 64 →
      (role base = .slab heap size ∧ after base = place ↔
        kind base = .slab heap size ∧ bin base = place) := by
    rintro base rfl
    obtain ⟨roles, places⟩ := same base (by omega)
    rw [roles, places]
  exact exists_congr fun base => and_congr_right fun position => unchanged base position

theorem in_bin_moved {slab heap size : Nat} {other : BinPlace} (elsewhere : slab ≠ chunk + 64) :
    InBin kind (Function.update bin chunk other) heap size place slab ↔
      InBin kind bin heap size place slab :=
  in_bin_elsewhere (fun _ different => ⟨rfl, Function.update_of_ne different _ _⟩) elsewhere

def Unlisted (kind : Nat → BlockKind) (bin : Nat → BinPlace) (slab : Nat) : Prop :=
  ∀ tlh classIdx place, place ≠ .inCurrent → ¬InBin kind bin tlh classIdx place slab

theorem unlisted_current {slab : Nat} (current : InBin kind bin tlh classIdx .inCurrent slab) :
    Unlisted kind bin slab := fun _ _ _ listed inside =>
  listed (in_bin_unique current inside).2.2

theorem unlisted_of_current (there : bin chunk = .inCurrent) : Unlisted kind bin (chunk + 64) :=
  fun _ _ _ listed inside => listed ((in_bin_descriptor.mp inside).2.symm.trans there)

theorem unlisted_moved {slab : Nat} (elsewhere : slab ≠ chunk + 64) (other : BinPlace)
    (unlisted : Unlisted kind bin slab) :
    Unlisted kind (Function.update bin chunk other) slab := fun tlh classIdx place listed inside =>
  unlisted tlh classIdx place listed ((in_bin_moved elsewhere).mp inside)

/-! ## List heads -/

def withHead (bin : Bin) (place : BinPlace) (head : Nat) : Bin :=
  match place with
  | .inCurrent => { bin with currentSlab := head }
  | .inPartial => { bin with partialList := head }
  | .inFull => { bin with fullList := head }

def putHead (bins : Nat → Nat → Bin) (tlh classIdx : Nat) (place : BinPlace) (head : Nat) :
    Nat → Nat → Bin :=
  Function.update bins tlh
    (Function.update (bins tlh) classIdx (withHead (bins tlh classIdx) place head))

theorem bin_head_put (bins : Nat → Nat → Bin) (tlh classIdx : Nat) (place : BinPlace)
    (head heap size : Nat) (other : BinPlace) :
    binHead (putHead bins tlh classIdx place head heap size) other =
      if heap = tlh ∧ size = classIdx ∧ other = place then head
      else binHead (bins heap size) other := by
  by_cases sameHeap : heap = tlh
  · subst sameHeap
    by_cases sameSize : size = classIdx
    · subst sameSize
      cases place <;> cases other <;> simp [putHead, withHead, binHead]
    · simp [putHead, sameSize]
  · simp [putHead, sameHeap]

/-! ## List surgery -/

theorem list_inv_unlink (lists : ListInv bins links kind bin)
    (here : kind chunk = .slab tlh classIdx) (listed : bin chunk ≠ .inCurrent) :
    ListInv
      (putHead bins tlh classIdx (bin chunk)
        (unlinkHead links (binHead (bins tlh classIdx) (bin chunk)) (chunk + 64)))
      (unlink links (chunk + 64)) kind (Function.update bin chunk .inCurrent) := by
  have list := lists tlh classIdx (bin chunk) listed
  have visited : InBin kind bin tlh classIdx (bin chunk) (chunk + 64) :=
    in_bin_descriptor.mpr ⟨here, rfl⟩
  intro heap size other notCurrent
  rw [bin_head_put]
  by_cases target : heap = tlh ∧ size = classIdx ∧ other = bin chunk
  · obtain ⟨rfl, rfl, rfl⟩ := target
    rw [if_pos ⟨rfl, rfl, rfl⟩]
    refine doubly_unlink list visited fun each => ?_
    by_cases same : each = chunk + 64
    · simp [same, in_bin_descriptor, notCurrent.symm]
    · simp [in_bin_moved same, same]
  · rw [if_neg target]
    have outside : ∀ each, InBin kind bin heap size other each →
        ¬InBin kind bin tlh classIdx (bin chunk) each := fun each first second =>
      target (in_bin_unique second first)
    refine doubly_congr (lists heap size other notCurrent) ?_ ?_ fun each => ?_
    · intro each inside
      exact (unlink_outside list visited (outside each inside)).1
    · intro each inside
      exact (unlink_outside list visited (outside each inside)).2
    · by_cases same : each = chunk + 64
      · subst same
        refine iff_of_false ?_ fun inside => outside _ inside visited
        simp [in_bin_descriptor, notCurrent.symm]
      · exact in_bin_moved same

theorem list_inv_push (lists : ListInv bins links kind bin)
    (here : kind chunk = .slab tlh classIdx) (unlisted : bin chunk = .inCurrent)
    (listed : place ≠ .inCurrent) :
    ListInv (putHead bins tlh classIdx place (chunk + 64))
      (pushFront links (binHead (bins tlh classIdx) place) (chunk + 64)) kind
      (Function.update bin chunk place) := by
  have list := lists tlh classIdx place listed
  have absent : ∀ heap size other, other ≠ .inCurrent →
      ¬InBin kind bin heap size other (chunk + 64) := by
    intro heap size other notCurrent inside
    exact notCurrent ((in_bin_descriptor.mp inside).2.symm.trans unlisted)
  intro heap size other notCurrent
  rw [bin_head_put]
  by_cases target : heap = tlh ∧ size = classIdx ∧ other = place
  · obtain ⟨rfl, rfl, rfl⟩ := target
    rw [if_pos ⟨rfl, rfl, rfl⟩]
    refine doubly_push list (by omega) (absent heap size other notCurrent) fun each => ?_
    by_cases same : each = chunk + 64
    · simp [same, in_bin_descriptor, here]
    · simp [in_bin_moved same, same]
  · rw [if_neg target]
    have outside : ∀ each, InBin kind bin heap size other each →
        each ≠ chunk + 64 ∧ ¬InBin kind bin tlh classIdx place each := by
      intro each inside
      refine ⟨?_, fun second => target (in_bin_unique second inside)⟩
      rintro rfl
      exact absent heap size other notCurrent inside
    refine doubly_congr (lists heap size other notCurrent) ?_ ?_ fun each => ?_
    · intro each inside
      exact (push_front_outside list (outside each inside).1 (outside each inside).2).1
    · intro each inside
      exact (push_front_outside list (outside each inside).1 (outside each inside).2).2
    · by_cases same : each = chunk + 64
      · subst same
        refine iff_of_false ?_ (absent heap size other notCurrent)
        rw [in_bin_descriptor, Function.update_self]
        rintro ⟨isSlab, samePlace⟩
        obtain ⟨rfl, rfl⟩ := BlockKind.slab_unique here isSlab
        exact target ⟨rfl, rfl, samePlace.symm⟩
      · exact in_bin_moved same

theorem list_inv_pop (lists : ListInv bins links kind bin)
    (here : kind chunk = .slab tlh classIdx) (listed : bin chunk ≠ .inCurrent)
    (first : binHead (bins tlh classIdx) (bin chunk) = chunk + 64) :
    ListInv (putHead bins tlh classIdx (bin chunk) (links.next (chunk + 64)))
      (popFront links (chunk + 64)) kind (Function.update bin chunk .inCurrent) := by
  have list := lists tlh classIdx (bin chunk) listed
  rw [first] at list
  have nonnull : chunk + 64 ≠ 0 := by omega
  intro heap size other notCurrent
  rw [bin_head_put]
  by_cases target : heap = tlh ∧ size = classIdx ∧ other = bin chunk
  · obtain ⟨rfl, rfl, rfl⟩ := target
    rw [if_pos ⟨rfl, rfl, rfl⟩]
    refine doubly_pop list nonnull fun each => ?_
    by_cases same : each = chunk + 64
    · simp [same, in_bin_descriptor, notCurrent.symm]
    · simp [in_bin_moved same, same]
  · rw [if_neg target]
    have outside : ∀ each, InBin kind bin heap size other each →
        ¬InBin kind bin tlh classIdx (bin chunk) each := fun each inside second =>
      target (in_bin_unique second inside)
    refine doubly_congr (lists heap size other notCurrent) ?_ ?_ fun each => ?_
    · intro each inside
      exact (pop_front_outside list nonnull (outside each inside)).1
    · intro each inside
      exact (pop_front_outside list nonnull (outside each inside)).2
    · by_cases same : each = chunk + 64
      · subst same
        refine iff_of_false ?_ fun inside =>
          outside _ inside (in_bin_descriptor.mpr ⟨here, rfl⟩)
        simp [in_bin_descriptor, notCurrent.symm]
      · exact in_bin_moved same

theorem list_inv_current {head : Nat} (lists : ListInv bins links kind bin) :
    ListInv (putHead bins tlh classIdx .inCurrent head) links kind bin := by
  intro heap size other notCurrent
  rw [bin_head_put, if_neg fun target => notCurrent target.2.2]
  exact lists heap size other notCurrent

/-- A slab on no list, before and after, may change its role. -/
theorem list_inv_role {role : Nat → BlockKind} {after : Nat → BinPlace}
    (lists : ListInv bins links kind bin) (unlisted : Unlisted kind bin (chunk + 64))
    (unlistedAfter : Unlisted role after (chunk + 64))
    (same : ∀ other, other ≠ chunk → role other = kind other ∧ after other = bin other) :
    ListInv bins links role after := by
  intro heap size other notCurrent
  refine doubly_congr (lists heap size other notCurrent) (fun _ _ => rfl) (fun _ _ => rfl) ?_
  intro slab
  by_cases here : slab = chunk + 64
  · subst here
    exact iff_of_false (unlistedAfter heap size other notCurrent)
      (unlisted heap size other notCurrent)
  · exact in_bin_elsewhere same here

/-! Slabs on no list keep their links. -/

theorem unlink_unlisted (lists : ListInv bins links kind bin)
    (here : kind chunk = .slab tlh classIdx) (listed : bin chunk ≠ .inCurrent) {slab : Nat}
    (unlisted : Unlisted kind bin slab) :
    (unlink links (chunk + 64)).next slab = links.next slab ∧
      (unlink links (chunk + 64)).prev slab = links.prev slab :=
  unlink_outside (lists tlh classIdx (bin chunk) listed) (in_bin_descriptor.mpr ⟨here, rfl⟩)
    (unlisted tlh classIdx (bin chunk) listed)

theorem push_front_unlisted (tlh classIdx : Nat) (lists : ListInv bins links kind bin)
    (listed : place ≠ .inCurrent)
    {slab : Nat} (different : slab ≠ chunk + 64) (unlisted : Unlisted kind bin slab) :
    (pushFront links (binHead (bins tlh classIdx) place) (chunk + 64)).next slab =
        links.next slab ∧
      (pushFront links (binHead (bins tlh classIdx) place) (chunk + 64)).prev slab =
        links.prev slab :=
  push_front_outside (lists tlh classIdx place listed) different
    (unlisted tlh classIdx place listed)

theorem pop_front_unlisted (tlh classIdx : Nat) (lists : ListInv bins links kind bin)
    (listed : place ≠ .inCurrent)
    (first : binHead (bins tlh classIdx) place = chunk + 64) {slab : Nat}
    (unlisted : Unlisted kind bin slab) :
    (popFront links (chunk + 64)).next slab = links.next slab ∧
      (popFront links (chunk + 64)).prev slab = links.prev slab := by
  have list := lists tlh classIdx place listed
  rw [first] at list
  exact pop_front_outside list (by omega) (unlisted tlh classIdx place listed)

/-! ## Current slabs -/

theorem current_at_congr {currentSlab : Nat} {other : Links Nat} {member same : Nat → Prop}
    (at_ : CurrentAt currentSlab links member)
    (agree : ∀ slab, member slab →
      other.next slab = links.next slab ∧ other.prev slab = links.prev slab)
    (members : ∀ slab, same slab ↔ member slab) : CurrentAt currentSlab other same := by
  refine ⟨fun slab => (members slab).trans (at_.current slab), fun slab inside => ?_⟩
  have old := (members slab).mp inside
  rw [(agree slab old).1, (agree slab old).2]
  exact at_.unlinked slab old

theorem current_slab_put {head heap size : Nat} (listed : place ≠ .inCurrent) :
    (putHead bins tlh classIdx place head heap size).currentSlab =
      (bins heap size).currentSlab := by
  have same := bin_head_put bins tlh classIdx place head heap size .inCurrent
  rw [if_neg fun target => listed target.2.2.symm] at same
  exact same

theorem core_current (core : Core mode s g) (here : g.kind chunk = .slab tlh classIdx) :
    g.bin chunk = .inCurrent ↔ (s.bins tlh classIdx).currentSlab = chunk + 64 := by
  have member := (core.current tlh classIdx).current (chunk + 64)
  rw [in_bin_descriptor] at member
  constructor
  · intro there
    exact (member.mp ⟨here, there⟩).2.symm
  · intro same
    exact (member.mpr ⟨by omega, same.symm⟩).2

theorem core_current_slab (core : Core mode s g) (present : (s.bins tlh classIdx).currentSlab ≠ 0) :
    ∃ chunk, (s.bins tlh classIdx).currentSlab = chunk + 64 ∧
      g.kind chunk = .slab tlh classIdx ∧ g.bin chunk = .inCurrent :=
  ((core.current tlh classIdx).current _).mpr ⟨present, rfl⟩

theorem core_partial_slab (core : Core mode s g) (present : (s.bins tlh classIdx).partialList ≠ 0) :
    ∃ chunk, (s.bins tlh classIdx).partialList = chunk + 64 ∧
      g.kind chunk = .slab tlh classIdx ∧ g.bin chunk = .inPartial := by
  have list := core.lists tlh classIdx .inPartial (by simp)
  obtain ⟨chunk, head, isSlab, there⟩ := doubly_head list present
  exact ⟨chunk, head, isSlab, there⟩

theorem core_lists {after : Links Nat} (core : Core mode s g)
    (lists : ListInv moved after g.kind bin) (current : CurrentInv moved after g.kind bin) :
    Core mode { s with bins := moved, slabLinks := after } { g with bin := bin } :=
  { core with lists := lists, current := current }

/-! ## Rescue -/

theorem lz_tlh_rescue_from_full_eq (core : Core mode s g)
    (here : g.kind chunk = .slab tlh classIdx) (there : g.bin chunk ≠ .inCurrent) :
    lzTlhRescueFromFull s tlh (chunk + 64) =
      { s with
        bins := putHead
          (putHead s.bins tlh classIdx .inFull
            (unlinkHead s.slabLinks (s.bins tlh classIdx).fullList (chunk + 64)))
          tlh classIdx .inPartial (chunk + 64)
        slabLinks := pushFront (unlink s.slabLinks (chunk + 64)) (s.bins tlh classIdx).partialList
          (chunk + 64) } := by
  have notCurrent : chunk + 64 ≠ (s.bins tlh classIdx).currentSlab := fun same =>
    there ((core_current core here).mpr same.symm)
  have sizeClass := (core.slabs chunk tlh classIdx here).sizeClass
  simp [lzTlhRescueFromFull, sizeClass, notCurrent, setBin, putHead, withHead]

theorem core_rescue (core : Core mode s g) (here : g.kind chunk = .slab tlh classIdx)
    (there : g.bin chunk = .inFull) :
    Core mode (lzTlhRescueFromFull s tlh (chunk + 64))
      { g with bin := Function.update g.bin chunk .inPartial } := by
  have listed : g.bin chunk ≠ .inCurrent := by simp [there]
  -- the slab leaves the full list first; in between it is on no list
  have unlinked := list_inv_unlink core.lists here listed
  have pushed := list_inv_push unlinked here (by simp) (by simp : BinPlace.inPartial ≠ .inCurrent)
  rw [there, bin_head_put, Function.update_idem] at pushed
  rw [lz_tlh_rescue_from_full_eq core here listed]
  refine core_lists core (by simpa [binHead] using pushed) ?_
  intro heap size
  rw [current_slab_put, current_slab_put]
  · refine current_at_congr (core.current heap size) ?_ ?_
    · intro slab current
      have notSlab : slab ≠ chunk + 64 := by
        rintro rfl
        exact listed (in_bin_descriptor.mp current).2
      have unlisted := unlisted_current current
      have first := unlink_unlisted core.lists here listed unlisted
      have second := push_front_unlisted tlh classIdx unlinked
        (by simp : BinPlace.inPartial ≠ .inCurrent) notSlab
        (unlisted_moved notSlab .inCurrent unlisted)
      rw [there, bin_head_put, if_neg (by simp)] at second
      exact ⟨second.1.trans first.1, second.2.trans first.2⟩
    · intro slab
      by_cases same : slab = chunk + 64
      · subst same
        simp [in_bin_descriptor, there]
      · exact in_bin_moved same
  · simp
  · simp

/-! ## Leaving the bin

An empty slab leaves its bin on the way to destruction. Its chunk has no role
afterwards, so the lists are stated for the kinds after that. -/

theorem unlink_from_bin_eq (core : Core mode s g) (here : g.kind chunk = .slab tlh classIdx)
    (there : g.bin chunk = .inPartial) :
    unlinkFromBin s tlh (chunk + 64) =
      { s with
        bins := putHead s.bins tlh classIdx .inPartial
          (unlinkHead s.slabLinks (s.bins tlh classIdx).partialList (chunk + 64))
        slabLinks := unlink s.slabLinks (chunk + 64) } := by
  have sizeClass := (core.slabs chunk tlh classIdx here).sizeClass
  have list := core.lists tlh classIdx .inPartial (by simp)
  by_cases first : s.slabLinks.prev (chunk + 64) = 0
  · have head : (s.bins tlh classIdx).partialList = chunk + 64 :=
      doubly_first list (in_bin_descriptor.mpr ⟨here, there⟩) first
    simp [unlinkFromBin, sizeClass, first, head, setBin, putHead, withHead, unlinkHead]
  · simp [unlinkFromBin, sizeClass, first, setBin, putHead, withHead, unlinkHead]

theorem promote_partial_eq (s : State) (tlh classIdx : Nat) :
    promotePartial s tlh classIdx =
      { s with
        bins := putHead
          (putHead s.bins tlh classIdx .inPartial
            (s.slabLinks.next (s.bins tlh classIdx).partialList))
          tlh classIdx .inCurrent (s.bins tlh classIdx).partialList
        slabLinks := popFront s.slabLinks (s.bins tlh classIdx).partialList } := by
  simp [promotePartial, setBin, putHead, withHead]

theorem retire_current_eq (present : (s.bins tlh classIdx).currentSlab ≠ 0) :
    retireCurrent s tlh classIdx =
      { s with
        bins := putHead s.bins tlh classIdx .inFull (s.bins tlh classIdx).currentSlab
        slabLinks := pushFront s.slabLinks (s.bins tlh classIdx).fullList
          (s.bins tlh classIdx).currentSlab } := by
  simp [retireCurrent, present, setBin, putHead, withHead]

theorem unlink_from_bin_lists (core : Core mode s g) (here : g.kind chunk = .slab tlh classIdx)
    (there : g.bin chunk = .inPartial) :
    ListInv (unlinkFromBin s tlh (chunk + 64)).bins (unlinkFromBin s tlh (chunk + 64)).slabLinks
        (Function.update g.kind chunk .loose) g.bin ∧
      CurrentInv (unlinkFromBin s tlh (chunk + 64)).bins
        (unlinkFromBin s tlh (chunk + 64)).slabLinks
        (Function.update g.kind chunk .loose) g.bin := by
  have listed : g.bin chunk ≠ .inCurrent := by simp [there]
  have unlinked := list_inv_unlink core.lists here listed
  have gone : ∀ heap size place,
      ¬InBin (Function.update g.kind chunk .loose) g.bin heap size place (chunk + 64) := by
    intro heap size place
    simp [in_bin_descriptor]
  rw [unlink_from_bin_eq core here there]
  constructor
  · rw [there] at unlinked
    refine list_inv_role unlinked (unlisted_of_current (by simp))
      (fun heap size place _ => gone heap size place) fun other different => ?_
    simp [different]
  · intro heap size
    rw [current_slab_put (by simp)]
    refine current_at_congr (core.current heap size) ?_ fun slab => ?_
    · intro slab current
      exact unlink_unlisted core.lists here listed (unlisted_current current)
    · by_cases same : slab = chunk + 64
      · subst same
        refine iff_of_false (gone heap size .inCurrent) ?_
        simp [in_bin_descriptor, there]
      · exact in_bin_elsewhere (fun other different => by simp [different]) same

/-! ## Changing the current slab

While the current slab of one bin is being replaced only the other bins know
theirs, and no slab counts as the current one of this bin. -/

def CurrentElse (bins : Nat → Nat → Bin) (links : Links Nat) (kind : Nat → BlockKind)
    (bin : Nat → BinPlace) (tlh classIdx : Nat) : Prop :=
  ∀ heap size, ¬(heap = tlh ∧ size = classIdx) →
    CurrentAt (bins heap size).currentSlab links (InBin kind bin heap size .inCurrent)

def Vacant (kind : Nat → BlockKind) (bin : Nat → BinPlace) (tlh classIdx : Nat) : Prop :=
  ∀ chunk, kind chunk = .slab tlh classIdx → bin chunk ≠ .inCurrent

theorem in_bin_other {heap size : Nat} {after other : BinPlace}
    (here : kind chunk = .slab tlh classIdx) (apart : ¬(heap = tlh ∧ size = classIdx))
    (slab : Nat) :
    InBin kind (Function.update bin chunk after) heap size other slab ↔
      InBin kind bin heap size other slab := by
  by_cases same : slab = chunk + 64
  · subst same
    simp only [in_bin_descriptor]
    refine and_congr_right fun isSlab => ?_
    exact absurd (BlockKind.slab_unique here isSlab) apart
  · exact in_bin_moved same

theorem current_inv_install {slab : Nat} (others : CurrentElse bins links kind bin tlh classIdx)
    (member : ∀ each, InBin kind bin tlh classIdx .inCurrent each ↔ each = slab)
    (nonnull : slab ≠ 0) (free : links.next slab = 0 ∧ links.prev slab = 0) :
    CurrentInv (putHead bins tlh classIdx .inCurrent slab) links kind bin := by
  intro heap size
  have pointer := bin_head_put bins tlh classIdx .inCurrent slab heap size .inCurrent
  by_cases target : heap = tlh ∧ size = classIdx
  · obtain ⟨rfl, rfl⟩ := target
    rw [if_pos ⟨rfl, rfl, rfl⟩] at pointer
    refine ⟨fun each => ?_, fun each inside => ?_⟩
    · rw [member each, show (putHead bins heap size .inCurrent slab heap size).currentSlab = slab
        from pointer]
      constructor
      · rintro rfl
        exact ⟨nonnull, rfl⟩
      · exact fun both => both.2
    · rwa [(member each).mp inside]
  · rw [if_neg fun same => target ⟨same.1, same.2.1⟩] at pointer
    rw [show (putHead bins tlh classIdx .inCurrent slab heap size).currentSlab =
      (bins heap size).currentSlab from pointer]
    exact others heap size target

theorem promote_partial_lists (lists : ListInv s.bins s.slabLinks kind bin)
    (others : CurrentElse s.bins s.slabLinks kind bin tlh classIdx)
    (vacant : Vacant kind bin tlh classIdx) (here : kind chunk = .slab tlh classIdx)
    (there : bin chunk = .inPartial) (head : (s.bins tlh classIdx).partialList = chunk + 64) :
    ListInv (promotePartial s tlh classIdx).bins (promotePartial s tlh classIdx).slabLinks kind
        (Function.update bin chunk .inCurrent) ∧
      CurrentInv (promotePartial s tlh classIdx).bins (promotePartial s tlh classIdx).slabLinks
        kind (Function.update bin chunk .inCurrent) := by
  have listed : bin chunk ≠ .inCurrent := by simp [there]
  have first : binHead (s.bins tlh classIdx) (bin chunk) = chunk + 64 := by
    rw [there]
    exact head
  rw [promote_partial_eq, head]
  constructor
  · have popped := list_inv_pop lists here listed first
    rw [there] at popped
    exact list_inv_current popped
  · refine current_inv_install ?_ ?_ (by omega) (by simp)
    · intro heap size apart
      rw [current_slab_put (by simp)]
      refine current_at_congr (others heap size apart) ?_ (in_bin_other here apart)
      intro slab current
      exact pop_front_unlisted tlh classIdx lists listed first (unlisted_current current)
    · intro slab
      by_cases same : slab = chunk + 64
      · simp [same, in_bin_descriptor, here]
      · rw [in_bin_moved same]
        refine iff_of_false ?_ same
        rintro ⟨other, _, isSlab, current⟩
        exact vacant other isSlab current

def retired (kind : Nat → BlockKind) (bin : Nat → BinPlace) (tlh classIdx chunk : Nat) : BinPlace :=
  if kind chunk = .slab tlh classIdx ∧ bin chunk = .inCurrent then .inFull else bin chunk

theorem retired_vacant : Vacant kind (retired kind bin tlh classIdx) tlh classIdx := by
  intro chunk isSlab
  by_cases current : bin chunk = .inCurrent
  · simp [retired, isSlab, current]
  · simp [retired, current]

theorem retired_update (here : kind chunk = .slab tlh classIdx) (there : bin chunk = .inCurrent)
    (single : ∀ slab, InBin kind bin tlh classIdx .inCurrent slab → slab = chunk + 64) :
    retired kind bin tlh classIdx = Function.update bin chunk .inFull := by
  funext other
  by_cases same : other = chunk
  · simp [same, retired, here, there]
  · rw [Function.update_of_ne same, retired, if_neg]
    intro current
    have equal := single (other + 64) (in_bin_descriptor.mpr current)
    omega

theorem retire_current_lists (lists : ListInv s.bins s.slabLinks kind bin)
    (current : CurrentInv s.bins s.slabLinks kind bin) (tlh classIdx : Nat) :
    ListInv (retireCurrent s tlh classIdx).bins (retireCurrent s tlh classIdx).slabLinks kind
        (retired kind bin tlh classIdx) ∧
      CurrentElse (retireCurrent s tlh classIdx).bins (retireCurrent s tlh classIdx).slabLinks
        kind (retired kind bin tlh classIdx) tlh classIdx := by
  have here := (current tlh classIdx).current
  by_cases present : (s.bins tlh classIdx).currentSlab = 0
  · have unchanged : retired kind bin tlh classIdx = bin := by
      funext chunk
      rw [retired, if_neg]
      intro member
      have known := (here (chunk + 64)).mp (in_bin_descriptor.mpr member)
      omega
    have same : retireCurrent s tlh classIdx = s := by simp [retireCurrent, present]
    rw [unchanged, same]
    exact ⟨lists, fun heap size _ => current heap size⟩
  · obtain ⟨chunk, position, isSlab, there⟩ := (here _).mpr ⟨present, rfl⟩
    have single : ∀ slab, InBin kind bin tlh classIdx .inCurrent slab → slab = chunk + 64 :=
      fun slab member => ((here slab).mp member).2.trans position
    rw [retired_update isSlab there single, retire_current_eq present, position]
    have listed : BinPlace.inFull ≠ .inCurrent := by simp
    refine ⟨list_inv_push lists isSlab there listed, fun heap size apart => ?_⟩
    rw [current_slab_put listed]
    refine current_at_congr (current heap size) ?_ (in_bin_other isSlab apart)
    intro slab member
    refine push_front_unlisted tlh classIdx lists listed ?_ (unlisted_current member)
    rintro rfl
    exact apart (BlockKind.slab_unique isSlab (in_bin_descriptor.mp member).1)

end Lzmalloc.BinLists
