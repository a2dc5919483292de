import Lzmalloc.RadixTree
import Lzmalloc.StepSystem

/-!
# Racing threads on the radix tree

`lz_rtree_set`, `lz_rtree_clear` and `lz_rtree_get` at the grain of their atomic
accesses. A leaf is named by its address, so that a mapping may return the
address of a leaf that was discarded earlier. `versions` records the plain map
from block numbers to headers after every entry store; a lookup remembers which
versions were current when it started and when it returned.
-/

namespace Lzmalloc.RadixTreeRaces

open SizeClasses HeapState RadixTree StepSystem

set_option autoImplicit false

/-- Where a thread is in `lz_rtree_set` or `lz_rtree_get`. -/
inductive RtreePc where
  | idle
  | setLoad (chunkAddr metadata : Nat)
  | mapping (chunkAddr metadata : Nat)
  | exchanging (chunkAddr metadata newLeaf : Nat)
  | discarding (chunkAddr metadata newLeaf expected : Nat)
  | storing (chunkAddr metadata leaf : Nat)
  | getLoad (ptr since : Nat)
  | getEntry (ptr leaf since : Nat)

/-- A finished lookup with the versions current at its start and at its end. -/
structure Answer where
  ptr : Nat
  value : Nat
  since : Nat
  until_ : Nat

structure RtreeSys where
  /-- `g_rtree_root.leaves`. -/
  leaves : Nat → Nat
  entries : Nat → Nat → Nat
  mapped : Nat → Bool
  pc : Nat → RtreePc
  /-- The plain map after each entry store, by block number. -/
  versions : Nat → Nat → Nat
  now : Nat
  answers : List Answer

inductive RtreeAct where
  | set (thread chunkAddr metadata : Nat)
  | get (thread ptr : Nat)
  /-- The next step of the thread's call; `fresh` is the answer of `mmap`. -/
  | step (thread fresh : Nat)

def RtreeAct.thread : RtreeAct → Nat
  | .set thread _ _ => thread
  | .get thread _ => thread
  | .step thread _ => thread

def RtreeSys.at (s : RtreeSys) (thread : Nat) (pc : RtreePc) : RtreeSys :=
  { s with pc := Function.update s.pc thread pc }

/-- `lz_rtree_clear`. -/
def clear (thread chunkAddr : Nat) : RtreeAct := .set thread chunkAddr 0

def RtreeSys.answer (s : RtreeSys) (thread ptr value since : Nat) : RtreeSys :=
  { s.at thread .idle with answers := ⟨ptr, value, since, s.now⟩ :: s.answers }

/-- The release store into `leaf->entries`, which also makes the next version. -/
def RtreeSys.storeEntry (s : RtreeSys) (thread chunkAddr metadata leaf : Nat) : RtreeSys :=
  { s.at thread .idle with
    entries := Function.update s.entries leaf
      (Function.update (s.entries leaf) (rtreeL2 chunkAddr) metadata)
    versions := Function.update s.versions (s.now + 1)
      (Function.update (s.versions s.now) (chunkAddr / lzHugePageSize) metadata)
    now := s.now + 1 }

/-- The next atomic access of a thread inside a call. -/
def advance (s : RtreeSys) (thread fresh : Nat) : Option RtreeSys :=
  match s.pc thread with
  | .idle => none
  | .setLoad chunkAddr metadata =>
      let leaf := s.leaves (rtreeL1 chunkAddr)
      if leaf = 0 ∧ metadata = 0 then some (s.at thread .idle)
      else if leaf = 0 then some (s.at thread (.mapping chunkAddr metadata))
      else some (s.at thread (.storing chunkAddr metadata leaf))
  | .mapping chunkAddr metadata =>
      if fresh = 0 ∨ s.mapped fresh then none
      else some { s.at thread (.exchanging chunkAddr metadata fresh) with
        mapped := Function.update s.mapped fresh true
        entries := Function.update s.entries fresh fun _ => 0 }
  | .exchanging chunkAddr metadata newLeaf =>
      if s.leaves (rtreeL1 chunkAddr) = 0 then
        some { s.at thread (.storing chunkAddr metadata newLeaf) with
          leaves := Function.update s.leaves (rtreeL1 chunkAddr) newLeaf }
      else
        some (s.at thread
          (.discarding chunkAddr metadata newLeaf (s.leaves (rtreeL1 chunkAddr))))
  | .discarding chunkAddr metadata newLeaf expected =>
      some { s.at thread (.storing chunkAddr metadata expected) with
        mapped := Function.update s.mapped newLeaf false }
  | .storing chunkAddr metadata leaf => some (s.storeEntry thread chunkAddr metadata leaf)
  | .getLoad ptr since =>
      let leaf := s.leaves (rtreeL1 ptr)
      if leaf = 0 then some (s.answer thread ptr 0 since)
      else some (s.at thread (.getEntry ptr leaf since))
  | .getEntry ptr leaf since =>
      some (s.answer thread ptr (s.entries leaf (rtreeL2 ptr)) since)

def rtreeStep (s : RtreeSys) : RtreeAct → Option RtreeSys
  | .set thread chunkAddr metadata =>
      match s.pc thread with
      | .idle =>
          if chunkAddr < addressLimit then some (s.at thread (.setLoad chunkAddr metadata))
          else none
      | _ => none
  | .get thread ptr =>
      match s.pc thread with
      | .idle =>
          if ptr < addressLimit then some (s.at thread (.getLoad ptr s.now)) else none
      | _ => none
  | .step thread fresh => advance s thread fresh

def rtreeStart : RtreeSys where
  leaves := fun _ => 0
  entries := fun _ _ => 0
  mapped := fun _ => false
  pc := fun _ => .idle
  versions := fun _ _ => 0
  now := 0
  answers := []

/-- The tree the sequential model works on. -/
def RtreeSys.tree (s : RtreeSys) : Rtree := fun index =>
  if s.leaves index = 0 then none else some (s.entries (s.leaves index))

def RtreePc.own : RtreePc → Option Nat
  | .exchanging _ _ newLeaf => some newLeaf
  | .discarding _ _ newLeaf _ => some newLeaf
  | _ => none

def RtreePc.target : RtreePc → Option Nat
  | .setLoad chunkAddr _ => some chunkAddr
  | .mapping chunkAddr _ => some chunkAddr
  | .exchanging chunkAddr _ _ => some chunkAddr
  | .discarding chunkAddr _ _ _ => some chunkAddr
  | .storing chunkAddr _ _ => some chunkAddr
  | _ => none

/-- A leaf read from the root slot of an address. -/
def Published (s : RtreeSys) (address leaf : Nat) : Prop :=
  leaf ≠ 0 ∧ s.leaves (rtreeL1 address) = leaf

def PcOk (s : RtreeSys) : RtreePc → Prop
  | .idle => True
  | .setLoad chunkAddr _ => chunkAddr < addressLimit
  | .mapping chunkAddr _ => chunkAddr < addressLimit
  | .exchanging chunkAddr _ newLeaf =>
      chunkAddr < addressLimit ∧ newLeaf ≠ 0 ∧ ∀ place, s.entries newLeaf place = 0
  | .discarding chunkAddr _ _ expected => chunkAddr < addressLimit ∧ Published s chunkAddr expected
  | .storing chunkAddr _ leaf => chunkAddr < addressLimit ∧ Published s chunkAddr leaf
  | .getLoad ptr since => ptr < addressLimit ∧ since ≤ s.now
  | .getEntry ptr leaf since => ptr < addressLimit ∧ since ≤ s.now ∧ Published s ptr leaf

/-- The answer was current at some moment of the lookup. -/
def Answer.Current (s : RtreeSys) (answer : Answer) : Prop :=
  ∃ moment, answer.since ≤ moment ∧ moment ≤ answer.until_ ∧
    s.versions moment (answer.ptr / lzHugePageSize) = answer.value

structure RtreeInv (s : RtreeSys) : Prop where
  published : ∀ index, s.leaves index ≠ 0 → s.mapped (s.leaves index) = true
  distinct : ∀ index other, s.leaves index ≠ 0 → s.leaves index = s.leaves other → index = other
  map : ∀ address < addressLimit,
    lzRtreeGet s.tree address = s.versions s.now (address / lzHugePageSize)
  owned : ∀ thread leaf, (s.pc thread).own = some leaf →
    s.mapped leaf = true ∧ ∀ index, s.leaves index ≠ leaf
  rivals : ∀ thread rival leaf, (s.pc thread).own = some leaf → (s.pc rival).own = some leaf →
    thread = rival
  points : ∀ thread, PcOk s (s.pc thread)
  past : ∀ answer ∈ s.answers, answer.until_ ≤ s.now
  answers : ∀ answer ∈ s.answers, answer.Current s

theorem rtree_start_inv : RtreeInv rtreeStart := by
  refine ⟨nofun, nofun, ?_, nofun, nofun, fun _ => trivial, nofun, nofun⟩
  intro address _
  simp [rtreeStart, RtreeSys.tree, lzRtreeGet]

variable {s after : RtreeSys}

/-- Slots are only ever filled and own leaves are private, so what a thread
knows survives the steps of the others. -/
theorem pc_ok_frame {pc : RtreePc} (ok : PcOk s pc)
    (leaves : ∀ index, s.leaves index ≠ 0 → after.leaves index = s.leaves index)
    (entries : ∀ leaf, pc.own = some leaf → after.entries leaf = s.entries leaf)
    (now : s.now ≤ after.now) : PcOk after pc := by
  have kept : ∀ address leaf, Published s address leaf → Published after address leaf := by
    rintro address leaf ⟨nonzero, slot⟩
    exact ⟨nonzero, (leaves _ (by rw [slot]; exact nonzero)).trans slot⟩
  cases pc with
  | idle => trivial
  | setLoad chunkAddr metadata => exact ok
  | mapping chunkAddr metadata => exact ok
  | exchanging chunkAddr metadata newLeaf =>
      refine ⟨ok.1, ok.2.1, fun place => ?_⟩
      rw [entries newLeaf rfl]
      exact ok.2.2 place
  | discarding chunkAddr metadata newLeaf expected => exact ⟨ok.1, kept _ _ ok.2⟩
  | storing chunkAddr metadata leaf => exact ⟨ok.1, kept _ _ ok.2⟩
  | getLoad ptr since => exact ⟨ok.1, le_trans ok.2 now⟩
  | getEntry ptr leaf since => exact ⟨ok.1, le_trans ok.2.1 now, kept _ _ ok.2.2⟩

theorem points_update {thread : Nat} {pc : RtreePc}
    (pcs : after.pc = Function.update s.pc thread pc) (ok : PcOk after pc)
    (others : ∀ other, other ≠ thread → PcOk after (s.pc other)) :
    ∀ other, PcOk after (after.pc other) := by
  intro other
  rw [pcs]
  by_cases same : other = thread
  · rw [same, Function.update_self]
    exact ok
  · rw [Function.update_of_ne same]
    exact others other same

theorem own_update {pcs : Nat → RtreePc} {thread other leaf : Nat} {pc : RtreePc}
    (own : (Function.update pcs thread pc other).own = some leaf) :
    other = thread ∧ pc.own = some leaf ∨ other ≠ thread ∧ (pcs other).own = some leaf := by
  by_cases same : other = thread
  · subst same
    rw [Function.update_self] at own
    exact Or.inl ⟨rfl, own⟩
  · rw [Function.update_of_ne same] at own
    exact Or.inr ⟨same, own⟩

theorem own_kept {thread other leaf : Nat} {pc : RtreePc}
    (own : ∀ leaf, pc.own = some leaf → (s.pc thread).own = some leaf)
    (now : (Function.update s.pc thread pc other).own = some leaf) :
    (s.pc other).own = some leaf := by
  obtain ⟨rfl, mine⟩ | ⟨_, theirs⟩ := own_update now
  · exact own leaf mine
  · exact theirs

theorem tree_congr (leaves : ∀ index, after.leaves index = s.leaves index)
    (entries : ∀ index, s.leaves index ≠ 0 →
      after.entries (s.leaves index) = s.entries (s.leaves index)) : after.tree = s.tree := by
  funext index
  simp only [RtreeSys.tree, leaves]
  split
  · rfl
  · rename_i filled
    rw [entries index filled]

theorem inv_move (inv : RtreeInv s) {thread : Nat} {pc : RtreePc}
    (own : ∀ leaf, pc.own = some leaf → (s.pc thread).own = some leaf) (ok : PcOk s pc) :
    RtreeInv (s.at thread pc) := by
  refine ⟨inv.published, inv.distinct, inv.map, ?_, ?_, ?_, inv.past, inv.answers⟩
  · intro other leaf now
    exact inv.owned other leaf (own_kept own now)
  · intro other rival leaf now rivalNow
    exact inv.rivals other rival leaf (own_kept own now) (own_kept own rivalNow)
  · exact points_update rfl ok fun other _ => inv.points other

theorem inv_answer (inv : RtreeInv s) {thread ptr value since : Nat} (started : since ≤ s.now)
    (current : s.versions s.now (ptr / lzHugePageSize) = value) :
    RtreeInv (s.answer thread ptr value since) := by
  have moved : RtreeInv (s.at thread .idle) := inv_move inv nofun trivial
  refine ⟨moved.published, moved.distinct, moved.map, moved.owned, moved.rivals, moved.points,
    ?_, ?_⟩
  · intro answer member
    obtain rfl | earlier := List.mem_cons.mp member
    · exact le_rfl
    · exact inv.past answer earlier
  · intro answer member
    obtain rfl | earlier := List.mem_cons.mp member
    · exact ⟨s.now, started, le_rfl, current⟩
    · exact inv.answers answer earlier

theorem inv_map (inv : RtreeInv s) {thread chunkAddr metadata fresh : Nat}
    (bound : chunkAddr < addressLimit) (nonzero : fresh ≠ 0) (unmapped : s.mapped fresh = false) :
    RtreeInv { s.at thread (.exchanging chunkAddr metadata fresh) with
      mapped := Function.update s.mapped fresh true
      entries := Function.update s.entries fresh fun _ => 0 } := by
  have other : ∀ leaf, s.mapped leaf = true → leaf ≠ fresh := by
    rintro leaf mapped rfl
    rw [mapped] at unmapped
    cases unmapped
  have stays : ∀ leaf, s.mapped leaf = true → Function.update s.mapped fresh true leaf = true := by
    intro leaf mapped
    rw [Function.update_of_ne (other leaf mapped)]
    exact mapped
  have unpublished : ∀ index, s.leaves index ≠ fresh := by
    intro index slot
    exact other _ (inv.published index (by rw [slot]; exact nonzero)) slot
  refine ⟨fun index filled => stays _ (inv.published index filled), inv.distinct, ?_, ?_, ?_, ?_,
    inv.past, inv.answers⟩
  · intro address inside
    refine Eq.trans (congrArg (lzRtreeGet · address) ?_) (inv.map address inside)
    exact tree_congr (fun _ => rfl) fun index _ => Function.update_of_ne (unpublished index) ..
  · intro rival leaf own
    obtain ⟨_, mine⟩ | ⟨_, theirs⟩ := own_update own
    · cases mine
      exact ⟨Function.update_self .., unpublished⟩
    · have owned := inv.owned rival leaf theirs
      exact ⟨stays leaf owned.1, owned.2⟩
  · intro first second leaf own secondOwn
    obtain ⟨rfl, mine⟩ | ⟨_, theirs⟩ := own_update own
    · cases mine
      obtain ⟨rfl, _⟩ | ⟨_, secondTheirs⟩ := own_update secondOwn
      · rfl
      · exact absurd rfl (other _ (inv.owned second _ secondTheirs).1)
    · obtain ⟨rfl, secondMine⟩ | ⟨_, secondTheirs⟩ := own_update secondOwn
      · cases secondMine
        exact absurd rfl (other _ (inv.owned first _ theirs).1)
      · exact inv.rivals first second leaf theirs secondTheirs
  · refine points_update rfl ⟨bound, nonzero, fun place => ?_⟩ fun rival _ => ?_
    · simp only [Function.update_self]
    · refine pc_ok_frame (inv.points rival) (fun _ _ => rfl) (fun leaf own => ?_) le_rfl
      exact Function.update_of_ne (other leaf (inv.owned rival leaf own).1) ..

/-- The exchange that fills an empty slot. No lookup changes: the block's
answers were null before, and the published leaf holds only null. -/
theorem inv_publish (inv : RtreeInv s) {thread chunkAddr metadata newLeaf : Nat}
    (at_ : s.pc thread = .exchanging chunkAddr metadata newLeaf)
    (empty : s.leaves (rtreeL1 chunkAddr) = 0) :
    RtreeInv { s.at thread (.storing chunkAddr metadata newLeaf) with
      leaves := Function.update s.leaves (rtreeL1 chunkAddr) newLeaf } := by
  have mine : (s.pc thread).own = some newLeaf := by rw [at_]; rfl
  obtain ⟨mapped, unpublished⟩ := inv.owned thread newLeaf mine
  obtain ⟨bound, nonzero, zeroed⟩ : PcOk s (.exchanging chunkAddr metadata newLeaf) :=
    at_ ▸ inv.points thread
  have slots : ∀ index, Function.update s.leaves (rtreeL1 chunkAddr) newLeaf index = newLeaf ∧
      index = rtreeL1 chunkAddr ∨
      Function.update s.leaves (rtreeL1 chunkAddr) newLeaf index = s.leaves index ∧
        index ≠ rtreeL1 chunkAddr := by
    intro index
    by_cases same : index = rtreeL1 chunkAddr
    · subst same
      exact Or.inl ⟨Function.update_self .., rfl⟩
    · exact Or.inr ⟨Function.update_of_ne same .., same⟩
  have kept : ∀ index, s.leaves index ≠ 0 →
      Function.update s.leaves (rtreeL1 chunkAddr) newLeaf index = s.leaves index := by
    intro index filled
    refine Function.update_of_ne ?_ ..
    rintro rfl
    exact filled empty
  have own : ∀ leaf, (RtreePc.storing chunkAddr metadata newLeaf).own = some leaf →
      (s.pc thread).own = some leaf := nofun
  refine ⟨?_, ?_, ?_, ?_, ?_, ?_, inv.past, inv.answers⟩
  · intro index filled
    obtain ⟨value, _⟩ | ⟨value, _⟩ := slots index
    · simp only [value]
      exact mapped
    · simp only [value] at filled ⊢
      exact inv.published index filled
  · intro index other filled same
    simp only at filled same
    obtain ⟨value, rfl⟩ | ⟨value, _⟩ := slots index
    · obtain ⟨_, rfl⟩ | ⟨otherValue, _⟩ := slots other
      · rfl
      · rw [value, otherValue] at same
        exact absurd same.symm (unpublished other)
    · obtain ⟨otherValue, rfl⟩ | ⟨otherValue, _⟩ := slots other
      · rw [value, otherValue] at same
        exact absurd same (unpublished index)
      · rw [value] at filled same
        rw [otherValue] at same
        exact inv.distinct index other filled same
  · intro address inside
    refine Eq.trans ?_ (inv.map address inside)
    simp only [lzRtreeGet, RtreeSys.tree, RtreeSys.at]
    obtain ⟨value, same⟩ | ⟨value, _⟩ := slots (rtreeL1 address)
    · simp [same, empty, nonzero, zeroed]
    · simp only [value]
  · intro other leaf now
    obtain ⟨_, stale⟩ | ⟨different, theirs⟩ := own_update now
    · cases stale
    · have owned := inv.owned other leaf theirs
      refine ⟨owned.1, fun index slot => ?_⟩
      simp only at slot
      obtain ⟨value, _⟩ | ⟨value, _⟩ := slots index
      · rw [value] at slot
        exact different (inv.rivals other thread leaf theirs (slot ▸ mine))
      · rw [value] at slot
        exact owned.2 index slot
  · intro other rival leaf now rivalNow
    exact inv.rivals other rival leaf (own_kept own now) (own_kept own rivalNow)
  · refine points_update rfl ⟨bound, nonzero, Function.update_self ..⟩ fun other _ => ?_
    exact pc_ok_frame (inv.points other) kept (fun _ _ => rfl) le_rfl

theorem inv_discard (inv : RtreeInv s) {thread chunkAddr metadata newLeaf expected : Nat}
    (at_ : s.pc thread = .discarding chunkAddr metadata newLeaf expected) :
    RtreeInv { s.at thread (.storing chunkAddr metadata expected) with
      mapped := Function.update s.mapped newLeaf false } := by
  have mine : (s.pc thread).own = some newLeaf := by rw [at_]; rfl
  obtain ⟨_, unpublished⟩ := inv.owned thread newLeaf mine
  obtain ⟨bound, winner⟩ : PcOk s (.discarding chunkAddr metadata newLeaf expected) :=
    at_ ▸ inv.points thread
  have own : ∀ leaf, (RtreePc.storing chunkAddr metadata expected).own = some leaf →
      (s.pc thread).own = some leaf := nofun
  refine ⟨?_, inv.distinct, inv.map, ?_, ?_, ?_, inv.past, inv.answers⟩
  · intro index filled
    exact (Function.update_of_ne (unpublished index) ..).trans (inv.published index filled)
  · intro other leaf now
    obtain ⟨_, stale⟩ | ⟨different, theirs⟩ := own_update now
    · cases stale
    · have owned := inv.owned other leaf theirs
      have distinct : leaf ≠ newLeaf := by
        rintro rfl
        exact different (inv.rivals other thread leaf theirs mine)
      exact ⟨(Function.update_of_ne distinct ..).trans owned.1, owned.2⟩
  · intro other rival leaf now rivalNow
    exact inv.rivals other rival leaf (own_kept own now) (own_kept own rivalNow)
  · refine points_update rfl ⟨bound, winner⟩ fun other _ => ?_
    exact pc_ok_frame (inv.points other) (fun _ _ => rfl) (fun _ _ => rfl) le_rfl

/-- The tree after an entry store is that of the sequential store. -/
theorem tree_store {thread chunkAddr metadata leaf : Nat} (inv : RtreeInv s)
    (published : Published s chunkAddr leaf) :
    (s.storeEntry thread chunkAddr metadata leaf).tree =
      rtreeStore s.tree (s.entries leaf) chunkAddr metadata := by
  obtain ⟨nonzero, slot⟩ := published
  funext index
  by_cases same : index = rtreeL1 chunkAddr
  · subst same
    simp [RtreeSys.tree, RtreeSys.storeEntry, RtreeSys.at, rtreeStore, slot, nonzero]
  · simp only [RtreeSys.tree, RtreeSys.storeEntry, RtreeSys.at, rtreeStore,
      Function.update_of_ne same]
    by_cases filled : s.leaves index = 0
    · simp [filled]
    · have other : s.leaves index ≠ leaf := by
        intro clash
        exact same (inv.distinct index _ filled (clash.trans slot.symm))
      simp [filled, other]

theorem inv_store (inv : RtreeInv s) {thread chunkAddr metadata leaf : Nat}
    (at_ : s.pc thread = .storing chunkAddr metadata leaf) :
    RtreeInv (s.storeEntry thread chunkAddr metadata leaf) := by
  obtain ⟨bound, published⟩ : PcOk s (.storing chunkAddr metadata leaf) := at_ ▸ inv.points thread
  have own : ∀ leaf, RtreePc.idle.own = some leaf → (s.pc thread).own = some leaf := nofun
  -- Versions up to the present one are never rewritten.
  have older : ∀ moment ≤ s.now,
      (s.storeEntry thread chunkAddr metadata leaf).versions moment = s.versions moment := by
    intro moment past
    exact Function.update_of_ne (by omega) ..
  refine ⟨inv.published, inv.distinct, ?_, ?_, ?_, ?_, ?_, ?_⟩
  · intro address inside
    rw [tree_store inv published]
    have known : (s.tree (rtreeL1 chunkAddr)).getD (fun _ => 0) = s.entries leaf := by
      simp [RtreeSys.tree, published.2, published.1]
    rw [lz_rtree_get_store known inside bound, inv.map address inside]
    simp only [RtreeSys.storeEntry, Function.update_self, Function.update_apply, lzHugePageSize]
  · intro other leaf now
    exact inv.owned other leaf (own_kept own now)
  · intro other rival leaf now rivalNow
    exact inv.rivals other rival leaf (own_kept own now) (own_kept own rivalNow)
  · refine points_update rfl trivial fun other _ => ?_
    refine pc_ok_frame (inv.points other) (fun _ _ => rfl) (fun theirs own => ?_)
      (Nat.le_succ _)
    refine Function.update_of_ne ?_ ..
    rintro rfl
    exact (inv.owned other theirs own).2 _ published.2
  · intro answer member
    exact le_trans (inv.past answer member) (Nat.le_succ _)
  · intro answer member
    obtain ⟨moment, since, until_, value⟩ := inv.answers answer member
    refine ⟨moment, since, until_, ?_⟩
    have past := inv.past answer member
    exact (congrFun (older moment (by omega)) _).trans value

/-- What one step does to the plain map: nothing, unless it is the entry store
of a set, which writes the block of that set. -/
structure StepOk (s : RtreeSys) (action : RtreeAct) (after : RtreeSys) : Prop where
  inv : RtreeInv after
  slots : ∀ index, s.leaves index ≠ 0 → after.leaves index = s.leaves index
  elsewhere : ∀ block, (∀ chunkAddr, (s.pc action.thread).target = some chunkAddr →
      block ≠ chunkAddr / lzHugePageSize) →
    after.versions after.now block = s.versions s.now block

theorem advance_ok (inv : RtreeInv s) {thread fresh : Nat}
    (stepped : advance s thread fresh = some after) : StepOk s (.step thread fresh) after := by
  have ok := inv.points thread
  unfold advance at stepped
  cases at_ : s.pc thread with
  | idle => simp [at_] at stepped
  | setLoad chunkAddr metadata =>
      rw [at_] at ok
      simp only [at_] at stepped
      split at stepped
      · cases stepped
        exact ⟨inv_move inv (by simp [RtreePc.own]) trivial, fun _ _ => rfl, fun _ _ => rfl⟩
      · split at stepped
        · cases stepped
          exact ⟨inv_move inv (by simp [RtreePc.own]) ok, fun _ _ => rfl, fun _ _ => rfl⟩
        · rename_i filled
          cases stepped
          exact ⟨inv_move inv (by simp [RtreePc.own]) ⟨ok, filled, rfl⟩, fun _ _ => rfl,
            fun _ _ => rfl⟩
  | mapping chunkAddr metadata =>
      rw [at_] at ok
      simp only [at_] at stepped
      split at stepped
      · cases stepped
      · rename_i granted
        obtain ⟨nonzero, unmapped⟩ := not_or.mp granted
        cases stepped
        exact ⟨inv_map inv ok nonzero (by simpa using unmapped), fun _ _ => rfl, fun _ _ => rfl⟩
  | exchanging chunkAddr metadata newLeaf =>
      rw [at_] at ok
      simp only [at_] at stepped
      split at stepped
      · rename_i empty
        cases stepped
        refine ⟨inv_publish inv at_ empty, fun index filled => ?_, fun _ _ => rfl⟩
        refine Function.update_of_ne ?_ ..
        rintro rfl
        exact filled empty
      · rename_i filled
        cases stepped
        refine ⟨inv_move inv ?_ ⟨ok.1, filled, rfl⟩, fun _ _ => rfl, fun _ _ => rfl⟩
        intro leaf own
        rw [at_]
        exact own
  | discarding chunkAddr metadata newLeaf expected =>
      simp only [at_] at stepped
      cases stepped
      exact ⟨inv_discard inv at_, fun _ _ => rfl, fun _ _ => rfl⟩
  | storing chunkAddr metadata leaf =>
      simp only [at_] at stepped
      cases stepped
      refine ⟨inv_store inv at_, fun _ _ => rfl, fun block other => ?_⟩
      have different : block ≠ chunkAddr / lzHugePageSize := other chunkAddr (by
        simp only [RtreeAct.thread, at_, RtreePc.target])
      simp only [RtreeSys.storeEntry, Function.update_self, Function.update_of_ne different]
  | getLoad ptr since =>
      rw [at_] at ok
      simp only [at_] at stepped
      split at stepped
      · rename_i empty
        cases stepped
        refine ⟨inv_answer inv ok.2 ?_, fun _ _ => rfl, fun _ _ => rfl⟩
        rw [← inv.map ptr ok.1]
        simp [lzRtreeGet, RtreeSys.tree, empty]
      · rename_i filled
        cases stepped
        exact ⟨inv_move inv (by simp [RtreePc.own]) ⟨ok.1, ok.2, filled, rfl⟩, fun _ _ => rfl,
          fun _ _ => rfl⟩
  | getEntry ptr leaf since =>
      rw [at_] at ok
      obtain ⟨bound, started, nonzero, slot⟩ := ok
      simp only [at_] at stepped
      cases stepped
      refine ⟨inv_answer inv started ?_, fun _ _ => rfl, fun _ _ => rfl⟩
      rw [← inv.map ptr bound]
      simp [lzRtreeGet, RtreeSys.tree, slot, nonzero]

theorem rtree_step_ok (inv : RtreeInv s) {action : RtreeAct}
    (stepped : rtreeStep s action = some after) : StepOk s action after := by
  cases action with
  | set thread chunkAddr metadata =>
      simp only [rtreeStep] at stepped
      split at stepped
      · split at stepped
        · rename_i bound
          cases stepped
          exact ⟨inv_move inv (by simp [RtreePc.own]) bound, fun _ _ => rfl, fun _ _ => rfl⟩
        · cases stepped
      · cases stepped
  | get thread ptr =>
      simp only [rtreeStep] at stepped
      split at stepped
      · split at stepped
        · rename_i bound
          cases stepped
          exact ⟨inv_move inv (by simp [RtreePc.own]) ⟨bound, le_rfl⟩, fun _ _ => rfl,
            fun _ _ => rfl⟩
        · cases stepped
      · cases stepped
  | step thread fresh => exact advance_ok inv stepped

theorem rtree_run_inv {actions : List RtreeAct}
    (ran : run rtreeStep rtreeStart actions = some s) : RtreeInv s :=
  run_invariant_always (fun _ _ _ inv stepped => (rtree_step_ok inv stepped).inv) rtree_start_inv
    ran

/-- Every lookup answers with a value the plain map held during the call, also
a lookup made in one piece at this moment. No thread stores into a leaf that is
not mapped; a filled slot stays as it is; a set leaves the answers of all other
blocks alone. -/
theorem radix_tree_refines_map (actions : List RtreeAct) (s : RtreeSys)
    (ran : run rtreeStep rtreeStart actions = some s) :
    (∀ answer ∈ s.answers, answer.Current s) ∧
      (∀ address < addressLimit,
        lzRtreeGet s.tree address = s.versions s.now (address / lzHugePageSize)) ∧
      (∀ thread chunkAddr metadata leaf, s.pc thread = .storing chunkAddr metadata leaf →
        s.mapped leaf = true ∧ s.leaves (rtreeL1 chunkAddr) = leaf) ∧
      ∀ action after, rtreeStep s action = some after →
        (∀ index, s.leaves index ≠ 0 → after.leaves index = s.leaves index) ∧
          ∀ address < addressLimit,
            (∀ chunkAddr, (s.pc action.thread).target = some chunkAddr →
              address / lzHugePageSize ≠ chunkAddr / lzHugePageSize) →
            lzRtreeGet after.tree address = lzRtreeGet s.tree address := by
  have inv := rtree_run_inv ran
  refine ⟨inv.answers, inv.map, ?_, ?_⟩
  · intro thread chunkAddr metadata leaf at_
    obtain ⟨_, nonzero, slot⟩ : PcOk s (.storing chunkAddr metadata leaf) :=
      at_ ▸ inv.points thread
    refine ⟨?_, slot⟩
    rw [← slot]
    exact inv.published _ (by rw [slot]; exact nonzero)
  · intro action after stepped
    have ok := rtree_step_ok inv stepped
    refine ⟨ok.slots, fun address inside other => ?_⟩
    rw [ok.inv.map address inside, inv.map address inside]
    exact ok.elsewhere _ other

/-- A clear finds no leaf and leaves; then two first writers of one leaf race
while a third thread looks up the block of the loser, whose leaf is discarded. -/
def racingWriters : List RtreeAct :=
  [clear 2 2097152, .step 2 0, .set 0 2097152 7, .set 1 4194304 9, .step 0 0, .step 1 0,
    .step 0 4096, .step 1 135168,
    .step 0 0, .step 1 0, .get 2 4194304, .step 2 0, .step 1 0, .step 1 0, .step 2 0, .step 0 0]

theorem racing_writers_refine :
    ∃ s, run rtreeStep rtreeStart racingWriters = some s ∧ s.mapped 135168 = false ∧
      s.answers.map Answer.value = [9] ∧ ∀ answer ∈ s.answers, answer.Current s := by
  have finishes : ((run rtreeStep rtreeStart racingWriters).map fun s =>
      (s.mapped 135168, s.answers.map Answer.value)) = some (false, [9]) := by decide +kernel
  obtain ⟨s, ran, values⟩ := Option.map_eq_some_iff.mp finishes
  obtain ⟨mapped, answers⟩ := Prod.mk.inj values
  exact ⟨s, ran, mapped, answers, (radix_tree_refines_map racingWriters s ran).1⟩

end Lzmalloc.RadixTreeRaces
