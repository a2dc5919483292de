import Lzmalloc.PointerChain
import Lzmalloc.StepSystem

/-!
# Ownership of thread heaps

Which thread works on which heap, when threads start, exit, adopt zombie heaps
and collect garbage in any order. The locked sections of the zombie list, every
operation on a heap, and the three parts of `lzmalloc_gc` (the snapshot of the
list head, the reap of one zombie, the advance to the next one) are steps of
their own. A thread whose `lz_tlh_destructor` is not the last of its code goes
on as `late`, with `tls_tlh_ptr` still set.

`parked` says which heaps are on the zombie list and `reaping` counts the
collectors inside `lz_tlh_reap` of a zombie; no function of the source reads
them.
-/

namespace Lzmalloc.HeapOwnership

open PointerChain StepSystem

set_option autoImplicit false

inductive Phase
  | unborn
  | running
  | late
  | dead
  deriving DecidableEq

/-- Where a thread is in the allocator. -/
inductive OwnPc where
  | idle
  | attaching
  | mapping
  | operating (heap : Nat)
  | gcOwn (heap : Nat)
  | gcSnapshot
  | gcAt (current : Nat)
  | gcReaping (current : Nat)
  | gcNext (current : Nat)
  | dying (heap : Nat)
  | pushing (heap : Nat)
  deriving DecidableEq

structure OwnSys where
  phase : Nat → Phase
  tls : Nat → Nat
  zombieHead : Nat
  nextZombie : Nat → Nat
  heaps : List Nat
  pc : Nat → OwnPc
  parked : Nat → Bool
  reaping : Nat → Nat

inductive OwnAct where
  | start (thread : Nat)
  | call (thread : Nat)
  | gc (thread : Nat)
  | exit (thread : Nat)
  | finish (thread : Nat)
  /-- The next step of the thread; `fresh` is the answer of `mmap`, `last` says
  that the thread runs no code after its destructor. -/
  | step (thread fresh : Nat) (last : Bool)

def Phase.alive : Phase → Bool
  | .running => true
  | .late => true
  | _ => false

def OwnSys.moveTo (s : OwnSys) (thread : Nat) (pc : OwnPc) : OwnSys :=
  { s with pc := Function.update s.pc thread pc }

/-- `lz_resurrect_zombie` with a zombie on the list. -/
def OwnSys.adopt (s : OwnSys) (thread : Nat) : OwnSys :=
  let head := s.zombieHead
  { s.moveTo thread (.operating head) with
    tls := Function.update s.tls thread head
    zombieHead := s.nextZombie head
    nextZombie := Function.update s.nextZombie head 0
    parked := Function.update s.parked head false }

/-- The mapping branch of `ensure_tls_init`. -/
def OwnSys.mapHeap (s : OwnSys) (thread heap : Nat) : OwnSys :=
  { s.moveTo thread (.operating heap) with
    tls := Function.update s.tls thread heap
    nextZombie := Function.update s.nextZombie heap 0
    heaps := heap :: s.heaps }

/-- The locked section of `lz_tlh_destructor`. -/
def OwnSys.park (s : OwnSys) (thread heap : Nat) (last : Bool) : OwnSys :=
  { s.moveTo thread .idle with
    phase := Function.update s.phase thread (if last then .dead else .late)
    zombieHead := heap
    nextZombie := Function.update s.nextZombie heap s.zombieHead
    parked := Function.update s.parked heap true }

def advance (s : OwnSys) (thread fresh : Nat) (last : Bool) : Option OwnSys :=
  match s.pc thread with
  | .idle => none
  | .attaching =>
      if s.zombieHead ≠ 0 then some (s.adopt thread) else some (s.moveTo thread .mapping)
  | .mapping =>
      if fresh ≠ 0 ∧ fresh ∉ s.heaps then some (s.mapHeap thread fresh) else none
  | .operating _ => some (s.moveTo thread .idle)
  | .gcOwn _ => some (s.moveTo thread .gcSnapshot)
  | .gcSnapshot => some (s.moveTo thread (.gcAt s.zombieHead))
  | .gcAt current =>
      if current = 0 then some (s.moveTo thread .idle)
      else some { s.moveTo thread (.gcReaping current) with
        reaping := Function.update s.reaping current (s.reaping current + 1) }
  | .gcReaping current =>
      some { s.moveTo thread (.gcNext current) with
        reaping := Function.update s.reaping current (s.reaping current - 1) }
  | .gcNext current => some (s.moveTo thread (.gcAt (s.nextZombie current)))
  | .dying heap => some (s.moveTo thread (.pushing heap))
  | .pushing heap => some (s.park thread heap last)

def ownStep (s : OwnSys) : OwnAct → Option OwnSys
  | .start thread =>
      if s.phase thread = .unborn then
        some { s with phase := Function.update s.phase thread .running }
      else none
  | .call thread =>
      if (s.phase thread).alive = true ∧ s.pc thread = .idle then
        if s.tls thread ≠ 0 then some (s.moveTo thread (.operating (s.tls thread)))
        else some (s.moveTo thread .attaching)
      else none
  | .gc thread =>
      if (s.phase thread).alive = true ∧ s.pc thread = .idle then
        if s.tls thread ≠ 0 then some (s.moveTo thread (.gcOwn (s.tls thread)))
        else some (s.moveTo thread .gcSnapshot)
      else none
  -- The destructor runs for threads that have set the key in `ensure_tls_init`.
  | .exit thread =>
      if s.phase thread = .running ∧ s.pc thread = .idle ∧ s.tls thread ≠ 0 then
        some (s.moveTo thread (.dying (s.tls thread)))
      else none
  | .finish thread =>
      if s.pc thread = .idle ∧
          (s.phase thread = .late ∨ s.phase thread = .running ∧ s.tls thread = 0) then
        some { s with phase := Function.update s.phase thread .dead }
      else none
  | .step thread fresh last => advance s thread fresh last

def ownStart : OwnSys where
  phase := fun _ => .unborn
  tls := fun _ => 0
  zombieHead := 0
  nextZombie := fun _ => 0
  heaps := []
  pc := fun _ => .idle
  parked := fun _ => false
  reaping := fun _ => 0

/-! ## Exclusive ownership -/

/-- The thread is inside an operation on the heap: an allocation or a free, a
reap, or the flush of its destructor. -/
def Operates (s : OwnSys) (thread heap : Nat) : Prop :=
  s.pc thread = .operating heap ∨ s.pc thread = .gcOwn heap ∨ s.pc thread = .gcReaping heap ∨
    s.pc thread = .dying heap

def Owns (s : OwnSys) (thread heap : Nat) : Prop :=
  (s.phase thread).alive = true ∧ s.tls thread = heap

structure Exclusive (s : OwnSys) : Prop where
  alone : ∀ thread heap, Operates s thread heap → ∀ other, other ≠ thread →
    ¬Owns s other heap ∧ ¬Operates s other heap
  zombies : ∀ heap, OnChain s.nextZombie s.zombieHead heap → ∀ thread, ¬Owns s thread heap

/-- The schedules under which ownership is exclusive: a destructor is the last
of its thread's code, a collector enters a heap only while it is on the zombie
list and no other collector is in it, and no heap is adopted while a collector
is in it. -/
def OrderlyAt (s : OwnSys) (last : Bool) : OwnPc → Prop
  | .attaching => s.zombieHead ≠ 0 → s.reaping s.zombieHead = 0
  | .gcAt current => current ≠ 0 → s.parked current = true ∧ s.reaping current = 0
  | .pushing _ => last = true
  | _ => True

instance (s : OwnSys) (last : Bool) : (pc : OwnPc) → Decidable (OrderlyAt s last pc)
  | .attaching => inferInstanceAs (Decidable (_ → _))
  | .gcAt _ => inferInstanceAs (Decidable (_ → _ ∧ _))
  | .pushing _ => inferInstanceAs (Decidable (_ = _))
  | .idle => isTrue trivial
  | .mapping => isTrue trivial
  | .operating _ => isTrue trivial
  | .gcOwn _ => isTrue trivial
  | .gcSnapshot => isTrue trivial
  | .gcReaping _ => isTrue trivial
  | .gcNext _ => isTrue trivial
  | .dying _ => isTrue trivial

def Orderly (s : OwnSys) : OwnAct → Prop
  | .step thread _ last => OrderlyAt s last (s.pc thread)
  | _ => True

instance (s : OwnSys) : (action : OwnAct) → Decidable (Orderly s action)
  | .step _ _ _ => inferInstanceAs (Decidable (OrderlyAt ..))
  | .start _ => isTrue trivial
  | .call _ => isTrue trivial
  | .gc _ => isTrue trivial
  | .exit _ => isTrue trivial
  | .finish _ => isTrue trivial

/-! ## Invariant of the orderly schedules -/

/-- Who has which heap: every heap is on the zombie list or some running
thread's, never both and never two threads'. -/
structure Shares (s : OwnSys) : Prop where
  list : ∃ count, Enumerates s.nextZombie s.zombieHead (fun heap => s.parked heap = true) count
  early : ∀ thread, s.phase thread ≠ .late
  unborn : ∀ thread, s.phase thread = .unborn → s.tls thread = 0
  owned : ∀ thread, s.phase thread = .running → s.tls thread ≠ 0 → s.tls thread ∈ s.heaps
  parked : ∀ heap, s.parked heap = true → heap ∈ s.heaps
  one : ∀ thread other, s.phase thread = .running → s.phase other = .running →
    s.tls thread ≠ 0 → s.tls thread = s.tls other → thread = other
  apart : ∀ thread, s.phase thread = .running → s.parked (s.tls thread) = false
  covered : ∀ heap ∈ s.heaps, s.parked heap = true ∨
    ∃ thread, s.phase thread = .running ∧ s.tls thread = heap
  links : ∀ heap, s.parked heap = false → s.nextZombie heap = 0
  null : (0 : Nat) ∉ s.heaps

def PointOk (s : OwnSys) (thread : Nat) : OwnPc → Prop
  | .idle => True
  | .attaching => s.phase thread = .running ∧ s.tls thread = 0
  | .mapping => s.phase thread = .running ∧ s.tls thread = 0
  | .operating heap => s.phase thread = .running ∧ s.tls thread = heap ∧ heap ≠ 0
  | .gcOwn heap => s.phase thread = .running ∧ s.tls thread = heap ∧ heap ≠ 0
  | .gcSnapshot => s.phase thread = .running
  | .gcAt current => s.phase thread = .running ∧
      (current ≠ 0 → current ∈ s.heaps ∧ s.tls thread ≠ current)
  | .gcReaping current => s.phase thread = .running ∧ s.parked current = true
  | .gcNext _ => s.phase thread = .running
  | .dying heap => s.phase thread = .running ∧ s.tls thread = heap ∧ heap ≠ 0
  | .pushing heap => s.phase thread = .running ∧ s.tls thread = heap ∧ heap ≠ 0

structure OwnInv (s : OwnSys) : Prop where
  shares : Shares s
  points : ∀ thread, PointOk s thread (s.pc thread)
  reapers : ∀ thread other heap, s.pc thread = .gcReaping heap → s.pc other = .gcReaping heap →
    thread = other
  counted : ∀ thread heap, s.pc thread = .gcReaping heap → s.reaping heap = 1
  counts : ∀ heap, s.reaping heap ≠ 0 → ∃ thread, s.pc thread = .gcReaping heap

theorem own_start_inv : OwnInv ownStart := by
  refine ⟨⟨⟨0, enumerates_empty nofun⟩, nofun, fun _ _ => rfl, nofun, nofun, nofun, nofun, nofun,
    fun _ _ => rfl, nofun⟩, fun _ => trivial, nofun, nofun, ?_⟩
  intro heap counted
  exact absurd rfl counted

variable {s after : OwnSys} {thread heap : Nat} {pc : OwnPc}

theorem alive_running (inv : OwnInv s) (alive : (s.phase thread).alive = true) :
    s.phase thread = .running := by
  have early := inv.shares.early thread
  cases phase : s.phase thread with
  | running => rfl
  | late => exact absurd phase early
  | unborn =>
      rw [phase] at alive
      cases alive
  | dead =>
      rw [phase] at alive
      cases alive

theorem on_list_parked (inv : OwnInv s) (listed : OnChain s.nextZombie s.zombieHead heap) :
    s.parked heap = true := by
  obtain ⟨count, chain⟩ := inv.shares.list
  exact (enumerates_on_chain chain).mp listed

theorem operates_cases (inv : OwnInv s) (operates : Operates s thread heap) :
    s.phase thread = .running ∧ s.tls thread = heap ∧ heap ≠ 0 ∨
      s.pc thread = .gcReaping heap ∧ s.parked heap = true := by
  have point := inv.points thread
  obtain at_ | at_ | at_ | at_ := operates
  · rw [at_] at point
    exact Or.inl point
  · rw [at_] at point
    exact Or.inl point
  · rw [at_] at point
    exact Or.inr ⟨at_, point.2⟩
  · rw [at_] at point
    exact Or.inl point

theorem exclusive (inv : OwnInv s) : Exclusive s := by
  refine ⟨fun thread heap operates other different => ⟨fun owns => ?_, fun also => ?_⟩,
    fun heap listed thread owns => ?_⟩
  · have running := alive_running inv owns.1
    obtain ⟨mine, rfl, nonzero⟩ | ⟨_, listed⟩ := operates_cases inv operates
    · exact different (inv.shares.one thread other mine running nonzero owns.2.symm).symm
    · have apart := inv.shares.apart other running
      rw [owns.2, listed] at apart
      cases apart
  · obtain ⟨mine, rfl, nonzero⟩ | ⟨at_, listed⟩ := operates_cases inv operates
    · obtain ⟨running, same, _⟩ | ⟨_, listed⟩ := operates_cases inv also
      · exact different (inv.shares.one thread other mine running nonzero same.symm).symm
      · have apart := inv.shares.apart thread mine
        rw [listed] at apart
        cases apart
    · obtain ⟨running, rfl, _⟩ | ⟨otherAt, _⟩ := operates_cases inv also
      · have apart := inv.shares.apart other running
        rw [listed] at apart
        cases apart
      · exact different (inv.reapers thread other heap at_ otherAt).symm
  · have running := alive_running inv owns.1
    have parked := on_list_parked inv listed
    have apart := inv.shares.apart thread running
    rw [owns.2, parked] at apart
    cases apart

/-! ## Steps -/

theorem point_frame (ok : PointOk s thread pc) (phase : after.phase thread = s.phase thread)
    (tls : after.tls thread = s.tls thread) (heaps : ∀ each ∈ s.heaps, each ∈ after.heaps)
    (parked : ∀ current, pc = .gcReaping current → after.parked current = s.parked current) :
    PointOk after thread pc := by
  cases pc with
  | gcAt current =>
      refine ⟨phase.trans ok.1, fun nonzero => ?_⟩
      obtain ⟨known, other⟩ := ok.2 nonzero
      exact ⟨heaps current known, tls ▸ other⟩
  | gcReaping current => exact ⟨phase.trans ok.1, (parked current rfl).trans ok.2⟩
  | idle => trivial
  | gcSnapshot => exact phase.trans ok
  | gcNext current => exact phase.trans ok
  | attaching => exact ⟨phase.trans ok.1, tls.trans ok.2⟩
  | mapping => exact ⟨phase.trans ok.1, tls.trans ok.2⟩
  | operating heap => exact ⟨phase.trans ok.1, tls.trans ok.2.1, ok.2.2⟩
  | gcOwn heap => exact ⟨phase.trans ok.1, tls.trans ok.2.1, ok.2.2⟩
  | dying heap => exact ⟨phase.trans ok.1, tls.trans ok.2.1, ok.2.2⟩
  | pushing heap => exact ⟨phase.trans ok.1, tls.trans ok.2.1, ok.2.2⟩

/-- Every step: the heaps are shared properly afterwards, the thread's new point
is right and the other threads keep theirs. A step that neither enters nor
leaves the reap of a zombie keeps the collectors' bookkeeping. -/
theorem own_step (inv : OwnInv s) (shares : Shares after)
    (pcs : after.pc = Function.update s.pc thread pc) (mine : PointOk after thread pc)
    (phase : ∀ other, other ≠ thread → after.phase other = s.phase other)
    (tls : ∀ other, other ≠ thread → after.tls other = s.tls other)
    (heaps : ∀ each ∈ s.heaps, each ∈ after.heaps)
    (parked : ∀ other current, other ≠ thread → s.pc other = .gcReaping current →
      after.parked current = s.parked current)
    (reaping : after.reaping = s.reaping) (left : ∀ current, s.pc thread ≠ .gcReaping current)
    (entered : ∀ current, pc ≠ .gcReaping current) : OwnInv after := by
  have collectors : ∀ other current, after.pc other = .gcReaping current ↔
      s.pc other = .gcReaping current := by
    intro other current
    rw [pcs]
    by_cases same : other = thread
    · subst same
      rw [Function.update_self]
      exact iff_of_false (entered current) (left current)
    · rw [Function.update_of_ne same]
  refine ⟨shares, fun other => ?_, ?_, ?_, ?_⟩
  · rw [pcs]
    by_cases same : other = thread
    · subst same
      rw [Function.update_self]
      exact mine
    · rw [Function.update_of_ne same]
      refine point_frame (inv.points other) (phase other same) (tls other same) heaps ?_
      exact fun current at_ => parked other current same at_
  · intro first second current firstAt secondAt
    exact inv.reapers first second current ((collectors first current).mp firstAt)
      ((collectors second current).mp secondAt)
  · intro other current at_
    rw [reaping]
    exact inv.counted other current ((collectors other current).mp at_)
  · intro current counted
    rw [reaping] at counted
    obtain ⟨other, at_⟩ := inv.counts current counted
    exact ⟨other, (collectors other current).mpr at_⟩

theorem shares_congr (shares : Shares s) (phase : after.phase = s.phase) (tls : after.tls = s.tls)
    (head : after.zombieHead = s.zombieHead) (next : after.nextZombie = s.nextZombie)
    (heaps : after.heaps = s.heaps) (parked : after.parked = s.parked) : Shares after := by
  obtain ⟨list, early, unborn, owned, known, one, apart, covered, links, null⟩ := shares
  refine ⟨?_, ?_, ?_, ?_, ?_, ?_, ?_, ?_, ?_, ?_⟩ <;>
    simp only [phase, tls, head, next, heaps, parked] <;> assumption

theorem own_move (inv : OwnInv s) (mine : PointOk s thread pc)
    (left : ∀ current, s.pc thread ≠ .gcReaping current)
    (entered : ∀ current, pc ≠ .gcReaping current) : OwnInv (s.moveTo thread pc) := by
  refine own_step inv (shares_congr inv.shares rfl rfl rfl rfl rfl rfl) rfl ?_ (fun _ _ => rfl)
    (fun _ _ => rfl) (fun _ => id) (fun _ _ _ _ => rfl) rfl left entered
  exact point_frame mine rfl rfl (fun _ => id) fun _ _ => rfl

theorem own_begin (inv : OwnInv s) (unborn : s.phase thread = .unborn) :
    OwnInv { s with phase := Function.update s.phase thread .running } := by
  obtain ⟨list, early, young, owned, known, one, apart, covered, links, null⟩ := inv.shares
  have empty := young thread unborn
  have zero : s.parked 0 = false := by
    by_contra parked
    exact null (known 0 (by simpa using parked))
  have others : ∀ other, other ≠ thread →
      Function.update s.phase thread .running other = s.phase other :=
    fun other different => Function.update_of_ne different ..
  have running : ∀ other, Function.update s.phase thread .running other = .running →
      s.tls other ≠ 0 → s.phase other = .running := by
    intro other now nonzero
    by_cases same : other = thread
    · subst same
      exact absurd empty nonzero
    · rwa [others other same] at now
  have shares : Shares { s with phase := Function.update s.phase thread .running } := by
    refine ⟨list, ?_, ?_, ?_, known, ?_, ?_, ?_, links, null⟩
    · intro other
      by_cases same : other = thread
      · simp [same]
      · simp only [others other same]
        exact early other
    · intro other now
      by_cases same : other = thread
      · simp [same] at now
      · simp only [others other same] at now
        exact young other now
    · intro other now nonzero
      exact owned other (running other now nonzero) nonzero
    · intro first second firstNow secondNow nonzero same
      exact one first second (running first firstNow nonzero)
        (running second secondNow (same ▸ nonzero)) nonzero same
    · intro other now
      by_cases nonzero : s.tls other = 0
      · simp only [nonzero, zero]
      · exact apart other (running other now nonzero)
    · intro heap member
      obtain parked | ⟨other, runs, has⟩ := covered heap member
      · exact Or.inl parked
      · refine Or.inr ⟨other, ?_, has⟩
        by_cases same : other = thread
        · simp [same]
        · simp only [others other same]
          exact runs
  refine ⟨shares, fun other => ?_, inv.reapers, inv.counted, inv.counts⟩
  by_cases same : other = thread
  · subst same
    -- A thread that has not started is at no point of the allocator.
    have point := inv.points other
    cases at_ : s.pc other <;> rw [at_] at point <;>
      first
        | trivial
        | (have phase := point.1; rw [unborn] at phase; cases phase)
        | (have phase : s.phase other = .running := point; rw [unborn] at phase; cases phase)
  · exact point_frame (inv.points other) (others other same) rfl (fun _ => id) fun _ _ => rfl

theorem own_finish (inv : OwnInv s) (idle : s.pc thread = .idle) (empty : s.tls thread = 0) :
    OwnInv { s with phase := Function.update s.phase thread .dead } := by
  obtain ⟨list, early, young, owned, known, one, apart, covered, links, null⟩ := inv.shares
  have others : ∀ other, other ≠ thread →
      Function.update s.phase thread .dead other = s.phase other :=
    fun other different => Function.update_of_ne different ..
  have before : ∀ other phase, phase ≠ .dead →
      Function.update s.phase thread .dead other = phase → s.phase other = phase := by
    intro other phase alive now
    by_cases same : other = thread
    · subst same
      rw [Function.update_self] at now
      exact absurd now.symm alive
    · rwa [others other same] at now
  have shares : Shares { s with phase := Function.update s.phase thread .dead } := by
    refine ⟨list, ?_, ?_, ?_, known, ?_, ?_, ?_, links, null⟩
    · exact fun other now => early other (before other .late nofun now)
    · exact fun other now => young other (before other .unborn nofun now)
    · exact fun other now => owned other (before other .running nofun now)
    · intro first second firstNow secondNow
      exact one first second (before first .running nofun firstNow)
        (before second .running nofun secondNow)
    · exact fun other now => apart other (before other .running nofun now)
    · intro heap member
      obtain parked | ⟨other, runs, has⟩ := covered heap member
      · exact Or.inl parked
      · refine Or.inr ⟨other, ?_, has⟩
        have different : other ≠ thread := by
          rintro rfl
          rw [empty] at has
          exact null (has ▸ member)
        simp only [others other different]
        exact runs
  refine ⟨shares, fun other => ?_, inv.reapers, inv.counted, inv.counts⟩
  by_cases same : other = thread
  · subst same
    simp only [idle]
    trivial
  · exact point_frame (inv.points other) (others other same) rfl (fun _ => id) fun _ _ => rfl

theorem own_adopt (inv : OwnInv s) (at_ : s.pc thread = .attaching) (nonzero : s.zombieHead ≠ 0)
    (quiet : s.reaping s.zombieHead = 0) : OwnInv (s.adopt thread) := by
  obtain ⟨running, empty⟩ : PointOk s thread .attaching := at_ ▸ inv.points thread
  obtain ⟨⟨count, chain⟩, early, young, owned, known, one, apart, covered, links, null⟩ :=
    inv.shares
  obtain ⟨head, headEq⟩ : ∃ head, s.zombieHead = head := ⟨_, rfl⟩
  have listed : s.parked head = true := by
    have first := enumerates_head chain nonzero
    rwa [headEq] at first
  rw [headEq] at chain nonzero quiet
  have tlsOther : ∀ other, other ≠ thread → (s.adopt thread).tls other = s.tls other :=
    fun other different => Function.update_of_ne different ..
  have tlsMine : (s.adopt thread).tls thread = head := by
    simp [OwnSys.adopt, headEq]
  have parkedOther : ∀ heap, heap ≠ head → (s.adopt thread).parked heap = s.parked heap := by
    intro heap different
    simp only [OwnSys.adopt, headEq, Function.update_of_ne different]
  have parkedHead : (s.adopt thread).parked head = false := by
    simp [OwnSys.adopt, headEq]
  have notOwned : ∀ other, s.phase other = .running → s.tls other ≠ head := by
    intro other runs has
    have free := apart other runs
    rw [has, listed] at free
    cases free
  have shares : Shares (s.adopt thread) := by
    refine ⟨⟨count - 1, ?_⟩, early, ?_, ?_, ?_, ?_, ?_, ?_, ?_, null⟩
    · have members : ∀ each, (s.adopt thread).parked each = true ↔
          s.parked each = true ∧ each ≠ head := by
        intro each
        by_cases same : each = head
        · simp [same, parkedHead]
        · simp [parkedOther each same, same]
      have kept : ∀ old, s.parked old = true → old ≠ head →
          (s.adopt thread).nextZombie old = s.nextZombie old := by
        intro old _ different
        simp only [OwnSys.adopt, headEq, Function.update_of_ne different]
      have popped := (enumerates_pop chain nonzero kept members).2
      rw [← headEq] at popped
      exact popped
    · intro other unborn
      have different : other ≠ thread := by
        rintro rfl
        have phase : s.phase other = .unborn := unborn
        rw [running] at phase
        cases phase
      rw [tlsOther other different]
      exact young other unborn
    · intro other runs has
      by_cases same : other = thread
      · subst same
        rw [tlsMine]
        exact known head listed
      · rw [tlsOther other same] at has ⊢
        exact owned other runs has
    · intro heap parked
      by_cases same : heap = head
      · subst same
        rw [parkedHead] at parked
        cases parked
      · rw [parkedOther heap same] at parked
        exact known heap parked
    · intro first second firstRuns secondRuns has same
      by_cases firstMine : first = thread
      · subst firstMine
        by_cases secondMine : second = first
        · exact secondMine.symm
        · rw [tlsMine, tlsOther second secondMine] at same
          exact absurd same.symm (notOwned second secondRuns)
      · by_cases secondMine : second = thread
        · subst secondMine
          rw [tlsMine, tlsOther first firstMine] at same
          exact absurd same (notOwned first firstRuns)
        · rw [tlsOther first firstMine] at has same
          rw [tlsOther second secondMine] at same
          exact one first second firstRuns secondRuns has same
    · intro other runs
      by_cases same : other = thread
      · subst same
        rw [tlsMine]
        exact parkedHead
      · rw [tlsOther other same, parkedOther _ (notOwned other runs)]
        exact apart other runs
    · intro heap member
      by_cases same : heap = head
      · subst same
        exact Or.inr ⟨thread, running, tlsMine⟩
      · rw [parkedOther heap same]
        obtain parked | ⟨other, runs, has⟩ := covered heap member
        · exact Or.inl parked
        · refine Or.inr ⟨other, runs, ?_⟩
          have different : other ≠ thread := by
            rintro rfl
            rw [empty] at has
            exact null (has ▸ member)
          rw [tlsOther other different]
          exact has
    · intro heap unparked
      by_cases same : heap = head
      · subst same
        simp [OwnSys.adopt, headEq]
      · rw [parkedOther heap same] at unparked
        have link := links heap unparked
        simp only [OwnSys.adopt, headEq, Function.update_of_ne same]
        exact link
  refine own_step inv shares rfl ⟨running, ?_, ?_⟩ (fun _ _ => rfl) tlsOther (fun _ => id) ?_
    rfl ?_ nofun
  · exact Function.update_self ..
  · rw [headEq]
    exact nonzero
  · intro other current _ otherAt
    refine parkedOther current ?_
    rintro rfl
    have counted := inv.counted other current otherAt
    omega
  · intro current collecting
    rw [at_] at collecting
    cases collecting

theorem own_map (inv : OwnInv s) (at_ : s.pc thread = .mapping) (nonzero : heap ≠ 0)
    (fresh : heap ∉ s.heaps) : OwnInv (s.mapHeap thread heap) := by
  obtain ⟨running, empty⟩ : PointOk s thread .mapping := at_ ▸ inv.points thread
  obtain ⟨⟨count, chain⟩, early, young, owned, known, one, apart, covered, links, null⟩ :=
    inv.shares
  have unparked : s.parked heap = false := by
    by_contra parked
    exact fresh (known heap (by simpa using parked))
  have tlsOther : ∀ other, other ≠ thread → (s.mapHeap thread heap).tls other = s.tls other :=
    fun other different => Function.update_of_ne different ..
  have tlsMine : (s.mapHeap thread heap).tls thread = heap := Function.update_self ..
  have linkSame : (s.mapHeap thread heap).nextZombie = s.nextZombie := by
    rw [← Function.update_eq_self heap s.nextZombie, links heap unparked]
    simp [OwnSys.mapHeap]
  have notOwned : ∀ other, s.phase other = .running → s.tls other ≠ heap := by
    rintro other runs rfl
    exact fresh (owned other runs nonzero)
  have shares : Shares (s.mapHeap thread heap) := by
    refine ⟨⟨count, ?_⟩, early, ?_, ?_, ?_, ?_, ?_, ?_, ?_, ?_⟩
    · rw [linkSame]
      exact chain
    · intro other unborn
      have different : other ≠ thread := by
        rintro rfl
        have phase : s.phase other = .unborn := unborn
        rw [running] at phase
        cases phase
      rw [tlsOther other different]
      exact young other unborn
    · intro other runs has
      by_cases same : other = thread
      · subst same
        rw [tlsMine]
        exact List.mem_cons_self
      · rw [tlsOther other same] at has ⊢
        exact List.mem_cons_of_mem _ (owned other runs has)
    · exact fun each parked => List.mem_cons_of_mem _ (known each parked)
    · intro first second firstRuns secondRuns has same
      by_cases firstMine : first = thread
      · subst firstMine
        by_cases secondMine : second = first
        · exact secondMine.symm
        · rw [tlsMine, tlsOther second secondMine] at same
          exact absurd same.symm (notOwned second secondRuns)
      · by_cases secondMine : second = thread
        · subst secondMine
          rw [tlsMine, tlsOther first firstMine] at same
          exact absurd same (notOwned first firstRuns)
        · rw [tlsOther first firstMine] at has same
          rw [tlsOther second secondMine] at same
          exact one first second firstRuns secondRuns has same
    · intro other runs
      by_cases same : other = thread
      · subst same
        rw [tlsMine]
        exact unparked
      · rw [tlsOther other same]
        exact apart other runs
    · intro each member
      obtain rfl | earlier := List.mem_cons.mp member
      · exact Or.inr ⟨thread, running, tlsMine⟩
      · obtain parked | ⟨other, runs, has⟩ := covered each earlier
        · exact Or.inl parked
        · refine Or.inr ⟨other, runs, ?_⟩
          have different : other ≠ thread := by
            rintro rfl
            rw [empty] at has
            exact null (has ▸ earlier)
          rw [tlsOther other different]
          exact has
    · rw [linkSame]
      exact links
    · intro member
      obtain zero | earlier := List.mem_cons.mp member
      · exact nonzero zero.symm
      · exact null earlier
  refine own_step inv shares rfl ⟨running, tlsMine, nonzero⟩ (fun _ _ => rfl) tlsOther
    (fun each member => List.mem_cons_of_mem _ member) (fun _ _ _ _ => rfl) rfl ?_ nofun
  intro current collecting
  rw [at_] at collecting
  cases collecting

/-- The push of a destructor, whether or not the thread goes on. -/
theorem park_list {last : Bool} (inv : OwnInv s) (nonzero : heap ≠ 0)
    (unparked : s.parked heap = false) : ∃ count,
      Enumerates (s.park thread heap last).nextZombie (s.park thread heap last).zombieHead
        (fun each => (s.park thread heap last).parked each = true) count := by
  obtain ⟨count, chain⟩ := inv.shares.list
  have fresh : ¬s.parked heap = true := by simp [unparked]
  have members : ∀ each, (s.park thread heap last).parked each = true ↔
      each = heap ∨ s.parked each = true := by
    intro each
    by_cases same : each = heap
    · simp [OwnSys.park, same]
    · simp [OwnSys.park, same]
  refine ⟨count + 1, enumerates_push chain nonzero fresh (Function.update_self ..)
    (fun old there => ?_) members⟩
  refine Function.update_of_ne ?_ ..
  rintro rfl
  exact fresh there

theorem own_park (inv : OwnInv s) (at_ : s.pc thread = .pushing heap) :
    OwnInv (s.park thread heap true) := by
  obtain ⟨running, has, nonzero⟩ : PointOk s thread (.pushing heap) := at_ ▸ inv.points thread
  obtain ⟨_, early, young, owned, known, one, apart, covered, links, null⟩ := inv.shares
  have unparked : s.parked heap = false := by
    have free := apart thread running
    rwa [has] at free
  have phaseOther : ∀ other, other ≠ thread →
      (s.park thread heap true).phase other = s.phase other :=
    fun other different => Function.update_of_ne different ..
  have before : ∀ other phase, phase ≠ .dead → (s.park thread heap true).phase other = phase →
      s.phase other = phase ∧ other ≠ thread := by
    intro other phase alive now
    by_cases same : other = thread
    · subst same
      simp only [OwnSys.park, if_true, Function.update_self] at now
      exact absurd now.symm alive
    · rw [phaseOther other same] at now
      exact ⟨now, same⟩
  have parkedOther : ∀ each, each ≠ heap →
      (s.park thread heap true).parked each = s.parked each :=
    fun each different => Function.update_of_ne different ..
  have parkedHeap : (s.park thread heap true).parked heap = true := Function.update_self ..
  have notOwned : ∀ other, s.phase other = .running → other ≠ thread → s.tls other ≠ heap := by
    intro other runs different same
    exact different (one thread other running runs (has ▸ nonzero) (has.trans same.symm)).symm
  have shares : Shares (s.park thread heap true) := by
    refine ⟨park_list inv nonzero unparked, ?_, ?_, ?_, ?_, ?_, ?_, ?_, ?_, null⟩
    · exact fun other now => early other (before other .late nofun now).1
    · exact fun other now => young other (before other .unborn nofun now).1
    · exact fun other now => owned other (before other .running nofun now).1
    · intro each parked
      by_cases same : each = heap
      · subst same
        exact has ▸ owned thread running (has ▸ nonzero)
      · rw [parkedOther each same] at parked
        exact known each parked
    · intro first second firstNow secondNow
      exact one first second (before first .running nofun firstNow).1
        (before second .running nofun secondNow).1
    · intro other now
      obtain ⟨runs, different⟩ := before other .running nofun now
      have elsewhere := notOwned other runs different
      exact (parkedOther _ elsewhere).trans (apart other runs)
    · intro each member
      by_cases same : each = heap
      · exact Or.inl (same ▸ parkedHeap)
      · rw [parkedOther each same]
        obtain parked | ⟨other, runs, otherHas⟩ := covered each member
        · exact Or.inl parked
        · refine Or.inr ⟨other, ?_, otherHas⟩
          have different : other ≠ thread := by
            rintro rfl
            exact same (otherHas.symm.trans has)
          rw [phaseOther other different]
          exact runs
    · intro each now
      have different : each ≠ heap := by
        rintro rfl
        rw [parkedHeap] at now
        cases now
      rw [parkedOther each different] at now
      simp only [OwnSys.park, Function.update_of_ne different]
      exact links each now
  refine own_step inv shares rfl trivial phaseOther (fun _ _ => rfl) (fun _ => id) ?_ rfl ?_ nofun
  · intro other current _ otherAt
    refine parkedOther current ?_
    rintro rfl
    have point := inv.points other
    rw [otherAt] at point
    have listed := point.2
    rw [unparked] at listed
    cases listed
  · intro current collecting
    rw [at_] at collecting
    cases collecting

theorem own_enter (inv : OwnInv s) (at_ : s.pc thread = .gcAt heap) (parked : s.parked heap = true)
    (quiet : s.reaping heap = 0) :
    OwnInv { s.moveTo thread (.gcReaping heap) with
      reaping := Function.update s.reaping heap (s.reaping heap + 1) } := by
  have point := inv.points thread
  rw [at_] at point
  have nobody : ∀ other, s.pc other ≠ .gcReaping heap := by
    intro other otherAt
    have counted := inv.counted other heap otherAt
    omega
  have at_other : ∀ other, other ≠ thread →
      Function.update s.pc thread (.gcReaping heap) other = s.pc other :=
    fun other different => Function.update_of_ne different ..
  refine ⟨shares_congr inv.shares rfl rfl rfl rfl rfl rfl, fun other => ?_, ?_, ?_, ?_⟩
  · simp only [OwnSys.moveTo]
    by_cases same : other = thread
    · subst same
      rw [Function.update_self]
      exact ⟨point.1, parked⟩
    · rw [at_other other same]
      exact point_frame (inv.points other) rfl rfl (fun _ => id) fun _ _ => rfl
  · intro first second current firstAt secondAt
    simp only [OwnSys.moveTo] at firstAt secondAt
    by_cases firstMine : first = thread
    · subst firstMine
      by_cases secondMine : second = first
      · exact secondMine.symm
      · rw [Function.update_self] at firstAt
        cases firstAt
        rw [at_other second secondMine] at secondAt
        exact absurd secondAt (nobody second)
    · rw [at_other first firstMine] at firstAt
      by_cases secondMine : second = thread
      · subst secondMine
        rw [Function.update_self] at secondAt
        cases secondAt
        exact absurd firstAt (nobody first)
      · rw [at_other second secondMine] at secondAt
        exact inv.reapers first second current firstAt secondAt
  · intro other current otherAt
    simp only [OwnSys.moveTo] at otherAt
    by_cases same : other = thread
    · subst same
      rw [Function.update_self] at otherAt
      cases otherAt
      simp [quiet]
    · rw [at_other other same] at otherAt
      have different : current ≠ heap := by
        rintro rfl
        exact nobody other otherAt
      simp only [Function.update_of_ne different]
      exact inv.counted other current otherAt
  · intro current counted
    by_cases same : current = heap
    · subst same
      exact ⟨thread, Function.update_self ..⟩
    · simp only [Function.update_of_ne same] at counted
      obtain ⟨other, otherAt⟩ := inv.counts current counted
      have different : other ≠ thread := by
        rintro rfl
        rw [at_] at otherAt
        cases otherAt
      exact ⟨other, (at_other other different).trans otherAt⟩

theorem own_leave (inv : OwnInv s) (at_ : s.pc thread = .gcReaping heap) :
    OwnInv { s.moveTo thread (.gcNext heap) with
      reaping := Function.update s.reaping heap (s.reaping heap - 1) } := by
  have point := inv.points thread
  rw [at_] at point
  have one := inv.counted thread heap at_
  have others : ∀ other current,
      Function.update s.pc thread (.gcNext heap) other = .gcReaping current →
      s.pc other = .gcReaping current ∧ current ≠ heap := by
    intro other current now
    by_cases same : other = thread
    · subst same
      rw [Function.update_self] at now
      cases now
    · rw [Function.update_of_ne same] at now
      refine ⟨now, ?_⟩
      rintro rfl
      exact same (inv.reapers other thread current now at_)
  refine ⟨shares_congr inv.shares rfl rfl rfl rfl rfl rfl, fun other => ?_, ?_, ?_, ?_⟩
  · simp only [OwnSys.moveTo]
    by_cases same : other = thread
    · subst same
      rw [Function.update_self]
      exact point.1
    · rw [Function.update_of_ne same]
      exact point_frame (inv.points other) rfl rfl (fun _ => id) fun _ _ => rfl
  · intro first second current firstAt secondAt
    exact inv.reapers first second current (others first current firstAt).1
      (others second current secondAt).1
  · intro other current otherAt
    obtain ⟨before, different⟩ := others other current otherAt
    simp only [Function.update_of_ne different]
    exact inv.counted other current before
  · intro current counted
    have different : current ≠ heap := by
      rintro rfl
      simp [one] at counted
    simp only [Function.update_of_ne different] at counted
    obtain ⟨other, otherAt⟩ := inv.counts current counted
    have elsewhere : other ≠ thread := by
      rintro rfl
      rw [at_] at otherAt
      exact different (OwnPc.gcReaping.inj otherAt).symm
    exact ⟨other, (Function.update_of_ne elsewhere ..).trans otherAt⟩

theorem gc_at_ok (inv : OwnInv s) (running : s.phase thread = .running)
    (listed : heap ≠ 0 → s.parked heap = true) : PointOk s thread (.gcAt heap) := by
  refine ⟨running, fun nonzero => ⟨inv.shares.parked heap (listed nonzero), ?_⟩⟩
  rintro rfl
  have apart := inv.shares.apart thread running
  rw [listed nonzero] at apart
  cases apart

theorem head_listed (inv : OwnInv s) (nonzero : s.zombieHead ≠ 0) :
    s.parked s.zombieHead = true := by
  obtain ⟨count, chain⟩ := inv.shares.list
  have first := enumerates_head chain nonzero
  exact first

theorem next_listed (inv : OwnInv s) (nonzero : s.nextZombie heap ≠ 0) :
    s.parked (s.nextZombie heap) = true := by
  obtain ⟨count, chain⟩ := inv.shares.list
  have parked : s.parked heap = true := by
    by_contra off
    exact nonzero (inv.shares.links heap (by simpa using off))
  have next := enumerates_next chain parked nonzero
  exact next

theorem not_reaping {point : OwnPc} (at_ : s.pc thread = point)
    (other : ∀ current, point ≠ .gcReaping current) (current : Nat) :
    s.pc thread ≠ .gcReaping current :=
  fun collecting => other current (at_.symm.trans collecting)

theorem advance_inv {fresh : Nat} {last : Bool} (inv : OwnInv s)
    (orderly : OrderlyAt s last (s.pc thread))
    (stepped : advance s thread fresh last = some after) :
    OwnInv after := by
  have point := inv.points thread
  unfold advance at stepped
  cases at_ : s.pc thread with
  | idle =>
      rw [at_] at stepped
      cases stepped
  | attaching =>
      simp only [at_] at stepped orderly point
      split at stepped
      next nonzero =>
        cases stepped
        exact own_adopt inv at_ nonzero (orderly nonzero)
      next =>
        cases stepped
        exact own_move inv point (not_reaping at_ nofun) nofun
  | mapping =>
      simp only [at_] at stepped
      split at stepped
      next answer =>
        cases stepped
        exact own_map inv at_ answer.1 answer.2
      next => cases stepped
  | operating heap =>
      simp only [at_] at stepped
      cases stepped
      exact own_move inv trivial (not_reaping at_ nofun) nofun
  | gcOwn heap =>
      simp only [at_] at stepped point
      cases stepped
      exact own_move inv point.1 (not_reaping at_ nofun) nofun
  | gcSnapshot =>
      simp only [at_] at stepped point
      cases stepped
      exact own_move inv (gc_at_ok inv point (head_listed inv)) (not_reaping at_ nofun) nofun
  | gcAt current =>
      simp only [at_] at stepped orderly
      split at stepped
      next =>
        cases stepped
        exact own_move inv trivial (not_reaping at_ nofun) nofun
      next nonzero =>
        cases stepped
        obtain ⟨parked, quiet⟩ := orderly nonzero
        exact own_enter inv at_ parked quiet
  | gcReaping current =>
      simp only [at_] at stepped
      cases stepped
      exact own_leave inv at_
  | gcNext current =>
      simp only [at_] at stepped point
      cases stepped
      exact own_move inv (gc_at_ok inv point (next_listed inv)) (not_reaping at_ nofun) nofun
  | dying heap =>
      simp only [at_] at stepped point
      cases stepped
      exact own_move inv point (not_reaping at_ nofun) nofun
  | pushing heap =>
      simp only [at_] at stepped orderly
      cases stepped
      obtain rfl : last = true := orderly
      exact own_park inv at_

theorem own_step_inv {action : OwnAct} (inv : OwnInv s) (orderly : Orderly s action)
    (stepped : ownStep s action = some after) : OwnInv after := by
  cases action with
  | step thread fresh last => exact advance_inv inv orderly stepped
  | start thread =>
      simp only [ownStep] at stepped
      split at stepped
      next unborn =>
        cases stepped
        exact own_begin inv unborn
      next => cases stepped
  | call thread =>
      simp only [ownStep] at stepped
      split at stepped
      next ready =>
        have running := alive_running inv ready.1
        split at stepped
        next nonzero =>
          cases stepped
          exact own_move inv ⟨running, rfl, nonzero⟩ (not_reaping ready.2 nofun) nofun
        next zero =>
          cases stepped
          exact own_move inv ⟨running, not_not.mp zero⟩ (not_reaping ready.2 nofun) nofun
      next => cases stepped
  | gc thread =>
      simp only [ownStep] at stepped
      split at stepped
      next ready =>
        have running := alive_running inv ready.1
        split at stepped
        next nonzero =>
          cases stepped
          exact own_move inv ⟨running, rfl, nonzero⟩ (not_reaping ready.2 nofun) nofun
        next =>
          cases stepped
          exact own_move inv running (not_reaping ready.2 nofun) nofun
      next => cases stepped
  | exit thread =>
      simp only [ownStep] at stepped
      split at stepped
      next ready =>
        cases stepped
        exact own_move inv ⟨ready.1, rfl, ready.2.2⟩ (not_reaping ready.2.1 nofun) nofun
      next => cases stepped
  | finish thread =>
      simp only [ownStep] at stepped
      split at stepped
      next ready =>
        cases stepped
        obtain late | ⟨_, empty⟩ := ready.2
        · exact absurd late (inv.shares.early thread)
        · exact own_finish inv ready.1 empty
      next => cases stepped

/-! ## Steps outside the condition -/

/-- A thread that goes on after its destructor still owns a zombie. -/
theorem park_shared (inv : OwnInv s) (at_ : s.pc thread = .pushing heap) :
    ¬Exclusive (s.park thread heap false) := by
  intro exclusive
  obtain ⟨running, has, nonzero⟩ : PointOk s thread (.pushing heap) := at_ ▸ inv.points thread
  have unparked : s.parked heap = false := by
    have free := inv.shares.apart thread running
    rwa [has] at free
  obtain ⟨count, chain⟩ := @park_list s thread heap false inv nonzero unparked
  have listed : OnChain (s.park thread heap false).nextZombie heap heap :=
    (enumerates_on_chain chain).mpr (Function.update_self ..)
  refine exclusive.zombies heap listed thread ⟨?_, has⟩
  simp [OwnSys.park, Phase.alive]

theorem enter_shared (inv : OwnInv s) (at_ : s.pc thread = .gcAt heap) (nonzero : heap ≠ 0)
    (busy : ¬(s.parked heap = true ∧ s.reaping heap = 0)) :
    ¬Exclusive { s.moveTo thread (.gcReaping heap) with
      reaping := Function.update s.reaping heap (s.reaping heap + 1) } := by
  intro exclusive
  have point := inv.points thread
  rw [at_] at point
  obtain ⟨known, elsewhere⟩ := point.2 nonzero
  have operates := exclusive.alone thread heap (Or.inr (Or.inr (Or.inl (Function.update_self ..))))
  by_cases parked : s.parked heap = true
  · obtain ⟨other, otherAt⟩ := inv.counts heap fun quiet => busy ⟨parked, quiet⟩
    have different : other ≠ thread := by
      rintro rfl
      rw [at_] at otherAt
      cases otherAt
    refine (operates other different).2 (Or.inr (Or.inr (Or.inl ?_)))
    exact (Function.update_of_ne different ..).trans otherAt
  · obtain listed | ⟨other, running, has⟩ := inv.shares.covered heap known
    · exact parked listed
    · have different : other ≠ thread := by
        rintro rfl
        exact elsewhere has
      refine (operates other different).1 ⟨?_, has⟩
      simp [OwnSys.moveTo, running, Phase.alive]

theorem adopt_shared (inv : OwnInv s) (at_ : s.pc thread = .attaching)
    (busy : s.reaping s.zombieHead ≠ 0) : ¬Exclusive (s.adopt thread) := by
  intro exclusive
  obtain ⟨other, otherAt⟩ := inv.counts s.zombieHead busy
  have different : other ≠ thread := by
    rintro rfl
    rw [at_] at otherAt
    cases otherAt
  have mine : Operates (s.adopt thread) thread s.zombieHead := Or.inl (Function.update_self ..)
  refine (exclusive.alone thread s.zombieHead mine other different).2 (Or.inr (Or.inr (Or.inl ?_)))
  exact (Function.update_of_ne different ..).trans otherAt

theorem orderly_of_exclusive {action : OwnAct} (inv : OwnInv s)
    (stepped : ownStep s action = some after) (exclusive : Exclusive after) :
    Orderly s action := by
  cases action with
  | step thread fresh last =>
      simp only [ownStep] at stepped
      unfold advance at stepped
      simp only [Orderly]
      cases at_ : s.pc thread with
      | attaching =>
          simp only [at_] at stepped
          intro nonzero
          rw [if_pos nonzero] at stepped
          cases stepped
          by_contra busy
          exact adopt_shared inv at_ busy exclusive
      | gcAt current =>
          simp only [at_] at stepped
          intro nonzero
          rw [if_neg nonzero] at stepped
          cases stepped
          by_contra busy
          exact enter_shared inv at_ nonzero busy exclusive
      | pushing heap =>
          simp only [at_] at stepped
          cases stepped
          cases last with
          | true => rfl
          | false => exact absurd exclusive (park_shared inv at_)
      | idle => trivial
      | mapping => trivial
      | operating heap => trivial
      | gcOwn heap => trivial
      | gcSnapshot => trivial
      | gcReaping current => trivial
      | gcNext current => trivial
      | dying heap => trivial
  | start thread => trivial
  | call thread => trivial
  | gc thread => trivial
  | exit thread => trivial
  | finish thread => trivial

/-! ## Results -/

/-- In every run whose steps are all orderly, ownership is exclusive in every
state, and the next step keeps it so exactly when it is orderly. -/
theorem ownership_exclusive_iff {actions : List OwnAct}
    (orderly : Along ownStep Orderly ownStart actions)
    (ran : run ownStep ownStart actions = some s) :
    Exclusive s ∧ ∀ action after, ownStep s action = some after →
      (Orderly s action ↔ Exclusive after) := by
  have preserved : ∀ before action reached, OwnInv before → Orderly before action →
      ownStep before action = some reached → OwnInv reached :=
    fun before action reached inv allowed stepped => own_step_inv inv allowed stepped
  have inv := run_invariant preserved own_start_inv orderly ran
  refine ⟨exclusive inv, fun action after stepped => ⟨fun allowed => ?_, fun good => ?_⟩⟩
  · exact exclusive (own_step_inv inv allowed stepped)
  · exact orderly_of_exclusive inv stepped good

/-- A heap is mapped, parked by its thread's last code, reaped by a collector
and adopted. -/
def handOver : List OwnAct :=
  [.start 1, .call 1, .step 1 0 false, .step 1 4096 false, .step 1 0 false, .exit 1,
    .step 1 0 false, .step 1 0 true, .start 2, .gc 2, .step 2 0 false, .step 2 0 false,
    .step 2 0 false, .step 2 0 false, .step 2 0 false, .call 2, .step 2 0 false]

theorem handed_over_exclusive : ∃ s, run ownStep ownStart handOver = some s ∧
    Operates s 2 4096 ∧ ∀ other, other ≠ 2 → ¬Owns s other 4096 ∧ ¬Operates s other 4096 := by
  have final : (run ownStep ownStart handOver).map (fun s => s.pc 2) =
      some (.operating 4096) := by
    decide +kernel
  obtain ⟨s, ran, at_⟩ := Option.map_eq_some_iff.mp final
  have orderly : Along ownStep Orderly ownStart handOver := by decide +kernel
  refine ⟨s, ran, Or.inl at_, ?_⟩
  exact (ownership_exclusive_iff orderly ran).1.alone 2 4096 (Or.inl at_)

/-- Thread 1 calls the allocator from a destructor that runs after
`lz_tlh_destructor`, while thread 2 is in an operation on the heap it adopted. -/
def lateCall : List OwnAct :=
  [.start 1, .call 1, .step 1 0 false, .step 1 4096 false, .step 1 0 false, .exit 1,
    .step 1 0 false, .step 1 0 false, .start 2, .call 2, .step 2 0 false, .call 1]

theorem late_call_shares_heap : ∃ s, run ownStep ownStart lateCall = some s ∧
    Operates s 1 4096 ∧ Operates s 2 4096 ∧ ¬Exclusive s := by
  have final : (run ownStep ownStart lateCall).map (fun s => (s.pc 1, s.pc 2)) =
      some (.operating 4096, .operating 4096) := by
    decide +kernel
  obtain ⟨s, ran, at_⟩ := Option.map_eq_some_iff.mp final
  have first : Operates s 1 4096 := Or.inl (congrArg Prod.fst at_)
  have second : Operates s 2 4096 := Or.inl (congrArg Prod.snd at_)
  refine ⟨s, ran, first, second, fun exclusive => ?_⟩
  exact (exclusive.alone 1 4096 first 2 (by decide)).2 second

end Lzmalloc.HeapOwnership
