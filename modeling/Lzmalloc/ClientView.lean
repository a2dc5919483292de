import Lzmalloc.HeapInvariant

/-!
# What clients and threads see of an operation

`Quiet`, `Allocated` and `Released` say how an operation changes the set of live
objects, whatever it does to the lists behind them. `Steady` says that it leaves
nothing half done: no object on a detached list, no chunk taken from the manager
and neither formatted nor returned. `SameThreads` says that the
operation does not touch the bookkeeping of threads and zombie heaps.
-/

namespace Lzmalloc.ClientView

open SizeClasses HeapState HeapInvariant

set_option autoImplicit false

variable {g middle last : Ghost} {ptr : Nat} {origin : Origin}

/-- No live object appears or disappears and nothing is freed remotely. -/
structure Quiet (g last : Ghost) : Prop where
  live : ∀ ptr, last.node ptr = .live ↔ g.node ptr = .live
  leaked : ∀ ptr, last.node ptr = .leaked ↔ g.node ptr = .leaked
  flying : ∀ ptr, (last.node ptr).InFlight → (g.node ptr).InFlight
  reaping : ∀ ptr tlh, last.node ptr = .reaping tlh → g.node ptr = .reaping tlh
  record : last.record = g.record

structure Allocated (g last : Ghost) (ptr : Nat) (origin : Origin) : Prop where
  fresh : g.node ptr ≠ .live ∧ g.node ptr ≠ .leaked
  live : ∀ other, last.node other = .live ↔ other = ptr ∨ g.node other = .live
  leaked : ∀ other, last.node other = .leaked ↔ g.node other = .leaked
  flying : ∀ other, (last.node other).InFlight → (g.node other).InFlight
  reaping : ∀ other tlh, last.node other = .reaping tlh → g.node other = .reaping tlh
  record : last.record = Function.update g.record ptr origin

structure Released (g last : Ghost) (ptr : Nat) : Prop where
  live : ∀ other, last.node other = .live ↔ other ≠ ptr ∧ g.node other = .live
  leaked : ∀ other, last.node other = .leaked ↔ g.node other = .leaked
  flying : ∀ other, (last.node other).InFlight → other = ptr ∨ (g.node other).InFlight
  reaping : ∀ other tlh, last.node other = .reaping tlh → g.node other = .reaping tlh
  record : last.record = g.record

theorem quiet_refl (g : Ghost) : Quiet g g :=
  ⟨fun _ => Iff.rfl, fun _ => Iff.rfl, fun _ => id, fun _ _ => id, rfl⟩

theorem quiet_of_node (nodes : last.node = g.node) (records : last.record = g.record) :
    Quiet g last := by
  refine ⟨fun ptr => ?_, fun ptr => ?_, fun ptr flying => ?_, fun ptr tlh there => ?_, records⟩
  · rw [nodes]
  · rw [nodes]
  · rwa [nodes] at flying
  · rwa [nodes] at there

theorem quiet_trans (first : Quiet g middle) (second : Quiet middle last) : Quiet g last :=
  ⟨fun ptr => (second.live ptr).trans (first.live ptr),
    fun ptr => (second.leaked ptr).trans (first.leaked ptr),
    fun ptr flying => first.flying ptr (second.flying ptr flying),
    fun ptr tlh there => first.reaping ptr tlh (second.reaping ptr tlh there),
    second.record.trans first.record⟩

theorem quiet_allocated (first : Quiet g middle) (second : Allocated middle last ptr origin) :
    Allocated g last ptr origin := by
  refine ⟨⟨?_, ?_⟩, fun other => ?_, fun other => ?_, fun other flying => ?_,
    fun other tlh there => ?_, ?_⟩
  · exact fun live => second.fresh.1 ((first.live ptr).mpr live)
  · exact fun leaked => second.fresh.2 ((first.leaked ptr).mpr leaked)
  · rw [second.live other, first.live other]
  · rw [second.leaked other, first.leaked other]
  · exact first.flying other (second.flying other flying)
  · exact first.reaping other tlh (second.reaping other tlh there)
  · rw [second.record, first.record]

theorem quiet_released (first : Quiet g middle) (second : Released middle last ptr) :
    Released g last ptr := by
  refine ⟨fun other => ?_, fun other => ?_, fun other flying => ?_, fun other tlh there => ?_, ?_⟩
  · rw [second.live other, first.live other]
  · rw [second.leaked other, first.leaked other]
  · exact (second.flying other flying).imp id (first.flying other)
  · exact first.reaping other tlh (second.reaping other tlh there)
  · rw [second.record, first.record]

theorem released_quiet (first : Released g middle ptr) (second : Quiet middle last) :
    Released g last ptr := by
  refine ⟨fun other => ?_, fun other => ?_, fun other flying => ?_, fun other tlh there => ?_, ?_⟩
  · rw [second.live other, first.live other]
  · rw [second.leaked other, first.leaked other]
  · exact first.flying other (second.flying other flying)
  · exact first.reaping other tlh (second.reaping other tlh there)
  · rw [second.record, first.record]

theorem allocate_allocated (fresh : ¬(g.node ptr).InUse) :
    Allocated g (g.allocate ptr origin) ptr origin := by
  have free : g.node ptr ≠ .live ∧ g.node ptr ≠ .leaked := by
    constructor <;> intro there <;> simp [there, NodePlace.InUse] at fresh
  refine ⟨free, fun other => ?_, fun other => ?_, fun other flying => ?_,
    fun other tlh there => ?_, rfl⟩
  all_goals by_cases same : other = ptr
  · simp [same]
  · simp [same]
  · simp [same, free.2]
  · simp [same]
  · simp [same, NodePlace.InFlight] at flying
  · simpa [same] using flying
  · simp [same] at there
  · simpa [same] using there

theorem settle_released {place : NodePlace} (live : g.node ptr = .live)
    (gone : place ≠ .live ∧ place ≠ .leaked) (kept : ∀ tlh, place ≠ .reaping tlh) :
    Released g (g.settle ptr place) ptr := by
  refine ⟨fun other => ?_, fun other => ?_, fun other flying => ?_, fun other tlh there => ?_, rfl⟩
  all_goals by_cases same : other = ptr
  · simp [same, gone.1]
  · simp [same]
  · simp [same, live, gone.2]
  · simp [same]
  · exact Or.inl same
  · exact Or.inr (by simpa [same] using flying)
  · exact absurd (by simpa [same] using there) (kept tlh)
  · simpa [same] using there

def Landed (g last : Ghost) : Prop := ∀ ptr, (last.node ptr).InFlight → last.node ptr = g.node ptr

theorem landed_refl (g : Ghost) : Landed g g := fun _ _ => rfl

theorem landed_trans (first : Landed g middle) (second : Landed middle last) : Landed g last := by
  intro ptr flying
  have between := second ptr flying
  rw [between] at flying
  rw [between, first ptr flying]

theorem settle_landed {place : NodePlace} (down : ¬place.InFlight) :
    Landed g (g.settle ptr place) := by
  intro other flying
  by_cases same : other = ptr
  · simp [same, down] at flying
  · simp [same]

/-- Every reap cursor is where it was and no chunk has been dropped. -/
structure Steady (g last : Ghost) : Prop where
  cursor : last.cursor = g.cursor
  loose : ∀ chunk, last.kind chunk = .loose → g.kind chunk = .loose

theorem steady_of_kind (cursors : last.cursor = g.cursor) (kinds : last.kind = g.kind) :
    Steady g last :=
  ⟨cursors, fun chunk loose => by rwa [kinds] at loose⟩

theorem steady_refl (g : Ghost) : Steady g g := steady_of_kind rfl rfl

theorem steady_trans (first : Steady g middle) (second : Steady middle last) : Steady g last :=
  ⟨second.cursor.trans first.cursor,
    fun chunk loose => first.loose chunk (second.loose chunk loose)⟩

/-! ## Roles of chunks -/

/-- The slab descriptor of a chunk that is no slab counts no objects. -/
def Cleared (slab : Nat → Slab) (kind : Nat → BlockKind) : Prop :=
  ∀ chunk, (∀ tlh classIdx, kind chunk ≠ .slab tlh classIdx) →
    (slab (chunk + 64)).usedObjects = 0

/-- The operation is steady and leaves no counter behind in a chunk that stops
being a slab. -/
structure Course (slab : Nat → Slab) (g : Ghost) (after : Nat → Slab) (last : Ghost) : Prop
    extends Steady g last where
  cleared : Cleared slab g.kind → Cleared after last.kind

/-- Chunks keep their roles or go back to the manager, blocks stay blocks of
their slab, and no span that is kept has lost its last object. -/
structure Swept (slab : Nat → Slab) (g : Ghost) (after : Nat → Slab) (last : Ghost) : Prop
    extends Course slab g after last where
  kinds : ∀ chunk, last.kind chunk = g.kind chunk ∨ ∃ place, last.kind chunk = .idle place
  present : ∀ ptr tlh classIdx, last.kind (chunkBase ptr) = .slab tlh classIdx →
    g.node ptr ≠ .none → last.node ptr ≠ .none
  tenants : ∀ chunk tlh, last.kind chunk = .span tlh →
    (∃ ptr, chunkBase ptr = chunk ∧ g.node ptr ≠ .none) →
      ∃ ptr, chunkBase ptr = chunk ∧ last.node ptr ≠ .none

section Roles

variable {slab between after : Nat → Slab}

theorem course_trans (first : Course slab g between middle)
    (second : Course between middle after last) :
    Course slab g after last :=
  ⟨steady_trans first.toSteady second.toSteady, fun clear => second.cleared (first.cleared clear)⟩

theorem course_of_kind (cursors : last.cursor = g.cursor) (kinds : last.kind = g.kind)
    (counters : ∀ chunk, (∀ tlh classIdx, g.kind chunk ≠ .slab tlh classIdx) →
      (after (chunk + 64)).usedObjects = (slab (chunk + 64)).usedObjects) :
    Course slab g after last := by
  refine ⟨steady_of_kind cursors kinds, fun clear chunk other => ?_⟩
  rw [kinds] at other
  rw [counters chunk other]
  exact clear chunk other

theorem course_same (cursors : last.cursor = g.cursor) (kinds : last.kind = g.kind) :
    Course slab g slab last :=
  course_of_kind cursors kinds fun _ _ => rfl

theorem course_update {chunk tlh classIdx : Nat} (descriptor : Slab)
    (isSlab : g.kind chunk = .slab tlh classIdx) (cursors : last.cursor = g.cursor)
    (kinds : last.kind = g.kind) :
    Course slab g (Function.update slab (chunk + 64) descriptor) last := by
  refine course_of_kind cursors kinds fun base other => ?_
  have different : base + 64 ≠ chunk + 64 := by
    intro same
    obtain rfl : base = chunk := Nat.add_right_cancel same
    exact other tlh classIdx isSlab
  rw [Function.update_of_ne different]

theorem swept_of_course (course : Course slab g after last) (kinds : last.kind = g.kind)
    (nodes : ∀ ptr, g.node ptr ≠ .none → last.node ptr ≠ .none) : Swept slab g after last := by
  refine ⟨course, fun chunk => Or.inl (by rw [kinds]), fun ptr _ _ _ => nodes ptr, ?_⟩
  rintro chunk tlh _ ⟨ptr, inside, present⟩
  exact ⟨ptr, inside, nodes ptr present⟩

theorem swept_refl (slab : Nat → Slab) (g : Ghost) : Swept slab g slab g :=
  swept_of_course (course_same rfl rfl) rfl fun _ => id

theorem swept_kind (swept : Swept slab g after last) {chunk : Nat}
    (kept : ∀ place, last.kind chunk ≠ .idle place) : last.kind chunk = g.kind chunk := by
  refine (swept.kinds chunk).resolve_right ?_
  rintro ⟨place, idle⟩
  exact kept place idle

theorem swept_trans (first : Swept slab g between middle)
    (second : Swept between middle after last) :
    Swept slab g after last := by
  refine ⟨course_trans first.toCourse second.toCourse, fun chunk => ?_, ?_, ?_⟩
  · rcases second.kinds chunk with same | idle
    · rw [same]
      exact first.kinds chunk
    · exact Or.inr idle
  · intro ptr tlh classIdx isSlab present
    have before :=
      swept_kind second (by simp [isSlab] : ∀ place, last.kind (chunkBase ptr) ≠ .idle place)
    refine second.present ptr tlh classIdx isSlab ?_
    exact first.present ptr tlh classIdx (before.symm.trans isSlab) present
  · intro chunk tlh isSpan tenant
    have before := swept_kind second (by simp [isSpan] : ∀ place, last.kind chunk ≠ .idle place)
    exact second.tenants chunk tlh isSpan
      (first.tenants chunk tlh (before.symm.trans isSpan) tenant)

end Roles

/-! ## Threads -/

/-- The bookkeeping of threads and zombie heaps, direct objects and environment. -/
structure ThreadView where
  env : Env
  tls : Nat → Nat
  zombies : Nat
  nextZombie : Nat → Nat
  heaps : List Nat
  direct : Nat → DirectInfo
  directs : List Nat

def threadView (s : State) : ThreadView where
  env := s.env
  tls := s.tls
  zombies := s.gZombieTlhs
  nextZombie := fun tlh => (s.tlh tlh).nextZombie
  heaps := s.heaps
  direct := s.direct
  directs := s.directs

def SameThreads (s after : State) : Prop := threadView after = threadView s

namespace SameThreads

variable {s after : State}

theorem env (same : SameThreads s after) : after.env = s.env := congrArg ThreadView.env same

theorem tls (same : SameThreads s after) : after.tls = s.tls := congrArg ThreadView.tls same

theorem zombies (same : SameThreads s after) : after.gZombieTlhs = s.gZombieTlhs :=
  congrArg ThreadView.zombies same

theorem next_zombie (same : SameThreads s after) :
    (fun tlh => (after.tlh tlh).nextZombie) = fun tlh => (s.tlh tlh).nextZombie :=
  congrArg ThreadView.nextZombie same

theorem heaps (same : SameThreads s after) : after.heaps = s.heaps :=
  congrArg ThreadView.heaps same

theorem direct (same : SameThreads s after) : after.direct = s.direct :=
  congrArg ThreadView.direct same

theorem directs (same : SameThreads s after) : after.directs = s.directs :=
  congrArg ThreadView.directs same

end SameThreads

theorem same_threads_refl (s : State) : SameThreads s s := rfl

theorem same_threads_trans {s middle after : State} (first : SameThreads s middle)
    (second : SameThreads middle after) : SameThreads s after :=
  Eq.trans second first

/-! ## Everything outside the engines -/

def heapIdentity (info : TlhInfo) : TlhInfo :=
  { info with localBytesAllocBatch := 0, localBytesFreeBatch := 0, bytesAllocated := 0 }

/-- What no engine writes: threads, settings, batches and mailboxes. -/
structure OutsideView where
  threads : ThreadView
  secret : BitVec 64
  telemetry : Bool
  tlhCalls : Nat
  threadCounter : Nat
  identity : Nat → TlhInfo
  remoteFreeHead : Nat → Nat
  outgoingBatch : Nat → Batch

def outsideView (s : State) : OutsideView where
  threads := threadView s
  secret := s.secret
  telemetry := s.telemetry
  tlhCalls := s.tlhCalls
  threadCounter := s.gThreadCounter
  identity := fun tlh => heapIdentity (s.tlh tlh)
  remoteFreeHead := s.remoteFreeHead
  outgoingBatch := s.outgoingBatch

def SameOutside (s after : State) : Prop := outsideView after = outsideView s

namespace SameOutside

variable {s after : State}

theorem threads (same : SameOutside s after) : SameThreads s after :=
  congrArg OutsideView.threads same

theorem secret (same : SameOutside s after) : after.secret = s.secret :=
  congrArg OutsideView.secret same

theorem telemetry (same : SameOutside s after) : after.telemetry = s.telemetry :=
  congrArg OutsideView.telemetry same

theorem identity (same : SameOutside s after) (tlh : Nat) :
    heapIdentity (after.tlh tlh) = heapIdentity (s.tlh tlh) :=
  congrFun (congrArg OutsideView.identity same) tlh

theorem remote_free_head (same : SameOutside s after) : after.remoteFreeHead = s.remoteFreeHead :=
  congrArg OutsideView.remoteFreeHead same

theorem outgoing_batch (same : SameOutside s after) : after.outgoingBatch = s.outgoingBatch :=
  congrArg OutsideView.outgoingBatch same

end SameOutside

def SameBatches (s after : State) : Prop :=
  outsideView after = { outsideView s with remoteFreeHead := after.remoteFreeHead }

namespace SameBatches

variable {s after : State}

theorem threads (same : SameBatches s after) : SameThreads s after :=
  congrArg OutsideView.threads same

theorem telemetry (same : SameBatches s after) : after.telemetry = s.telemetry :=
  congrArg OutsideView.telemetry same

theorem identity (same : SameBatches s after) (tlh : Nat) :
    heapIdentity (after.tlh tlh) = heapIdentity (s.tlh tlh) :=
  congrFun (congrArg OutsideView.identity same) tlh

theorem outgoing_batch (same : SameBatches s after) : after.outgoingBatch = s.outgoingBatch :=
  congrArg OutsideView.outgoingBatch same

end SameBatches

theorem same_batches_of_outside {s after : State} (same : SameOutside s after) :
    SameBatches s after := by
  rw [SameBatches, same.remote_free_head]
  exact same

theorem same_batches_trans {s middle after : State} (first : SameBatches s middle)
    (second : SameBatches middle after) : SameBatches s after := by
  rw [SameBatches, second, first]

theorem same_outside_refl (s : State) : SameOutside s s := rfl

theorem same_outside_trans {s middle after : State} (first : SameOutside s middle)
    (second : SameOutside middle after) : SameOutside s after :=
  Eq.trans second first

/-! ## Counters -/

/-- Everything outside the engines, with the telemetry. -/
structure AccountsView where
  outside : OutsideView
  slots : Nat → BitVec 64
  tlh : Nat → TlhInfo

def accountsView (s : State) : AccountsView where
  outside := outsideView s
  slots := s.slots
  tlh := s.tlh

def SameAccounts (s after : State) : Prop := accountsView after = accountsView s

namespace SameAccounts

variable {s after : State}

theorem outside (same : SameAccounts s after) : SameOutside s after :=
  congrArg AccountsView.outside same

theorem slots (same : SameAccounts s after) : after.slots = s.slots :=
  congrArg AccountsView.slots same

theorem tlh (same : SameAccounts s after) : after.tlh = s.tlh :=
  congrArg AccountsView.tlh same

end SameAccounts

theorem same_accounts_refl (s : State) : SameAccounts s s := rfl

theorem same_accounts_trans {s middle after : State} (first : SameAccounts s middle)
    (second : SameAccounts middle after) : SameAccounts s after :=
  Eq.trans second first

end Lzmalloc.ClientView
