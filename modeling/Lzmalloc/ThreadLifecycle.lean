import Lzmalloc.DirectObjects

/-!
# Threads and zombie heaps

A heap belongs to one running thread, or it is on the zombie list, or it has
been dropped by a thread that is gone. Starting, exiting and garbage collection
keep the list well formed and move no live object.
-/

namespace Lzmalloc.ThreadLifecycle

open SizeClasses HeapState VirtualMemoryManager PointerChain Engines ThreadHeap PublicApi
open HeapInvariant InvariantFacts ClientView RemoteFree ThreadFrames HeapOperations

set_option autoImplicit false

variable {mode : Mode} {s after : State} {g : Ghost} {thread : Nat}

def zombieLink (s : State) (tlh : Nat) : Nat := (s.tlh tlh).nextZombie

structure ThreadsOk (s : State) : Prop where
  attached : ∀ thread, s.tls thread ≠ 0 → s.tls thread ∈ s.heaps
  apart : ∀ left right, s.tls left ≠ 0 → s.tls left = s.tls right → left = right
  zombies : ∃ zombie count, Enumerates (zombieLink s) s.gZombieTlhs zombie count ∧
    ∀ tlh, zombie tlh → tlh ∈ s.heaps ∧ ∀ thread, s.tls thread ≠ tlh

theorem threads_ok_same (ok : ThreadsOk s) (same : SameThreads s after) : ThreadsOk after := by
  obtain ⟨attached, apart, zombie, count, chain, outside⟩ := ok
  have links : zombieLink after = zombieLink s := same.next_zombie
  refine ⟨?_, ?_, zombie, count, ?_, ?_⟩
  · rw [same.tls, same.heaps]
    exact attached
  · rw [same.tls]
    exact apart
  · rw [links, same.zombies]
    exact chain
  · rw [same.tls, same.heaps]
    exact outside

/-! ## Thread start -/

def startedInfo (s : State) (info : TlhInfo) : TlhInfo :=
  { info with
    threadId := s.gThreadCounter
    isZombie := 0
    localBytesAllocBatch := 0
    localBytesFreeBatch := 0
    nextZombie := 0
    statSlot :=
      if s.telemetry then
        some (lzThreadSlotBaseIdx + s.gThreadCounter % (lzMaxTelemetrySlots - lzThreadSlotBaseIdx))
      else none }

def adoptHeap (s : State) (thread : Nat) : State :=
  { s with
    tls := Function.update s.tls thread s.gZombieTlhs
    gZombieTlhs := (s.tlh s.gZombieTlhs).nextZombie
    gThreadCounter := (s.gThreadCounter + 1) % 2 ^ 32
    tlh := Function.update s.tlh s.gZombieTlhs (startedInfo s (s.tlh s.gZombieTlhs)) }

def newHeap (s : State) (thread address : Nat) : State :=
  { s with
    tls := Function.update s.tls thread address
    gThreadCounter := (s.gThreadCounter + 1) % 2 ^ 32
    tlhCalls := s.tlhCalls + 1
    heaps := address :: s.heaps
    bins := Function.update s.bins address fun _ => {}
    activeSpans := Function.update s.activeSpans address 0
    remoteFreeHead := Function.update s.remoteFreeHead address 0
    outgoingBatch := Function.update s.outgoingBatch address {}
    tlh := Function.update s.tlh address (startedInfo s {}) }

theorem ensure_tls_init_cases (done : ensureTlsInit s thread = some after) :
    (s.tls thread ≠ 0 ∧ after = s) ∨
      (s.tls thread = 0 ∧ s.gZombieTlhs ≠ 0 ∧ after = adoptHeap s thread) ∨
      (s.tls thread = 0 ∧ s.gZombieTlhs = 0 ∧
        ∃ address, HeapMmapValid s.heaps address ∧ after = newHeap s thread address) := by
  unfold ensureTlsInit at done
  by_cases attached : s.tls thread ≠ 0
  · rw [if_pos attached] at done
    exact Or.inl ⟨attached, (Option.some.inj done).symm⟩
  rw [if_neg attached] at done
  have unattached : s.tls thread = 0 := not_not.mp attached
  right
  by_cases empty : s.gZombieTlhs = 0
  · have none : (lzResurrectZombie s).1 = 0 := by simp [lzResurrectZombie, empty]
    simp only [none, ne_eq, not_true_eq_false, if_false, mapHeap] at done
    cases answer : s.env.tlhMmap s.tlhCalls with
    | none => simp [answer] at done
    | some address =>
        simp only [answer] at done
        by_cases valid : HeapMmapValid s.heaps address
        · simp only [if_pos valid, Option.some.injEq] at done
          refine Or.inr ⟨unattached, empty, address, valid, ?_⟩
          rw [← done]
          simp only [attachHeap, lzTlhInit, newHeap, startedInfo, Function.update_idem,
            Function.update_self]
        · simp [valid] at done
  · simp only [ne_eq, empty, not_false_eq_true, if_true, Option.some.injEq,
      lzResurrectZombie, if_false] at done
    refine Or.inl ⟨unattached, empty, ?_⟩
    rw [← done]
    simp only [attachHeap, adoptHeap, startedInfo, Function.update_idem, Function.update_self]

theorem threads_ok_attach {tlh : Nat} (ok : ThreadsOk s)
    (tls : after.tls = Function.update s.tls thread tlh) (known : tlh ∈ after.heaps)
    (heaps : ∀ heap ∈ s.heaps, heap ∈ after.heaps) (free : ∀ other, s.tls other ≠ tlh)
    (zombies : ∃ zombie count, Enumerates (zombieLink after) after.gZombieTlhs zombie count ∧
      ∀ heap, zombie heap → heap ≠ tlh ∧ heap ∈ s.heaps ∧ ∀ other, s.tls other ≠ heap) :
    ThreadsOk after := by
  obtain ⟨zombie, count, chain, outside⟩ := zombies
  refine ⟨?_, ?_, zombie, count, chain, ?_⟩
  · intro other attached
    rw [tls] at attached ⊢
    by_cases same : other = thread
    · rw [same, Function.update_self]
      exact known
    · rw [Function.update_of_ne same] at attached ⊢
      exact heaps _ (ok.attached other attached)
  · intro left right attached same
    rw [tls] at attached same
    by_cases leftNew : left = thread
    · by_cases rightNew : right = thread
      · rw [leftNew, rightNew]
      · rw [leftNew, Function.update_self, Function.update_of_ne rightNew] at same
        exact absurd same.symm (free right)
    · rw [Function.update_of_ne leftNew] at attached same
      by_cases rightNew : right = thread
      · rw [rightNew, Function.update_self] at same
        exact absurd same (free left)
      · rw [Function.update_of_ne rightNew] at same
        exact ok.apart left right attached same
  · intro heap isZombie
    obtain ⟨different, member, unowned⟩ := outside heap isZombie
    refine ⟨heaps heap member, fun other => ?_⟩
    rw [tls]
    by_cases same : other = thread
    · rw [same, Function.update_self]
      exact different.symm
    · rw [Function.update_of_ne same]
      exact unowned other

structure SameLookups (s after : State) : Prop where
  rtree : after.rtree = s.rtree
  direct : after.direct = s.direct
  directs : after.directs = s.directs

theorem inv_ensure_tls_init (inv : Inv mode s g) (ok : ThreadsOk s)
    (done : ensureTlsInit s thread = some after) :
    Inv mode after g ∧ ThreadsOk after ∧ after.tls thread ≠ 0 ∧ SameLookups s after := by
  obtain ⟨zombie, count, chain, outside⟩ := ok.zombies
  rcases ensure_tls_init_cases done with
    ⟨attached, rfl⟩ | ⟨_, nonempty, rfl⟩ | ⟨_, _, address, ⟨positive, _, fresh⟩, rfl⟩
  · exact ⟨inv, ok, attached, rfl, rfl, rfl⟩
  · have isZombie := enumerates_head chain nonempty
    obtain ⟨known, unowned⟩ := outside _ isZombie
    refine ⟨{ inv.toCore with filled := inv.filled }, ?_, ?_, rfl, rfl, rfl⟩
    · refine threads_ok_attach ok rfl known (fun _ => id) unowned
        ⟨fun heap => zombie heap ∧ heap ≠ s.gZombieTlhs, count - 1, ?_, ?_⟩
      · apply And.right
        apply enumerates_pop chain nonempty
        · intro heap _ different
          simp only [zombieLink, adoptHeap, Function.update_of_ne different]
        · exact fun _ => Iff.rfl
      · rintro heap ⟨listed, different⟩
        exact ⟨different, outside heap listed⟩
    · simpa [adoptHeap] using nonempty
  · have nonnull : address ≠ 0 := Nat.pos_iff_ne_zero.mp positive
    have initialised := inv_tlh_init inv fresh nonnull s.gThreadCounter (s.tlhCalls + 1)
    have unowned : ∀ other, s.tls other ≠ address := by
      rintro other rfl
      exact fresh (ok.attached other nonnull)
    refine ⟨{ initialised.toCore with filled := initialised.filled }, ?_, ?_, rfl, rfl, rfl⟩
    · refine threads_ok_attach ok rfl List.mem_cons_self
        (fun heap member => List.mem_cons_of_mem address member) unowned ⟨zombie, count, ?_, ?_⟩
      · apply enumerates_congr chain
        · intro heap isZombie
          have different : heap ≠ address := by
            rintro rfl
            exact fresh (outside heap isZombie).1
          simp only [zombieLink, newHeap, Function.update_of_ne different]
        · exact fun _ => Iff.rfl
      · intro heap isZombie
        refine ⟨?_, outside heap isZombie⟩
        rintro rfl
        exact fresh (outside heap isZombie).1
    · simp [newHeap, nonnull]

/-! ## Thread exit -/

theorem inv_flush_telemetry (inv : Inv mode s g) (tlh : Nat) :
    Inv mode (flushTelemetry s tlh) g := by
  simp only [flushTelemetry]
  split
  · exact inv
  · exact { inv.toCore with filled := inv.filled }

theorem flush_telemetry_outside (s : State) (tlh : Nat) : SameOutside s (flushTelemetry s tlh) := by
  simp only [flushTelemetry]
  split
  · exact same_outside_refl s
  · exact info_outside s tlh _ _ rfl

theorem threads_ok_retire {info : TlhInfo} (ok : ThreadsOk s) (attached : s.tls thread ≠ 0)
    (link : info.nextZombie = s.gZombieTlhs) :
    ThreadsOk
      { s with
        gZombieTlhs := s.tls thread
        tlh := Function.update s.tlh (s.tls thread) info
        tls := Function.update s.tls thread 0 } := by
  obtain ⟨zombie, count, chain, outside⟩ := ok.zombies
  have fresh : ¬zombie (s.tls thread) := fun isZombie => (outside _ isZombie).2 thread rfl
  refine ⟨?_, ?_, fun tlh => tlh = s.tls thread ∨ zombie tlh, count + 1, ?_, ?_⟩
  · intro other there
    by_cases same : other = thread
    · simp [same] at there
    · simp only [Function.update_of_ne same] at there ⊢
      exact ok.attached other there
  · intro left right there same
    by_cases leftGone : left = thread
    · simp [leftGone] at there
    · simp only [Function.update_of_ne leftGone] at there same
      by_cases rightGone : right = thread
      · simp only [rightGone, Function.update_self] at same
        exact absurd same there
      · simp only [Function.update_of_ne rightGone] at same
        exact ok.apart left right there same
  · apply enumerates_push chain attached fresh
    · simp only [zombieLink, Function.update_self, link]
    · intro heap isZombie
      have different : heap ≠ s.tls thread := by
        rintro rfl
        exact fresh isZombie
      simp only [zombieLink, Function.update_of_ne different]
    · exact fun _ => Iff.rfl
  · rintro tlh (rfl | isZombie)
    · refine ⟨ok.attached thread attached, fun other => ?_⟩
      by_cases same : other = thread
      · simpa [same] using attached.symm
      · simp only [Function.update_of_ne same]
        intro owner
        exact same (ok.apart thread other attached owner.symm).symm
    · obtain ⟨member, unowned⟩ := outside tlh isZombie
      refine ⟨member, fun other => ?_⟩
      by_cases same : other = thread
      · simpa [same] using (enumerates_nonnull chain isZombie).symm
      · simpa only [Function.update_of_ne same] using unowned other

/-- Thread exit moves the objects of the outgoing batch and nothing else. -/
theorem inv_thread_exit (inv : Inv mode s g) (ok : ThreadsOk s) (thread : Nat) :
    ∃ node, Inv mode (threadExit s thread) { g with node := node } ∧
      Quiet g { g with node := node } ∧ ThreadsOk (threadExit s thread) ∧
      (threadExit s thread).direct = s.direct ∧ (threadExit s thread).directs = s.directs := by
  unfold threadExit lzTlhDestructor
  by_cases attached : s.tls thread = 0
  · simp only [if_pos attached]
    have same : Function.update s.tls thread 0 = s.tls := by
      rw [← attached, Function.update_eq_self]
    rw [same]
    exact ⟨g.node, inv, quiet_refl g, ok, by simp⟩
  · simp only [if_neg attached]
    obtain ⟨node, flushed, quiet, _⟩ := inv_flush inv (s.tls thread)
    have counted := inv_flush_telemetry flushed (s.tls thread)
    have frame := same_threads_trans (flush_threads s (s.tls thread))
      (flush_telemetry_outside (lzTlhFlushOutgoingBatch s (s.tls thread)) (s.tls thread)).threads
    generalize flushTelemetry (lzTlhFlushOutgoingBatch s (s.tls thread)) (s.tls thread) = ready at *
    refine ⟨node, { counted.toCore with filled := counted.filled }, quiet, ?_, frame.direct,
      frame.directs⟩
    rw [← frame.tls]
    rw [← frame.tls] at attached
    exact threads_ok_retire (threads_ok_same ok frame) attached rfl

/-! ## Garbage collection -/

/-- A part of an operation that moves no live object and leaves nothing half
done. -/
def Housekeeping (mode : Mode) (s : State) (g : Ghost) (after : State) : Prop :=
  SameThreads s after ∧ ∃ last, Inv mode after last ∧ Quiet g last ∧ Steady g last

/-- Housekeeping that takes chunks back and hands none out. -/
def Sweeping (mode : Mode) (s : State) (g : Ghost) (after : State) : Prop :=
  SameThreads s after ∧ ∃ last, Inv mode after last ∧ Quiet g last ∧ Swept s.slab g after.slab last

theorem housekeeping_of_sweeping (work : Sweeping mode s g after) :
    Housekeeping mode s g after := by
  obtain ⟨frame, last, inv, quiet, swept⟩ := work
  exact ⟨frame, last, inv, quiet, swept.toSteady⟩

theorem sweeping_refl (inv : Inv mode s g) : Sweeping mode s g s :=
  ⟨same_threads_refl s, g, inv, quiet_refl g, swept_refl s.slab g⟩

theorem sweeping_trans {middle : State} (idle : ∀ tlh, g.cursor tlh = 0)
    (first : Sweeping mode s g middle)
    (second : ∀ last, Inv mode middle last → (∀ tlh, last.cursor tlh = 0) →
      Sweeping mode middle last after) : Sweeping mode s g after := by
  obtain ⟨frame, last, inv, quiet, swept⟩ := first
  have stillIdle : ∀ tlh, last.cursor tlh = 0 := by
    intro tlh
    rw [swept.cursor]
    exact idle tlh
  obtain ⟨later, final, finalInv, finalQuiet, finalSwept⟩ := second last inv stillIdle
  exact ⟨same_threads_trans frame later, final, finalInv, quiet_trans quiet finalQuiet,
    swept_trans swept finalSwept⟩

theorem sweeping_reap (inv : Inv mode s g) (idle : ∀ tlh, g.cursor tlh = 0) (tlh : Nat) :
    Sweeping mode s g (lzTlhReap s tlh) := by
  obtain ⟨last, lastInv, quiet, swept, _⟩ := inv_reap inv (idle tlh)
  exact ⟨reap_threads s tlh, last, lastInv, quiet, swept⟩

theorem sweeping_gc_loop (fuel : Nat) {current : Nat} (inv : Inv mode s g)
    (idle : ∀ tlh, g.cursor tlh = 0) : Sweeping mode s g (gcLoop fuel s current) := by
  induction fuel generalizing s g current with
  | zero => exact sweeping_refl inv
  | succ fuel ih =>
      unfold gcLoop
      by_cases ended : current = 0
      · rw [if_pos ended]
        exact sweeping_refl inv
      · rw [if_neg ended]
        exact sweeping_trans idle (sweeping_reap inv idle current) fun last reaped => ih reaped

theorem sweeping_gc (inv : Inv mode s g) (idle : ∀ tlh, g.cursor tlh = 0) (thread : Nat) :
    Sweeping mode s g (lzmallocGc s thread) := by
  unfold lzmallocGc
  have own : Sweeping mode s g (if s.tls thread ≠ 0 then lzTlhReap s (s.tls thread) else s) := by
    split
    · exact sweeping_reap inv idle _
    · exact sweeping_refl inv
  generalize (if s.tls thread ≠ 0 then lzTlhReap s (s.tls thread) else s) = reaped at own ⊢
  have walked : Sweeping mode s g (gcLoop addressLimit reaped reaped.gZombieTlhs) :=
    sweeping_trans idle own fun last reapedInv => sweeping_gc_loop addressLimit reapedInv
  apply sweeping_trans idle walked
  intro last walkedInv _
  obtain ⟨final, finalInv, quiet, swept⟩ := inv_purge walkedInv
  exact ⟨(purge_all_accounts _).outside.threads, final, finalInv, quiet, swept⟩

end Lzmalloc.ThreadLifecycle
