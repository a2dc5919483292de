import Lzmalloc.CallParts

/-!
# Garbage collection

Every heap that was ever mapped belongs to a running thread or is on the zombie
list, and a heap on that list has an empty outgoing batch. So one call of
`lzmalloc_gc` reaps the caller's mailbox and those of all heaps without a
thread, and then every pool is empty.
-/

namespace Lzmalloc.Collection

open SizeClasses HeapState VirtualMemoryManager PointerChain Engines ThreadHeap PublicApi StepSystem
open HeapInvariant InvariantFacts ClientView RemoteFree ThreadFrames HeapOperations ThreadLifecycle
open ApiOperations ApiRuns CallParts

set_option autoImplicit false

variable {mode : Mode} {s after : State} {g last : Ghost} {thread tlh : Nat}

/-! ## Whose heap it is -/

def OnZombieList (s : State) (tlh : Nat) : Prop := OnChain (zombieLink s) s.gZombieTlhs tlh

structure Covered (s : State) : Prop where
  below : ∀ tlh ∈ s.heaps, tlh < addressLimit
  held : ∀ tlh ∈ s.heaps, (∃ thread, s.tls thread = tlh) ∨ OnZombieList s tlh
  flushed : ∀ tlh, OnZombieList s tlh → (s.outgoingBatch tlh).count = 0

theorem zombie_list_same (same : SameThreads s after) : OnZombieList after = OnZombieList s := by
  have links : zombieLink after = zombieLink s := same.next_zombie
  funext tlh
  rw [OnZombieList, links, same.zombies]
  rfl

theorem covered_same (covered : Covered s) (same : SameThreads s after)
    (batches : ∀ tlh, OnZombieList s tlh → after.outgoingBatch tlh = s.outgoingBatch tlh) :
    Covered after := by
  refine ⟨?_, ?_, ?_⟩
  · rw [same.heaps]
    exact covered.below
  · rw [same.heaps, same.tls, zombie_list_same same]
    exact covered.held
  · intro tlh zombie
    rw [zombie_list_same same] at zombie
    rw [batches tlh zombie]
    exact covered.flushed tlh zombie

theorem covered_batches (covered : Covered s) (same : SameBatches s after) : Covered after :=
  covered_same covered same.threads fun _ _ => by rw [same.outgoing_batch]

theorem zombie_unattached (ok : ThreadsOk s) (zombie : OnZombieList s tlh) :
    s.tls thread ≠ tlh := by
  obtain ⟨member, count, chain, outside⟩ := ok.zombies
  exact (outside tlh ((enumerates_on_chain chain).mp zombie)).2 thread

theorem zombie_bound (ok : ThreadsOk s) (covered : Covered s) (zombie : OnZombieList s tlh) :
    tlh < addressLimit := by
  obtain ⟨member, count, chain, outside⟩ := ok.zombies
  exact covered.below tlh (outside tlh ((enumerates_on_chain chain).mp zombie)).1

theorem covered_adopt (covered : Covered s) (ok : ThreadsOk s) (inv : Inv mode s g)
    (unattached : s.tls thread = 0) (nonempty : s.gZombieTlhs ≠ 0) :
    Covered (adoptHeap s thread) := by
  obtain ⟨zombie, count, chain, _⟩ := ok.zombies
  have popped : Enumerates (zombieLink (adoptHeap s thread)) (adoptHeap s thread).gZombieTlhs
      (fun heap => zombie heap ∧ heap ≠ s.gZombieTlhs) (count - 1) := by
    refine (enumerates_pop chain nonempty (fun heap _ different => ?_) fun _ => Iff.rfl).2
    simp only [zombieLink, adoptHeap, Function.update_of_ne different]
  have before : ∀ tlh, OnZombieList s tlh ↔ zombie tlh := fun _ => enumerates_on_chain chain
  have listed : ∀ tlh, OnZombieList (adoptHeap s thread) tlh ↔
      OnZombieList s tlh ∧ tlh ≠ s.gZombieTlhs := by
    intro tlh
    rw [before]
    exact enumerates_on_chain popped
  refine ⟨covered.below, fun tlh member => ?_, fun tlh later => ?_⟩
  · by_cases head : tlh = s.gZombieTlhs
    · exact Or.inl ⟨thread, by simp [adoptHeap, head]⟩
    rcases covered.held tlh member with ⟨owner, owns⟩ | isZombie
    · have different : owner ≠ thread := by
        rintro rfl
        exact inv.objects.heaps.nonnull tlh member (owns.symm.trans unattached)
      exact Or.inl ⟨owner, by simpa [adoptHeap, different] using owns⟩
    · exact Or.inr ((listed tlh).mpr ⟨isZombie, head⟩)
  · exact covered.flushed tlh ((listed tlh).mp later).1

theorem covered_new {address : Nat} (covered : Covered s) (ok : ThreadsOk s) (inv : Inv mode s g)
    (unattached : s.tls thread = 0) (valid : HeapMmapValid s.heaps address) :
    Covered (newHeap s thread address) := by
  obtain ⟨_, bound, fresh⟩ := valid
  obtain ⟨zombie, count, chain, outside⟩ := ok.zombies
  have apart : ∀ heap, zombie heap → heap ≠ address := by
    rintro heap isZombie rfl
    exact fresh (outside heap isZombie).1
  have kept : Enumerates (zombieLink (newHeap s thread address)) s.gZombieTlhs zombie count := by
    refine enumerates_congr chain (fun heap isZombie => ?_) fun _ => Iff.rfl
    simp only [zombieLink, newHeap, Function.update_of_ne (apart heap isZombie)]
  have before : ∀ tlh, OnZombieList s tlh ↔ zombie tlh := fun _ => enumerates_on_chain chain
  have listed : ∀ tlh, OnZombieList (newHeap s thread address) tlh ↔ zombie tlh :=
    fun _ => enumerates_on_chain kept
  refine ⟨?_, fun tlh member => ?_, fun tlh later => ?_⟩
  · intro tlh member
    rcases List.mem_cons.mp member with rfl | old
    · exact bound
    · exact covered.below tlh old
  · by_cases new : tlh = address
    · exact Or.inl ⟨thread, by simp [newHeap, new]⟩
    have old := (List.mem_cons.mp member).resolve_left new
    rcases covered.held tlh old with ⟨owner, owns⟩ | isZombie
    · have different : owner ≠ thread := by
        rintro rfl
        exact inv.objects.heaps.nonnull tlh old (owns.symm.trans unattached)
      exact Or.inl ⟨owner, by simpa [newHeap, different] using owns⟩
    · exact Or.inr ((listed tlh).mpr ((before tlh).mp isZombie))
  · have isZombie := (listed tlh).mp later
    simp only [newHeap, Function.update_of_ne (apart tlh isZombie)]
    exact covered.flushed tlh ((before tlh).mpr isZombie)

theorem covered_attach (covered : Covered s) (ok : ThreadsOk s) (inv : Inv mode s g)
    (done : ensureTlsInit s thread = some after) : Covered after := by
  rcases ensure_tls_init_cases done with
    ⟨_, rfl⟩ | ⟨unattached, nonempty, rfl⟩ | ⟨unattached, _, address, valid, rfl⟩
  · exact covered
  · exact covered_adopt covered ok inv unattached nonempty
  · exact covered_new covered ok inv unattached valid

/-- A batch with objects has a target, so the flush of an exiting thread empties it. -/
theorem flush_empties (inv : Inv mode s g) (tlh : Nat) :
    ((lzTlhFlushOutgoingBatch s tlh).outgoingBatch tlh).count = 0 := by
  unfold lzTlhFlushOutgoingBatch
  by_cases empty : (s.outgoingBatch tlh).count = 0
  · rw [if_pos (Or.inl empty)]
    exact empty
  · have target := inv.mail.batchTarget tlh empty
    simp [empty, target]

theorem covered_retire {info : TlhInfo} (covered : Covered s) (ok : ThreadsOk s)
    (attached : s.tls thread ≠ 0) (emptied : (s.outgoingBatch (s.tls thread)).count = 0)
    (link : info.nextZombie = s.gZombieTlhs) :
    Covered
      { s with
        gZombieTlhs := s.tls thread
        tlh := Function.update s.tlh (s.tls thread) info
        tls := Function.update s.tls thread 0 } := by
  obtain ⟨zombie, count, chain, outside⟩ := ok.zombies
  have fresh : ¬zombie (s.tls thread) := fun isZombie => (outside _ isZombie).2 thread rfl
  have pushed : Enumerates
      (fun heap => (Function.update s.tlh (s.tls thread) info heap).nextZombie) (s.tls thread)
      (fun heap => heap = s.tls thread ∨ zombie heap) (count + 1) := by
    apply enumerates_push chain attached fresh
    · simp only [Function.update_self, link]
    · intro heap isZombie
      have different : heap ≠ s.tls thread := by
        rintro rfl
        exact fresh isZombie
      simp only [zombieLink, Function.update_of_ne different]
    · exact fun _ => Iff.rfl
  have before : ∀ heap, OnZombieList s heap ↔ zombie heap := fun _ => enumerates_on_chain chain
  refine ⟨covered.below, fun heap member => ?_, fun heap later => ?_⟩
  · by_cases own : heap = s.tls thread
    · exact Or.inr ((enumerates_on_chain pushed).mpr (Or.inl own))
    rcases covered.held heap member with ⟨owner, owns⟩ | isZombie
    · have different : owner ≠ thread := by
        rintro rfl
        exact own owns.symm
      exact Or.inl ⟨owner, by simpa [different] using owns⟩
    · exact Or.inr ((enumerates_on_chain pushed).mpr (Or.inr ((before heap).mp isZombie)))
  · rcases (enumerates_on_chain pushed).mp later with rfl | isZombie
    · exact emptied
    · exact covered.flushed heap ((before heap).mpr isZombie)

theorem covered_exit (covered : Covered s) (ok : ThreadsOk s) (inv : Inv mode s g) (thread : Nat) :
    Covered (threadExit s thread) := by
  unfold threadExit lzTlhDestructor
  by_cases attached : s.tls thread = 0
  · simp only [if_pos attached]
    have same : Function.update s.tls thread 0 = s.tls := by
      rw [← attached, Function.update_eq_self]
    rw [same]
    exact covered
  simp only [if_neg attached]
  have counted := flush_telemetry_outside (lzTlhFlushOutgoingBatch s (s.tls thread)) (s.tls thread)
  have frame := same_threads_trans (flush_threads s (s.tls thread)) counted.threads
  have emptied := flush_empties inv (s.tls thread)
  rw [← counted.outgoing_batch] at emptied
  have ready := covered_same covered frame fun heap zombie => by
    rw [counted.outgoing_batch]
    exact flush_outgoing s (zombie_unattached ok zombie).symm
  generalize flushTelemetry (lzTlhFlushOutgoingBatch s (s.tls thread)) (s.tls thread) = flushed at *
  rw [← frame.tls] at attached emptied ⊢
  exact covered_retire ready (threads_ok_same ok frame) attached emptied rfl

theorem gc_loop_batches (fuel : Nat) (s : State) (current : Nat) :
    SameBatches s (gcLoop fuel s current) := by
  induction fuel generalizing s current with
  | zero => exact same_batches_of_outside rfl
  | succ fuel ih =>
      unfold gcLoop
      by_cases ended : current = 0
      · rw [if_pos ended]
        exact same_batches_of_outside rfl
      · rw [if_neg ended]
        exact same_batches_trans (reap_batches s current) (ih _ _)

theorem gc_batches (s : State) (thread : Nat) : SameBatches s (lzmallocGc s thread) := by
  unfold lzmallocGc
  have own : SameBatches s (if s.tls thread ≠ 0 then lzTlhReap s (s.tls thread) else s) := by
    split
    · exact reap_batches s _
    · exact same_batches_of_outside rfl
  generalize (if s.tls thread ≠ 0 then lzTlhReap s (s.tls thread) else s) = reaped at own ⊢
  exact same_batches_trans (same_batches_trans own (gc_loop_batches _ reaped _))
    (same_batches_of_outside (purge_all_accounts _).outside)

theorem covered_part (covered : Covered s) (part : Part mode thread s after) : Covered after := by
  cases part with
  | attach rest done => exact covered_attach covered rest.threads rest.inv done
  | alloc rest attached size small =>
      exact covered_batches covered (tlh_alloc_batches s _ size)
  | allocSpan rest attached size =>
      exact covered_batches covered (same_batches_of_outside (span_alloc_accounts s _ size).outside)
  | free rest attached live owned found =>
      refine covered_same covered (tlh_free_threads s _ _) fun tlh zombie => ?_
      exact tlh_free_outgoing s _ (zombie_unattached rest.threads zombie).symm
  | external rest later only =>
      rw [only]
      exact ⟨covered.below, covered.held, covered.flushed⟩

theorem covered_does (rest : AtRest mode s g) (covered : Covered s) (does : Does mode s after) :
    Covered after := by
  cases does with
  | call thread parts =>
      induction parts with
      | refl => exact covered
      | tail _ part ih => exact covered_part ih part
  | exit thread => exact covered_exit covered rest.threads rest.inv thread
  | gc thread => exact covered_batches covered (gc_batches s thread)
  | reap tlh heap => exact covered_batches covered (reap_batches s tlh)

theorem covered_start (env : Env) (secret : BitVec 64) (telemetry : Bool) :
    Covered (initial env secret telemetry) := by
  refine ⟨fun _ member => (List.not_mem_nil member).elim,
    fun _ member => (List.not_mem_nil member).elim, ?_⟩
  rintro tlh ⟨nodes, segment, member⟩
  cases nodes with
  | nil => cases member
  | cons node rest => exact absurd segment.1.symm segment.2.1

theorem covered_run {env : Env} {secret : BitVec 64} {telemetry : Bool} {acts : List ApiAct}
    {sys : ApiSys} (fits : Along apiStep ApiFits (apiStart env secret telemetry) acts)
    (ran : run apiStep (apiStart env secret telemetry) acts = some sys) : Covered sys.state := by
  have never : False → ∀ call, env.leafMmap call = true := False.elim
  exact api_run_keeps Covered (covered_start env secret telemetry)
    (fun _ _ _ rest covered => covered_does rest covered) never fits ran

/-! ## What is empty afterwards -/

theorem reap_mailboxes (s : State) (tlh : Nat) :
    (lzTlhReap s tlh).remoteFreeHead = Function.update s.remoteFreeHead tlh 0 :=
  (reap_outside s tlh).remote_free_head

theorem reap_stays_empty {heap : Nat} (empty : s.remoteFreeHead heap = 0) (tlh : Nat) :
    (lzTlhReap s tlh).remoteFreeHead heap = 0 := by
  rw [reap_mailboxes]
  by_cases same : heap = tlh
  · rw [same, Function.update_self]
  · rw [Function.update_of_ne same]
    exact empty

theorem gc_loop_mailboxes {nodes : List Nat} {fuel current : Nat}
    (segment : Segment (zombieLink s) current nodes 0) (enough : nodes.length ≤ fuel) {heap : Nat}
    (reached : heap ∈ nodes ∨ s.remoteFreeHead heap = 0) :
    (gcLoop fuel s current).remoteFreeHead heap = 0 := by
  induction nodes generalizing s current fuel with
  | nil =>
      have ended : current = 0 := segment
      have empty := reached.resolve_left (List.not_mem_nil)
      cases fuel with
      | zero => exact empty
      | succ fuel =>
          rw [gcLoop, if_pos ended]
          exact empty
  | cons node rest ih =>
      obtain ⟨rfl, nonnull, tail⟩ := segment
      cases fuel with
      | zero => simp at enough
      | succ fuel =>
          rw [gcLoop, if_neg nonnull]
          have links : zombieLink (lzTlhReap s current) = zombieLink s :=
            (reap_threads s current).next_zombie
          rw [← links] at tail
          refine ih tail (by simpa using enough) ?_
          rcases reached with member | empty
          · rcases List.mem_cons.mp member with rfl | later
            · right
              rw [reap_mailboxes, Function.update_self]
            · exact Or.inl later
          · exact Or.inr (reap_stays_empty empty current)

/-- After a collection the caller's mailbox and those of all zombies are empty. -/
theorem gc_mailboxes (ok : ThreadsOk s) (covered : Covered s)
    (reached : tlh ≠ 0 ∧ s.tls thread = tlh ∨ OnZombieList s tlh) :
    (lzmallocGc s thread).remoteFreeHead tlh = 0 := by
  have own : SameThreads s (if s.tls thread ≠ 0 then lzTlhReap s (s.tls thread) else s) := by
    split
    · exact reap_threads s _
    · exact same_threads_refl s
  have ownEmpty : tlh ≠ 0 ∧ s.tls thread = tlh →
      (if s.tls thread ≠ 0 then lzTlhReap s (s.tls thread) else s).remoteFreeHead tlh = 0 := by
    rintro ⟨nonnull, rfl⟩
    rw [if_pos nonnull, reap_mailboxes, Function.update_self]
  unfold lzmallocGc
  generalize (if s.tls thread ≠ 0 then lzTlhReap s (s.tls thread) else s) = reaped at own ownEmpty ⊢
  have reapedOk := threads_ok_same ok own
  have reapedCovered : ∀ heap, OnZombieList reaped heap → heap < addressLimit := by
    intro heap zombie
    rw [zombie_list_same own] at zombie
    exact zombie_bound ok covered zombie
  obtain ⟨zombie, count, chain, _⟩ := reapedOk.zombies
  have listed : ∀ heap, OnZombieList reaped heap ↔ zombie heap := fun _ => enumerates_on_chain chain
  have enough : count ≤ addressLimit :=
    enumerates_bound chain fun heap isZombie => reapedCovered heap ((listed heap).mpr isZombie)
  obtain ⟨nodes, segment, _, members, length⟩ := chain
  rw [(purge_all_accounts _).outside.remote_free_head]
  apply gc_loop_mailboxes segment (by omega)
  rcases reached with attached | isZombie
  · exact Or.inr (ownEmpty attached)
  · rw [← zombie_list_same own] at isZombie
    exact Or.inl ((members tlh).mpr ((listed tlh).mp isZombie))

theorem purge_loop_pools (fuel : Nat) (s : State) (chunk : Nat) :
    (purgeLoop fuel s chunk).vmm.pools = s.vmm.pools := by
  induction fuel generalizing s chunk with
  | zero => rfl
  | succ fuel ih =>
      unfold purgeLoop
      by_cases ended : chunk = 0
      · rw [if_pos ended]
      · rw [if_neg ended]
        exact ih _ _

theorem purge_pool_pools (s : State) (index : Nat) :
    (lzVmmPurgePool s index).vmm.pools = Function.update s.vmm.pools index ⟨0, 0⟩ :=
  purge_loop_pools _ _ _

theorem purge_all_pools (s : State) {node : Nat} (bound : node < 16) :
    (lzVmmPurgeAllCaches s).vmm.pools node = ⟨0, 0⟩ := by
  have drained : ∀ (nodes : List Nat) (state : State),
      node ∈ nodes ∨ state.vmm.pools node = ⟨0, 0⟩ →
        (nodes.foldl lzVmmPurgePool state).vmm.pools node = ⟨0, 0⟩ := by
    intro nodes
    induction nodes with
    | nil => exact fun state reached => reached.resolve_left List.not_mem_nil
    | cons first rest ih =>
        intro state reached
        rw [List.foldl_cons]
        apply ih
        by_cases same : node = first
        · right
          rw [purge_pool_pools, same, Function.update_self]
        · rcases reached with member | empty
          · exact Or.inl ((List.mem_cons.mp member).resolve_left same)
          · right
            rw [purge_pool_pools, Function.update_of_ne same]
            exact empty
  unfold lzVmmPurgeAllCaches
  exact drained (List.range lzMaxNumaNodes) s (Or.inl (List.mem_range.mpr bound))

theorem gc_pools (s : State) (thread : Nat) {node : Nat} (bound : node < 16) :
    (lzmallocGc s thread).vmm.pools node = ⟨0, 0⟩ := by
  unfold lzmallocGc
  rw [purge_all_pools _ bound]

end Lzmalloc.Collection
