import Lzmalloc.VmmRaces

/-!
# Contracts of the memory manager under races

No interleaving loses a chunk or has it in two places, and no guard ever drops
one. A null answer does not always mean that the operating system refused: the
global lock is released around the mapping and taken again only once.
-/

namespace Lzmalloc.VmmContracts

open SizeClasses HeapState VirtualMemoryManager PointerChain HeapInvariant StepSystem VmmRaces

set_option autoImplicit false

/-- Where a chunk can be, seen from the concrete state. -/
inductive VmmSpot
  | pool (index : Nat)
  | global
  | call (thread : Nat)
  | heap (tlh : Nat)

def Carried (s : VmmSys) (thread chunk : Nat) : Prop :=
  match s.pc thread with
  | .poolHit _ carried => chunk = carried
  | .globalHit _ carried _ => chunk = carried
  | .formatting _ carried => chunk = carried
  | .destroying _ carried => chunk = carried
  | .freeing carried => chunk = carried
  | .poolFree carried => chunk = carried
  | .globalFree carried => chunk = carried
  | .flushing _ detached => OnChain s.state.vmm.next detached chunk
  | _ => False

def AtSpot (s : VmmSys) (chunk : Nat) : VmmSpot → Prop
  | .pool index =>
      index < lzMaxNumaNodes ∧ OnChain s.state.vmm.next (s.state.vmm.pools index).freeChunks chunk
  | .global => OnChain s.state.vmm.next s.state.vmm.globalFreeChunks chunk
  | .call thread => Carried s thread chunk
  | .heap tlh => ∃ engine, s.held chunk = some ⟨tlh, engine⟩

/-- Every chunk is in one place, the pools count what they hold and hold their
own node's chunks, and no guard has dropped a chunk. -/
structure Conserved (s : VmmSys) : Prop where
  once : ∀ chunk ∈ s.state.vmm.carved, ∃! spot, AtSpot s chunk spot
  pools : ∀ index < lzMaxNumaNodes, ∃ nodes,
    Segment s.state.vmm.next (s.state.vmm.pools index).freeChunks nodes 0 ∧ nodes.Nodup ∧
      nodes.length = (s.state.vmm.pools index).availableCount ∧
      nodes.length ≤ lzVmmMaxCachedChunks ∧
      ∀ chunk ∈ nodes, (s.state.vmm.header chunk).nodeId = index ∧ magicOk s.state.vmm chunk
  dropped : s.dropped = []

variable {s : VmmSys} {place : Nat → Option VmmPlace} {chunk : Nat}

theorem carried_iff (inv : RaceInv s place) (thread : Nat) :
    Carried s thread chunk ↔ place chunk = some (.transit thread) := by
  have point := inv.points thread
  unfold Carried
  cases at_ : s.pc thread with
  | idle =>
      rw [at_] at point
      exact iff_of_false id (point chunk)
  | poolHit lease carried =>
      rw [at_] at point
      exact (point.1 chunk).symm
  | globalHit lease carried node =>
      rw [at_] at point
      exact (point.1 chunk).symm
  | formatting lease carried =>
      rw [at_] at point
      exact (point.1 chunk).symm
  | destroying lease carried =>
      rw [at_] at point
      exact (point.1 chunk).symm
  | freeing carried =>
      rw [at_] at point
      exact (point.1 chunk).symm
  | poolFree carried =>
      rw [at_] at point
      exact (point.1 chunk).symm
  | globalFree carried =>
      rw [at_] at point
      exact (point chunk).symm
  | purging index =>
      rw [at_] at point
      exact iff_of_false id (point chunk)
  | flushing index detached =>
      rw [at_] at point
      obtain ⟨count, chain⟩ := point
      exact enumerates_on_chain chain
  | poolAlloc lease node =>
      rw [at_] at point
      exact iff_of_false id (point.1 chunk)
  | globalAlloc lease node =>
      rw [at_] at point
      exact iff_of_false id (point.1 chunk)
  | mapping lease node =>
      rw [at_] at point
      exact iff_of_false id (point.1 chunk)
  | carving lease node alignedAddr =>
      rw [at_] at point
      exact iff_of_false id (point.1 chunk)
  | globalRetry lease node granted =>
      rw [at_] at point
      exact iff_of_false id (point.1 chunk)

theorem at_pool_iff (inv : RaceInv s place) (index : Nat) :
    AtSpot s chunk (.pool index) ↔ place chunk = some (.listed (.pool index)) := by
  constructor
  · rintro ⟨bound, visited⟩
    exact cached_of_listed ((enumerates_on_chain (inv.caches.pool index bound)).mp visited)
  · intro there
    have listed := cached_of_global.mpr there
    have bound := (inv.caches.poolHeader chunk index listed).1
    exact ⟨bound, (enumerates_on_chain (inv.caches.pool index bound)).mpr listed⟩

theorem at_global_iff (inv : RaceInv s place) :
    AtSpot s chunk .global ↔ place chunk = some (.listed .global) := by
  obtain ⟨count, chain⟩ := inv.caches.global
  exact (enumerates_on_chain chain).trans cached_of_global

theorem spot_unique (inv : RaceInv s place) {spot other : VmmSpot} (here : AtSpot s chunk spot)
    (there : AtSpot s chunk other) : other = spot := by
  have placed : ∀ spot, AtSpot s chunk spot → ∃ at_, place chunk = some at_ ∧
      ((∃ index, spot = .pool index ∧ at_ = .listed (.pool index)) ∨
        (spot = .global ∧ at_ = .listed .global) ∨
        (∃ thread, spot = .call thread ∧ at_ = .transit thread) ∨
        ∃ tlh engine, spot = .heap tlh ∧ at_ = .held ∧ s.held chunk = some ⟨tlh, engine⟩) := by
    intro spot known
    cases spot with
    | pool index => exact ⟨_, (at_pool_iff inv index).mp known, Or.inl ⟨index, rfl, rfl⟩⟩
    | global => exact ⟨_, (at_global_iff inv).mp known, Or.inr (Or.inl ⟨rfl, rfl⟩)⟩
    | call thread =>
        exact ⟨_, (carried_iff inv thread).mp known, Or.inr (Or.inr (Or.inl ⟨thread, rfl, rfl⟩))⟩
    | heap tlh =>
        obtain ⟨engine, holds⟩ := known
        exact ⟨_, (inv.leases chunk _ holds).1,
          Or.inr (Or.inr (Or.inr ⟨tlh, engine, rfl, rfl, holds⟩))⟩
  obtain ⟨first, firstPlace, firstSpot⟩ := placed spot here
  obtain ⟨second, secondPlace, secondSpot⟩ := placed other there
  obtain rfl : first = second := Option.some.inj (firstPlace.symm.trans secondPlace)
  obtain ⟨i, rfl, rfl⟩ | ⟨rfl, rfl⟩ | ⟨t, rfl, rfl⟩ | ⟨tlh, engine, rfl, rfl, holds⟩ := firstSpot
  · obtain ⟨j, rfl, same⟩ | ⟨_, same⟩ | ⟨_, _, same⟩ | ⟨_, _, _, same, _⟩ := secondSpot
    · cases same
      rfl
    all_goals cases same
  · obtain ⟨_, _, same⟩ | ⟨rfl, _⟩ | ⟨_, _, same⟩ | ⟨_, _, _, same, _⟩ := secondSpot
    · cases same
    · rfl
    all_goals cases same
  · obtain ⟨_, _, same⟩ | ⟨_, same⟩ | ⟨u, rfl, same⟩ | ⟨_, _, _, same, _⟩ := secondSpot
    · cases same
    · cases same
    · cases same
      rfl
    · cases same
  · obtain ⟨_, _, same⟩ | ⟨_, same⟩ | ⟨_, _, same⟩ | ⟨heap, other, rfl, _, otherHolds⟩ :=
      secondSpot
    · cases same
    · cases same
    · cases same
    · rw [holds] at otherHolds
      cases otherHolds
      rfl

theorem spot_exists (inv : RaceInv s place) (known : chunk ∈ s.state.vmm.carved) :
    ∃ spot, AtSpot s chunk spot := by
  obtain ⟨at_, there⟩ := Option.ne_none_iff_exists'.mp ((inv.carved chunk).mp known)
  cases at_ with
  | listed list =>
      cases list with
      | pool index => exact ⟨.pool index, (at_pool_iff inv index).mpr there⟩
      | global => exact ⟨.global, (at_global_iff inv).mpr there⟩
  | transit thread => exact ⟨.call thread, (carried_iff inv thread).mpr there⟩
  | held =>
      obtain ⟨lease, holds⟩ := Option.ne_none_iff_exists'.mp (inv.holders chunk there)
      exact ⟨.heap lease.tlh, lease.engine, holds⟩

theorem conserved (inv : RaceInv s place) : Conserved s := by
  refine ⟨fun chunk known => ?_, fun index bound => ?_, inv.dropped⟩
  · obtain ⟨spot, here⟩ := spot_exists inv known
    exact ⟨spot, here, fun other there => spot_unique inv here there⟩
  · obtain ⟨nodes, segment, nodup, exact, length⟩ := inv.caches.pool index bound
    have limit := inv.caches.poolBound index bound
    refine ⟨nodes, segment, nodup, length, length.trans_le limit, fun chunk member => ?_⟩
    obtain ⟨_, magic, nodeId⟩ := inv.caches.poolHeader chunk index ((exact chunk).mp member)
    exact ⟨nodeId, magic⟩

/-- Chunk conservation in every state of every interleaving. -/
theorem chunks_conserved (env : Env) (secret : BitVec 64) (telemetry : Bool)
    (actions : List VmmAct) (s : VmmSys)
    (ran : run vmmStep (vmmStart env secret telemetry) actions = some s) : Conserved s := by
  obtain ⟨place, inv⟩ := race_run ran
  exact conserved inv

/-- The first extent is mapped at 4 GB, every later mapping fails. -/
def oneExtent : Env where
  regionMmap := fun call => if call = 0 then some (2 ^ 32) else none
  leafMmap := fun _ => true
  tlhMmap := fun _ => none
  node := fun _ => 0

/-- Thread 0 takes a chunk for a slab and gives it back, thread 1 purges the
pools in between its two sections. -/
def purgeRace : List VmmAct :=
  [.acquire 0 ⟨4096, .slab⟩, .step 0, .step 0, .step 0, .step 0, .step 0, .step 0, .step 0,
    .release 0 4359979008, .step 0, .step 0, .purge 1, .step 0, .step 1, .step 1]

theorem purge_race_conserved :
    ∃ s, run vmmStep (vmmStart oneExtent 0 false) purgeRace = some s ∧
      s.state.vmm.globalFreeChunks = 4359979008 ∧ Conserved s := by
  have finishes : ((run vmmStep (vmmStart oneExtent 0 false) purgeRace).map fun s =>
      s.state.vmm.globalFreeChunks) = some 4359979008 := by decide +kernel
  obtain ⟨s, ran, head⟩ := Option.map_eq_some_iff.mp finishes
  exact ⟨s, ran, head, chunks_conserved _ _ _ _ s ran⟩

/-! ## Null answers -/

def resumes : VmmPc → Bool
  | .globalRetry _ _ granted => granted
  | _ => false

/-- A call whose mapping succeeded still finds a chunk when it takes the global
lock again: fewer chunks have been taken off the list than were put on it. -/
def Undrained (s : VmmSys) : VmmAct → Prop
  | .step thread => resumes (s.pc thread) = true → s.taken < s.put
  | _ => True

instance (s : VmmSys) : (action : VmmAct) → Decidable (Undrained s action)
  | .step _ => inferInstanceAs (Decidable (_ → _))
  | .acquire _ _ => isTrue trivial
  | .release _ _ => isTrue trivial
  | .purge _ => isTrue trivial

def NullMeansFailed (s : VmmSys) : Prop := ∀ failed ∈ s.nulls, failed = true

variable {after : VmmSys}

theorem advance_nulls {thread : Nat} (stepped : advance s thread = some after)
    (elsewhere : ∀ lease node granted, s.pc thread ≠ .globalRetry lease node granted) :
    after.nulls = s.nulls := by
  unfold advance at stepped
  split at stepped
  case h_7 lease node granted at_ => exact absurd at_ (elsewhere lease node granted)
  -- Every other section ends in at most two ways, and neither records an answer.
  all_goals try dsimp only at stepped
  all_goals first
    | (cases stepped <;> simp only [VmmSys.moveTo, VmmSys.withVmm])
    | (split at stepped <;> cases stepped <;>
        simp only [VmmSys.moveTo, VmmSys.withVmm, VmmSys.drop])

theorem advance_retry {thread : Nat} {lease : Lease} {node : Nat} {granted : Bool}
    (at_ : s.pc thread = .globalRetry lease node granted)
    (stepped : advance s thread = some after) :
    s.state.vmm.globalFreeChunks ≠ 0 ∧ after.nulls = s.nulls ∨
      s.state.vmm.globalFreeChunks = 0 ∧ after.nulls = (!granted) :: s.nulls := by
  have head : (globalPop s.state.vmm).1 = s.state.vmm.globalFreeChunks := by
    by_cases empty : s.state.vmm.globalFreeChunks = 0 <;> simp [globalPop, empty]
  simp only [advance, at_] at stepped
  split at stepped
  · rename_i hit
    cases stepped
    exact Or.inl ⟨head ▸ hit, rfl⟩
  · rename_i miss
    cases stepped
    exact Or.inr ⟨head.symm.trans (not_not.mp miss), rfl⟩

theorem null_step_iff (inv : RaceInv s place) (failed : NullMeansFailed s) {action : VmmAct}
    (stepped : vmmStep s action = some after) : Undrained s action ↔ NullMeansFailed after := by
  have unchanged : after.nulls = s.nulls → NullMeansFailed after := by
    intro same each member
    exact failed each (same ▸ member)
  cases action with
  | acquire thread lease =>
      refine iff_of_true trivial (unchanged ?_)
      simp only [vmmStep] at stepped
      split at stepped <;> cases stepped
      rfl
  | release thread chunk =>
      refine iff_of_true trivial (unchanged ?_)
      simp only [vmmStep] at stepped
      split at stepped <;> cases stepped
      rfl
  | purge thread =>
      refine iff_of_true trivial (unchanged ?_)
      simp only [vmmStep] at stepped
      split at stepped <;> cases stepped
      rfl
  | step thread =>
      by_cases retry : ∃ lease node granted, s.pc thread = .globalRetry lease node granted
      · obtain ⟨lease, node, granted, at_⟩ := retry
        have empty := global_empty_iff inv
        obtain ⟨filled, same⟩ | ⟨drained, recorded⟩ := advance_retry at_ stepped
        · refine iff_of_true (fun _ => ?_) (unchanged same)
          exact Nat.lt_of_not_le fun short => filled (empty.mpr short)
        · have short := empty.mp drained
          cases granted with
          | false =>
              refine iff_of_true (fun granted => ?_) fun each member => ?_
              · simp [at_, resumes] at granted
              · rw [recorded] at member
                obtain rfl | earlier := List.mem_cons.mp member
                · rfl
                · exact failed each earlier
          | true =>
              refine iff_of_false (fun undrained => ?_) fun means => ?_
              · exact absurd (undrained (by simp [at_, resumes])) (Nat.not_lt.mpr short)
              · have spurious := means false (recorded ▸ List.mem_cons_self)
                cases spurious
      · have elsewhere : ∀ lease node granted, s.pc thread ≠ .globalRetry lease node granted :=
          fun lease node granted at_ => retry ⟨lease, node, granted, at_⟩
        refine iff_of_true (fun granted => ?_) (unchanged (advance_nulls stepped elsewhere))
        cases at_ : s.pc thread with
        | globalRetry lease node other => exact absurd at_ (elsewhere lease node other)
        | _ => simp [at_, resumes] at granted

/-- In every run whose retries all find the list undrained, a null answer means
that an `mmap` of the same call failed; and the first step that does not meet
the condition gives a null answer although the call's `mmap` succeeded. -/
theorem null_means_failed_mmap (env : Env) (secret : BitVec 64) (telemetry : Bool)
    (actions : List VmmAct) (s : VmmSys)
    (along : Along vmmStep Undrained (vmmStart env secret telemetry) actions)
    (ran : run vmmStep (vmmStart env secret telemetry) actions = some s) :
    NullMeansFailed s ∧ ∀ action after, vmmStep s action = some after →
      (Undrained s action ↔ NullMeansFailed after) := by
  have preserved : ∀ state action reached, ((∃ place, RaceInv state place) ∧
      NullMeansFailed state) → Undrained state action → vmmStep state action = some reached →
      (∃ place, RaceInv reached place) ∧ NullMeansFailed reached := by
    rintro state action reached ⟨⟨place, inv⟩, failed⟩ undrained stepped
    exact ⟨race_vmm_step inv stepped, (null_step_iff inv failed stepped).mp undrained⟩
  obtain ⟨⟨place, inv⟩, failed⟩ :=
    run_invariant preserved ⟨⟨_, race_start env secret telemetry⟩, nofun⟩ along ran
  exact ⟨failed, fun action after stepped => null_step_iff inv failed stepped⟩

def lateExtent : Env :=
  { oneExtent with regionMmap := fun call => if call = 1 then some (2 ^ 32) else none }

/-- A call that returns null, then one that maps an extent and takes a chunk. -/
def refusedThenServed : List VmmAct :=
  [.acquire 0 ⟨4096, .slab⟩, .step 0, .step 0, .step 0, .step 0, .acquire 0 ⟨4096, .slab⟩, .step 0,
    .step 0, .step 0, .step 0, .step 0, .step 0, .step 0]

theorem refused_then_served :
    ∃ s, run vmmStep (vmmStart lateExtent 0 false) refusedThenServed = some s ∧ s.taken = 1 ∧
      s.nulls = [true] ∧ NullMeansFailed s := by
  have finishes : ((run vmmStep (vmmStart lateExtent 0 false) refusedThenServed).map fun s =>
      (s.taken, s.nulls)) = some (1, [true]) := by decide +kernel
  obtain ⟨s, ran, both⟩ := Option.map_eq_some_iff.mp finishes
  obtain ⟨taken, nulls⟩ := Prod.mk.inj both
  have along : Along vmmStep Undrained (vmmStart lateExtent 0 false) refusedThenServed := by
    decide +kernel
  exact ⟨s, ran, taken, nulls, (null_means_failed_mmap _ _ _ _ s along ran).1⟩

/-- Thread 0 maps and carves an extent; before it takes the lock again, thread 1
takes all 32 chunks. -/
def drainedExtent : List VmmAct :=
  [.acquire 0 ⟨4096, .slab⟩, .step 0, .step 0, .step 0, .step 0] ++
    (List.replicate 32
      [.acquire 1 ⟨8192, .slab⟩, .step 1, .step 1, .step 1, .step 1]).flatten ++ [.step 0]

theorem spurious_null :
    ∃ s, run vmmStep (vmmStart oneExtent 0 false) drainedExtent = some s ∧ s.nulls = [false] ∧
      ¬NullMeansFailed s := by
  have finishes : ((run vmmStep (vmmStart oneExtent 0 false) drainedExtent).map fun s => s.nulls) =
      some [false] := by decide +kernel
  obtain ⟨s, ran, nulls⟩ := Option.map_eq_some_iff.mp finishes
  refine ⟨s, ran, nulls, fun means => ?_⟩
  have spurious := means false (by simp [nulls])
  cases spurious

end Lzmalloc.VmmContracts
