import Lzmalloc.HeapOperations
import Lzmalloc.StepSystem

/-!
# Runs of the heap engine

Any number of heaps, driven through `lz_tlh_init`, `lz_tlh_alloc`, `lz_tlh_free`
(by the owner or by any other heap), `lz_tlh_reap` and
`lz_tlh_flush_outgoing_batch`, with clients writing into their live blocks in
between. The environment decides which chunk requests fail. Clients free live
blocks only.
-/

namespace Lzmalloc.EngineRuns

open SizeClasses HeapState VirtualMemoryManager PointerChain DoublyLinked Engines ThreadHeap
open PublicApi StepSystem HeapInvariant InvariantFacts SlabBlocks ClientView BinLists SlabAllocation
open RemoteFree ThreadFrames ObjectRanges HeapOperations

set_option autoImplicit false

structure EngineSys where
  state : State
  live : Nat → Bool

inductive EngineAct
  | init (tlh tid : Nat)
  | alloc (tlh size : Nat)
  | free (tlh ptr : Nat)
  | reap (tlh : Nat)
  | flush (tlh : Nat)
  | write (ptr offset : Nat) (value : UInt8)

def blockLength (s : State) (ptr : Nat) : Nat :=
  match (s.vmm.header (chunkBase ptr)).chunkType with
  | .slab => (s.slab (chunkBase ptr + lzCacheLineSize)).blockSize
  | .span =>
      (s.span (chunkBase ptr + lzCacheLineSize)).allocSizePages
        ((ptr - chunkBase ptr) / lzPageSize) * lzPageSize
  | .direct => 0

def engineStep (sys : EngineSys) : EngineAct → Option EngineSys
  | .init tlh tid =>
      if HeapMmapValid sys.state.heaps tlh then
        some { sys with
          state := lzTlhInit { sys.state with heaps := tlh :: sys.state.heaps } tlh tid }
      else none
  | .alloc tlh size =>
      if tlh ∈ sys.state.heaps then
        let allocated := lzTlhAlloc sys.state tlh size
        some
          { state := allocated.2
            live := if allocated.1 = 0 then sys.live
              else Function.update sys.live allocated.1 true }
      else none
  | .free tlh ptr =>
      if tlh ∈ sys.state.heaps ∧ sys.live ptr then
        some { state := lzTlhFree sys.state tlh ptr, live := Function.update sys.live ptr false }
      else none
  | .reap tlh =>
      if tlh ∈ sys.state.heaps then some { sys with state := lzTlhReap sys.state tlh } else none
  | .flush tlh =>
      if tlh ∈ sys.state.heaps then
        some { sys with state := lzTlhFlushOutgoingBatch sys.state tlh }
      else none
  | .write ptr offset value =>
      if sys.live ptr ∧ offset < blockLength sys.state ptr then
        some { sys with
          state := { sys.state with mem := Function.update sys.state.mem (ptr + offset) value } }
      else none

def engineStart (env : Env) (secret : BitVec 64) (telemetry : Bool) : EngineSys where
  state := initial env secret telemetry
  live := fun _ => false

/-! ## The invariant of runs -/

/-- Leaf mappings may fail and nothing looks at the radix tree, but every free
finds its chunk. -/
def engineMode : Mode := ⟨False, False, True⟩

structure EngineOk (sys : EngineSys) (g : Ghost) : Prop where
  inv : Inv engineMode sys.state g
  cursor : ∀ tlh, g.cursor tlh = 0
  settled : ∀ chunk, g.kind chunk ≠ .loose
  directs : sys.state.directs = []
  live : ∀ ptr, g.node ptr = .live ↔ sys.live ptr = true

variable {sys reached : EngineSys} {g last : Ghost} {ptr : Nat}

theorem engine_ok_owned (ok : EngineOk sys g) (present : g.node ptr ≠ .none) :
    ∃ owner, (g.kind (chunkBase ptr)).owner = some owner := by
  refine (holder_cases (ok.inv.objects.scope ptr present)).resolve_right ?_
  rintro ⟨header, isDirect⟩
  have known := direct_known ok.inv.toCore isDirect
  rw [ok.directs] at known
  exact List.not_mem_nil known

theorem block_length_eq (ok : EngineOk sys g) (present : g.node ptr ≠ .none) :
    blockLength sys.state ptr = objectLength sys.state g ptr := by
  obtain ⟨owner, owned⟩ := engine_ok_owned ok present
  unfold blockLength
  cases kind : g.kind (chunkBase ptr) with
  | slab heap classIdx =>
      simp only [(ok.inv.header.slab _ heap classIdx kind).2.1, lzCacheLineSize,
        (ok.inv.slabs _ heap classIdx kind).blockSize, objectLength, kind,
        objectOrigin, originLength]
  | span heap =>
      simp only [(ok.inv.header.span _ heap kind).2, lzCacheLineSize, lzPageSize,
        objectLength, kind,
        objectOrigin, originLength]
  | unused => simp [kind, BlockKind.owner] at owned
  | idle place => simp [kind, BlockKind.owner] at owned
  | loose => simp [kind, BlockKind.owner] at owned
  | direct header => simp [kind, BlockKind.owner] at owned

theorem engine_ok_quiet (ok : EngineOk sys g) {after : State} (inv : Inv engineMode after last)
    (quiet : Quiet g last) (steady : Steady g last) (frame : SameThreads sys.state after) :
    EngineOk { sys with state := after } last :=
  ⟨inv, fun tlh => by rw [steady.cursor, ok.cursor], fun chunk loose =>
    ok.settled chunk (steady.loose chunk loose), frame.directs.trans ok.directs,
    fun ptr => (quiet.live ptr).trans (ok.live ptr)⟩

theorem engine_step_ok (ok : EngineOk sys g) {act : EngineAct}
    (stepped : engineStep sys act = some reached) : ∃ last, EngineOk reached last := by
  cases act with
  | init tlh tid =>
      simp only [engineStep] at stepped
      split at stepped
      · next valid =>
          obtain rfl := Option.some.inj stepped
          exact ⟨g, inv_tlh_init ok.inv valid.2.2 (by have := valid.1; omega) tid _, ok.cursor,
            ok.settled, ok.directs, ok.live⟩
      · simp at stepped
  | alloc tlh size =>
      simp only [engineStep] at stepped
      split at stepped
      · next heap =>
          obtain rfl := Option.some.inj stepped
          have frame := tlh_alloc_threads sys.state tlh size
          obtain ⟨last, inv, course, outcome⟩ :=
            inv_tlh_alloc ok.inv heap (ok.cursor tlh) size
          rcases outcome with ⟨none, quiet⟩ | ⟨some, allocated⟩
          · rw [if_pos none]
            exact ⟨last, engine_ok_quiet ok inv quiet course.toSteady frame⟩
          · rw [if_neg some]
            refine ⟨last, inv, fun tlh => by rw [course.cursor, ok.cursor],
              fun chunk loose => ok.settled chunk (course.loose chunk loose),
              frame.directs.trans ok.directs, fun other => ?_⟩
            rw [allocated.live other, ok.live other]
            by_cases same : other = (lzTlhAlloc sys.state tlh size).1
            · simp [same]
            · simp [same]
      · simp at stepped
  | free tlh ptr =>
      simp only [engineStep] at stepped
      split at stepped
      · next allowed =>
          obtain rfl := Option.some.inj stepped
          have live := (ok.live ptr).mpr allowed.2
          have frame := tlh_free_threads sys.state tlh ptr
          obtain ⟨owner, owned⟩ := engine_ok_owned ok (by rw [live]; simp)
          obtain ⟨last, inv, released, swept, _⟩ :=
            inv_tlh_free ok.inv live owned allowed.1 False.elim
          refine ⟨last, inv, fun tlh => by rw [swept.cursor, ok.cursor],
            fun chunk loose => ok.settled chunk (swept.loose chunk loose),
            frame.directs.trans ok.directs, fun other => ?_⟩
          rw [released.live other, ok.live other]
          by_cases same : other = ptr
          · simp [same]
          · simp [same]
      · simp at stepped
  | reap tlh =>
      simp only [engineStep] at stepped
      split at stepped
      · obtain rfl := Option.some.inj stepped
        obtain ⟨last, inv, quiet, swept, _⟩ := inv_reap ok.inv (ok.cursor tlh)
        exact ⟨last, engine_ok_quiet ok inv quiet swept.toSteady (reap_threads _ tlh)⟩
      · simp at stepped
  | flush tlh =>
      simp only [engineStep] at stepped
      split at stepped
      · obtain rfl := Option.some.inj stepped
        obtain ⟨node, inv, quiet, _⟩ := inv_flush ok.inv tlh
        exact ⟨_, engine_ok_quiet ok inv quiet (steady_of_kind rfl rfl) (flush_threads _ tlh)⟩
      · simp at stepped
  | write ptr offset value =>
      simp only [engineStep] at stepped
      split at stepped
      · next allowed =>
          obtain rfl := Option.some.inj stepped
          have live := (ok.live ptr).mpr allowed.1
          have present : g.node ptr ≠ .none := by simp [live]
          obtain ⟨owner, owned⟩ := engine_ok_owned ok present
          have bound := allowed.2
          rw [block_length_eq ok present] at bound
          refine ⟨g, inv_write ok.inv present (by simp [live, NodePlace.InFlight]) ?_ ?_, ok.cursor,
            ok.settled, ok.directs, ok.live⟩
          · intro header isDirect
            simp [isDirect, BlockKind.owner] at owned
          · intro byte outside
            exact Function.update_of_ne (by omega) _ _
      · simp at stepped

theorem engine_start_ok (env : Env) (secret : BitVec 64) (telemetry : Bool) :
    EngineOk (engineStart env secret telemetry) emptyGhost :=
  ⟨inv_initial env secret telemetry False.elim, fun _ => rfl, by simp [emptyGhost], rfl,
    by simp [emptyGhost, engineStart]⟩

theorem engine_run_ok {env : Env} {secret : BitVec 64} {telemetry : Bool} {acts : List EngineAct}
    (ran : run engineStep (engineStart env secret telemetry) acts = some sys) :
    ∃ g, EngineOk sys g := by
  have preserved : ∀ state act reached, (∃ g, EngineOk state g) →
      engineStep state act = some reached → ∃ g, EngineOk reached g := by
    rintro state act reached ⟨g, ok⟩ stepped
    exact engine_step_ok ok stepped
  exact run_invariant_always preserved ⟨emptyGhost, engine_start_ok env secret telemetry⟩ ran

end Lzmalloc.EngineRuns
