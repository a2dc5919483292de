import Mathlib.Logic.Relation
import Lzmalloc.ApiRuns

/-!
# Parts of a call

Every call of the public interface is a sequence of parts, each of which starts
and ends at rest: the thread gets its heap, takes a block or pages from it, or
frees an object, and the rest is the direct engine and the client's memory. What
every part keeps, every call keeps.
-/

namespace Lzmalloc.CallParts

open SizeClasses HeapState VirtualMemoryManager ByteMemory Engines ThreadHeap PublicApi StepSystem
open HeapInvariant InvariantFacts ClientView Mappings RadixTree ObjectRanges DirectObjects
open HeapOperations ThreadLifecycle ApiOperations ApiRuns

set_option autoImplicit false

/-- Only mappings, direct objects, the radix tree and payload bytes differ. -/
def OnlyExternal (s after : State) : Prop :=
  after =
    { s with
      regionCalls := after.regionCalls
      leafCalls := after.leafCalls
      regions := after.regions
      mem := after.mem
      vmm := after.vmm
      rtree := after.rtree
      direct := after.direct
      directs := after.directs }

inductive Part (mode : Mode) (thread : Nat) : State → State → Prop
  | attach {s after : State} {g : Ghost} (rest : AtRest mode s g)
      (done : ensureTlsInit s thread = some after) : Part mode thread s after
  | alloc {s : State} {g : Ghost} (rest : AtRest mode s g) (attached : s.tls thread ≠ 0)
      (size : Nat) (small : size ≤ lzMaxSlabObjSize) :
      Part mode thread s (lzTlhAlloc s (s.tls thread) size).2
  | allocSpan {s : State} {g : Ghost} (rest : AtRest mode s g) (attached : s.tls thread ≠ 0)
      (size : Nat) : Part mode thread s (lzSpanAlloc s (s.tls thread) size).2
  | free {s : State} {g : Ghost} {ptr owner : Nat} (rest : AtRest mode s g)
      (attached : s.tls thread ≠ 0) (live : g.node ptr = .live)
      (owned : (g.kind (chunkBase ptr)).owner = some owner) (found : resolve s ptr ≠ 0) :
      Part mode thread s (lzTlhFree s (s.tls thread) ptr)
  | external {s after : State} {g last : Ghost} (rest : AtRest mode s g)
      (later : AtRest mode after last) (only : OnlyExternal s after) : Part mode thread s after

abbrev Parts (mode : Mode) (thread : Nat) : State → State → Prop :=
  Relation.ReflTransGen (Part mode thread)

variable {mode : Mode} {s after : State} {g last : Ghost} {thread ptr size : Nat}

theorem attached_of_init (done : ensureTlsInit s thread = some after) (rest : AtRest mode s g) :
    after.tls thread ≠ 0 :=
  (inv_ensure_tls_init rest.inv rest.threads done).2.2.1

/-! ## The direct engine -/

theorem rtree_set_range_external (s : State) (base metadata : Nat) {total : Nat}
    (multiple : total % 2097152 = 0) : OnlyExternal s (lzRtreeSetRange s base total metadata) := by
  rw [lz_rtree_set_range_eq s base metadata multiple, OnlyExternal]
  rw [set_blocks_eq]

theorem external_trans {middle : State} (first : OnlyExternal s middle)
    (second : OnlyExternal middle after) : OnlyExternal s after := by
  unfold OnlyExternal at *
  rw [second, first]

theorem map_direct_external {offset : Nat} (done : mapDirect s offset size = some (ptr, after)) :
    OnlyExternal s after := by
  unfold mapDirect at done
  rcases lz_sys_alloc_huge_aligned_cases s (direct_total_multiple offset size)
    (direct_total_lt offset size) with failed | ⟨start, mapped, result, maps⟩
  · simp only [failed, Option.some.injEq, Prod.mk.injEq] at done
    rw [← done.2]
    rfl
  · simp only [result] at done
    split at done
    · simp only [Option.some.injEq, Prod.mk.injEq] at done
      rw [← done.2]
      have first : OnlyExternal s mapped := by
        unfold OnlyExternal
        rw [maps.rest]
      have written : OnlyExternal mapped
          (writeDirect mapped start (directTotal offset size) size) := rfl
      exact external_trans (external_trans first written)
        (rtree_set_range_external _ start start (direct_total_multiple offset size))
    · cases done

theorem munmap_external {middle : State} (first : OnlyExternal s middle) (start length : Nat)
    (directs : List Nat) : OnlyExternal s { munmap middle start length with directs := directs } :=
  external_trans first rfl

theorem unmap_direct_external {header : Nat}
    (multiple : (s.direct header).totalBytes % 2097152 = 0) :
    OnlyExternal s (unmapDirect s header) :=
  munmap_external (rtree_set_range_external s header 0 multiple) header _ _

/-! ## Calls -/

theorem parts_malloc (rest : AtRest mode s g) (fits : MallocFits size)
    (done : lzMalloc s thread size = some (ptr, after)) : Parts mode thread s after := by
  have served := served_malloc rest fits done
  unfold lzMalloc at done
  obtain ⟨asked, askedEq⟩ : ∃ asked, (if size = 0 then 1 else size) = asked := ⟨_, rfl⟩
  simp only [askedEq] at done
  by_cases small : asked ≤ lzMaxSlabObjSize
  · rw [if_pos small] at done
    obtain ⟨ready, attached, result⟩ := Option.map_eq_some_iff.mp done
    have readyRest := (at_rest_attach rest attached).1
    have taken := Part.alloc readyRest (attached_of_init attached rest) asked small
    rw [result] at taken
    exact .tail (.single (.attach rest attached)) taken
  rw [if_neg small] at done
  by_cases medium : asked ≤ lzMaxSpanObjSize
  · rw [if_pos medium] at done
    obtain ⟨ready, attached, result⟩ := Option.map_eq_some_iff.mp done
    have readyRest := (at_rest_attach rest attached).1
    have taken := Part.allocSpan readyRest (attached_of_init attached rest) asked
    rw [result] at taken
    exact .tail (.single (.attach rest attached)) taken
  · rw [if_neg medium] at done
    obtain ⟨last, later, _⟩ := served
    exact .single (.external rest later (map_direct_external done))

theorem parts_free (rest : AtRest mode s g) (live : g.node ptr = .live)
    (lost : mode.noLeaks → mode.leavesMapped) (done : lzFree s thread ptr = some after) :
    Parts mode thread s after := by
  obtain ⟨last, later, _⟩ := withdrawn_free rest live lost done
  by_cases found : resolve s ptr = 0
  · have positive := (core_node_bound rest.inv.toCore (by simp [live] : g.node ptr ≠ .none)).1
    simp only [lzFree, if_neg (Nat.pos_iff_ne_zero.mp positive), if_pos found] at done
    obtain rfl := Option.some.inj done
    exact .refl
  rcases free_cases rest.inv.toCore live found done with
    ⟨owner, ready, owned, attached, rfl⟩ | ⟨header, isDirect, _, rfl⟩
  · obtain ⟨readyRest, _, rtree⟩ := at_rest_attach rest attached
    have stays : resolve ready ptr ≠ 0 := by
      rw [resolve_eq, rtree, ← resolve_eq]
      exact found
    exact .tail (.single (.attach rest attached))
      (.free readyRest (attached_of_init attached rest) live owned stays)
  · have multiple := (rest.inv.geom.directSize header (direct_known rest.inv.toCore isDirect)).1
    exact .single (.external rest later (unmap_direct_external multiple))

theorem parts_calloc (rest : AtRest mode s g) {num : Nat}
    (fits : callocSize num size < 2 ^ 64 → MallocFits (callocSize num size))
    (done : lzCalloc s thread num size = some (ptr, after)) : Parts mode thread s after := by
  obtain ⟨last, later, _⟩ := served_calloc rest fits done
  rcases calloc_cases done with
    ⟨_, rfl, rfl⟩ | ⟨bound, ready, allocated, rfl | ⟨nonnull, rfl⟩⟩
  · exact .refl
  · exact parts_malloc rest (fits bound) allocated
  · obtain ⟨middle, readyRest, _⟩ := served_malloc rest (fits bound) allocated
    exact .tail (parts_malloc rest (fits bound) allocated) (.external readyRest later rfl)

theorem parts_memalign (rest : AtRest mode s g) {alignment : Nat} (bound : alignment < 2 ^ 64)
    (fits : MemalignFits alignment size)
    (done : lzMemalign s thread alignment size = some (ptr, after)) :
    Parts mode thread s after := by
  obtain ⟨last, later, _⟩ := served_memalign rest bound fits done
  unfold lzMemalign at done
  split at done
  · simp only [Option.some.injEq, Prod.mk.injEq] at done
    rw [← done.2]
  · split at done
    · next small =>
        have promoted := promoted_bound small.1 small.2
        exact parts_malloc rest (Or.inl promoted) done
    · split at done
      · obtain ⟨ready, attached, result⟩ := Option.map_eq_some_iff.mp done
        have readyRest := (at_rest_attach rest attached).1
        have taken := Part.allocSpan readyRest (attached_of_init attached rest) size
        rw [result] at taken
        exact .tail (.single (.attach rest attached)) taken
      · exact .single (.external rest later (map_direct_external done))

theorem parts_realloc (rest : AtRest mode s g) (known : ptr = 0 ∨ g.node ptr = .live)
    (lost : mode.noLeaks → mode.leavesMapped) {result : Nat} (bound : size < 2 ^ 64)
    (fits : ptr = 0 ∨ lzMallocUsableSize s ptr ≠ 0 ∧ lzMallocUsableSize s ptr < size →
      MallocFits size)
    (done : lzRealloc s thread ptr size = some (result, after)) : Parts mode thread s after := by
  unfold lzRealloc at done
  by_cases null : ptr = 0
  · rw [if_pos null] at done
    exact parts_malloc rest (fits (Or.inl null)) done
  rw [if_neg null] at done
  have live := known.resolve_left null
  by_cases nothing : size = 0
  · rw [if_pos nothing] at done
    obtain ⟨freed, released, same⟩ := Option.map_eq_some_iff.mp done
    rw [← (Prod.mk.inj same).2]
    exact parts_free rest live lost released
  rw [if_neg nothing] at done
  have branch : lzRealloc s thread ptr size = some (result, after) := by
    simpa only [lzRealloc, if_neg null, if_neg nothing] using done
  rcases lz_realloc_branches null nothing branch with
    ⟨_, rfl, _⟩ | ⟨_, rfl, _⟩ | ⟨known, grows, ⟨_, refused⟩ | ⟨moved, ready, allocated, released⟩⟩
  · exact .refl
  · exact .refl
  · exact parts_malloc rest (fits (Or.inr ⟨known, grows⟩)) refused
  · have room := fits (Or.inr ⟨known, grows⟩)
    have served := served_malloc rest room allocated
    have parts := parts_malloc rest room allocated
    obtain ⟨_, readyRest, _⟩ := id served
    obtain ⟨final, copiedRest, outcome⟩ := served_copy served moved bound (le_of_lt grows)
    have fresh := (outcome.resolve_left fun failed => moved failed.1).2
    have part : Part mode thread ready
        { ready with mem := copy ready.mem result ptr (lzMallocUsableSize s ptr) } :=
      .external readyRest copiedRest rfl
    exact (parts.tail part).trans
      (parts_free copiedRest ((fresh.live ptr).mpr (Or.inr live)) lost released)

/-! ## Steps of a run -/

inductive Does (mode : Mode) (s : State) : State → Prop
  | call {after : State} (thread : Nat) (parts : Parts mode thread s after) : Does mode s after
  | exit (thread : Nat) : Does mode s (threadExit s thread)
  | gc (thread : Nat) : Does mode s (lzmallocGc s thread)
  | reap (tlh : Nat) (heap : tlh ∈ s.heaps) : Does mode s (lzTlhReap s tlh)

variable {sys reached : ApiSys}

theorem hand_out_state (sys : ApiSys) (after : State) (ptr size : Nat) (direct : Prop)
    [Decidable direct] : (handOut sys after ptr size direct).state = after := by
  unfold handOut
  split <;> rfl

theorem finish_realloc_state (sys : ApiSys) (after : State) (ptr size result : Nat) :
    (finishRealloc sys after ptr size result).state = after := by
  unfold finishRealloc
  split
  · exact hand_out_state ..
  · split
    · rfl
    · split
      · rfl
      · split
        · rfl
        · exact hand_out_state ..

theorem api_step_does (ok : ApiOk mode sys g) {act : ApiAct}
    (lost : mode.noLeaks → mode.leavesMapped) (fits : ApiFits sys act)
    (stepped : apiStep sys act = some reached) : Does mode sys.state reached.state := by
  have rest := ok.rest
  obtain ⟨last, laterOk⟩ := api_step_ok ok lost fits stepped
  have later := laterOk.rest
  cases act with
  | malloc thread size =>
      simp only [apiStep] at stepped
      split at stepped
      · obtain ⟨⟨ptr, after⟩, called, rfl⟩ := Option.map_eq_some_iff.mp stepped
        rw [hand_out_state]
        exact .call thread (parts_malloc rest fits called)
      · cases stepped
  | calloc thread num size =>
      simp only [apiStep] at stepped
      split at stepped
      · obtain ⟨⟨ptr, after⟩, called, rfl⟩ := Option.map_eq_some_iff.mp stepped
        rw [hand_out_state]
        exact .call thread (parts_calloc rest fits called)
      · cases stepped
  | realloc thread ptr size =>
      simp only [apiStep] at stepped
      split at stepped
      · next allowed =>
        obtain ⟨⟨result, after⟩, called, rfl⟩ := Option.map_eq_some_iff.mp stepped
        rw [finish_realloc_state]
        have known := allowed.2.imp_right (ok.live ptr).mp
        exact .call thread (parts_realloc rest known lost allowed.1 fits called)
      · cases stepped
  | memalign thread alignment size =>
      simp only [apiStep] at stepped
      split at stepped
      · next bound =>
        obtain ⟨⟨ptr, after⟩, called, rfl⟩ := Option.map_eq_some_iff.mp stepped
        rw [hand_out_state]
        exact .call thread (parts_memalign rest bound.1 fits called)
      · cases stepped
  | free thread ptr =>
      rcases api_free_cases stepped with ⟨-, rfl⟩ | ⟨-, known, after, called, rfl⟩
      · exact .call thread .refl
      · exact .call thread (parts_free rest ((ok.live ptr).mp known) lost called)
  | exit thread =>
      simp only [apiStep, Option.some.injEq] at stepped
      rw [← stepped]
      exact .exit thread
  | gc thread =>
      simp only [apiStep, Option.some.injEq] at stepped
      rw [← stepped]
      dsimp only
      exact .gc thread
  | attach thread =>
      obtain ⟨after, attached, rfl⟩ := Option.map_eq_some_iff.mp stepped
      exact .call thread (.single (.attach rest attached))
  | reap tlh =>
      simp only [apiStep] at stepped
      split at stepped
      · next heap =>
        simp only [Option.some.injEq] at stepped
        rw [← stepped]
        exact .reap tlh heap
      · cases stepped
  | write ptr offset value =>
      simp only [apiStep] at stepped
      split at stepped
      · obtain rfl := Option.some.inj stepped
        exact .call 0 (.single (.external rest later rfl))
      · cases stepped

/-- The induction rule for properties of the state: what holds at the start, and
is kept by everything that starts at rest, holds in every state of a run whose
direct requests fit. -/
theorem api_run_keeps {leavesMapped : Prop} {env : Env} {secret : BitVec 64} {telemetry : Bool}
    {acts : List ApiAct} (invariant : State → Prop)
    (started : invariant (initial env secret telemetry))
    (kept : ∀ s after g, AtRest (apiMode leavesMapped) s g → invariant s →
      Does (apiMode leavesMapped) s after → invariant after)
    (leaves : leavesMapped → ∀ call, env.leafMmap call = true)
    (fits : Along apiStep ApiFits (apiStart env secret telemetry) acts)
    (ran : run apiStep (apiStart env secret telemetry) acts = some sys) : invariant sys.state := by
  have preserved : ∀ state act reached,
      ((∃ g, ApiOk (apiMode leavesMapped) state g) ∧ invariant state.state) → ApiFits state act →
        apiStep state act = some reached →
          (∃ g, ApiOk (apiMode leavesMapped) reached g) ∧ invariant reached.state := by
    rintro state act reached ⟨⟨g, ok⟩, holds⟩ allowed stepped
    exact ⟨api_step_ok ok id allowed stepped,
      kept _ _ g ok.rest holds (api_step_does ok id allowed stepped)⟩
  exact (run_invariant preserved ⟨⟨emptyGhost, api_start_ok env secret telemetry leaves⟩, started⟩
    fits ran).2

end Lzmalloc.CallParts
