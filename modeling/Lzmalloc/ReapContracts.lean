import Lzmalloc.ApiRuns
import Lzmalloc.FreeFootprint
import Lzmalloc.SlabContracts

/-!
# Reaping is freeing

The loop of `lz_tlh_reap` has its own copy of the free logic. On every mailbox
that a heap can have it does what `lz_tlh_free` does, one object of the list
after the other, although the list is threaded through the objects that are
being freed.
-/

namespace Lzmalloc.ReapContracts

open SizeClasses HeapState VirtualMemoryManager PointerChain Engines ThreadHeap StepSystem
open HeapInvariant InvariantFacts RemoteFree FreeFootprint ConcreteView EngineRuns ApiRuns
open SlabContracts (generousEnv remoteFreeRun)

set_option autoImplicit false

variable {mode : Mode} {s : State} {g : Ghost} {tlh ptr : Nat}

/-- For an object that the heap owns the two copies of the free logic agree. -/
theorem reap_node_eq_free (core : Core mode s g) (present : g.node ptr ≠ .none)
    (owned : (g.kind (chunkBase ptr)).owner = some tlh) :
    lzTlhReapNode s tlh ptr = lzTlhFree s tlh ptr := by
  cases kind : g.kind (chunkBase ptr) with
  | slab heap classIdx =>
      obtain rfl : heap = tlh := by simpa [kind, BlockKind.owner] using owned
      rw [lz_tlh_free_slab_eq core present kind]
      simp only [lzTlhReapNode, (core.header.slab _ heap classIdx kind).2.1]
      rfl
  | span heap =>
      obtain rfl : heap = tlh := by simpa [kind, BlockKind.owner] using owned
      rw [lz_tlh_free_span_eq core present kind]
      simp only [lzTlhReapNode, (core.header.span _ heap kind).2]
  | unused => simp [kind, BlockKind.owner] at owned
  | idle place => simp [kind, BlockKind.owner] at owned
  | loose => simp [kind, BlockKind.owner] at owned
  | direct header => simp [kind, BlockKind.owner] at owned

def freeAll (s : State) (tlh : Nat) (nodes : List Nat) : State :=
  nodes.foldl (fun state node => lzTlhFree state tlh node) s

theorem reap_rest (inv : Inv mode s g) (more : g.cursor tlh ≠ 0) {rest : List Nat}
    (segment : Segment (linkAt s.mem) (linkAt s.mem (g.cursor tlh)) rest 0) :
    ∃ last, Inv mode (lzTlhReapNode s tlh (g.cursor tlh)) last ∧
      last.cursor tlh = linkAt s.mem (g.cursor tlh) ∧
      Segment (linkAt (lzTlhReapNode s tlh (g.cursor tlh)).mem) (last.cursor tlh) rest 0 := by
  obtain ⟨last, later, _, gone, steady, _⟩ := inv_reap_node inv more
  have moved : last.cursor tlh = linkAt s.mem (g.cursor tlh) := by
    rw [steady.cursor]
    exact Function.update_self _ _ _
  refine ⟨last, later, moved, ?_⟩
  have first := (inv_advance inv more).2.1
  have footprint : Footprint (fun cell => cell = g.cursor tlh) s
      (lzTlhReapNode s tlh (g.cursor tlh)) := reap_node_footprint s tlh rfl
  have aligned := (core_node_cell inv.toCore (by simp [first] : g.node (g.cursor tlh) ≠ .none)).1
  obtain ⟨count, nodes, chain, _, members, _⟩ := later.mail.reaping tlh
  -- Read in the memory before the free, the remaining list is the same.
  have before : Segment (linkAt s.mem) (last.cursor tlh) nodes 0 := by
    apply segment_congr chain
    intro node visited
    have reaping := (members node).mp visited
    refine (footprint_link footprint later.toCore ?_ (by simp [reaping]) ?_).symm
    · rintro cell rfl
      exact aligned
    · rintro rfl
      exact gone tlh reaping
  rw [moved] at before
  rw [← segment_unique before segment]
  exact chain

theorem reap_loop_eq_free_all (inv : Inv mode s g) {fuel : Nat} {nodes : List Nat}
    (segment : Segment (linkAt s.mem) (g.cursor tlh) nodes 0) (enough : nodes.length ≤ fuel) :
    lzTlhReapLoop fuel s tlh (g.cursor tlh) = freeAll s tlh nodes := by
  induction nodes generalizing s g fuel with
  | nil =>
      have ended : g.cursor tlh = 0 := segment
      cases fuel with
      | zero => rfl
      | succ fuel =>
          rw [lzTlhReapLoop, if_pos ended]
          rfl
  | cons node rest ih =>
      obtain ⟨head, nonnull, restSegment⟩ := segment
      rw [← head] at nonnull restSegment ⊢
      cases fuel with
      | zero => simp at enough
      | succ fuel =>
          obtain ⟨_, first, owned⟩ := inv_advance inv nonnull
          obtain ⟨last, later, moved, kept⟩ := reap_rest inv nonnull restSegment
          have step := reap_node_eq_free inv.toCore (by simp [first]) owned
          have loop := ih later kept (by simpa using enough)
          rw [moved, step] at loop
          rw [lzTlhReapLoop, if_neg nonnull, step]
          exact loop

/-- The mailbox of `tlh` is a finite list, reaping terminates after as many
rounds, and its result is that of freeing the objects in list order. -/
def ReapFrees (s : State) (tlh : Nat) : Prop :=
  ∃ nodes, Segment (linkAt s.mem) (s.remoteFreeHead tlh) nodes 0 ∧ nodes.Nodup ∧
    (∀ fuel ≥ nodes.length, lzTlhReapLoop fuel (detachMailbox s tlh) tlh (s.remoteFreeHead tlh) =
      freeAll (detachMailbox s tlh) tlh nodes) ∧
    lzTlhReap s tlh = freeAll (detachMailbox s tlh) tlh nodes

theorem reap_frees (inv : Inv mode s g) (idle : g.cursor tlh = 0) : ReapFrees s tlh := by
  have detachedInv := inv_detach inv idle
  obtain ⟨count, nodes, segment, nodup, members, length⟩ := detachedInv.mail.reaping tlh
  have bounded : nodes.length ≤ addressLimit := by
    rw [length]
    refine enumerates_bound ⟨nodes, segment, nodup, members, length⟩ fun ptr reaped => ?_
    have present : detached g.node tlh ptr ≠ .none := by
      rw [show detached g.node tlh ptr = .reaping tlh from reaped]
      simp
    have bound := core_node_bound detachedInv.toCore present
    simp only [addressLimit]
    omega
  have loop : ∀ fuel ≥ nodes.length,
      lzTlhReapLoop fuel (detachMailbox s tlh) tlh (s.remoteFreeHead tlh) =
        freeAll (detachMailbox s tlh) tlh nodes := by
    intro fuel enough
    simpa only [Function.update_self] using reap_loop_eq_free_all detachedInv segment enough
  have mailbox : Segment (linkAt (detachMailbox s tlh).mem) (s.remoteFreeHead tlh) nodes 0 := by
    simpa only [Function.update_self] using segment
  exact ⟨nodes, mailbox, nodup, loop, loop addressLimit bounded⟩

/-- Reaping frees the mailbox in every reachable state of the heap engine,
whatever the telemetry counters are, and in every state of a run of the public
interface whose direct requests fit their mappings. -/
theorem reap_equals_local_frees (env : Env) (secret : BitVec 64) (telemetry : Bool) :
    (∀ acts sys, run engineStep (engineStart env secret telemetry) acts = some sys →
      ∀ info slots tlh, ReapFrees { sys.state with tlh := info, slots := slots } tlh) ∧
    ∀ acts sys, Along apiStep ApiFits (apiStart env secret telemetry) acts →
      run apiStep (apiStart env secret telemetry) acts = some sys →
        ∀ tlh, ReapFrees sys.state tlh := by
  constructor
  · intro acts sys ran info slots tlh
    obtain ⟨g, ok⟩ := engine_run_ok ran
    have counted : Inv engineMode { sys.state with tlh := info, slots := slots } g :=
      { ok.inv.toCore with filled := ok.inv.filled }
    exact reap_frees counted (ok.cursor tlh)
  · intro acts sys fits ran tlh
    have reached : ∃ g, ApiOk (apiMode False) sys g := api_run_ok False.elim fits ran
    obtain ⟨g, ok⟩ := reached
    exact reap_frees ok.rest.inv (ok.rest.cursor tlh)

/-- The remote free of `remoteFreeRun`, one of another block and one of pages,
delivered together. -/
def deliveredRun : List EngineAct :=
  remoteFreeRun ++
    [.alloc 4096 40000, .free 8192 4359979200, .free 8192 4357885952, .flush 8192]

theorem delivered_frees_are_reaped :
    ∃ sys, run engineStep (engineStart generousEnv 7 true) deliveredRun = some sys ∧
      sys.state.remoteFreeHead 4096 = 4357885952 ∧
      linkAt sys.state.mem 4357885952 = 4359979200 ∧
      linkAt sys.state.mem 4359979200 = 4359979136 ∧ ReapFrees sys.state 4096 := by
  have facts : (run engineStep (engineStart generousEnv 7 true) deliveredRun).map (fun sys =>
      (sys.state.remoteFreeHead 4096, linkAt sys.state.mem 4357885952,
        linkAt sys.state.mem 4359979200)) = some (4357885952, 4359979200, 4359979136) := by
    decide +kernel
  obtain ⟨sys, ran, values⟩ := Option.map_eq_some_iff.mp facts
  simp only [Prod.mk.injEq] at values
  obtain ⟨head, second, third⟩ := values
  exact ⟨sys, ran, head, second, third, (reap_equals_local_frees generousEnv 7 true).1 _ sys ran
    sys.state.tlh sys.state.slots 4096⟩

end Lzmalloc.ReapContracts
