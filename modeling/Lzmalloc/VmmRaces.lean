import Mathlib.Data.Set.Card
import Lzmalloc.Mappings
import Lzmalloc.ChunkCaches
import Lzmalloc.StepSystem

/-!
# Threads racing for chunks

The memory manager with its locks: every locked section of `vmm.c`, the mapping
of an extent and the unlocked header writes are separate steps of any number of
threads. A chunk is taken for a slab or a span of some heap and comes back
through `lz_slab_destroy` or the destruction branch of `lz_span_free_local`,
with the guards of those functions. `put` and `taken` count the chunks that
went on and off the global list, `nulls` records for every call that returned
null whether its `mmap` had failed.
-/

namespace Lzmalloc.VmmRaces

open SizeClasses HeapState VirtualMemoryManager Engines PointerChain HeapInvariant Mappings
open ChunkCaches StepSystem

set_option autoImplicit false

inductive Engine
  | slab
  | span
  deriving DecidableEq

def Engine.chunkType : Engine → ChunkType
  | .slab => .slab
  | .span => .span

/-- The heap and the engine a chunk is taken for. -/
structure Lease where
  tlh : Nat
  engine : Engine
  deriving DecidableEq

/-- Where a thread is. The points up to `globalHit` are those of
`lz_vmm_alloc_chunk`, from `freeing` to `globalFree` those of
`lz_vmm_free_chunk`, the last two those of `lz_vmm_purge_all_caches`. -/
inductive VmmPc where
  | idle
  | poolAlloc (lease : Lease) (node : Nat)
  | poolHit (lease : Lease) (chunk : Nat)
  | globalAlloc (lease : Lease) (node : Nat)
  | mapping (lease : Lease) (node : Nat)
  | carving (lease : Lease) (node alignedAddr : Nat)
  | globalRetry (lease : Lease) (node : Nat) (granted : Bool)
  | globalHit (lease : Lease) (chunk node : Nat)
  | formatting (lease : Lease) (chunk : Nat)
  | destroying (lease : Lease) (chunk : Nat)
  | freeing (chunk : Nat)
  | poolFree (chunk : Nat)
  | globalFree (chunk : Nat)
  | purging (index : Nat)
  | flushing (index chunk : Nat)

structure VmmSys where
  state : State
  pc : Nat → VmmPc
  /-- The chunks that heaps hold. -/
  held : Nat → Option Lease
  /-- The chunks that a guard has dropped. -/
  dropped : List Nat
  nulls : List Bool
  put : Nat
  taken : Nat

inductive VmmAct where
  | acquire (thread : Nat) (lease : Lease)
  | release (thread chunk : Nat)
  | purge (thread : Nat)
  | step (thread : Nat)

namespace VmmSys

def moveTo (s : VmmSys) (thread : Nat) (pc : VmmPc) : VmmSys :=
  { s with pc := Function.update s.pc thread pc }

def withVmm (s : VmmSys) (vmm : Vmm) : VmmSys := { s with state := { s.state with vmm := vmm } }

def drop (s : VmmSys) (thread chunk : Nat) : VmmSys :=
  { s.moveTo thread .idle with dropped := chunk :: s.dropped }

end VmmSys

def advance (s : VmmSys) (thread : Nat) : Option VmmSys :=
  match s.pc thread with
  | .idle => none
  | .poolAlloc lease node =>
      let popped := poolPop s.state.vmm node
      if popped.1 ≠ 0 then some ((s.withVmm popped.2).moveTo thread (.poolHit lease popped.1))
      else some (s.moveTo thread (.globalAlloc lease node))
  | .poolHit lease chunk =>
      some ((s.withVmm (clearNext s.state.vmm chunk)).moveTo thread (.formatting lease chunk))
  | .globalAlloc lease node =>
      let popped := globalPop s.state.vmm
      if popped.1 ≠ 0 then
        some { (s.withVmm popped.2).moveTo thread (.globalHit lease popped.1 node) with
          taken := s.taken + 1 }
      else some (s.moveTo thread (.mapping lease node))
  | .mapping lease node =>
      match mapExtent s.state with
      | (none, asked) =>
          some { s.moveTo thread (.globalRetry lease node false) with state := asked }
      | (some alignedAddr, asked) =>
          some { s.moveTo thread (.carving lease node alignedAddr) with state := asked }
  | .carving lease node alignedAddr =>
      some { (s.withVmm (carveExtent s.state.vmm alignedAddr)).moveTo thread
          (.globalRetry lease node true) with
        put := s.put + lzExtentChunks }
  | .globalRetry lease node granted =>
      let popped := globalPop s.state.vmm
      if popped.1 ≠ 0 then
        some { (s.withVmm popped.2).moveTo thread (.globalHit lease popped.1 node) with
          taken := s.taken + 1 }
      else some { s.moveTo thread .idle with nulls := (!granted) :: s.nulls }
  | .globalHit lease chunk node =>
      some ((s.withVmm (neutralize s.state.vmm chunk node)).moveTo thread (.formatting lease chunk))
  | .formatting lease chunk =>
      some { (s.withVmm (claimHeader s.state.vmm chunk lease.tlh
          lease.engine.chunkType)).moveTo thread .idle with
        held := Function.update s.held chunk (some lease) }
  | .destroying lease chunk =>
      if lease.engine = .slab ∧ ¬checksumOk s.state.vmm chunk then some (s.drop thread chunk)
      else some (s.moveTo thread (.freeing chunk))
  | .freeing chunk =>
      if chunk = 0 ∨ ¬magicOk s.state.vmm chunk then some (s.drop thread chunk)
      else some (s.moveTo thread (.poolFree chunk))
  | .poolFree chunk =>
      let pushed := poolPush s.state.vmm chunk
      if pushed.1 then some ((s.withVmm pushed.2).moveTo thread (.globalFree chunk))
      else some ((s.withVmm pushed.2).moveTo thread .idle)
  | .globalFree chunk =>
      let deflated := { s with state := deflate s.state chunk }
      some { (deflated.withVmm (globalPush s.state.vmm chunk)).moveTo thread .idle with
        put := s.put + 1 }
  | .purging index =>
      if index < lzMaxNumaNodes then
        let detached := poolDrain s.state.vmm index
        some ((s.withVmm detached.2).moveTo thread (.flushing index detached.1))
      else some (s.moveTo thread .idle)
  | .flushing index chunk =>
      if chunk = 0 then some (s.moveTo thread (.purging (index + 1)))
      else
        let next := s.state.vmm.next chunk
        let deflated := { s with state := deflate s.state chunk }
        some { (deflated.withVmm (globalPush s.state.vmm chunk)).moveTo thread
            (.flushing index next) with
          put := s.put + 1 }

/-- Calls start at idle threads; a heap gives back a chunk it holds, once. -/
def vmmStep (s : VmmSys) : VmmAct → Option VmmSys
  | .acquire thread lease =>
      match s.pc thread with
      | .idle =>
          let located := lzGetCurrentNode s.state
          some { s.moveTo thread (.poolAlloc lease located.1) with state := located.2 }
      | _ => none
  | .release thread chunk =>
      match s.pc thread, s.held chunk with
      | .idle, some lease =>
          some { s.moveTo thread (.destroying lease chunk) with
            held := Function.update s.held chunk none }
      | _, _ => none
  | .purge thread =>
      match s.pc thread with
      | .idle => some (s.moveTo thread (.purging 0))
      | _ => none
  | .step thread => advance s thread

def vmmStart (env : Env) (secret : BitVec 64) (telemetry : Bool) : VmmSys where
  state := initial env secret telemetry
  pc := fun _ => .idle
  held := fun _ => none
  dropped := []
  nulls := []
  put := 0
  taken := 0

/-! ## Invariant -/

inductive VmmPlace
  | listed (list : CachePlace)
  | transit (thread : Nat)
  | held
  deriving DecidableEq

def VmmPlace.cached : VmmPlace → Option CachePlace
  | .listed list => some list
  | _ => none

def cachedOf (place : Nat → Option VmmPlace) (chunk : Nat) : Option CachePlace :=
  (place chunk).bind VmmPlace.cached

/-- What `lz_vmm_free_chunk` reads in a header. -/
def HeaderOk (vmm : Vmm) (chunk : Nat) : Prop :=
  magicOk vmm chunk ∧ (vmm.header chunk).nodeId < 16

/-- What the guards read in the header of a chunk that a heap has held. -/
def LeaseOk (vmm : Vmm) (chunk : Nat) (lease : Lease) : Prop :=
  HeaderOk vmm chunk ∧ (lease.engine = .slab → checksumOk vmm chunk)

section Points

variable (vmm : Vmm) (place : Nat → Option VmmPlace) (thread : Nat)

def CarriesNone : Prop := ∀ chunk, place chunk ≠ some (.transit thread)

def Carries (chunk : Nat) : Prop := ∀ each, place each = some (.transit thread) ↔ each = chunk

/-- What a thread carries at each point and what it knows about it. -/
def PcOk : VmmPc → Prop
  | .idle => CarriesNone place thread
  | .poolAlloc _ node => CarriesNone place thread ∧ node < 16
  | .poolHit _ chunk => Carries place thread chunk ∧ HeaderOk vmm chunk
  | .globalAlloc _ node => CarriesNone place thread ∧ node < 16
  | .mapping _ node => CarriesNone place thread ∧ node < 16
  | .carving _ node _ => CarriesNone place thread ∧ node < 16
  | .globalRetry _ node _ => CarriesNone place thread ∧ node < 16
  | .globalHit _ chunk node => Carries place thread chunk ∧ node < 16
  | .formatting _ chunk => Carries place thread chunk ∧ HeaderOk vmm chunk
  | .destroying lease chunk => Carries place thread chunk ∧ LeaseOk vmm chunk lease
  | .freeing chunk => Carries place thread chunk ∧ HeaderOk vmm chunk
  | .poolFree chunk => Carries place thread chunk ∧ HeaderOk vmm chunk
  | .globalFree chunk => Carries place thread chunk
  | .purging _ => CarriesNone place thread
  | .flushing _ chunk => ∃ count, Enumerates vmm.next chunk
      (fun each => place each = some (.transit thread)) count

end Points

def VmmPc.extent : VmmPc → Option Nat
  | .carving _ _ alignedAddr => some alignedAddr
  | _ => none

/-- The extent is aligned and mapped, and none of its chunks is known yet. -/
structure ExtentOk (regions : List (Nat × Nat)) (place : Nat → Option VmmPlace)
    (alignedAddr : Nat) : Prop where
  aligned : alignedAddr % 2097152 = 0
  positive : 0 < alignedAddr
  mapped : ∀ chunk ∈ extentChunks alignedAddr, Mapped regions chunk
  fresh : ∀ chunk ∈ extentChunks alignedAddr, place chunk = none

structure RaceInv (s : VmmSys) (place : Nat → Option VmmPlace) : Prop where
  caches : CacheInv s.state.vmm (cachedOf place)
  points : ∀ thread, PcOk s.state.vmm place thread (s.pc thread)
  leases : ∀ chunk lease, s.held chunk = some lease →
    place chunk = some .held ∧ LeaseOk s.state.vmm chunk lease
  holders : ∀ chunk, place chunk = some .held → s.held chunk ≠ none
  carved : ∀ chunk, chunk ∈ s.state.vmm.carved ↔ place chunk ≠ none
  mapped : ∀ chunk, place chunk ≠ none → chunk ≠ 0 ∧ Mapped s.state.regions chunk
  extents : ∀ thread alignedAddr, (s.pc thread).extent = some alignedAddr →
    ExtentOk s.state.regions place alignedAddr
  rivals : ∀ thread rival alignedAddr other, thread ≠ rival →
    (s.pc thread).extent = some alignedAddr → (s.pc rival).extent = some other →
    ∀ chunk ∈ extentChunks alignedAddr, chunk ∉ extentChunks other
  tally : s.taken + {chunk | place chunk = some (.listed .global)}.ncard = s.put
  dropped : s.dropped = []

variable {s after : VmmSys} {place moved : Nat → Option VmmPlace} {thread chunk : Nat} {pc : VmmPc}

theorem race_start (env : Env) (secret : BitVec 64) (telemetry : Bool) :
    RaceInv (vmmStart env secret telemetry) fun _ => none := by
  refine ⟨?_, fun _ => nofun, nofun, nofun, by simp [vmmStart, initial], by simp, nofun, nofun,
    by simp [vmmStart], rfl⟩
  refine ⟨fun _ _ => enumerates_empty nofun, fun _ _ => Nat.zero_le _, nofun, 0, ?_⟩
  exact enumerates_empty nofun

/-! ## What a step leaves to the other threads -/

theorem pc_ok_frame {vmm other : Vmm} (ok : PcOk vmm place thread pc)
    (places : ∀ each, moved each = some (.transit thread) ↔ place each = some (.transit thread))
    (header : ∀ each, place each = some (.transit thread) → other.header each = vmm.header each)
    (next : ∀ each, place each = some (.transit thread) → other.next each = vmm.next each) :
    PcOk other moved thread pc := by
  have none : CarriesNone place thread → CarriesNone moved thread :=
    fun carried each there => carried each ((places each).mp there)
  have one : ∀ chunk, Carries place thread chunk → Carries moved thread chunk :=
    fun chunk carried each => (places each).trans (carried each)
  have same : ∀ chunk, Carries place thread chunk → other.header chunk = vmm.header chunk :=
    fun chunk carried => header chunk ((carried chunk).mpr rfl)
  have headerOk : ∀ chunk, Carries place thread chunk → HeaderOk vmm chunk →
      HeaderOk other chunk := by
    intro chunk carried known
    rw [HeaderOk, magicOk, same chunk carried]
    exact known
  cases pc with
  | idle => exact none ok
  | poolAlloc lease node => exact ⟨none ok.1, ok.2⟩
  | poolHit lease chunk => exact ⟨one chunk ok.1, headerOk chunk ok.1 ok.2⟩
  | globalAlloc lease node => exact ⟨none ok.1, ok.2⟩
  | mapping lease node => exact ⟨none ok.1, ok.2⟩
  | carving lease node alignedAddr => exact ⟨none ok.1, ok.2⟩
  | globalRetry lease node granted => exact ⟨none ok.1, ok.2⟩
  | globalHit lease chunk node => exact ⟨one chunk ok.1, ok.2⟩
  | formatting lease chunk => exact ⟨one chunk ok.1, headerOk chunk ok.1 ok.2⟩
  | destroying lease chunk =>
      refine ⟨one chunk ok.1, headerOk chunk ok.1 ok.2.1, fun slab => ?_⟩
      rw [checksumOk, same chunk ok.1]
      exact ok.2.2 slab
  | freeing chunk => exact ⟨one chunk ok.1, headerOk chunk ok.1 ok.2⟩
  | poolFree chunk => exact ⟨one chunk ok.1, headerOk chunk ok.1 ok.2⟩
  | globalFree chunk => exact one chunk ok
  | purging index => exact none ok
  | flushing index chunk =>
      obtain ⟨count, chain⟩ := ok
      exact ⟨count, enumerates_congr chain next places⟩

/-- The chunks a step works on. They belong to no other thread before or after
the step; everything else keeps its place, its header and its link. -/
structure Touches (s after : VmmSys) (place moved : Nat → Option VmmPlace) (thread : Nat)
    (touched : Nat → Prop) : Prop where
  places : ∀ each, ¬touched each → moved each = place each
  headers : ∀ each, ¬touched each → place each ≠ none →
    after.state.vmm.header each = s.state.vmm.header each
  nexts : ∀ each, ¬touched each → place each ≠ none →
    after.state.vmm.next each = s.state.vmm.next each
  before : ∀ each, touched each → ∀ rival, rival ≠ thread → place each ≠ some (.transit rival)
  behind : ∀ each, touched each → ∀ rival, rival ≠ thread → moved each ≠ some (.transit rival)
  known : ∀ each, touched each → moved each ≠ none ∧ each ≠ 0 ∧ Mapped after.state.regions each
  extents : ∀ rival alignedAddr, rival ≠ thread → (s.pc rival).extent = some alignedAddr →
    ∀ each ∈ extentChunks alignedAddr, ¬touched each
  regions : ∀ address, Mapped s.state.regions address → Mapped after.state.regions address

theorem touches_transit {touched : Nat → Prop}
    (touches : Touches s after place moved thread touched)
    {rival : Nat} (other : rival ≠ thread) (each : Nat) :
    moved each = some (.transit rival) ↔ place each = some (.transit rival) := by
  by_cases here : touched each
  · exact iff_of_false (touches.behind each here rival other) (touches.before each here rival other)
  · rw [touches.places each here]

theorem touches_frame {touched : Nat → Prop} (touches : Touches s after place moved thread touched)
    {rival : Nat} (other : rival ≠ thread) (ok : PcOk s.state.vmm place rival pc) :
    PcOk after.state.vmm moved rival pc := by
  have untouched : ∀ each, place each = some (.transit rival) → ¬touched each :=
    fun each there here => touches.before each here rival other there
  refine pc_ok_frame ok (touches_transit touches other) ?_ ?_
  · intro each there
    exact touches.headers each (untouched each there) (by simp [there])
  · intro each there
    exact touches.nexts each (untouched each there) (by simp [there])

theorem extent_update {pcs : Nat → VmmPc} {rival alignedAddr : Nat}
    (extent : (Function.update pcs thread pc rival).extent = some alignedAddr) :
    rival = thread ∧ pc.extent = some alignedAddr ∨
      rival ≠ thread ∧ (pcs rival).extent = some alignedAddr := by
  by_cases same : rival = thread
  · subst same
    rw [Function.update_self] at extent
    exact Or.inl ⟨rfl, extent⟩
  · rw [Function.update_of_ne same] at extent
    exact Or.inr ⟨same, extent⟩

/-- The general step: the thread's own point, the lists, the leases and the
counters are left to show. -/
theorem race_step {touched : Nat → Prop} (inv : RaceInv s place)
    (touches : Touches s after place moved thread touched)
    (pcs : after.pc = Function.update s.pc thread pc)
    (caches : CacheInv after.state.vmm (cachedOf moved))
    (mine : PcOk after.state.vmm moved thread pc)
    (leases : ∀ each lease, after.held each = some lease →
      ¬touched each ∧ s.held each = some lease ∨
        moved each = some .held ∧ LeaseOk after.state.vmm each lease)
    (holders : ∀ each, moved each = some .held → after.held each ≠ none)
    (carved : ∀ each, each ∈ after.state.vmm.carved ↔ moved each ≠ none)
    (extent : ∀ alignedAddr, pc.extent = some alignedAddr →
      ExtentOk after.state.regions moved alignedAddr ∧
        ∀ rival other, rival ≠ thread → (s.pc rival).extent = some other →
          ∀ each ∈ extentChunks alignedAddr, each ∉ extentChunks other)
    (tally : after.taken + {each | moved each = some (.listed .global)}.ncard = after.put)
    (dropped : after.dropped = s.dropped) : RaceInv after moved := by
  refine ⟨caches, fun rival => ?_, ?_, holders, carved, ?_, ?_, ?_, tally,
    dropped.trans inv.dropped⟩
  · rw [pcs]
    by_cases same : rival = thread
    · rw [same, Function.update_self]
      exact mine
    · rw [Function.update_of_ne same]
      exact touches_frame touches same (inv.points rival)
  · intro each lease taken
    obtain ⟨untouched, earlier⟩ | now := leases each lease taken
    · obtain ⟨there, headerOk, checksum⟩ := inv.leases each lease earlier
      have same := touches.headers each untouched (by simp [there])
      refine ⟨(touches.places each untouched).trans there, ?_, fun slab => ?_⟩
      · rw [HeaderOk, magicOk, same]
        exact headerOk
      · rw [checksumOk, same]
        exact checksum slab
    · exact now
  · intro each there
    by_cases here : touched each
    · exact (touches.known each here).2
    · rw [touches.places each here] at there
      have before := inv.mapped each there
      exact ⟨before.1, touches.regions each before.2⟩
  · intro rival alignedAddr now
    rw [pcs] at now
    obtain ⟨rfl, own⟩ | ⟨other, theirs⟩ := extent_update now
    · exact (extent alignedAddr own).1
    · have before := inv.extents rival alignedAddr theirs
      refine ⟨before.aligned, before.positive, ?_, ?_⟩
      · exact fun each member => touches.regions each (before.mapped each member)
      · intro each member
        rw [touches.places each (touches.extents rival alignedAddr other theirs each member)]
        exact before.fresh each member
  · intro first second alignedAddr other different now nowOther
    rw [pcs] at now nowOther
    obtain ⟨rfl, own⟩ | ⟨firstOther, theirs⟩ := extent_update now
    · obtain ⟨rfl, _⟩ | ⟨secondOther, secondTheirs⟩ := extent_update nowOther
      · exact absurd rfl different
      · exact (extent alignedAddr own).2 second other secondOther secondTheirs
    · obtain ⟨rfl, own⟩ | ⟨secondOther, secondTheirs⟩ := extent_update nowOther
      · intro each member otherMember
        exact (extent other own).2 first alignedAddr firstOther theirs each otherMember member
      · exact inv.rivals first second alignedAddr other different theirs secondTheirs

theorem touches_one (inv : RaceInv s place) (here : place chunk ≠ none)
    (still : moved chunk ≠ none) (places : ∀ each, each ≠ chunk → moved each = place each)
    (headers : ∀ each, each ≠ chunk → after.state.vmm.header each = s.state.vmm.header each)
    (nexts : ∀ each, each ≠ chunk → after.state.vmm.next each = s.state.vmm.next each)
    (before : ∀ rival, rival ≠ thread → place chunk ≠ some (.transit rival))
    (behind : ∀ rival, rival ≠ thread → moved chunk ≠ some (.transit rival))
    (regions : after.state.regions = s.state.regions) :
    Touches s after place moved thread (· = chunk) := by
  refine ⟨places, fun each other _ => headers each other, fun each other _ => nexts each other,
    ?_, ?_, ?_, ?_, ?_⟩
  · rintro each rfl
    exact before
  · rintro each rfl
    exact behind
  · rintro each rfl
    rw [regions]
    exact ⟨still, inv.mapped each here⟩
  · rintro rival alignedAddr _ theirs each member rfl
    exact here ((inv.extents rival alignedAddr theirs).fresh each member)
  · intro address mapped
    rw [regions]
    exact mapped

theorem carved_one (inv : RaceInv s place) (here : place chunk ≠ none) (still : moved chunk ≠ none)
    (places : ∀ each, each ≠ chunk → moved each = place each)
    (carved : after.state.vmm.carved = s.state.vmm.carved) (each : Nat) :
    each ∈ after.state.vmm.carved ↔ moved each ≠ none := by
  rw [carved, inv.carved each]
  by_cases same : each = chunk
  · subst same
    exact iff_of_true here still
  · rw [places each same]

theorem holders_kept (inv : RaceInv s place) (held : after.held = s.held)
    (places : ∀ each, moved each = some .held → place each = some .held) (each : Nat)
    (there : moved each = some .held) : after.held each ≠ none := by
  rw [held]
  exact inv.holders each (places each there)

theorem race_move (inv : RaceInv s place) (pcs : after.pc = Function.update s.pc thread pc)
    (vmm : after.state.vmm = s.state.vmm) (regions : after.state.regions = s.state.regions)
    (held : after.held = s.held) (put : after.put = s.put) (taken : after.taken = s.taken)
    (dropped : after.dropped = s.dropped) (extent : pc.extent = none)
    (mine : PcOk s.state.vmm place thread pc) : RaceInv after place := by
  have touches : Touches s after place place thread fun _ => False := by
    refine ⟨fun _ _ => rfl, ?_, ?_, nofun, nofun, nofun, ?_, ?_⟩
    · intro each _ _
      rw [vmm]
    · intro each _ _
      rw [vmm]
    · exact fun _ _ _ _ _ _ => id
    · intro address mapped
      rw [regions]
      exact mapped
  refine race_step inv touches pcs (vmm ▸ inv.caches) (vmm ▸ mine) ?_ ?_ ?_ ?_ ?_ dropped
  · intro each lease there
    exact Or.inl ⟨id, held ▸ there⟩
  · exact holders_kept inv held fun _ => id
  · intro each
    rw [vmm]
    exact inv.carved each
  · intro alignedAddr some
    rw [extent] at some
    cases some
  · rw [put, taken]
    exact inv.tally

/-! ## Steps on one chunk -/

theorem cached_of_update (place : Nat → Option VmmPlace) (chunk : Nat) (there : VmmPlace) :
    cachedOf (Function.update place chunk (some there)) =
      Function.update (cachedOf place) chunk there.cached := by
  funext each
  by_cases same : each = chunk
  · subst same
    simp [cachedOf]
  · simp [cachedOf, same]

theorem carries_taken (none : CarriesNone place thread) (chunk : Nat) :
    Carries (Function.update place chunk (some (.transit thread))) thread chunk := by
  intro each
  by_cases same : each = chunk
  · subst same
    simp
  · simp only [Function.update_of_ne same]
    exact iff_of_false (none each) same

theorem carries_given (carried : Carries place thread chunk) {there : VmmPlace}
    (elsewhere : there ≠ .transit thread) :
    CarriesNone (Function.update place chunk (some there)) thread := by
  intro each now
  by_cases same : each = chunk
  · subst same
    rw [Function.update_self] at now
    exact elsewhere (Option.some.inj now)
  · rw [Function.update_of_ne same] at now
    exact same ((carried each).mp now)

theorem carries_place (carried : Carries place thread chunk) :
    place chunk = some (.transit thread) := (carried chunk).mpr rfl

theorem cached_of_transit (there : place chunk = some (.transit thread)) :
    cachedOf place chunk = none := by simp [cachedOf, there, VmmPlace.cached]

theorem cached_of_listed {list : CachePlace} (there : cachedOf place chunk = some list) :
    place chunk = some (.listed list) := by
  unfold cachedOf at there
  obtain ⟨kind, placed, cached⟩ := Option.bind_eq_some_iff.mp there
  cases kind with
  | listed other =>
      cases cached
      exact placed
  | transit rival => cases cached
  | held => cases cached

/-- An unlocked write to the header of a chunk that the thread carries. -/
theorem race_write (inv : RaceInv s place) (carried : Carries place thread chunk)
    (pcs : after.pc = Function.update s.pc thread pc)
    (caches : CacheInv after.state.vmm (cachedOf place))
    (headers : ∀ each, each ≠ chunk → after.state.vmm.header each = s.state.vmm.header each)
    (nexts : ∀ each, each ≠ chunk → after.state.vmm.next each = s.state.vmm.next each)
    (carved : after.state.vmm.carved = s.state.vmm.carved)
    (regions : after.state.regions = s.state.regions) (held : after.held = s.held)
    (put : after.put = s.put) (taken : after.taken = s.taken) (dropped : after.dropped = s.dropped)
    (extent : pc.extent = none) (mine : PcOk after.state.vmm place thread pc) :
    RaceInv after place := by
  have there := carries_place carried
  have here : place chunk ≠ none := by simp [there]
  have own : ∀ rival, rival ≠ thread → place chunk ≠ some (.transit rival) := by
    intro rival other
    simp [there, Ne.symm other]
  have touches := touches_one inv here here (fun _ _ => rfl) headers nexts own own regions
  refine race_step inv touches pcs caches mine ?_ ?_ (carved_one inv here here (fun _ _ => rfl)
    carved) ?_ ?_ dropped
  · intro each lease earlier
    rw [held] at earlier
    refine Or.inl ⟨?_, earlier⟩
    rintro rfl
    have placed := (inv.leases each lease earlier).1
    rw [there] at placed
    cases placed
  · exact holders_kept inv held fun _ => id
  · intro alignedAddr some
    rw [extent] at some
    cases some
  · rw [put, taken]
    exact inv.tally

theorem race_transfer (inv : RaceInv s place) {from_ to_ : VmmPlace}
    (start : place chunk = some from_)
    (route : (∃ list, from_ = .listed list) ∧ to_ = .transit thread ∨
      from_ = .transit thread ∧ ∃ list, to_ = .listed list)
    (pcs : after.pc = Function.update s.pc thread pc)
    (caches : CacheInv after.state.vmm (Function.update (cachedOf place) chunk to_.cached))
    (header : after.state.vmm.header = s.state.vmm.header)
    (nexts : ∀ each, each ≠ chunk → after.state.vmm.next each = s.state.vmm.next each)
    (carved : after.state.vmm.carved = s.state.vmm.carved)
    (regions : after.state.regions = s.state.regions) (held : after.held = s.held)
    (tally : after.taken +
      {each | Function.update place chunk (some to_) each = some (.listed .global)}.ncard =
        after.put)
    (dropped : after.dropped = s.dropped) (extent : pc.extent = none)
    (mine : PcOk after.state.vmm (Function.update place chunk (some to_)) thread pc) :
    RaceInv after (Function.update place chunk (some to_)) := by
  have here : place chunk ≠ none := by simp [start]
  have still : Function.update place chunk (some to_) chunk ≠ none := by simp
  have places : ∀ each, each ≠ chunk → Function.update place chunk (some to_) each = place each :=
    fun each other => Function.update_of_ne other ..
  have free : from_ ≠ .held ∧ to_ ≠ .held := by
    obtain ⟨⟨list, rfl⟩, rfl⟩ | ⟨rfl, list, rfl⟩ := route
    · exact ⟨nofun, nofun⟩
    · exact ⟨nofun, nofun⟩
  have own : ∀ rival, rival ≠ thread →
      from_ ≠ .transit rival ∧ to_ ≠ .transit rival := by
    intro rival other
    obtain ⟨⟨list, rfl⟩, rfl⟩ | ⟨rfl, list, rfl⟩ := route
    · exact ⟨nofun, fun same => other (VmmPlace.transit.inj same).symm⟩
    · exact ⟨fun same => other (VmmPlace.transit.inj same).symm, nofun⟩
  have touches : Touches s after place (Function.update place chunk (some to_)) thread
      (· = chunk) := by
    refine touches_one inv here still places ?_ nexts ?_ ?_ regions
    · intro each _
      rw [header]
    · intro rival other same
      rw [start] at same
      exact (own rival other).1 (Option.some.inj same)
    · intro rival other same
      rw [Function.update_self] at same
      exact (own rival other).2 (Option.some.inj same)
  refine race_step inv touches pcs ?_ mine ?_ ?_ (carved_one inv here still places carved) ?_ tally
    dropped
  · rw [cached_of_update]
    exact caches
  · intro each lease earlier
    rw [held] at earlier
    refine Or.inl ⟨?_, earlier⟩
    rintro rfl
    have placed := (inv.leases each lease earlier).1
    rw [start] at placed
    exact free.1 (Option.some.inj placed)
  · refine holders_kept inv held fun each now => ?_
    by_cases same : each = chunk
    · subst same
      rw [Function.update_self] at now
      exact absurd (Option.some.inj now) free.2
    · rwa [places each same] at now
  · intro alignedAddr some
    rw [extent] at some
    cases some

/-! ## The length of the global list -/

def OnGlobal (place : Nat → Option VmmPlace) : Set Nat :=
  {each | place each = some (.listed .global)}

theorem cached_of_global {list : CachePlace} :
    cachedOf place chunk = some list ↔ place chunk = some (.listed list) := by
  refine ⟨cached_of_listed, fun there => ?_⟩
  simp [cachedOf, there, VmmPlace.cached]

theorem global_chain (inv : RaceInv s place) : ∃ nodes : List Nat,
    Segment s.state.vmm.next s.state.vmm.globalFreeChunks nodes 0 ∧
      OnGlobal place = {each | each ∈ nodes} := by
  obtain ⟨_, nodes, segment, _, exact, _⟩ := inv.caches.global
  refine ⟨nodes, segment, ?_⟩
  ext each
  simp only [OnGlobal, Set.mem_ofPred_eq, exact each, cached_of_global]

theorem global_finite (inv : RaceInv s place) : (OnGlobal place).Finite := by
  obtain ⟨nodes, _, members⟩ := global_chain inv
  rw [members]
  exact nodes.finite_toSet

theorem global_empty_iff (inv : RaceInv s place) :
    s.state.vmm.globalFreeChunks = 0 ↔ s.put ≤ s.taken := by
  have tally : s.taken + (OnGlobal place).ncard = s.put := inv.tally
  have card : s.put ≤ s.taken ↔ (OnGlobal place).ncard = 0 := by omega
  rw [card, Set.ncard_eq_zero (global_finite inv)]
  obtain ⟨nodes, segment, members⟩ := global_chain inv
  rw [members]
  cases nodes with
  | nil => simpa using segment
  | cons first rest =>
      obtain ⟨start, nonnull, _⟩ := segment
      refine iff_of_false (start ▸ nonnull) fun empty => ?_
      have member : first ∈ {each | each ∈ first :: rest} := by simp
      rw [empty] at member
      exact member

theorem on_global_other {to_ : VmmPlace} (start : place chunk ≠ some (.listed .global))
    (stop : to_ ≠ .listed .global) :
    OnGlobal (Function.update place chunk (some to_)) = OnGlobal place := by
  ext each
  by_cases same : each = chunk
  · subst same
    simp [OnGlobal, start, stop]
  · simp [OnGlobal, same]

theorem on_global_taken (inv : RaceInv s place) (start : place chunk = some (.listed .global)) :
    (OnGlobal (Function.update place chunk (some (.transit thread)))).ncard + 1 =
      (OnGlobal place).ncard := by
  have removed : OnGlobal (Function.update place chunk (some (.transit thread))) =
      OnGlobal place \ {chunk} := by
    ext each
    by_cases same : each = chunk
    · subst same
      simp [OnGlobal]
    · simp [OnGlobal, same]
  rw [removed]
  exact Set.ncard_sdiff_singleton_add_one start (global_finite inv)

theorem on_global_put (inv : RaceInv s place) (start : place chunk ≠ some (.listed .global)) :
    (OnGlobal (Function.update place chunk (some (.listed .global)))).ncard =
      (OnGlobal place).ncard + 1 := by
  have added : OnGlobal (Function.update place chunk (some (.listed .global))) =
      insert chunk (OnGlobal place) := by
    ext each
    by_cases same : each = chunk
    · subst same
      simp [OnGlobal]
    · simp [OnGlobal, same]
  rw [added]
  exact Set.ncard_insert_of_notMem start (global_finite inv)

/-! ## Allocation -/

theorem pool_pop_next (vmm : Vmm) (node : Nat) : (poolPop vmm node).2.next = vmm.next := by
  by_cases empty : (vmm.pools (lzTopologyGetPool node)).freeChunks = 0 <;> simp [poolPop, empty]

theorem global_pop_next (vmm : Vmm) : (globalPop vmm).2.next = vmm.next := by
  by_cases empty : vmm.globalFreeChunks = 0 <;> simp [globalPop, empty]

theorem race_pool_hit (inv : RaceInv s place) {lease : Lease} {node : Nat}
    (at_ : s.pc thread = .poolAlloc lease node) (hit : (poolPop s.state.vmm node).1 ≠ 0) :
    ∃ moved, RaceInv ((s.withVmm (poolPop s.state.vmm node).2).moveTo thread
      (.poolHit lease (poolPop s.state.vmm node).1)) moved := by
  obtain ⟨none, bound⟩ : PcOk s.state.vmm place thread (.poolAlloc lease node) :=
    at_ ▸ inv.points thread
  obtain ⟨listed, caches⟩ := cache_inv_pool_pop inv.caches bound hit
  have start := cached_of_listed listed
  obtain ⟨_, magic, nodeId⟩ := inv.caches.poolHeader _ _ listed
  refine ⟨_, race_transfer inv start (Or.inl ⟨⟨_, rfl⟩, rfl⟩) rfl caches (pool_pop_header ..) ?_
    (pool_pop_carved ..) rfl rfl ?_ rfl rfl ⟨carries_taken none _, ?_⟩⟩
  · intro each _
    exact congrFun (pool_pop_next ..) each
  · have elsewhere : place (poolPop s.state.vmm node).1 ≠ some (.listed .global) := by simp [start]
    have same := on_global_other elsewhere (nofun : VmmPlace.transit thread ≠ .listed .global)
    exact (congrArg (s.taken + Set.ncard ·) same).trans inv.tally
  · have header := pool_pop_header s.state.vmm node
    simp only [VmmSys.moveTo, VmmSys.withVmm, HeaderOk, magicOk, header]
    exact ⟨magic, nodeId.trans_lt bound⟩

theorem race_global_hit (inv : RaceInv s place) {lease : Lease} {node : Nat}
    (none : CarriesNone place thread) (bound : node < 16)
    (hit : (globalPop s.state.vmm).1 ≠ 0) :
    ∃ moved, RaceInv { (s.withVmm (globalPop s.state.vmm).2).moveTo thread
      (.globalHit lease (globalPop s.state.vmm).1 node) with taken := s.taken + 1 } moved := by
  obtain ⟨listed, caches⟩ := cache_inv_global_pop inv.caches hit
  have start := cached_of_listed listed
  refine ⟨_, race_transfer inv start (Or.inl ⟨⟨_, rfl⟩, rfl⟩) rfl caches (global_pop_header ..) ?_
    (global_pop_carved ..) rfl rfl ?_ rfl rfl ⟨carries_taken none _, bound⟩⟩
  · intro each _
    exact congrFun (global_pop_next ..) each
  · have fewer := @on_global_taken s place thread _ inv start
    have tally : s.taken + (OnGlobal place).ncard = s.put := inv.tally
    simp only [OnGlobal] at fewer tally
    simp only [VmmSys.moveTo, VmmSys.withVmm]
    omega

theorem race_clear_next (inv : RaceInv s place) {lease : Lease}
    (at_ : s.pc thread = .poolHit lease chunk) :
    RaceInv ((s.withVmm (clearNext s.state.vmm chunk)).moveTo thread (.formatting lease chunk))
      place := by
  obtain ⟨carried, headerOk⟩ : PcOk s.state.vmm place thread (.poolHit lease chunk) :=
    at_ ▸ inv.points thread
  have unlisted := cached_of_transit (carries_place carried)
  exact race_write inv carried rfl (cache_inv_clear_next inv.caches unlisted) (fun _ _ => rfl)
    (fun each other => Function.update_of_ne other ..) rfl rfl rfl rfl rfl rfl rfl
    ⟨carried, headerOk⟩

theorem race_neutralize (inv : RaceInv s place) {lease : Lease} {node : Nat}
    (at_ : s.pc thread = .globalHit lease chunk node) :
    RaceInv ((s.withVmm (neutralize s.state.vmm chunk node)).moveTo thread
      (.formatting lease chunk)) place := by
  obtain ⟨carried, bound⟩ : PcOk s.state.vmm place thread (.globalHit lease chunk node) :=
    at_ ▸ inv.points thread
  have unlisted := cached_of_transit (carries_place carried)
  refine race_write inv carried rfl (cache_inv_neutralize inv.caches unlisted)
    (fun each other => Function.update_of_ne other ..)
    (fun each other => Function.update_of_ne other ..) rfl rfl rfl rfl rfl rfl rfl
    ⟨carried, ?_⟩
  simp only [VmmSys.moveTo, VmmSys.withVmm, HeaderOk, magicOk, neutralize, Function.update_self]
  exact ⟨trivial, bound⟩

theorem cached_of_none {each : Nat} (unknown : place each = none) : cachedOf place each = none := by
  simp [cachedOf, unknown]

/-- `mmap` for an extent resets headers of the new region only. -/
theorem race_map (inv : RaceInv s place) {lease : Lease} {node alignedAddr : Nat} {asked : State}
    (at_ : s.pc thread = .mapping lease node)
    (fresh : MapsFresh s.state asked alignedAddr 67108864) :
    RaceInv { s.moveTo thread (.carving lease node alignedAddr) with state := asked } place := by
  obtain ⟨none, bound⟩ : PcOk s.state.vmm place thread (.mapping lease node) :=
    at_ ▸ inv.points thread
  have rest := congrArg State.vmm fresh.rest
  have grows : ∀ address, Mapped s.state.regions address → Mapped asked.regions address :=
    fun address known => (fresh.mapped address).mpr (Or.inl known)
  have inside : ∀ each ∈ extentChunks alignedAddr,
      alignedAddr ≤ each ∧ each < alignedAddr + 67108864 := by
    intro each member
    obtain ⟨index, indexBound, rfl⟩ := mem_extent_chunks.mp member
    omega
  have unmapped : ∀ each ∈ extentChunks alignedAddr, ¬Mapped s.state.regions each :=
    fun each member => fresh.fresh each (inside each member).1 (inside each member).2
  have headers : ∀ each, place each ≠ Option.none →
      asked.vmm.header each = s.state.vmm.header each :=
    fun each there => fresh.header each (inv.mapped each there).2
  have nexts : ∀ each, place each ≠ Option.none →
      asked.vmm.next each = s.state.vmm.next each :=
    fun each there => fresh.next each (inv.mapped each there).2
  have listed : ∀ each, cachedOf place each ≠ Option.none → place each ≠ Option.none :=
    fun each there unknown => there (cached_of_none unknown)
  have touches : Touches s { s.moveTo thread (.carving lease node alignedAddr) with state := asked }
      place place thread fun _ => False :=
    ⟨fun _ _ => rfl, fun each _ => headers each, fun each _ => nexts each, nofun, nofun, nofun,
      fun _ _ _ _ _ _ => id, grows⟩
  refine race_step inv touches rfl ?_ ⟨none, bound⟩ (fun _ _ held => Or.inl ⟨id, held⟩)
    inv.holders ?_ ?_ inv.tally rfl
  · refine cache_inv_congr inv.caches ?_ ?_ (fun each there => nexts each (listed each there))
      fun each there => headers each (listed each there)
    · rw [rest]
    · rw [rest]
  · intro each
    rw [rest]
    exact inv.carved each
  · rintro _ ⟨⟩
    refine ⟨⟨fresh.aligned, fresh.positive, ?_, ?_⟩, ?_⟩
    · intro each member
      exact (fresh.mapped each).mpr (Or.inr (inside each member))
    · intro each member
      by_contra known
      exact unmapped each member (inv.mapped each known).2
    · intro rival other different theirs each member otherMember
      exact unmapped each member ((inv.extents rival other theirs).mapped each otherMember)

def carvedPlace (place : Nat → Option VmmPlace) (alignedAddr each : Nat) : Option VmmPlace :=
  if each ∈ extentChunks alignedAddr then some (.listed .global) else place each

theorem push_all_next (chunks : List Nat) (vmm : Vmm) {each : Nat} (other : each ∉ chunks) :
    (chunks.foldl globalPush vmm).next each = vmm.next each := by
  induction chunks generalizing vmm with
  | nil => rfl
  | cons first rest ih =>
      simp only [List.mem_cons, not_or] at other
      exact (ih (globalPush vmm first) other.2).trans (Function.update_of_ne other.1 ..)

theorem carve_extent_next (vmm : Vmm) {alignedAddr each : Nat}
    (other : each ∉ extentChunks alignedAddr) :
    (carveExtent vmm alignedAddr).next each = vmm.next each := by
  rw [carve_extent_eq]
  simp only [push_all_next _ _ other]

theorem extent_chunks_length (alignedAddr : Nat) : (extentChunks alignedAddr).length = 32 := by
  simp [extentChunks]

theorem on_global_carved (inv : RaceInv s place) {alignedAddr : Nat}
    (fresh : ∀ each ∈ extentChunks alignedAddr, place each = none) :
    (OnGlobal (carvedPlace place alignedAddr)).ncard = (OnGlobal place).ncard + 32 := by
  have union : OnGlobal (carvedPlace place alignedAddr) =
      OnGlobal place ∪ ((extentChunks alignedAddr).toFinset : Set Nat) := by
    ext each
    by_cases member : each ∈ extentChunks alignedAddr
    · simp [OnGlobal, carvedPlace, member]
    · simp [OnGlobal, carvedPlace, member]
  have disjoint : Disjoint (OnGlobal place) ((extentChunks alignedAddr).toFinset : Set Nat) := by
    rw [Set.disjoint_left]
    intro each listed member
    have unknown := fresh each (by simpa using member)
    simp [OnGlobal, unknown] at listed
  rw [union, Set.ncard_union_eq disjoint (global_finite inv) (Finset.finite_toSet _),
    Set.ncard_coe_finset, List.toFinset_card_of_nodup (extent_chunks_nodup alignedAddr),
    extent_chunks_length]

theorem race_carve (inv : RaceInv s place) {lease : Lease} {node alignedAddr : Nat}
    (at_ : s.pc thread = .carving lease node alignedAddr) :
    RaceInv { (s.withVmm (carveExtent s.state.vmm alignedAddr)).moveTo thread
        (.globalRetry lease node true) with put := s.put + lzExtentChunks }
      (carvedPlace place alignedAddr) := by
  obtain ⟨none, bound⟩ : PcOk s.state.vmm place thread (.carving lease node alignedAddr) :=
    at_ ▸ inv.points thread
  have own : (s.pc thread).extent = some alignedAddr := by rw [at_]; rfl
  have extent := inv.extents thread alignedAddr own
  have listed : ∀ each ∈ extentChunks alignedAddr,
      carvedPlace place alignedAddr each = some (.listed .global) :=
        fun each member => if_pos member
  have others : ∀ each, each ∉ extentChunks alignedAddr →
      carvedPlace place alignedAddr each = place each := fun each member => if_neg member
  have nonnull : ∀ each ∈ extentChunks alignedAddr, each ≠ 0 := by
    intro each member
    obtain ⟨index, _, rfl⟩ := mem_extent_chunks.mp member
    have positive := extent.positive
    omega
  have caches := cache_inv_carve alignedAddr inv.caches fun each member =>
    ⟨cached_of_none (extent.fresh each member), nonnull each member⟩
  have header := carve_extent_header s.state.vmm alignedAddr
  have next := fun each => @carve_extent_next s.state.vmm alignedAddr each
  have carved := carve_extent_carved s.state.vmm alignedAddr
  -- From here on only these facts about the carved lists matter.
  generalize carveExtent s.state.vmm alignedAddr = vmm at caches header next carved ⊢
  have touches : Touches s { (s.withVmm vmm).moveTo thread (.globalRetry lease node true) with
      put := s.put + lzExtentChunks } place (carvedPlace place alignedAddr) thread
      (· ∈ extentChunks alignedAddr) := by
    refine ⟨others, fun each _ _ => congrFun header each, fun each member _ => next each member,
      ?_, ?_, ?_, ?_, fun _ => id⟩
    · intro each member rival _
      rw [extent.fresh each member]
      nofun
    · intro each member rival _
      rw [listed each member]
      nofun
    · intro each member
      rw [listed each member]
      exact ⟨nofun, nonnull each member, extent.mapped each member⟩
    · intro rival other different theirs each member here
      exact inv.rivals thread rival alignedAddr other (Ne.symm different) own theirs
        each here member
  refine race_step inv touches rfl ?_ ⟨?_, bound⟩ ?_ ?_ ?_ nofun ?_ rfl
  · have same : cachedOf (carvedPlace place alignedAddr) = fun each =>
        if each ∈ extentChunks alignedAddr then some .global else cachedOf place each := by
      funext each
      by_cases member : each ∈ extentChunks alignedAddr
      · simp [cachedOf, listed each member, member, VmmPlace.cached]
      · simp [cachedOf, others each member, member]
    rw [same]
    exact caches
  · intro each there
    by_cases member : each ∈ extentChunks alignedAddr
    · rw [listed each member] at there
      cases there
    · rw [others each member] at there
      exact none each there
  · intro each lease earlier
    refine Or.inl ⟨fun member => ?_, earlier⟩
    have placed := (inv.leases each lease earlier).1
    rw [extent.fresh each member] at placed
    cases placed
  · intro each there
    by_cases member : each ∈ extentChunks alignedAddr
    · rw [listed each member] at there
      cases there
    · rw [others each member] at there
      exact inv.holders each there
  · intro each
    simp only [VmmSys.moveTo, VmmSys.withVmm, carved, List.mem_append, inv.carved each]
    by_cases member : each ∈ extentChunks alignedAddr
    · simp [listed each member, member]
    · simp [others each member, member]
  · have more := on_global_carved inv extent.fresh
    have tally : s.taken + (OnGlobal place).ncard = s.put := inv.tally
    simp only [OnGlobal] at more tally
    simp only [VmmSys.moveTo, VmmSys.withVmm, lzExtentChunks]
    omega

/-! ## Heaps -/

/-- The engines write owner, type and checksum; the guards pass from then on. -/
theorem lease_ok_claim {vmm : Vmm} (ok : HeaderOk vmm chunk) (lease : Lease) :
    LeaseOk (claimHeader vmm chunk lease.tlh lease.engine.chunkType) chunk lease := by
  simp only [LeaseOk, HeaderOk, magicOk, checksumOk, claimHeader, Function.update_self,
    lzCalcChecksum, implies_true, and_true]
  exact ok

theorem race_format (inv : RaceInv s place) {lease : Lease}
    (at_ : s.pc thread = .formatting lease chunk) :
    RaceInv { (s.withVmm (claimHeader s.state.vmm chunk lease.tlh lease.engine.chunkType)).moveTo
        thread .idle with held := Function.update s.held chunk (some lease) }
      (Function.update place chunk (some .held)) := by
  obtain ⟨carried, headerOk⟩ : PcOk s.state.vmm place thread (.formatting lease chunk) :=
    at_ ▸ inv.points thread
  have start := carries_place carried
  have here : place chunk ≠ none := by simp [start]
  have still : Function.update place chunk (some .held) chunk ≠ none := by simp
  have places : ∀ each, each ≠ chunk → Function.update place chunk (some .held) each = place each :=
    fun each other => Function.update_of_ne other ..
  have touches := @touches_one s { (s.withVmm (claimHeader s.state.vmm chunk lease.tlh
    lease.engine.chunkType)).moveTo thread .idle with
      held := Function.update s.held chunk (some lease) } place _ thread chunk inv here still places
    (fun each other => Function.update_of_ne other ..) (fun _ _ => rfl)
    (by intro rival other; simp [start, Ne.symm other]) (by intro rival _; simp) rfl
  refine race_step inv touches rfl ?_ (carries_given carried nofun) ?_ ?_
    (carved_one inv here still places rfl) nofun ?_ rfl
  · rw [cached_of_update]
    have unlisted := cached_of_transit start
    have same : Function.update (cachedOf place) chunk VmmPlace.held.cached = cachedOf place := by
      rw [show VmmPlace.held.cached = cachedOf place chunk from unlisted.symm]
      exact Function.update_eq_self ..
    rw [same]
    exact cache_inv_header inv.caches unlisted _
  · intro each other earlier
    by_cases same : each = chunk
    · subst same
      obtain rfl : lease = other := by simpa using earlier
      exact Or.inr ⟨Function.update_self .., lease_ok_claim headerOk lease⟩
    · simp only [Function.update_of_ne same] at earlier
      exact Or.inl ⟨same, earlier⟩
  · intro each there
    by_cases same : each = chunk
    · simp [same]
    · rw [places each same] at there
      simp only [Function.update_of_ne same]
      exact inv.holders each there
  · have elsewhere : place chunk ≠ some (.listed .global) := by simp [start]
    have same := on_global_other elsewhere (nofun : VmmPlace.held ≠ .listed .global)
    exact (congrArg (s.taken + Set.ncard ·) same).trans inv.tally

theorem race_release (inv : RaceInv s place) {lease : Lease} (idle : s.pc thread = .idle)
    (holds : s.held chunk = some lease) :
    RaceInv { s.moveTo thread (.destroying lease chunk) with
        held := Function.update s.held chunk none }
      (Function.update place chunk (some (.transit thread))) := by
  have none : CarriesNone place thread := by
    have point := inv.points thread
    rw [idle] at point
    exact point
  obtain ⟨start, leaseOk⟩ := inv.leases chunk lease holds
  have here : place chunk ≠ Option.none := by simp [start]
  have still : Function.update place chunk (some (.transit thread)) chunk ≠ Option.none := by simp
  have places : ∀ each, each ≠ chunk →
      Function.update place chunk (some (.transit thread)) each = place each :=
    fun each other => Function.update_of_ne other ..
  have touches := @touches_one s { s.moveTo thread (.destroying lease chunk) with
      held := Function.update s.held chunk Option.none } place _ thread chunk inv here still places
    (fun _ _ => rfl) (fun _ _ => rfl) (by intro rival _; simp [start])
    (by intro rival other; simp [Ne.symm other]) rfl
  refine race_step inv touches rfl ?_ ⟨carries_taken none chunk, leaseOk⟩ ?_ ?_
    (carved_one inv here still places rfl) nofun ?_ rfl
  · rw [cached_of_update]
    have unlisted : cachedOf place chunk = Option.none := by
      simp [cachedOf, start, VmmPlace.cached]
    have same : Function.update (cachedOf place) chunk (VmmPlace.transit thread).cached =
        cachedOf place := by
      rw [show (VmmPlace.transit thread).cached = cachedOf place chunk from unlisted.symm]
      exact Function.update_eq_self ..
    rw [same]
    exact inv.caches
  · intro each other earlier
    by_cases same : each = chunk
    · subst same
      simp at earlier
    · simp only [Function.update_of_ne same] at earlier
      exact Or.inl ⟨same, earlier⟩
  · intro each there
    by_cases same : each = chunk
    · simp [same] at there
    · rw [places each same] at there
      simp only [Function.update_of_ne same]
      exact inv.holders each there
  · have elsewhere : place chunk ≠ some (.listed .global) := by simp [start]
    have same := on_global_other elsewhere (nofun : VmmPlace.transit thread ≠ .listed .global)
    exact (congrArg (s.taken + Set.ncard ·) same).trans inv.tally

/-! ## Giving chunks back -/

theorem race_pool_push (inv : RaceInv s place) (at_ : s.pc thread = .poolFree chunk)
    (room : (poolPush s.state.vmm chunk).1 = false) :
    ∃ moved, RaceInv ((s.withVmm (poolPush s.state.vmm chunk).2).moveTo thread .idle) moved := by
  obtain ⟨carried, magic, bound⟩ : PcOk s.state.vmm place thread (.poolFree chunk) :=
    at_ ▸ inv.points thread
  have start := carries_place carried
  have nonnull : chunk ≠ 0 := (inv.mapped chunk (by simp [start])).1
  have caches := cache_inv_pool_push inv.caches (cached_of_transit start) nonnull magic bound room
  refine ⟨_, race_transfer inv start (Or.inr ⟨rfl, .pool (s.state.vmm.header chunk).nodeId, rfl⟩)
    rfl caches (pool_push_header ..) ?_ (pool_push_carved ..) rfl rfl ?_ rfl rfl
    (carries_given carried (by simp))⟩
  · intro each other
    simp only [VmmSys.moveTo, VmmSys.withVmm, poolPush]
    split
    · exact Function.update_of_ne other ..
    · rfl
  · have elsewhere : place chunk ≠ some (.listed .global) := by simp [start]
    have same := on_global_other elsewhere
      (by simp : VmmPlace.listed (.pool (s.state.vmm.header chunk).nodeId) ≠ .listed .global)
    exact (congrArg (s.taken + Set.ncard ·) same).trans inv.tally

theorem race_global_push (inv : RaceInv s place) (start : place chunk = some (.transit thread))
    (extent : pc.extent = none)
    (mine : PcOk (globalPush s.state.vmm chunk)
      (Function.update place chunk (some (.listed .global))) thread pc) :
    RaceInv { (VmmSys.withVmm { s with state := deflate s.state chunk }
        (globalPush s.state.vmm chunk)).moveTo thread pc with put := s.put + 1 }
      (Function.update place chunk (some (.listed .global))) := by
  have nonnull : chunk ≠ 0 := (inv.mapped chunk (by simp [start])).1
  have caches := cache_inv_global_push inv.caches (cached_of_transit start) nonnull
  refine race_transfer inv start (Or.inr ⟨rfl, .global, rfl⟩) rfl caches rfl ?_ rfl rfl rfl ?_ rfl
    extent mine
  · intro each other
    exact Function.update_of_ne other ..
  · have elsewhere : place chunk ≠ some (.listed .global) := by simp [start]
    have more := on_global_put inv elsewhere
    have tally : s.taken + (OnGlobal place).ncard = s.put := inv.tally
    simp only [OnGlobal] at more tally
    simp only [VmmSys.moveTo, VmmSys.withVmm]
    omega

theorem race_global_free (inv : RaceInv s place) (at_ : s.pc thread = .globalFree chunk) :
    ∃ moved, RaceInv { (VmmSys.withVmm { s with state := deflate s.state chunk }
      (globalPush s.state.vmm chunk)).moveTo thread .idle with put := s.put + 1 } moved := by
  have carried : PcOk s.state.vmm place thread (.globalFree chunk) := at_ ▸ inv.points thread
  exact ⟨_, race_global_push inv (carries_place carried) rfl (carries_given carried nofun)⟩

theorem race_flush (inv : RaceInv s place) {index : Nat} (at_ : s.pc thread = .flushing index chunk)
    (nonnull : chunk ≠ 0) :
    ∃ moved, RaceInv { (VmmSys.withVmm { s with state := deflate s.state chunk }
      (globalPush s.state.vmm chunk)).moveTo thread
        (.flushing index (s.state.vmm.next chunk)) with put := s.put + 1 } moved := by
  obtain ⟨count, chain⟩ : PcOk s.state.vmm place thread (.flushing index chunk) :=
    at_ ▸ inv.points thread
  have start := enumerates_head chain nonnull
  refine ⟨_, race_global_push inv start rfl ⟨count - 1, ?_⟩⟩
  refine (enumerates_pop chain nonnull ?_ ?_).2
  · intro old _ other
    exact Function.update_of_ne other ..
  · intro each
    by_cases same : each = chunk
    · simp [same]
    · simp [same]

def drainedPlace (place : Nat → Option VmmPlace) (index thread each : Nat) : Option VmmPlace :=
  if place each = some (.listed (.pool index)) then some (.transit thread) else place each

theorem race_drain (inv : RaceInv s place) {index : Nat} (at_ : s.pc thread = .purging index)
    (bound : index < 16) :
    RaceInv ((s.withVmm (poolDrain s.state.vmm index).2).moveTo thread
      (.flushing index (poolDrain s.state.vmm index).1)) (drainedPlace place index thread) := by
  have none : CarriesNone place thread := by
    have point := inv.points thread
    rw [at_] at point
    exact point
  obtain ⟨caches, count, _, chain⟩ := cache_inv_pool_drain inv.caches bound
  have taken : ∀ each, place each = some (.listed (.pool index)) →
      drainedPlace place index thread each = some (.transit thread) :=
        fun each there => if_pos there
  have others : ∀ each, place each ≠ some (.listed (.pool index)) →
      drainedPlace place index thread each = place each := fun each there => if_neg there
  have touches : Touches s ((s.withVmm (poolDrain s.state.vmm index).2).moveTo thread
      (.flushing index (poolDrain s.state.vmm index).1)) place (drainedPlace place index thread)
      thread fun each => place each = some (.listed (.pool index)) := by
    refine ⟨others, fun _ _ _ => rfl, fun _ _ _ => rfl, ?_, ?_, ?_, ?_, fun _ => id⟩
    · intro each there rival _
      simp [there]
    · intro each there rival other
      simp [taken each there, Ne.symm other]
    · intro each there
      exact ⟨by simp [taken each there], inv.mapped each (by simp [there])⟩
    · intro rival alignedAddr _ theirs each member there
      rw [(inv.extents rival alignedAddr theirs).fresh each member] at there
      cases there
  have unchanged : ∀ each there, there ≠ VmmPlace.transit thread →
      there ≠ .listed (.pool index) →
      (drainedPlace place index thread each = some there ↔ place each = some there) := by
    intro each there notMine notPool
    by_cases pooled : place each = some (.listed (.pool index))
    · rw [taken each pooled, pooled]
      exact iff_of_false (fun same => notMine (Option.some.inj same).symm)
        (fun same => notPool (Option.some.inj same).symm)
    · rw [others each pooled]
  refine race_step inv touches rfl ?_ ⟨count, ?_⟩ ?_ ?_ ?_ (by simp [VmmPc.extent]) ?_ rfl
  · have same : cachedOf (drainedPlace place index thread) = drained (cachedOf place) index := by
      funext each
      by_cases there : place each = some (.listed (.pool index))
      · simp [cachedOf, taken each there, drained, there, VmmPlace.cached]
      · have unlisted : cachedOf place each ≠ some (.pool index) :=
          fun listed => there (cached_of_listed listed)
        simp only [drained, if_neg unlisted]
        simp only [cachedOf, others each there]
    rw [same]
    exact caches
  · refine enumerates_congr chain (fun _ _ => rfl) fun each => ?_
    rw [cached_of_global]
    by_cases there : place each = some (.listed (.pool index))
    · exact iff_of_true (taken each there) there
    · rw [others each there]
      exact iff_of_false (none each) there
  · intro each lease earlier
    refine Or.inl ⟨fun there => ?_, earlier⟩
    have placed := (inv.leases each lease earlier).1
    rw [there] at placed
    cases placed
  · intro each there
    exact inv.holders each ((unchanged each .held (by simp) (by simp)).mp there)
  · intro each
    refine (inv.carved each).trans ?_
    by_cases there : place each = some (.listed (.pool index))
    · simp [taken each there, there]
    · rw [others each there]
  · have same : OnGlobal (drainedPlace place index thread) = OnGlobal place := by
      ext each
      exact unchanged each (.listed .global) (by simp) (by simp)
    exact (congrArg (s.taken + Set.ncard ·) same).trans inv.tally

/-! ## Runs -/

theorem race_advance (inv : RaceInv s place) (stepped : advance s thread = some after) :
    ∃ moved, RaceInv after moved := by
  have point := inv.points thread
  unfold advance at stepped
  cases at_ : s.pc thread with
  | idle => simp [at_] at stepped
  | poolAlloc lease node =>
      rw [at_] at point
      simp only [at_] at stepped
      split at stepped
      · rename_i hit
        cases stepped
        exact race_pool_hit inv at_ hit
      · cases stepped
        exact ⟨place, race_move inv rfl rfl rfl rfl rfl rfl rfl rfl point⟩
  | poolHit lease chunk =>
      simp only [at_] at stepped
      cases stepped
      exact ⟨place, race_clear_next inv at_⟩
  | globalAlloc lease node =>
      rw [at_] at point
      simp only [at_] at stepped
      split at stepped
      · rename_i hit
        cases stepped
        exact race_global_hit inv point.1 point.2 hit
      · cases stepped
        exact ⟨place, race_move inv rfl rfl rfl rfl rfl rfl rfl rfl point⟩
  | mapping lease node =>
      rw [at_] at point
      simp only [at_] at stepped
      obtain failed | ⟨alignedAddr, asked, done, fresh⟩ := map_extent_cases s.state
      · simp only [failed] at stepped
        cases stepped
        exact ⟨place, race_move inv rfl rfl rfl rfl rfl rfl rfl rfl point⟩
      · simp only [done] at stepped
        cases stepped
        exact ⟨place, race_map inv at_ fresh⟩
  | carving lease node alignedAddr =>
      simp only [at_] at stepped
      cases stepped
      exact ⟨_, race_carve inv at_⟩
  | globalRetry lease node granted =>
      rw [at_] at point
      simp only [at_] at stepped
      split at stepped
      · rename_i hit
        cases stepped
        exact race_global_hit inv point.1 point.2 hit
      · cases stepped
        exact ⟨place, race_move inv rfl rfl rfl rfl rfl rfl rfl rfl point.1⟩
  | globalHit lease chunk node =>
      simp only [at_] at stepped
      cases stepped
      exact ⟨place, race_neutralize inv at_⟩
  | formatting lease chunk =>
      simp only [at_] at stepped
      cases stepped
      exact ⟨_, race_format inv at_⟩
  | destroying lease chunk =>
      rw [at_] at point
      obtain ⟨carried, headerOk, checksum⟩ := point
      have passes : ¬(lease.engine = .slab ∧ ¬checksumOk s.state.vmm chunk) :=
        fun blocked => blocked.2 (checksum blocked.1)
      simp only [at_, if_neg passes] at stepped
      cases stepped
      exact ⟨place, race_move inv rfl rfl rfl rfl rfl rfl rfl rfl ⟨carried, headerOk⟩⟩
  | freeing chunk =>
      rw [at_] at point
      obtain ⟨carried, headerOk⟩ := point
      have nonnull := (inv.mapped chunk (by simp [carries_place carried])).1
      have passes : ¬(chunk = 0 ∨ ¬magicOk s.state.vmm chunk) :=
        not_or.mpr ⟨nonnull, not_not.mpr headerOk.1⟩
      simp only [at_, if_neg passes] at stepped
      cases stepped
      exact ⟨place, race_move inv rfl rfl rfl rfl rfl rfl rfl rfl ⟨carried, headerOk⟩⟩
  | poolFree chunk =>
      rw [at_] at point
      simp only [at_] at stepped
      split at stepped
      · rename_i full
        cases stepped
        have same := pool_push_full full
        exact ⟨place, race_move inv rfl same rfl rfl rfl rfl rfl rfl point.1⟩
      · rename_i room
        cases stepped
        exact race_pool_push inv at_ (by simpa using room)
  | globalFree chunk =>
      simp only [at_] at stepped
      cases stepped
      exact race_global_free inv at_
  | purging index =>
      rw [at_] at point
      simp only [at_] at stepped
      split at stepped
      · rename_i bound
        cases stepped
        exact ⟨_, race_drain inv at_ bound⟩
      · cases stepped
        exact ⟨place, race_move inv rfl rfl rfl rfl rfl rfl rfl rfl point⟩
  | flushing index chunk =>
      rw [at_] at point
      simp only [at_] at stepped
      split at stepped
      · rename_i null
        subst null
        obtain ⟨count, chain⟩ := point
        have none := enumerates_null chain
        cases stepped
        exact ⟨place, race_move inv rfl rfl rfl rfl rfl rfl rfl rfl none.2⟩
      · rename_i nonnull
        cases stepped
        exact race_flush inv at_ nonnull

theorem race_vmm_step (inv : RaceInv s place) {action : VmmAct}
    (stepped : vmmStep s action = some after) : ∃ moved, RaceInv after moved := by
  cases action with
  | acquire thread lease =>
      simp only [vmmStep] at stepped
      split at stepped
      · rename_i idle
        have none := inv.points thread
        rw [idle] at none
        cases stepped
        exact ⟨place, race_move inv rfl rfl rfl rfl rfl rfl rfl rfl
          ⟨none, lz_get_current_node_bound s.state⟩⟩
      · cases stepped
  | release thread chunk =>
      simp only [vmmStep] at stepped
      split at stepped
      · rename_i lease idle holds
        cases stepped
        exact ⟨_, race_release inv idle holds⟩
      · cases stepped
  | purge thread =>
      simp only [vmmStep] at stepped
      split at stepped
      · rename_i idle
        have none := inv.points thread
        rw [idle] at none
        cases stepped
        exact ⟨place, race_move inv rfl rfl rfl rfl rfl rfl rfl rfl none⟩
      · cases stepped
  | step thread => exact race_advance inv stepped

theorem race_run {env : Env} {secret : BitVec 64} {telemetry : Bool} {actions : List VmmAct}
    (ran : run vmmStep (vmmStart env secret telemetry) actions = some s) :
    ∃ place, RaceInv s place := by
  have preserved : ∀ state action reached, (∃ place, RaceInv state place) →
      vmmStep state action = some reached → ∃ place, RaceInv reached place := by
    rintro state action reached ⟨place, inv⟩ stepped
    exact race_vmm_step inv stepped
  exact run_invariant_always preserved ⟨_, race_start env secret telemetry⟩ ran

end Lzmalloc.VmmRaces
