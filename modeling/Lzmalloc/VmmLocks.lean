import Lzmalloc.LockedBlocks
import Lzmalloc.VmmContracts

/-!
# The spinlocks of the memory manager

`vmm.c` load by load and store by store: every access to a list head, a counter,
a link or a header, every test-and-set of `pool_lock` and `global_pool_lock` and
every release is a step of its own. The invariant of the races shows that two
threads meet in a cell only under one lock, so the locked sections may be taken
as single steps.
-/

namespace Lzmalloc.VmmLocks

open SizeClasses HeapState VirtualMemoryManager Engines PointerChain HeapInvariant ChunkCaches
open StepSystem LockedBlocks VmmRaces VmmContracts

set_option autoImplicit false

/-! ## Cells -/

inductive VmmCell
  | poolHead (index : Nat)
  | poolCount (index : Nat)
  | globalHead
  | next (chunk : Nat)
  | header (chunk : Nat)
  deriving DecidableEq

@[reducible] def VmmVal : VmmCell → Type
  | .header _ => ChunkHeader
  | _ => Nat

inductive VmmLock
  | pool (node : Nat)
  | global
  deriving DecidableEq

def cells (vmm : Vmm) : Store VmmVal
  | .poolHead index => (vmm.pools index).freeChunks
  | .poolCount index => (vmm.pools index).availableCount
  | .globalHead => vmm.globalFreeChunks
  | .next chunk => vmm.next chunk
  | .header chunk => vmm.header chunk

def ofCells (store : Store VmmVal) (carved : List Nat) : Vmm where
  header := fun chunk => store (.header chunk)
  next := fun chunk => store (.next chunk)
  pools := fun index => ⟨store (.poolHead index), store (.poolCount index)⟩
  globalFreeChunks := store .globalHead
  carved := carved

theorem of_cells_cells (vmm : Vmm) : ofCells (cells vmm) vmm.carved = vmm := rfl

theorem cells_of_cells (store : Store VmmVal) (carved : List Nat) :
    cells (ofCells store carved) = store := by
  funext cell
  cases cell <;> rfl

/-! ## The sections of `vmm.c` -/

section Sections

abbrev VmmOps := Ops VmmVal Nat

abbrev VmmBlock := Block VmmVal Nat VmmLock

/-- First section of `lz_vmm_alloc_chunk`. -/
def poolPopOps (index : Nat) : VmmOps :=
  .read (.poolHead index) fun (top : Nat) =>
    if top = 0 then .done 0
    else
      .read (.next top) fun (next : Nat) =>
        .write (.poolHead index) next <|
          .read (.poolCount index) fun (count : Nat) =>
            .write (.poolCount index) ((count + (2 ^ 64 - 1)) % 2 ^ 64) <| .done top

/-- The second section takes a chunk from the global list. -/
def globalTakeOps : VmmOps :=
  .read .globalHead fun (chunk : Nat) =>
    if chunk = 0 then .done 0
    else .read (.next chunk) fun (next : Nat) => .write .globalHead next <| .done chunk

/-- The test in front of it, with the lock kept if the list is not empty. -/
def globalAllocOps : VmmOps :=
  .read .globalHead fun (head : Nat) => if head = 0 then .done 0 else globalTakeOps

/-- Pushes onto the global list, one after another. -/
def globalPushOps (result : Nat) : List Nat → VmmOps
  | [] => .done result
  | chunk :: chunks =>
      .read .globalHead fun (head : Nat) =>
        .write (.next chunk) head <| .write .globalHead chunk <| globalPushOps result chunks

/-- The section of `lz_vmm_free_chunk`; `1` is `return_to_global`. -/
def poolPushOps (index chunk : Nat) : VmmOps :=
  .read (.poolCount index) fun (count : Nat) =>
    if count < lzVmmMaxCachedChunks then
      .read (.poolHead index) fun (top : Nat) =>
        .write (.next chunk) top <|
          .write (.poolHead index) chunk <|
            .read (.poolCount index) fun (count : Nat) =>
              .write (.poolCount index) ((count + 1) % 2 ^ 64) <| .done 0
    else .done 1

/-- The section of `lz_vmm_purge_all_caches`. -/
def poolDrainOps (index : Nat) : VmmOps :=
  .read (.poolHead index) fun (head : Nat) =>
    .write (.poolHead index) 0 <| .write (.poolCount index) 0 <| .done head

def setHeader (chunk : Nat) (change : ChunkHeader → ChunkHeader) (rest : VmmBlock) : VmmBlock :=
  .read (.header chunk) fun (header : ChunkHeader) => .write (.header chunk) (change header) rest

def neutralizeOps (chunk node : Nat) : VmmBlock :=
  .write (.next chunk) 0 <|
    setHeader chunk (fun header => { header with owningTlh := 0 }) <|
      setHeader chunk (fun header => { header with nodeId := node }) <|
        setHeader chunk (fun header => { header with magic := lzChunkMagicV2 }) <|
          setHeader chunk (fun header => { header with canary := 0 }) <|
            setHeader chunk (fun header => { header with checksum := 0 }) <| .done (.finish 0)

def claimOps (chunk tlh : Nat) (chunkType : ChunkType) : VmmBlock :=
  setHeader chunk (fun header => { header with owningTlh := tlh }) <|
    setHeader chunk (fun header => { header with chunkType := chunkType }) <|
      setHeader chunk (fun header => { header with checksum := lzCalcChecksum header }) <|
        .done (.finish 0)

/-- The next block of a thread; calls and mappings are not blocks. -/
def vmmBlock (s : VmmSys) (thread : Nat) : Option VmmBlock :=
  match s.pc thread with
  | .idle => none
  | .poolAlloc _ node => some (.done (.locked (.pool node) (poolPopOps (lzTopologyGetPool node))))
  | .poolHit _ chunk => some (.write (.next chunk) 0 <| .done (.finish 0))
  | .globalAlloc _ _ => some (.done (.locked .global globalAllocOps))
  | .mapping _ _ => none
  | .carving _ _ alignedAddr =>
      some (.done (.locked .global (globalPushOps 0 (extentChunks alignedAddr))))
  | .globalRetry _ _ _ => some (.done (.locked .global globalTakeOps))
  | .globalHit _ chunk node => some (neutralizeOps chunk node)
  | .formatting lease chunk => some (claimOps chunk lease.tlh lease.engine.chunkType)
  | .destroying lease chunk =>
      if lease.engine = .slab then
        some (.read (.header chunk) fun (header : ChunkHeader) =>
          .done (.finish (if header.checksum = lzCalcChecksum header then 1 else 0)))
      else some (.done (.finish 1))
  | .freeing chunk =>
      if chunk = 0 then some (.done (.finish 0))
      else
        some (.read (.header chunk) fun (header : ChunkHeader) =>
          .done (.finish (if header.magic = lzChunkMagicV2 then 1 else 0)))
  | .poolFree chunk =>
      some (.read (.header chunk) fun (header : ChunkHeader) =>
        .done (.locked (.pool header.nodeId)
          (poolPushOps (lzTopologyGetPool header.nodeId) chunk)))
  | .globalFree chunk => some (.done (.locked .global (globalPushOps 0 [chunk])))
  | .purging index =>
      if index < lzMaxNumaNodes then some (.done (.locked (.pool index) (poolDrainOps index)))
      else some (.done (.finish 0))
  | .flushing _ chunk =>
      if chunk = 0 then some (.done (.finish 0))
      else
        some (.read (.next chunk) fun (next : Nat) =>
          .done (.locked .global (globalPushOps next [chunk])))

/-- Where a thread goes on after its block. The pages behind a chunk that goes
to the global list are given back here; no block reads them. -/
def vmmFinish (s : VmmSys) (thread result : Nat) : VmmSys :=
  match s.pc thread with
  | .idle => s
  | .poolAlloc lease node =>
      if result ≠ 0 then s.moveTo thread (.poolHit lease result)
      else s.moveTo thread (.globalAlloc lease node)
  | .poolHit lease chunk => s.moveTo thread (.formatting lease chunk)
  | .globalAlloc lease node =>
      if result ≠ 0 then
        { s.moveTo thread (.globalHit lease result node) with taken := s.taken + 1 }
      else s.moveTo thread (.mapping lease node)
  | .mapping _ _ => s
  | .carving lease node alignedAddr =>
      { (s.withVmm { s.state.vmm with
            carved := extentChunks alignedAddr ++ s.state.vmm.carved }).moveTo thread
          (.globalRetry lease node true) with
        put := s.put + lzExtentChunks }
  | .globalRetry lease node granted =>
      if result ≠ 0 then
        { s.moveTo thread (.globalHit lease result node) with taken := s.taken + 1 }
      else { s.moveTo thread .idle with nulls := (!granted) :: s.nulls }
  | .globalHit lease chunk _ => s.moveTo thread (.formatting lease chunk)
  | .formatting lease chunk =>
      { s.moveTo thread .idle with held := Function.update s.held chunk (some lease) }
  | .destroying _ chunk =>
      if result = 0 then s.drop thread chunk else s.moveTo thread (.freeing chunk)
  | .freeing chunk => if result = 0 then s.drop thread chunk else s.moveTo thread (.poolFree chunk)
  | .poolFree chunk =>
      if result ≠ 0 then s.moveTo thread (.globalFree chunk) else s.moveTo thread .idle
  | .globalFree chunk =>
      { s.moveTo thread .idle with state := deflate s.state chunk, put := s.put + 1 }
  | .purging index =>
      if index < lzMaxNumaNodes then s.moveTo thread (.flushing index result)
      else s.moveTo thread .idle
  | .flushing index chunk =>
      if chunk = 0 then s.moveTo thread (.purging (index + 1))
      else
        { s.moveTo thread (.flushing index result) with
          state := deflate s.state chunk
          put := s.put + 1 }

/-- The start of a call, or the mapping of an extent. -/
def vmmCall (s : VmmSys) : VmmAct → Option VmmSys
  | .step thread =>
      match s.pc thread with
      | .mapping _ _ => advance s thread
      | _ => none
  | act => vmmStep s act

def callerOf : VmmAct → Nat
  | .acquire thread _ => thread
  | .release thread _ => thread
  | .purge thread => thread
  | .step thread => thread

def zeroCells (raw length : Nat) : (cell : VmmCell) → VmmVal cell → VmmVal cell
  | .next chunk, link => if raw ≤ chunk ∧ chunk < raw + length then 0 else link
  | .header chunk, header => if raw ≤ chunk ∧ chunk < raw + length then {} else header
  | .poolHead _, head => head
  | .poolCount _, count => count
  | .globalHead, head => head

def mmapCells (state : State) (length : Nat) (cell : VmmCell) (value : VmmVal cell) : VmmVal cell :=
  match state.env.regionMmap state.regionCalls with
  | none => value
  | some raw =>
      if MmapValid state.regions raw length then zeroCells raw length cell value else value

/-- Only the mapping of an extent touches cells. -/
def vmmChange (s : VmmSys) : VmmAct → (cell : VmmCell) → VmmVal cell → VmmVal cell
  | .step _ => mmapCells s.state (lzExtentSize + lzHugePageSize)
  | _ => fun _ value => value

def vmmProgram : Program VmmSys Nat VmmAct VmmVal Nat VmmLock where
  memory := fun s => cells s.state.vmm
  withMemory := fun s store => s.withVmm (ofCells store s.state.vmm.carved)
  block := vmmBlock
  finish := vmmFinish
  caller := callerOf
  call := vmmCall
  change := vmmChange

end Sections

/-! ## The laws -/

variable {s after : VmmSys} {place : Nat → Option VmmPlace} {thread chunk index : Nat}

theorem vmm_finish_pc (s : VmmSys) (thread result : Nat)
    {other : Nat} (different : other ≠ thread) :
    (vmmFinish s thread result).pc other = s.pc other := by
  have moved : ∀ pc, (s.moveTo thread pc).pc other = s.pc other :=
    fun pc => Function.update_of_ne different _ _
  unfold vmmFinish
  split
  case h_1 => rfl
  case h_5 => rfl
  -- every other point moves this thread only
  all_goals first
    | exact moved _
    | (split <;> exact moved _)

theorem mmap_cells (state : State) (length : Nat) (store : Store VmmVal) :
    mmap { state with vmm := ofCells store state.vmm.carved } length =
      ((mmap state length).1,
        { (mmap state length).2 with
          vmm := ofCells (fun cell => mmapCells state length cell (store cell))
            state.vmm.carved }) := by
  unfold mmap mmapCells
  cases answer : state.env.regionMmap state.regionCalls with
  | none => rfl
  | some raw =>
      dsimp only
      by_cases valid : MmapValid state.regions raw length
      · simp only [if_pos valid]
        rfl
      · simp only [if_neg valid]

theorem trim_cells (asked : State) (zeroed : Vmm) (front back : Prop) [Decidable front]
    [Decidable back] (start length last rest : Nat) :
    (if back then
        munmap (if front then munmap { asked with vmm := zeroed } start length
          else { asked with vmm := zeroed }) last rest
      else if front then munmap { asked with vmm := zeroed } start length
        else { asked with vmm := zeroed }) =
      { (if back then munmap (if front then munmap asked start length else asked) last rest
          else if front then munmap asked start length else asked) with
        vmm := zeroed } := by
  by_cases first : front
  · by_cases second : back
    · simp only [if_pos first, if_pos second]
      rfl
    · simp only [if_pos first, if_neg second]
      rfl
  · by_cases second : back
    · simp only [if_neg first, if_pos second]
      rfl
    · simp only [if_neg first, if_neg second]

theorem map_extent_cells (state : State) (store : Store VmmVal) :
    mapExtent { state with vmm := ofCells store state.vmm.carved } =
      ((mapExtent state).1,
        { (mapExtent state).2 with
          vmm := ofCells
            (fun cell => mmapCells state (lzExtentSize + lzHugePageSize) cell (store cell))
            state.vmm.carved }) := by
  unfold mapExtent
  dsimp only
  rw [mmap_cells]
  generalize ofCells _ state.vmm.carved = zeroed
  generalize mmap state (lzExtentSize + lzHugePageSize) = result
  obtain ⟨answer, asked⟩ := result
  cases answer with
  | none => rfl
  | some raw =>
      dsimp only
      by_cases offset : raw % lzHugePageSize ≠ 0
      · rw [if_pos offset, if_pos offset]
        exact congrArg (Prod.mk _) (trim_cells asked zeroed _ _ _ _ _ _)
      · rw [if_neg offset, if_neg offset]
        rfl

theorem vmm_finish_with (s : VmmSys) (store : Store VmmVal) (thread result : Nat) :
    vmmFinish (s.withVmm (ofCells store s.state.vmm.carved)) thread result =
      (vmmFinish s thread result).withVmm
        (ofCells store (vmmFinish s thread result).state.vmm.carved) := by
  have same : (s.withVmm (ofCells store s.state.vmm.carved)).pc thread = s.pc thread := rfl
  unfold vmmFinish
  rw [same]
  generalize s.pc thread = pc
  -- the points differ in where the thread goes on, never in what they do with the cells
  cases pc
  all_goals first
    | rfl
    | (dsimp only; split <;> rfl)

theorem map_extent_carved (state : State) : (mapExtent state).2.vmm.carved = state.vmm.carved := by
  cases Mappings.map_extent_cases state with
  | inl failed => rw [failed]
  | inr granted =>
      obtain ⟨start, mapped, done, maps⟩ := granted
      rw [done, maps.rest]

theorem vmm_call_pc {act : VmmAct} (called : vmmCall s act = some after) {other : Nat}
    (different : other ≠ callerOf act) : after.pc other = s.pc other := by
  have moved : ∀ pc, (s.moveTo (callerOf act) pc).pc other = s.pc other :=
    fun pc => Function.update_of_ne different _ _
  cases act with
  | acquire thread lease =>
      simp only [vmmCall, vmmStep] at called
      split at called
      · cases called
        exact moved _
      · cases called
  | release thread chunk =>
      simp only [vmmCall, vmmStep] at called
      split at called
      · cases called
        exact moved _
      · cases called
  | purge thread =>
      simp only [vmmCall, vmmStep] at called
      split at called
      · cases called
        exact moved _
      · cases called
  | step thread =>
      simp only [vmmCall] at called
      split at called
      · next lease node at_ =>
        simp only [advance, at_] at called
        split at called
        · cases called
          exact moved _
        · cases called
          exact moved _
      · cases called

theorem vmm_call_with {act : VmmAct} (called : vmmCall s act = some after)
    (store : Store VmmVal) :
    vmmCall (s.withVmm (ofCells store s.state.vmm.carved)) act =
      some (after.withVmm
        (ofCells (fun cell => vmmChange s act cell (store cell)) after.state.vmm.carved)) := by
  cases act with
  | acquire thread lease =>
      simp only [vmmCall, vmmStep] at called ⊢
      have same : (s.withVmm (ofCells store s.state.vmm.carved)).pc thread = s.pc thread := rfl
      rw [same]
      split at called
      · cases called
        rfl
      · cases called
  | release thread chunk =>
      simp only [vmmCall, vmmStep] at called ⊢
      have same : (s.withVmm (ofCells store s.state.vmm.carved)).pc thread = s.pc thread := rfl
      have holds : (s.withVmm (ofCells store s.state.vmm.carved)).held chunk = s.held chunk := rfl
      rw [same, holds]
      split at called
      · cases called
        rfl
      · cases called
  | purge thread =>
      simp only [vmmCall, vmmStep] at called ⊢
      have same : (s.withVmm (ofCells store s.state.vmm.carved)).pc thread = s.pc thread := rfl
      rw [same]
      split at called
      · cases called
        rfl
      · cases called
  | step thread =>
      simp only [vmmCall] at called ⊢
      have same : (s.withVmm (ofCells store s.state.vmm.carved)).pc thread = s.pc thread := rfl
      rw [same]
      split at called
      · next lease node at_ =>
        have mapped := map_extent_cells s.state store
        have carved := map_extent_carved s.state
        have state : (s.withVmm (ofCells store s.state.vmm.carved)).state =
          { s.state with vmm := ofCells store s.state.vmm.carved } := rfl
        rw [← carved] at mapped
        simp only [advance, same, at_] at called ⊢
        rw [state, ← carved, mapped]
        simp only [vmmChange]
        generalize mmapCells s.state (lzExtentSize + lzHugePageSize) = zeroed
        generalize mapExtent s.state = result at called
        obtain ⟨found, asked⟩ := result
        cases found with
        | none =>
            cases called
            rfl
        | some alignedAddr =>
            cases called
            rfl
      · cases called

theorem vmm_lawful : Lawful vmmProgram where
  memory_with := fun s store => cells_of_cells store _
  with_memory := fun _ => rfl
  with_with := fun _ _ _ => rfl
  block_with := fun _ _ _ => rfl
  finish_with := vmm_finish_with
  finish_block := by
    intro s thread other result different
    change vmmBlock _ _ = vmmBlock _ _
    unfold vmmBlock
    have same : (vmmProgram.finish s thread result).pc other = s.pc other :=
      vmm_finish_pc s thread result different
    rw [same]
  call_block := by
    intro s act after other called different
    change vmmBlock _ _ = vmmBlock _ _
    unfold vmmBlock
    rw [vmm_call_pc called different]
  call_with := fun s act after store called => vmm_call_with called store
  change_with := by
    intro s act store
    cases act <;> rfl

/-! ## A block is a section -/

section Blocks

variable (vmm : Vmm)

theorem cells_pool_head (index head : Nat) :
    Function.update (cells vmm) (.poolHead index) head =
      cells { vmm with
        pools := Function.update vmm.pools index ⟨head, (vmm.pools index).availableCount⟩ } := by
  funext cell
  cases cell with
  | poolHead other =>
      by_cases same : other = index
      · subst same
        simp [cells]
      · simp [cells, Function.update_of_ne, same]
  | poolCount other =>
      by_cases same : other = index
      · subst same
        simp [cells]
      · simp [cells, Function.update_of_ne, same]
  | globalHead => simp [cells]
  | next chunk => simp [cells]
  | header chunk => simp [cells]

theorem cells_pool_count (index count : Nat) :
    Function.update (cells vmm) (.poolCount index) count =
      cells { vmm with
        pools := Function.update vmm.pools index ⟨(vmm.pools index).freeChunks, count⟩ } := by
  funext cell
  cases cell with
  | poolHead other =>
      by_cases same : other = index
      · subst same
        simp [cells]
      · simp [cells, Function.update_of_ne, same]
  | poolCount other =>
      by_cases same : other = index
      · subst same
        simp [cells]
      · simp [cells, Function.update_of_ne, same]
  | globalHead => simp [cells]
  | next chunk => simp [cells]
  | header chunk => simp [cells]

theorem cells_global (head : Nat) :
    Function.update (cells vmm) .globalHead head = cells { vmm with globalFreeChunks := head } := by
  funext cell
  cases cell <;> simp [cells]

theorem cells_next (chunk link : Nat) :
    Function.update (cells vmm) (.next chunk) link =
      cells { vmm with next := Function.update vmm.next chunk link } := by
  funext cell
  cases cell with
  | next other =>
      by_cases same : other = chunk
      · subst same
        simp [cells]
      · simp [cells, Function.update_of_ne, same]
  | poolHead index => simp [cells]
  | poolCount index => simp [cells]
  | globalHead => simp [cells]
  | header other => simp [cells]

theorem cells_header (chunk : Nat) (header : ChunkHeader) :
    Function.update (cells vmm) (.header chunk) header =
      cells { vmm with header := Function.update vmm.header chunk header } := by
  funext cell
  cases cell with
  | header other =>
      by_cases same : other = chunk
      · subst same
        simp [cells]
      · simp [cells, Function.update_of_ne, same]
  | poolHead index => simp [cells]
  | poolCount index => simp [cells]
  | globalHead => simp [cells]
  | next other => simp [cells]

theorem cells_at_head (index : Nat) : cells vmm (.poolHead index) = (vmm.pools index).freeChunks :=
  rfl

theorem cells_at_count (index : Nat) :
    cells vmm (.poolCount index) = (vmm.pools index).availableCount := rfl

theorem cells_at_next (chunk : Nat) : cells vmm (.next chunk) = vmm.next chunk := rfl

theorem exec_pool_pop (node : Nat) :
    exec (poolPopOps (lzTopologyGetPool node)) (cells vmm) =
      ((poolPop vmm node).1, cells (poolPop vmm node).2) := by
  unfold poolPopOps poolPop
  generalize lzTopologyGetPool node = index
  by_cases empty : (vmm.pools index).freeChunks = 0
  · have here : cells vmm (.poolHead index) = (0 : Nat) := empty
    simp only [exec, here, if_pos empty, if_true]
  · have here : ¬cells vmm (.poolHead index) = (0 : Nat) := empty
    simp only [exec, if_neg here, if_neg empty]
    rw [cells_pool_head, cells_pool_count]
    simp only [cells_at_head, cells_at_count, cells_at_next, Function.update_self,
      Function.update_idem]

theorem exec_global_take :
    exec globalTakeOps (cells vmm) = ((globalPop vmm).1, cells (globalPop vmm).2) := by
  unfold globalTakeOps globalPop
  by_cases empty : vmm.globalFreeChunks = 0
  · have here : cells vmm .globalHead = (0 : Nat) := empty
    simp only [exec, here, if_pos empty, if_true]
  · have here : ¬cells vmm .globalHead = (0 : Nat) := empty
    simp only [exec, if_neg here, if_neg empty]
    rw [cells_global]
    rfl

theorem exec_global_alloc :
    exec globalAllocOps (cells vmm) = ((globalPop vmm).1, cells (globalPop vmm).2) := by
  rw [← exec_global_take]
  unfold globalAllocOps
  by_cases empty : cells vmm .globalHead = (0 : Nat)
  · simp only [exec, globalTakeOps, empty, if_true]
  · simp only [exec, if_neg empty]

theorem exec_global_push (result : Nat) (chunks : List Nat) :
    exec (globalPushOps result chunks)
    (cells vmm) = (result, cells (chunks.foldl globalPush vmm)) := by
  induction chunks generalizing vmm with
  | nil => rfl
  | cons chunk chunks ih =>
      simp only [globalPushOps, exec]
      rw [cells_next, cells_global, ih]
      rfl

theorem exec_pool_push (chunk : Nat) :
    exec (poolPushOps (lzTopologyGetPool (vmm.header chunk).nodeId) chunk) (cells vmm) =
      (if (poolPush vmm chunk).1 then 1 else 0, cells (poolPush vmm chunk).2) := by
  unfold poolPushOps poolPush
  generalize lzTopologyGetPool (vmm.header chunk).nodeId = index
  by_cases room : (vmm.pools index).availableCount < lzVmmMaxCachedChunks
  · have here : (cells vmm (.poolCount index) : Nat) < lzVmmMaxCachedChunks := room
    simp only [exec, if_pos here, if_pos room]
    rw [cells_next, cells_pool_head, cells_pool_count]
    simp only [cells_at_head, cells_at_count, Function.update_self, Function.update_idem,
      Bool.false_eq_true, if_false]
  · have here : ¬(cells vmm (.poolCount index) : Nat) < lzVmmMaxCachedChunks := room
    simp only [exec, if_neg here, if_neg room, if_true]

theorem exec_pool_drain (index : Nat) :
    exec (poolDrainOps index) (cells vmm) =
      ((poolDrain vmm index).1, cells (poolDrain vmm index).2) := by
  simp only [poolDrainOps, poolDrain, exec]
  rw [cells_pool_head, cells_pool_count]
  simp only [cells_at_head, Function.update_self, Function.update_idem]

theorem run_neutralize (chunk node : Nat) :
    runBlock (neutralizeOps chunk node) (cells vmm) = (0, cells (neutralize vmm chunk node)) := by
  simp only [runBlock, neutralizeOps, setHeader, exec]
  rw [cells_next]
  simp only [cells_header, cells, Function.update_self, Function.update_idem]
  rfl

theorem run_claim (chunk tlh : Nat) (chunkType : ChunkType) :
    runBlock (claimOps chunk tlh chunkType) (cells vmm) =
      (0, cells (claimHeader vmm chunk tlh chunkType)) := by
  simp only [runBlock, claimOps, setHeader, exec]
  simp only [cells_header, cells, Function.update_self, Function.update_idem]
  rfl

end Blocks

theorem block_ends {block : VmmBlock} {result : Nat} {vmm : Vmm}
    (known : vmmBlock s thread = some block)
    (ran : runBlock block (cells s.state.vmm) = (result, cells vmm))
    (carved : vmm.carved = s.state.vmm.carved) :
    blockStep vmmProgram s (.step thread) = some (vmmFinish (s.withVmm vmm) thread result) := by
  have memory : vmmProgram.withMemory s (cells vmm) = s.withVmm vmm := by
    change s.withVmm (ofCells (cells vmm) s.state.vmm.carved) = s.withVmm vmm
    rw [← carved, of_cells_cells]
  have blockIs : vmmProgram.block s thread = some block := known
  have ranThere : runBlock block (vmmProgram.memory s) = (result, cells vmm) := ran
  simp only [blockStep, blockIs, Option.map_some, ranThere, memory]
  rfl

theorem with_vmm_pc (vmm : Vmm) : (s.withVmm vmm).pc = s.pc := rfl

theorem global_push_carved (chunks : List Nat) (vmm : Vmm) :
    (chunks.foldl globalPush vmm).carved = vmm.carved := by
  induction chunks generalizing vmm with
  | nil => rfl
  | cons chunk chunks ih => exact ih (globalPush vmm chunk)

theorem block_finishes {result : Nat} (known : vmmBlock s thread = some (.done (.finish result))) :
    blockStep vmmProgram s (.step thread) = some (vmmFinish s thread result) := by
  have ran : runBlock (.done (.finish result) : VmmBlock) (cells s.state.vmm) =
      (result, cells s.state.vmm) := rfl
  exact block_ends known ran rfl

theorem block_decides {decide : ChunkHeader → Nat}
    (known : vmmBlock s thread = some (.read (.header chunk) fun (header : ChunkHeader) =>
      .done (.finish (decide header)))) :
    blockStep vmmProgram s (.step thread) =
      some (vmmFinish s thread (decide (s.state.vmm.header chunk))) := by
  have ran : runBlock (.read (.header chunk) fun (header : ChunkHeader) =>
      .done (.finish (decide header)) : VmmBlock) (cells s.state.vmm) =
        (decide (s.state.vmm.header chunk), cells s.state.vmm) := rfl
  exact block_ends known ran rfl

theorem pool_pop_missed {vmm : Vmm} {node : Nat} (missed : ¬(poolPop vmm node).1 ≠ 0) :
    (poolPop vmm node).2 = vmm := by
  unfold poolPop at missed ⊢
  simp only at missed ⊢
  split at missed
  · next empty => rw [if_pos empty]
  · next found => exact absurd found missed

theorem global_pop_missed {vmm : Vmm} (missed : ¬(globalPop vmm).1 ≠ 0) :
    (globalPop vmm).2 = vmm := by
  unfold globalPop at missed ⊢
  split at missed
  · next empty => rw [if_pos empty]
  · next found => exact absurd found missed

/-- Each block is the section that the races take in one step. -/
theorem block_step_advance {block : VmmBlock} (known : vmmBlock s thread = some block) :
    blockStep vmmProgram s (.step thread) = advance s thread := by
  have there := known
  simp only [vmmBlock] at there
  cases at_ : s.pc thread with
  | idle => simp only [at_, reduceCtorEq] at there
  | mapping lease node => simp only [at_, reduceCtorEq] at there
  | poolAlloc lease node =>
      simp only [at_, Option.some.injEq] at there
      subst there
      rw [block_ends known (exec_pool_pop s.state.vmm node) (pool_pop_carved _ _)]
      simp only [vmmFinish, with_vmm_pc, advance, at_]
      split
      · rfl
      · next missed =>
        rw [pool_pop_missed missed]
        rfl
  | poolHit lease chunk =>
      simp only [at_, Option.some.injEq] at there
      subst there
      have ran : runBlock (.write (.next chunk) 0 <| .done (.finish 0) : VmmBlock)
          (cells s.state.vmm) = (0, cells (clearNext s.state.vmm chunk)) := by
        simp only [runBlock, exec, cells_next, clearNext]
      rw [block_ends known ran rfl]
      simp only [vmmFinish, with_vmm_pc, advance, at_]
  | globalAlloc lease node =>
      simp only [at_, Option.some.injEq] at there
      subst there
      rw [block_ends known (exec_global_alloc s.state.vmm) (global_pop_carved _)]
      simp only [vmmFinish, with_vmm_pc, advance, at_]
      split
      · rfl
      · next missed =>
        rw [global_pop_missed missed]
        rfl
  | carving lease node alignedAddr =>
      simp only [at_, Option.some.injEq] at there
      subst there
      have carved := global_push_carved (extentChunks alignedAddr) s.state.vmm
      rw [block_ends known (exec_global_push s.state.vmm 0 (extentChunks alignedAddr)) carved]
      simp only [vmmFinish, with_vmm_pc, advance, at_, carve_extent_eq, ← carved]
      generalize (extentChunks alignedAddr).foldl globalPush s.state.vmm = pushed
      rfl
  | globalRetry lease node granted =>
      simp only [at_, Option.some.injEq] at there
      subst there
      rw [block_ends known (exec_global_take s.state.vmm) (global_pop_carved _)]
      simp only [vmmFinish, with_vmm_pc, advance, at_]
      split
      · rfl
      · next missed =>
        rw [global_pop_missed missed]
        rfl
  | globalHit lease chunk node =>
      simp only [at_, Option.some.injEq] at there
      subst there
      rw [block_ends known (run_neutralize s.state.vmm chunk node) rfl]
      simp only [vmmFinish, with_vmm_pc, advance, at_]
  | formatting lease chunk =>
      simp only [at_, Option.some.injEq] at there
      subst there
      rw [block_ends known (run_claim s.state.vmm chunk lease.tlh lease.engine.chunkType) rfl]
      simp only [vmmFinish, with_vmm_pc, advance, at_]
      rfl
  | destroying lease chunk =>
      by_cases slab : lease.engine = .slab
      · simp only [at_, if_pos slab, Option.some.injEq] at there
        subst there
        rw [block_decides known]
        simp only [vmmFinish, advance, at_, slab, true_and, checksumOk]
        by_cases sound : (s.state.vmm.header chunk).checksum =
            lzCalcChecksum (s.state.vmm.header chunk)
        · simp only [sound, not_true_eq_false, if_true, if_false, Nat.one_ne_zero]
        · simp only [sound, not_false_eq_true, if_true, if_false]
      · simp only [at_, if_neg slab, Option.some.injEq] at there
        subst there
        rw [block_finishes known]
        simp only [vmmFinish, advance, at_, slab, false_and, if_false, Nat.one_ne_zero]
  | freeing chunk =>
      by_cases null : chunk = 0
      · simp only [at_, if_pos null, Option.some.injEq] at there
        subst there
        rw [block_finishes known]
        simp only [vmmFinish, advance, at_, null, true_or, if_true]
      · simp only [at_, if_neg null, Option.some.injEq] at there
        subst there
        rw [block_decides known]
        simp only [vmmFinish, advance, at_, null, false_or, magicOk]
        by_cases sound : (s.state.vmm.header chunk).magic = lzChunkMagicV2
        · simp only [sound, not_true_eq_false, if_true, if_false, Nat.one_ne_zero]
        · simp only [sound, not_false_eq_true, if_true, if_false]
  | poolFree chunk =>
      simp only [at_, Option.some.injEq] at there
      subst there
      rw [block_ends known (exec_pool_push s.state.vmm chunk) (pool_push_carved _ _)]
      simp only [vmmFinish, with_vmm_pc, advance, at_]
      cases (poolPush s.state.vmm chunk).1 with
      | true => rfl
      | false => rfl
  | globalFree chunk =>
      simp only [at_, Option.some.injEq] at there
      subst there
      rw [block_ends known (exec_global_push s.state.vmm 0 [chunk]) (global_push_carved _ _)]
      simp only [vmmFinish, with_vmm_pc, advance, at_]
      rfl
  | purging index =>
      by_cases more : index < lzMaxNumaNodes
      · simp only [at_, if_pos more, Option.some.injEq] at there
        subst there
        rw [block_ends known (exec_pool_drain s.state.vmm index) rfl]
        simp only [vmmFinish, with_vmm_pc, advance, at_, if_pos more]
      · simp only [at_, if_neg more, Option.some.injEq] at there
        subst there
        rw [block_finishes known]
        simp only [vmmFinish, advance, at_, if_neg more]
  | flushing index chunk =>
      by_cases last : chunk = 0
      · simp only [at_, if_pos last, Option.some.injEq] at there
        subst there
        rw [block_finishes known]
        simp only [vmmFinish, advance, at_, if_pos last]
      · simp only [at_, if_neg last, Option.some.injEq] at there
        subst there
        rw [block_ends known (exec_global_push s.state.vmm (s.state.vmm.next chunk) [chunk])
          (global_push_carved _ _)]
        simp only [vmmFinish, with_vmm_pc, advance, at_, if_neg last]
        rfl

def actOf : Label Nat VmmAct → VmmAct
  | .call act => act
  | .step thread => .step thread

theorem block_step_vmm {label : Label Nat VmmAct}
    (stepped : blockStep vmmProgram s label = some after) :
    vmmStep s (actOf label) = some after := by
  cases label with
  | call act =>
      cases act with
      | step thread =>
          have called : vmmCall s (.step thread) = some after := stepped
          simp only [vmmCall] at called
          split at called
          · exact called
          · cases called
      | acquire thread lease => exact stepped
      | release thread chunk => exact stepped
      | purge thread => exact stepped
  | step thread =>
      have there := stepped
      simp only [blockStep] at there
      obtain ⟨block, known, _⟩ := Option.map_eq_some_iff.mp there
      rw [block_step_advance known] at stepped
      exact stepped

theorem block_run_vmm {labels : List (Label Nat VmmAct)}
    (ran : run (blockStep vmmProgram) s labels = some after) :
    run vmmStep s (labels.map actOf) = some after := by
  induction labels generalizing s with
  | nil => exact ran
  | cons label labels ih =>
      obtain ⟨next, stepped, later⟩ := Option.bind_eq_some_iff.mp ran
      rw [List.map_cons, run_cons, block_step_vmm stepped]
      exact ih later

/-! ## No races -/

/-- The cells that a thread reaches outside its lock, or under it. A link or a
header is that of a chunk in the thread's hands, of a chunk on the list that the
lock protects, or of a chunk that the thread is carving. -/
inductive Access (s : VmmSys) (place : Nat → Option VmmPlace) (thread : Nat) :
    Option VmmLock → VmmCell → Prop
  | poolHead (index : Nat) : Access s place thread (some (.pool index)) (.poolHead index)
  | poolCount (index : Nat) : Access s place thread (some (.pool index)) (.poolCount index)
  | globalHead : Access s place thread (some .global) .globalHead
  | carriedNext {chunk : Nat} (lock : Option VmmLock)
      (carried : place chunk = some (.transit thread)) :
      Access s place thread lock (.next chunk)
  | carriedHeader {chunk : Nat} (lock : Option VmmLock)
      (carried : place chunk = some (.transit thread)) : Access s place thread lock (.header chunk)
  | pooled {chunk index : Nat} (listed : place chunk = some (.listed (.pool index))) :
      Access s place thread (some (.pool index)) (.next chunk)
  | global {chunk : Nat} (listed : place chunk = some (.listed .global)) :
      Access s place thread (some .global) (.next chunk)
  | extent {chunk alignedAddr : Nat} (mapped : (s.pc thread).extent = some alignedAddr)
      (member : chunk ∈ extentChunks alignedAddr) :
      Access s place thread (some .global) (.next chunk)

theorem access_apart (inv : RaceInv s place) {other : Nat} (different : thread ≠ other)
    {first second : Option VmmLock} {cell : VmmCell} (left : Access s place thread first cell)
    (right : Access s place other second cell) :
    ∃ lock, first = some lock ∧ second = some lock := by
  have rivals : ∀ chunk, place chunk = some (.transit thread) →
      place chunk ≠ some (.transit other) := by
    intro chunk mine theirs
    rw [mine] at theirs
    cases theirs
    exact different rfl
  have fresh : ∀ each chunk alignedAddr, (s.pc each).extent = some alignedAddr →
      chunk ∈ extentChunks alignedAddr → place chunk = none :=
    fun each chunk alignedAddr mapped member =>
    (inv.extents each alignedAddr mapped).fresh chunk member
  cases left with
  | poolHead index =>
      cases right with
      | poolHead => exact ⟨_, rfl, rfl⟩
  | poolCount index =>
      cases right with
      | poolCount => exact ⟨_, rfl, rfl⟩
  | globalHead =>
      cases right with
      | globalHead => exact ⟨_, rfl, rfl⟩
  | carriedHeader lock mine =>
      cases right with
      | carriedHeader lock theirs => exact absurd theirs (rivals _ mine)
  | carriedNext lock mine =>
      cases right with
      | carriedNext lock theirs => exact absurd theirs (rivals _ mine)
      | pooled listed => simp [mine] at listed
      | global listed => simp [mine] at listed
      | extent mapped member => simp [fresh _ _ _ mapped member] at mine
  | pooled listed =>
      cases right with
      | carriedNext lock theirs => simp [listed] at theirs
      | pooled again =>
          rw [listed] at again
          cases again
          exact ⟨_, rfl, rfl⟩
      | global again => simp [listed] at again
      | extent mapped member => simp [fresh _ _ _ mapped member] at listed
  | global listed =>
      cases right with
      | carriedNext lock theirs => simp [listed] at theirs
      | pooled again => simp [listed] at again
      | global again => exact ⟨_, rfl, rfl⟩
      | extent mapped member => exact ⟨_, rfl, rfl⟩
  | extent mapped member =>
      cases right with
      | carriedNext lock theirs => simp [fresh _ _ _ mapped member] at theirs
      | pooled again => simp [fresh _ _ _ mapped member] at again
      | global again => exact ⟨_, rfl, rfl⟩
      | extent again there => exact ⟨_, rfl, rfl⟩

section Touched

variable {vmm : Vmm} {cell : VmmCell}

theorem touched_pool_pop (touched : Touched (poolPopOps index) (cells vmm) cell) :
    cell = .poolHead index ∨ cell = .poolCount index ∨
      (vmm.pools index).freeChunks ≠ 0 ∧ cell = .next (vmm.pools index).freeChunks := by
  cases touched with
  | inl head => exact Or.inl head
  | inr later =>
      dsimp only at later
      by_cases empty : cells vmm (.poolHead index) = (0 : Nat)
      · rw [if_pos empty] at later
        cases later
      · rw [if_neg empty] at later
        rcases later with next | head | count | count | done
        · exact Or.inr (Or.inr ⟨empty, next⟩)
        · exact Or.inl head
        · exact Or.inr (Or.inl count)
        · exact Or.inr (Or.inl count)
        · cases done

theorem touched_global_take (touched : Touched globalTakeOps (cells vmm) cell) :
    cell = .globalHead ∨ vmm.globalFreeChunks ≠ 0 ∧ cell = .next vmm.globalFreeChunks := by
  cases touched with
  | inl head => exact Or.inl head
  | inr later =>
      dsimp only at later
      by_cases empty : cells vmm .globalHead = (0 : Nat)
      · rw [if_pos empty] at later
        cases later
      · rw [if_neg empty] at later
        rcases later with next | head | done
        · exact Or.inr ⟨empty, next⟩
        · exact Or.inl head
        · cases done

theorem touched_global_alloc (touched : Touched globalAllocOps (cells vmm) cell) :
    cell = .globalHead ∨ vmm.globalFreeChunks ≠ 0 ∧ cell = .next vmm.globalFreeChunks := by
  cases touched with
  | inl head => exact Or.inl head
  | inr later =>
      dsimp only at later
      by_cases empty : cells vmm .globalHead = (0 : Nat)
      · rw [if_pos empty] at later
        cases later
      · rw [if_neg empty] at later
        exact touched_global_take later

theorem touched_global_push {result : Nat} {chunks : List Nat} {store : Store VmmVal}
    (touched : Touched (globalPushOps result chunks) store cell) :
    cell = .globalHead ∨ ∃ chunk ∈ chunks, cell = .next chunk := by
  induction chunks generalizing store with
  | nil => cases touched
  | cons chunk chunks ih =>
      rcases touched with head | next | head | later
      · exact Or.inl head
      · exact Or.inr ⟨chunk, List.mem_cons_self, next⟩
      · exact Or.inl head
      · refine (ih later).imp_right ?_
        rintro ⟨other, member, same⟩
        exact ⟨other, List.mem_cons_of_mem chunk member, same⟩

theorem touched_pool_push (touched : Touched (poolPushOps index chunk) (cells vmm) cell) :
    cell = .poolHead index ∨ cell = .poolCount index ∨ cell = .next chunk := by
  cases touched with
  | inl count => exact Or.inr (Or.inl count)
  | inr later =>
      dsimp only at later
      by_cases room : (cells vmm (.poolCount index) : Nat) < lzVmmMaxCachedChunks
      · rw [if_pos room] at later
        rcases later with head | next | head | count | count | done
        · exact Or.inl head
        · exact Or.inr (Or.inr next)
        · exact Or.inl head
        · exact Or.inr (Or.inl count)
        · exact Or.inr (Or.inl count)
        · cases done
      · rw [if_neg room] at later
        cases later

theorem touched_pool_drain (touched : Touched (poolDrainOps index) (cells vmm) cell) :
    cell = .poolHead index ∨ cell = .poolCount index := by
  rcases touched with head | head | count | done
  · exact Or.inl head
  · exact Or.inl head
  · exact Or.inr count
  · cases done

theorem touched_set_header {change : ChunkHeader → ChunkHeader} {rest : VmmBlock}
    {store : Store VmmVal} (only : ∀ later, Touched rest later cell → cell = .header chunk)
    (touched : Touched (setHeader chunk change rest) store cell) : cell = .header chunk := by
  rcases touched with header | header | later
  · exact header
  · exact header
  · exact only _ later

theorem touched_neutralize {node : Nat}
    (touched : Touched (neutralizeOps chunk node) (cells vmm) cell) :
    cell = .next chunk ∨ cell = .header chunk := by
  cases touched with
  | inl next => exact Or.inl next
  | inr later =>
      right
      refine touched_set_header (fun _ => ?_) later
      refine touched_set_header fun _ => ?_
      refine touched_set_header fun _ => ?_
      refine touched_set_header fun _ => ?_
      refine touched_set_header fun _ => ?_
      exact False.elim

theorem touched_claim {tlh : Nat} {chunkType : ChunkType}
    (touched : Touched (claimOps chunk tlh chunkType) (cells vmm) cell) : cell = .header chunk := by
  refine touched_set_header (fun _ => ?_) touched
  refine touched_set_header fun _ => ?_
  refine touched_set_header fun _ => ?_
  exact False.elim

theorem touched_locked_done {store : Store VmmVal} {lock other : VmmLock} {body : VmmOps}
    (touched : TouchedLocked (.done (.locked other body)) store lock cell) :
    lock = other ∧ Touched body store cell := by
  obtain ⟨_, _, same, there⟩ := touched
  cases same
  exact ⟨rfl, there⟩

end Touched

theorem topology_pool {node : Nat} (bound : node < 16) : lzTopologyGetPool node = node := by
  rw [lzTopologyGetPool, if_neg]
  simp only [lzMaxNumaNodes]
  omega

structure Accesses (s : VmmSys) (place : Nat → Option VmmPlace) (thread : Nat) (block : VmmBlock)
    (cell : VmmCell) : Prop where
  outside : Touched block (cells s.state.vmm) cell → Access s place thread none cell
  inside : ∀ lock, TouchedLocked block (cells s.state.vmm) lock cell →
    Access s place thread (some lock) cell

section Accesses

variable {cell : VmmCell}

theorem accesses_unlocked {block : VmmBlock} {result : Nat}
    (ends : (exec block (cells s.state.vmm)).1 = .finish result)
    (outside : Touched block (cells s.state.vmm) cell → Access s place thread none cell) :
    Accesses s place thread block cell := by
  constructor
  · exact outside
  · rintro lock ⟨body, later, locked, _⟩
    rw [locked] at ends
    cases ends

theorem accesses_finish (result : Nat) : Accesses s place thread (.done (.finish result)) cell :=
  accesses_unlocked rfl False.elim

theorem accesses_locked {lock : VmmLock} {body : VmmOps}
    (inside : Touched body (cells s.state.vmm) cell → Access s place thread (some lock) cell) :
    Accesses s place thread (.done (.locked lock body)) cell := by
  constructor
  · exact False.elim
  · intro other touched
    obtain ⟨rfl, there⟩ := touched_locked_done touched
    exact inside there

theorem accesses_guard (carried : place chunk = some (.transit thread))
    (decide : ChunkHeader → Nat) :
    Accesses s place thread (.read (.header chunk) fun (header : ChunkHeader) =>
      .done (.finish (decide header))) cell := by
  apply accesses_unlocked rfl
  rintro (rfl | done)
  · exact .carriedHeader none carried
  · cases done

theorem access_global (inv : RaceInv s place)
    (touched : cell = .globalHead ∨
      s.state.vmm.globalFreeChunks ≠ 0 ∧ cell = .next s.state.vmm.globalFreeChunks) :
    Access s place thread (some .global) cell := by
  rcases touched with rfl | ⟨nonnull, rfl⟩
  · exact .globalHead
  · obtain ⟨count, chain⟩ := inv.caches.global
    have head := enumerates_head chain nonnull
    exact .global (cached_of_listed head)

theorem access_global_push {store : Store VmmVal} {result : Nat}
    (carried : place chunk = some (.transit thread))
    (touched : Touched (globalPushOps result [chunk]) store cell) :
    Access s place thread (some .global) cell := by
  rcases touched_global_push touched with rfl | ⟨each, member, rfl⟩
  · exact .globalHead
  · rw [List.mem_singleton.mp member]
    exact .carriedNext _ carried

/-- The blocks of a thread, one for each of its points. -/
theorem block_access (inv : RaceInv s place) {block : VmmBlock}
    (known : vmmBlock s thread = some block) (cell : VmmCell) :
    Accesses s place thread block cell := by
  have point := inv.points thread
  simp only [vmmBlock] at known
  cases at_ : s.pc thread with
  | idle => simp only [at_, reduceCtorEq] at known
  | mapping lease node => simp only [at_, reduceCtorEq] at known
  | poolAlloc lease node =>
      rw [at_] at point
      simp only [at_, Option.some.injEq] at known
      subst known
      apply accesses_locked
      intro touched
      rw [topology_pool point.2] at touched
      rcases touched_pool_pop touched with rfl | rfl | ⟨nonnull, rfl⟩
      · exact .poolHead node
      · exact .poolCount node
      · have head := enumerates_head (inv.caches.pool node point.2) nonnull
        exact .pooled (cached_of_listed head)
  | poolHit lease chunk =>
      rw [at_] at point
      simp only [at_, Option.some.injEq] at known
      subst known
      apply accesses_unlocked rfl
      rintro (rfl | done)
      · exact .carriedNext none (carries_place point.1)
      · cases done
  | globalAlloc lease node =>
      simp only [at_, Option.some.injEq] at known
      subst known
      apply accesses_locked
      exact fun touched => access_global inv (touched_global_alloc touched)
  | carving lease node alignedAddr =>
      simp only [at_, Option.some.injEq] at known
      subst known
      apply accesses_locked
      intro touched
      rcases touched_global_push touched with rfl | ⟨chunk, member, rfl⟩
      · exact .globalHead
      · exact .extent (by rw [at_]; rfl) member
  | globalRetry lease node granted =>
      simp only [at_, Option.some.injEq] at known
      subst known
      apply accesses_locked
      exact fun touched => access_global inv (touched_global_take touched)
  | globalHit lease chunk node =>
      rw [at_] at point
      simp only [at_, Option.some.injEq] at known
      subst known
      apply accesses_unlocked rfl
      intro touched
      rcases touched_neutralize touched with rfl | rfl
      · exact .carriedNext none (carries_place point.1)
      · exact .carriedHeader none (carries_place point.1)
  | formatting lease chunk =>
      rw [at_] at point
      simp only [at_, Option.some.injEq] at known
      subst known
      apply accesses_unlocked rfl
      intro touched
      rw [touched_claim touched]
      exact .carriedHeader none (carries_place point.1)
  | destroying lease chunk =>
      rw [at_] at point
      simp only [at_] at known
      split at known
      · obtain rfl := Option.some.inj known
        exact accesses_guard (carries_place point.1) _
      · obtain rfl := Option.some.inj known
        exact accesses_finish 1
  | freeing chunk =>
      rw [at_] at point
      simp only [at_] at known
      split at known
      · obtain rfl := Option.some.inj known
        exact accesses_finish 0
      · obtain rfl := Option.some.inj known
        exact accesses_guard (carries_place point.1) _
  | poolFree chunk =>
      rw [at_] at point
      simp only [at_, Option.some.injEq] at known
      subst known
      constructor
      · rintro (rfl | done)
        · exact .carriedHeader none (carries_place point.1)
        · cases done
      · rintro lock ⟨_, _, same, touched⟩
        cases same
        have node : (cells s.state.vmm (.header chunk) : ChunkHeader).nodeId < 16 := point.2.2
        rw [topology_pool node] at touched
        rcases touched_pool_push touched with rfl | rfl | rfl
        · exact .poolHead _
        · exact .poolCount _
        · exact .carriedNext _ (carries_place point.1)
  | globalFree chunk =>
      rw [at_] at point
      simp only [at_, Option.some.injEq] at known
      subst known
      exact accesses_locked (access_global_push (carries_place point))
  | purging index =>
      simp only [at_] at known
      split at known
      · obtain rfl := Option.some.inj known
        apply accesses_locked
        intro touched
        rcases touched_pool_drain touched with rfl | rfl
        · exact .poolHead index
        · exact .poolCount index
      · obtain rfl := Option.some.inj known
        exact accesses_finish 0
  | flushing index chunk =>
      rw [at_] at point
      simp only [at_] at known
      split at known
      · obtain rfl := Option.some.inj known
        exact accesses_finish 0
      · next nonnull =>
        obtain rfl := Option.some.inj known
        obtain ⟨count, chain⟩ := point
        have carried := enumerates_head chain nonnull
        constructor
        · rintro (rfl | done)
          · exact .carriedNext none carried
          · cases done
        · rintro lock ⟨_, _, same, touched⟩
          cases same
          exact access_global_push carried touched

end Accesses

theorem access_mapped (inv : RaceInv s place) {lock : Option VmmLock} {cell : VmmCell}
    (access : Access s place thread lock cell) :
    (∀ chunk, cell = .next chunk → Mapped s.state.regions chunk) ∧
      ∀ chunk, cell = .header chunk → Mapped s.state.regions chunk := by
  have known : ∀ chunk there, place chunk = some there → Mapped s.state.regions chunk := by
    intro chunk there at_
    exact (inv.mapped chunk (by simp [at_])).2
  constructor
  · rintro chunk rfl
    cases access with
    | carriedNext lock carried => exact known _ _ carried
    | pooled listed => exact known _ _ listed
    | global listed => exact known _ _ listed
    | extent mapped member => exact (inv.extents _ _ mapped).mapped chunk member
  · rintro chunk rfl
    cases access with
    | carriedHeader lock carried => exact known _ _ carried

theorem mmap_spares {state : State} {length : Nat} {cell : VmmCell}
    (links : ∀ chunk, cell = .next chunk → Mapped state.regions chunk)
    (headers : ∀ chunk, cell = .header chunk → Mapped state.regions chunk) (value : VmmVal cell) :
    mmapCells state length cell value = value := by
  unfold mmapCells
  split
  · rfl
  · next raw answer =>
    split
    · next valid =>
      have outside : ∀ chunk, Mapped state.regions chunk →
          ¬(raw ≤ chunk ∧ chunk < raw + length) := by
        rintro chunk ⟨region, member, lower, upper⟩ inside
        have apart := valid.2.2.2.2 region member
        omega
      cases cell with
      | next chunk => exact if_neg (outside chunk (links chunk rfl))
      | header chunk => exact if_neg (outside chunk (headers chunk rfl))
      | poolHead index => rfl
      | poolCount index => rfl
      | globalHead => rfl
    · rfl

theorem vmm_race_free (inv : RaceInv s place) : RaceFree vmmProgram s where
  blocks := by
    intro thread other left right different leftIs rightIs
    have mine := block_access inv leftIs
    have theirs := block_access inv rightIs
    constructor
    · intro each touched
      have access := (mine each).outside touched
      constructor
      · intro again
        obtain ⟨_, same, _⟩ := access_apart inv different access ((theirs each).outside again)
        cases same
      · intro lock again
        obtain ⟨_, same, _⟩ := access_apart inv different access ((theirs each).inside lock again)
        cases same
    · intro each touched lock again
      obtain ⟨_, _, same⟩ := access_apart inv different ((mine each).inside lock again)
        ((theirs each).outside touched)
      cases same
    · intro each lock rival unequal touched again
      obtain ⟨_, first, second⟩ := access_apart inv different ((mine each).inside lock touched)
        ((theirs each).inside rival again)
      cases first
      cases second
      exact unequal rfl
  calls := by
    intro act next other block called different blockIs each touched value
    have access : ∃ lock, Access s place other lock each := by
      cases touched with
      | inl outside => exact ⟨_, (block_access inv blockIs each).outside outside⟩
      | inr locked =>
          obtain ⟨lock, inside⟩ := locked
          exact ⟨_, (block_access inv blockIs each).inside lock inside⟩
    obtain ⟨lock, reaches⟩ := access
    obtain ⟨links, headers⟩ := access_mapped inv reaches
    cases act with
    | step thread => exact mmap_spares links headers value
    | acquire thread lease => rfl
    | release thread chunk => rfl
    | purge thread => rfl

/-! ## Interleavings of loads and stores -/

abbrev VmmFine := Fine VmmSys Nat VmmVal Nat VmmLock

/-- Every load, store, test-and-set and release of any number of threads. -/
def lockStep : VmmFine → Label Nat VmmAct → Option VmmFine := fineStep vmmProgram

def lockStart (env : Env) (secret : BitVec 64) (telemetry : Bool) : VmmFine :=
  fineStart (vmmStart env secret telemetry)

/-- The state of the races that the loads and stores have come to: the same
calls at the same points and with the same results, the same lists wherever no
thread is inside the section, and the same state when no block is under way. -/
structure SectionsMatch (fine : VmmFine) (sys : VmmSys) : Prop where
  pc : fine.shared.pc = sys.pc
  held : fine.shared.held = sys.held
  dropped : fine.shared.dropped = sys.dropped
  nulls : fine.shared.nulls = sys.nulls
  carved : fine.shared.state.vmm.carved = sys.state.vmm.carved
  pools : ∀ node, fine.flag (.pool node) = false →
    fine.shared.state.vmm.pools node = sys.state.vmm.pools node
  global : fine.flag .global = false →
    fine.shared.state.vmm.globalFreeChunks = sys.state.vmm.globalFreeChunks
  quiet : (∀ thread, fine.running thread = none) → fine.shared = sys

variable {fine : VmmFine} {sys : VmmSys}

/-- A head or a counter belongs to a begun block only under its lock. -/
theorem protected_cell (inv : RaceInv sys place) (simulates : Simulates vmmProgram fine sys)
    {lock : VmmLock} {cell : VmmCell} (free : fine.flag lock = false)
    (only : ∀ thread other, Access sys place thread other cell → other = some lock) :
    cells fine.shared.state.vmm cell = cells sys.state.vmm cell := by
  apply simulates.others
  rintro thread ⟨going, block, running, blockIs, owned⟩
  have access := block_access inv blockIs cell
  cases going with
  | outside rest =>
      have reached := only thread none (access.outside owned)
      cases reached
  | inside other rest =>
      cases owned with
      | inl touched =>
          have reached := only thread none (access.outside touched)
          cases reached
      | inr locked =>
          have reached := only thread _ (access.inside other locked)
          cases reached
          have holds : fine.lockOf thread = some lock := by
            rw [Fine.lockOf, running]
            rfl
          have set := (simulates.locks.holder lock).mpr ⟨thread, holds⟩
          rw [free] at set
          cases set

theorem sections_match (inv : RaceInv sys place) (simulates : Simulates vmmProgram fine sys) :
    SectionsMatch fine sys := by
  have rest : sys = fine.shared.withVmm
      (ofCells (cells sys.state.vmm) fine.shared.state.vmm.carved) := simulates.rest
  refine ⟨?_, ?_, ?_, ?_, ?_, ?_, ?_, ?_⟩
  · rw [rest]
    rfl
  · rw [rest]
    rfl
  · rw [rest]
    rfl
  · rw [rest]
    rfl
  · rw [rest]
    rfl
  · intro node free
    have head : cells fine.shared.state.vmm (.poolHead node) =
        cells sys.state.vmm (.poolHead node) := by
      apply protected_cell inv simulates free
      intro thread other access
      cases access
      rfl
    have count : cells fine.shared.state.vmm (.poolCount node) =
        cells sys.state.vmm (.poolCount node) := by
      apply protected_cell inv simulates free
      intro thread other access
      cases access
      rfl
    rw [cells_at_head, cells_at_head] at head
    rw [cells_at_count, cells_at_count] at count
    cases mine : fine.shared.state.vmm.pools node
    cases theirs : sys.state.vmm.pools node
    rw [mine, theirs] at head count
    simp only at head count
    rw [head, count]
  · intro free
    have head : cells fine.shared.state.vmm .globalHead = cells sys.state.vmm .globalHead := by
      apply protected_cell inv simulates free
      intro thread other access
      cases access
      rfl
    exact head
  · exact simulates_idle simulates vmm_lawful

/-- Taking the locked sections of the memory manager as single steps loses
nothing: whatever the loads and stores of any number of threads do in any order
under the spinlocks, the sections taken one at a time do the same, and so every
chunk stays in one place. No lock is held by two threads or by none. -/
theorem locks_refine_sections (env : Env) (secret : BitVec 64) (telemetry : Bool)
    (labels : List (Label Nat VmmAct)) (fine : VmmFine)
    (ran : run lockStep (lockStart env secret telemetry) labels = some fine) :
    (∃ acts sys, run vmmStep (vmmStart env secret telemetry) acts = some sys ∧
        SectionsMatch fine sys ∧ Conserved sys) ∧
      ∀ lock, fine.flag lock = true ↔ ∃! thread, fine.lockOf thread = some lock := by
  have races : ∀ state, (∃ place, RaceInv state place) → RaceFree vmmProgram state := by
    rintro state ⟨place, inv⟩
    exact vmm_race_free inv
  have kept : ∀ state label next, (∃ place, RaceInv state place) →
      blockStep vmmProgram state label = some next → ∃ place, RaceInv next place := by
    rintro state label next ⟨place, inv⟩ stepped
    exact race_vmm_step inv (block_step_vmm stepped)
  obtain ⟨steps, sys, reached, ⟨place, inv⟩, simulates⟩ :=
    fine_run_simulated vmm_lawful races kept ⟨_, race_start env secret telemetry⟩ ran
  constructor
  · exact ⟨_, sys, block_run_vmm reached, sections_match inv simulates, conserved inv⟩
  · intro lock
    rw [simulates.locks.holder lock]
    constructor
    · rintro ⟨thread, holds⟩
      exact ⟨thread, holds, fun other there => simulates.locks.single lock other thread there holds⟩
    · rintro ⟨thread, holds, _⟩
      exact ⟨thread, holds⟩

/-- Thread 1 spins on the lock of pool 0 until thread 0 has found the pool
empty and released it; then thread 1 is inside, and thread 0 holds the global
lock. -/
def spinRun : List (Label Nat VmmAct) :=
  [.call (.acquire 0 ⟨4096, .slab⟩), .step 0, .step 0, .call (.acquire 1 ⟨8192, .span⟩), .step 1,
    .step 1, .step 0, .step 1, .step 0, .step 1, .step 0, .step 0, .step 0]

theorem locks_refine_spinning :
    ∃ fine, run lockStep (lockStart oneExtent 0 false) spinRun = some fine ∧
      fine.flag (.pool 0) = true ∧ fine.flag .global = true ∧
      (∃ acts sys, run vmmStep (vmmStart oneExtent 0 false) acts = some sys ∧
        SectionsMatch fine sys ∧ Conserved sys) := by
  have finishes : ((run lockStep (lockStart oneExtent 0 false) spinRun).map fun fine =>
      (fine.flag (.pool 0), fine.flag .global)) = some (true, true) := by decide +kernel
  obtain ⟨fine, ran, flags⟩ := Option.map_eq_some_iff.mp finishes
  obtain ⟨pool, global⟩ := Prod.mk.inj flags
  exact ⟨fine, ran, pool, global, (locks_refine_sections oneExtent 0 false spinRun fine ran).1⟩

end Lzmalloc.VmmLocks
