import Mathlib.Logic.Function.Basic
import Lzmalloc.StepSystem

/-!
# Blocks under locks

Threads work on shared cells in blocks. A block loads and stores some cells,
and may then take one lock and go on under it to its end. In the small system
every load, every store, every attempt to take a lock and every release is a
step of its own; in the large system a block is one step. If the cells of two
blocks never meet, except under the same lock, the small system does nothing
that the large one cannot do.
-/

namespace Lzmalloc.LockedBlocks

open StepSystem

set_option autoImplicit false
set_option linter.unusedSectionVars false

variable {Cell : Type*} [DecidableEq Cell] {Val : Cell → Type*} {Result Lock : Type*}

/-! ## Loads and stores -/

/-- Loads and stores of one thread in program order. -/
inductive Ops (Val : Cell → Type*) (Result : Type*)
  | done (result : Result)
  | read (cell : Cell) (rest : Val cell → Ops Val Result)
  | write (cell : Cell) (value : Val cell) (rest : Ops Val Result)

abbrev Store (Val : Cell → Type*) := (cell : Cell) → Val cell

def exec : Ops Val Result → Store Val → Result × Store Val
  | .done result, store => (result, store)
  | .read cell rest, store => exec (rest (store cell)) store
  | .write cell value rest, store => exec rest (Function.update store cell value)

def Touched : Ops Val Result → Store Val → Cell → Prop
  | .done _, _, _ => False
  | .read cell rest, store, each => each = cell ∨ Touched (rest (store cell)) store each
  | .write cell value rest, store, each =>
      each = cell ∨ Touched rest (Function.update store cell value) each

/-- Some of the operations are done and `rest` is left. -/
inductive Reaches (ops : Ops Val Result) (store : Store Val) :
    Ops Val Result → Store Val → Prop
  | start : Reaches ops store ops store
  | read {cell : Cell} {rest : Val cell → Ops Val Result} {later : Store Val}
      (before : Reaches ops store (.read cell rest) later) :
      Reaches ops store (rest (later cell)) later
  | write {cell : Cell} {value : Val cell} {rest : Ops Val Result} {later : Store Val}
      (before : Reaches ops store (.write cell value rest) later) :
      Reaches ops store rest (Function.update later cell value)

variable {ops rest : Ops Val Result} {store later other : Store Val} {each : Cell}

theorem reaches_exec (reached : Reaches ops store rest later) :
    exec ops store = exec rest later := by
  induction reached with
  | start => rfl
  | read before ih => exact ih
  | write before ih => exact ih

theorem reaches_touched (reached : Reaches ops store rest later)
    (touched : Touched rest later each) :
    Touched ops store each := by
  induction reached with
  | start => exact touched
  | read before ih => exact ih (Or.inr touched)
  | write before ih => exact ih (Or.inr touched)

theorem reaches_outside (reached : Reaches ops store rest later)
    (outside : ¬Touched ops store each) : later each = store each := by
  induction reached with
  | start => rfl
  | read before ih => exact ih
  | @write cell value rest later before ih =>
      have different : each ≠ cell := by
        intro same
        exact outside (reaches_touched before (Or.inl same))
      rw [Function.update_of_ne different]
      exact ih

theorem update_agrees {among : Cell → Prop} {cell : Cell} (value : Val cell)
    (agree : ∀ each, among each → other each = store each) (each : Cell) (here : among each) :
    Function.update other cell value each = Function.update store cell value each := by
  by_cases same : each = cell
  · subst same
    rw [Function.update_self, Function.update_self]
  · rw [Function.update_of_ne same, Function.update_of_ne same]
    exact agree each here

theorem reaches_congr (reached : Reaches ops store rest later)
    (agree : ∀ cell, Touched ops store cell → other cell = store cell) :
    ∃ final, Reaches ops other rest final ∧
      ∀ cell, Touched ops store cell → final cell = later cell := by
  induction reached with
  | start => exact ⟨other, .start, agree⟩
  | @read cell rest later before ih =>
      obtain ⟨final, arrived, same⟩ := ih
      refine ⟨final, ?_, same⟩
      have here := same cell (reaches_touched before (Or.inl rfl))
      rw [← here]
      exact .read arrived
  | @write cell value rest later before ih =>
      obtain ⟨final, arrived, same⟩ := ih
      exact ⟨_, .write arrived, update_agrees value same⟩

theorem touched_congr (agree : ∀ cell, Touched ops store cell → other cell = store cell) :
    Touched ops other each ↔ Touched ops store each := by
  induction ops generalizing store other with
  | done result => exact Iff.rfl
  | read cell rest ih =>
      have here : other cell = store cell := agree cell (Or.inl rfl)
      simp only [Touched, here]
      rw [ih (store cell) fun each touched => agree each (Or.inr touched)]
  | write cell value rest ih =>
      simp only [Touched]
      rw [ih (update_agrees value fun each touched => agree each (Or.inr touched))]

theorem reaches_done {result : Result} (reached : Reaches ops store (.done result) later) :
    exec ops store = (result, later) := reaches_exec reached

/-! ## Blocks -/

/-- How the part of a block in front of its lock ends. -/
inductive Ending (Val : Cell → Type*) (Result Lock : Type*)
  | finish (result : Result)
  | locked (lock : Lock) (body : Ops Val Result)

abbrev Block (Val : Cell → Type*) (Result Lock : Type*) := Ops Val (Ending Val Result Lock)

def runBlock (block : Block Val Result Lock) (store : Store Val) : Result × Store Val :=
  match exec block store with
  | (.finish result, later) => (result, later)
  | (.locked _ body, later) => exec body later

def TouchedLocked (block : Block Val Result Lock) (store : Store Val) (lock : Lock) (each : Cell) :
    Prop :=
  ∃ body later, exec block store = (.locked lock body, later) ∧ Touched body later each

/-- What is left of a block that a thread has begun. -/
inductive Running (Val : Cell → Type*) (Result Lock : Type*)
  | outside (rest : Block Val Result Lock)
  | inside (lock : Lock) (rest : Ops Val Result)

def Running.lock : Running Val Result Lock → Option Lock
  | .outside _ => none
  | .inside lock _ => some lock

/-- The thread has come this far with the block, and sees `later`. -/
def Progress (block : Block Val Result Lock) (store : Store Val) :
    Running Val Result Lock → Store Val → Prop
  | .outside rest, later => Reaches block store rest later
  | .inside lock rest, later =>
      ∃ body middle, Reaches block store (.done (.locked lock body)) middle ∧
        Reaches body middle rest later

/-- The cells that belong to the thread at this point. -/
def Owned (block : Block Val Result Lock) (store : Store Val) :
    Running Val Result Lock → Cell → Prop
  | .outside _, each => Touched block store each
  | .inside lock _, each => Touched block store each ∨ TouchedLocked block store lock each

variable {block : Block Val Result Lock} {going : Running Val Result Lock}

theorem touched_locked_iff {lock : Lock} {body : Ops Val Result}
    (reached : Reaches block store (.done (.locked lock body)) later) :
    TouchedLocked block store lock each ↔ Touched body later each := by
  have executed := reaches_done reached
  constructor
  · rintro ⟨other, final, same, touched⟩
    rw [executed] at same
    cases same
    exact touched
  · exact fun touched => ⟨body, later, executed, touched⟩

theorem progress_outside (progress : Progress block store going later)
    (outside : ¬Owned block store going each) : later each = store each := by
  cases going with
  | outside rest => exact reaches_outside progress outside
  | inside lock rest =>
      obtain ⟨body, middle, entered, reached⟩ := progress
      have untouched : ¬Touched body middle each := fun touched =>
        outside (Or.inr ((touched_locked_iff entered).mpr touched))
      rw [reaches_outside reached untouched]
      exact reaches_outside entered fun touched => outside (Or.inl touched)

theorem progress_congr (progress : Progress block store going later)
    (agree : ∀ cell, Owned block store going cell → other cell = store cell) :
    (∃ final, Progress block other going final ∧
        ∀ cell, Owned block store going cell → final cell = later cell) ∧
      ∀ cell, Owned block other going cell ↔ Owned block store going cell := by
  cases going with
  | outside rest => exact ⟨reaches_congr progress agree, fun cell => touched_congr agree⟩
  | inside lock rest =>
      obtain ⟨body, middle, entered, reached⟩ := progress
      have first : ∀ cell, Touched block store cell → other cell = store cell :=
        fun cell touched => agree cell (Or.inl touched)
      obtain ⟨start, arrived, same⟩ := reaches_congr entered first
      -- under the lock the two runs start from stores that agree on what is touched
      have starts : ∀ cell, Owned block store (.inside lock rest) cell →
          start cell = middle cell := by
        intro cell owned
        by_cases touched : Touched block store cell
        · exact same cell touched
        · have untouched : ¬Touched block other cell := fun there =>
            touched ((touched_congr first).mp there)
          rw [reaches_outside arrived untouched, reaches_outside entered touched]
          exact agree cell owned
      have bodyStarts : ∀ cell, Touched body middle cell → start cell = middle cell :=
        fun cell touched => starts cell (Or.inr ((touched_locked_iff entered).mpr touched))
      obtain ⟨final, finished, ends⟩ := reaches_congr reached bodyStarts
      refine ⟨⟨final, ⟨body, start, arrived, finished⟩, ?_⟩, ?_⟩
      · intro cell owned
        by_cases touched : Touched body middle cell
        · exact ends cell touched
        · have untouched : ¬Touched body start cell := fun there =>
            touched ((touched_congr bodyStarts).mp there)
          rw [reaches_outside finished untouched, reaches_outside reached touched]
          exact starts cell owned
      · intro cell
        simp only [Owned]
        rw [touched_congr first, touched_locked_iff arrived, touched_locked_iff entered,
          touched_congr bodyStarts]

/-! ## The two systems -/

variable {State Thread Act : Type*}

/-- Threads that work in blocks on the memory of a state. The rest of the state
changes when a block ends, or at once by a call. -/
structure Program (State Thread Act : Type*) (Val : Cell → Type*) (Result Lock : Type*) where
  memory : State → Store Val
  withMemory : State → Store Val → State
  block : State → Thread → Option (Block Val Result Lock)
  finish : State → Thread → Result → State
  caller : Act → Thread
  call : State → Act → Option State
  /-- What the call does to the cells. -/
  change : State → Act → (cell : Cell) → Val cell → Val cell

/-- Blocks and ends of blocks do not look at the memory, and concern no other
thread. A call changes every cell without looking at the others. -/
structure Lawful (program : Program State Thread Act Val Result Lock) : Prop where
  memory_with : ∀ state store, program.memory (program.withMemory state store) = store
  with_memory : ∀ state, program.withMemory state (program.memory state) = state
  with_with : ∀ state store other,
    program.withMemory (program.withMemory state store) other = program.withMemory state other
  block_with : ∀ state store thread,
    program.block (program.withMemory state store) thread = program.block state thread
  finish_with : ∀ state store thread result,
    program.finish (program.withMemory state store) thread result =
      program.withMemory (program.finish state thread result) store
  finish_block : ∀ state thread other result, other ≠ thread →
    program.block (program.finish state thread result) other = program.block state other
  call_block : ∀ state act next other, program.call state act = some next →
    other ≠ program.caller act → program.block next other = program.block state other
  call_with : ∀ state act next store, program.call state act = some next →
    program.call (program.withMemory state store) act =
      some (program.withMemory next fun cell => program.change state act cell (store cell))
  change_with : ∀ state act store,
    program.change (program.withMemory state store) act = program.change state act

inductive Label (Thread Act : Type*)
  | call (act : Act)
  | step (thread : Thread)

/-- The large system: a block is one step. -/
def blockStep (program : Program State Thread Act Val Result Lock) (state : State) :
    Label Thread Act → Option State
  | .call act => program.call state act
  | .step thread =>
      (program.block state thread).map fun block =>
        let ran := runBlock block (program.memory state)
        program.finish (program.withMemory state ran.2) thread ran.1

/-- The small system keeps a flag for each lock and what is left of each block. -/
structure Fine (State Thread : Type*) (Val : Cell → Type*) (Result Lock : Type*) where
  shared : State
  flag : Lock → Bool
  running : Thread → Option (Running Val Result Lock)

variable [DecidableEq Thread] [DecidableEq Lock]

/-- One load, store, attempt to take a lock, or end of a block. -/
def fineStep (program : Program State Thread Act Val Result Lock)
    (fine : Fine State Thread Val Result Lock) :
    Label Thread Act → Option (Fine State Thread Val Result Lock)
  | .call act =>
      match fine.running (program.caller act) with
      | none => (program.call fine.shared act).map fun next => { fine with shared := next }
      | some _ => none
  | .step thread =>
      let store := program.memory fine.shared
      let goOn := fun going => Function.update fine.running thread (some going)
      let ended := Function.update fine.running thread none
      match fine.running thread with
      | none =>
          (program.block fine.shared thread).map fun block =>
            { fine with running := goOn (.outside block) }
      | some (.outside (.read cell rest)) =>
          some { fine with running := goOn (.outside (rest (store cell))) }
      | some (.outside (.write cell value rest)) =>
          some
            { fine with
              shared := program.withMemory fine.shared (Function.update store cell value)
              running := goOn (.outside rest) }
      | some (.outside (.done (.finish result))) =>
          some { fine with shared := program.finish fine.shared thread result, running := ended }
      | some (.outside (.done (.locked lock body))) =>
          if fine.flag lock then some fine
          else
            some
              { fine with
                flag := Function.update fine.flag lock true
                running := goOn (.inside lock body) }
      | some (.inside lock (.read cell rest)) =>
          some { fine with running := goOn (.inside lock (rest (store cell))) }
      | some (.inside lock (.write cell value rest)) =>
          some
            { fine with
              shared := program.withMemory fine.shared (Function.update store cell value)
              running := goOn (.inside lock rest) }
      | some (.inside lock (.done result)) =>
          some
            { shared := program.finish fine.shared thread result
              flag := Function.update fine.flag lock false
              running := ended }

def fineStart (state : State) : Fine State Thread Val Result Lock where
  shared := state
  flag := fun _ => false
  running := fun _ => none

/-! ## Locks -/

def Fine.lockOf (fine : Fine State Thread Val Result Lock) (thread : Thread) : Option Lock :=
  (fine.running thread).bind Running.lock

/-- A flag is set exactly while a thread is under the lock, and there is one
such thread. -/
structure LocksOk (fine : Fine State Thread Val Result Lock) : Prop where
  holder : ∀ lock, fine.flag lock = true ↔ ∃ thread, fine.lockOf thread = some lock
  single : ∀ lock thread other, fine.lockOf thread = some lock → fine.lockOf other = some lock →
    thread = other

variable {fine reached : Fine State Thread Val Result Lock}
  {program : Program State Thread Act Val Result Lock}

theorem lock_of_update {thread other : Thread} {going : Option (Running Val Result Lock)}
    {shared : State} {flag : Lock → Bool} :
    Fine.lockOf ⟨shared, flag, Function.update fine.running thread going⟩ other =
      if other = thread then going.bind Running.lock else fine.lockOf other := by
  unfold Fine.lockOf
  dsimp only
  by_cases same : other = thread
  · rw [if_pos same, same, Function.update_self]
  · rw [if_neg same, Function.update_of_ne same]

theorem locks_same (locks : LocksOk fine) (flag : reached.flag = fine.flag)
    (same : ∀ thread, reached.lockOf thread = fine.lockOf thread) : LocksOk reached := by
  constructor
  · intro lock
    rw [flag, locks.holder lock]
    simp only [same]
  · intro lock thread other
    rw [same, same]
    exact locks.single lock thread other

theorem locks_taken (locks : LocksOk fine) {lock : Lock} {thread : Thread}
    (free : fine.flag lock = false) (flag : reached.flag = Function.update fine.flag lock true)
    (none : fine.lockOf thread = none)
    (taken : ∀ other,
      reached.lockOf other = if other = thread then some lock else fine.lockOf other) :
    LocksOk reached := by
  have nobody : ∀ other, fine.lockOf other ≠ some lock := by
    intro other holds
    have set := (locks.holder lock).mpr ⟨other, holds⟩
    rw [free] at set
    cases set
  constructor
  · intro each
    rw [flag]
    by_cases here : each = lock
    · rw [here, Function.update_self]
      refine iff_of_true rfl ⟨thread, ?_⟩
      rw [taken, if_pos rfl]
    · rw [Function.update_of_ne here, locks.holder each]
      constructor
      · rintro ⟨other, holds⟩
        refine ⟨other, ?_⟩
        have different : other ≠ thread := by
          intro same
          rw [same, none] at holds
          cases holds
        rw [taken, if_neg different]
        exact holds
      · rintro ⟨other, holds⟩
        rw [taken] at holds
        split at holds
        · cases holds
          exact absurd rfl here
        · exact ⟨other, holds⟩
  · intro each left right
    rw [taken, taken]
    split
    · next first =>
      split
      · next second => exact fun _ _ => first.trans second.symm
      · intro first second
        cases first
        exact absurd second (nobody right)
    · split
      · intro first second
        cases second
        exact absurd first (nobody left)
      · exact locks.single each left right

theorem locks_released (locks : LocksOk fine) {lock : Lock} {thread : Thread}
    (flag : reached.flag = Function.update fine.flag lock false)
    (held : fine.lockOf thread = some lock)
    (left : ∀ other, reached.lockOf other = if other = thread then none else fine.lockOf other) :
    LocksOk reached := by
  constructor
  · intro each
    rw [flag]
    by_cases here : each = lock
    · rw [here, Function.update_self]
      refine iff_of_false Bool.false_ne_true ?_
      rintro ⟨other, holds⟩
      rw [left] at holds
      split at holds
      · cases holds
      · next different => exact different (locks.single lock other thread holds held)
    · rw [Function.update_of_ne here, locks.holder each]
      constructor
      · rintro ⟨other, holds⟩
        refine ⟨other, ?_⟩
        have different : other ≠ thread := by
          intro same
          rw [same, held] at holds
          cases holds
          exact here rfl
        rw [left, if_neg different]
        exact holds
      · rintro ⟨other, holds⟩
        rw [left] at holds
        split at holds
        · cases holds
        · exact ⟨other, holds⟩
  · intro each first second
    rw [left, left]
    split
    · intro holds
      cases holds
    · split
      · intro _ holds
        cases holds
      · exact locks.single each first second

/-! ## The simulation -/

/-- Two blocks meet in no cell, unless both are under the same lock there. -/
structure Apart (store : Store Val) (left right : Block Val Result Lock) : Prop where
  first : ∀ each, Touched left store each →
    ¬Touched right store each ∧ ∀ lock, ¬TouchedLocked right store lock each
  second : ∀ each, Touched right store each → ∀ lock, ¬TouchedLocked left store lock each
  locked : ∀ each lock other, lock ≠ other → TouchedLocked left store lock each →
    ¬TouchedLocked right store other each

/-- No two threads race, and no call disturbs the block of another thread. -/
structure RaceFree (program : Program State Thread Act Val Result Lock) (state : State) : Prop where
  blocks : ∀ thread other left right, thread ≠ other → program.block state thread = some left →
    program.block state other = some right → Apart (program.memory state) left right
  calls : ∀ act next other block, program.call state act = some next →
    other ≠ program.caller act → program.block state other = some block →
    ∀ each, (Touched block (program.memory state) each ∨
      ∃ lock, TouchedLocked block (program.memory state) lock each) →
        ∀ value, program.change state act each value = value

/-- A thread of the small system has come this far with its block in `state`. -/
def Follows (program : Program State Thread Act Val Result Lock)
    (fine : Fine State Thread Val Result Lock) (state : State) (thread : Thread)
    (going : Running Val Result Lock) : Prop :=
  ∃ block, program.block state thread = some block ∧
    ∃ later, Progress block (program.memory state) going later ∧
      ∀ cell, Owned block (program.memory state) going cell →
        program.memory fine.shared cell = later cell

def Claimed (program : Program State Thread Act Val Result Lock)
    (fine : Fine State Thread Val Result Lock) (state : State) (thread : Thread) (cell : Cell) :
    Prop :=
  ∃ going block, fine.running thread = some going ∧ program.block state thread = some block ∧
    Owned block (program.memory state) going cell

/-- In `state` none of the begun blocks has happened yet. -/
structure Simulates (program : Program State Thread Act Val Result Lock)
    (fine : Fine State Thread Val Result Lock) (state : State) : Prop where
  rest : state = program.withMemory fine.shared (program.memory state)
  locks : LocksOk fine
  threads : ∀ thread going, fine.running thread = some going →
    Follows program fine state thread going
  others : ∀ cell, (∀ thread, ¬Claimed program fine state thread cell) →
    program.memory fine.shared cell = program.memory state cell

theorem owned_apart {left right : Block Val Result Lock} {first second : Running Val Result Lock}
    (apart : Apart store left right)
    (locks : ∀ lock, first.lock = some lock → second.lock ≠ some lock)
    (owned : Owned left store first each) : ¬Owned right store second each := by
  intro there
  cases first with
  | outside rest =>
      cases second with
      | outside other => exact (apart.first each owned).1 there
      | inside lock other =>
          cases there with
          | inl touched => exact (apart.first each owned).1 touched
          | inr locked => exact (apart.first each owned).2 lock locked
  | inside lock rest =>
      cases second with
      | outside other =>
          cases owned with
          | inl touched => exact (apart.first each touched).1 there
          | inr locked => exact apart.second each there lock locked
      | inside other body =>
          have different : lock ≠ other := by
            intro same
            exact locks lock rfl (congrArg some same.symm)
          cases owned with
          | inl touched =>
              cases there with
              | inl again => exact (apart.first each touched).1 again
              | inr locked => exact (apart.first each touched).2 other locked
          | inr locked =>
              cases there with
              | inl touched => exact apart.second each touched lock locked
              | inr again => exact apart.locked each lock other different locked again

variable {state : State} {thread : Thread}

theorem claimed_own (runs : fine.running thread = some going)
    (blockIs : program.block state thread = some block)
    (claimed : Claimed program fine state thread each) :
    Owned block (program.memory state) going each := by
  obtain ⟨now, theirs, running, theirIs, owned⟩ := claimed
  rw [runs] at running
  rw [blockIs] at theirIs
  cases running
  cases theirIs
  exact owned

/-- A thread that is under no lock shares no cell with a begun block of another
thread, and one under a lock no cell with a block outside that lock. -/
theorem claimed_apart (races : RaceFree program state) {other : Thread} (different : thread ≠ other)
    (blockIs : program.block state thread = some block)
    (locks : ∀ lock, going.lock = some lock → fine.lockOf other ≠ some lock)
    (owned : Owned block (program.memory state) going each) :
    ¬Claimed program fine state other each := by
  rintro ⟨second, right, running, rightIs, there⟩
  refine owned_apart (races.blocks thread other block right different blockIs rightIs)
    ?_ owned there
  intro lock holds again
  apply locks lock holds
  rw [Fine.lockOf, running]
  exact again

/-- A step inside a block: the thread writes at most cells of its own. -/
theorem simulates_move (lawful : Lawful program) (races : RaceFree program state)
    (simulates : Simulates program fine state) {next : Store Val} {flag : Lock → Bool}
    (blockIs : program.block state thread = some block)
    (locks : LocksOk ⟨program.withMemory fine.shared next, flag,
      Function.update fine.running thread (some going)⟩)
    (progress : Progress block (program.memory state) going later)
    (sees : ∀ cell, Owned block (program.memory state) going cell → next cell = later cell)
    (keeps : ∀ cell, ¬Owned block (program.memory state) going cell →
      next cell = program.memory fine.shared cell)
    (grows : ∀ cell, Claimed program fine state thread cell →
      Owned block (program.memory state) going cell) :
    Simulates program ⟨program.withMemory fine.shared next, flag,
      Function.update fine.running thread (some going)⟩ state := by
  have apart : ∀ other, other ≠ thread → ∀ cell, Claimed program fine state other cell →
      next cell = program.memory fine.shared cell := by
    intro other different cell claimed
    apply keeps
    intro owned
    refine claimed_apart races different.symm blockIs ?_ owned claimed
    intro lock holds there
    have here : Fine.lockOf ⟨program.withMemory fine.shared next, flag,
        Function.update fine.running thread (some going)⟩ thread = some lock := by
      rw [lock_of_update, if_pos rfl]
      exact holds
    have again : Fine.lockOf ⟨program.withMemory fine.shared next, flag,
        Function.update fine.running thread (some going)⟩ other = some lock := by
      rw [lock_of_update, if_neg different]
      exact there
    exact different (locks.single lock other thread again here)
  constructor
  · dsimp only
    rw [lawful.with_with]
    exact simulates.rest
  · exact locks
  · intro other now running
    dsimp only at running
    by_cases same : other = thread
    · rw [same, Function.update_self] at running
      cases running
      rw [same]
      refine ⟨block, blockIs, later, progress, ?_⟩
      intro cell owned
      dsimp only
      rw [lawful.memory_with]
      exact sees cell owned
    · rw [Function.update_of_ne same] at running
      obtain ⟨theirs, theirIs, seen, theirProgress, agrees⟩ := simulates.threads other now running
      refine ⟨theirs, theirIs, seen, theirProgress, ?_⟩
      intro cell owned
      dsimp only
      rw [lawful.memory_with, apart other same cell ⟨now, theirs, running, theirIs, owned⟩]
      exact agrees cell owned
  · intro cell unclaimed
    dsimp only
    rw [lawful.memory_with]
    have mine : ¬Owned block (program.memory state) going cell := by
      intro owned
      refine unclaimed thread ⟨going, block, ?_, blockIs, owned⟩
      dsimp only
      rw [Function.update_self]
    rw [keeps cell mine]
    apply simulates.others
    intro other claimed
    by_cases same : other = thread
    · rw [same] at claimed
      exact mine (grows cell claimed)
    · obtain ⟨now, theirs, running, theirIs, owned⟩ := claimed
      refine unclaimed other ⟨now, theirs, ?_, theirIs, owned⟩
      dsimp only
      rw [Function.update_of_ne same]
      exact running

theorem finish_memory (lawful : Lawful program) (state : State) (thread : Thread)
    (result : Result) :
    program.memory (program.finish state thread result) = program.memory state := by
  have same := lawful.finish_with state (program.memory state) thread result
  rw [lawful.with_memory] at same
  rw [same, lawful.memory_with]

/-- The other threads do not notice that cells they do not own have changed. -/
theorem follows_frame {next : State} {shared : State} {flag : Lock → Bool}
    {running : Thread → Option (Running Val Result Lock)}
    (follows : Follows program fine state thread going)
    (blockSame : program.block next thread = program.block state thread)
    (spares : ∀ cell, ∀ block, program.block state thread = some block →
      Owned block (program.memory state) going cell →
        program.memory next cell = program.memory state cell ∧
          program.memory shared cell = program.memory fine.shared cell) :
    Follows program ⟨shared, flag, running⟩ next thread going ∧
      ∀ cell block, program.block state thread = some block →
        (Owned block (program.memory next) going cell ↔
          Owned block (program.memory state) going cell) := by
  obtain ⟨block, blockIs, later, progress, sees⟩ := follows
  have agree : ∀ cell, Owned block (program.memory state) going cell →
      program.memory next cell = program.memory state cell :=
    fun cell owned => (spares cell block blockIs owned).1
  obtain ⟨⟨final, arrived, same⟩, owns⟩ := progress_congr progress agree
  constructor
  · refine ⟨block, blockSame.trans blockIs, final, arrived, ?_⟩
    intro cell owned
    have before := (owns cell).mp owned
    dsimp only
    rw [(spares cell block blockIs before).2, sees cell before, same cell before]
  · intro cell other otherIs
    rw [blockIs] at otherIs
    cases otherIs
    exact owns cell

theorem simulates_finish (lawful : Lawful program) (races : RaceFree program state)
    (simulates : Simulates program fine state) {result : Result} {flag : Lock → Bool}
    (runs : fine.running thread = some going)
    (ends : ∀ (block : Block Val Result Lock) store later, Progress block store going later →
      runBlock block store = (result, later))
    (locks : LocksOk ⟨program.finish fine.shared thread result, flag,
      Function.update fine.running thread none⟩) :
    ∃ next, blockStep program state (.step thread) = some next ∧
      Simulates program ⟨program.finish fine.shared thread result, flag,
        Function.update fine.running thread none⟩ next := by
  obtain ⟨block, blockIs, later, progress, sees⟩ := simulates.threads thread going runs
  refine ⟨program.finish (program.withMemory state later) thread result, ?_, ?_⟩
  · simp only [blockStep, blockIs, Option.map_some, ends block _ later progress]
  have memoryNext : program.memory (program.finish (program.withMemory state later) thread result) =
      later := by
    rw [finish_memory lawful, lawful.memory_with]
  have memoryFine := finish_memory lawful fine.shared thread result
  have blockNext : ∀ other, other ≠ thread →
      program.block (program.finish (program.withMemory state later) thread result) other =
        program.block state other := by
    intro other different
    rw [lawful.finish_block _ _ _ _ different, lawful.block_with]
  -- what the thread has written belongs to no other begun block
  have spares : ∀ other, other ≠ thread → ∀ cell, Claimed program fine state other cell →
      later cell = program.memory state cell := by
    intro other different cell claimed
    apply progress_outside progress
    intro owned
    refine claimed_apart races different.symm blockIs ?_ owned claimed
    intro lock holds there
    have here : fine.lockOf thread = some lock := by
      rw [Fine.lockOf, runs]
      exact holds
    exact different (simulates.locks.single lock other thread there here)
  have frames : ∀ other, other ≠ thread → ∀ now, fine.running other = some now →
      Follows program ⟨program.finish fine.shared thread result, flag,
          Function.update fine.running thread none⟩
        (program.finish (program.withMemory state later) thread result) other now ∧
      ∀ cell block, program.block state other = some block →
        (Owned block (program.memory
            (program.finish (program.withMemory state later) thread result)) now cell ↔
          Owned block (program.memory state) now cell) := by
    intro other different now running
    apply follows_frame (simulates.threads other now running) (blockNext other different)
    intro cell theirs theirIs owned
    constructor
    · rw [memoryNext]
      exact spares other different cell ⟨now, theirs, running, theirIs, owned⟩
    · rw [memoryFine]
  constructor
  · dsimp only
    have joined : program.withMemory state later = program.withMemory fine.shared later := by
      rw [simulates.rest, lawful.with_with]
    rw [memoryNext, joined]
    exact lawful.finish_with fine.shared later thread result
  · exact locks
  · intro other now running
    dsimp only at running
    by_cases same : other = thread
    · rw [same, Function.update_self] at running
      cases running
    · rw [Function.update_of_ne same] at running
      exact (frames other same now running).1
  · intro cell unclaimed
    dsimp only
    rw [memoryFine, memoryNext]
    by_cases owned : Owned block (program.memory state) going cell
    · exact sees cell owned
    · rw [progress_outside progress owned]
      apply simulates.others
      rintro other ⟨now, theirs, running, theirIs, there⟩
      by_cases same : other = thread
      · rw [same] at running theirIs
        exact owned (claimed_own runs blockIs ⟨now, theirs, running, theirIs, there⟩)
      · refine unclaimed other ⟨now, theirs, ?_, (blockNext other same).trans theirIs, ?_⟩
        · dsimp only
          rw [Function.update_of_ne same]
          exact running
        · exact ((frames other same now running).2 cell theirs theirIs).mpr there

theorem simulates_call (lawful : Lawful program) (races : RaceFree program state)
    (simulates : Simulates program fine state) {act : Act} {shared : State}
    (idle : fine.running (program.caller act) = none)
    (called : program.call fine.shared act = some shared) :
    ∃ next, blockStep program state (.call act) = some next ∧
      Simulates program { fine with shared := shared } next := by
  have theirs := lawful.call_with fine.shared act shared (program.memory state) called
  rw [← simulates.rest] at theirs
  have mine := lawful.call_with fine.shared act shared (program.memory fine.shared) called
  rw [lawful.with_memory, called, Option.some.injEq] at mine
  have memoryFine : program.memory shared = fun cell =>
      program.change fine.shared act cell (program.memory fine.shared cell) := by
    rw [mine, lawful.memory_with]
  have changes : program.change state act = program.change fine.shared act := by
    rw [simulates.rest, lawful.change_with]
  refine ⟨_, theirs, ?_⟩
  have caller : ∀ other now, fine.running other = some now → other ≠ program.caller act := by
    intro other now running same
    rw [same, idle] at running
    cases running
  have frames : ∀ other now, fine.running other = some now →
      Follows program { fine with shared := shared }
        (program.withMemory shared fun cell =>
          program.change fine.shared act cell (program.memory state cell)) other now ∧
      ∀ cell block, program.block state other = some block →
        (Owned block (program.memory (program.withMemory shared fun cell =>
            program.change fine.shared act cell (program.memory state cell))) now cell ↔
          Owned block (program.memory state) now cell) := by
    intro other now running
    apply follows_frame (simulates.threads other now running)
      (lawful.call_block state act _ other theirs (caller other now running))
    intro cell block blockIs owned
    have fixed : ∀ value, program.change fine.shared act cell value = value := by
      rw [← changes]
      apply races.calls act _ other block theirs (caller other now running) blockIs cell
      cases now with
      | outside rest => exact Or.inl owned
      | inside lock rest => exact owned.imp_right fun locked => ⟨lock, locked⟩
    rw [lawful.memory_with, memoryFine]
    exact ⟨fixed _, fixed _⟩
  constructor
  · dsimp only
    rw [lawful.memory_with]
  · exact locks_same simulates.locks rfl fun _ => rfl
  · intro other now running
    exact (frames other now running).1
  · intro cell unclaimed
    dsimp only
    rw [memoryFine, lawful.memory_with]
    apply congrArg (program.change fine.shared act cell)
    apply simulates.others
    rintro other ⟨now, block, running, blockIs, owned⟩
    refine unclaimed other ⟨now, block, running, ?_, ?_⟩
    · rw [lawful.call_block state act _ other theirs (caller other now running)]
      exact blockIs
    · exact ((frames other now running).2 cell block blockIs).mpr owned

theorem lock_of_going {now : Running Val Result Lock} {shared : State} {flag : Lock → Bool}
    (same : now.lock = fine.lockOf thread) (other : Thread) :
    Fine.lockOf ⟨shared, flag, Function.update fine.running thread (some now)⟩ other =
      fine.lockOf other := by
  rw [lock_of_update]
  by_cases here : other = thread
  · rw [if_pos here, here]
    exact same
  · rw [if_neg here]

theorem simulates_begin (lawful : Lawful program) (races : RaceFree program state)
    (simulates : Simulates program fine state) (idle : fine.running thread = none)
    (blockIs : program.block fine.shared thread = some block) :
    Simulates program
      { fine with
        running := Function.update fine.running thread (some (.outside block)) } state := by
  have blockThere : program.block state thread = some block := by
    rw [simulates.rest, lawful.block_with]
    exact blockIs
  have moved : Simulates program ⟨program.withMemory fine.shared (program.memory fine.shared),
      fine.flag, Function.update fine.running thread (some (.outside block))⟩ state := by
    refine simulates_move lawful races simulates blockThere ?_ Reaches.start ?_ (fun _ _ => rfl) ?_
    · refine locks_same simulates.locks rfl (lock_of_going ?_)
      rw [Fine.lockOf, idle]
      rfl
    · intro cell owned
      apply simulates.others
      intro other claimed
      by_cases same : other = thread
      · obtain ⟨now, _, running, _⟩ := claimed
        rw [same, idle] at running
        cases running
      · refine claimed_apart races (Ne.symm same) blockThere ?_ owned claimed
        intro lock holds
        cases holds
    · rintro cell ⟨now, _, running, _⟩
      rw [idle] at running
      cases running
  rw [lawful.with_memory] at moved
  exact moved

structure Advances (block : Block Val Result Lock) (store before : Store Val)
    (going now : Running Val Result Lock) (next : Store Val) : Prop where
  lock : now.lock = going.lock
  owns : ∀ each, Owned block store now each ↔ Owned block store going each
  sees : ∀ later, Progress block store going later →
    (∀ each, Owned block store going each → before each = later each) →
    ∃ final, Progress block store now final ∧ ∀ each, Owned block store now each →
      next each = final each
  keeps : ∀ later, Progress block store going later → ∀ each, ¬Owned block store now each →
    next each = before each

theorem simulates_advance (lawful : Lawful program) (races : RaceFree program state)
    (simulates : Simulates program fine state) {now : Running Val Result Lock} {next : Store Val}
    (runs : fine.running thread = some going)
    (advances : ∀ block,
      Advances block (program.memory state) (program.memory fine.shared) going now
      next) :
    Simulates program ⟨program.withMemory fine.shared next, fine.flag,
      Function.update fine.running thread (some now)⟩ state := by
  obtain ⟨block, blockIs, later, progress, sees⟩ := simulates.threads thread going runs
  have step := advances block
  obtain ⟨final, arrived, final_sees⟩ := step.sees later progress sees
  refine simulates_move lawful races simulates blockIs ?_ arrived final_sees
    (step.keeps later progress) ?_
  · refine locks_same simulates.locks rfl (lock_of_going ?_)
    rw [Fine.lockOf, runs]
    exact step.lock
  · exact fun cell claimed => (step.owns cell).mpr (claimed_own runs blockIs claimed)

theorem advances_read_outside (block : Block Val Result Lock) (store before : Store Val)
    (cell : Cell) (rest : Val cell → Block Val Result Lock) :
    Advances block store before (.outside (.read cell rest)) (.outside (rest (before cell)))
      before where
  lock := rfl
  owns := fun _ => Iff.rfl
  sees := by
    intro later progress sees
    refine ⟨later, ?_, sees⟩
    rw [sees cell (reaches_touched progress (Or.inl rfl))]
    exact Reaches.read progress
  keeps := fun _ _ _ _ => rfl

theorem advances_read_inside (block : Block Val Result Lock) (store before : Store Val)
    (lock : Lock) (cell : Cell) (rest : Val cell → Ops Val Result) :
    Advances block store before (.inside lock (.read cell rest))
      (.inside lock (rest (before cell))) before where
  lock := rfl
  owns := fun _ => Iff.rfl
  sees := by
    rintro later ⟨body, middle, entered, reached⟩ sees
    have touched := reaches_touched reached (Or.inl rfl : Touched (.read cell rest) later cell)
    refine ⟨later, ⟨body, middle, entered, ?_⟩, sees⟩
    rw [sees cell (Or.inr ((touched_locked_iff entered).mpr touched))]
    exact Reaches.read reached
  keeps := fun _ _ _ _ => rfl

theorem advances_write_outside (block : Block Val Result Lock) (store before : Store Val)
    (cell : Cell) (value : Val cell) (rest : Block Val Result Lock) :
    Advances block store before (.outside (.write cell value rest)) (.outside rest)
      (Function.update before cell value) where
  lock := rfl
  owns := fun _ => Iff.rfl
  sees := by
    intro later progress sees
    exact ⟨_, Reaches.write progress, update_agrees value sees⟩
  keeps := by
    intro later progress each outside
    apply Function.update_of_ne
    intro same
    exact outside (reaches_touched progress (Or.inl same))

theorem advances_write_inside (block : Block Val Result Lock) (store before : Store Val)
    (lock : Lock) (cell : Cell) (value : Val cell) (rest : Ops Val Result) :
    Advances block store before (.inside lock (.write cell value rest)) (.inside lock rest)
      (Function.update before cell value) where
  lock := rfl
  owns := fun _ => Iff.rfl
  sees := by
    rintro later ⟨body, middle, entered, reached⟩ sees
    exact ⟨_, ⟨body, middle, entered, Reaches.write reached⟩, update_agrees value sees⟩
  keeps := by
    rintro later ⟨body, middle, entered, reached⟩ each outside
    apply Function.update_of_ne
    intro same
    exact outside
      (Or.inr ((touched_locked_iff entered).mpr (reaches_touched reached (Or.inl same))))

theorem simulates_lock (lawful : Lawful program) (races : RaceFree program state)
    (simulates : Simulates program fine state) {lock : Lock} {body : Ops Val Result}
    (runs : fine.running thread = some (.outside (.done (.locked lock body))))
    (free : fine.flag lock = false) :
    Simulates program
      { fine with
        flag := Function.update fine.flag lock true
        running := Function.update fine.running thread (some (.inside lock body)) } state := by
  obtain ⟨block, blockIs, later, progress, sees⟩ := simulates.threads thread _ runs
  have nobody : ∀ other, fine.lockOf other ≠ some lock := by
    intro other holds
    have set := (simulates.locks.holder lock).mpr ⟨other, holds⟩
    rw [free] at set
    cases set
  have moved : Simulates program ⟨program.withMemory fine.shared (program.memory fine.shared),
      Function.update fine.flag lock true,
      Function.update fine.running thread (some (.inside lock body))⟩ state := by
    refine simulates_move lawful races simulates blockIs ?_
      ⟨body, later, progress, Reaches.start⟩ ?_
      (fun _ _ => rfl) ?_
    · refine locks_taken simulates.locks free rfl ?_ fun other => lock_of_update
      rw [Fine.lockOf, runs]
      rfl
    · intro cell owned
      by_cases touched : Touched block (program.memory state) cell
      · exact sees cell touched
      · rw [reaches_outside progress touched]
        apply simulates.others
        intro other claimed
        by_cases same : other = thread
        · rw [same] at claimed
          exact touched (claimed_own runs blockIs claimed)
        · refine claimed_apart races (Ne.symm same) blockIs ?_ owned claimed
          intro each holds
          cases holds
          exact nobody other
    · exact fun cell claimed => Or.inl (claimed_own runs blockIs claimed)
  rw [lawful.with_memory] at moved
  exact moved

/-- One step of the small system is no step or the same step of the large one. -/
theorem simulates_step (lawful : Lawful program) (races : RaceFree program state)
    (simulates : Simulates program fine state) {label : Label Thread Act}
    (stepped : fineStep program fine label = some reached) :
    Simulates program reached state ∨
      ∃ next, blockStep program state label = some next ∧ Simulates program reached next := by
  cases label with
  | call act =>
      simp only [fineStep] at stepped
      split at stepped
      · next idle =>
        obtain ⟨shared, called, rfl⟩ := Option.map_eq_some_iff.mp stepped
        exact Or.inr (simulates_call lawful races simulates idle called)
      · cases stepped
  | step thread =>
      have memory := lawful.with_memory fine.shared
      simp only [fineStep] at stepped
      split at stepped
      · next idle =>
        obtain ⟨block, blockIs, rfl⟩ := Option.map_eq_some_iff.mp stepped
        exact Or.inl (simulates_begin lawful races simulates idle blockIs)
      · next cell rest runs =>
        obtain rfl := Option.some.inj stepped
        have moved := simulates_advance lawful races simulates runs fun block =>
          advances_read_outside block _ _ cell rest
        rw [memory] at moved
        exact Or.inl moved
      · next cell value rest runs =>
        obtain rfl := Option.some.inj stepped
        exact Or.inl (simulates_advance lawful races simulates runs fun block =>
          advances_write_outside block _ _ cell value rest)
      · next result runs =>
        obtain rfl := Option.some.inj stepped
        right
        apply simulates_finish lawful races simulates runs
        · intro block store later progress
          simp only [runBlock, reaches_done progress]
        · refine locks_same simulates.locks rfl fun other => ?_
          rw [lock_of_update]
          by_cases here : other = thread
          · rw [if_pos here, here, Fine.lockOf, runs]
            rfl
          · rw [if_neg here]
      · next lock body runs =>
        split at stepped
        · obtain rfl := Option.some.inj stepped
          exact Or.inl simulates
        · next free =>
          obtain rfl := Option.some.inj stepped
          exact Or.inl (simulates_lock lawful races simulates runs (Bool.not_eq_true _ ▸ free))
      · next lock cell rest runs =>
        obtain rfl := Option.some.inj stepped
        have moved := simulates_advance lawful races simulates runs fun block =>
          advances_read_inside block _ _ lock cell rest
        rw [memory] at moved
        exact Or.inl moved
      · next lock cell value rest runs =>
        obtain rfl := Option.some.inj stepped
        exact Or.inl (simulates_advance lawful races simulates runs fun block =>
          advances_write_inside block _ _ lock cell value rest)
      · next lock result runs =>
        obtain rfl := Option.some.inj stepped
        right
        apply simulates_finish lawful races simulates runs
        · rintro block store later ⟨body, middle, entered, finished⟩
          simp only [runBlock, reaches_done entered]
          exact reaches_done finished
        · refine locks_released simulates.locks rfl ?_ fun other => lock_of_update
          rw [Fine.lockOf, runs]
          rfl

theorem simulates_start (lawful : Lawful program) (state : State) :
    Simulates program (fineStart state : Fine State Thread Val Result Lock) state := by
  constructor
  · exact (lawful.with_memory state).symm
  · constructor
    · intro lock
      refine iff_of_false Bool.false_ne_true ?_
      rintro ⟨thread, holds⟩
      cases holds
    · intro lock thread other holds
      cases holds
  · intro thread going running
    cases running
  · exact fun _ _ => rfl

/-- Where an invariant of the large system excludes races, every run of the
small system follows a run of the large one. -/
theorem fine_run_simulated (lawful : Lawful program) {invariant : State → Prop}
    (races : ∀ state, invariant state → RaceFree program state)
    (kept : ∀ state label next, invariant state → blockStep program state label = some next →
      invariant next)
    {start : State} (initial : invariant start) {labels : List (Label Thread Act)}
    (ran : run (fineStep program) (fineStart start) labels = some fine) :
    ∃ steps state, run (blockStep program) start steps = some state ∧ invariant state ∧
      Simulates program fine state := by
  have preserved : ∀ before label after,
      (∃ steps state, run (blockStep program) start steps = some state ∧ invariant state ∧
        Simulates program before state) →
      fineStep program before label = some after →
      ∃ steps state, run (blockStep program) start steps = some state ∧ invariant state ∧
        Simulates program after state := by
    rintro before label after ⟨steps, state, reached, holds, simulates⟩ stepped
    cases simulates_step lawful (races state holds) simulates stepped with
    | inl stays => exact ⟨steps, state, reached, holds, stays⟩
    | inr moved =>
        obtain ⟨next, follows, again⟩ := moved
        refine ⟨steps ++ [label], next, ?_, kept state label next holds follows, again⟩
        rw [run_append, reached, Option.bind_some, run_cons, follows]
        rfl
  exact run_invariant_always preserved
    ⟨[], start, rfl, initial, simulates_start lawful start⟩ ran

theorem simulates_idle (simulates : Simulates program fine state) (lawful : Lawful program)
    (idle : ∀ thread, fine.running thread = none) : fine.shared = state := by
  have same : program.memory fine.shared = program.memory state := by
    funext cell
    apply simulates.others
    rintro thread ⟨going, _, running, _⟩
    rw [idle] at running
    cases running
  rw [simulates.rest, ← same, lawful.with_memory]

end Lzmalloc.LockedBlocks
