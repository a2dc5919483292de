import Lzmalloc.PointerChain
import Lzmalloc.HeapState
import Lzmalloc.StepSystem

/-!
# Racing producers and owners of remote frees

Heaps free blocks of other heaps through outgoing batches and mailboxes. The
load of a mailbox head, the write of the tail's link, every attempt of the weak
compare-exchange, the exchange of a reaping owner, the enqueue step and the
hand-over of each detached node are steps of their own; between them any other
heap can move. A block that was handed over can be allocated, written by its
client and freed again while some producer still has its address as an old
head, and its chunk can change its owner while the block is in the owner's
store. `freed` and `handed` count remote frees and hand-overs of each block.
-/

namespace Lzmalloc.RemoteRaces

open SizeClasses HeapState PointerChain StepSystem

set_option autoImplicit false

/-- What follows a flush: the thread exits, or the free of a block goes on. -/
inductive FlushThen where
  | exit
  | enqueue (node owner : Nat)

/-- Where the thread of a heap is. -/
inductive RemotePc where
  | idle
  | freeing (node owner : Nat)
  | enqueueing (node : Nat)
  | flushLoad (after : FlushThen)
  | flushWrite (after : FlushThen) (oldHead : Nat)
  | flushExchange (after : FlushThen) (oldHead : Nat)
  | reaping (head : Nat)

/-- Who may touch a block: the owner's free logic, a client, or nobody because
a remote free of it is on its way. -/
inductive BlockStatus
  | stored
  | live
  | released
  deriving DecidableEq

structure RemoteSys where
  /-- The first word of each block. -/
  next : Nat → Nat
  /-- `owning_tlh` of the block's chunk. -/
  owner : Nat → Nat
  mailbox : Nat → Nat
  batch : Nat → Batch
  pc : Nat → RemotePc
  status : Nat → BlockStatus
  freed : Nat → Nat
  handed : Nat → Nat

inductive RemoteAct where
  | alloc (heap block : Nat)
  | reassign (block owner : Nat)
  | write (block value : Nat)
  | freeLocal (heap block value : Nat)
  | free (heap block : Nat)
  | flush (heap : Nat)
  | reap (heap : Nat)
  /-- The next step of the heap's call; `word` is what the free logic stores in
  a node that is handed over. -/
  | step (heap word : Nat)
  | exchangeFails (heap : Nat)

namespace RemoteSys

def moveTo (s : RemoteSys) (heap : Nat) (pc : RemotePc) : RemoteSys :=
  { s with pc := Function.update s.pc heap pc }

def setLink (s : RemoteSys) (block value : Nat) : RemoteSys :=
  { s with next := Function.update s.next block value }

def setStatus (s : RemoteSys) (block : Nat) (status : BlockStatus) : RemoteSys :=
  { s with status := Function.update s.status block status }

def setBatch (s : RemoteSys) (heap : Nat) (batch : Batch) : RemoteSys :=
  { s with batch := Function.update s.batch heap batch }

/-- The enqueue step of `lz_tlh_free`. -/
def enqueue (s : RemoteSys) (heap node : Nat) : RemoteSys :=
  let batch := s.batch heap
  { ((s.setLink node batch.head).setBatch heap
      { batch with
        head := node
        tail := if batch.count = 0 then node else batch.tail
        count := (batch.count + 1) % 2 ^ 32 }).moveTo heap .idle with
    freed := Function.update s.freed node (s.freed node + 1) }

/-- One node of the detached list goes to the owner's free logic, which stores
`word` in it. -/
def handOver (s : RemoteSys) (heap head word : Nat) : RemoteSys :=
  { ((s.setLink head word).setStatus head .stored).moveTo heap (.reaping (s.next head)) with
    handed := Function.update s.handed head (s.handed head + 1) }

def detach (s : RemoteSys) (heap : Nat) : RemoteSys :=
  { s.moveTo heap (.reaping (s.mailbox heap)) with
    mailbox := Function.update s.mailbox heap 0 }

/-- The end of a flush: the batch is reset, then the caller goes on. -/
def finishFlush (s : RemoteSys) (heap : Nat) : FlushThen → RemoteSys
  | .exit => (s.setBatch heap {}).moveTo heap .idle
  | .enqueue node owner =>
      (s.setBatch heap { targetTlh := owner }).moveTo heap (.enqueueing node)

end RemoteSys

/-- The next step of a heap inside a call. -/
def advance (s : RemoteSys) (heap word : Nat) : Option RemoteSys :=
  let batch := s.batch heap
  match s.pc heap with
  | .idle => none
  | .freeing node owner =>
      if batch.targetTlh ≠ owner ∨ batch.count ≥ lzBatchMaxSize then
        if batch.count = 0 ∨ batch.targetTlh = 0 then
          some ((s.setBatch heap { batch with targetTlh := owner }).moveTo heap (.enqueueing node))
        else some (s.moveTo heap (.flushLoad (.enqueue node owner)))
      else some (s.moveTo heap (.enqueueing node))
  | .enqueueing node => some (s.enqueue heap node)
  | .flushLoad after => some (s.moveTo heap (.flushWrite after (s.mailbox batch.targetTlh)))
  | .flushWrite after oldHead =>
      some ((s.setLink batch.tail oldHead).moveTo heap (.flushExchange after oldHead))
  | .flushExchange after oldHead =>
      if s.mailbox batch.targetTlh = oldHead then
        some (RemoteSys.finishFlush
          { s with mailbox := Function.update s.mailbox batch.targetTlh batch.head } heap after)
      else none
  | .reaping head =>
      if head = 0 then some (s.moveTo heap .idle) else some (s.handOver heap head word)

def remoteStep (s : RemoteSys) : RemoteAct → Option RemoteSys
  | .alloc heap block =>
      match s.pc heap with
      | .idle =>
          if heap ≠ 0 ∧ block ≠ 0 ∧ s.owner block = heap ∧ s.status block = .stored then
            some (s.setStatus block .live)
          else none
      | _ => none
  | .reassign block owner =>
      if s.status block = .stored then
        some { s with owner := Function.update s.owner block owner }
      else none
  | .write block value =>
      if s.status block = .live then some (s.setLink block value) else none
  | .freeLocal heap block value =>
      match s.pc heap with
      | .idle =>
          if s.owner block = heap ∧ s.status block = .live then
            some ((s.setLink block value).setStatus block .stored)
          else none
      | _ => none
  | .free heap block =>
      match s.pc heap with
      | .idle =>
          if s.owner block ≠ heap ∧ s.status block = .live then
            some (((s.setLink block 0).setStatus block .released).moveTo heap
              (.freeing block (s.owner block)))
          else none
      | _ => none
  | .flush heap =>
      match s.pc heap with
      | .idle =>
          if (s.batch heap).count = 0 ∨ (s.batch heap).targetTlh = 0 then some s
          else some (s.moveTo heap (.flushLoad .exit))
      | _ => none
  | .reap heap =>
      match s.pc heap with
      | .idle => some (s.detach heap)
      | _ => none
  | .step heap word => advance s heap word
  | .exchangeFails heap =>
      match s.pc heap with
      | .flushExchange after _ =>
          some (s.moveTo heap (.flushWrite after (s.mailbox (s.batch heap).targetTlh)))
      | _ => none

/-- No batch and no mailbox is in use; the blocks' words and owners are
arbitrary. -/
def remoteStart (next owner : Nat → Nat) : RemoteSys where
  next := next
  owner := owner
  mailbox := fun _ => 0
  batch := fun _ => {}
  pc := fun _ => .idle
  status := fun _ => .stored
  freed := fun _ => 0
  handed := fun _ => 0

/-! ## Invariant -/

/-- Where a released block is: in the call that frees it, in a batch, in a
mailbox or in the list that a reaping heap has detached. -/
inductive RemotePlace
  | call (heap : Nat)
  | batch (heap : Nat)
  | mail (heap : Nat)
  | reap (heap : Nat)
  deriving DecidableEq

def flights : Option RemotePlace → Nat
  | some (.batch _) => 1
  | some (.mail _) => 1
  | some (.reap _) => 1
  | _ => 0

section Clauses

variable (s : RemoteSys) (place : Nat → Option RemotePlace) (heap : Nat)

structure BatchOk : Prop where
  limit : (s.batch heap).count ≤ 64
  empty : (s.batch heap).count = 0 →
    (s.batch heap).head = 0 ∧ ∀ block, place block ≠ some (.batch heap)
  filled : 0 < (s.batch heap).count → (s.batch heap).targetTlh ≠ 0 ∧
    EndsAt s.next (s.batch heap).head (s.batch heap).tail
      (fun block => place block = some (.batch heap)) (s.batch heap).count

def NoReap : Prop := ∀ block, place block ≠ some (.reap heap)

def NoCall : Prop := ∀ block, place block ≠ some (.call heap)

def Calls (node : Nat) : Prop := ∀ block, place block = some (.call heap) ↔ block = node

def ThenOk : FlushThen → Prop
  | .exit => NoCall place heap
  | .enqueue node owner => Calls place heap node ∧ s.owner node = owner ∧ owner ≠ 0

structure Flushing (after : FlushThen) : Prop where
  filled : 0 < (s.batch heap).count
  reap : NoReap place heap
  after : ThenOk s place heap after

def PointOk : RemotePc → Prop
  | .idle => NoCall place heap ∧ NoReap place heap
  | .freeing node owner =>
      Calls place heap node ∧ NoReap place heap ∧ s.owner node = owner ∧ owner ≠ 0
  | .enqueueing node =>
      Calls place heap node ∧ NoReap place heap ∧ s.owner node = (s.batch heap).targetTlh ∧
        (s.batch heap).targetTlh ≠ 0 ∧ (s.batch heap).count < 64
  | .flushLoad after => Flushing s place heap after
  | .flushWrite after _ => Flushing s place heap after
  | .flushExchange after oldHead =>
      Flushing s place heap after ∧ s.next (s.batch heap).tail = oldHead
  | .reaping head => NoCall place heap ∧
      ∃ count, Enumerates s.next head (fun block => place block = some (.reap heap)) count

end Clauses

def OwnerOk (s : RemoteSys) (block : Nat) : RemotePlace → Prop
  | .call _ => True
  | .batch heap => s.owner block = (s.batch heap).targetTlh
  | .mail heap => s.owner block = heap
  | .reap heap => s.owner block = heap

structure RemoteInv (s : RemoteSys) (place : Nat → Option RemotePlace) : Prop where
  batches : ∀ heap, BatchOk s place heap
  mail : ∀ heap, ∃ count, Enumerates s.next (s.mailbox heap)
    (fun block => place block = some (.mail heap)) count
  points : ∀ heap, PointOk s place heap (s.pc heap)
  owners : ∀ block there, place block = some there → OwnerOk s block there
  released : ∀ block, s.status block = .released ↔ place block ≠ none
  live : ∀ block, s.status block = .live → block ≠ 0 ∧ s.owner block ≠ 0
  nonnull : ∀ block, place block ≠ none → block ≠ 0
  tally : ∀ block, s.freed block = s.handed block + flights (place block)

theorem remote_start_inv (next owner : Nat → Nat) :
    RemoteInv (remoteStart next owner) fun _ => none := by
  refine ⟨fun heap => ⟨Nat.zero_le _, fun _ => ⟨rfl, nofun⟩, ?_⟩, ?_, fun heap => ⟨nofun, nofun⟩,
    nofun, ?_, nofun, ?_, fun _ => rfl⟩
  · intro positive
    exact absurd positive (Nat.lt_irrefl 0)
  · intro heap
    exact ⟨0, enumerates_empty nofun⟩
  · intro block
    simp [remoteStart]
  · intro block there
    exact absurd rfl there

/-! ## What a step leaves to the other heaps -/

variable {s after : RemoteSys} {place moved : Nat → Option RemotePlace} {heap : Nat}
  {pc : RemotePc} {touched : Nat → Prop}

def HeldBy (heap : Nat) (there : Option RemotePlace) : Prop :=
  there = some (.call heap) ∨ there = some (.batch heap) ∨ there = some (.reap heap)

/-- A step of a heap works on blocks that are in no other heap's hands. -/
structure Touches (s after : RemoteSys) (place moved : Nat → Option RemotePlace) (heap : Nat)
    (touched : Nat → Prop) : Prop where
  places : ∀ block, ¬touched block → moved block = place block
  nexts : ∀ block, ¬touched block → place block ≠ none → after.next block = s.next block
  owners : ∀ block, place block ≠ none → after.owner block = s.owner block
  batches : ∀ rival, rival ≠ heap → after.batch rival = s.batch rival
  before : ∀ block, touched block → ∀ rival, rival ≠ heap → ¬HeldBy rival (place block)
  behind : ∀ block, touched block → ∀ rival, rival ≠ heap → ¬HeldBy rival (moved block)

theorem touches_held (touches : Touches s after place moved heap touched) {rival : Nat}
    (other : rival ≠ heap) {there : RemotePlace} (held : HeldBy rival (some there)) (block : Nat) :
    moved block = some there ↔ place block = some there := by
  by_cases here : touched block
  · refine iff_of_false (fun now => ?_) fun now => ?_
    · exact touches.behind block here rival other (now ▸ held)
    · exact touches.before block here rival other (now ▸ held)
  · rw [touches.places block here]

theorem touches_next (touches : Touches s after place moved heap touched) {rival : Nat}
    (other : rival ≠ heap) {block : Nat} (held : HeldBy rival (place block)) :
    after.next block = s.next block := by
  refine touches.nexts block (fun here => touches.before block here rival other held) ?_
  obtain there | there | there := held <;> simp [there]

theorem batch_frame (touches : Touches s after place moved heap touched) {rival : Nat}
    (other : rival ≠ heap) (ok : BatchOk s place rival) : BatchOk after moved rival := by
  have same := touches.batches rival other
  have members :=
    touches_held touches other (Or.inr (Or.inl rfl) : HeldBy rival (some (.batch rival)))
  refine ⟨?_, ?_, ?_⟩
  · rw [same]
    exact ok.limit
  · rw [same]
    intro zero
    obtain ⟨head, none⟩ := ok.empty zero
    exact ⟨head, fun block now => none block ((members block).mp now)⟩
  · rw [same]
    intro positive
    obtain ⟨target, chain⟩ := ok.filled positive
    refine ⟨target, ends_at_congr chain (fun block there _ => ?_) members⟩
    exact touches_next touches other (Or.inr (Or.inl there))

theorem point_frame (touches : Touches s after place moved heap touched) {rival : Nat}
    (other : rival ≠ heap) (batch : BatchOk s place rival) (ok : PointOk s place rival pc) :
    PointOk after moved rival pc := by
  have same := touches.batches rival other
  have calls := touches_held touches other (Or.inl rfl : HeldBy rival (some (.call rival)))
  have reaps := touches_held touches other (Or.inr (Or.inr rfl) : HeldBy rival (some (.reap rival)))
  have noCall : NoCall place rival → NoCall moved rival :=
    fun none block now => none block ((calls block).mp now)
  have noReap : NoReap place rival → NoReap moved rival :=
    fun none block now => none block ((reaps block).mp now)
  have one : ∀ node, Calls place rival node → Calls moved rival node :=
    fun node only block => (calls block).trans (only block)
  have owner : ∀ node, Calls place rival node → after.owner node = s.owner node :=
    fun node only => touches.owners node (by simp [(only node).mpr rfl])
  have thenOk : ∀ next, ThenOk s place rival next → ThenOk after moved rival next := by
    intro next known
    cases next with
    | exit => exact noCall known
    | enqueue node to_ => exact ⟨one node known.1, (owner node known.1).trans known.2.1, known.2.2⟩
  have flushing : ∀ next, Flushing s place rival next → Flushing after moved rival next := by
    intro next known
    exact ⟨same ▸ known.filled, noReap known.reap, thenOk next known.after⟩
  cases pc with
  | idle => exact ⟨noCall ok.1, noReap ok.2⟩
  | freeing node to_ =>
      exact ⟨one node ok.1, noReap ok.2.1, (owner node ok.1).trans ok.2.2.1, ok.2.2.2⟩
  | enqueueing node =>
      obtain ⟨only, none, target, nonzero, room⟩ := ok
      refine ⟨one node only, noReap none, ?_, ?_, ?_⟩
      · rw [owner node only, same]
        exact target
      · rw [same]
        exact nonzero
      · rw [same]
        exact room
  | flushLoad next => exact flushing next ok
  | flushWrite next oldHead => exact flushing next ok
  | flushExchange next oldHead =>
      obtain ⟨known, link⟩ := ok
      refine ⟨flushing next known, ?_⟩
      have tail := ends_at_tail (batch.filled known.filled).2
      rw [same, touches_next touches other (Or.inr (Or.inl tail))]
      exact link
  | reaping head =>
      obtain ⟨none, count, chain⟩ := ok
      refine ⟨noCall none, count, enumerates_congr chain (fun block there => ?_) reaps⟩
      exact touches_next touches other (Or.inr (Or.inr there))

theorem remote_step (inv : RemoteInv s place) (touches : Touches s after place moved heap touched)
    (pcs : after.pc = Function.update s.pc heap pc) (batch : BatchOk after moved heap)
    (mine : PointOk after moved heap pc)
    (mail : ∀ box, ∃ count, Enumerates after.next (after.mailbox box)
      (fun block => moved block = some (.mail box)) count)
    (owners : ∀ block there, moved block = some there → OwnerOk after block there)
    (released : ∀ block, after.status block = .released ↔ moved block ≠ none)
    (live : ∀ block, after.status block = .live → block ≠ 0 ∧ after.owner block ≠ 0)
    (nonnull : ∀ block, moved block ≠ none → block ≠ 0)
    (tally : ∀ block, after.freed block = after.handed block + flights (moved block)) :
    RemoteInv after moved := by
  refine ⟨fun rival => ?_, mail, fun rival => ?_, owners, released, live, nonnull, tally⟩
  · by_cases same : rival = heap
    · rw [same]
      exact batch
    · exact batch_frame touches same (inv.batches rival)
  · rw [pcs]
    by_cases same : rival = heap
    · rw [same, Function.update_self]
      exact mine
    · rw [Function.update_of_ne same]
      exact point_frame touches same (inv.batches rival) (inv.points rival)

/-! ## Steps that move no block -/

theorem mail_frame (inv : RemoteInv s place) (mailbox : after.mailbox = s.mailbox)
    (places : ∀ block box, moved block = some (.mail box) ↔ place block = some (.mail box))
    (next : ∀ block box, place block = some (.mail box) → after.next block = s.next block)
    (box : Nat) : ∃ count, Enumerates after.next (after.mailbox box)
      (fun block => moved block = some (.mail box)) count := by
  obtain ⟨count, chain⟩ := inv.mail box
  rw [mailbox]
  exact ⟨count, enumerates_congr chain (fun block there => next block box there)
    fun block => places block box⟩

/-- A step of a client or of an owner's free logic on a block that is not on its
way anywhere. -/
theorem remote_client (inv : RemoteInv s place)
    (next : ∀ block, place block ≠ none → after.next block = s.next block)
    (owner : ∀ block, place block ≠ none → after.owner block = s.owner block)
    (mailbox : after.mailbox = s.mailbox) (batch : after.batch = s.batch) (pcs : after.pc = s.pc)
    (freed : after.freed = s.freed) (handed : after.handed = s.handed)
    (released : ∀ block, after.status block = .released ↔ s.status block = .released)
    (live : ∀ block, after.status block = .live → block ≠ 0 ∧ after.owner block ≠ 0) :
    RemoteInv after place := by
  have touches : ∀ heap, Touches s after place place heap fun _ => False := fun heap =>
    ⟨fun _ _ => rfl, fun block _ => next block, owner, fun rival _ => by rw [batch], nofun, nofun⟩
  refine ⟨fun heap => ?_, ?_, fun heap => ?_, ?_, ?_, live, inv.nonnull, ?_⟩
  · exact batch_frame (touches (heap + 1)) (by omega) (inv.batches heap)
  · refine mail_frame inv mailbox (fun _ _ => Iff.rfl) fun block box there => ?_
    exact next block (by simp [there])
  · rw [pcs]
    exact point_frame (touches (heap + 1)) (by omega) (inv.batches heap) (inv.points heap)
  · intro block there placed
    have same := owner block (by simp [placed])
    have known := inv.owners block there placed
    cases there with
    | call _ => trivial
    | batch _ =>
        simp only [OwnerOk, same, batch]
        exact known
    | mail _ => exact same.trans known
    | reap _ => exact same.trans known
  · intro block
    rw [released block, inv.released block]
  · intro block
    rw [freed, handed]
    exact inv.tally block

theorem remote_move (inv : RemoteInv s place) (mine : PointOk s place heap pc) :
    RemoteInv (s.moveTo heap pc) place := by
  have touches : Touches s (s.moveTo heap pc) place place heap fun _ => False :=
    ⟨fun _ _ => rfl, fun _ _ _ => rfl, fun _ _ => rfl, fun _ _ => rfl, nofun, nofun⟩
  have batch := inv.batches heap
  refine remote_step inv touches rfl ⟨batch.limit, batch.empty, batch.filled⟩ ?_ inv.mail inv.owners
    inv.released inv.live inv.nonnull inv.tally
  cases pc with
  | idle => exact mine
  | freeing node owner => exact mine
  | enqueueing node => exact mine
  | flushLoad next => exact ⟨mine.filled, mine.reap, by cases next <;> exact mine.after⟩
  | flushWrite next oldHead => exact ⟨mine.filled, mine.reap, by cases next <;> exact mine.after⟩
  | flushExchange next oldHead =>
      exact ⟨⟨mine.1.filled, mine.1.reap, by cases next <;> exact mine.1.after⟩, mine.2⟩
  | reaping head => exact mine

theorem unplaced (inv : RemoteInv s place) {block : Nat} (status : s.status block ≠ .released) :
    place block = none := by
  by_contra there
  exact status ((inv.released block).mpr there)

theorem link_elsewhere {block : Nat} (outside : place block = none) (value : Nat) (other : Nat)
    (there : place other ≠ none) : Function.update s.next block value other = s.next other := by
  refine Function.update_of_ne ?_ ..
  rintro rfl
  exact there outside

theorem remote_alloc (inv : RemoteInv s place) {block : Nat} (heapNonzero : heap ≠ 0)
    (nonnull : block ≠ 0) (owner : s.owner block = heap) (stored : s.status block = .stored) :
    RemoteInv (s.setStatus block .live) place := by
  refine remote_client inv (fun _ _ => rfl) (fun _ _ => rfl) rfl rfl rfl rfl rfl ?_ ?_
  · intro other
    by_cases same : other = block
    · simp [RemoteSys.setStatus, same, stored]
    · simp [RemoteSys.setStatus, same]
  · intro other status
    by_cases same : other = block
    · subst same
      exact ⟨nonnull, owner ▸ heapNonzero⟩
    · simp only [RemoteSys.setStatus, Function.update_of_ne same] at status
      exact inv.live other status

theorem remote_reassign (inv : RemoteInv s place) {block owner : Nat}
    (stored : s.status block = .stored) :
    RemoteInv { s with owner := Function.update s.owner block owner } place := by
  have outside := unplaced inv (by simp [stored] : s.status block ≠ .released)
  refine remote_client inv (fun _ _ => rfl) ?_ rfl rfl rfl rfl rfl (fun _ => Iff.rfl) ?_
  · intro other there
    refine Function.update_of_ne ?_ ..
    rintro rfl
    exact there outside
  · intro other status
    have different : other ≠ block := by
      rintro rfl
      simp [stored] at status
    simp only [Function.update_of_ne different]
    exact inv.live other status

theorem remote_write (inv : RemoteInv s place) {block : Nat} (status : s.status block = .live)
    (value : Nat) : RemoteInv (s.setLink block value) place := by
  have outside := unplaced inv (by simp [status] : s.status block ≠ .released)
  exact remote_client inv (link_elsewhere outside value) (fun _ _ => rfl) rfl rfl rfl rfl rfl
    (fun _ => Iff.rfl) inv.live

theorem remote_free_local (inv : RemoteInv s place) {block : Nat} (status : s.status block = .live)
    (value : Nat) : RemoteInv ((s.setLink block value).setStatus block .stored) place := by
  have outside := unplaced inv (by simp [status] : s.status block ≠ .released)
  refine remote_client inv (link_elsewhere outside value) (fun _ _ => rfl) rfl rfl rfl rfl rfl ?_ ?_
  · intro other
    by_cases same : other = block
    · simp [RemoteSys.setStatus, RemoteSys.setLink, same, status]
    · simp [RemoteSys.setStatus, RemoteSys.setLink, same]
  · intro other now
    by_cases same : other = block
    · simp [RemoteSys.setStatus, same] at now
    · simp only [RemoteSys.setStatus, RemoteSys.setLink, Function.update_of_ne same] at now
      exact inv.live other now

theorem remote_write_tail (inv : RemoteInv s place) {next : FlushThen} {oldHead : Nat}
    (at_ : s.pc heap = .flushWrite next oldHead) :
    RemoteInv ((s.setLink (s.batch heap).tail oldHead).moveTo heap (.flushExchange next oldHead))
      place := by
  have known : Flushing s place heap next := by
    have point := inv.points heap
    rw [at_] at point
    exact point
  have batch := inv.batches heap
  obtain ⟨target, chain⟩ := batch.filled known.filled
  have tail := ends_at_tail chain
  have elsewhere : ∀ block, place block ≠ some (.batch heap) →
      Function.update s.next (s.batch heap).tail oldHead block = s.next block := by
    intro block other
    refine Function.update_of_ne ?_ ..
    rintro rfl
    exact other tail
  have touches : Touches s
      ((s.setLink (s.batch heap).tail oldHead).moveTo heap (.flushExchange next oldHead))
      place place heap (· = (s.batch heap).tail) := by
    refine ⟨fun _ _ => rfl, fun block other _ => Function.update_of_ne other .., fun _ _ => rfl,
      fun _ _ => rfl, ?_, ?_⟩
    · rintro block rfl rival other
      simp [HeldBy, tail, Ne.symm other]
    · rintro block rfl rival other
      simp [HeldBy, tail, Ne.symm other]
  refine remote_step inv touches rfl ⟨batch.limit, batch.empty, fun _ => ⟨target, ?_⟩⟩ ⟨?_, ?_⟩ ?_
    inv.owners inv.released inv.live inv.nonnull inv.tally
  · exact ends_at_congr chain (fun block _ other => Function.update_of_ne other ..) fun _ => Iff.rfl
  · exact ⟨known.filled, known.reap, by cases next <;> exact known.after⟩
  · exact Function.update_self ..
  · refine mail_frame inv rfl (fun _ _ => Iff.rfl) fun block box there => elsewhere block ?_
    simp [there]

/-! ## Freeing -/

theorem calls_update (none : NoCall place heap) (block : Nat) :
    Calls (Function.update place block (some (.call heap))) heap block := by
  intro other
  by_cases same : other = block
  · subst same
    simp
  · simp only [Function.update_of_ne same]
    exact iff_of_false (none other) same

theorem remote_free (inv : RemoteInv s place) {block : Nat} (idle : s.pc heap = .idle)
    (status : s.status block = .live) :
    RemoteInv (((s.setLink block 0).setStatus block .released).moveTo heap
        (.freeing block (s.owner block)))
      (Function.update place block (some (.call heap))) := by
  obtain ⟨noCall, noReap⟩ : NoCall place heap ∧ NoReap place heap := by
    have point := inv.points heap
    rw [idle] at point
    exact point
  have outside := unplaced inv (by simp [status] : s.status block ≠ .released)
  obtain ⟨nonnull, owned⟩ := inv.live block status
  have others : ∀ other, other ≠ block →
      Function.update place block (some (.call heap)) other = place other :=
    fun other different => Function.update_of_ne different ..
  have apart : ∀ other there, place other = some there → other ≠ block := by
    rintro other there placed rfl
    rw [outside] at placed
    cases placed
  have same : ∀ other there, there ≠ .call heap →
      (Function.update place block (some (.call heap)) other = some there ↔
        place other = some there) := by
    intro other there different
    by_cases here : other = block
    · subst here
      rw [Function.update_self, outside]
      exact iff_of_false (fun equal => different (Option.some.inj equal).symm) nofun
    · rw [others other here]
  have touches : Touches s (((s.setLink block 0).setStatus block .released).moveTo heap
      (.freeing block (s.owner block))) place (Function.update place block (some (.call heap))) heap
      (· = block) := by
    refine ⟨others, fun other different _ => Function.update_of_ne different .., fun _ _ => rfl,
      fun _ _ => rfl, ?_, ?_⟩
    · rintro other rfl rival _
      simp [HeldBy, outside]
    · rintro other rfl rival different
      simp [HeldBy, Ne.symm different]
  have batch := inv.batches heap
  refine remote_step inv touches rfl ⟨batch.limit, fun zero => ?_, fun positive => ?_⟩
    ⟨calls_update noCall block, ?_, rfl, owned⟩ ?_ ?_ ?_ ?_ ?_ ?_
  · refine ⟨(batch.empty zero).1, fun other now => ?_⟩
    exact (batch.empty zero).2 other ((same other (.batch heap) nofun).mp now)
  · obtain ⟨target, chain⟩ := batch.filled positive
    refine ⟨target, ends_at_congr chain (fun other there _ => ?_) fun other => same other _ nofun⟩
    exact Function.update_of_ne (apart other _ there) ..
  · intro other now
    exact noReap other ((same other (.reap heap) nofun).mp now)
  · refine mail_frame inv rfl (fun other box => same other _ nofun) fun other box there => ?_
    exact Function.update_of_ne (apart other _ there) ..
  · intro other there placed
    by_cases here : other = block
    · subst here
      rw [Function.update_self] at placed
      cases placed
      trivial
    · rw [others other here] at placed
      have known := inv.owners other there placed
      cases there <;> exact known
  · intro other
    by_cases here : other = block
    · simp [RemoteSys.moveTo, RemoteSys.setStatus, here]
    · simp only [RemoteSys.moveTo, RemoteSys.setStatus, RemoteSys.setLink,
        Function.update_of_ne here]
      exact inv.released other
  · intro other now
    by_cases here : other = block
    · simp [RemoteSys.moveTo, RemoteSys.setStatus, here] at now
    · simp only [RemoteSys.moveTo, RemoteSys.setStatus, RemoteSys.setLink,
        Function.update_of_ne here] at now
      exact inv.live other now
  · intro other there
    by_cases here : other = block
    · exact here ▸ nonnull
    · rw [others other here] at there
      exact inv.nonnull other there
  · intro other
    by_cases here : other = block
    · subst here
      have tally := inv.tally other
      rw [outside] at tally
      rw [Function.update_self]
      exact tally
    · rw [others other here]
      exact inv.tally other

theorem remote_target (inv : RemoteInv s place) {node owner : Nat}
    (at_ : s.pc heap = .freeing node owner)
    (skipped : (s.batch heap).count = 0 ∨ (s.batch heap).targetTlh = 0) :
    RemoteInv ((s.setBatch heap { s.batch heap with targetTlh := owner }).moveTo heap
      (.enqueueing node)) place := by
  obtain ⟨calls, noReap, owned, nonzero⟩ : PointOk s place heap (.freeing node owner) :=
    at_ ▸ inv.points heap
  have batch := inv.batches heap
  have empty : (s.batch heap).count = 0 := by
    obtain zero | target := skipped
    · exact zero
    · by_contra positive
      exact (batch.filled (Nat.pos_of_ne_zero positive)).1 target
  obtain ⟨head, none⟩ := batch.empty empty
  have touches : Touches s ((s.setBatch heap { s.batch heap with targetTlh := owner }).moveTo heap
      (.enqueueing node)) place place heap fun _ => False :=
    ⟨fun _ _ => rfl, fun _ _ _ => rfl, fun _ _ => rfl,
      fun rival other => Function.update_of_ne other .., nofun, nofun⟩
  refine remote_step inv touches rfl ⟨?_, ?_, ?_⟩ ⟨calls, noReap, ?_, ?_, ?_⟩ inv.mail ?_
    inv.released inv.live inv.nonnull inv.tally
  · simp [RemoteSys.moveTo, RemoteSys.setBatch, empty]
  · intro _
    simp only [RemoteSys.moveTo, RemoteSys.setBatch, Function.update_self]
    exact ⟨head, none⟩
  · intro positive
    simp [RemoteSys.moveTo, RemoteSys.setBatch, empty] at positive
  · simp only [RemoteSys.moveTo, RemoteSys.setBatch, Function.update_self]
    exact owned
  · simp only [RemoteSys.moveTo, RemoteSys.setBatch, Function.update_self]
    exact nonzero
  · simp [RemoteSys.moveTo, RemoteSys.setBatch, empty]
  · intro block there placed
    have known := inv.owners block there placed
    cases there with
    | call _ => trivial
    | batch other =>
        have different : other ≠ heap := by
          rintro rfl
          exact none block placed
        simp only [OwnerOk, RemoteSys.moveTo, RemoteSys.setBatch, Function.update_of_ne different]
        exact known
    | mail _ => exact known
    | reap _ => exact known

theorem remote_enqueue (inv : RemoteInv s place) {node : Nat} (at_ : s.pc heap = .enqueueing node) :
    RemoteInv (s.enqueue heap node) (Function.update place node (some (.batch heap))) := by
  obtain ⟨calls, noReap, owned, nonzero, room⟩ : PointOk s place heap (.enqueueing node) :=
    at_ ▸ inv.points heap
  have start := (calls node).mpr rfl
  have nonnull := inv.nonnull node (by simp [start])
  have others : ∀ other, other ≠ node →
      Function.update place node (some (.batch heap)) other = place other :=
    fun other different => Function.update_of_ne different ..
  have apart : ∀ other there, place other = some there → there ≠ .call heap → other ≠ node := by
    rintro other there placed different rfl
    rw [start] at placed
    exact different (Option.some.inj placed).symm
  have same : ∀ other there, there ≠ .call heap → there ≠ .batch heap →
      (Function.update place node (some (.batch heap)) other = some there ↔
        place other = some there) := by
    intro other there notCall notBatch
    by_cases here : other = node
    · subst here
      rw [Function.update_self, start]
      exact iff_of_false (fun equal => notBatch (Option.some.inj equal).symm)
        (fun equal => notCall (Option.some.inj equal).symm)
    · rw [others other here]
  have count : ((s.batch heap).count + 1) % 2 ^ 32 = (s.batch heap).count + 1 := by omega
  have members : ∀ other, Function.update place node (some (.batch heap)) other =
      some (.batch heap) ↔ other = node ∨ place other = some (.batch heap) := by
    intro other
    by_cases here : other = node
    · simp [here]
    · simp [here]
  have touches : Touches s (s.enqueue heap node) place
      (Function.update place node (some (.batch heap))) heap (· = node) := by
    refine ⟨others, fun other different _ => Function.update_of_ne different .., fun _ _ => rfl,
      fun rival different => Function.update_of_ne different .., ?_, ?_⟩
    · rintro other rfl rival different
      simp [HeldBy, start, Ne.symm different]
    · rintro other rfl rival different
      simp [HeldBy, Ne.symm different]
  have batch := inv.batches heap
  refine remote_step inv touches rfl ⟨?_, ?_, ?_⟩ ⟨?_, ?_⟩ ?_ ?_ ?_ inv.live ?_ ?_
  · simp only [RemoteSys.enqueue, RemoteSys.moveTo, RemoteSys.setBatch, Function.update_self, count]
    omega
  · intro zero
    simp only [RemoteSys.enqueue, RemoteSys.moveTo, RemoteSys.setBatch, Function.update_self, count]
      at zero
    omega
  · intro _
    simp only [RemoteSys.enqueue, RemoteSys.moveTo, RemoteSys.setBatch, RemoteSys.setLink,
      Function.update_self, count]
    refine ⟨nonzero, ?_⟩
    by_cases zero : (s.batch heap).count = 0
    · simp only [zero, if_true]
      refine ends_at_single nonnull fun other => ?_
      rw [members other]
      simp [(batch.empty zero).2 other]
    · rw [if_neg zero]
      obtain ⟨_, chain⟩ := batch.filled (Nat.pos_of_ne_zero zero)
      have fresh : ¬place node = some (.batch heap) := by simp [start]
      refine ends_at_push chain nonnull fresh (Function.update_self ..) (fun old there _ => ?_)
        members
      exact Function.update_of_ne (apart old _ there nofun) ..
  · intro other now
    by_cases here : other = node
    · subst here
      simp at now
    · rw [others other here] at now
      exact here ((calls other).mp now)
  · intro other now
    exact noReap other ((same other (.reap heap) nofun nofun).mp now)
  · refine mail_frame inv rfl (fun other box => same other (.mail box) nofun nofun)
      fun other box there => ?_
    exact Function.update_of_ne (apart other _ there nofun) ..
  · intro other there placed
    by_cases here : other = node
    · subst here
      rw [Function.update_self] at placed
      cases placed
      simp only [OwnerOk, RemoteSys.enqueue, RemoteSys.moveTo, RemoteSys.setBatch,
        RemoteSys.setLink,
        Function.update_self]
      exact owned
    · rw [others other here] at placed
      have known := inv.owners other there placed
      cases there with
      | call _ => trivial
      | batch rival =>
          simp only [OwnerOk, RemoteSys.enqueue, RemoteSys.moveTo, RemoteSys.setBatch,
            RemoteSys.setLink]
          by_cases own : rival = heap
          · subst own
            rw [Function.update_self]
            exact known
          · rw [Function.update_of_ne own]
            exact known
      | mail _ => exact known
      | reap _ => exact known
  · intro other
    refine (inv.released other).trans ?_
    by_cases here : other = node
    · simp [here, start]
    · rw [others other here]
  · intro other there
    by_cases here : other = node
    · exact here ▸ nonnull
    · rw [others other here] at there
      exact inv.nonnull other there
  · intro other
    by_cases here : other = node
    · subst here
      have tally := inv.tally other
      rw [start] at tally
      simp only [RemoteSys.enqueue, Function.update_self]
      exact congrArg (· + 1) tally
    · simp only [RemoteSys.enqueue, Function.update_of_ne here]
      exact inv.tally other

/-! ## Delivery -/

def carried (place : Nat → Option RemotePlace) (from_ to_ : RemotePlace) (block : Nat) :
    Option RemotePlace :=
  if place block = some from_ then some to_ else place block

theorem carried_here {from_ to_ : RemotePlace} {block : Nat} (here : place block = some from_) :
    carried place from_ to_ block = some to_ := if_pos here

theorem carried_other {from_ to_ : RemotePlace} {block : Nat} (other : place block ≠ some from_) :
    carried place from_ to_ block = place block := if_neg other

theorem carried_iff {from_ to_ there : RemotePlace} (notFrom : there ≠ from_) (notTo : there ≠ to_)
    (block : Nat) : carried place from_ to_ block = some there ↔ place block = some there := by
  by_cases here : place block = some from_
  · rw [carried_here here, here]
    exact iff_of_false (fun equal => notTo (Option.some.inj equal).symm)
      (fun equal => notFrom (Option.some.inj equal).symm)
  · rw [carried_other here]

theorem carried_to {from_ to_ : RemotePlace} (block : Nat) :
    carried place from_ to_ block = some to_ ↔
      place block = some from_ ∨ place block = some to_ := by
  by_cases here : place block = some from_
  · simp [carried_here here, here]
  · simp [carried_other here, here]

theorem carried_none {from_ to_ : RemotePlace} (block : Nat) :
    carried place from_ to_ block ≠ none ↔ place block ≠ none := by
  by_cases here : place block = some from_
  · simp [carried_here here, here]
  · rw [carried_other here]

theorem carried_flights {from_ to_ : RemotePlace}
    (same : flights (some to_) = flights (some from_)) (block : Nat) :
    flights (carried place from_ to_ block) = flights (place block) := by
  by_cases here : place block = some from_
  · rw [carried_here here, here, same]
  · rw [carried_other here]

theorem remote_detach (inv : RemoteInv s place) (idle : s.pc heap = .idle) :
    RemoteInv (s.detach heap) (carried place (.mail heap) (.reap heap)) := by
  obtain ⟨noCall, noReap⟩ : NoCall place heap ∧ NoReap place heap := by
    have point := inv.points heap
    rw [idle] at point
    exact point
  have touches : Touches s (s.detach heap) place (carried place (.mail heap) (.reap heap)) heap
      fun block => place block = some (.mail heap) := by
    refine ⟨fun block other => carried_other other, fun _ _ _ => rfl, fun _ _ => rfl,
      fun _ _ => rfl, ?_, ?_⟩
    · intro block here rival _
      simp [HeldBy, here]
    · intro block here rival other
      simp [HeldBy, carried_here here, Ne.symm other]
  have batch := inv.batches heap
  have members : ∀ block, carried place (.mail heap) (.reap heap) block = some (.batch heap) ↔
      place block = some (.batch heap) := carried_iff nofun nofun
  have calls : ∀ block, carried place (.mail heap) (.reap heap) block = some (.call heap) ↔
      place block = some (.call heap) := carried_iff nofun nofun
  refine remote_step inv touches rfl ⟨batch.limit, fun zero => ?_, fun positive => ?_⟩
    ⟨?_, ?_⟩ ?_ ?_
    (fun block => (inv.released block).trans (carried_none block).symm) inv.live
    (fun block there => inv.nonnull block ((carried_none block).mp there)) ?_
  · exact ⟨(batch.empty zero).1, fun block now => (batch.empty zero).2 block
      ((members block).mp now)⟩
  · obtain ⟨target, chain⟩ := batch.filled positive
    exact ⟨target, ends_at_congr chain (fun _ _ _ => rfl) members⟩
  · intro block now
    exact noCall block ((calls block).mp now)
  · obtain ⟨count, chain⟩ := inv.mail heap
    refine ⟨count, enumerates_congr chain (fun _ _ => rfl) fun block => ?_⟩
    rw [carried_to]
    simp [noReap block]
  · intro box
    by_cases own : box = heap
    · subst own
      simp only [RemoteSys.detach, Function.update_self]
      refine ⟨0, enumerates_empty fun block now => ?_⟩
      by_cases here : place block = some (.mail box)
      · simp [carried_here here] at now
      · rw [carried_other here] at now
        exact here now
    · obtain ⟨count, chain⟩ := inv.mail box
      simp only [RemoteSys.detach, Function.update_of_ne own]
      refine ⟨count, enumerates_congr chain (fun _ _ => rfl) fun block => ?_⟩
      exact carried_iff (fun equal => own (RemotePlace.mail.inj equal))
        (nofun : RemotePlace.mail box ≠ .reap heap) block
  · intro block there placed
    by_cases here : place block = some (.mail heap)
    · rw [carried_here here] at placed
      cases placed
      have known : s.owner block = heap := inv.owners block _ here
      exact known
    · rw [carried_other here] at placed
      have known := inv.owners block there placed
      cases there <;> exact known
  · intro block
    have same : flights (some (.reap heap)) = flights (some (.mail heap)) := rfl
    rw [carried_flights same]
    exact inv.tally block

theorem remote_hand (inv : RemoteInv s place) {head word : Nat} (at_ : s.pc heap = .reaping head)
    (nonnull : head ≠ 0) :
    RemoteInv (s.handOver heap head word) (Function.update place head none) := by
  obtain ⟨noCall, count, chain⟩ : PointOk s place heap (.reaping head) := at_ ▸ inv.points heap
  have start : place head = some (.reap heap) := by
    have first := enumerates_head chain nonnull
    exact first
  have others : ∀ other, other ≠ head → Function.update place head none other = place other :=
    fun other different => Function.update_of_ne different ..
  have apart : ∀ other there, place other = some there → there ≠ .reap heap → other ≠ head := by
    rintro other there placed different rfl
    rw [start] at placed
    exact different (Option.some.inj placed).symm
  have same : ∀ other there, there ≠ .reap heap →
      (Function.update place head none other = some there ↔ place other = some there) := by
    intro other there different
    by_cases here : other = head
    · subst here
      rw [Function.update_self, start]
      exact iff_of_false nofun (fun equal => different (Option.some.inj equal).symm)
    · rw [others other here]
  have touches : Touches s (s.handOver heap head word) place (Function.update place head none) heap
      (· = head) := by
    refine ⟨others, fun other different _ => Function.update_of_ne different .., fun _ _ => rfl,
      fun _ _ => rfl, ?_, ?_⟩
    · rintro other rfl rival different
      simp [HeldBy, start, Ne.symm different]
    · rintro other rfl rival different
      simp [HeldBy]
  have batch := inv.batches heap
  refine remote_step inv touches rfl ⟨batch.limit, fun zero => ?_, fun positive => ?_⟩
    ⟨?_, count - 1, ?_⟩ ?_ ?_ ?_ ?_ ?_ ?_
  · exact ⟨(batch.empty zero).1, fun block now => (batch.empty zero).2 block
      ((same block (.batch heap) nofun).mp now)⟩
  · obtain ⟨target, ends⟩ := batch.filled positive
    refine ⟨target, ends_at_congr ends (fun block there _ => ?_) fun block =>
      same block (.batch heap) nofun⟩
    exact Function.update_of_ne (apart block _ there nofun) ..
  · intro block now
    exact noCall block ((same block (.call heap) nofun).mp now)
  · refine (enumerates_pop chain nonnull (fun old _ other => Function.update_of_ne other ..)
      fun block => ?_).2
    by_cases here : block = head
    · simp [here]
    · simp [here]
  · refine mail_frame inv rfl (fun block box => same block (.mail box) nofun) ?_
    intro block box there
    exact Function.update_of_ne (apart block _ there nofun) ..
  · intro block there placed
    have before : place block = some there := by
      by_cases here : block = head
      · subst here
        simp at placed
      · rwa [others block here] at placed
    have known := inv.owners block there before
    cases there <;> exact known
  · intro block
    by_cases here : block = head
    · simp [RemoteSys.handOver, RemoteSys.moveTo, RemoteSys.setStatus, here]
    · simp only [RemoteSys.handOver, RemoteSys.moveTo, RemoteSys.setStatus, RemoteSys.setLink,
        Function.update_of_ne here]
      exact inv.released block
  · intro block now
    by_cases here : block = head
    · simp [RemoteSys.handOver, RemoteSys.moveTo, RemoteSys.setStatus, here] at now
    · simp only [RemoteSys.handOver, RemoteSys.moveTo, RemoteSys.setStatus, RemoteSys.setLink,
        Function.update_of_ne here] at now
      exact inv.live block now
  · intro block there
    by_cases here : block = head
    · exact here ▸ nonnull
    · rw [others block here] at there
      exact inv.nonnull block there
  · intro block
    by_cases here : block = head
    · subst here
      have tally := inv.tally block
      rw [start] at tally
      simp only [RemoteSys.handOver, Function.update_self]
      exact tally
    · simp only [RemoteSys.handOver, Function.update_of_ne here]
      exact inv.tally block

/-- The exchange that publishes a batch. Whatever happened to the mailbox since
the old head was loaded, the tail links to its present head. -/
theorem remote_publish (inv : RemoteInv s place) {next : FlushThen} {oldHead : Nat}
    (at_ : s.pc heap = .flushExchange next oldHead)
    (expected : s.mailbox (s.batch heap).targetTlh = oldHead) :
    RemoteInv (RemoteSys.finishFlush
        { s with mailbox := Function.update s.mailbox (s.batch heap).targetTlh (s.batch heap).head }
        heap next)
      (carried place (.batch heap) (.mail (s.batch heap).targetTlh)) := by
  obtain ⟨known, link⟩ : PointOk s place heap (.flushExchange next oldHead) := at_ ▸ inv.points heap
  obtain ⟨filled, noReap, thenOk⟩ := known
  obtain ⟨nonzero, chain⟩ := (inv.batches heap).filled filled
  obtain ⟨box, boxEq⟩ : ∃ box, (s.batch heap).targetTlh = box := ⟨_, rfl⟩
  rw [boxEq] at expected nonzero ⊢
  -- Both ways to go on reset the batch and leave the rest alone.
  obtain ⟨target, pc, finish, mine⟩ : ∃ target pc, RemoteSys.finishFlush
      { s with mailbox := Function.update s.mailbox box (s.batch heap).head } heap next =
        (RemoteSys.setBatch { s with mailbox := Function.update s.mailbox box (s.batch heap).head }
          heap { targetTlh := target }).moveTo heap pc ∧
      (pc = .idle ∧ NoCall place heap ∨ ∃ node, pc = .enqueueing node ∧ Calls place heap node ∧
        s.owner node = target ∧ target ≠ 0) := by
    cases next with
    | exit => exact ⟨0, .idle, rfl, Or.inl ⟨rfl, thenOk⟩⟩
    | enqueue node owner =>
        exact ⟨owner, .enqueueing node, rfl, Or.inr ⟨node, rfl, thenOk⟩⟩
  rw [finish]
  have touches : Touches s ((RemoteSys.setBatch
      { s with mailbox := Function.update s.mailbox box (s.batch heap).head }
      heap { targetTlh := target }).moveTo heap pc) place (carried place (.batch heap) (.mail box))
      heap fun block => place block = some (.batch heap) := by
    refine ⟨fun block other => carried_other other, fun _ _ _ => rfl, fun _ _ => rfl,
      fun rival other => Function.update_of_ne other .., ?_, ?_⟩
    · intro block here rival other
      simp [HeldBy, here, Ne.symm other]
    · intro block here rival other
      simp [HeldBy, carried_here here]
  have calls : ∀ block, carried place (.batch heap) (.mail box) block = some (.call heap) ↔
      place block = some (.call heap) := carried_iff nofun nofun
  have reaps : ∀ block, carried place (.batch heap) (.mail box) block = some (.reap heap) ↔
      place block = some (.reap heap) := carried_iff nofun nofun
  have gone : ∀ block, carried place (.batch heap) (.mail box) block ≠ some (.batch heap) := by
    intro block now
    by_cases here : place block = some (.batch heap)
    · simp [carried_here here] at now
    · rw [carried_other here] at now
      exact here now
  have noReapNow : NoReap (carried place (.batch heap) (.mail box)) heap :=
    fun block now => noReap block ((reaps block).mp now)
  refine remote_step inv touches rfl ⟨?_, ?_, ?_⟩ ?_ ?_ ?_
    (fun block => (inv.released block).trans (carried_none block).symm) inv.live
    (fun block there => inv.nonnull block ((carried_none block).mp there)) ?_
  · simp [RemoteSys.moveTo, RemoteSys.setBatch]
  · intro _
    simp only [RemoteSys.moveTo, RemoteSys.setBatch, Function.update_self, true_and]
    exact gone
  · intro positive
    simp [RemoteSys.moveTo, RemoteSys.setBatch] at positive
  · obtain ⟨rfl, noCall⟩ | ⟨node, rfl, only, owned, targetNonzero⟩ := mine
    · exact ⟨fun block now => noCall block ((calls block).mp now), noReapNow⟩
    · refine ⟨fun block => (calls block).trans (only block), noReapNow, ?_, ?_, ?_⟩
      · simp only [RemoteSys.moveTo, RemoteSys.setBatch, Function.update_self]
        exact owned
      · simp only [RemoteSys.moveTo, RemoteSys.setBatch, Function.update_self]
        exact targetNonzero
      · simp [RemoteSys.moveTo, RemoteSys.setBatch]
  · intro other
    simp only [RemoteSys.moveTo, RemoteSys.setBatch]
    by_cases same : other = box
    · subst same
      rw [Function.update_self]
      obtain ⟨count, mail⟩ := inv.mail other
      refine ⟨_, enumerates_splice chain mail ?_ (link.trans expected.symm) carried_to⟩
      intro block here there
      rw [here] at there
      cases there
    · obtain ⟨count, mail⟩ := inv.mail other
      rw [Function.update_of_ne same]
      refine ⟨count, enumerates_congr mail (fun _ _ => rfl) fun block => ?_⟩
      exact carried_iff (nofun : RemotePlace.mail other ≠ .batch heap)
        (fun equal => same (RemotePlace.mail.inj equal)) block
  · intro block there placed
    by_cases here : place block = some (.batch heap)
    · rw [carried_here here] at placed
      cases placed
      have owned : s.owner block = (s.batch heap).targetTlh := inv.owners block _ here
      exact owned.trans boxEq
    · rw [carried_other here] at placed
      have owned := inv.owners block there placed
      cases there with
      | call _ => trivial
      | batch rival =>
          have different : rival ≠ heap := by
            rintro rfl
            exact here placed
          simp only [OwnerOk, RemoteSys.moveTo, RemoteSys.setBatch,
            Function.update_of_ne different]
          exact owned
      | mail _ => exact owned
      | reap _ => exact owned
  · intro block
    have same : flights (some (.mail box)) = flights (some (.batch heap)) := rfl
    rw [carried_flights same]
    exact inv.tally block

/-! ## Runs -/

theorem remote_advance (inv : RemoteInv s place) {word : Nat}
    (stepped : advance s heap word = some after) : ∃ moved, RemoteInv after moved := by
  have point := inv.points heap
  unfold advance at stepped
  cases at_ : s.pc heap with
  | idle => simp [at_] at stepped
  | freeing node owner =>
      rw [at_] at point
      obtain ⟨calls, noReap, owned, nonzero⟩ := point
      simp only [at_] at stepped
      split at stepped
      · split at stepped
        · rename_i skipped
          cases stepped
          exact ⟨place, remote_target inv at_ skipped⟩
        · rename_i full
          obtain ⟨filled, _⟩ := not_or.mp full
          cases stepped
          exact ⟨place, remote_move inv ⟨Nat.pos_of_ne_zero filled, noReap, calls, owned, nonzero⟩⟩
      · rename_i room
        obtain ⟨target, below⟩ := not_or.mp room
        have target : (s.batch heap).targetTlh = owner := not_not.mp target
        cases stepped
        refine ⟨place, remote_move inv ⟨calls, noReap, owned.trans target.symm, ?_, ?_⟩⟩
        · rw [target]
          exact nonzero
        · exact Nat.lt_of_not_le below
  | enqueueing node =>
      simp only [at_] at stepped
      cases stepped
      exact ⟨_, remote_enqueue inv at_⟩
  | flushLoad next =>
      rw [at_] at point
      simp only [at_] at stepped
      cases stepped
      exact ⟨place, remote_move inv point⟩
  | flushWrite next oldHead =>
      simp only [at_] at stepped
      cases stepped
      exact ⟨place, remote_write_tail inv at_⟩
  | flushExchange next oldHead =>
      simp only [at_] at stepped
      split at stepped
      · rename_i expected
        cases stepped
        exact ⟨_, remote_publish inv at_ expected⟩
      · cases stepped
  | reaping head =>
      rw [at_] at point
      simp only [at_] at stepped
      split at stepped
      · rename_i null
        subst null
        obtain ⟨noCall, count, chain⟩ := point
        have none := enumerates_null chain
        cases stepped
        exact ⟨place, remote_move inv ⟨noCall, none.2⟩⟩
      · rename_i nonnull
        cases stepped
        exact ⟨_, remote_hand inv at_ nonnull⟩

theorem remote_step_inv (inv : RemoteInv s place) {action : RemoteAct}
    (stepped : remoteStep s action = some after) : ∃ moved, RemoteInv after moved := by
  cases action with
  | alloc heap block =>
      simp only [remoteStep] at stepped
      split at stepped
      · split at stepped
        · rename_i allowed
          cases stepped
          exact ⟨place, remote_alloc inv allowed.1 allowed.2.1 allowed.2.2.1 allowed.2.2.2⟩
        · cases stepped
      · cases stepped
  | reassign block owner =>
      simp only [remoteStep] at stepped
      split at stepped
      · rename_i stored
        cases stepped
        exact ⟨place, remote_reassign inv stored⟩
      · cases stepped
  | write block value =>
      simp only [remoteStep] at stepped
      split at stepped
      · rename_i live
        cases stepped
        exact ⟨place, remote_write inv live value⟩
      · cases stepped
  | freeLocal heap block value =>
      simp only [remoteStep] at stepped
      split at stepped
      · split at stepped
        · rename_i allowed
          cases stepped
          exact ⟨place, remote_free_local inv allowed.2 value⟩
        · cases stepped
      · cases stepped
  | free heap block =>
      simp only [remoteStep] at stepped
      split at stepped
      · rename_i idle
        split at stepped
        · rename_i allowed
          cases stepped
          exact ⟨_, remote_free inv idle allowed.2⟩
        · cases stepped
      · cases stepped
  | flush heap =>
      simp only [remoteStep] at stepped
      split at stepped
      · rename_i idle
        split at stepped
        · cases stepped
          exact ⟨place, inv⟩
        · rename_i full
          have point := inv.points heap
          rw [idle] at point
          obtain ⟨filled, _⟩ := not_or.mp full
          cases stepped
          exact ⟨place, remote_move inv ⟨Nat.pos_of_ne_zero filled, point.2, point.1⟩⟩
      · cases stepped
  | reap heap =>
      simp only [remoteStep] at stepped
      split at stepped
      · rename_i idle
        cases stepped
        exact ⟨_, remote_detach inv idle⟩
      · cases stepped
  | step heap word => exact remote_advance inv stepped
  | exchangeFails heap =>
      simp only [remoteStep] at stepped
      split at stepped
      · rename_i next oldHead at_
        have point := inv.points heap
        rw [at_] at point
        cases stepped
        exact ⟨place, remote_move inv point.1⟩
      · cases stepped

theorem remote_run {next owner : Nat → Nat} {actions : List RemoteAct}
    (ran : run remoteStep (remoteStart next owner) actions = some s) :
    ∃ place, RemoteInv s place := by
  have preserved : ∀ state action reached, (∃ place, RemoteInv state place) →
      remoteStep state action = some reached → ∃ place, RemoteInv reached place := by
    rintro state action reached ⟨place, inv⟩ stepped
    exact remote_step_inv inv stepped
  exact run_invariant_always preserved ⟨_, remote_start_inv next owner⟩ ran

end Lzmalloc.RemoteRaces
