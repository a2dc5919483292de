import Lzmalloc.SpanLifecycle

/-!
# Remote frees

An object freed by a heap that does not own it travels from the outgoing batch
of the freeing heap to the mailbox of its owner and from there to the list that
the owner detaches when it reaps. Each of these moves keeps `MailInv`. A reaped
object counts as live again for the moment in which the owner hands it to its
own free logic, so the local frees are used as they are.
-/

namespace Lzmalloc.RemoteFree

open SizeClasses HeapState VirtualMemoryManager PointerChain ByteMemory Engines ThreadHeap
open HeapInvariant InvariantFacts SlabBlocks ClientView SlabLifecycle SlabAllocation SpanLifecycle

set_option autoImplicit false

variable {mode : Mode} {s : State} {g : Ghost} {tlh owner ptr : Nat}

/-! ## The lists of objects in flight -/

section Lists

variable {heads : Nat → Nat} {batches : Nat → Batch} {mem other : Memory}
  {node place : Nat → NodePlace} {cursor : Nat → Nat}

def flushed (node : Nat → NodePlace) (tlh target : Nat) : Nat → NodePlace := fun ptr =>
  if node ptr = .batch tlh then .mail target else node ptr

def detached (node : Nat → NodePlace) (tlh : Nat) : Nat → NodePlace := fun ptr =>
  if node ptr = .mail tlh then .reaping tlh else node ptr

theorem flushed_mail {target heap : Nat} : flushed node tlh target ptr = .mail heap ↔
    (node ptr = .batch tlh ∧ heap = target) ∨ node ptr = .mail heap := by
  by_cases moved : node ptr = .batch tlh
  · simp [flushed, moved, eq_comm]
  · simp [flushed, moved]

theorem flushed_batch {target heap : Nat} : flushed node tlh target ptr = .batch heap ↔
    heap ≠ tlh ∧ node ptr = .batch heap := by
  by_cases moved : node ptr = .batch tlh
  · simp [flushed, moved, eq_comm]
  · simp only [flushed, if_neg moved]
    refine ⟨fun there => ⟨?_, there⟩, And.right⟩
    rintro rfl
    exact moved there

theorem flushed_reaping {target heap : Nat} : flushed node tlh target ptr = .reaping heap ↔
    node ptr = .reaping heap := by
  by_cases moved : node ptr = .batch tlh
  · simp [flushed, moved]
  · simp [flushed, moved]

theorem detached_mail {heap : Nat} : detached node tlh ptr = .mail heap ↔
    heap ≠ tlh ∧ node ptr = .mail heap := by
  by_cases moved : node ptr = .mail tlh
  · simp [detached, moved, eq_comm]
  · simp only [detached, if_neg moved]
    refine ⟨fun there => ⟨?_, there⟩, And.right⟩
    rintro rfl
    exact moved there

theorem detached_batch {heap : Nat} : detached node tlh ptr = .batch heap ↔
    node ptr = .batch heap := by
  by_cases moved : node ptr = .mail tlh
  · simp [detached, moved]
  · simp [detached, moved]

theorem detached_reaping {heap : Nat} : detached node tlh ptr = .reaping heap ↔
    (node ptr = .mail tlh ∧ heap = tlh) ∨ node ptr = .reaping heap := by
  by_cases moved : node ptr = .mail tlh
  · simp [detached, moved, eq_comm]
  · simp [detached, moved]

/-- The link of a batch's tail belongs to no list. -/
theorem mail_inv_tail (inv : MailInv heads batches mem node cursor)
    (filled : (batches tlh).count ≠ 0)
    (links : ∀ ptr, ptr ≠ (batches tlh).tail → (node ptr).InFlight →
      linkAt other ptr = linkAt mem ptr) : MailInv heads batches other node cursor := by
  have last : node (batches tlh).tail = .batch tlh := by
    have visited := ends_at_tail (inv.batchList tlh filled)
    exact visited
  have agree : ∀ ptr elsewhere, node ptr = elsewhere → elsewhere.InFlight →
      elsewhere ≠ .batch tlh → linkAt other ptr = linkAt mem ptr := by
    rintro ptr elsewhere rfl flying apart
    refine links ptr ?_ flying
    rintro rfl
    exact apart last
  refine { inv with
    mail := fun heap => ?_, reaping := fun heap => ?_, batchList := fun heap some => ?_ }
  · obtain ⟨count, chain⟩ := inv.mail heap
    exact ⟨count, enumerates_congr chain (fun ptr there => agree ptr _ there trivial (by simp))
      fun _ => Iff.rfl⟩
  · obtain ⟨count, chain⟩ := inv.reaping heap
    exact ⟨count, enumerates_congr chain (fun ptr there => agree ptr _ there trivial (by simp))
      fun _ => Iff.rfl⟩
  · refine ends_at_congr (inv.batchList heap some) (fun ptr there apart => ?_) fun _ => Iff.rfl
    by_cases same : heap = tlh
    · subst same
      exact links ptr apart (by rw [there]; trivial)
    · exact agree ptr _ there trivial (by simp [same])

/-- The compare-exchange of a flush: the batch is spliced in front of the mailbox. -/
theorem mail_inv_flush (inv : MailInv heads batches mem node cursor)
    (filled : (batches tlh).count ≠ 0)
    (link : linkAt mem (batches tlh).tail = heads (batches tlh).targetTlh) :
    MailInv (Function.update heads (batches tlh).targetTlh (batches tlh).head)
      (Function.update batches tlh {}) mem (flushed node tlh (batches tlh).targetTlh) cursor := by
  refine ⟨fun heap => ?_, fun heap => ?_, fun heap empty => ?_, fun heap some => ?_, fun heap => ?_,
    fun heap some => ?_⟩
  · by_cases target : heap = (batches tlh).targetTlh
    · subst target
      obtain ⟨count, chain⟩ := inv.mail (batches tlh).targetTlh
      rw [Function.update_self]
      refine ⟨_, enumerates_splice (inv.batchList tlh filled) chain ?_ link fun ptr => ?_⟩
      · intro ptr batched mailed
        rw [batched] at mailed
        cases mailed
      · simp [flushed_mail]
    · obtain ⟨count, chain⟩ := inv.mail heap
      rw [Function.update_of_ne target]
      refine ⟨count, enumerates_congr chain (fun _ _ => rfl) fun ptr => ?_⟩
      simp [flushed_mail, target]
  · obtain ⟨count, chain⟩ := inv.reaping heap
    exact ⟨count, enumerates_congr chain (fun _ _ => rfl) fun ptr => flushed_reaping⟩
  · by_cases same : heap = tlh
    · subst same
      simp [flushed_batch]
    · rw [Function.update_of_ne same] at empty ⊢
      obtain ⟨head, none⟩ := inv.batchEmpty heap empty
      exact ⟨head, fun ptr there => none ptr (flushed_batch.mp there).2⟩
  · by_cases same : heap = tlh
    · subst same
      simp at some
    · rw [Function.update_of_ne same] at some ⊢
      exact ends_at_congr (inv.batchList heap some) (fun _ _ _ => rfl) fun ptr => by
        simp [flushed_batch, same]
  · by_cases same : heap = tlh
    · subst same
      simp
    · rw [Function.update_of_ne same]
      exact inv.batchBound heap
  · by_cases same : heap = tlh
    · subst same
      simp at some
    · rw [Function.update_of_ne same] at some ⊢
      exact inv.batchTarget heap some

theorem mail_inv_detach (inv : MailInv heads batches mem node cursor) (idle : cursor tlh = 0) :
    MailInv (Function.update heads tlh 0) batches mem (detached node tlh)
      (Function.update cursor tlh (heads tlh)) := by
  have none : ∀ ptr, node ptr ≠ .reaping tlh := by
    obtain ⟨count, chain⟩ := inv.reaping tlh
    rw [idle] at chain
    exact (enumerates_null chain).2
  refine { inv with mail := fun heap => ?_, reaping := fun heap => ?_,
                    batchEmpty := fun heap empty => ?_, batchList := fun heap some => ?_ }
  · by_cases same : heap = tlh
    · subst same
      rw [Function.update_self]
      exact ⟨0, enumerates_empty fun ptr => by simp [detached_mail]⟩
    · obtain ⟨count, chain⟩ := inv.mail heap
      rw [Function.update_of_ne same]
      exact ⟨count,
        enumerates_congr chain (fun _ _ => rfl) fun ptr => by simp [detached_mail, same]⟩
  · by_cases same : heap = tlh
    · subst same
      obtain ⟨count, chain⟩ := inv.mail heap
      rw [Function.update_self]
      exact ⟨count, enumerates_congr chain (fun _ _ => rfl) fun ptr => by
        simp [detached_reaping, none]⟩
    · obtain ⟨count, chain⟩ := inv.reaping heap
      rw [Function.update_of_ne same]
      exact ⟨count, enumerates_congr chain (fun _ _ => rfl) fun ptr => by
        simp [detached_reaping, same]⟩
  · obtain ⟨head, absent⟩ := inv.batchEmpty heap empty
    exact ⟨head, fun ptr there => absent ptr (detached_batch.mp there)⟩
  · exact ends_at_congr (inv.batchList heap some) (fun _ _ _ => rfl) fun ptr => detached_batch

theorem mail_inv_advance (inv : MailInv heads batches mem node cursor) (more : cursor tlh ≠ 0) :
    node (cursor tlh) = .reaping tlh ∧
      MailInv heads batches mem (Function.update node (cursor tlh) .live)
        (Function.update cursor tlh (linkAt mem (cursor tlh))) := by
  obtain ⟨count, chain⟩ := inv.reaping tlh
  have first : node (cursor tlh) = .reaping tlh := by
    have visited := enumerates_head chain more
    exact visited
  have elsewhere : ∀ ptr flying, flying ≠ .live → flying ≠ .reaping tlh →
      (Function.update node (cursor tlh) .live ptr = flying ↔ node ptr = flying) := by
    intro ptr flying notLive notReaping
    by_cases same : ptr = cursor tlh
    · rw [same, Function.update_self, first]
      exact iff_of_false (fun equal => notLive equal.symm) fun equal => notReaping equal.symm
    · rw [Function.update_of_ne same]
  refine ⟨first, { inv with mail := fun heap => ?_, reaping := fun heap => ?_,
                            batchEmpty := fun heap empty => ?_, batchList := fun heap some => ?_ }⟩
  · obtain ⟨total, mailed⟩ := inv.mail heap
    exact ⟨total, enumerates_congr mailed (fun _ _ => rfl) fun ptr =>
      elsewhere ptr _ (by simp) (by simp)⟩
  · by_cases same : heap = tlh
    · subst same
      rw [Function.update_self]
      refine ⟨_, (enumerates_pop chain more (fun _ _ _ => rfl) fun ptr => ?_).2⟩
      by_cases here : ptr = cursor heap
      · simp [here]
      · simp [here]
    · obtain ⟨total, reaped⟩ := inv.reaping heap
      rw [Function.update_of_ne same]
      exact ⟨total, enumerates_congr reaped (fun _ _ => rfl) fun ptr =>
        elsewhere ptr _ (by simp) (by simp [same])⟩
  · obtain ⟨head, absent⟩ := inv.batchEmpty heap empty
    exact ⟨head, fun ptr there => absent ptr ((elsewhere ptr _ (by simp) (by simp)).mp there)⟩
  · exact ends_at_congr (inv.batchList heap some) (fun _ _ _ => rfl) fun ptr =>
      elsewhere ptr _ (by simp) (by simp)

theorem mail_inv_retarget (inv : MailInv heads batches mem node cursor)
    (empty : (batches tlh).count = 0) (owner : Nat) :
    MailInv heads (Function.update batches tlh { batches tlh with targetTlh := owner }) mem node
      cursor := by
  have counts : ∀ heap, (Function.update batches tlh { batches tlh with targetTlh := owner }
      heap).count = (batches heap).count ∧ (Function.update batches tlh
        { batches tlh with targetTlh := owner } heap).head = (batches heap).head ∧
      (Function.update batches tlh { batches tlh with targetTlh := owner } heap).tail =
        (batches heap).tail := by
    intro heap
    by_cases same : heap = tlh
    · subst same
      simp
    · simp [same]
  refine { inv with batchEmpty := fun heap none => ?_, batchList := fun heap some => ?_,
                    batchBound := fun heap => ?_, batchTarget := fun heap some => ?_ }
  · obtain ⟨count, head, tail⟩ := counts heap
    rw [count] at none
    rw [head]
    exact inv.batchEmpty heap none
  · obtain ⟨count, head, tail⟩ := counts heap
    rw [count] at some ⊢
    rw [head, tail]
    exact inv.batchList heap some
  · rw [(counts heap).1]
    exact inv.batchBound heap
  · by_cases same : heap = tlh
    · subst same
      simp [empty] at some
    · rw [Function.update_of_ne same] at some ⊢
      exact inv.batchTarget heap some

def pushed (batch : Batch) (node : Nat) : Batch :=
  { batch with
    head := node
    tail := if batch.count = 0 then node else batch.tail
    count := batch.count + 1 }

theorem mail_inv_enqueue (inv : MailInv heads batches mem node cursor) (tlh : Nat)
    (nonnull : ptr ≠ 0)
    (outside : ¬(node ptr).InFlight) (room : (batches tlh).count < 64)
    (target : (batches tlh).targetTlh ≠ 0) (link : linkAt other ptr = (batches tlh).head)
    (links : ∀ old, old ≠ ptr → (node old).InFlight → linkAt other old = linkAt mem old) :
    MailInv heads (Function.update batches tlh (pushed (batches tlh) ptr)) other
      (Function.update node ptr (.batch tlh)) cursor := by
  have elsewhere : ∀ old flying, flying.InFlight → flying ≠ .batch tlh →
      (Function.update node ptr (.batch tlh) old = flying ↔ node old = flying) := by
    intro old flying inFlight apart
    by_cases same : old = ptr
    · rw [same, Function.update_self]
      exact iff_of_false (fun equal => apart equal.symm) fun equal => outside (equal ▸ inFlight)
    · rw [Function.update_of_ne same]
  have agree : ∀ old flying, node old = flying → flying.InFlight →
      linkAt other old = linkAt mem old := by
    rintro old flying rfl inFlight
    refine links old ?_ inFlight
    rintro rfl
    exact outside inFlight
  have grown : ∀ each, Function.update node ptr (.batch tlh) each = .batch tlh ↔
      each = ptr ∨ node each = .batch tlh := by
    intro each
    by_cases same : each = ptr
    · simp [same]
    · simp [same]
  refine ⟨fun heap => ?_, fun heap => ?_, fun heap empty => ?_, fun heap some => ?_, fun heap => ?_,
    fun heap some => ?_⟩
  · obtain ⟨count, chain⟩ := inv.mail heap
    exact ⟨count, enumerates_congr chain (fun old there => agree old _ there trivial) fun old =>
      elsewhere old _ trivial (by simp)⟩
  · obtain ⟨count, chain⟩ := inv.reaping heap
    exact ⟨count, enumerates_congr chain (fun old there => agree old _ there trivial) fun old =>
      elsewhere old _ trivial (by simp)⟩
  · by_cases same : heap = tlh
    · subst same
      simp [pushed] at empty
    · rw [Function.update_of_ne same] at empty ⊢
      obtain ⟨head, none⟩ := inv.batchEmpty heap empty
      exact ⟨head, fun old there => none old
        ((elsewhere old (.batch heap) trivial (by simp [same])).mp there)⟩
  · by_cases same : heap = tlh
    · subst same
      rw [Function.update_self]
      by_cases first : (batches heap).count = 0
      · have none := (inv.batchEmpty heap first).2
        simp only [pushed, first, if_true]
        exact ends_at_single nonnull fun each => by simp [grown each, none each]
      · simp only [pushed, if_neg first]
        refine ends_at_push (inv.batchList heap first) nonnull ?_ link
          (fun old there _ => agree old _ there trivial) grown
        exact fun there => outside (by rw [there]; trivial)
    · rw [Function.update_of_ne same] at some ⊢
      exact ends_at_congr (inv.batchList heap some) (fun old there _ => agree old _ there trivial)
        fun old => elsewhere old _ trivial (by simp [same])
  · by_cases same : heap = tlh
    · subst same
      rw [Function.update_self]
      exact room
    · rw [Function.update_of_ne same]
      exact inv.batchBound heap
  · by_cases same : heap = tlh
    · subst same
      rw [Function.update_self]
      exact target
    · rw [Function.update_of_ne same] at some ⊢
      exact inv.batchTarget heap some

end Lists

/-! ## The same moves on the whole state -/

def Relocated (node place : Nat → NodePlace) : Prop :=
  ∀ ptr, place ptr = node ptr ∨ (node ptr).InUse ∧ (place ptr).InUse

theorem inv_relocate {place : Nat → NodePlace} {cursor heads : Nat → Nat}
    {batches : Nat → Batch} {mem : Memory} (inv : Inv mode s g)
    (relocated : Relocated g.node place)
    (links : ∀ ptr, g.node ptr = .free → linkAt mem ptr = linkAt s.mem ptr)
    (mail : MailInv heads batches mem place cursor)
    (objects : ObjectInv mode s.rtree batches s.direct s.heaps g.kind place) :
    Inv mode { s with mem := mem, remoteFreeHead := heads, outgoingBatch := batches }
      { g with node := place, cursor := cursor } := by
  have free : ∀ ptr, place ptr = .free ↔ g.node ptr = .free := by
    intro ptr
    rcases relocated ptr with same | ⟨used, stillUsed⟩
    · rw [same]
    · refine iff_of_false ?_ ?_ <;> intro there <;> simp [there, NodePlace.InUse] at used stillUsed
  have none : ∀ ptr, place ptr = .none ↔ g.node ptr = .none := by
    intro ptr
    rcases relocated ptr with same | ⟨used, stillUsed⟩
    · rw [same]
    · refine iff_of_false ?_ ?_ <;> intro there <;> simp [there, NodePlace.InUse] at used stillUsed
  refine { inv with slabs := ?_, spans := ?_, mail := mail, objects := objects, recorded := ?_ }
  · intro chunk heap classIdx isSlab
    have ok := inv.slabs chunk heap classIdx isSlab
    refine { ok with freeList := ?_, blocks := ?_ }
    · refine enumerates_congr ok.freeList (fun block visited => ?_) fun block => ?_
      · exact free_link_congr _ (links block visited.2)
      · rw [free block]
    · intro block inside
      rw [ne_eq, none block]
      exact ok.blocks block inside
  · intro chunk heap isSpan
    have ok := inv.spans chunk heap isSpan
    refine { ok with nodes := ?_, notFree := ?_ }
    · intro ptr inside
      rw [ne_eq, none ptr]
      exact ok.nodes ptr inside
    · intro ptr inside
      rw [ne_eq, free ptr]
      exact ok.notFree ptr inside
  · intro ptr used
    refine inv.recorded ptr ?_
    rcases relocated ptr with same | ⟨wasUsed, _⟩
    · rwa [← same]
    · exact wasUsed

theorem object_inv_relocate {rtree : Rtree} {before after : Nat → Batch}
    {direct : Nat → DirectInfo} {heaps : List Nat} {kind : Nat → BlockKind}
    {node place : Nat → NodePlace} (inv : ObjectInv mode rtree before direct heaps kind node)
    (moved : ∀ ptr, place ptr = node ptr ∨ (node ptr).InFlight ∧ (place ptr).InFlight)
    (owners : OwnerInv after kind place)
    (batched : ∀ ptr heap, place ptr = .batch heap → node ptr = .batch heap) :
    ObjectInv mode rtree after direct heaps kind place := by
  have present : ∀ ptr, place ptr ≠ .none → node ptr ≠ .none := by
    intro ptr there absent
    rcases moved ptr with same | ⟨flying, _⟩
    · exact there (same.trans absent)
    · simp [absent, NodePlace.InFlight] at flying
  refine ⟨owners, ⟨?_, ?_, ?_, ?_⟩, ?_, ⟨inv.heaps.nonnull, inv.heaps.owner, ?_⟩, ?_, ?_⟩
  · exact fun ptr header there => inv.direct.inside ptr header (present ptr there)
  · exact fun ptr header there => inv.direct.fits ptr header (present ptr there)
  · exact fun left right header thereLeft thereRight =>
      inv.direct.single left right header (present left thereLeft) (present right thereRight)
  · intro ptr header isDirect
    have places := inv.direct.places ptr header isDirect
    rcases moved ptr with same | ⟨flying, _⟩
    · rwa [same]
    · rcases places with there | there | there <;> simp [there, NodePlace.InFlight] at flying
  · exact fun ptr there => inv.scope ptr (present ptr there)
  · exact fun ptr heap there => inv.heaps.batch ptr heap (batched ptr heap there)
  · intro resolves ptr flying
    rcases moved ptr with same | ⟨wasFlying, _⟩
    · exact inv.registered resolves ptr (by rwa [same] at flying)
    · exact inv.registered resolves ptr wasFlying
  · intro leakFree ptr there
    rcases moved ptr with same | ⟨_, flying⟩
    · exact inv.noLeaks leakFree ptr (same.symm.trans there)
    · simp [there, NodePlace.InFlight] at flying

theorem in_flight_used {place : NodePlace} (flying : place.InFlight) : place.InUse := by
  cases place <;> trivial

theorem quiet_moved {place : Nat → NodePlace} {cursor : Nat → Nat}
    (moved : ∀ ptr, place ptr = g.node ptr ∨ (g.node ptr).InFlight ∧ (place ptr).InFlight)
    (reaping : ∀ ptr heap, place ptr = .reaping heap → g.node ptr = .reaping heap) :
    Quiet g { g with node := place, cursor := cursor } := by
  have settled : ∀ ptr still, ¬still.InFlight → (place ptr = still ↔ g.node ptr = still) := by
    intro ptr still grounded
    rcases moved ptr with same | ⟨was, is⟩
    · rw [same]
    · exact iff_of_false (fun equal => grounded (equal ▸ is)) fun equal => grounded (equal ▸ was)
  refine ⟨fun ptr => settled ptr .live id, fun ptr => settled ptr .leaked id,
    fun ptr flying => ?_, reaping, rfl⟩
  rcases moved ptr with same | ⟨was, _⟩
  · change (place ptr).InFlight at flying
    rwa [same] at flying
  · exact was

/-! ## Flush -/

theorem lz_tlh_flush_only (s : State) (tlh : Nat) :
    lzTlhFlushOutgoingBatch s tlh =
      { s with
        mem := (lzTlhFlushOutgoingBatch s tlh).mem
        remoteFreeHead := (lzTlhFlushOutgoingBatch s tlh).remoteFreeHead
        outgoingBatch := (lzTlhFlushOutgoingBatch s tlh).outgoingBatch } := by
  unfold lzTlhFlushOutgoingBatch
  by_cases nothing : (s.outgoingBatch tlh).count = 0 ∨ (s.outgoingBatch tlh).targetTlh = 0
  · simp only [if_pos nothing]
  · simp only [if_neg nothing, setLink]

theorem mailbox_head_bound (core : Core mode s g) (tlh : Nat) :
    s.remoteFreeHead tlh < 2 ^ 64 := by
  by_cases null : s.remoteFreeHead tlh = 0
  · omega
  · obtain ⟨_, chain⟩ := core.mail.mail tlh
    have mailed := enumerates_head chain null
    have present : g.node (s.remoteFreeHead tlh) ≠ .none := by simp [mailed]
    have bound := core_node_bound core present
    omega

theorem inv_flush (inv : Inv mode s g) (tlh : Nat) :
    ∃ node, Inv mode (lzTlhFlushOutgoingBatch s tlh) { g with node := node } ∧
      Quiet g { g with node := node } ∧
      ((lzTlhFlushOutgoingBatch s tlh).outgoingBatch tlh).count = 0 ∧
      node = flushed g.node tlh (s.outgoingBatch tlh).targetTlh := by
  unfold lzTlhFlushOutgoingBatch
  by_cases nothing : (s.outgoingBatch tlh).count = 0 ∨ (s.outgoingBatch tlh).targetTlh = 0
  · rw [if_pos nothing]
    have empty : (s.outgoingBatch tlh).count = 0 := by
      by_contra filled
      exact nothing.elim filled (inv.mail.batchTarget tlh filled)
    refine ⟨g.node, inv, quiet_refl g, empty, ?_⟩
    funext ptr
    rw [flushed, if_neg ((inv.mail.batchEmpty tlh empty).2 ptr)]
  · rw [if_neg nothing]
    have filled : (s.outgoingBatch tlh).count ≠ 0 := fun empty => nothing (Or.inl empty)
    have tail : g.node (s.outgoingBatch tlh).tail = .batch tlh := by
      have visited := ends_at_tail (inv.mail.batchList tlh filled)
      exact visited
    have others : ∀ ptr, ptr ≠ (s.outgoingBatch tlh).tail → g.node ptr ≠ .none →
        linkAt (store s.mem (s.outgoingBatch tlh).tail 8
          (s.remoteFreeHead (s.outgoingBatch tlh).targetTlh)) ptr = linkAt s.mem ptr :=
      fun ptr apart present => core_link_store_other inv.toCore (by simp [tail]) present apart
    have stored := mail_inv_tail inv.mail filled fun ptr apart flying =>
      others ptr apart (by rintro absent; simp [absent, NodePlace.InFlight] at flying)
    have spliced := mail_inv_flush stored filled
      (link_at_store s.mem (mailbox_head_bound inv.toCore _))
    have moved : ∀ ptr, flushed g.node tlh (s.outgoingBatch tlh).targetTlh ptr = g.node ptr ∨
        (g.node ptr).InFlight ∧
          (flushed g.node tlh (s.outgoingBatch tlh).targetTlh ptr).InFlight := by
      intro ptr
      by_cases there : g.node ptr = .batch tlh
      · exact Or.inr ⟨by rw [there]; trivial, by simp [flushed, there, NodePlace.InFlight]⟩
      · exact Or.inl (if_neg there)
    have owners : OwnerInv (Function.update s.outgoingBatch tlh {}) g.kind
        (flushed g.node tlh (s.outgoingBatch tlh).targetTlh) := by
      refine ⟨fun ptr heap there => ?_, fun ptr heap there => ?_, fun ptr heap there => ?_⟩
      · obtain ⟨apart, batched⟩ := flushed_batch.mp there
        rw [Function.update_of_ne apart]
        exact inv.objects.owners.batch ptr heap batched
      · rcases flushed_mail.mp there with ⟨batched, rfl⟩ | mailed
        · exact inv.objects.owners.batch ptr tlh batched
        · exact inv.objects.owners.mail ptr heap mailed
      · exact inv.objects.owners.reaping ptr heap (flushed_reaping.mp there)
    have objects := object_inv_relocate inv.objects moved owners fun ptr heap there =>
      (flushed_batch.mp there).2
    have relocated : Relocated g.node (flushed g.node tlh (s.outgoingBatch tlh).targetTlh) :=
      fun ptr => (moved ptr).imp id fun both => ⟨in_flight_used both.1, in_flight_used both.2⟩
    have last := inv_relocate inv relocated (fun ptr free => others ptr (by
      rintro rfl
      simp [tail] at free) (by simp [free])) spliced objects
    exact ⟨flushed g.node tlh (s.outgoingBatch tlh).targetTlh, last,
      quiet_moved moved fun ptr heap => flushed_reaping.mp, by simp, rfl⟩

/-! ## Reap -/

theorem inv_detach (inv : Inv mode s g) (idle : g.cursor tlh = 0) :
    Inv mode (detachMailbox s tlh)
      { g with node := detached g.node tlh
               cursor := Function.update g.cursor tlh (s.remoteFreeHead tlh) } := by
  have moved : ∀ ptr, detached g.node tlh ptr = g.node ptr ∨
      (g.node ptr).InFlight ∧ (detached g.node tlh ptr).InFlight := by
    intro ptr
    by_cases there : g.node ptr = .mail tlh
    · exact Or.inr ⟨by rw [there]; trivial, by simp [detached, there, NodePlace.InFlight]⟩
    · exact Or.inl (if_neg there)
  have owners : OwnerInv s.outgoingBatch g.kind (detached g.node tlh) := by
    refine ⟨fun ptr heap there => ?_, fun ptr heap there => ?_, fun ptr heap there => ?_⟩
    · exact inv.objects.owners.batch ptr heap (detached_batch.mp there)
    · exact inv.objects.owners.mail ptr heap (detached_mail.mp there).2
    · rcases detached_reaping.mp there with ⟨mailed, rfl⟩ | reaped
      · exact inv.objects.owners.mail ptr heap mailed
      · exact inv.objects.owners.reaping ptr heap reaped
  have relocated : Relocated g.node (detached g.node tlh) := fun ptr =>
    (moved ptr).imp id fun both => ⟨in_flight_used both.1, in_flight_used both.2⟩
  exact inv_relocate inv relocated (fun _ _ => rfl) (mail_inv_detach inv.mail idle)
    (object_inv_relocate inv.objects moved owners fun ptr heap => detached_batch.mp)

theorem quiet_reaped {last : Ghost} {cursor : Nat → Nat} (was : g.node ptr = .reaping tlh)
    (released : Released { g with node := Function.update g.node ptr .live, cursor := cursor } last
      ptr) : Quiet g last ∧ ∀ heap, last.node ptr ≠ .reaping heap := by
  refine ⟨⟨fun other => ?_, fun other => ?_, fun other flying => ?_, fun other heap there => ?_,
    released.record⟩, fun heap there => ?_⟩
  · rw [released.live other]
    by_cases same : other = ptr
    · simp [same, was]
    · simp [same]
  · rw [released.leaked other]
    by_cases same : other = ptr
    · simp [same, was]
    · simp [same]
  · by_cases same : other = ptr
    · rw [same, was]
      trivial
    · have flew := (released.flying other flying).resolve_left same
      simpa [same] using flew
  · have reaped := released.reaping other heap there
    by_cases same : other = ptr
    · simp [same] at reaped
    · simpa [same] using reaped
  · have reaped := released.reaping ptr heap there
    simp at reaped

def advance (g : Ghost) (mem : Memory) (tlh : Nat) : Ghost :=
  { g with
    node := Function.update g.node (g.cursor tlh) .live
    cursor := Function.update g.cursor tlh (linkAt mem (g.cursor tlh)) }

theorem inv_advance (inv : Inv mode s g) (more : g.cursor tlh ≠ 0) :
    Inv mode s (advance g s.mem tlh) ∧ g.node (g.cursor tlh) = .reaping tlh ∧
      (g.kind (chunkBase (g.cursor tlh))).owner = some tlh := by
  obtain ⟨first, mail⟩ := mail_inv_advance inv.mail more
  have owned := inv.objects.owners.reaping _ tlh first
  have relocated : Relocated g.node (Function.update g.node (g.cursor tlh) .live) := by
    intro ptr
    by_cases same : ptr = g.cursor tlh
    · rw [same, first, Function.update_self]
      exact Or.inr ⟨trivial, trivial⟩
    · exact Or.inl (Function.update_of_ne same _ _)
  exact ⟨inv_relocate inv relocated (fun _ _ => rfl) mail
    (object_inv_settle inv.objects (by simp [owned]) (Or.inl rfl)), first, owned⟩

theorem inv_reap_node (inv : Inv mode s g) (more : g.cursor tlh ≠ 0) :
    ∃ last, Inv mode (lzTlhReapNode s tlh (g.cursor tlh)) last ∧ Quiet g last ∧
      (∀ heap, last.node (g.cursor tlh) ≠ .reaping heap) ∧
      Swept s.slab (advance g s.mem tlh) (lzTlhReapNode s tlh (g.cursor tlh)).slab last ∧
      Landed g last := by
  obtain ⟨advanced, first, owned⟩ := inv_advance inv more
  have live : (advance g s.mem tlh).node (g.cursor tlh) = .live := Function.update_self _ _ _
  have freed : ∃ last, Inv mode (lzTlhReapNode s tlh (g.cursor tlh)) last ∧
      Released (advance g s.mem tlh) last (g.cursor tlh) ∧
      Swept s.slab (advance g s.mem tlh) (lzTlhReapNode s tlh (g.cursor tlh)).slab last ∧
      Landed (advance g s.mem tlh) last := by
    unfold lzTlhReapNode
    cases kind : g.kind (chunkBase (g.cursor tlh)) with
    | slab heap classIdx =>
        obtain rfl : heap = tlh := by simpa [kind, BlockKind.owner] using owned
        simp only [(inv.header.slab _ heap classIdx kind).2.1]
        exact inv_free_slab advanced kind live
    | span heap =>
        obtain rfl : heap = tlh := by simpa [kind, BlockKind.owner] using owned
        simp only [(inv.header.span _ heap kind).2]
        exact inv_span_free advanced kind live
    | unused => simp [kind, BlockKind.owner] at owned
    | idle place => simp [kind, BlockKind.owner] at owned
    | loose => simp [kind, BlockKind.owner] at owned
    | direct header => simp [kind, BlockKind.owner] at owned
  obtain ⟨last, lastInv, released, swept, landed⟩ := freed
  obtain ⟨quiet, gone⟩ := quiet_reaped first released
  exact ⟨last, lastInv, quiet, gone, swept, landed_trans (settle_landed id) landed⟩

/-- What one round does, seen from before the object was taken off the list. -/
theorem swept_retired {slab after : Nat → Slab} {last : Ghost} {mem : Memory}
    (swept : Swept slab (advance g mem tlh) after last) :
    Swept slab { g with cursor := Function.update g.cursor tlh 0 } after
      { last with cursor := Function.update last.cursor tlh 0 } := by
  have nodes : ∀ ptr, g.node ptr ≠ .none → (advance g mem tlh).node ptr ≠ .none := by
    intro ptr present
    by_cases same : ptr = g.cursor tlh
    · simp [advance, same]
    · simpa [advance, same] using present
  refine ⟨⟨⟨?_, swept.loose⟩, swept.cleared⟩, swept.kinds, ?_, ?_⟩
  · simp only [swept.cursor, advance, Function.update_idem]
  · intro ptr heap size isSlab present
    exact swept.present ptr heap size isSlab (nodes ptr present)
  · rintro base heap isSpan ⟨ptr, inside, present⟩
    exact swept.tenants base heap isSpan ⟨ptr, inside, nodes ptr present⟩

theorem inv_reap_loop (inv : Inv mode s g) {fuel count : Nat}
    (chain : Enumerates (linkAt s.mem) (g.cursor tlh) (fun ptr => g.node ptr = .reaping tlh) count)
    (enough : count ≤ fuel) :
    ∃ last, Inv mode (lzTlhReapLoop fuel s tlh (g.cursor tlh)) last ∧ Quiet g last ∧
      Swept s.slab { g with cursor := Function.update g.cursor tlh 0 }
        (lzTlhReapLoop fuel s tlh (g.cursor tlh)).slab last ∧ Landed g last := by
  have stop : ∀ (slab : Nat → Slab) (g : Ghost), g.cursor tlh = 0 →
      Swept slab { g with cursor := Function.update g.cursor tlh 0 } slab g := fun slab g null =>
    swept_of_course (course_same (by rw [← null, Function.update_eq_self]) rfl) rfl fun _ => id
  induction fuel generalizing s g count with
  | zero =>
      obtain rfl : count = 0 := Nat.le_zero.mp enough
      exact ⟨g, inv, quiet_refl g, stop _ g (enumerates_zero chain).1, landed_refl g⟩
  | succ fuel ih =>
      unfold lzTlhReapLoop
      by_cases null : g.cursor tlh = 0
      · rw [if_pos null]
        exact ⟨g, inv, quiet_refl g, stop _ g null, landed_refl g⟩
      · rw [if_neg null]
        obtain ⟨after, afterInv, quiet, gone, swept, landed⟩ := inv_reap_node inv null
        have next : linkAt s.mem (g.cursor tlh) = after.cursor tlh := by
          rw [swept.cursor]
          simp [advance]
        obtain ⟨fewer, shorter⟩ := afterInv.mail.reaping tlh
        have visited : g.node (g.cursor tlh) = .reaping tlh := by
          have head := enumerates_head chain null
          exact head
        have fewerLt := enumerates_lt chain shorter (fun ptr => quiet.reaping ptr tlh) visited
          (gone tlh)
        obtain ⟨last, lastInv, lastQuiet, lastSwept, lastLanded⟩ := ih afterInv shorter (by omega)
        have advanced : Swept s.slab { g with cursor := Function.update g.cursor tlh 0 }
            (lzTlhReapNode s tlh (g.cursor tlh)).slab
            { after with cursor := Function.update after.cursor tlh 0 } :=
          swept_retired swept
        simp only [next]
        exact ⟨last, lastInv, quiet_trans quiet lastQuiet, swept_trans advanced lastSwept,
          landed_trans landed lastLanded⟩

/-- `lz_tlh_reap` empties the mailbox and leaves nothing behind. -/
theorem inv_reap (inv : Inv mode s g) (idle : g.cursor tlh = 0) :
    ∃ last, Inv mode (lzTlhReap s tlh) last ∧ Quiet g last ∧
      Swept s.slab g (lzTlhReap s tlh).slab last ∧ Landed g last := by
  have detachedInv := inv_detach inv idle
  obtain ⟨count, chain⟩ := detachedInv.mail.reaping tlh
  have bounded : count ≤ addressLimit := by
    refine enumerates_bound chain fun ptr reaped => ?_
    have present : detached g.node tlh ptr ≠ .none := by
      rw [show detached g.node tlh ptr = .reaping tlh from reaped]
      simp
    have bound := core_node_bound detachedInv.toCore present
    simp only [addressLimit]
    omega
  obtain ⟨last, lastInv, quiet, swept, landed⟩ := inv_reap_loop detachedInv chain bounded
  have ended : last.cursor = g.cursor := by
    rw [swept.cursor]
    simp only [Function.update_idem]
    rw [← idle, Function.update_eq_self]
  have nodes : ∀ ptr, g.node ptr ≠ .none → detached g.node tlh ptr ≠ .none := by
    intro ptr present
    by_cases there : g.node ptr = .mail tlh
    · simp [detached, there]
    · simpa [detached, there] using present
  simp only [Function.update_self] at lastInv swept
  have drained : ∀ ptr, last.node ptr ≠ .reaping tlh := by
    obtain ⟨_, remaining⟩ := lastInv.mail.reaping tlh
    rw [ended, idle] at remaining
    exact (enumerates_null remaining).2
  refine ⟨last, lastInv,
    ⟨fun ptr => ?_, fun ptr => ?_, fun ptr flying => ?_, fun ptr heap there => ?_,
    quiet.record⟩, ⟨⟨⟨ended, swept.loose⟩, swept.cleared⟩, swept.kinds, ?_, ?_⟩, ?_⟩
  · rw [quiet.live ptr]
    by_cases there : g.node ptr = .mail tlh
    · simp [detached, there]
    · simp [detached, there]
  · rw [quiet.leaked ptr]
    by_cases there : g.node ptr = .mail tlh
    · simp [detached, there]
    · simp [detached, there]
  · have flew := quiet.flying ptr flying
    by_cases there : g.node ptr = .mail tlh
    · rw [there]
      trivial
    · simpa [detached, there] using flew
  · rcases detached_reaping.mp (quiet.reaping ptr heap there) with ⟨_, rfl⟩ | reaped
    · exact absurd there (drained ptr)
    · exact reaped
  · intro ptr heap size isSlab present
    exact swept.present ptr heap size isSlab (nodes ptr present)
  · rintro base heap isSpan ⟨ptr, inside, present⟩
    exact swept.tenants base heap isSpan ⟨ptr, inside, nodes ptr present⟩
  · intro ptr flying
    have place := landed ptr flying
    by_cases there : g.node ptr = .mail tlh
    · simp only [detached, if_pos there] at place
      exact absurd place (drained ptr)
    · simpa only [detached, if_neg there] using place

/-! ## Free -/

theorem inv_mem (inv : Inv mode s g) {mem : Memory}
    (links : ∀ ptr, g.node ptr = .free ∨ (g.node ptr).InFlight →
      linkAt mem ptr = linkAt s.mem ptr) : Inv mode { s with mem := mem } g :=
  { core_mem inv.toCore links with filled := inv.filled }

theorem inv_retarget (inv : Inv mode s g) (empty : (s.outgoingBatch tlh).count = 0)
    (owner : Nat) :
    Inv mode
      { s with
        outgoingBatch := Function.update s.outgoingBatch tlh
          { s.outgoingBatch tlh with targetTlh := owner } } g := by
  have none := (inv.mail.batchEmpty tlh empty).2
  have owners : OwnerInv (Function.update s.outgoingBatch tlh
      { s.outgoingBatch tlh with targetTlh := owner }) g.kind g.node := by
    refine { inv.objects.owners with batch := fun ptr heap there => ?_ }
    have apart : heap ≠ tlh := by
      rintro rfl
      exact none ptr there
    rw [Function.update_of_ne apart]
    exact inv.objects.owners.batch ptr heap there
  exact { inv with
    mail := mail_inv_retarget inv.mail empty owner
    objects := object_inv_relocate inv.objects (fun _ => Or.inl rfl) owners fun _ _ => id }

theorem inv_enqueue (inv : Inv mode s g) (tlh : Nat) (live : g.node ptr = .live)
    (owned : (g.kind (chunkBase ptr)).owner = some (s.outgoingBatch tlh).targetTlh)
    (room : (s.outgoingBatch tlh).count < 64) (heap : tlh ∈ s.heaps)
    (resolves : mode.freesResolve → lzRtreeGet s.rtree ptr ≠ 0) :
    Inv mode (enqueueRemote s tlh ptr) (g.settle ptr (.batch tlh)) := by
  obtain ⟨positive, bound⟩ := core_node_bound inv.toCore (by rw [live]; simp : g.node ptr ≠ .none)
  have headBound : (s.outgoingBatch tlh).head < 2 ^ 64 := by
    by_cases empty : (s.outgoingBatch tlh).count = 0
    · rw [(inv.mail.batchEmpty tlh empty).1]
      omega
    · have batched := ends_at_head (inv.mail.batchList tlh empty)
      have headNode := core_node_bound inv.toCore (by rw [batched]; simp :
        g.node (s.outgoingBatch tlh).head ≠ .none)
      omega
  have others : ∀ old, old ≠ ptr → g.node old ≠ .none →
      linkAt (store s.mem ptr 8 (s.outgoingBatch tlh).head) old = linkAt s.mem old :=
    fun old apart present => core_link_store_other inv.toCore (by simp [live]) present apart
  have count : ((s.outgoingBatch tlh).count + 1) % 2 ^ 32 = (s.outgoingBatch tlh).count + 1 := by
    omega
  have mail := mail_inv_enqueue inv.mail tlh (by omega : ptr ≠ 0)
    (by simp [live, NodePlace.InFlight]) room
    (inv.objects.heaps.nonnull _ (inv.objects.heaps.owner _ _ owned))
    (link_at_store s.mem headBound) fun old apart flying =>
      others old apart (by rintro absent; simp [absent, NodePlace.InFlight] at flying)
  have targets : ∀ owner, (Function.update s.outgoingBatch tlh
      (pushed (s.outgoingBatch tlh) ptr) owner).targetTlh = (s.outgoingBatch owner).targetTlh := by
    intro owner
    by_cases same : owner = tlh
    · subst same
      simp [pushed]
    · simp [same]
  have owners : OwnerInv (Function.update s.outgoingBatch tlh (pushed (s.outgoingBatch tlh) ptr))
      g.kind g.node := by
    refine { inv.objects.owners with batch := fun other owner there => ?_ }
    rw [targets owner]
    exact inv.objects.owners.batch other owner there
  have objects := object_inv_relocate inv.objects (fun _ => Or.inl rfl) owners fun _ _ => id
  have moved : ObjectInv mode s.rtree (Function.update s.outgoingBatch tlh
      (pushed (s.outgoingBatch tlh) ptr)) s.direct s.heaps g.kind
      (Function.update g.node ptr (.batch tlh)) := by
    refine object_inv_update objects ?_ ?_ (by simp) (by simp) ?_ ?_ (by simp)
    · intro _
      cases known : g.kind (chunkBase ptr) <;> simp_all [BlockKind.owner, BlockKind.HoldsObjects]
    · intro owner same
      obtain rfl : tlh = owner := by simpa using same
      exact ⟨by rw [targets tlh]; exact owned, heap⟩
    · intro header isDirect
      simp [isDirect, BlockKind.owner] at owned
    · exact fun resolving _ => resolves resolving
  have relocated : Relocated g.node (Function.update g.node ptr (.batch tlh)) := by
    intro other
    by_cases same : other = ptr
    · rw [same, live, Function.update_self]
      exact Or.inr ⟨trivial, trivial⟩
    · exact Or.inl (Function.update_of_ne same _ _)
  have last := inv_relocate inv relocated (fun other free => others other (by
    rintro rfl
    simp [live] at free) (by simp [free])) mail moved
  unfold enqueueRemote
  simp only [count]
  exact last

theorem swept_batched {slab : Nat → Slab} {node : Nat → NodePlace}
    (present : ∀ other, g.node other ≠ .none → node other ≠ .none) :
    Swept slab g slab (({ g with node := node } : Ghost).settle ptr (.batch tlh)) := by
  refine swept_of_course (course_same rfl rfl) rfl fun other before => ?_
  by_cases same : other = ptr
  · simp [same]
  · simpa [same] using present other before

theorem inv_free_remote (inv : Inv mode s g) (live : g.node ptr = .live)
    (owned : (g.kind (chunkBase ptr)).owner = some owner) (heap : tlh ∈ s.heaps)
    (resolves : mode.freesResolve → lzRtreeGet s.rtree ptr ≠ 0) :
    ∃ last, Inv mode (lzTlhFreeRemote s tlh owner ptr) last ∧ Released g last ptr ∧
      Swept s.slab g (lzTlhFreeRemote s tlh owner ptr).slab last ∧ last.node ptr = .batch tlh := by
  have cleared : Inv mode (setLink s ptr 0) g := by
    refine inv_mem inv fun other carries => ?_
    have apart : other ≠ ptr := by
      rintro rfl
      simp [live, NodePlace.InFlight] at carries
    refine core_link_store_other inv.toCore (by simp [live]) ?_ apart
    intro absent
    simp [absent, NodePlace.InFlight] at carries
  unfold lzTlhFreeRemote
  simp only
  by_cases other : ((setLink s ptr 0).outgoingBatch tlh).targetTlh ≠ owner ∨
      ((setLink s ptr 0).outgoingBatch tlh).count ≥ lzBatchMaxSize
  · rw [if_pos other]
    obtain ⟨node, flushedInv, quiet, empty, places⟩ := inv_flush cleared tlh
    have only := lz_tlh_flush_only (setLink s ptr 0) tlh
    have ready := inv_retarget flushedInv empty owner
    have enqueued := inv_enqueue ready tlh ((quiet.live ptr).mpr live)
      (by simpa using owned) (by simp [empty]) (by rw [only]; exact heap)
      (by rw [only]; exact resolves)
    refine ⟨_, enqueued, quiet_released quiet
      (settle_released ((quiet.live ptr).mpr live) (by simp) (by simp)), ?_, by simp⟩
    rw [only]
    apply swept_batched
    intro other present
    rw [places, flushed]
    split
    · simp
    · exact present
  · rw [if_neg other]
    simp only [lzBatchMaxSize, not_or, not_not, not_le] at other
    have enqueued := inv_enqueue cleared tlh live (by rw [other.1]; exact owned) other.2
      heap resolves
    exact ⟨_, enqueued, settle_released live (by simp) (by simp), swept_batched fun _ => id,
      by simp⟩

theorem header_owner (core : Core mode s g) {chunk : Nat}
    (owned : (g.kind chunk).owner = some owner) : (s.vmm.header chunk).owningTlh = owner := by
  cases kind : g.kind chunk with
  | slab heap classIdx =>
      rw [(core.header.slab chunk heap classIdx kind).1]
      simpa [kind, BlockKind.owner] using owned
  | span heap =>
      rw [(core.header.span chunk heap kind).1]
      simpa [kind, BlockKind.owner] using owned
  | unused => simp [kind, BlockKind.owner] at owned
  | idle place => simp [kind, BlockKind.owner] at owned
  | loose => simp [kind, BlockKind.owner] at owned
  | direct header => simp [kind, BlockKind.owner] at owned

/-- `lz_tlh_free` goes by the header at the start of the object's chunk. -/
theorem lz_tlh_free_eq (core : Core mode s g) (present : g.node ptr ≠ .none)
    (owned : (g.kind (chunkBase ptr)).owner = some owner) (tlh : Nat) :
    lzTlhFree s tlh ptr =
      if owner = tlh then
        match (s.vmm.header (chunkBase ptr)).chunkType with
        | .slab => lzTlhFreeSlab s tlh (chunkBase ptr) ptr
        | .span => lzSpanFreeLocal s tlh (chunkBase ptr) ptr
        | .direct => s
      else lzTlhFreeRemote s tlh owner ptr := by
  obtain ⟨positive, _⟩ := core_node_bound core present
  obtain ⟨_, base, _⟩ := core_placed core present
  have taken : (g.kind (chunkBase ptr)).TakenOut := by
    cases known : g.kind (chunkBase ptr) <;> simp_all [BlockKind.owner, BlockKind.TakenOut]
  unfold lzTlhFree
  cases type : (s.vmm.header (chunkBase ptr)).chunkType <;>
    simp only [if_neg (by omega : ¬ptr = 0), if_pos (core.vmm.takenHeader _ taken).1,
      if_neg (by omega : ¬chunkBase ptr = 0), header_owner core owned, type]

theorem lz_tlh_free_slab_eq (core : Core mode s g) (present : g.node ptr ≠ .none) {classIdx : Nat}
    (isSlab : g.kind (chunkBase ptr) = .slab tlh classIdx) :
    lzTlhFree s tlh ptr = lzTlhFreeSlab s tlh (chunkBase ptr) ptr := by
  rw [lz_tlh_free_eq core present (by rw [isSlab]; rfl) tlh, if_pos rfl,
    (core.header.slab _ tlh classIdx isSlab).2.1]

theorem lz_tlh_free_span_eq (core : Core mode s g) (present : g.node ptr ≠ .none)
    (isSpan : g.kind (chunkBase ptr) = .span tlh) :
    lzTlhFree s tlh ptr = lzSpanFreeLocal s tlh (chunkBase ptr) ptr := by
  rw [lz_tlh_free_eq core present (by rw [isSpan]; rfl) tlh, if_pos rfl,
    (core.header.span _ tlh isSpan).2]

theorem lz_tlh_free_remote_eq (core : Core mode s g) (present : g.node ptr ≠ .none)
    (owned : (g.kind (chunkBase ptr)).owner = some owner) (other : owner ≠ tlh) :
    lzTlhFree s tlh ptr = lzTlhFreeRemote s tlh owner ptr := by
  rw [lz_tlh_free_eq core present owned tlh, if_neg other]

/-- `lz_tlh_free` of a live object, by its owner or by any other heap. -/
theorem inv_tlh_free (inv : Inv mode s g) (live : g.node ptr = .live)
    (owned : (g.kind (chunkBase ptr)).owner = some owner) (heap : tlh ∈ s.heaps)
    (resolves : mode.freesResolve → lzRtreeGet s.rtree ptr ≠ 0) :
    ∃ last, Inv mode (lzTlhFree s tlh ptr) last ∧ Released g last ptr ∧
      Swept s.slab g (lzTlhFree s tlh ptr).slab last ∧
      (owner = tlh ∧ Landed g last ∨ owner ≠ tlh ∧ last.node ptr = .batch tlh) := by
  have present : g.node ptr ≠ .none := by simp [live]
  by_cases mine : owner = tlh
  · subst mine
    cases known : g.kind (chunkBase ptr) with
    | slab holder classIdx =>
        obtain rfl : holder = owner := by simpa [known, BlockKind.owner] using owned
        rw [lz_tlh_free_slab_eq inv.toCore present known]
        obtain ⟨last, lastInv, released, swept, landed⟩ := inv_free_slab inv known live
        exact ⟨last, lastInv, released, swept, Or.inl ⟨rfl, landed⟩⟩
    | span holder =>
        obtain rfl : holder = owner := by simpa [known, BlockKind.owner] using owned
        rw [lz_tlh_free_span_eq inv.toCore present known]
        obtain ⟨last, lastInv, released, swept, landed⟩ := inv_span_free inv known live
        exact ⟨last, lastInv, released, swept, Or.inl ⟨rfl, landed⟩⟩
    | unused => simp [known, BlockKind.owner] at owned
    | idle place => simp [known, BlockKind.owner] at owned
    | loose => simp [known, BlockKind.owner] at owned
    | direct header => simp [known, BlockKind.owner] at owned
  · rw [lz_tlh_free_remote_eq inv.toCore present owned mine]
    obtain ⟨last, lastInv, released, swept, batched⟩ := inv_free_remote inv live owned heap resolves
    exact ⟨last, lastInv, released, swept, Or.inr ⟨mine, batched⟩⟩

end Lzmalloc.RemoteFree
