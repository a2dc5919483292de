import Lzmalloc.RemoteRaces

/-!
# Delivery of remote frees

In every interleaving a remotely freed block is in one place until its owner's
free logic gets it, once per free. The places are read off the concrete lists:
the batches, the mailboxes and what reaping heaps have detached.
-/

namespace Lzmalloc.DeliveryContracts

open SizeClasses PointerChain StepSystem RemoteRaces

set_option autoImplicit false

inductive RemoteSpot
  | batch (heap : Nat)
  | mailbox (heap : Nat)
  | detached (heap : Nat)

def AtSpot (s : RemoteSys) (block : Nat) : RemoteSpot → Prop
  | .batch heap => 0 < (s.batch heap).count ∧
      OnBatch s.next (s.batch heap).head (s.batch heap).tail (s.batch heap).count block
  | .mailbox heap => OnChain s.next (s.mailbox heap) block
  | .detached heap => ∃ head, s.pc heap = .reaping head ∧ OnChain s.next head block

structure Delivered (s : RemoteSys) : Prop where
  /-- A free that has not been handed over yet is in one place. -/
  once : ∀ block, s.freed block = s.handed block + 1 → ∃! spot, AtSpot s block spot
  /-- At most one free of a block is on its way. -/
  counted : ∀ block, s.freed block = s.handed block ∨ s.freed block = s.handed block + 1
  /-- What has been handed over is nowhere any more. -/
  nowhere : ∀ block, s.freed block = s.handed block → ∀ spot, ¬AtSpot s block spot
  /-- Only the owner hands a block to its free logic. -/
  owner : ∀ block heap, AtSpot s block (.detached heap) → s.owner block = heap
  batches : ∀ heap, (s.batch heap).count ≤ lzBatchMaxSize ∧
    ((s.batch heap).count = 0 → (s.batch heap).head = 0) ∧
    (0 < (s.batch heap).count → ∃ front,
      Segment s.next (s.batch heap).head front (s.batch heap).tail ∧
        (front ++ [(s.batch heap).tail]).Nodup ∧ front.length + 1 = (s.batch heap).count)

def RemoteSpot.place : RemoteSpot → RemotePlace
  | .batch heap => .batch heap
  | .mailbox heap => .mail heap
  | .detached heap => .reap heap

theorem place_injective {spot other : RemoteSpot} (same : spot.place = other.place) :
    spot = other := by
  cases spot <;> cases other <;> simp_all [RemoteSpot.place]

variable {s : RemoteSys} {place : Nat → Option RemotePlace} {block : Nat}

theorem at_spot_iff (inv : RemoteInv s place) (spot : RemoteSpot) :
    AtSpot s block spot ↔ place block = some spot.place := by
  cases spot with
  | batch heap =>
      have batch := inv.batches heap
      constructor
      · rintro ⟨filled, visited⟩
        exact (ends_at_on_batch (batch.filled filled).2).mp visited
      · intro there
        have filled : 0 < (s.batch heap).count := by
          refine Nat.pos_of_ne_zero fun zero => ?_
          exact (batch.empty zero).2 block there
        exact ⟨filled, (ends_at_on_batch (batch.filled filled).2).mpr there⟩
  | mailbox heap =>
      obtain ⟨count, chain⟩ := inv.mail heap
      exact enumerates_on_chain chain
  | detached heap =>
      have point := inv.points heap
      constructor
      · rintro ⟨head, at_, visited⟩
        rw [at_] at point
        obtain ⟨_, count, chain⟩ := point
        exact (enumerates_on_chain chain).mp visited
      · intro there
        cases at_ : s.pc heap with
        | reaping head =>
            rw [at_] at point
            obtain ⟨_, count, chain⟩ := point
            exact ⟨head, at_, (enumerates_on_chain chain).mpr there⟩
        | idle =>
            rw [at_] at point
            exact absurd there (point.2 block)
        | freeing node owner =>
            rw [at_] at point
            exact absurd there (point.2.1 block)
        | enqueueing node =>
            rw [at_] at point
            exact absurd there (point.2.1 block)
        | flushLoad next =>
            rw [at_] at point
            exact absurd there (point.reap block)
        | flushWrite next oldHead =>
            rw [at_] at point
            exact absurd there (point.reap block)
        | flushExchange next oldHead =>
            rw [at_] at point
            exact absurd there (point.1.reap block)

theorem flights_spot (there : flights (place block) = 1) :
    ∃ spot : RemoteSpot, place block = some spot.place := by
  cases known : place block with
  | none =>
      rw [known] at there
      cases there
  | some at_ =>
      rw [known] at there
      cases at_ with
      | call heap => cases there
      | batch heap => exact ⟨.batch heap, rfl⟩
      | mail heap => exact ⟨.mailbox heap, rfl⟩
      | reap heap => exact ⟨.detached heap, rfl⟩

theorem flights_place (spot : RemoteSpot) : flights (some spot.place) = 1 := by
  cases spot <;> rfl

theorem flights_le (there : Option RemotePlace) : flights there = 0 ∨ flights there = 1 := by
  cases there with
  | none => exact Or.inl rfl
  | some at_ => cases at_ <;> simp [flights]

theorem delivered (inv : RemoteInv s place) : Delivered s := by
  refine ⟨fun block flying => ?_, fun block => ?_, fun block settled spot here => ?_,
    fun block heap here => ?_, fun heap => ?_⟩
  · have tally := inv.tally block
    obtain ⟨spot, there⟩ := flights_spot (by omega : flights (place block) = 1)
    refine ⟨spot, (at_spot_iff inv spot).mpr there, fun other known => ?_⟩
    have otherThere := (at_spot_iff inv other).mp known
    exact place_injective (Option.some.inj (otherThere.symm.trans there))
  · have tally := inv.tally block
    have bound := flights_le (place block)
    omega
  · have there := (at_spot_iff inv spot).mp here
    have tally := inv.tally block
    rw [there, flights_place] at tally
    omega
  · have there := (at_spot_iff inv (.detached heap)).mp here
    exact inv.owners block _ there
  · have batch := inv.batches heap
    refine ⟨batch.limit, fun zero => (batch.empty zero).1, fun filled => ?_⟩
    obtain ⟨front, segment, _, nodup, _, length⟩ := (batch.filled filled).2
    exact ⟨front, segment, nodup, length⟩

/-- Nothing is lost or duplicated, in every state of every interleaving. -/
theorem remote_frees_delivered (next owner : Nat → Nat) (actions : List RemoteAct) (s : RemoteSys)
    (ran : run remoteStep (remoteStart next owner) actions = some s) : Delivered s := by
  obtain ⟨place, inv⟩ := remote_run ran
  exact delivered inv

/-- Heap 3 loads the head 100 of heap 1's mailbox. Before its exchange, heap 1
reaps and reallocates block 100, the client writes to it and heap 2 frees it
again, losing one exchange on the way; heap 3 then succeeds with the old head. -/
def recycledHead : List RemoteAct :=
  [.alloc 1 100, .alloc 1 200, .free 2 100, .step 2 0, .step 2 0, .flush 2, .step 2 0, .step 2 0,
    .step 2 0, .free 3 200, .step 3 0, .step 3 0, .flush 3, .step 3 0, .step 3 0, .reap 1,
    .step 1 5, .step 1 0, .alloc 1 100, .write 100 77, .free 2 100, .step 2 0, .step 2 0, .flush 2,
    .step 2 0, .step 2 0, .exchangeFails 2, .step 2 0, .step 2 0, .step 3 0, .reap 1, .step 1 6,
    .step 1 6, .step 1 0]

theorem recycled_head_delivered :
    ∃ s, run remoteStep (remoteStart (fun _ => 0) fun _ => 1) recycledHead = some s ∧
      s.freed 100 = 2 ∧ s.handed 100 = 2 ∧ s.handed 200 = 1 ∧ Delivered s := by
  have finishes : ((run remoteStep (remoteStart (fun _ => 0) fun _ => 1) recycledHead).map fun s =>
      (s.freed 100, s.handed 100, s.handed 200)) = some (2, 2, 1) := by decide +kernel
  obtain ⟨s, ran, counts⟩ := Option.map_eq_some_iff.mp finishes
  obtain ⟨freed, handed⟩ := Prod.mk.inj counts
  obtain ⟨first, second⟩ := Prod.mk.inj handed
  exact ⟨s, ran, freed, first, second, remote_frees_delivered _ _ _ s ran⟩

end Lzmalloc.DeliveryContracts
