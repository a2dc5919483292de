import Mathlib.Logic.Function.Basic
import Lzmalloc.StepSystem

/-!
# Heaps as their clients see them

A heap is a set of blocks with their bytes. A client asks for blocks, resizes
them, writes into them and gives them back; it sees which address answers a
request and which bytes its blocks hold. Where a block is placed is up to the
heap, as long as it shares no byte with another block. Work of the heap that no
client asked for changes no block.
-/

namespace Lzmalloc.AbstractHeap

open StepSystem

set_option autoImplicit false

/-- The bytes of the block at an address, if one starts there. -/
abbrev Heap := Nat → Option (List UInt8)

def emptyHeap : Heap := fun _ => none

/-- What a client sees of a call; the answer 0 refuses the request. The flag says
whether the heap took the old block back or ignored that it was given back. -/
inductive Event
  | malloc (size answer : Nat)
  | calloc (num size answer : Nat)
  | memalign (alignment size answer : Nat)
  | realloc (ptr size answer : Nat) (released : Bool)
  | free (ptr : Nat) (released : Bool)
  | write (ptr offset : Nat) (value : UInt8)
  | internal

structure Fresh (heap : Heap) (ptr length : Nat) : Prop where
  nonnull : ptr ≠ 0
  unused : heap ptr = none
  apart : ∀ other bytes, heap other = some bytes →
    ptr + length ≤ other ∨ other + bytes.length ≤ ptr

/-- The heap answers with a new block that is `fit` for the request. -/
structure Places (heap : Heap) (answer : Nat) (fit : List UInt8 → Prop) (bytes : List UInt8) :
    Prop where
  fresh : Fresh heap answer bytes.length
  fit : fit bytes

inductive Grants (heap : Heap) (answer : Nat) (fit : List UInt8 → Prop) : Heap → Prop
  | refused (null : answer = 0) : Grants heap answer fit heap
  | granted (bytes : List UInt8) (places : Places heap answer fit bytes) :
      Grants heap answer fit (Function.update heap answer (some bytes))

def AtLeast (size : Nat) (bytes : List UInt8) : Prop := size ≤ bytes.length

def Cleared (size : Nat) (bytes : List UInt8) : Prop := ∀ index < size, bytes[index]? = some 0

def Extends (old : List UInt8) (size : Nat) (bytes : List UInt8) : Prop :=
  size ≤ bytes.length ∧ ∀ index < min old.length size, bytes[index]? = old[index]?

def release (heap : Heap) (ptr : Nat) (released : Bool) : Heap :=
  if released then Function.update heap ptr none else heap

inductive Step (heap : Heap) : Event → Heap → Prop
  | malloc {size answer : Nat} {after : Heap} (grants : Grants heap answer (AtLeast size) after) :
      Step heap (.malloc size answer) after
  | calloc {num size answer : Nat} {after : Heap}
      (grants : Grants heap answer (Cleared (num * size)) after) :
      Step heap (.calloc num size answer) after
  | memalign {alignment size answer : Nat} {after : Heap}
      (grants : Grants heap answer (AtLeast size) after) :
      Step heap (.memalign alignment size answer) after
  | reallocNull {size answer : Nat} {released : Bool} {after : Heap}
      (grants : Grants heap answer (AtLeast size) after) :
      Step heap (.realloc 0 size answer released) after
  | reallocZero {ptr : Nat} {released : Bool} (nonnull : ptr ≠ 0) (held : (heap ptr).isSome) :
      Step heap (.realloc ptr 0 0 released) (release heap ptr released)
  | reallocFailed {ptr size : Nat} {released : Bool} (held : (heap ptr).isSome) :
      Step heap (.realloc ptr size 0 released) heap
  | reallocStays {ptr size : Nat} {released : Bool} {bytes : List UInt8}
      (held : heap ptr = some bytes) (room : size ≤ bytes.length) :
      Step heap (.realloc ptr size ptr released) heap
  | reallocMoves {ptr size answer : Nat} {released : Bool} {old bytes : List UInt8}
      (held : heap ptr = some old)
      (places : Places (release heap ptr released) answer (Extends old size) bytes) :
      Step heap (.realloc ptr size answer released)
        (Function.update (release heap ptr released) answer (some bytes))
  | freeNull {released : Bool} : Step heap (.free 0 released) heap
  | free {ptr : Nat} {released : Bool} (held : (heap ptr).isSome) :
      Step heap (.free ptr released) (release heap ptr released)
  | write {ptr offset : Nat} {value : UInt8} {bytes : List UInt8} (held : heap ptr = some bytes)
      (inside : offset < bytes.length) :
      Step heap (.write ptr offset value) (Function.update heap ptr (some (bytes.set offset value)))
  | internal : Step heap .internal heap

variable {heap after : Heap} {event : Event} {ptr other answer : Nat} {bytes : List UInt8}

/-! ## Blocks share no byte -/

structure Separate (heap : Heap) : Prop where
  nonnull : heap 0 = none
  apart : ∀ left right leftBytes rightBytes, left < right → heap left = some leftBytes →
    heap right = some rightBytes → left + leftBytes.length ≤ right

theorem separate_empty : Separate emptyHeap := by
  constructor
  · rfl
  · intro left right leftBytes rightBytes before there
    cases there

theorem separate_release (separate : Separate heap) (ptr : Nat) (released : Bool) :
    Separate (release heap ptr released) := by
  unfold release
  split
  · constructor
    · by_cases null : 0 = ptr
      · rw [← null, Function.update_self]
      · rw [Function.update_of_ne null, separate.nonnull]
    · intro left right leftBytes rightBytes before leftHeld rightHeld
      have leftOther : left ≠ ptr := by
        intro same
        rw [same, Function.update_self] at leftHeld
        cases leftHeld
      have rightOther : right ≠ ptr := by
        intro same
        rw [same, Function.update_self] at rightHeld
        cases rightHeld
      rw [Function.update_of_ne leftOther] at leftHeld
      rw [Function.update_of_ne rightOther] at rightHeld
      exact separate.apart left right leftBytes rightBytes before leftHeld rightHeld
  · exact separate

theorem separate_place (separate : Separate heap) (nonnull : ptr ≠ 0)
    (apart : ∀ other held, other ≠ ptr → heap other = some held →
      ptr + bytes.length ≤ other ∨ other + held.length ≤ ptr) :
    Separate (Function.update heap ptr (some bytes)) := by
  constructor
  · rw [Function.update_of_ne nonnull.symm, separate.nonnull]
  · intro left right leftBytes rightBytes before leftHeld rightHeld
    by_cases leftNew : left = ptr
    · have rightOther : right ≠ ptr := by omega
      rw [leftNew, Function.update_self, Option.some.injEq] at leftHeld
      rw [Function.update_of_ne rightOther] at rightHeld
      have either := apart right rightBytes rightOther rightHeld
      rw [leftNew, ← leftHeld]
      omega
    · rw [Function.update_of_ne leftNew] at leftHeld
      by_cases rightNew : right = ptr
      · have either := apart left leftBytes leftNew leftHeld
        omega
      · rw [Function.update_of_ne rightNew] at rightHeld
        exact separate.apart left right leftBytes rightBytes before leftHeld rightHeld

theorem separate_grants {fit : List UInt8 → Prop} (separate : Separate heap)
    (grants : Grants heap answer fit after) : Separate after := by
  cases grants with
  | refused => exact separate
  | granted bytes places =>
      apply separate_place separate places.fresh.nonnull
      exact fun other held _ there => places.fresh.apart other held there

theorem step_separate (separate : Separate heap) (step : Step heap event after) :
    Separate after := by
  cases step with
  | malloc grants => exact separate_grants separate grants
  | calloc grants => exact separate_grants separate grants
  | memalign grants => exact separate_grants separate grants
  | reallocNull grants => exact separate_grants separate grants
  | reallocZero nonnull held => exact separate_release separate _ _
  | reallocFailed held => exact separate
  | reallocStays held room => exact separate
  | reallocMoves held places =>
      apply separate_place (separate_release separate _ _) places.fresh.nonnull
      exact fun other bytes _ there => places.fresh.apart other bytes there
  | freeNull => exact separate
  | free held => exact separate_release separate _ _
  | @write ptr offset value bytes held inside =>
      apply separate_place separate
      · intro null
        rw [null, separate.nonnull] at held
        cases held
      · intro other otherBytes different there
        rw [List.length_set]
        cases Nat.lt_or_gt_of_ne different with
        | inl before =>
            right
            exact separate.apart other ptr otherBytes bytes before there held
        | inr behind =>
            left
            exact separate.apart ptr other bytes otherBytes behind held there
  | internal => exact separate

theorem fresh_of_separate (separate : Separate (Function.update heap ptr (some bytes)))
    (unused : heap ptr = none) : Fresh heap ptr bytes.length := by
  have here : Function.update heap ptr (some bytes) ptr = some bytes := Function.update_self ptr _ _
  constructor
  · intro null
    subst null
    rw [separate.nonnull] at here
    cases here
  · exact unused
  · intro other held there
    have different : other ≠ ptr := by
      intro same
      rw [same, unused] at there
      cases there
    have kept : Function.update heap ptr (some bytes) other = some held := by
      rw [Function.update_of_ne different, there]
    cases Nat.lt_or_gt_of_ne different with
    | inl before =>
        right
        exact separate.apart other ptr held bytes before kept here
    | inr behind =>
        left
        exact separate.apart ptr other bytes held behind here kept

/-! ## Two heaps side by side -/

def join (left right : Heap) : Heap := fun ptr => (left ptr).or (right ptr)

/-- No block of the one heap touches a block of the other. -/
def Beside (left right : Heap) : Prop :=
  ∀ ptr bytes other held, left ptr = some bytes → right other = some held →
    ptr ≠ other ∧ (ptr + bytes.length ≤ other ∨ other + held.length ≤ ptr)

section Join

variable {left right : Heap}

theorem join_left (held : left ptr = some bytes) : join left right ptr = some bytes := by
  rw [join, held, Option.some_or]

theorem join_of_none (unused : left ptr = none) : join left right ptr = right ptr := by
  rw [join, unused, Option.none_or]

theorem join_cases (held : join left right ptr = some bytes) :
    left ptr = some bytes ∨ right ptr = some bytes := by
  cases there : left ptr with
  | none =>
      rw [join_of_none there] at held
      exact Or.inr held
  | some first =>
      rw [join_left there] at held
      exact Or.inl held

theorem beside_none (beside : Beside left right) (held : left ptr = some bytes) :
    right ptr = none := by
  cases there : right ptr with
  | none => rfl
  | some other => exact absurd rfl (beside ptr bytes ptr other held there).1

theorem join_place (left right : Heap) (ptr : Nat) (bytes : List UInt8) :
    join (Function.update left ptr (some bytes)) right =
      Function.update (join left right) ptr (some bytes) := by
  funext other
  by_cases same : other = ptr
  · rw [same, Function.update_self]
    exact join_left (Function.update_self ptr _ _)
  · rw [Function.update_of_ne same, join, join, Function.update_of_ne same]

theorem join_release (absent : right ptr = none) (released : Bool) :
    join (release left ptr released) right = release (join left right) ptr released := by
  unfold release
  split
  · funext other
    by_cases same : other = ptr
    · rw [same, Function.update_self, join_of_none (Function.update_self ptr _ _), absent]
    · rw [Function.update_of_ne same, join, join, Function.update_of_ne same]
  · rfl

theorem separate_join (leftSeparate : Separate left) (rightSeparate : Separate right)
    (beside : Beside left right) : Separate (join left right) := by
  constructor
  · rw [join_of_none leftSeparate.nonnull, rightSeparate.nonnull]
  · intro low high lowBytes highBytes before lowHeld highHeld
    cases join_cases lowHeld with
    | inl lowLeft =>
        cases join_cases highHeld with
        | inl highLeft => exact leftSeparate.apart low high _ _ before lowLeft highLeft
        | inr highRight =>
            have apart := (beside low lowBytes high highBytes lowLeft highRight).2
            omega
    | inr lowRight =>
        cases join_cases highHeld with
        | inl highLeft =>
            have apart := (beside high highBytes low lowBytes highLeft lowRight).2
            omega
        | inr highRight => exact rightSeparate.apart low high _ _ before lowRight highRight

theorem places_frame {fit : List UInt8 → Prop}
    (later : Beside (Function.update left answer (some bytes)) right)
    (places : Places left answer fit bytes) : Places (join left right) answer fit bytes := by
  have here : Function.update left answer (some bytes) answer = some bytes :=
    Function.update_self answer _ _
  constructor
  · constructor
    · exact places.fresh.nonnull
    · rw [join_of_none places.fresh.unused, beside_none later here]
    · intro other held there
      cases join_cases there with
      | inl leftHeld => exact places.fresh.apart other held leftHeld
      | inr rightHeld => exact (later answer bytes other held here rightHeld).2
  · exact places.fit

theorem grants_frame {fit : List UInt8 → Prop} (later : Beside after right)
    (grants : Grants left answer fit after) :
    Grants (join left right) answer fit (join after right) := by
  cases grants with
  | refused null => exact Grants.refused null
  | granted bytes places =>
      rw [join_place]
      exact Grants.granted bytes (places_frame later places)

theorem held_join (held : (left ptr).isSome) : (join left right ptr).isSome := by
  obtain ⟨bytes, there⟩ := Option.isSome_iff_exists.mp held
  rw [join_left there]
  rfl

/-- The frame rule: what one heap does, it does beside another heap. -/
theorem step_frame (before : Beside left right) (later : Beside after right)
    (step : Step left event after) : Step (join left right) event (join after right) := by
  have absent : ∀ ptr, (left ptr).isSome → right ptr = none := by
    intro ptr held
    obtain ⟨bytes, there⟩ := Option.isSome_iff_exists.mp held
    exact beside_none before there
  cases step with
  | malloc grants => exact Step.malloc (grants_frame later grants)
  | calloc grants => exact Step.calloc (grants_frame later grants)
  | memalign grants => exact Step.memalign (grants_frame later grants)
  | reallocNull grants => exact Step.reallocNull (grants_frame later grants)
  | reallocZero nonnull held =>
      rw [join_release (absent _ held)]
      exact Step.reallocZero nonnull (held_join held)
  | reallocFailed held => exact Step.reallocFailed (held_join held)
  | reallocStays held room => exact Step.reallocStays (join_left held) room
  | reallocMoves held places =>
      have moved := places_frame later places
      rw [join_place]
      rw [join_release (beside_none before held)] at moved ⊢
      exact Step.reallocMoves (join_left held) moved
  | freeNull => exact Step.freeNull
  | free held =>
      rw [join_release (absent _ held)]
      exact Step.free (held_join held)
  | write held inside =>
      rw [join_place]
      exact Step.write (join_left held) inside
  | internal => exact Step.internal

end Join

/-! ## Blocks keep their bytes -/

def Event.Concerns (ptr : Nat) : Event → Prop
  | .realloc old _ _ _ => old = ptr
  | .free old _ => old = ptr
  | .write written _ _ => written = ptr
  | _ => False

instance (ptr : Nat) : (event : Event) → Decidable (event.Concerns ptr)
  | .realloc old _ _ _ => inferInstanceAs (Decidable (old = ptr))
  | .free old _ => inferInstanceAs (Decidable (old = ptr))
  | .write written _ _ => inferInstanceAs (Decidable (written = ptr))
  | .malloc _ _ | .calloc _ _ _ | .memalign _ _ _ | .internal => inferInstanceAs (Decidable False)

theorem grants_keeps {fit : List UInt8 → Prop} (held : heap ptr = some bytes)
    (grants : Grants heap answer fit after) : after ptr = some bytes := by
  cases grants with
  | refused => exact held
  | granted placed places =>
      have different : ptr ≠ answer := by
        intro same
        rw [same, places.fresh.unused] at held
        cases held
      rw [Function.update_of_ne different, held]

theorem release_keeps {released : Bool} (held : heap ptr = some bytes) (different : ¬other = ptr) :
    release heap other released ptr = some bytes := by
  have distinct : ptr ≠ other := fun same => different same.symm
  unfold release
  split
  · rw [Function.update_of_ne distinct, held]
  · exact held

theorem step_keeps (held : heap ptr = some bytes) (other : ¬event.Concerns ptr)
    (step : Step heap event after) : after ptr = some bytes := by
  cases step with
  | malloc grants => exact grants_keeps held grants
  | calloc grants => exact grants_keeps held grants
  | memalign grants => exact grants_keeps held grants
  | reallocNull grants => exact grants_keeps held grants
  | reallocZero nonnull there => exact release_keeps held other
  | reallocFailed there => exact held
  | reallocStays there room => exact held
  | @reallocMoves old size answer released oldBytes placed there places =>
      have kept := @release_keeps heap ptr old bytes released held other
      have different : ptr ≠ answer := by
        intro same
        rw [same, places.fresh.unused] at kept
        cases kept
      rw [Function.update_of_ne different, kept]
  | freeNull => exact held
  | free there => exact release_keeps held other
  | @write written offset value old there inside =>
      have different : ptr ≠ written := fun same => other same.symm
      rw [Function.update_of_ne different, held]
  | internal => exact held

theorem path_separate {labels : List Event} (path : Path Step heap labels after)
    (separate : Separate heap) : Separate after := by
  apply path_invariant _ path separate
  exact fun _ _ _ holds step => step_separate holds step

theorem path_keeps {labels : List Event} (path : Path Step heap labels after)
    (each : ∀ label ∈ labels, ¬label.Concerns ptr) (held : heap ptr = some bytes) :
    after ptr = some bytes := by
  apply @path_invariant_labels _ _ _ (fun reached => reached ptr = some bytes) _ _ _ _ _
    path each held
  exact fun _ _ _ there other step => step_keeps there other step

end Lzmalloc.AbstractHeap
