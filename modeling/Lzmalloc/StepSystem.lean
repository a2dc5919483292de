import Mathlib.Data.Option.Basic
import Mathlib.Data.List.Basic

/-!
# Runs of labelled step functions

A system is a partial step function: every label resolves all choices of the
step (scheduling, environment answers), `none` means that the step cannot be
taken. A run is a list of labels. `Along` states a condition on every step of a
run in the state before that step, which is how preconditions on an
environment and on a schedule are expressed.
-/

namespace Lzmalloc.StepSystem

set_option autoImplicit false

variable {State Action : Type*}

def run (step : State → Action → Option State) : State → List Action → Option State
  | state, [] => some state
  | state, action :: rest => (step state action).bind fun reached => run step reached rest

/-- Every step of the run is allowed in the state in which it is taken. -/
def Along (step : State → Action → Option State) (allowed : State → Action → Prop) :
    State → List Action → Prop
  | _, [] => True
  | state, action :: rest =>
      allowed state action ∧
        ∀ reached, step state action = some reached → Along step allowed reached rest

variable {step : State → Action → Option State} {allowed : State → Action → Prop}
  {invariant : State → Prop}

theorem along_cons_iff (state : State) (action : Action) (rest : List Action) :
    Along step allowed state (action :: rest) ↔
      allowed state action ∧
        (step state action).elim True fun reached => Along step allowed reached rest := by
  cases stepped : step state action with
  | none => simp [Along, stepped]
  | some reached => simp [Along, stepped]

instance decidableAlong [∀ state action, Decidable (allowed state action)] :
    (state : State) → (actions : List Action) → Decidable (Along step allowed state actions)
  | _, [] => isTrue trivial
  | state, action :: rest =>
      haveI : Decidable
          ((step state action).elim True fun reached => Along step allowed reached rest) :=
        match step state action with
        | none => isTrue trivial
        | some reached => decidableAlong reached rest
      decidable_of_iff' _ (along_cons_iff state action rest)

@[simp] theorem run_nil (state : State) : run step state [] = some state := rfl

@[simp] theorem run_cons (state : State) (action : Action) (rest : List Action) :
    run step state (action :: rest) =
      (step state action).bind fun reached => run step reached rest := rfl

theorem run_append (state : State) (left right : List Action) :
    run step state (left ++ right) =
      (run step state left).bind fun reached => run step reached right := by
  induction left generalizing state with
  | nil => rfl
  | cons action rest ih =>
      simp only [List.cons_append, run_cons]
      cases step state action with
      | none => rfl
      | some reached => exact ih reached

theorem along_append (state : State) (left right : List Action) :
    Along step allowed state (left ++ right) ↔
      Along step allowed state left ∧
        ∀ reached, run step state left = some reached → Along step allowed reached right := by
  induction left generalizing state with
  | nil => simp [Along]
  | cons action rest ih =>
      simp only [List.cons_append, Along, run_cons, ih]
      constructor
      · rintro ⟨here, later⟩
        refine ⟨⟨here, fun reached stepped => (later reached stepped).1⟩, fun final ran => ?_⟩
        obtain ⟨reached, stepped, ranRest⟩ := Option.bind_eq_some_iff.mp ran
        exact (later reached stepped).2 final ranRest
      · rintro ⟨⟨here, later⟩, final⟩
        refine ⟨here, fun reached stepped => ⟨later reached stepped, fun last ran => ?_⟩⟩
        exact final last (Option.bind_eq_some_iff.mpr ⟨reached, stepped, ran⟩)

/-- The induction rule for runs: what every allowed step preserves holds after
every run of allowed steps. -/
theorem run_invariant
    (preserved : ∀ state action reached, invariant state → allowed state action →
      step state action = some reached → invariant reached)
    {start finish : State} {actions : List Action} (initial : invariant start)
    (along : Along step allowed start actions) (ran : run step start actions = some finish) :
    invariant finish := by
  induction actions generalizing start with
  | nil =>
      obtain rfl : start = finish := Option.some.inj ran
      exact initial
  | cons action rest ih =>
      obtain ⟨reached, stepped, ranRest⟩ := Option.bind_eq_some_iff.mp ran
      exact ih (preserved start action reached initial along.1 stepped)
        (along.2 reached stepped) ranRest

theorem along_of_allowed (always : ∀ state action, allowed state action) (state : State)
    (actions : List Action) : Along step allowed state actions := by
  induction actions generalizing state with
  | nil => trivial
  | cons action rest ih => exact ⟨always state action, fun reached _ => ih reached⟩

theorem along_imp {weaker : State → Action → Prop}
    (weaken : ∀ state action, allowed state action → weaker state action) {state : State}
    {actions : List Action} (along : Along step allowed state actions) :
    Along step weaker state actions := by
  induction actions generalizing state with
  | nil => trivial
  | cons action rest ih =>
      exact ⟨weaken state action along.1, fun reached stepped => ih (along.2 reached stepped)⟩

theorem along_of_mem {actions : List Action}
    (each : ∀ action ∈ actions, ∀ state, allowed state action) (state : State) :
    Along step allowed state actions := by
  induction actions generalizing state with
  | nil => trivial
  | cons action rest ih =>
      refine ⟨each action List.mem_cons_self state, fun reached _ => ?_⟩
      exact ih (fun later member => each later (List.mem_cons_of_mem action member)) reached

theorem run_invariant_always
    (preserved : ∀ state action reached, invariant state →
      step state action = some reached → invariant reached)
    {start finish : State} {actions : List Action} (initial : invariant start)
    (ran : run step start actions = some finish) : invariant finish := by
  have along : Along step (fun _ _ => True) start actions :=
    along_of_allowed (fun _ _ => trivial) start actions
  exact run_invariant (fun state action reached holds _ stepped =>
    preserved state action reached holds stepped) initial along ran

/-- The rule for exact conditions: when a step from a good state ends in a good
state exactly if the step keeps to a condition, all states of a run are good
exactly if all its steps keep to the condition. -/
theorem good_along_iff {good : State → Prop} {keeps : State → Action → Prop}
    {permitted : Action → Prop}
    (exactly : ∀ state action reached, invariant state → good state → permitted action →
      step state action = some reached → invariant reached ∧ (good reached ↔ keeps state action))
    {start finish : State} {actions : List Action} (initial : invariant start)
    (sound : good start) (each : ∀ action ∈ actions, permitted action)
    (ran : run step start actions = some finish) :
    (∀ before reached, before <+: actions → run step start before = some reached → good reached) ↔
      Along step keeps start actions := by
  induction actions generalizing start with
  | nil =>
      refine iff_of_true (fun before reached begins there => ?_) trivial
      obtain rfl := List.prefix_nil.mp begins
      obtain rfl := Option.some.inj there
      exact sound
  | cons action rest ih =>
      obtain ⟨next, stepped, later⟩ := Option.bind_eq_some_iff.mp ran
      obtain ⟨nextHolds, same⟩ :=
        exactly start action next initial sound (each action List.mem_cons_self) stepped
      have others := fun other member => each other (List.mem_cons_of_mem action member)
      constructor
      · intro always
        have here : good next := always [action] next (by simp) (by simp [stepped])
        refine ⟨same.mp here, fun reached again => ?_⟩
        obtain rfl := Option.some.inj (stepped.symm.trans again)
        apply (ih nextHolds here others later).mp
        intro before state begins there
        apply always (action :: before) state ((List.prefix_cons_inj action).mpr begins)
        rw [run_cons, stepped]
        exact there
      · rintro ⟨kept, along⟩ before state begins there
        have following := (ih nextHolds (same.mpr kept) others later).mpr (along next stepped)
        cases before with
        | nil =>
            obtain rfl := Option.some.inj there
            exact sound
        | cons first before =>
            obtain ⟨rfl, tail⟩ := List.cons_prefix_cons.mp begins
            rw [run_cons, stepped] at there
            exact following before state tail there

/-! ## Refinement

An abstract system is a relation on its states, labelled by what can be
observed. A concrete system refines it when every concrete step, read through
an abstraction function, is a step of the abstract system with the same label.
-/

section Refinement

variable {Abstract Label : Type*} {move : Abstract → Label → Abstract → Prop}

inductive Path (move : Abstract → Label → Abstract → Prop) :
    Abstract → List Label → Abstract → Prop
  | nil (state : Abstract) : Path move state [] state
  | cons {state next final : Abstract} {label : Label} {rest : List Label}
      (first : move state label next) (later : Path move next rest final) :
      Path move state (label :: rest) final

def trace (step : State → Action → Option State) (label : State → Action → Label) :
    State → List Action → List Label
  | _, [] => []
  | state, action :: rest =>
      label state action :: (step state action).elim [] fun reached => trace step label reached rest

theorem path_invariant {holds : Abstract → Prop}
    (preserved : ∀ state label next, holds state → move state label next → holds next)
    {start finish : Abstract} {labels : List Label} (path : Path move start labels finish)
    (initial : holds start) : holds finish := by
  induction path with
  | nil => exact initial
  | cons first later ih => exact ih (preserved _ _ _ initial first)

theorem path_invariant_labels {holds : Abstract → Prop} {permitted : Label → Prop}
    (preserved : ∀ state label next, holds state → permitted label → move state label next →
      holds next)
    {start finish : Abstract} {labels : List Label} (path : Path move start labels finish)
    (each : ∀ label ∈ labels, permitted label) (initial : holds start) : holds finish := by
  induction path with
  | nil => exact initial
  | cons first later ih =>
      apply ih
      · exact fun label member => each label (List.mem_cons_of_mem _ member)
      · exact preserved _ _ _ initial (each _ List.mem_cons_self) first

/-- The rule for refinements: what holds of single steps holds of runs. -/
theorem run_refines {view : State → Abstract} {label : State → Action → Label}
    (refines : ∀ state action reached, invariant state → allowed state action →
      step state action = some reached →
        invariant reached ∧ move (view state) (label state action) (view reached))
    {start finish : State} {actions : List Action} (initial : invariant start)
    (along : Along step allowed start actions) (ran : run step start actions = some finish) :
    Path move (view start) (trace step label start actions) (view finish) := by
  induction actions generalizing start with
  | nil =>
      obtain rfl : start = finish := Option.some.inj ran
      exact Path.nil _
  | cons action rest ih =>
      obtain ⟨reached, stepped, ranRest⟩ := Option.bind_eq_some_iff.mp ran
      obtain ⟨holds, moved⟩ := refines start action reached initial along.1 stepped
      have later := ih holds (along.2 reached stepped) ranRest
      rw [trace, stepped]
      exact Path.cons moved later

end Refinement

end Lzmalloc.StepSystem
