import Mathlib

/-!
Runs of a system given by a partial step function. An action is taken in a
state when the environment allows it there and the step function enables it.
-/

set_option autoImplicit false

namespace Transition

universe u v

variable {σ : Type u} {α : Type v}

/-- States reached from `start` by actions that are allowed and enabled. -/
inductive Run (step : σ → α → Option σ) (allowed : σ → α → Prop) (start : σ) : σ → Prop where
  | refl : Run step allowed start start
  | tail {current next : σ} {action : α} : Run step allowed start current →
      allowed current action → step current action = some next → Run step allowed start next

variable {step : σ → α → Option σ} {allowed : σ → α → Prop} {start final : σ}

/-- What holds at the start and is preserved by every step holds throughout. -/
theorem Run.invariant (run : Run step allowed start final) (invariant : σ → Prop)
    (initially : invariant start)
    (preserved : ∀ current action next, invariant current → allowed current action →
      step current action = some next → invariant next) : invariant final := by
  induction run with
  | refl => exact initially
  | tail _ permitted taken ih => exact preserved _ _ _ ih permitted taken

theorem Run.weaken {permitted : σ → α → Prop} (run : Run step permitted start final)
    (implied : ∀ current action, permitted current action → allowed current action) :
    Run step allowed start final := by
  induction run with
  | refl => exact .refl
  | tail _ granted taken ih => exact .tail ih (implied _ _ granted) taken

section Execution

variable [∀ current action, Decidable (allowed current action)]

/-- Take the listed actions in turn, each only where it is allowed. -/
def execute (step : σ → α → Option σ) (allowed : σ → α → Prop)
    [∀ current action, Decidable (allowed current action)] : σ → List α → Option σ
  | state, [] => some state
  | state, action :: rest =>
      if allowed state action then
        match step state action with
        | none => none
        | some next => execute step allowed next rest
      else none

theorem run_of_execute {actions : List α}
    (executed : execute step allowed start actions = some final) :
    Run step allowed start final := by
  have extend : ∀ remaining current, Run step allowed start current →
      execute step allowed current remaining = some final → Run step allowed start final := by
    intro remaining
    induction remaining with
    | nil =>
        intro current run finished
        cases finished
        exact run
    | cons action remaining ih =>
        intro current run finished
        unfold execute at finished
        split at finished
        · rename_i permitted
          cases taken : step current action with
          | none => simp [taken] at finished
          | some next =>
              rw [taken] at finished
              exact ih next (run.tail permitted taken) finished
        · cases finished
  exact extend actions start .refl executed

end Execution

end Transition
