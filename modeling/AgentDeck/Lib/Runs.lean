import Mathlib.Data.List.Basic

/-!
# Runs of a step function

A run applies a step function to one input after the other. What a step keeps, under a condition on
the state it starts in, every run keeps whose steps all meet the condition.
-/

namespace AgentDeck.Runs

variable {σ ι : Type*} (step : σ → ι → σ)

/-- Each input of a run is admissible in the state in which it comes. -/
def Along (admissible : σ → ι → Prop) (s : σ) : List ι → Prop
  | [] => True
  | input :: inputs => admissible s input ∧ Along admissible (step s input) inputs

/-- `Along`, evaluated. -/
def checks (admissible : σ → ι → Bool) (s : σ) : List ι → Bool
  | [] => true
  | input :: inputs => admissible s input && checks admissible (step s input) inputs

variable {step}

variable {inputs : List ι} {s : σ}

theorem along_of_checks {admissible : σ → ι → Bool} (checked : checks step admissible s inputs) :
    Along step (fun s input => admissible s input = true) s inputs := by
  induction inputs generalizing s with
  | nil => trivial
  | cons input inputs ih =>
    simp only [checks, Bool.and_eq_true] at checked
    exact ⟨checked.1, ih checked.2⟩

variable {admissible : σ → ι → Prop} {past : List ι}

theorem Along.left {rest : List ι} (along : Along step admissible s (past ++ rest)) :
    Along step admissible s past := by
  induction past generalizing s with
  | nil => trivial
  | cons input past ih => exact ⟨along.1, ih along.2⟩

theorem Along.right {rest : List ι} (along : Along step admissible s (past ++ rest)) :
    Along step admissible (past.foldl step s) rest := by
  induction past generalizing s with
  | nil => exact along
  | cons input past ih => exact ih along.2

theorem Along.here {rest : List ι} {input : ι}
    (along : Along step admissible s (past ++ input :: rest)) :
    admissible (past.foldl step s) input := by
  induction past generalizing s with
  | nil => exact along.1
  | cons first past ih => exact ih along.2

theorem Along.imp {wider : σ → ι → Prop} (implies : ∀ s input, admissible s input → wider s input)
    (along : Along step admissible s inputs) : Along step wider s inputs := by
  induction inputs generalizing s with
  | nil => trivial
  | cons input inputs ih => exact ⟨implies s input along.1, ih along.2⟩

/-- What admissible steps keep holds at the end of a run. -/
theorem run_keeps (holds : σ → Prop)
    (keeps : ∀ s input, admissible s input → holds s → holds (step s input))
    (along : Along step admissible s inputs) (start : holds s) : holds (inputs.foldl step s) := by
  induction inputs generalizing s with
  | nil => exact start
  | cons input inputs ih => exact ih along.2 (keeps s input along.1 start)

/-- What every step keeps holds at the end of a run. -/
theorem run_keeps_always (holds : σ → Prop) (keeps : ∀ s input, holds s → holds (step s input))
    (start : holds s) : holds (inputs.foldl step s) := by
  induction inputs generalizing s with
  | nil => exact start
  | cons input inputs ih => exact ih (keeps s input start)

/-! ## With the inputs before -/

theorem foldl_concat (past seen : List ι) :
    past.foldl (fun past input => past ++ [input]) seen = seen ++ past := by
  induction past generalizing seen with
  | nil => exact (List.append_nil seen).symm
  | cons input past ih => rw [List.foldl_cons, ih, List.append_assoc, List.singleton_append]

/-- What is checked of each input and those before it. -/
theorem checked_after (check : List ι → ι → Bool)
    (checked : checks (fun past input => past ++ [input]) check [] inputs = true) {future : List ι}
    {input : ι} (split : inputs = past ++ input :: future) : check past input := by
  have along := along_of_checks checked
  rw [split] at along
  have here := along.here
  rw [foldl_concat] at here
  exact here

end AgentDeck.Runs
