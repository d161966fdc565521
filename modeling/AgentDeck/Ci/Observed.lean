import AgentDeck.Ci.Tracker

/-!
# What a report does to a pull request's checks

A stretch is open exactly while the checks last showed pending. A report leaves them, opens a
stretch, or ends one with its result.
-/

namespace AgentDeck.Ci

structure PrCi.For (ci : PrCi) (number : ℕ) : Prop where
  pr : ci.pr = some number ∨ (ci.pr = none ∧ ci.last = none ∧ ci.stretch = none)
  pending : ci.stretch.isSome ↔ ci.last = some .pending

theorem PrCi.For.fresh (number : ℕ) : PrCi.fresh.For number :=
  ⟨.inr ⟨rfl, rfl, rfl⟩, by simp [PrCi.fresh]⟩

theorem PrCi.For.resumed {number : ℕ} {settled : CiState} (result : settled ≠ .pending) :
    (PrCi.resumed number settled).For number :=
  ⟨.inl rfl, by simp [PrCi.resumed, PrCi.fresh, result]⟩

/-- What a report of `state` does: the checks after it, and its effects. -/
inductive Observes (ci : PrCi) (state : CiState) : PrCi → List CiEffect → Prop where
  | same {after : PrCi} (same : ci.last = some state) (last : after.last = some state)
      (stretch : after.stretch = ci.stretch) : Observes ci state after []
  | opens {after : PrCi} {old : Option CiState} {pr : ℕ} (closed : ci.stretch = none)
      (pending : state = .pending) (last : after.last = some .pending)
      (stretch : after.stretch.isSome) : Observes ci state after [.change old state pr]
  | settles {after : PrCi} {old : Option CiState} {pr : ℕ} (closed : ci.stretch = none)
      (result : state ≠ .pending) (last : after.last = some state)
      (stretch : after.stretch = none) : Observes ci state after [.change old state pr]
  | ends {after : PrCi} {old : Option CiState} {pr : ℕ} {checks : Option PullRequestChecks}
      (stretch : OpenStretch) (opened : ci.stretch = some stretch) (result : state ≠ .pending)
      (last : after.last = some state) (closed : after.stretch = none) :
      Observes ci state after [.change old state pr, .ended stretch (some state) checks]

variable {state : CiState}

theorem PrCi.changed_observes {ci : PrCi} (moved : ci.last ≠ some state)
    (pending : ci.stretch.isSome ↔ ci.last = some .pending) (pr : ℕ) (checks : PullRequestChecks)
    (now spanId : ℕ) :
    Observes ci state (ci.changed pr checks state now spanId).1
      (ci.changed pr checks state now spanId).2 := by
  unfold PrCi.changed
  cases state with
  | pending =>
    have closed : ci.stretch = none := by
      cases opened : ci.stretch with
      | none => rfl
      | some stretch =>
        rw [opened] at pending
        exact absurd (pending.mp rfl) moved
    simp only [closed]
    exact .opens closed rfl rfl rfl
  | passing | failing =>
    cases opened : ci.stretch with
    | none => exact .settles opened nofun rfl rfl
    | some stretch => exact .ends stretch opened nofun rfl rfl

theorem PrCi.changed_pr (ci : PrCi) (pr : ℕ) (checks : PullRequestChecks) (state : CiState)
    (now spanId : ℕ) : (ci.changed pr checks state now spanId).1.pr = ci.pr := by
  unfold PrCi.changed
  cases state with
  | pending =>
    simp only
    split <;> rfl
  | passing => cases ci.stretch <;> rfl
  | failing => cases ci.stretch <;> rfl

theorem observes_for {ci after : PrCi} {number : ℕ} {effects : List CiEffect} (is : ci.For number)
    (observes : Observes ci state after effects) (pr : after.pr = some number) :
    after.For number := by
  refine ⟨.inl pr, ?_⟩
  cases observes with
  | same same last stretch => rw [stretch, last, is.pending, same]
  | opens closed pending last stretch => exact ⟨fun _ => last, fun _ => stretch⟩
  | settles closed result last stretch =>
    rw [stretch, last]
    exact ⟨nofun, fun same => absurd (Option.some.inj same) result⟩
  | ends stretch opened result last closed =>
    rw [closed, last]
    exact ⟨nofun, fun same => absurd (Option.some.inj same) result⟩

theorem PrCi.observe_observes {ci : PrCi} {number : ℕ} (is : ci.For number)
    {checks : PullRequestChecks} (known : CiState.fromChecks checks.state = some state)
    (now spanId : ℕ) :
    Observes ci state (ci.observe (some number) (some checks) now spanId).1
        (ci.observe (some number) (some checks) now spanId).2 ∧
      (ci.observe (some number) (some checks) now spanId).1.For number := by
  -- A pull request taken up first has no last state and no stretch, so the switch does nothing.
  have switched : ∃ start : PrCi, start.pr = some number ∧ start.last = ci.last ∧
      start.stretch = ci.stretch ∧
      ci.observe (some number) (some checks) now spanId =
        if start.last = some state then (start, [])
        else start.changed number checks state now spanId := by
    refine ⟨{ ci with pr := some number, lastChecks := some checks }, rfl, rfl, rfl, ?_⟩
    unfold PrCi.observe
    rcases is.pr with same | ⟨absent, last, stretch⟩
    · rw [if_neg (by simp [same])]
      simp only [known, same, List.nil_append]
    · rw [if_pos (by simp [absent])]
      simp only [known, PrCi.endOpen, last, stretch, Option.map_none, Option.toList_none,
        List.nil_append]
  rcases switched with ⟨start, pr, last, stretch, shape⟩
  rw [shape]
  have startFor : start.For number := ⟨.inl pr, by rw [stretch, last]; exact is.pending⟩
  split
  · rename_i same
    refine ⟨.same (last ▸ same) same stretch, startFor⟩
  · rename_i moved
    have changed := PrCi.changed_observes moved startFor.pending number checks now spanId
    refine ⟨?_, observes_for startFor changed ?_⟩
    · revert changed
      generalize start.changed number checks state now spanId = result
      intro changed
      rcases result with ⟨after, effects⟩
      cases changed with
      | same same lastAfter stretchAfter => exact absurd same moved
      | opens closed pending lastAfter stretchAfter =>
        exact .opens (stretch ▸ closed) pending lastAfter stretchAfter
      | settles closed result lastAfter stretchAfter =>
        exact .settles (stretch ▸ closed) result lastAfter stretchAfter
      | ends stretch' opened result lastAfter closed =>
        exact .ends stretch' (stretch ▸ opened) result lastAfter closed
    · rw [PrCi.changed_pr]
      exact pr

end AgentDeck.Ci
