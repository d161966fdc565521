import Mathlib.Algebra.Order.Ring.Nat
import Mathlib.Data.List.Pairwise
import Mathlib.Data.List.TakeWhile

/-!
# A limit for every window

A gate admits events one after the other and keeps the instants of those it admitted, except that
it may forget any that can no longer count. `Recalls` says what it then still knows; counting what
it keeps counts what it admitted (`Recalls.countP_recent`). A gate that admits only below its limit
has at most `limit` admitted events in every half-open window, wherever the window starts
(`Limited.add`).
-/

namespace AgentDeck.SlidingWindow

variable {window limit now clock start : ℕ} {admitted kept : List ℕ}

/-- The event counts at `now`. -/
def counts (window now time : ℕ) : Bool := decide (now - time < window)

/-- The event is in the window that starts at `start`. -/
def within (window start time : ℕ) : Bool := decide (start ≤ time ∧ time < start + window)

/-- Everything admitted is kept, but for a beginning of which nothing counts from `clock` on. -/
def Recalls (window clock : ℕ) (admitted kept : List ℕ) : Prop :=
  ∃ gone, admitted = gone ++ kept ∧ ∀ time ∈ gone, window ≤ clock - time

namespace Recalls

variable (recalls : Recalls window clock admitted kept)

include recalls

variable (onward : clock ≤ now)

include onward

theorem later : Recalls window now admitted kept := by
  rcases recalls with ⟨gone, split, old⟩
  refine ⟨gone, split, fun time mem => ?_⟩
  have before := old time mem
  omega

theorem countP_recent : kept.countP (counts window now) = admitted.countP (counts window now) := by
  rcases recalls.later onward with ⟨gone, split, old⟩
  have absent : gone.countP (counts window now) = 0 := by
    rw [List.countP_eq_zero]
    intro time mem
    simp only [counts, decide_eq_true_eq]
    exact Nat.not_lt.mpr (old time mem)
  rw [split, List.countP_append, absent, Nat.zero_add]

theorem add : Recalls window now (admitted ++ [now]) (kept ++ [now]) := by
  rcases recalls.later onward with ⟨gone, split, old⟩
  exact ⟨gone, by rw [split, List.append_assoc], old⟩

/-- Forgetting from the front what no longer counts. -/
theorem expire :
    Recalls window now admitted (kept.dropWhile fun time => decide (window ≤ now - time)) := by
  rcases recalls.later onward with ⟨gone, split, old⟩
  refine ⟨gone ++ kept.takeWhile fun time => decide (window ≤ now - time), ?_, ?_⟩
  · rw [split, List.append_assoc, List.takeWhile_append_dropWhile]
  · intro time mem
    rcases List.mem_append.mp mem with before | passed
    · exact old time before
    · have left := List.mem_takeWhile_imp passed
      exact of_decide_eq_true left

end Recalls

/-- Every window holds at most `limit` events. -/
def Limited (window limit : ℕ) (admitted : List ℕ) : Prop :=
  ∀ start, admitted.countP (within window start) ≤ limit

theorem Limited.nil : Limited window limit [] := fun _ => Nat.zero_le limit

theorem Limited.add (limited : Limited window limit admitted)
    (below : admitted.countP (counts window now) < limit) :
    Limited window limit (admitted ++ [now]) := by
  intro start
  rw [List.countP_append, List.countP_singleton]
  by_cases inside : within window start now = true
  · -- What shares the window with the newest event still counts when it comes.
    have fewer : admitted.countP (within window start) ≤ admitted.countP (counts window now) := by
      apply List.countP_mono_left
      simp only [within, counts, decide_eq_true_eq] at inside ⊢
      omega
    rw [if_pos inside]
    omega
  · rw [if_neg inside]
    exact limited start

end AgentDeck.SlidingWindow
