import Mathlib.Algebra.Order.Ring.Nat

/-!
# Instants and durations

Every operation of the deck's models takes the time as an argument. Instants and durations
are natural numbers of nanoseconds; an instant counts from an arbitrary origin.
-/

namespace AgentDeck

/-- A point on the monotonic clock, in nanoseconds. -/
abbrev Instant := ℕ

/-- A length of time, in nanoseconds. -/
abbrev Duration := ℕ

/-- `Duration::from_millis`. -/
def fromMillis (millis : ℕ) : Duration := millis * 1000000

/-- `Duration::from_secs`. -/
def fromSecs (secs : ℕ) : Duration := secs * 1000000000

end AgentDeck
