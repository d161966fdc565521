import Mathlib.Data.Finset.Card

/-!
# The contiguous watermark

`ContiguousWatermark` of `src/inbox_attempts.rs`: what a stream receiver reports as `seen`. Past the
greatest `u64`, the source's `seen + 1` is no number that was observed.
-/

namespace AgentDeck.Attempts

structure ContiguousWatermark where
  seen : ℕ := 0
  above : Finset ℕ := ∅

namespace ContiguousWatermark

/-- The loop of `observe`. -/
def advance (mark : ContiguousWatermark) : ContiguousWatermark :=
  if _next : mark.seen + 1 ∈ mark.above then
    advance ⟨mark.seen + 1, mark.above.erase (mark.seen + 1)⟩
  else mark
termination_by mark.above.card
decreasing_by exact Finset.card_erase_lt_of_mem _next

def observe (mark : ContiguousWatermark) (d : ℕ) : ContiguousWatermark :=
  if d ≤ mark.seen then mark else advance { mark with above := insert d mark.above }

/-- The mark holds what was observed: a prefix as its length, and the rest as a set. -/
structure Holds (ds : List ℕ) (mark : ContiguousWatermark) : Prop where
  upTo : ∀ d, 1 ≤ d → d ≤ mark.seen → d ∈ ds
  past : ∀ d, d ∈ mark.above ↔ d ∈ ds ∧ mark.seen < d

theorem Holds.advance {ds : List ℕ} {mark : ContiguousWatermark} (holds : mark.Holds ds) :
    mark.advance.Holds ds ∧ mark.advance.seen + 1 ∉ ds := by
  rcases holds with ⟨upTo, past⟩
  induction mark using advance.induct with
  | case1 mark next ih =>
    rw [ContiguousWatermark.advance, dif_pos next]
    apply ih
    · grind
    · grind
  | case2 mark stops =>
    rw [ContiguousWatermark.advance, dif_neg stops]
    exact ⟨⟨upTo, past⟩, by grind⟩

theorem holds_observe (ds : List ℕ) :
    (ds.foldl observe {}).Holds ds ∧ (ds.foldl observe {}).seen + 1 ∉ ds := by
  induction ds using List.reverseRecOn with
  | nil =>
    refine ⟨⟨?_, ?_⟩, List.not_mem_nil⟩
    · intro d positive within
      exact absurd (positive.trans within) (by decide)
    · simp
  | append_singleton ds d ih =>
    rcases ih with ⟨⟨upTo, past⟩, stops⟩
    rw [List.foldl_concat, observe]
    split
    · exact ⟨⟨by grind, by grind⟩, by grind⟩
    · exact Holds.advance ⟨by grind, by grind⟩

end ContiguousWatermark

open ContiguousWatermark in
/-- What is reported is the greatest number up to which all were observed, whatever their order and
however often; and it never goes back. -/
theorem seen_contiguous (ds more : List ℕ) :
    (∀ n, n ≤ (ds.foldl observe {}).seen ↔ ∀ d, 1 ≤ d → d ≤ n → d ∈ ds) ∧
      (ds.foldl observe {}).seen ≤ ((ds ++ more).foldl observe {}).seen := by
  have precise : ∀ ds n, n ≤ (List.foldl observe {} ds).seen ↔ ∀ d, 1 ≤ d → d ≤ n → d ∈ ds := by
    intro ds n
    rcases holds_observe ds with ⟨holds, stops⟩
    constructor
    · intro within d positive before
      exact holds.upTo d positive (before.trans within)
    · intro all
      by_contra beyond
      exact stops (all _ (Nat.le_add_left ..) (by omega))
  refine ⟨precise ds, (precise _ _).mpr ?_⟩
  intro d positive within
  exact List.mem_append_left _ ((precise ds _).mp le_rfl d positive within)

end AgentDeck.Attempts
