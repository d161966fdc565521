import AgentDeck.Schedule.FireGap

/-!
# The answer of the walk is exact

No gap the walk has passed is longer than its threshold, and a threshold that has risen is a gap the
walk started inside the horizon (`Walked`). A jump passes only gaps inside one window. When the loop
ends, every gap of the horizon has been passed.
-/

namespace AgentDeck.Schedule

variable {cron : CronSchedule} {fires : Set ℤ} {start finish : ℤ} {w later : Walk} {floor : ℤ}

/-- What a walk from `start` has kept: it stands on a fire after `start`, every step passed is
within its threshold, and the longest one recorded is a gap of the window. -/
structure Walked (fires : Set ℤ) (start finish floor : ℤ) (w : Walk) : Prop where
  fire : w.previous ∈ fires
  after : start < w.previous
  passed : ∀ fire next, fire ∈ fires → start < fire → fire < w.previous →
    FirstAfter fires fire next → next - fire ≤ w.threshold
  record : (w.longest = none ∧ w.threshold = floor) ∨
    (w.longest = some w.threshold ∧ floor < w.threshold ∧ w.threshold ∈ gaps fires start finish)
  first : w.coveredAGap = false → FirstAfter fires start w.previous
  moved : w.coveredAGap = true → ∃ first, FirstAfter fires start first ∧ first < w.previous

namespace Walked

variable (walked : Walked fires start finish floor w)

include walked

theorem moved_on {fire : ℤ} (onward : w.previous < fire) :
    ∃ first, FirstAfter fires start first ∧ first < fire := by
  cases covered : w.coveredAGap with
  | false => exact ⟨w.previous, walked.first covered, onward⟩
  | true =>
    rcases walked.moved covered with ⟨first, least, before⟩
    exact ⟨first, least, before.trans onward⟩

/-- The step a walk that goes on takes next is a gap of the window. -/
theorem gap_mem (goesOn : ¬w.Ends finish) {next : ℤ} (least : FirstAfter fires w.previous next) :
    next - w.previous ∈ gaps fires start finish := by
  refine ⟨w.previous, next, walked.fire, least, rfl, ?_⟩
  cases covered : w.coveredAGap with
  | false => exact Or.inl (walked.first covered)
  | true =>
    right
    refine ⟨walked.after, not_lt.mp fun beyond => goesOn ⟨covered, beyond⟩⟩

theorem floor_le : floor ≤ w.threshold := by
  rcases walked.record with ⟨_, same⟩ | ⟨_, risen, _⟩
  · exact le_of_eq same.symm
  · exact le_of_lt risen

/-- A step adds the gap it passes to those within the threshold; the others were passed before. -/
theorem passed_step {next threshold : ℤ} (least : FirstAfter fires w.previous next)
    (grown : w.threshold ≤ threshold) (within : next - w.previous ≤ threshold) (fire other : ℤ)
    (isFire : fire ∈ fires) (afterStart : start < fire) (before : fire < next)
    (follows : FirstAfter fires fire other) : other - fire ≤ threshold := by
  by_cases passed : fire < w.previous
  · exact (walked.passed fire other isFire afterStart passed follows).trans grown
  · have here : fire = w.previous := by
      by_contra different
      have beyond := least.2 ⟨isFire, lt_of_le_of_ne (not_lt.mp passed) (Ne.symm different)⟩
      omega
    rw [here] at follows ⊢
    rw [follows.unique least]
    exact within

theorem moves (reads : cron.Reads fires) (goesOn : ¬w.Ends finish) (moves : Moves cron w later) :
    Walked fires start finish floor later := by
  have onward := moves.onward reads
  have after := walked.after.trans onward.2
  cases moves with
  | jump lands =>
    have inside := Moves.lands_inside reads lands
    refine ⟨onward.1, after, ?_, walked.record, fun absent => Bool.noConfusion absent,
      fun _ => walked.moved_on onward.2⟩
    intro fire next isFire afterStart before follows
    by_cases passed : fire < w.previous
    · exact walked.passed fire next isFire afterStart passed follows
    · -- The gap lies between the fire the jump starts at and the one it lands on.
      have short := follows.2 ⟨inside.1, before⟩
      simp only at before short ⊢
      omega
  | longer stays found longer =>
    have least := reads.next _ _ found
    have risen := walked.floor_le.trans_lt longer
    exact ⟨onward.1, after, walked.passed_step least (le_of_lt longer) (le_refl _),
      Or.inr ⟨rfl, risen, walked.gap_mem goesOn least⟩, fun absent => Bool.noConfusion absent,
      fun _ => walked.moved_on onward.2⟩
  | step stays found within =>
    have least := reads.next _ _ found
    exact ⟨onward.1, after, walked.passed_step least (le_refl _) within, walked.record,
      fun absent => Bool.noConfusion absent, fun _ => walked.moved_on onward.2⟩

/-- Once the walk has reached the end of the window, it has passed every gap. -/
theorem all_passed (ends : w.Ends finish) {gap : ℤ} (mem : gap ∈ gaps fires start finish) :
    gap ≤ w.threshold := by
  rcases mem with ⟨fire, next, isFire, follows, rfl, starts⟩
  have passed : start < fire ∧ fire < w.previous := by
    rcases starts with least | ⟨after, within⟩
    · rcases walked.moved ends.1 with ⟨first, isFirst, before⟩
      rw [isFirst.unique least] at before
      exact ⟨least.1.2, before⟩
    · exact ⟨after, within.trans_lt ends.2⟩
  exact walked.passed fire next isFire passed.1 passed.2 follows

end Walked

/-- What an answer says of the gaps in the window. -/
def Exact (fires : Set ℤ) (start finish floor : ℤ) : FireGap → Prop
  | .within => ∀ gap ∈ gaps fires start finish, gap ≤ floor
  | .longest longest => IsGreatest (gaps fires start finish) longest ∧ floor < longest

theorem Walked.exact (walked : Walked fires start finish floor w) (ends : w.Ends finish) :
    Exact fires start finish floor (w.longest.elim .within .longest) := by
  rcases walked.record with ⟨absent, same⟩ | ⟨nonempty, risen, mem⟩
  · rw [absent]
    intro gap gapMem
    rw [← same]
    exact walked.all_passed ends gapMem
  · rw [nonempty]
    exact ⟨⟨mem, fun gap gapMem => walked.all_passed ends gapMem⟩, risen⟩

/-- Induction on the steps left: each keeps `Walked`, and the walk answers only at the end. -/
theorem walk_exact (reads : cron.Reads fires) {steps : ℕ} {answer : FireGap}
    (walked : Walked fires start finish floor w)
    (answers : cron.walk finish steps w = some answer) : Exact fires start finish floor answer := by
  induction steps generalizing w with
  | zero => cases answers
  | succ steps ih =>
    rcases Moves.of_walk answers with ⟨ends, rfl⟩ | ⟨later, goesOn, moves, answers⟩
    · exact walked.exact ends
    · exact ih (walked.moves reads goesOn moves) answers

theorem start_walked {first : ℤ} (least : FirstAfter fires start first) (floor : ℤ) :
    Walked fires start finish floor ⟨first, floor, none, false⟩ where
  fire := least.1.1
  after := least.1.2
  passed := by
    intro fire next isFire afterStart before
    have later := least.2 ⟨isFire, afterStart⟩
    simp only at before
    omega
  record := Or.inl ⟨rfl, rfl⟩
  first := fun _ => least
  moved := fun covered => Bool.noConfusion covered

/-- An answer is exact whatever the threshold and the limit on steps. -/
theorem fireGapOver_exact (reads : cron.Reads fires) {horizon threshold : ℤ} {maxSteps : ℕ}
    {answer : FireGap} (answers : fireGapOver cron start horizon threshold maxSteps = some answer) :
    Exact fires start (start + horizon) (max threshold 0) answer := by
  simp only [fireGapOver, reads.adds] at answers
  cases found : cron.next start with
  | none =>
    rw [found] at answers
    cases answers
  | some first =>
    rw [found] at answers
    exact walk_exact reads (start_walked (reads.next _ _ found) _) answers

end AgentDeck.Schedule
