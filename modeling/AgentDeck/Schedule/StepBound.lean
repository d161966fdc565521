import AgentDeck.Schedule.LongestGap
import Mathlib.Algebra.Order.Floor.Ring
import Mathlib.Tactic.Linarith
import Mathlib.Tactic.Ring

/-!
# How many steps the walk takes

With a window of whole seconds the reverse lookup finds the last fire of the window, so two moves
advance by more than the threshold. A window that ends inside a second is searched one second too
far: a fire past its end hides the ones inside, and the walk makes single steps. It then still
answers within the bound exactly when even steps of one second are few enough.
-/

namespace AgentDeck.Schedule

variable {cron : CronSchedule} {fires : Set ℤ} {start finish : ℤ} {w later : Walk}

/-- `phase k` holds when the loop has at most `k` moves to make. -/
structure Countdown (cron : CronSchedule) (finish : ℤ) (phase : ℕ → Walk → Prop) : Prop where
  ends : ∀ w, phase 0 w → w.Ends finish
  moves : ∀ k w later, phase (k + 1) w → ¬w.Ends finish → Moves cron w later → phase k later
  next : ∀ k w, phase (k + 1) w → ¬w.Ends finish → (cron.next w.previous).isSome = true

variable {steps : ℕ}

theorem Countdown.answers {phase : ℕ → Walk → Prop} (countdown : Countdown cron finish phase)
    {k : ℕ} (enough : k + 1 ≤ steps) (here : phase k w) : (cron.walk finish steps w).isSome := by
  induction steps generalizing k w with
  | zero => omega
  | succ steps ih =>
    by_cases ends : w.Ends finish
    · have check : w.coveredAGap = true ∧ finish < w.previous := ends
      simp only [CronSchedule.walk, if_pos check, Option.isSome_some]
    · cases k with
      | zero => exact absurd (countdown.ends w here) ends
      | succ k =>
        rcases Option.isSome_iff_exists.mp (countdown.next k w here ends) with ⟨next, found⟩
        rcases Moves.exists_of_next found with ⟨later, moves⟩
        rw [moves.walk_eq ends]
        exact ih (by omega) (countdown.moves k w later here ends moves)

/-- Where the walk is in the part of the schedule that still fires. -/
structure Going (cron : CronSchedule) (fires : Set ℤ) (start finish : ℤ) (w : Walk) : Prop where
  fire : w.previous ∈ fires
  after : start < w.previous
  first : w.coveredAGap = false → cron.next start = some w.previous

theorem Going.moves (going : Going cron fires start finish w) (reads : cron.Reads fires)
    (moves : Moves cron w later) : Going cron fires start finish later := by
  have onward := moves.onward reads
  refine ⟨onward.1, going.after.trans onward.2, ?_⟩
  intro uncovered
  rw [moves.covered] at uncovered
  cases uncovered

theorem Going.next (going : Going cron fires start finish w) (reads : cron.Reads fires)
    (fireAfter : ∀ time, time ≤ finish ∨ cron.next start = some time → ∃ fire ∈ fires, time < fire)
    (goesOn : ¬w.Ends finish) : (cron.next w.previous).isSome := by
  have reached : w.previous ≤ finish ∨ cron.next start = some w.previous := by
    cases covered : w.coveredAGap with
    | false => exact Or.inr (going.first covered)
    | true => exact Or.inl (not_lt.mp fun beyond => goesOn ⟨covered, beyond⟩)
  rcases fireAfter _ reached with ⟨fire, isFire, after⟩
  rw [← Option.not_isNone, Bool.not_eq_true', ← Bool.not_eq_true, Option.isNone_iff_eq_none]
  intro absent
  have none_After := reads.noNext _ absent fire isFire
  omega

/-! ## Whole seconds -/

theorem whole_of_fires (reads : cron.Reads fires) {fire other : ℤ} (isFire : fire ∈ fires)
    (isOther : other ∈ fires) (before : fire < other) : fire + second ≤ other := by
  rcases reads.whole fire isFire with ⟨i, rfl⟩
  rcases reads.whole other isOther with ⟨j, rfl⟩
  unfold second at *
  omega

theorem beyond_window (reads : cron.Reads fires) (readsBack : cron.ReadsBack fires)
    (isFire : w.previous ∈ fires) (whole : second ∣ w.threshold) (moves : Moves cron w later)
    {fire : ℤ} (following : fire ∈ fires) (after : later.previous < fire) :
    w.previous + w.threshold < fire := by
  by_contra inside
  have onward := (moves.onward reads).2
  -- The reverse lookup finds a fire at least as late as this one, inside the window.
  have found : ∃ last, cron.lastInWindow w.previous w.threshold = some last ∧ fire ≤ last := by
    simp only [CronSchedule.lastInWindow, reads.adds, Option.bind_some]
    have soon : fire < w.previous + w.threshold + second := by
      have positive : (0 : ℤ) < second := by decide
      omega
    cases back : cron.nextBack (w.previous + w.threshold + second) with
    | none =>
      have absent := readsBack.noLast _ back fire following
      omega
    | some last =>
      have greatest := readsBack.last _ _ back
      have least : fire ≤ last := greatest.2 ⟨following, soon⟩
      have within : last ≤ w.previous + w.threshold := by
        rcases reads.whole last greatest.1.1 with ⟨i, rfl⟩
        rcases reads.whole _ isFire with ⟨j, same⟩
        rcases whole with ⟨k, same'⟩
        have before := greatest.1.2
        unfold second at *
        omega
      refine ⟨last, ?_, least⟩
      simp only
      rw [if_pos ⟨by omega, within⟩]
  rcases found with ⟨last, lands, least⟩
  cases moves with
  | jump lands' =>
    rw [lands] at lands'
    cases lands'
    exact absurd after (not_lt.mpr least)
  | longer stays => rw [lands] at stays; cases stays
  | step stays => rw [lands] at stays; cases stays

/-- Two moves to go for each threshold that is left of `rounds` of them. -/
structure Pace (cron : CronSchedule) (fires : Set ℤ) (start finish threshold : ℤ) (rounds k : ℕ)
    (w : Walk) : Prop where
  going : Going cron fires start finish w
  least : threshold ≤ w.threshold
  whole : second ∣ w.threshold
  covered : k < 2 * rounds → w.coveredAGap = true
  even : ∀ i, k = 2 * i → start + ((rounds : ℤ) - i) * threshold < w.previous
  odd : ∀ i, k = 2 * i + 1 → ∀ fire ∈ fires, w.previous < fire →
    start + ((rounds : ℤ) - i) * threshold < fire

theorem whole_moves (reads : cron.Reads fires) (isFire : w.previous ∈ fires)
    (whole : second ∣ w.threshold) (moves : Moves cron w later) : second ∣ later.threshold := by
  cases moves with
  | jump lands => exact whole
  | longer stays found longer =>
    exact dvd_sub (reads.whole _ (reads.next _ _ found).1.1) (reads.whole _ isFire)
  | step stays found within => exact whole

variable {threshold : ℤ}

theorem Pace.moves {rounds k : ℕ} (reads : cron.Reads fires) (readsBack : cron.ReadsBack fires)
    (pace : Pace cron fires start finish threshold rounds (k + 1) w) (moves : Moves cron w later) :
    Pace cron fires start finish threshold rounds k later := by
  have onward := moves.onward reads
  refine ⟨pace.going.moves reads moves, pace.least.trans moves.threshold_le,
    whole_moves reads pace.going.fire pace.whole moves, fun _ => moves.covered, ?_, ?_⟩
  · rintro i rfl
    exact pace.odd i rfl later.previous onward.1 onward.2
  · rintro i rfl fire isFire after
    have beyond := beyond_window reads readsBack pace.going.fire pace.whole moves isFire after
    have before := pace.even (i + 1) (by omega)
    have next : ((rounds : ℤ) - i) * threshold =
        ((rounds : ℤ) - (i + 1 : ℕ)) * threshold + threshold := by
      push_cast
      ring
    have least := pace.least
    omega

variable {horizon : ℤ}

theorem answers_of_whole (reads : cron.Reads fires) (readsBack : cron.ReadsBack fires)
    (forward : 0 ≤ horizon) (positive : 0 < threshold) (whole : second ∣ threshold)
    (fireAfter : ∀ time, time ≤ start + horizon ∨ cron.next start = some time →
      ∃ fire ∈ fires, time < fire) {first : ℤ} (found : cron.next start = some first)
    (enough : 2 * (horizon / threshold).toNat + 3 ≤ steps) :
    (cron.walk (start + horizon) steps ⟨first, threshold, none, false⟩).isSome = true := by
  have quotient : 0 ≤ horizon / threshold := Int.ediv_nonneg forward (le_of_lt positive)
  have rounds : (((horizon / threshold).toNat + 1 : ℕ) : ℤ) = horizon / threshold + 1 := by
    rw [Nat.cast_add, Int.toNat_of_nonneg quotient, Nat.cast_one]
  have past : horizon < (horizon / threshold + 1) * threshold :=
    Int.lt_ediv_add_one_mul_self horizon positive
  have countdown : Countdown cron (start + horizon)
      (Pace cron fires start (start + horizon) threshold ((horizon / threshold).toNat + 1)) := by
    refine ⟨?_, fun k w later pace _ moves => pace.moves reads readsBack moves,
      fun k w pace goesOn => pace.going.next reads fireAfter goesOn⟩
    intro w pace
    have reached := pace.even 0 rfl
    rw [Nat.cast_zero, sub_zero, rounds] at reached
    exact ⟨pace.covered (by omega), by omega⟩
  have least := reads.next _ _ found
  apply countdown.answers (k := 2 * ((horizon / threshold).toNat + 1)) (by omega)
  refine ⟨⟨least.1.1, least.1.2, fun _ => found⟩, le_refl _, whole, ?_, ?_, ?_⟩
  · intro fewer
    exact absurd fewer (lt_irrefl _)
  · intro i same
    have all : i = (horizon / threshold).toNat + 1 := by omega
    rw [all, sub_self, zero_mul, add_zero]
    exact least.1.2
  · omega

/-! ## Any window -/

/-- Every move advances by a second. -/
structure SlowPace (cron : CronSchedule) (fires : Set ℤ) (start finish : ℤ) (rounds k : ℕ)
    (w : Walk) : Prop where
  going : Going cron fires start finish w
  covered : k < rounds → w.coveredAGap = true
  reached : start + ((rounds : ℤ) - k) * second < w.previous

theorem SlowPace.moves {rounds k : ℕ} (reads : cron.Reads fires)
    (pace : SlowPace cron fires start finish rounds (k + 1) w) (moves : Moves cron w later) :
    SlowPace cron fires start finish rounds k later := by
  have onward := moves.onward reads
  have far := whole_of_fires reads pace.going.fire onward.1 onward.2
  refine ⟨pace.going.moves reads moves, fun _ => moves.covered, ?_⟩
  have before := pace.reached
  unfold second at *
  omega

def secondsOf (horizon : ℤ) : ℤ := (horizon + second - 1) / second

theorem answers_of_short (reads : cron.Reads fires) (forward : 0 ≤ horizon)
    (fireAfter : ∀ time, time ≤ start + horizon ∨ cron.next start = some time →
      ∃ fire ∈ fires, time < fire) {first : ℤ} (found : cron.next start = some first)
    (enough : max (secondsOf horizon).toNat 1 + 1 ≤ steps) :
    (cron.walk (start + horizon) steps ⟨first, threshold, none, false⟩).isSome = true := by
  have covers : horizon ≤ ((max (secondsOf horizon).toNat 1 : ℕ) : ℤ) * second := by
    unfold secondsOf second
    omega
  have countdown : Countdown cron (start + horizon)
      (SlowPace cron fires start (start + horizon) (max (secondsOf horizon).toNat 1)) := by
    refine ⟨?_, fun k w later pace _ moves => pace.moves reads moves,
      fun k w pace goesOn => pace.going.next reads fireAfter goesOn⟩
    intro w pace
    have reached := pace.reached
    rw [Nat.cast_zero, sub_zero] at reached
    exact ⟨pace.covered (by omega), by omega⟩
  have least := reads.next _ _ found
  apply countdown.answers enough
  refine ⟨⟨least.1.1, least.1.2, fun _ => found⟩, ?_, ?_⟩
  · intro fewer
    exact absurd fewer (lt_irrefl _)
  · rw [sub_self, zero_mul, add_zero]
    exact least.1.2

/-! ## A schedule that fires every second -/

def everySecond : CronSchedule where
  next time := some ((time / second + 1) * second)
  nextBack time := some ((time - 1) / second * second)
  checkedAdd time span := some (time + span)

def wholeSeconds : Set ℤ := {time | second ∣ time}

theorem everySecond_reads : everySecond.Reads wholeSeconds where
  whole := fun fire isFire => isFire
  next := by
    intro time fire found
    simp only [everySecond, Option.some.injEq] at found
    subst found
    refine ⟨⟨Int.dvd_mul_left _ _, by unfold second; omega⟩, ?_⟩
    rintro other ⟨⟨i, rfl⟩, after⟩
    unfold second at *
    omega
  noNext := by
    intro time absent
    cases absent
  back := by
    intro time fire found
    simp only [everySecond, Option.some.injEq] at found
    subst found
    exact Int.dvd_mul_left _ _
  adds := fun time span => rfl

theorem everySecond_readsBack : everySecond.ReadsBack wholeSeconds where
  last := by
    intro time fire found
    simp only [everySecond, Option.some.injEq] at found
    subst found
    refine ⟨⟨Int.dvd_mul_left _ _, by unfold second; omega⟩, ?_⟩
    rintro other ⟨⟨i, rfl⟩, before⟩
    unfold second at *
    omega
  noLast := by
    intro time absent
    cases absent

theorem everySecond_goes_on (time : ℤ) : ∃ fire ∈ wholeSeconds, time < fire := by
  refine ⟨(time / second + 1) * second, Int.dvd_mul_left _ _, ?_⟩
  unfold second
  omega

theorem everySecond_moves (long : second < threshold) (cut : ¬second ∣ threshold) (i : ℤ)
    (covered : Bool) :
    Moves everySecond ⟨i * second, threshold, none, covered⟩
      ⟨(i + 1) * second, threshold, none, true⟩ := by
  have next : everySecond.next (i * second) = some ((i + 1) * second) := by
    simp only [everySecond, Option.some.injEq]
    unfold second
    omega
  refine .step ?_ next ?_
  · dsimp only
    apply if_neg
    rintro ⟨_, inside⟩
    unfold second at *
    omega
  · show (i + 1) * second - i * second ≤ threshold
    unfold second at *
    omega

theorem everySecond_out_of_steps (long : second < threshold) (cut : ¬second ∣ threshold) {i : ℤ}
    {covered : Bool} (short : (i + steps - 1) * second ≤ finish) :
    everySecond.walk finish steps ⟨i * second, threshold, none, covered⟩ = none := by
  induction steps generalizing i covered with
  | zero => rfl
  | succ steps ih =>
    have goesOn : ¬Walk.Ends ⟨i * second, threshold, none, covered⟩ finish := by
      rintro ⟨_, beyond⟩
      unfold second at *
      simp only at beyond
      push_cast at short
      omega
    rw [(everySecond_moves long cut i covered).walk_eq goesOn]
    apply ih
    push_cast at short
    have same : i + 1 + (steps : ℤ) - 1 = i + (steps + 1) - 1 := by ring
    rw [same]
    exact short

/-- The walk answers every exact schedule that keeps firing, within the bound on its steps. -/
def Answers (horizon threshold : ℤ) : Prop :=
  ∀ (fires : Set ℤ) (cron : CronSchedule) (start : ℤ) (maxSteps : ℕ),
    cron.Reads fires → cron.ReadsBack fires →
    (∀ time, time ≤ start + horizon ∨ cron.next start = some time → ∃ fire ∈ fires, time < fire) →
    2 * (horizon / threshold).toNat + 3 ≤ maxSteps →
    (fireGapOver cron start horizon threshold maxSteps).isSome = true

/-- The window ends on a whole second, or single steps of a second are few enough. -/
def Reaches (horizon threshold : ℤ) : Prop :=
  second ∣ threshold ∨ secondsOf horizon ≤ 2 * (horizon / threshold) + 2

theorem reaches_of_le (forward : 0 ≤ horizon) (positive : 0 < threshold)
    (short : threshold ≤ second) : secondsOf horizon ≤ 2 * (horizon / threshold) + 2 := by
  have quotient : 0 ≤ horizon / threshold := Int.ediv_nonneg forward (le_of_lt positive)
  have past : horizon < (horizon / threshold + 1) * threshold :=
    Int.lt_ediv_add_one_mul_self horizon positive
  have wider : (horizon / threshold + 1) * threshold ≤ (horizon / threshold + 1) * second :=
    mul_le_mul_of_nonneg_left short (by omega)
  unfold secondsOf second at *
  omega

theorem answers_iff (forward : 0 ≤ horizon) (positive : 0 < threshold) :
    Answers horizon threshold ↔ Reaches horizon threshold := by
  have quotient : 0 ≤ horizon / threshold := Int.ediv_nonneg forward (le_of_lt positive)
  constructor
  · intro answers
    by_contra fails
    rcases not_or.mp fails with ⟨cut, many⟩
    have long : second < threshold := by
      by_contra short
      exact many (reaches_of_le forward positive (not_lt.mp short))
    have nonempty := answers wholeSeconds everySecond (-1) (2 * (horizon / threshold).toNat + 3)
      everySecond_reads everySecond_readsBack (fun time _ => everySecond_goes_on time) (le_refl _)
    have first : everySecond.next (-1) = some (0 * second) := by decide
    have floor : max threshold 0 = threshold := max_eq_left (le_of_lt positive)
    simp only [fireGapOver, everySecond_reads.adds, first, floor] at nonempty
    rw [everySecond_out_of_steps long cut] at nonempty
    · cases nonempty
    · push_cast
      unfold secondsOf second at *
      omega
  · intro reaches fires cron start maxSteps reads readsBack fireAfter enough
    have floor : max threshold 0 = threshold := max_eq_left (le_of_lt positive)
    rcases fireAfter start (Or.inl (by omega)) with ⟨fire, isFire, after⟩
    simp only [fireGapOver, reads.adds, floor]
    cases found : cron.next start with
    | none => exact absurd after (not_lt.mpr (reads.noNext _ found fire isFire))
    | some first =>
      rcases reaches with whole | few
      · exact answers_of_whole reads readsBack forward positive whole fireAfter found enough
      · exact answers_of_short reads forward fireAfter found (by omega)

/-- Every answer is exact, and the walk answers within its bound exactly when the window ends on a
whole second or the horizon is short. -/
theorem longest_gap_walk (fires : Set ℤ) (cron : CronSchedule) (start horizon threshold : ℤ)
    (maxSteps : ℕ) (answer : FireGap) :
    (cron.Reads fires → fireGapOver cron start horizon threshold maxSteps = some answer →
      Exact fires start (start + horizon) (max threshold 0) answer) ∧
      (0 ≤ horizon → 0 < threshold → (Answers horizon threshold ↔ Reaches horizon threshold)) :=
  ⟨fun reads answers => fireGapOver_exact reads answers,
    fun forward positive => answers_iff forward positive⟩

theorem longest_gap_walk_minute :
    Exact wholeSeconds 0 (0 + 60000000000) (max 10000000000 0) .within ∧
      Answers 60000000000 10000000000 := by
  have answers : fireGapOver everySecond 0 60000000000 10000000000 15 = some .within := by
    decide +kernel
  rcases longest_gap_walk wholeSeconds everySecond 0 60000000000 10000000000 15 .within with
    ⟨precise, bound⟩
  refine ⟨precise everySecond_reads answers, ?_⟩
  exact (bound (by decide) (by decide)).mpr (Or.inl (by decide))

/-- A minute of fires every second, looked at in windows of ten seconds and a half. -/
theorem half_second_runs_out :
    everySecond.Reads wholeSeconds ∧ everySecond.ReadsBack wholeSeconds ∧
      (∀ time, ∃ fire ∈ wholeSeconds, time < fire) ∧
      2 * (60000000000 / 10500000000 : ℤ).toNat + 3 ≤ 13 ∧
      fireGapOver everySecond 0 60000000000 10500000000 13 = none :=
  ⟨everySecond_reads, everySecond_readsBack, everySecond_goes_on, by decide, by decide +kernel⟩

end AgentDeck.Schedule
