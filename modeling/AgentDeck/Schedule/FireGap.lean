import Mathlib.Algebra.Order.Ring.Int
import Mathlib.Order.Bounds.Basic

/-!
# The longest gap of a schedule

`fire_gap_over` of `src/scheduler.rs`. Instants and durations are whole nanoseconds, as `chrono`
counts them. The lookups are the ones of the `cron` crate: `next` is `after(t).next()` and
`nextBack` is `after(t).next_back()`; `checkedAdd` is `checked_add_signed` in the zone of the walk.
-/

namespace AgentDeck.Schedule

structure CronSchedule where
  next : ℤ → Option ℤ
  nextBack : ℤ → Option ℤ
  checkedAdd : ℤ → ℤ → Option ℤ

inductive FireGap
  | within
  | longest (gap : ℤ)
  deriving DecidableEq

def second : ℤ := 1000000000

structure Walk where
  previous : ℤ
  threshold : ℤ
  longest : Option ℤ
  coveredAGap : Bool
  deriving DecidableEq

namespace CronSchedule

/-- The fire a jump lands on: the last one of the window, when it is provably inside. -/
def lastInWindow (cron : CronSchedule) (previous threshold : ℤ) : Option ℤ :=
  match cron.checkedAdd previous threshold with
  | none => none
  | some windowEnd =>
    match (cron.checkedAdd windowEnd second).bind cron.nextBack with
    | none => none
    | some fire => if previous < fire ∧ fire ≤ windowEnd then some fire else none

def walk (cron : CronSchedule) (finish : ℤ) : ℕ → Walk → Option FireGap
  | 0, _ => none
  | steps + 1, w =>
    if w.coveredAGap = true ∧ finish < w.previous then
      some (w.longest.elim .within .longest)
    else
      match cron.lastInWindow w.previous w.threshold with
      | some fire => walk cron finish steps { w with previous := fire, coveredAGap := true }
      | none =>
        match cron.next w.previous with
        | none => none
        | some next =>
          let gap := next - w.previous
          if w.threshold < gap then walk cron finish steps ⟨next, gap, some gap, true⟩
          else walk cron finish steps ⟨next, w.threshold, w.longest, true⟩

end CronSchedule

def fireGapOver (cron : CronSchedule) (start horizon threshold : ℤ) (maxSteps : ℕ) :
    Option FireGap :=
  match cron.checkedAdd start horizon with
  | none => none
  | some finish =>
    match cron.next start with
    | none => none
    | some first => cron.walk finish maxSteps ⟨first, max threshold 0, none, false⟩

/-! ## What the walk relies on -/

def FirstAfter (fires : Set ℤ) (time fire : ℤ) : Prop := IsLeast {f | f ∈ fires ∧ time < f} fire

/-- The fires are whole seconds, the forward lookup is exact, the reverse lookup answers fires, and
no addition fails. -/
structure CronSchedule.Reads (cron : CronSchedule) (fires : Set ℤ) : Prop where
  whole : ∀ fire ∈ fires, second ∣ fire
  next : ∀ time fire, cron.next time = some fire → FirstAfter fires time fire
  noNext : ∀ time, cron.next time = none → ∀ fire ∈ fires, fire ≤ time
  back : ∀ time fire, cron.nextBack time = some fire → fire ∈ fires
  adds : ∀ time span, cron.checkedAdd time span = some (time + span)

/-- The reverse lookup is exact: the last fire strictly before its start. -/
structure CronSchedule.ReadsBack (cron : CronSchedule) (fires : Set ℤ) : Prop where
  last : ∀ time fire, cron.nextBack time = some fire → IsGreatest {f | f ∈ fires ∧ f < time} fire
  noLast : ∀ time, cron.nextBack time = none → ∀ fire ∈ fires, time ≤ fire

/-- The gaps between consecutive fires that start at the first fire after `start` or at a later one
up to `finish`. -/
def gaps (fires : Set ℤ) (start finish : ℤ) : Set ℤ :=
  {gap | ∃ fire next, fire ∈ fires ∧ FirstAfter fires fire next ∧ gap = next - fire ∧
    (FirstAfter fires start fire ∨ (start < fire ∧ fire ≤ finish))}

/-! ## Moves -/

/-- A round of the loop that does not end it. -/
inductive Moves (cron : CronSchedule) (w : Walk) : Walk → Prop
  | jump {fire : ℤ} (lands : cron.lastInWindow w.previous w.threshold = some fire) :
      Moves cron w { w with previous := fire, coveredAGap := true }
  | longer {next : ℤ} (stays : cron.lastInWindow w.previous w.threshold = none)
      (found : cron.next w.previous = some next) (longer : w.threshold < next - w.previous) :
      Moves cron w ⟨next, next - w.previous, some (next - w.previous), true⟩
  | step {next : ℤ} (stays : cron.lastInWindow w.previous w.threshold = none)
      (found : cron.next w.previous = some next) (within : next - w.previous ≤ w.threshold) :
      Moves cron w ⟨next, w.threshold, w.longest, true⟩

def Walk.Ends (w : Walk) (finish : ℤ) : Prop := w.coveredAGap = true ∧ finish < w.previous

namespace Moves

variable {cron : CronSchedule} {w later : Walk} {fires : Set ℤ} {finish : ℤ}

theorem covered (moves : Moves cron w later) : later.coveredAGap := by
  cases moves <;> rfl

theorem walk_eq (moves : Moves cron w later) (goesOn : ¬w.Ends finish) (steps : ℕ) :
    cron.walk finish (steps + 1) w = cron.walk finish steps later := by
  simp only [Walk.Ends] at goesOn
  cases moves with
  | jump lands => simp only [CronSchedule.walk, if_neg goesOn, lands]
  | longer stays found longer =>
    simp only [CronSchedule.walk, if_neg goesOn, stays, found, if_pos longer]
  | step stays found within =>
    simp only [CronSchedule.walk, if_neg goesOn, stays, found, if_neg (not_lt.mpr within)]

theorem exists_of_next {next : ℤ} (found : cron.next w.previous = some next) :
    ∃ later, Moves cron w later := by
  cases lands : cron.lastInWindow w.previous w.threshold with
  | some fire => exact ⟨_, .jump lands⟩
  | none =>
    by_cases longer : w.threshold < next - w.previous
    · exact ⟨_, .longer lands found longer⟩
    · exact ⟨_, .step lands found (not_lt.mp longer)⟩

theorem of_walk {steps : ℕ} {answer : FireGap}
    (answers : cron.walk finish (steps + 1) w = some answer) :
    (w.Ends finish ∧ answer = w.longest.elim .within .longest) ∨
      ∃ later, ¬w.Ends finish ∧ Moves cron w later ∧
        cron.walk finish steps later = some answer := by
  by_cases ends : w.Ends finish
  · left
    have check : w.coveredAGap = true ∧ finish < w.previous := ends
    simp only [CronSchedule.walk, if_pos check, Option.some.injEq] at answers
    exact ⟨ends, answers.symm⟩
  · right
    have goesOn : ¬(w.coveredAGap = true ∧ finish < w.previous) := ends
    cases found : cron.next w.previous with
    | some next =>
      rcases exists_of_next (w := w) found with ⟨later, moves⟩
      rw [moves.walk_eq ends] at answers
      exact ⟨later, ends, moves, answers⟩
    | none =>
      cases lands : cron.lastInWindow w.previous w.threshold with
      | some fire =>
        have moves : Moves cron w { w with previous := fire, coveredAGap := true } := .jump lands
        rw [moves.walk_eq ends] at answers
        exact ⟨_, ends, moves, answers⟩
      | none =>
        simp only [CronSchedule.walk, if_neg goesOn, lands, found] at answers
        cases answers

theorem lands_inside (reads : cron.Reads fires) {previous threshold fire : ℤ}
    (lands : cron.lastInWindow previous threshold = some fire) :
    fire ∈ fires ∧ previous < fire ∧ fire ≤ previous + threshold := by
  simp only [CronSchedule.lastInWindow, reads.adds] at lands
  split at lands
  · cases lands
  · rename_i last found
    split at lands
    · rename_i inside
      cases lands
      exact ⟨reads.back _ _ found, inside⟩
    · cases lands

theorem onward (reads : cron.Reads fires) (moves : Moves cron w later) :
    later.previous ∈ fires ∧ w.previous < later.previous := by
  cases moves with
  | jump lands =>
    have inside := lands_inside reads lands
    exact ⟨inside.1, inside.2.1⟩
  | longer stays found longer => exact (reads.next _ _ found).1
  | step stays found within => exact (reads.next _ _ found).1

theorem threshold_le (moves : Moves cron w later) : w.threshold ≤ later.threshold := by
  cases moves with
  | jump lands => exact le_refl _
  | longer stays found longer => exact le_of_lt longer
  | step stays found within => exact le_refl _

end Moves

end AgentDeck.Schedule
