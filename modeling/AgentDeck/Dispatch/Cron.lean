import AgentDeck.Text
import Mathlib.Algebra.Order.Ring.Int
import Mathlib.Tactic.Linarith

/-!
# Cron schedules and the gaps between their fires

`parse_cron` and `fire_gap_over` of `src/scheduler.rs`. Wall times and their differences are whole
numbers of nanoseconds, counted from the Unix epoch. The cron library is not part of the deck: a
schedule is known by its two lookups.
-/

namespace AgentDeck.Dispatch

/-- `chrono::DateTime`. -/
abbrev DateTime := ℤ

/-- `chrono::Duration`. -/
abbrev TimeDelta := ℤ

namespace TimeDelta

def milliseconds (n : ℤ) : TimeDelta := n * 1000000

def seconds (n : ℤ) : TimeDelta := n * 1000000000

def minutes (n : ℤ) : TimeDelta := seconds (n * 60)

def hours (n : ℤ) : TimeDelta := seconds (n * 3600)

def days (n : ℤ) : TimeDelta := seconds (n * 86400)

def numSeconds (d : TimeDelta) : ℤ := Int.tdiv d 1000000000

end TimeDelta

/-- `checked_add_signed`: the sum, where it is between `DateTime::MIN_UTC` and `MAX_UTC`. -/
def checkedAddSigned (t : DateTime) (d : TimeDelta) : Option DateTime :=
  if TimeDelta.seconds (-8334601228800) ≤ t + d ∧ t + d < TimeDelta.seconds 8210266876800 then
    some (t + d)
  else none

theorem checkedAddSigned_some {t : DateTime} {d : TimeDelta} {sum : DateTime}
    (added : checkedAddSigned t d = some sum) : sum = t + d := by
  simp only [checkedAddSigned] at added
  split at added
  · exact (Option.some.inj added).symm
  · cases added

/-- A parsed schedule, as the lookups `schedule.after(t).next()` and `schedule.after(t).next_back()`
answer. -/
structure CronSchedule where
  next : DateTime → Option DateTime
  nextBack : DateTime → Option DateTime

namespace CronSchedule

def Fires (schedule : CronSchedule) (fire : DateTime) : Prop :=
  ∃ start, schedule.next start = some fire

/-- What the library says of the lookups: `next` is the first fire after its argument, a reverse
lookup yields a fire, and fires are whole seconds. -/
structure Lawful (schedule : CronSchedule) : Prop where
  after : ∀ {start fire : DateTime}, schedule.next start = some fire → start < fire
  first : ∀ {start fire other : DateTime}, schedule.next start = some fire →
    schedule.Fires other → start < other → fire ≤ other
  back : ∀ {limit fire : DateTime}, schedule.nextBack limit = some fire → schedule.Fires fire
  whole : ∀ {fire : DateTime}, schedule.Fires fire → TimeDelta.seconds 1 ∣ fire

variable {schedule : CronSchedule}

theorem Lawful.second (lawful : schedule.Lawful) {fire next : DateTime}
    (fires : schedule.Fires fire) (step : schedule.next fire = some next) :
    fire + TimeDelta.seconds 1 ≤ next := by
  have later := lawful.after step
  rcases lawful.whole fires with ⟨m, fireEq⟩
  rcases lawful.whole ⟨fire, step⟩ with ⟨n, nextEq⟩
  simp only [TimeDelta.seconds] at fireEq nextEq ⊢
  have ordered : m < n := by linarith
  linarith

end CronSchedule

/-- The schedule a cron expression stands for, or what is wrong with it. -/
abbrev FromStr := Text → Except Text CronSchedule

def normalizeCronExpr (expr : Text) : Text :=
  let trimmed := expr.trim
  if ((trimmed.splitOnP Text.isWhitespace).filter fun field => !field.isEmpty).length = 5 then
    "0 ".toList ++ trimmed
  else trimmed

/-- `parse_cron`, with the text of its error; `debug` is the quoting of `str`'s `Debug`. -/
def parseCron (fromStr : FromStr) (debug : Text → Text) (expr : Text) :
    Except Text CronSchedule :=
  match fromStr (normalizeCronExpr expr) with
  | .ok schedule => .ok schedule
  | .error message =>
    .error ("invalid cron expression ".toList ++ debug expr ++ ": ".toList ++ message)

/-- What the walk found about the gaps between consecutive fires. -/
inductive FireGap where
  | within
  | longest (gap : TimeDelta)
  deriving DecidableEq

namespace FireGap

def bound (threshold : TimeDelta) : FireGap → TimeDelta
  | within => threshold
  | longest gap => gap

end FireGap

/-- The last fire at or before `previous + threshold`, when it is provably in that window. -/
def lastInWindow (schedule : CronSchedule) (previous : DateTime) (threshold : TimeDelta) :
    Option DateTime :=
  match checkedAddSigned previous threshold with
  | none => none
  | some windowEnd =>
    match checkedAddSigned windowEnd (TimeDelta.seconds 1) with
    | none => none
    | some afterWindow =>
      match schedule.nextBack afterWindow with
      | none => none
      | some fire => if previous < fire ∧ fire ≤ windowEnd then some fire else none

/-- The loop of `fire_gap_over`, over the steps it may still take. -/
def gapWalk (schedule : CronSchedule) (finish : DateTime) :
    ℕ → TimeDelta → Option TimeDelta → DateTime → Bool → Option FireGap
  | 0, _, _, _, _ => none
  | steps + 1, threshold, longest, previous, coveredAGap =>
    if coveredAGap = true ∧ finish < previous then
      some (longest.elim .within .longest)
    else
      match lastInWindow schedule previous threshold with
      | some fire => gapWalk schedule finish steps threshold longest fire true
      | none =>
        match schedule.next previous with
        | none => none
        | some next =>
          if threshold < next - previous then
            gapWalk schedule finish steps (next - previous) (some (next - previous)) next true
          else gapWalk schedule finish steps threshold longest next true

/-- Whether any interval between two consecutive fires after `start` is longer than `threshold`,
and if so the longest one. -/
def fireGapOver (schedule : CronSchedule) (start : DateTime) (horizon threshold : TimeDelta)
    (maxSteps : ℕ) : Option FireGap :=
  match checkedAddSigned start horizon with
  | none => none
  | some finish =>
    match schedule.next start with
    | none => none
    | some previous => gapWalk schedule finish maxSteps (max threshold 0) none previous false

/-! ## What the walk covers -/

variable {schedule : CronSchedule}

variable {previous : DateTime} {threshold : TimeDelta}

theorem lastInWindow_some (lawful : schedule.Lawful) {fire : DateTime}
    (found : lastInWindow schedule previous threshold = some fire) :
    schedule.Fires fire ∧ previous < fire ∧ fire ≤ previous + threshold := by
  simp only [lastInWindow] at found
  split at found
  · cases found
  · rename_i windowEnd added
    split at found
    · cases found
    · split at found
      · cases found
      · rename_i last back
        split at found
        · rename_i inside
          have same := Option.some.inj found
          subst same
          rw [← checkedAddSigned_some added]
          exact ⟨lawful.back back, inside.1, inside.2⟩
        · cases found

/-- The walk's threshold is the longest gap it has recorded, or the one it was given. -/
def Coherent (given threshold : TimeDelta) (longest : Option TimeDelta) : Prop :=
  longest.getD given = threshold

variable {found : FireGap}

theorem gapWalk_covers (lawful : schedule.Lawful) {finish : DateTime} {given : TimeDelta}
    {steps : ℕ} {longest : Option TimeDelta} {coveredAGap : Bool}
    (walked : gapWalk schedule finish steps threshold longest previous coveredAGap = some found)
    (coherent : Coherent given threshold longest) :
    threshold ≤ found.bound given ∧
      ∀ fire next, schedule.Fires fire → previous ≤ fire →
        (fire ≤ finish ∨ coveredAGap = false ∧ fire = previous) →
        schedule.next fire = some next → next - fire ≤ found.bound given := by
  induction steps generalizing threshold longest previous coveredAGap with
  | zero => exact absurd walked.symm (Option.some_ne_none _)
  | succ steps ih =>
    simp only [gapWalk] at walked
    split at walked
    · -- Past the horizon: no fire is left to cover.
      rename_i past
      have foundEq := Option.some.inj walked
      subst foundEq
      refine ⟨?_, ?_⟩
      · cases longest with
        | none => exact le_of_eq coherent.symm
        | some gap => exact le_of_eq coherent.symm
      · intro fire next _ reached within _
        rcases within with early | ⟨uncovered, _⟩
        · exact absurd (lt_of_lt_of_le past.2 reached) (not_lt.mpr early)
        · cases past.1.symm.trans uncovered
    · split at walked
      · -- A jump: every fire before the one it lands on has its successor inside the window.
        rename_i landed inWindow
        rcases lastInWindow_some lawful inWindow with ⟨landedFires, beyond, inside⟩
        rcases ih walked coherent with ⟨below, covers⟩
        refine ⟨below, ?_⟩
        intro fire next fires reached within step
        by_cases before : fire < landed
        · have nextLe := lawful.first step landedFires before
          linarith
        · apply covers fire next fires (not_lt.mp before) _ step
          rcases within with early | ⟨_, same⟩
          · exact Or.inl early
          · exact absurd (same ▸ beyond) before
      · split at walked
        · cases walked
        · rename_i follower follows
          -- A single step: the gap from `previous` is recorded, the others start at the next fire.
          have rest : ∀ {threshold' : TimeDelta}, threshold' ≤ found.bound given →
              follower - previous ≤ threshold' →
              (∀ fire next, schedule.Fires fire → follower ≤ fire →
                (fire ≤ finish ∨ true = false ∧ fire = follower) →
                schedule.next fire = some next → next - fire ≤ found.bound given) →
              ∀ fire next, schedule.Fires fire → previous ≤ fire →
                (fire ≤ finish ∨ coveredAGap = false ∧ fire = previous) →
                schedule.next fire = some next → next - fire ≤ found.bound given := by
            intro threshold' below gapLe covers fire next fires reached within step
            rcases lt_or_eq_of_le reached with later | same
            · apply covers fire next fires (lawful.first follows fires later) _ step
              rcases within with early | ⟨_, same⟩
              · exact Or.inl early
              · exact absurd same (ne_of_gt later)
            · subst same
              have nextEq := Option.some.inj (step.symm.trans follows)
              rw [nextEq]
              exact le_trans gapLe below
          split at walked
          · rename_i longer
            rcases ih walked rfl with ⟨below, covers⟩
            exact ⟨le_trans (le_of_lt longer) below, rest below le_rfl covers⟩
          · rename_i shorter
            rcases ih walked coherent with ⟨below, covers⟩
            exact ⟨below, rest below (not_lt.mp shorter) covers⟩

theorem gapWalk_more {schedule : CronSchedule} {finish : DateTime} {steps maxSteps : ℕ}
    {longest : Option TimeDelta} {coveredAGap : Bool}
    (answered : gapWalk schedule finish steps threshold longest previous coveredAGap = some found)
    (more : steps ≤ maxSteps) :
    gapWalk schedule finish maxSteps threshold longest previous coveredAGap = some found := by
  induction steps generalizing threshold longest previous coveredAGap maxSteps with
  | zero => exact absurd answered.symm (Option.some_ne_none _)
  | succ steps ih =>
    cases maxSteps with
    | zero => exact absurd more (Nat.not_succ_le_zero steps)
    | succ maxSteps =>
      have fewer := Nat.le_of_succ_le_succ more
      simp only [gapWalk] at answered ⊢
      split
      · rename_i past
        rw [if_pos past] at answered
        exact answered
      · rename_i inside
        rw [if_neg inside] at answered
        cases landed : lastInWindow schedule previous threshold with
        | some fire =>
          rw [landed] at answered
          exact ih answered fewer
        | none =>
          rw [landed] at answered
          cases follows : schedule.next previous with
          | none =>
            rw [follows] at answered
            cases answered
          | some next =>
            rw [follows] at answered
            simp only at answered ⊢
            split
            · rename_i longer
              rw [if_pos longer] at answered
              exact ih answered fewer
            · rename_i shorter
              rw [if_neg shorter] at answered
              exact ih answered fewer

theorem fireGapOver_more {schedule : CronSchedule} {start : DateTime} {horizon : TimeDelta}
    {steps maxSteps : ℕ}
    (answered : fireGapOver schedule start horizon threshold steps = some found)
    (more : steps ≤ maxSteps) :
    fireGapOver schedule start horizon threshold maxSteps = some found := by
  simp only [fireGapOver] at answered ⊢
  split at answered
  · cases answered
  · split at answered
    · cases answered
    · exact gapWalk_more answered more

/-- A gap the walk covers: it starts at a fire after `start` and up to the horizon, or at the first
fire of all. -/
def CronSchedule.WalkedGap (schedule : CronSchedule) (start : DateTime) (horizon : TimeDelta)
    (gap : TimeDelta) : Prop :=
  ∃ fire next, schedule.Fires fire ∧ start < fire ∧
    (fire ≤ start + horizon ∨ schedule.next start = some fire) ∧
    schedule.next fire = some next ∧ gap = next - fire

theorem fireGapOver_covers (lawful : schedule.Lawful) {start : DateTime} {horizon : TimeDelta}
    {maxSteps : ℕ} (answered : fireGapOver schedule start horizon threshold maxSteps = some found)
    {gap : TimeDelta} (walked : schedule.WalkedGap start horizon gap) :
    gap ≤ found.bound (max threshold 0) := by
  rcases walked with ⟨fire, next, fires, later, within, step, gapEq⟩
  simp only [fireGapOver] at answered
  split at answered
  · cases answered
  · rename_i finish added
    split at answered
    · cases answered
    · rename_i previous initial
      rw [gapEq]
      apply (gapWalk_covers lawful answered rfl).2 fire next fires
      · exact lawful.first initial fires later
      · rcases within with inside | same
        · rw [checkedAddSigned_some added]
          exact Or.inl inside
        · exact Or.inr ⟨rfl, Option.some.inj (same.symm.trans initial)⟩
      · exact step

end AgentDeck.Dispatch
