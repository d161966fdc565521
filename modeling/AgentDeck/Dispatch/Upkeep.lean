import AgentDeck.Dispatch.Claims
import Mathlib.Data.ENat.Basic

/-!
# A claim its owner keeps alive

The owner of a claim record looks at it after every fire of its schedule and edits it when a refresh
is due (`refresh_own_claim` of `src/issue_dispatch_run.rs`). A run is the owner's fires, checks and
edits, finitely or infinitely many; what another deck reads at an instant is the last edit that has
landed.
-/

namespace AgentDeck.Dispatch

/-- A record on the issue: its body, and the time of its last edit. -/
structure Posted where
  record : ClaimRecord
  updatedAt : DateTime

namespace Posted

/-- The owner's own rule: the record is half a lifetime old, or states another lifetime. -/
def refreshes (ttlHours : ℕ) (posted : Posted) (check : DateTime) : Bool :=
  claimRecordTtlOutdated posted.record ttlHours ||
    claimRefreshDue check (some posted.updatedAt) (TimeDelta.hours ttlHours)

/-- The record after a check: an edit writes `ttl_hours` and a new claim time. -/
def refresh (ttlHours : ℕ) (posted : Posted) (check lands : DateTime) : Posted :=
  if posted.refreshes ttlHours check then
    { record :=
        { posted.record with
          claimedAt := some (nextClaimTime check posted.record.claimedAt)
          ttlHours := some ttlHours }
      updatedAt := lands }
  else posted

end Posted

/-- The owner's fires, the check after each of them, and when the edit of a check lands. The first
record is the one the first fire's dispatch writes. -/
structure Upkeep where
  fires : ℕ → DateTime
  checks : ℕ → DateTime
  lands : ℕ → DateTime
  first : ClaimRecord

namespace Upkeep

variable (ttlHours : ℕ)

/-- The record after the first `k` checks that follow its writing. -/
def held (u : Upkeep) : ℕ → Posted
  | 0 => ⟨u.first, u.lands 0⟩
  | k + 1 => (u.held k).refresh ttlHours (u.checks (k + 1)) (u.lands (k + 1))

/-- The check of fire `k` edits the record. -/
def Edits (u : Upkeep) : ℕ → Prop
  | 0 => True
  | k + 1 => (u.held ttlHours k).refreshes ttlHours (u.checks (k + 1)) = true

/-- The record another deck reads at `t`: every later edit of the run lands at `t` or after it. -/
def Shows (u : Upkeep) (last : ℕ∞) (t : DateTime) (posted : Posted) : Prop :=
  ∃ k : ℕ, (k : ℕ∞) ≤ last ∧ posted = u.held ttlHours k ∧ posted.updatedAt ≤ t ∧
    ∀ j : ℕ, k < j → (j : ℕ∞) ≤ last → u.Edits ttlHours j → t ≤ u.lands j

/-- The owner keeps its claim alive over the fires up to `last`: they are consecutive, no further
apart than the longest gap of the walk from `start`, each is followed by its check, and an edit
lands before the next check and within half the headroom of its fire. -/
structure Kept (u : Upkeep) (schedule : CronSchedule) (start : DateTime) (last : ℕ∞) : Prop where
  written : u.first.ttlHours = some ttlHours
  fire : schedule.Fires (u.fires 0)
  consecutive : ∀ k : ℕ, (k : ℕ∞) < last → schedule.next (u.fires k) = some (u.fires (k + 1))
  gaps : ∀ k : ℕ, (k : ℕ∞) < last →
    ∃ gap, schedule.WalkedGap start (TimeDelta.days claimCronHorizonDays) gap ∧
      u.fires (k + 1) - u.fires k ≤ gap
  checked : ∀ k : ℕ, (k : ℕ∞) ≤ last → u.fires k ≤ u.checks k
  edited : ∀ k : ℕ, (k : ℕ∞) ≤ last → u.Edits ttlHours k → u.checks k ≤ u.lands k
  landed : ∀ k : ℕ, (k : ℕ∞) < last → u.Edits ttlHours k → u.lands k ≤ u.checks (k + 1)
  prompt : ∀ k : ℕ, (k : ℕ∞) < last → u.Edits ttlHours (k + 1) →
    (u.checks (k + 1) - u.fires (k + 1)) + (u.lands (k + 1) - u.checks (k + 1)) <
      claimTtlHeadroom / 2

variable {ttlHours : ℕ} {u : Upkeep} {schedule : CronSchedule} {start : DateTime} {last : ℕ∞}

variable {k : ℕ}

theorem held_succ_of_edits (edits : u.Edits ttlHours (k + 1)) :
    (u.held ttlHours (k + 1)).updatedAt = u.lands (k + 1) ∧
      (u.held ttlHours (k + 1)).record.ttlHours = some ttlHours := by
  simp only [Edits] at edits
  simp only [held, Posted.refresh, edits, if_true, and_self]

theorem held_succ_of_not_edits (rests : ¬ u.Edits ttlHours (k + 1)) :
    u.held ttlHours (k + 1) = u.held ttlHours k := by
  simp only [Edits] at rests
  simp only [held, Posted.refresh, if_neg rests]

theorem held_same {j : ℕ} (later : k ≤ j) (rests : ∀ i, k < i → i ≤ j → ¬ u.Edits ttlHours i) :
    u.held ttlHours j = u.held ttlHours k := by
  induction later with
  | refl => rfl
  | @step j later ih =>
    rw [held_succ_of_not_edits (rests (j + 1) (Nat.lt_succ_of_le later) le_rfl)]
    exact ih fun i above below => rests i above (Nat.le_succ_of_le below)

theorem lt_of_succ_le (within : ((k + 1 : ℕ) : ℕ∞) ≤ last) : (k : ℕ∞) < last :=
  lt_of_lt_of_le (Nat.cast_lt.mpr (Nat.lt_succ_self k)) within

theorem held_states (written : u.first.ttlHours = some ttlHours) (k : ℕ) :
    (u.held ttlHours k).record.ttlHours = some ttlHours := by
  induction k with
  | zero => exact written
  | succ k ih =>
    by_cases edits : u.Edits ttlHours (k + 1)
    · exact (held_succ_of_edits edits).2
    · rw [held_succ_of_not_edits edits]
      exact ih

variable (kept : u.Kept ttlHours schedule start last)

include kept

/-- At each fire whose check has been made, the record's last edit is less than half a lifetime
past. -/
theorem Kept.recent (alive : 1 ≤ ttlHours) (within : (k : ℕ∞) ≤ last) :
    2 * (u.fires k - (u.held ttlHours k).updatedAt) < TimeDelta.hours ttlHours := by
  have positive : 0 < TimeDelta.hours ttlHours := by
    simp only [TimeDelta.hours, TimeDelta.seconds]
    linarith
  have after := kept.checked k within
  have fresh : u.Edits ttlHours k → (u.held ttlHours k).updatedAt = u.lands k →
      2 * (u.fires k - (u.held ttlHours k).updatedAt) < TimeDelta.hours ttlHours := by
    intro edits updated
    have lands := kept.edited k within edits
    linarith
  cases k with
  | zero => exact fresh trivial rfl
  | succ k =>
    by_cases edits : u.Edits ttlHours (k + 1)
    · exact fresh edits (held_succ_of_edits edits).1
    · rw [held_succ_of_not_edits edits]
      simp only [Edits, Posted.refreshes, claimRefreshDue, Bool.or_eq_true, decide_eq_true_eq,
        not_or] at edits
      have halved := Int.ediv_mul_le (TimeDelta.hours ttlHours) (two_ne_zero : (2 : ℤ) ≠ 0)
      linarith [edits.2]

theorem Kept.second_apart (lawful : schedule.Lawful) (within : (k : ℕ∞) ≤ last) :
    schedule.Fires (u.fires k) ∧ u.fires 0 + TimeDelta.seconds k ≤ u.fires k := by
  induction k with
  | zero =>
    refine ⟨kept.fire, ?_⟩
    simp only [TimeDelta.seconds, Nat.cast_zero, zero_mul, add_zero, le_refl]
  | succ k ih =>
    have inside := lt_of_succ_le within
    rcases ih (le_of_lt inside) with ⟨fires, apart⟩
    have step := kept.consecutive k inside
    have next := lawful.second fires step
    refine ⟨⟨u.fires k, step⟩, ?_⟩
    simp only [TimeDelta.seconds, Nat.cast_succ] at apart next ⊢
    linarith

omit kept in
theorem Kept.fires_pass (kept : u.Kept ttlHours schedule start ⊤) (lawful : schedule.Lawful)
    (t : DateTime) (least : ℕ) : ∃ k, least ≤ k ∧ t < u.fires k := by
  have apart := (kept.second_apart lawful (k := least + (t - u.fires 0).toNat + 1) le_top).2
  refine ⟨least + (t - u.fires 0).toNat + 1, by omega, ?_⟩
  have reach := Int.self_le_toNat (t - u.fires 0)
  simp only [TimeDelta.seconds, Nat.cast_add, Nat.cast_one] at apart
  linarith

omit kept in
theorem held_updatedAt_of_edits (edits : u.Edits ttlHours k) :
    (u.held ttlHours k).updatedAt = u.lands k := by
  cases k with
  | zero => rfl
  | succ k => exact (held_succ_of_edits edits).1

variable (lawful : schedule.Lawful)

include lawful

open Classical in
theorem Kept.shown {t : DateTime} (begun : u.lands 0 ≤ t) :
    ∃ posted, u.Shows ttlHours last t posted := by
  let landed : ℕ → Prop := fun k =>
    (k : ℕ∞) ≤ last ∧ u.Edits ttlHours k ∧ u.lands k ≤ t
  have first : landed 0 := ⟨bot_le, trivial, begun⟩
  have bounded : ∀ k, landed k → k ≤ (t - u.fires 0).toNat := by
    intro k isLanded
    rcases isLanded with ⟨within, edits, before⟩
    have apart := (kept.second_apart lawful within).2
    have after := le_trans (kept.checked k within) (kept.edited k within edits)
    have reach : (k : ℤ) ≤ t - u.fires 0 := by
      simp only [TimeDelta.seconds] at apart
      linarith
    exact Int.ofNat_le.mp (le_trans reach (Int.self_le_toNat _))
  have chosen := Nat.findGreatest_spec (Nat.zero_le (t - u.fires 0).toNat) first
  generalize latest : Nat.findGreatest landed (t - u.fires 0).toNat = k at chosen
  refine ⟨u.held ttlHours k, k, chosen.1, rfl, ?_, ?_⟩
  · rw [held_updatedAt_of_edits chosen.2.1]
    exact chosen.2.2
  · intro j later within edits
    by_contra early
    have isLanded : landed j := ⟨within, edits, le_of_lt (not_le.mp early)⟩
    exact Nat.findGreatest_is_greatest (latest ▸ later) (bounded j isLanded) isLanded

open Classical in
/-- An instant at which `posted` is read comes before the edit of the fire that follows one at which
the owner still holds it. -/
theorem Kept.reach {t : DateTime} {posted : Posted} (showing : u.Shows ttlHours last t posted)
    (before : ∀ n : ℕ, last = n →
      ∃ gap, schedule.WalkedGap start (TimeDelta.days claimCronHorizonDays) gap ∧
        t < u.fires n + gap + claimTtlHeadroom / 2) :
    ∃ (j : ℕ) (gap : TimeDelta), (j : ℕ∞) ≤ last ∧ u.held ttlHours j = posted ∧
      schedule.WalkedGap start (TimeDelta.days claimCronHorizonDays) gap ∧
      t < u.fires j + gap + claimTtlHeadroom / 2 := by
  rcases showing with ⟨k, within, rfl, _, later⟩
  by_cases again : ∃ j : ℕ, k < j ∧ (j : ℕ∞) ≤ last ∧ u.Edits ttlHours j
  · -- Up to the check before the next edit nothing changes, and that edit is within its headroom.
    rcases Nat.find_spec again with ⟨above, inside, edits⟩
    have least := fun i => @Nat.find_min _ _ again i
    generalize Nat.find again = j at above inside edits least
    cases j with
    | zero => exact absurd above (Nat.not_lt_zero k)
    | succ j =>
      have strictly := lt_of_succ_le inside
      rcases kept.gaps j strictly with ⟨gap, walked, apart⟩
      refine ⟨j, gap, le_of_lt strictly, ?_, walked, ?_⟩
      · apply held_same (Nat.le_of_lt_succ above)
        intro i past reached editsThere
        apply least i (Nat.lt_succ_of_le reached)
        exact ⟨past, le_trans (Nat.cast_le.mpr reached) (le_of_lt strictly), editsThere⟩
      · have landing := later (j + 1) above inside edits
        have delay := kept.prompt j strictly edits
        linarith
  · have still : ∀ j : ℕ, k ≤ j → (j : ℕ∞) ≤ last → u.held ttlHours j = u.held ttlHours k := by
      intro j reached inside
      apply held_same reached
      intro i past below editsThere
      exact again ⟨i, past, le_trans (Nat.cast_le.mpr below) inside, editsThere⟩
    cases last using ENat.recTopCoe with
    | top =>
      rcases kept.fires_pass lawful t k with ⟨j, reached, passed⟩
      rcases kept.gaps 0 (ENat.natCast_lt_top 0) with ⟨gap, walked, apart⟩
      have ordered := lawful.after (kept.consecutive 0 (ENat.natCast_lt_top 0))
      have half : 0 ≤ claimTtlHeadroom / 2 := by decide
      exact ⟨j, gap, le_top, still j reached le_top, walked, by linarith⟩
    | coe n =>
      rcases before n rfl with ⟨gap, walked, early⟩
      exact ⟨n, gap, le_rfl, still n (Nat.cast_le.mp within) le_rfl, walked, early⟩

theorem Kept.young
    (covers : ∀ gap, schedule.WalkedGap start (TimeDelta.days claimCronHorizonDays) gap →
      gap * 2 + claimTtlHeadroom ≤ TimeDelta.hours ttlHours) (alive : 1 ≤ ttlHours) {t : DateTime}
    {posted : Posted} (showing : u.Shows ttlHours last t posted)
    (before : ∀ n : ℕ, last = n →
      ∃ gap, schedule.WalkedGap start (TimeDelta.days claimCronHorizonDays) gap ∧
        t < u.fires n + gap + claimTtlHeadroom / 2) :
    0 ≤ t - posted.updatedAt ∧ t - posted.updatedAt < TimeDelta.hours ttlHours := by
  rcases kept.reach lawful showing before with ⟨j, gap, within, same, walked, early⟩
  rcases showing with ⟨k, _, _, edited, _⟩
  have recent := kept.recent alive within
  have wide := covers gap walked
  have halves : claimTtlHeadroom / 2 * 2 = claimTtlHeadroom := by decide
  rw [same] at recent
  refine ⟨?_, ?_⟩ <;> linarith

end Upkeep

/-! ## A weekly schedule -/

/-- Mondays at nine, counted from the first of them. -/
def monday (k : ℤ) : DateTime := TimeDelta.seconds (378000 + k * 604800)

def weekly : CronSchedule where
  next start := some (monday ((start - monday 0) / TimeDelta.days 7 + 1))
  nextBack limit := some (monday ((limit - monday 0 - 1) / TimeDelta.days 7))

theorem monday_eq (k : ℤ) : monday k = monday 0 + k * TimeDelta.days 7 := by
  simp only [monday, TimeDelta.days, TimeDelta.seconds]
  linarith

theorem weekly_next (k : ℤ) : weekly.next (monday k) = some (monday (k + 1)) := by
  have whole : (monday k - monday 0) / TimeDelta.days 7 = k := by
    rw [monday_eq, add_sub_cancel_left]
    exact Int.mul_ediv_cancel k (by decide)
  simp only [weekly, whole]

theorem weekly_fires (k : ℤ) : weekly.Fires (monday k) := by
  refine ⟨monday (k - 1), ?_⟩
  rw [weekly_next, sub_add_cancel]

theorem weekly_lawful : weekly.Lawful := by
  refine ⟨?_, ?_, ?_, ?_⟩
  · intro start fire step
    have fireEq := Option.some.inj step
    have later := Int.lt_ediv_add_one_mul_self (start - monday 0)
      (by decide : 0 < TimeDelta.days 7)
    rw [← fireEq, monday_eq]
    linarith
  · intro start fire other step fires later
    have fireEq := Option.some.inj step
    rcases fires with ⟨before, otherStep⟩
    have otherEq := Option.some.inj otherStep
    rw [← otherEq, monday_eq] at later
    have below := Int.ediv_lt_of_lt_mul (by decide : 0 < TimeDelta.days 7)
      (by linarith : start - monday 0 <
        ((before - monday 0) / TimeDelta.days 7 + 1) * TimeDelta.days 7)
    have ordered := mul_le_mul_of_nonneg_right (Int.add_one_le_iff.mpr below)
      (by decide : 0 ≤ TimeDelta.days 7)
    rw [← fireEq, ← otherEq, monday_eq, monday_eq ((before - monday 0) / TimeDelta.days 7 + 1)]
    linarith
  · intro limit fire step
    have fireEq := Option.some.inj step
    rw [← fireEq]
    exact weekly_fires _
  · intro fire fires
    rcases fires with ⟨start, step⟩
    have fireEq := Option.some.inj step
    rw [← fireEq]
    refine ⟨378000 + ((start - monday 0) / TimeDelta.days 7 + 1) * 604800, ?_⟩
    simp only [monday, TimeDelta.seconds]
    linarith

/-- The cron library, on the expression of the weekly schedule. -/
def weeklyFromStr : FromStr := fun expr =>
  if expr = "0 0 9 * * MON".toList then .ok weekly else .error "Invalid expression".toList

def weeklyCron : Text := "0 9 * * MON".toList

def loaded : DateTime := TimeDelta.seconds 1792540800

/-- The check comes a second after each fire, and an edit half a minute later. -/
def weeklyUpkeep (ttlHours : ℕ) : Upkeep where
  fires k := monday (2964 + k)
  checks k := monday (2964 + k) + TimeDelta.seconds 1
  lands k := monday (2964 + k) + TimeDelta.seconds 31
  first := ⟨"triage".toList, "0f".toList, none, some ttlHours⟩

theorem weekly_parsed : weeklyFromStr (normalizeCronExpr weeklyCron) = .ok weekly := by
  simp only [weeklyFromStr,
    if_pos (by decide : normalizeCronExpr weeklyCron = "0 0 9 * * MON".toList)]

theorem weekly_checked {ttlHours : ℕ}
    (walk : fireGapOver weekly loaded (TimeDelta.days claimCronHorizonDays)
      (claimWindow ttlHours) 60 = some .within)
    (wide : claimWindow ttlHours = allowedGap ttlHours) :
    checkClaimTtlAgainstCron weeklyFromStr id weeklyCron ttlHours loaded = .ok () := by
  have parsed : parseCron weeklyFromStr id weeklyCron = .ok weekly := by
    simp only [parseCron, weekly_parsed]
  simp only [checkClaimTtlAgainstCron, parsed]
  rw [fireGapOver_more walk (by decide : 60 ≤ claimCronMaxSteps)]
  simp only [judgeWalk, if_pos wide]

theorem weeklyUpkeep_kept (ttlHours : ℕ) (last : ℕ∞) :
    (weeklyUpkeep ttlHours).Kept ttlHours weekly loaded last := by
  have step : ∀ k : ℕ, weekly.next (monday (2964 + k)) = some (monday (2964 + (k + 1 : ℕ))) := by
    intro k
    rw [weekly_next, Nat.cast_succ, add_assoc]
  refine ⟨rfl, weekly_fires _, fun k _ => step k, ?_, ?_, ?_, ?_, ?_⟩
  · intro k _
    refine ⟨monday 2965 - monday 2964, ?_, ?_⟩
    · refine ⟨monday 2964, monday 2965, weekly_fires _, by decide, Or.inl (by decide), ?_, rfl⟩
      exact weekly_next 2964
    · simp only [weeklyUpkeep, monday, TimeDelta.seconds, Nat.cast_succ]
      linarith
  · intro k _
    simp only [weeklyUpkeep, TimeDelta.seconds]
    linarith
  · intro k _ _
    simp only [weeklyUpkeep, TimeDelta.seconds]
    linarith
  · intro k _ _
    simp only [weeklyUpkeep, monday, TimeDelta.seconds, Nat.cast_succ]
    linarith
  · intro k _ _
    simp only [weeklyUpkeep, add_sub_add_left_eq_sub, add_sub_cancel_left]
    decide

/-- A claim whose owner keeps it alive gates every other deck from the moment its record is written
until the edit of the fire after the last would land, and at every instant of an endless run; a
foreign record as old as its lifetime never gates. -/
theorem kept_claim_gates {fromStr : FromStr} {debug : Text → Text} {cron : Text} {ttlHours : ℕ}
    {start : DateTime} {schedule : CronSchedule} {u : Upkeep} {last : ℕ∞}
    (checked : checkClaimTtlAgainstCron fromStr debug cron ttlHours start = .ok ())
    (valid : validateClaimTtlHours ttlHours = .ok ())
    (parsed : fromStr (normalizeCronExpr cron) = .ok schedule) (lawful : schedule.Lawful)
    (kept : u.Kept ttlHours schedule start last) :
    (∀ t, u.lands 0 ≤ t →
      (∀ n : ℕ, last = n →
        ∃ gap, schedule.WalkedGap start (TimeDelta.days claimCronHorizonDays) gap ∧
          t < u.fires n + gap + claimTtlHeadroom / 2) →
      (∃ posted, u.Shows ttlHours last t posted) ∧
        ∀ posted, u.Shows ttlHours last t posted →
          0 ≤ t - posted.updatedAt ∧ t - posted.updatedAt < TimeDelta.hours ttlHours ∧
          ∀ (ownWorkAlive : Bool) (fallback : TimeDelta) (label : Option DateTime),
            (∀ added, label = some added → added ≤ t) →
            claimRecordGates false ownWorkAlive true
              (claimRecordAge t (some posted.updatedAt) label) (posted.record.ttl fallback) =
                true) ∧
    ∀ (record : ClaimRecord) (ownWorkAlive trusted : Bool) (fallback : TimeDelta) (now : DateTime)
      (updatedAt label : Option DateTime),
      (∀ updated, updatedAt = some updated → record.ttl fallback ≤ now - updated) →
      (∀ added, label = some added → record.ttl fallback ≤ now - added) →
      claimRecordGates false ownWorkAlive trusted (claimRecordAge now updatedAt label)
        (record.ttl fallback) = false := by
  refine ⟨?_, ?_⟩
  · intro t begun before
    refine ⟨kept.shown lawful begun, ?_⟩
    intro posted showing
    rcases checkClaimTtlAgainstCron_ok checked with ⟨found, parsedFound, covers⟩
    have same : found = schedule := Except.ok.inj (parsedFound.symm.trans parsed)
    subst same
    have alive := (validateClaimTtlHours_ok valid).1
    rcases kept.young lawful (covers lawful) alive showing before with ⟨least, most⟩
    refine ⟨least, most, ?_⟩
    intro ownWorkAlive fallback label labelled
    rcases showing with ⟨k, _, postedEq, edited, _⟩
    have states := Upkeep.held_states kept.written k
    rw [← postedEq] at states
    rw [ttl_of_valid states valid fallback]
    exact gates_of_alive ownWorkAlive labelled edited most
  · intro record ownWorkAlive trusted fallback now updatedAt label edit floor
    exact not_gates_of_old ownWorkAlive trusted edit floor

/-- Two weeks into an endless run of the weekly schedule, with a lifetime of thirty days. -/
theorem kept_claim_gates_weekly :
    ∃ posted, (weeklyUpkeep 720).Shows 720 ⊤ (monday 2966) posted ∧
      claimRecordGates false false true
        (claimRecordAge (monday 2966) (some posted.updatedAt) none)
        (posted.record.ttl (TimeDelta.hours 1)) = true := by
  have both := (kept_claim_gates (weekly_checked (by decide +kernel) (by decide))
    (by decide : validateClaimTtlHours 720 = .ok ())
    weekly_parsed weekly_lawful
    (weeklyUpkeep_kept 720 ⊤)).1 (monday 2966) (by decide)
    (fun n same => absurd same.symm (ENat.natCast_ne_top n))
  rcases both.1 with ⟨posted, showing⟩
  refine ⟨posted, showing, ?_⟩
  apply (both.2 posted showing).2.2
  intro added impossible
  exact absurd impossible.symm (Option.some_ne_none _)

/-- A lifetime past the maximum passes the check of its cron, yet its record is read with the
maximum: here the claim is kept as before and lapses before its owner's first refresh. -/
theorem long_lifetime_lapses :
    checkClaimTtlAgainstCron weeklyFromStr id weeklyCron 5000 loaded = .ok () ∧
      (weeklyUpkeep 5000).Kept 5000 weekly loaded 12 ∧
      monday 2977 < (weeklyUpkeep 5000).fires 12 + TimeDelta.days 7 + claimTtlHeadroom / 2 ∧
      ∃ posted, (weeklyUpkeep 5000).Shows 5000 12 (monday 2977) posted ∧
        claimRecordGates false false true
          (claimRecordAge (monday 2977) (some posted.updatedAt) none)
          (posted.record.ttl (TimeDelta.hours 1)) = false := by
  refine ⟨weekly_checked (by decide +kernel) (by decide), weeklyUpkeep_kept 5000 12, by decide,
    (weeklyUpkeep 5000).held 5000 0, ⟨0, bot_le, rfl, by decide, ?_⟩, by decide⟩
  intro j later within edits
  have bounded : j ≤ 12 := by exact_mod_cast within
  have absent : ∀ i, i < 12 → ¬ (weeklyUpkeep 5000).Edits 5000 (i + 1) := by
    simp only [Upkeep.Edits]
    decide
  cases j with
  | zero => exact absurd later (Nat.not_lt_zero 0)
  | succ i => exact absurd edits (absent i (Nat.lt_of_succ_le bounded))

end AgentDeck.Dispatch
