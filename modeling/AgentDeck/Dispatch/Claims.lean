import AgentDeck.Dispatch.Cron

/-!
# Claim records and their lifetime

The claimant records of `src/issue_dispatch.rs`: a record lives for the lifetime its writer stated,
counted from its last edit, and the check made when a schedule is loaded says whether its cron fires
often enough to keep a record alive.
-/

namespace AgentDeck.Dispatch

def claimCronHorizonDays : ℤ := 366

def claimCronMinWindow : TimeDelta := TimeDelta.minutes 30

def claimCronMaxSteps : ℕ := 100000

def maxClaimTtlHours : ℕ := 2160

def claimTtlHeadroom : TimeDelta := TimeDelta.hours 1

def claimFutureTolerance : TimeDelta := TimeDelta.minutes 5

/-- What a record's body says: who wrote it, when it was last claimed and, where the writer states
it, the `claim_ttl_hours` of the writer's deck. -/
structure ClaimRecord where
  task : Text
  host : Text
  claimedAt : Option DateTime
  ttlHours : Option ℕ
  deriving DecidableEq

/-- How long after its last edit the record stays live: what its writer stated, kept within bounds,
or `fallback`, the reader's own. -/
def ClaimRecord.ttl (record : ClaimRecord) (fallback : TimeDelta) : TimeDelta :=
  match record.ttlHours with
  | some hours => TimeDelta.hours (max 1 (min hours maxClaimTtlHours) : ℕ)
  | none => fallback

/-- A record's age: since the later of its own last edit and the time the label was added. -/
def claimRecordAge (now : DateTime) (updatedAt labelAddedAt : Option DateTime) :
    Option TimeDelta :=
  match updatedAt, labelAddedAt with
  | some updated, some added => some (now - max updated added)
  | some updated, none => some (now - updated)
  | none, some added => some (now - added)
  | none, none => none

def claimRecordGates (own ownWorkAlive trusted : Bool) (age : Option TimeDelta)
    (ttl : TimeDelta) : Bool :=
  if own then ownWorkAlive
  else trusted && age.any fun age => decide (-claimFutureTolerance ≤ age) && decide (age < ttl)

/-- Whether the owner's skip should refresh its record now: at half a lifetime. -/
def claimRefreshDue (now : DateTime) (lastEdit : Option DateTime) (ttl : TimeDelta) : Bool :=
  match lastEdit with
  | some lastEdit => decide (ttl / 2 ≤ now - lastEdit)
  | none => true

/-- Whether the record states a lifetime other than the deck's. -/
def claimRecordTtlOutdated (record : ClaimRecord) (ttlHours : ℕ) : Bool :=
  decide (record.ttlHours ≠ some ttlHours)

/-- The claim time of an edit: at least a millisecond past the one the edited record carries. -/
def nextClaimTime (now : DateTime) (previous : Option DateTime) : DateTime :=
  match previous.bind fun previous => checkedAddSigned previous (TimeDelta.milliseconds 1) with
  | some floor => max now floor
  | none => now

/-- `u32` and `i64` in a message. -/
def decimal (n : ℤ) : Text := (toString n).toList

def validateClaimTtlHours (ttlHours : ℕ) : Except Text Unit :=
  if ttlHours < 1 then
    .error ("issue_dispatch claim_ttl_hours must be at least 1 (a claim that is never ".toList ++
      "live gates nothing)".toList)
  else if maxClaimTtlHours < ttlHours then
    .error ("issue_dispatch claim_ttl_hours must be at most ".toList ++ decimal maxClaimTtlHours ++
      " (90 days); got ".toList ++ decimal ttlHours)
  else .ok ()

/-- A duration in a log line: whole days, hours, minutes and seconds, without the zero parts. -/
def formatClaimDuration (duration : TimeDelta) : Text :=
  let total := max (TimeDelta.numSeconds duration) 0
  let parts := [(total / 86400, "d".toList), (total % 86400 / 3600, "h".toList),
    (total % 3600 / 60, "m".toList), (total % 60, "s".toList)]
  let rendered := (parts.filter fun part => decide (0 < part.1)).map fun part =>
    decimal part.1 ++ part.2
  if rendered.isEmpty then "0s".toList else List.intercalate " ".toList rendered

/-- The error of a lifetime the cron cannot keep current. -/
def claimTtlShort (debug : Text → Text) (cron : Text) (ttlHours : ℕ) (gap : Text)
    (neededHours : ℤ) : Text :=
  let remedy :=
    if (maxClaimTtlHours : ℤ) < neededHours then
      "the ".toList ++ decimal neededHours ++ " hours it needs are more than the ".toList ++
        decimal maxClaimTtlHours ++
        "-hour maximum, so claim gating needs a cron that fires more often".toList
    else "set claim_ttl_hours to at least ".toList ++ decimal neededHours
  "claim_ttl_hours = ".toList ++ decimal ttlHours ++
    " is less than twice the longest gap between fires of cron ".toList ++ debug cron ++
    " (".toList ++ gap ++
    ") plus an hour, so a live claim could expire before its owner's next fire refreshes ".toList ++
    "it; ".toList ++ remedy

/-- The longest gap between fires a lifetime allows: `ttl >= 2 × gap + headroom`. -/
def allowedGap (ttlHours : ℕ) : TimeDelta := (TimeDelta.hours ttlHours - claimTtlHeadroom) / 2

/-- The window of the check's walk. -/
def claimWindow (ttlHours : ℕ) : TimeDelta := max (allowedGap ttlHours) claimCronMinWindow

/-- What the check makes of the walk's answer. -/
def judgeWalk (debug : Text → Text) (cron : Text) (ttlHours : ℕ) :
    Option FireGap → Except Text Unit
  | none =>
    .error ("the longest gap between fires of cron ".toList ++ debug cron ++
      " cannot be computed (it stops firing within a year)".toList)
  | some (.longest gap) =>
    let needed := gap * 2 + claimTtlHeadroom
    if needed ≤ TimeDelta.hours ttlHours then .ok ()
    else .error (claimTtlShort debug cron ttlHours (formatClaimDuration gap)
      (Int.tdiv (TimeDelta.numSeconds needed + 3599) 3600))
  | some .within =>
    let window := claimWindow ttlHours
    if window = allowedGap ttlHours then .ok ()
    else .error (claimTtlShort debug cron ttlHours
      ("at most ".toList ++ formatClaimDuration window)
      (Int.tdiv (TimeDelta.numSeconds (window * 2 + claimTtlHeadroom)) 3600))

/-- Check that a lifetime of `ttl_hours` can be kept current by a task firing on `cron`. -/
def checkClaimTtlAgainstCron (fromStr : FromStr) (debug : Text → Text) (cron : Text)
    (ttlHours : ℕ) (start : DateTime) : Except Text Unit :=
  match parseCron fromStr debug cron with
  | .error message => .error message
  | .ok schedule =>
    judgeWalk debug cron ttlHours (fireGapOver schedule start
      (TimeDelta.days claimCronHorizonDays) (claimWindow ttlHours) claimCronMaxSteps)

/-! ## What the checks establish -/

theorem validateClaimTtlHours_ok {ttlHours : ℕ} (valid : validateClaimTtlHours ttlHours = .ok ()) :
    1 ≤ ttlHours ∧ ttlHours ≤ maxClaimTtlHours := by
  simp only [validateClaimTtlHours] at valid
  split at valid
  · simp only [reduceCtorEq] at valid
  · rename_i least
    split at valid
    · simp only [reduceCtorEq] at valid
    · rename_i most
      exact ⟨not_lt.mp least, not_lt.mp most⟩

theorem ttl_of_valid {record : ClaimRecord} {ttlHours : ℕ}
    (stated : record.ttlHours = some ttlHours) (valid : validateClaimTtlHours ttlHours = .ok ())
    (fallback : TimeDelta) : record.ttl fallback = TimeDelta.hours ttlHours := by
  rcases validateClaimTtlHours_ok valid with ⟨least, most⟩
  simp only [ClaimRecord.ttl, stated, Nat.min_eq_left most, Nat.max_eq_right least]

theorem checkClaimTtlAgainstCron_ok {fromStr : FromStr} {debug : Text → Text} {cron : Text}
    {ttlHours : ℕ} {start : DateTime}
    (checked : checkClaimTtlAgainstCron fromStr debug cron ttlHours start = .ok ()) :
    ∃ schedule, fromStr (normalizeCronExpr cron) = .ok schedule ∧
      (schedule.Lawful → ∀ gap,
        schedule.WalkedGap start (TimeDelta.days claimCronHorizonDays) gap →
          gap * 2 + claimTtlHeadroom ≤ TimeDelta.hours ttlHours) := by
  simp only [checkClaimTtlAgainstCron] at checked
  split at checked
  · simp only [reduceCtorEq] at checked
  · rename_i schedule parsed
    refine ⟨schedule, ?_, ?_⟩
    · simp only [parseCron] at parsed
      split at parsed
      · rename_i found
        rw [← Except.ok.inj parsed]
        exact found
      · simp only [reduceCtorEq] at parsed
    · intro lawful gap walked
      generalize answered : fireGapOver schedule start (TimeDelta.days claimCronHorizonDays)
        (claimWindow ttlHours) claimCronMaxSteps = found at checked
      cases found with
      | none => simp only [judgeWalk, reduceCtorEq] at checked
      | some found =>
        have covered := fireGapOver_covers lawful answered walked
        cases found with
        | longest longest =>
          simp only [judgeWalk] at checked
          simp only [FireGap.bound] at covered
          split at checked
          · linarith
          · simp only [reduceCtorEq] at checked
        | within =>
          simp only [judgeWalk] at checked
          split at checked
          · rename_i same
            have halved := Int.ediv_mul_le (TimeDelta.hours ttlHours - claimTtlHeadroom)
              (two_ne_zero : (2 : ℤ) ≠ 0)
            have positive : 0 ≤ allowedGap ttlHours := by
              rw [← same]
              exact le_trans (by decide) (le_max_right _ _)
            rw [same, FireGap.bound, max_eq_left positive, allowedGap] at covered
            linarith
          · simp only [reduceCtorEq] at checked

/-! ## Reading a foreign record -/

variable {label : Option DateTime}

theorem claimRecordAge_some {now updated : DateTime} {age : TimeDelta}
    (aged : claimRecordAge now (some updated) label = some age)
    (labelled : ∀ added, label = some added → added ≤ now) (edited : updated ≤ now) :
    0 ≤ age ∧ age ≤ now - updated := by
  cases label with
  | none =>
    have ageEq : now - updated = age := Option.some.inj aged
    refine ⟨?_, ?_⟩ <;> linarith
  | some added =>
    have ageEq : now - max updated added = age := Option.some.inj aged
    have floor := le_max_left updated added
    have latest := max_le edited (labelled added rfl)
    refine ⟨?_, ?_⟩ <;> linarith

/-- A trusted foreign record whose own age is within its lifetime gates, wherever the label floor
stands. -/
theorem gates_of_alive {now updated : DateTime} {ttl : TimeDelta} (ownWorkAlive : Bool)
    (labelled : ∀ added, label = some added → added ≤ now) (edited : updated ≤ now)
    (alive : now - updated < ttl) :
    claimRecordGates false ownWorkAlive true (claimRecordAge now (some updated) label) ttl =
      true := by
  have clocked : ∃ age, claimRecordAge now (some updated) label = some age := by
    cases label with
    | none => exact ⟨_, rfl⟩
    | some added => exact ⟨_, rfl⟩
  rcases clocked with ⟨age, aged⟩
  rcases claimRecordAge_some aged labelled edited with ⟨least, most⟩
  have tolerated : -claimFutureTolerance ≤ age := le_trans (by decide) least
  have young : age < ttl := lt_of_le_of_lt most alive
  simp only [claimRecordGates, aged, Bool.false_eq_true, if_false, Option.any_some, tolerated,
    young, decide_true, Bool.and_self]

theorem not_gates_of_old {now : DateTime} {updatedAt : Option DateTime} {ttl : TimeDelta}
    (ownWorkAlive trusted : Bool) (edit : ∀ updated, updatedAt = some updated → ttl ≤ now - updated)
    (floor : ∀ added, label = some added → ttl ≤ now - added) :
    claimRecordGates false ownWorkAlive trusted (claimRecordAge now updatedAt label) ttl =
      false := by
  have old : ∀ age, claimRecordAge now updatedAt label = some age → ¬ age < ttl := by
    intro age aged
    cases updatedAt with
    | none =>
      cases label with
      | none => exact absurd aged.symm (Option.some_ne_none _)
      | some added =>
        have ageEq : now - added = age := Option.some.inj aged
        exact not_lt.mpr (ageEq ▸ floor added rfl)
    | some updated =>
      cases label with
      | none =>
        have ageEq : now - updated = age := Option.some.inj aged
        exact not_lt.mpr (ageEq ▸ edit updated rfl)
      | some added =>
        have ageEq : now - max updated added = age := Option.some.inj aged
        rcases max_choice updated added with same | same
        · rw [same] at ageEq
          exact not_lt.mpr (ageEq ▸ edit updated rfl)
        · rw [same] at ageEq
          exact not_lt.mpr (ageEq ▸ floor added rfl)
  cases aged : claimRecordAge now updatedAt label with
  | none =>
    simp only [claimRecordGates, Bool.false_eq_true, if_false, Option.any_none, Bool.and_false]
  | some age =>
    simp only [claimRecordGates, Bool.false_eq_true, if_false, Option.any_some, old age aged,
      decide_false, Bool.and_false]

end AgentDeck.Dispatch
