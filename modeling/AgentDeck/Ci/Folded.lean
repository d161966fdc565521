import AgentDeck.Ci.Accounted

/-!
# Folding, recording and releasing

Each part of `observe_ci` and `release_ci` keeps the account of the pull request in hand: a report
folded in, the stretch it ends, a round only one card saw, and the last run letting go.
-/

namespace AgentDeck.Ci

open SortedMap

section Folded

variable {states : PrKey → ℕ → Option CiState} {tracker : Tracker} {key : PrKey} {shared : SharedCi}

/-! ## What the records leave -/

variable (oldest : Tracker.Oldest) (effect : CiEffect) (rounds : RecordedRounds) (interval : ℕ × ℕ)
  (span : Option CiSpan)

theorem recordRound_ci : (tracker.recordRound key rounds interval span).ci = tracker.ci := by
  unfold Tracker.recordRound
  split <;> rfl

theorem recordRound_released :
    (tracker.recordRound key rounds interval span).released = tracker.released := by
  unfold Tracker.recordRound
  split <;> rfl

theorem recordRound_runs : (tracker.recordRound key rounds interval span).runs = tracker.runs := by
  unfold Tracker.recordRound
  split <;> rfl

theorem recordCi_runs (now : ℕ) :
    (tracker.recordCi key shared effect now).1.runs = tracker.runs := by
  unfold Tracker.recordCi
  cases effect with
  | change old new pr =>
    simp only
    split <;> rfl
  | ended stretch result checks =>
    simp only
    split
    · rfl
    · exact recordRound_runs _ _ _

theorem recordCi_ci (now : ℕ) : (tracker.recordCi key shared effect now).1.ci = tracker.ci := by
  unfold Tracker.recordCi
  cases effect with
  | change old new pr =>
    simp only
    split <;> rfl
  | ended stretch result checks =>
    simp only
    split
    · rfl
    · exact recordRound_ci _ _ _

theorem recordCi_released (now : ℕ) :
    (tracker.recordCi key shared effect now).1.released = tracker.released := by
  unfold Tracker.recordCi
  cases effect with
  | change old new pr =>
    simp only
    split <;> rfl
  | ended stretch result checks =>
    simp only
    split
    · rfl
    · exact recordRound_released _ _ _

theorem recordCi_shared (now : ℕ) :
    (tracker.recordCi key shared effect now).2.ci = shared.ci ∧
      (tracker.recordCi key shared effect now).2.revision = shared.revision := by
  unfold Tracker.recordCi
  cases effect with
  | change old new pr =>
    simp only
    split <;> exact ⟨rfl, rfl⟩
  | ended stretch result checks =>
    simp only
    split <;> exact ⟨rfl, rfl⟩

/-! ## A change and an end -/

theorem recordCi_change (old : Option CiState) (new : CiState) (pr now : ℕ) :
    (tracker.recordCi key shared (.change old new pr) now).2 = shared := by
  unfold Tracker.recordCi
  simp only
  split <;> rfl

section

variable (hand : InHand states tracker key shared)

include hand

theorem InHand.change {other : SharedCi} (old : Option CiState) (new : CiState) (pr now : ℕ) :
    InHand states (tracker.recordCi key other (.change old new pr) now).1 key shared := by
  unfold Tracker.recordCi
  simp only
  split
  · exact hand
  · exact hand.frame rfl rfl rfl rfl rfl

omit hand in
/-- A stretch that ends is recorded as one round. -/
theorem recordCi_ended (tracker : Tracker) (key : PrKey)
    (above : shared.rounds.floor < shared.revision) (stretch : OpenStretch)
    (result : Option CiState) (checks : Option PullRequestChecks) (now : ℕ) :
    ∃ span, tracker.recordCi key shared (.ended stretch result checks) now =
      (withRound tracker key (shared.openSince, shared.revision) span,
        { shared with
          rounds := shared.rounds.record shared.openSince shared.revision
          opener := none }) := by
  have numbered : shared.revision ≠ 0 := by omega
  have past : ¬ shared.revision ≤ shared.rounds.floor := by omega
  simp only [Tracker.recordCi, if_neg numbered, Tracker.recordRound, if_neg past]
  exact ⟨_, rfl⟩

/-- The pull request's state after a report: a stretch open now was open before, or opened past all
that was recorded. -/
theorem InHand.observed {other : SharedCi}
    (rounds : other.rounds = shared.rounds) (revision : shared.revision ≤ other.revision)
    (opened : ∀ since, other.view.openSince = some since →
      shared.view.openSince = some since ∨ (shared.revision < since ∧ since ≤ other.revision))
    (state : ∀ state, other.ci.last = some state → states key other.revision = some state) :
    InHand states tracker key other := by
  have sound := hand.sound
  refine ⟨hand.accounted, hand.notHeld, hand.notReleased, ⟨?_, ?_, ?_, state⟩⟩
  · simp only [SharedCi.view, rounds]
    exact sound.stands
  · intro round mem
    exact (sound.bounded round mem).trans revision
  · intro since here
    rcases opened since here with before | ⟨past, within⟩
    · rcases sound.opened since before with ⟨positive, below, later⟩
      exact ⟨positive, below.trans revision, later⟩
    · refine ⟨by omega, within, ?_⟩
      intro round mem
      exact (sound.bounded round mem).trans_lt past

theorem InHand.endStretch (other : SharedCi) (opened : shared.view.openSince = some other.openSince)
    (rounds : other.rounds = shared.rounds) (revision : shared.revision ≤ other.revision)
    (closed : other.ci.stretch = none)
    (state : ∀ state, other.ci.last = some state → states key other.revision = some state)
    (stretch : OpenStretch) (result : Option CiState) (checks : Option PullRequestChecks)
    (now : ℕ) :
    InHand states (tracker.recordCi key other (.ended stretch result checks) now).1 key
      (tracker.recordCi key other (.ended stretch result checks) now).2 := by
  rcases hand.sound.opened _ opened with ⟨positive, within, later⟩
  have order : other.openSince ≤ other.revision := le_trans within revision
  have notOpen : other.view.openSince = none := by simp [SharedCi.view, PrCi.isOpen, closed]
  have ended : InHand states tracker key other :=
    hand.observed rounds revision (by simp [notOpen]) state
  have above : other.rounds.floor < other.revision := by
    rcases ended.sound.stands.floor_lt later with below | zero
    · exact lt_of_lt_of_le below order
    · simp only [SharedCi.view] at zero
      omega
  rcases recordCi_ended tracker key above stretch result checks now with ⟨span, shape⟩
  rw [shape]
  refine InHand.reshape (ended.record order above ?_ le_rfl (by simp [notOpen]) span) rfl
  intro round mem
  exact .inl (later round mem)

end

/-! ## A report -/

variable {state : CiState}

theorem Report.checks_of_seen {report : Report} (seen : report.seen = some state) :
    ∃ checks, report.checks = some checks ∧ CiState.fromChecks checks.state = some state :=
  Option.bind_eq_some_iff.mp seen

theorem SharedCi.openSince_of_open {stretch : OpenStretch}
    (opened : shared.ci.stretch = some stretch) :
    shared.view.openSince = some shared.openSince := by
  simp [SharedCi.view, PrCi.isOpen, opened]

/-- What is kept of a report folded into the state in hand. -/
structure Folded (states : PrKey → ℕ → Option CiState) (key : PrKey) (revision : ℕ)
    (folded : Tracker × SharedCi) : Prop where
  hand : InHand states folded.1 key folded.2
  checks : folded.2.ci.For key.number
  revision : revision ≤ folded.2.revision

theorem Folded.ite {revision : ℕ} {condition : Prop} [Decidable condition] {folded : Tracker}
    {left right : SharedCi} (yes : condition → Folded states key revision (folded, left))
    (no : ¬ condition → Folded states key revision (folded, right)) :
    Folded states key revision (folded, if condition then left else right) := by
  split
  · rename_i holds
    exact yes holds
  · rename_i fails
    exact no fails

/-- A newer report is folded in by its state. -/
theorem InHand.fold (hand : InHand states tracker key shared) (checks : shared.ci.For key.number)
    {report : Report} (seen : report.seen = some state)
    (known : states key report.revision = some state) (newer : shared.revision ≤ report.revision)
    (fresh : state = .pending → shared.ci.last = none → shared.revision ≠ report.revision) :
    Folded states key report.revision (tracker.foldReport key shared report) := by
  rcases Report.checks_of_seen seen with ⟨shown, here, is⟩
  rcases PrCi.observe_observes checks is report.now report.spanIds.1 with ⟨observes, after⟩
  unfold Tracker.foldReport
  rw [here]
  revert observes after
  generalize shared.ci.observe (some key.number) (some shown) report.now report.spanIds.1 = result
  rcases result with ⟨ci, effects⟩
  intro observes after
  simp only at observes after ⊢
  rw [max_eq_right newer]
  -- Who the open stretch's span goes to changes nothing of the view.
  have place : ∃ opener, (if ci.isOpen = true ∧ shared.opener = none then
        { shared with
          ci := ci
          revision := report.revision
          opener := (shared.holders.head?.bind tracker.runById).map fun run =>
            ⟨run.runId, run.traceId, run.spanId, run.identity⟩ }
      else { shared with ci := ci, revision := report.revision }) =
      ({ shared with ci := ci, revision := report.revision, opener := opener } : SharedCi) := by
    split
    · exact ⟨_, rfl⟩
    · exact ⟨_, rfl⟩
  rcases place with ⟨opener, placed⟩
  rw [placed]
  have state_of : ∀ other, ci.last = some other → ci.last = some state →
      states key report.revision = some other := by
    intro other same last
    rw [known, ← last, same]
  cases observes with
  | same same last stretch =>
    have still : ci.isOpen = shared.ci.isOpen := by simp [PrCi.isOpen, stretch]
    simp only [List.foldl_nil]
    refine Folded.ite ?_ ?_
    · intro reopened
      rw [still] at reopened
      simp at reopened
    · intro _
      refine ⟨hand.observed rfl newer ?_ fun other is => state_of other is last, after, le_rfl⟩
      intro since opened
      simp only [SharedCi.view, still] at opened
      exact .inl opened
  | opens closed pending last stretch =>
    -- A stretch opens past the newest revision folded: at it the checks show another state.
    have later : shared.revision < report.revision := by
      refine lt_of_le_of_ne newer ?_
      cases before : shared.ci.last with
      | none => exact fresh pending before
      | some old =>
        intro same
        have stateThen := hand.sound.state old before
        simp only [SharedCi.view, same] at stateThen
        rw [known, pending] at stateThen
        rw [← Option.some.inj stateThen] at before
        have opened := checks.pending.mpr before
        rw [closed] at opened
        cases opened
    have wasClosed : shared.ci.isOpen = false := by simp [PrCi.isOpen, closed]
    have nowOpen : ci.isOpen := stretch
    simp only [List.foldl_cons, List.foldl_nil, recordCi_change]
    refine Folded.ite ?_ fun kept => absurd ⟨nowOpen, .inl wasClosed⟩ kept
    intro _
    refine ⟨InHand.change ?_ _ _ _ _, after, le_rfl⟩
    refine hand.observed rfl newer ?_ fun other is => state_of other is (by rw [last, pending])
    intro since opened
    simp only [SharedCi.view, nowOpen, if_true, Option.some.injEq] at opened
    exact .inr ⟨opened ▸ later, opened ▸ le_rfl⟩
  | settles closed result last stretch =>
    have nowClosed : ci.isOpen = false := by simp [PrCi.isOpen, stretch]
    simp only [List.foldl_cons, List.foldl_nil, recordCi_change]
    refine Folded.ite (fun reopened => absurd (nowClosed.symm.trans reopened.1) Bool.noConfusion) ?_
    intro _
    refine ⟨InHand.change ?_ _ _ _ _, after, le_rfl⟩
    refine hand.observed rfl newer ?_ fun other is => state_of other is last
    intro since opened
    simp [SharedCi.view, nowClosed] at opened
  | ends stretch opened result last closed =>
    have nowClosed : ci.isOpen = false := by simp [PrCi.isOpen, closed]
    simp only [List.foldl_cons, List.foldl_nil, recordCi_change]
    refine Folded.ite ?_ ?_
    · intro reopened
      rw [(recordCi_shared _ _).1] at reopened
      cases nowClosed.symm.trans reopened.1
    intro _
    refine ⟨?_, by rw [(recordCi_shared _ _).1]; exact after,
      by rw [(recordCi_shared _ _).2]⟩
    refine InHand.endStretch (hand.change _ _ _ _) _ ?_ ?_ newer closed ?_ _ _ _ _
    · exact SharedCi.openSince_of_open opened
    · rfl
    · intro other is
      exact state_of other is last

theorem InHand.report (hand : InHand states tracker key shared) (checks : shared.ci.For key.number)
    {report : Report} (seen : report.seen = some state)
    (known : states key report.revision = some state) (numbered : report.revision ≠ 0)
    (fresh : state = .pending → shared.ci.last = none → shared.revision ≠ report.revision) :
    Folded states key report.revision (tracker.takeReport key shared report) := by
  unfold Tracker.takeReport
  split
  · rename_i taken
    rcases taken.2 with zero | newer
    · exact absurd zero numbered
    · exact hand.fold checks seen known newer fresh
  · rename_i removed
    refine ⟨hand, checks, ?_⟩
    simp only [seen, Option.isSome_some, true_and, not_or, not_le] at removed
    exact le_of_lt removed.2

/-- A round that ended at `revision` is accounted for. -/
def SharedCi.Covered (shared : SharedCi) (since revision : ℕ) : Prop :=
  shared.rounds.covers since revision = true ∨
    (shared.ci.isOpen = true ∧ shared.openSince ≤ revision)

structure Owned (states : PrKey → ℕ → Option CiState) (key : PrKey) (revision : ℕ)
    (ended : Option ((ℕ × ℕ) × CiState)) (owned : Tracker × SharedCi) : Prop where
  hand : InHand states owned.1 key owned.2
  checks : owned.2.ci.For key.number
  covered : ∀ since start result, ended = some ((since, start), result) →
    owned.2.Covered since revision

/-- After the report is folded in, a round that the card alone saw end is recorded. -/
theorem Folded.own {report : Report} (folded : Folded states key report.revision (tracker, shared))
    (numbered : report.revision ≠ 0) (run : Run) {ended : Option ((ℕ × ℕ) × CiState)}
    (order : ∀ since start result, ended = some ((since, start), result) →
      since ≠ 0 ∧ since ≤ report.revision) :
    Owned states key report.revision ended (tracker.recordOwn key shared report run ended) := by
  cases ended with
  | none => exact ⟨folded.hand, folded.checks, nofun⟩
  | some round =>
    rcases round with ⟨⟨since, start⟩, result⟩
    rcases order since start result rfl with ⟨positive, within⟩
    unfold Tracker.recordOwn
    simp only
    split
    · rename_i free
      rcases free with ⟨_, _, misses, notOpen⟩
      rcases folded.hand.sound.stands.apart_of_not_covers misses with ⟨below, apart⟩
      have above : shared.rounds.floor < report.revision := lt_of_lt_of_le below within
      have later : ∀ opened, shared.view.openSince = some opened → report.revision < opened := by
        intro opened here
        cases is : shared.ci.isOpen with
        | false => simp [SharedCi.view, is] at here
        | true =>
          simp only [SharedCi.view, is, if_true, Option.some.injEq] at here
          by_contra within
          exact notOpen ⟨is, by omega⟩
      have kept := folded.hand.record within above apart folded.revision later
        (some (ciSpan (run.traceId, run.spanId, run.identity) report.spanIds.2
          (start, report.now) key.number (some result) report.checks))
      unfold Tracker.recordRound
      rw [if_neg (not_le.mpr above)]
      refine ⟨kept, folded.checks, ?_⟩
      intro other began state same
      cases same
      exact .inl (shared.rounds.covers_record within)
    · rename_i covered
      refine ⟨folded.hand, folded.checks, ?_⟩
      intro other began state same
      cases same
      simp only [SharedCi.Covered]
      by_contra misses
      rw [not_or, Bool.not_eq_true] at misses
      exact covered ⟨positive, numbered, misses⟩

/-! ## Letting go -/

theorem Accounted.room (accounted : Accounted states tracker) :
    Accounted states (Tracker.makeRoom oldest tracker) := by
  unfold Tracker.makeRoom
  split
  · split
    · exact accounted
    · exact accounted.eraseReleased _
  · exact accounted

theorem makeRoom_ci (tracker : Tracker) : (Tracker.makeRoom oldest tracker).ci = tracker.ci := by
  unfold Tracker.makeRoom
  split
  · split <;> rfl
  · rfl

theorem makeRoom_runs (tracker : Tracker) :
    (Tracker.makeRoom oldest tracker).runs = tracker.runs := by
  unfold Tracker.makeRoom
  split
  · split <;> rfl
  · rfl

theorem makeRoom_released (tracker : Tracker) (other : PrKey) :
    (Tracker.makeRoom oldest tracker).released.get? other = none ∨
      (Tracker.makeRoom oldest tracker).released.get? other = tracker.released.get? other := by
  unfold Tracker.makeRoom
  split
  · split
    · exact .inr rfl
    · rw [get?_erase]
      split
      · exact .inl rfl
      · exact .inr rfl
  · exact .inr rfl

theorem current_makeRoom (tracker : Tracker) (other : PrKey) :
    (Tracker.makeRoom oldest tracker).current other = tracker.current other := by
  unfold Tracker.makeRoom
  split
  · split <;> rfl
  · rfl

theorem InHand.room (hand : InHand states tracker key shared) :
    InHand states (Tracker.makeRoom oldest tracker) key shared := by
  refine ⟨hand.accounted.room oldest, ?_, ?_, ?_⟩
  · rw [makeRoom_ci]
    exact hand.notHeld
  · rcases makeRoom_released oldest tracker key with gone | same
    · exact gone
    · rw [same]
      exact hand.notReleased
  · rw [current_makeRoom]
    exact hand.sound

theorem Sound.release {known : ℕ → Option CiState} {all : List (ℕ × ℕ)}
    (sound : Sound known shared.view all) :
    ReleasedSound known ⟨shared.revision, shared.ci.settled, shared.rounds⟩ all := by
  refine ⟨⟨sound.stands, sound.bounded, nofun, ?_⟩, ?_⟩
  · intro state same
    exact sound.state state (Option.filter_eq_some_iff.mp same).1
  · intro same
    have result := (Option.filter_eq_some_iff.mp same).2
    simp at result

/-- What is released stays accounted for under its key. -/
theorem Accounted.release (accounted : Accounted states tracker) (key : PrKey) (runId : Text)
    (identity : Attributes) (now : ℕ) :
    Accounted states (tracker.releaseCi oldest key runId identity now) := by
  unfold Tracker.releaseCi
  cases here : tracker.ci.get? key with
  | none => exact accounted
  | some held =>
    have taken := accounted.takeHeld here
    have checks := (accounted.held key held here).checks
    simp only
    split
    · refine InHand.putHeld (InHand.reshape taken ?_) ?_
      · rfl
      · exact checks
    · cases opened : held.ci.stretch with
      | none =>
        simp only [PrCi.endOpen, opened]
        have kept := taken.room oldest
        exact kept.putReleased kept.sound.release
      | some stretch =>
        simp only [PrCi.endOpen, opened]
        have ended := taken.endStretch
          { held with
            ci := (held.ci.endOpen none).1
            holders := held.holders.filter fun holder => holder ≠ runId
            opener := held.opener.map fun opener =>
              if opener.runId = runId then { opener with identity := identity } else opener }
          (SharedCi.openSince_of_open opened) rfl le_rfl rfl taken.sound.state stretch none
          held.ci.lastChecks now
        exact (ended.room oldest).putReleased (ended.room oldest).sound.release

end Folded

end AgentDeck.Ci
