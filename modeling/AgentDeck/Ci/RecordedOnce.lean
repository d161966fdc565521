import AgentDeck.Ci.Cards
import AgentDeck.Lib.Runs

/-!
# A round is recorded once

Runs take and let go of pull requests in any order, and reports reach their cards late or again. As
long as no report shows pending again at the very revision up to which a pull request was let go of
with its checks pending, no revision is recorded twice for it, every span is of one interval
recorded, and a round a card saw end is accounted for.
-/

namespace AgentDeck.Ci

open SortedMap

/-! ## What is known of a pull request -/

def Tracker.view? (tracker : Tracker) (key : PrKey) : Option View :=
  match tracker.ci.get? key with
  | some shared => some shared.view
  | none => (tracker.released.get? key).map ReleasedCi.view

/-- The report shows the checks pending at the newest revision of a pull request that is left with
no state: the last run to hold it let go while they were pending. -/
def Tracker.reopens (tracker : Tracker) (report : Report) : Bool :=
  match report.key.bind tracker.view? with
  | none => false
  | some view =>
    decide (report.seen = some .pending) && decide (view.last = none) &&
      decide (view.revision = report.revision)

theorem releaseCi_view? (oldest : Tracker.Oldest) (tracker : Tracker) {key other : PrKey}
    (differ : other ≠ key) (runId : Text) (identity : Attributes) (now : ℕ) :
    (tracker.releaseCi oldest key runId identity now).view? other = tracker.view? other ∨
      (tracker.releaseCi oldest key runId identity now).view? other = none := by
  have put : ∀ (after : Tracker) (kept : ReleasedCi), after.ci = tracker.ci.erase key →
      after.released = tracker.released →
      ({ Tracker.makeRoom oldest after with
          released := (Tracker.makeRoom oldest after).released.insert key kept } : Tracker).view?
            other =
          tracker.view? other ∨
        ({ Tracker.makeRoom oldest after with
          released := (Tracker.makeRoom oldest after).released.insert key kept } : Tracker).view?
            other =
          none := by
    intro after kept ci released
    simp only [Tracker.view?, makeRoom_ci, ci, get?_erase, if_neg differ, get?_insert]
    rcases makeRoom_released oldest after other with gone | same
    · rw [gone]
      cases tracker.ci.get? other with
      | none => exact .inr rfl
      | some shared => exact .inl rfl
    · rw [same, released]
      exact .inl rfl
  unfold Tracker.releaseCi
  cases here : tracker.ci.get? key with
  | none => exact .inl rfl
  | some held =>
    simp only
    split
    · left
      simp only [Tracker.view?, get?_insert, get?_erase, if_neg differ]
    · refine put _ _ ?_ ?_
      · split
        · rfl
        · exact recordCi_ci _ _
      · split
        · rfl
        · exact recordCi_released _ _

variable {report : Report}

theorem moveCard_view? (oldest : Tracker.Oldest) (tracker : Tracker) (run : Run) {key : PrKey}
    (shows : report.key = some key) :
    (tracker.moveCard oldest report run).1.view? key = tracker.view? key ∨
      (tracker.moveCard oldest report run).1.view? key = none := by
  unfold Tracker.moveCard
  split
  · exact .inl rfl
  · rename_i moves
    split
    · exact .inl rfl
    · rename_i held holds
      have differ : key ≠ held := by
        intro same
        exact moves (by rw [holds, shows, same])
      exact releaseCi_view? oldest _ differ _ _ _

theorem takeCi_known (tracker : Tracker) (key : PrKey) :
    ((tracker.takeCi key).2.revision = 0 ∨ ∃ view, tracker.view? key = some view ∧
      view.last = (tracker.takeCi key).2.ci.last ∧
      view.revision = (tracker.takeCi key).2.revision) := by
  unfold Tracker.takeCi Tracker.view?
  cases tracker.ci.get? key with
  | some shared => exact .inr ⟨shared.view, rfl, rfl, rfl⟩
  | none =>
    unfold Tracker.resumeCi
    cases tracker.released.get? key with
    | none => exact .inl rfl
    | some kept =>
      refine .inr ⟨kept.view, rfl, ?_, rfl⟩
      simp only [ReleasedCi.view]
      cases kept.settled <;> rfl

/-! ## One step -/

/-- A report as the daemon makes them, on a pane shown `shown` before. -/
structure Fits (states : PrKey → ℕ → Option CiState) (tracker : Tracker) (shown : List ℕ)
    (report : Report) : Prop where
  numbered : report.revision ≠ 0
  known : ∀ key, report.key = some key → ∀ state, report.seen = some state →
    states key report.revision = some state
  ordered : ∀ revision ∈ shown, revision ≠ 0 ∧ revision ≤ report.revision
  kept : tracker.reopens report = false

section Steps

variable {states : PrKey → ℕ → Option CiState} {tracker : Tracker}

theorem Accounted.withRuns (accounted : Accounted states tracker) (runs : SortedMap Text Run) :
    Accounted states { tracker with runs := runs } :=
  accounted.frame rfl rfl rfl rfl rfl

variable (oldest : Tracker.Oldest)

theorem Accounted.move (accounted : Accounted states tracker) (report : Report) (run : Run) :
    Accounted states (tracker.moveCard oldest report run).1 := by
  unfold Tracker.moveCard
  split
  · exact accounted
  · split
    · exact accounted.withRuns _
    · exact (accounted.withRuns _).release oldest _ _ _ _

variable {shown : List ℕ}

theorem CardSound.ended {run : Run} (card : CardSound shown run) (seen : Option CiState)
    {revision now since start : ℕ} {result : CiState}
    (ended : (run.see seen revision now).2 = some ((since, start), result)) : since ∈ shown := by
  unfold Run.see at ended
  cases seen with
  | none => cases ended
  | some state =>
    simp only at ended
    split at ended
    · rcases Option.map_eq_some_iff.mp ended with ⟨began, was, same⟩
      cases same
      exact card.since since start was
    · split at ended <;> cases ended

theorem join_view (shared : SharedCi) (runId : Text) :
    (Tracker.join shared runId).view = shared.view ∧ (Tracker.join shared runId).ci =
      shared.ci := by
  unfold Tracker.join
  split <;> exact ⟨rfl, rfl⟩

variable {report : Report}

theorem InHand.observe {key : PrKey} {shared : SharedCi} (hand : InHand states tracker key shared)
    (checks : shared.ci.For key.number) {run : Run} (card : CardSound shown run)
    (numbered : report.revision ≠ 0)
    (known : ∀ state, report.seen = some state → states key report.revision = some state)
    (ordered : ∀ revision ∈ shown, revision ≠ 0 ∧ revision ≤ report.revision)
    (fresh : report.seen = some .pending → shared.ci.last = none →
      shared.revision ≠ report.revision) :
    Owned states key report.revision (run.see report.seen report.revision report.now).2
      ((tracker.takeReport key shared report).1.recordOwn key
        (tracker.takeReport key shared report).2 report
        (run.see report.seen report.revision report.now).1
        (run.see report.seen report.revision report.now).2) := by
  cases seen : report.seen with
  | none =>
    -- A report with no known state is not folded, and ends no round.
    unfold Tracker.takeReport
    rw [if_neg (by simp [seen])]
    exact ⟨hand, checks, nofun⟩
  | some state =>
    have folded := hand.report checks seen (known state seen) numbered fun pending =>
      fresh (by rw [seen, pending])
    refine Folded.own folded numbered _ ?_
    intro since start result ended
    exact ordered since (card.ended _ ended)

theorem Fits.fresh {key : PrKey} (fits : Fits states tracker shown report) (oldest : Tracker.Oldest)
    (run : Run) (shows : report.key = some key) (runs : SortedMap Text Run)
    (pending : report.seen = some .pending)
    (last : (({ (tracker.moveCard oldest report run).1 with runs := runs } : Tracker).takeCi
      key).2.ci.last = none) :
    (({ (tracker.moveCard oldest report run).1 with runs := runs } : Tracker).takeCi
      key).2.revision ≠ report.revision := by
  intro same
  rcases takeCi_known { (tracker.moveCard oldest report run).1 with runs := runs } key
    with zero | ⟨view, known, sameLast, sameRevision⟩
  · exact fits.numbered (same.symm.trans zero)
  · have before : tracker.view? key = some view := by
      rcases moveCard_view? oldest tracker run shows with kept | gone
      · exact kept.symm.trans known
      · cases gone.symm.trans known
    have reopens := fits.kept
    simp [Tracker.reopens, shows, before, pending, sameLast.trans last,
      sameRevision.trans same] at reopens

variable (accounted : Accounted states tracker)

include accounted

theorem Accounted.observe (fits : Fits states tracker shown report)
    (cards : ∀ run, tracker.runs.get? report.pane = some run → CardSound shown run) :
    Accounted states (tracker.observeCi oldest report) ∧
      ∀ run key since start result, tracker.runs.get? report.pane = some run →
        report.key = some key →
        ((run.turned report.key).see report.seen report.revision report.now).2 =
          some ((since, start), result) →
        ∃ shared, (tracker.observeCi oldest report).ci.get? key = some shared ∧
          shared.Covered since report.revision := by
  unfold Tracker.observeCi
  cases here : tracker.runs.get? report.pane with
  | none => exact ⟨accounted, nofun⟩
  | some run =>
    have moved := accounted.move oldest report run
    simp only [moveCard_run]
    cases shows : report.key with
    | none => exact ⟨moved, nofun⟩
    | some key =>
      have card := (cards run here).turned (some key)
      have seen := moved.withRuns ((tracker.moveCard oldest report run).1.runs.insert report.pane
        ((run.turned (some key)).see report.seen report.revision report.now).1)
      rcases seen.take key with ⟨hand, checks⟩
      have joined := join_view
        (({ (tracker.moveCard oldest report run).1 with
            runs := (tracker.moveCard oldest report run).1.runs.insert report.pane
              ((run.turned (some key)).see report.seen report.revision report.now).1 } :
          Tracker).takeCi key).2 run.runId
      have owned := (hand.reshape joined.1).observe (joined.2 ▸ checks) card fits.numbered
        (fits.known key shows) fits.ordered ?_
      · refine ⟨owned.hand.putHeld owned.checks, ?_⟩
        intro other otherKey since start result same sameKey ended
        cases same
        cases sameKey
        refine ⟨_, ?_, owned.covered since start result ended⟩
        rw [get?_insert, if_pos rfl]
      · intro pending last
        rw [joined.2] at last
        have newest := fits.fresh oldest run shows _ pending last
        rw [show (Tracker.join _ run.runId).revision = _ from congrArg View.revision joined.1]
        exact newest

theorem Accounted.letGo (run : Run) (now : ℕ) :
    Accounted states (Tracker.letGo oldest tracker run now) := by
  unfold Tracker.letGo
  split
  · exact accounted
  · exact accounted.release oldest _ _ _ _

theorem Accounted.other {event : Tracker.Event} (notReport : ∀ report, event ≠ .report report) :
    Accounted states (tracker.step oldest event) := by
  cases event with
  | report report => exact absurd rfl (notReport report)
  | openRun pane runId traceId spanId identity setAside now =>
    refine Accounted.withRuns ?_ _
    cases tracker.runs.get? pane with
    | none => exact accounted
    | some old =>
      have gone := (accounted.withRuns (tracker.runs.erase pane)).letGo oldest old now
      simp only
      split
      · exact gone.frame rfl rfl rfl rfl rfl
      · exact gone
  | endRun pane now =>
    unfold Tracker.step
    simp only
    split
    · exact accounted
    · exact (accounted.withRuns _).letGo oldest _ _
  | endReplaced runId => exact accounted.frame rfl rfl rfl rfl rfl
  | release key runId identity now => exact accounted.release oldest _ _ _ _

end Steps

/-! ## Every run -/

/-- The reports as the daemon numbers them, and as the runs are shown them. -/
structure Reported (events : List Tracker.Event) : Prop where
  numbered : ∀ report, .report report ∈ events → report.revision ≠ 0
  agreed : ∀ left right, .report left ∈ events → .report right ∈ events → left.key = right.key →
    left.revision = right.revision → left.seen = right.seen
  ordered : ∀ past report future, events = past ++ Tracker.Event.report report :: future →
    ∀ revision ∈ shownTo past report.pane, revision ≤ report.revision

/-- No pull request left with its checks pending is reported pending again at the revision it was
left at. -/
def NoneReopened (oldest : Tracker.Oldest) (events : List Tracker.Event) : Prop :=
  ∀ past report future, events = past ++ Tracker.Event.report report :: future →
    (Tracker.run oldest past).reopens report = false

/-- The state a revision shows of a pull request's checks. -/
def shownState (events : List Tracker.Event) (key : PrKey) (revision : ℕ) : Option CiState :=
  (events.filterMap fun event =>
    match event with
    | .report report =>
      if report.key = some key ∧ report.revision = revision then report.seen else none
    | _ => none).head?

variable {events : List Tracker.Event}

theorem Reported.shownState_eq (reported : Reported events) (mem : .report report ∈ events)
    {key : PrKey} (shows : report.key = some key) {state : CiState}
    (seen : report.seen = some state) : shownState events key report.revision = some state := by
  unfold shownState
  cases first : (events.filterMap fun event =>
      match event with
      | .report other =>
        if other.key = some key ∧ other.revision = report.revision then other.seen else none
      | _ => none) with
  | nil =>
    rw [List.filterMap_eq_nil_iff] at first
    have absent := first _ mem
    simp [shows, seen] at absent
  | cons head rest =>
    have kept : head ∈ events.filterMap _ := first ▸ List.mem_cons_self
    rcases List.mem_filterMap.mp kept with ⟨event, eventMem, gives⟩
    cases event with
    | report other =>
      simp only at gives
      split at gives
      · rename_i same
        have agree := reported.agreed other report eventMem mem (same.1.trans shows.symm) same.2
        rw [gives, seen] at agree
        exact agree
      · cases gives
    | openRun _ _ _ _ _ _ _ => cases gives
    | endRun _ _ => cases gives
    | endReplaced _ => cases gives
    | release _ _ _ _ => cases gives

theorem mem_shownTo {past : List Tracker.Event} {pane : Text} {revision : ℕ}
    (shown : revision ∈ shownTo past pane) :
    ∃ report, .report report ∈ past ∧ report.revision = revision := by
  induction past using List.reverseRecOn with
  | nil => cases shown
  | append_singleton past event ih =>
    rw [shownTo_concat] at shown
    have earlier : revision ∈ shownTo past pane →
        ∃ report, .report report ∈ past ++ [event] ∧ report.revision = revision := by
      intro before
      rcases ih before with ⟨report, mem, same⟩
      exact ⟨report, List.mem_append_left _ mem, same⟩
    cases event with
    | report report =>
      simp only [shownStep] at shown
      split at shown
      · rcases List.mem_append.mp shown with before | now
        · exact earlier before
        · exact ⟨report, List.mem_append_right _ List.mem_cons_self,
            (List.mem_singleton.mp now).symm⟩
      · exact earlier shown
    | openRun other _ _ _ _ _ _ =>
      simp only [shownStep] at shown
      split at shown
      · cases shown
      · exact earlier shown
    | endRun _ _ => exact earlier shown
    | endReplaced _ => exact earlier shown
    | release _ _ _ _ => exact earlier shown

theorem Reported.fits {oldest : Tracker.Oldest} {past future : List Tracker.Event}
    (reported : Reported events) (kept : NoneReopened oldest events)
    (split : events = past ++ Tracker.Event.report report :: future) :
    Fits (shownState events) (Tracker.run oldest past) (shownTo past report.pane) report := by
  have mem : .report report ∈ events := by
    rw [split]
    exact List.mem_append_right _ List.mem_cons_self
  refine ⟨reported.numbered report mem, ?_, ?_, kept past report future split⟩
  · intro key shows state seen
    exact reported.shownState_eq mem shows seen
  · intro revision shown
    refine ⟨?_, reported.ordered past report future split revision shown⟩
    rcases mem_shownTo shown with ⟨earlier, earlierMem, rfl⟩
    refine reported.numbered earlier ?_
    rw [split]
    exact List.mem_append_left _ earlierMem

theorem accounted_run {oldest : Tracker.Oldest} (reported : Reported events)
    (kept : NoneReopened oldest events) :
    ∀ past future, events = past ++ future →
      Accounted (shownState events) (Tracker.run oldest past) := by
  intro past
  induction past using List.reverseRecOn with
  | nil =>
    intro future split
    exact accounted_new _
  | append_singleton past event ih =>
    intro future split
    rw [List.append_assoc] at split
    have before := ih (event :: future) split
    rw [run_concat]
    by_cases isReport : ∃ report, event = .report report
    · rcases isReport with ⟨report, rfl⟩
      exact (before.observe oldest (reported.fits kept split)
        (cards_run oldest past report.pane)).1
    · refine before.other oldest ?_
      intro report same
      exact isReport ⟨report, same⟩

/-- The intervals recorded for a pull request while anything is kept of it share no revision, the
spans emitted are those of the intervals, and a round a card has just seen end overlaps a recorded
one, the floor or the open stretch. -/
theorem rounds_recorded_once (oldest : Tracker.Oldest) (events : List Tracker.Event)
    (reported : Reported events) (kept : NoneReopened oldest events) :
    (Tracker.run oldest events).ledger.Pairwise (fun left right =>
      left.SamePeriod right → Apart left.interval right.interval) ∧
    (Tracker.run oldest events).finished =
      (Tracker.run oldest events).ledger.filterMap Recorded.span ∧
    ∀ past report future, events = past ++ Tracker.Event.report report :: future →
      ∀ run key state, (Tracker.run oldest past).runs.get? report.pane = some run →
        run.ciPr = some key → report.key = some key →
        run.ciSeen = some .pending → report.seen = some state → state ≠ .pending →
        ∃ since start shared, run.ciPendingSince = some (since, start) ∧
          (Tracker.run oldest (past ++ [Tracker.Event.report report])).ci.get? key = some shared ∧
          shared.Covered since report.revision := by
  have whole := accounted_run reported kept events [] (List.append_nil events).symm
  refine ⟨whole.apart, whole.emitted, ?_⟩
  intro past report future split run key state here holds shows pending seen result
  have before := accounted_run reported kept past _ split
  have observed := (before.observe oldest (reported.fits kept split)
    (cards_run oldest past report.pane)).2
  have card := cards_run oldest past report.pane run here
  rcases Option.isSome_iff_exists.mp (card.pending pending) with ⟨⟨since, start⟩, began⟩
  have turned : run.turned report.key = run := by
    unfold Run.turned
    rw [if_pos (holds.trans shows.symm)]
  have ended : ((run.turned report.key).see report.seen report.revision report.now).2 =
      some ((since, start), state) := by
    rw [turned, seen]
    unfold Run.see
    simp only
    rw [if_pos ⟨pending, result⟩, began]
    rfl
  rcases observed run key since start state here shows ended with ⟨shared, held, covered⟩
  refine ⟨since, start, shared, began, ?_, covered⟩
  rw [run_concat]
  exact held

/-! ## Two runs of the tracker -/

def reportsOf (events : List Tracker.Event) : List Report :=
  events.filterMap fun event =>
    match event with
    | .report report => some report
    | _ => none

theorem mem_reportsOf (mem : .report report ∈ events) : report ∈ reportsOf events :=
  List.mem_filterMap.mpr ⟨_, mem, rfl⟩

/-- `Reported` and `NoneReopened` of one event, after those before it. -/
def inOrder (past : List Tracker.Event) : Tracker.Event → Bool
  | .report report => (shownTo past report.pane).all fun revision =>
    decide (revision ≤ report.revision)
  | _ => true

def notReopened (oldest : Tracker.Oldest) (past : List Tracker.Event) : Tracker.Event → Bool
  | .report report => !(Tracker.run oldest past).reopens report
  | _ => true

theorem reported_of_checks (numbered : ∀ report ∈ reportsOf events, report.revision ≠ 0)
    (agreed : ∀ left ∈ reportsOf events, ∀ right ∈ reportsOf events, left.key = right.key →
      left.revision = right.revision → left.seen = right.seen)
    (ordered : Runs.checks (fun past event => past ++ [event]) inOrder [] events = true) :
    Reported events := by
  refine ⟨fun report mem => numbered report (mem_reportsOf mem), ?_, ?_⟩
  · intro left right leftMem rightMem
    exact agreed left (mem_reportsOf leftMem) right (mem_reportsOf rightMem)
  · intro past report future split revision shown
    have checked := Runs.checked_after inOrder ordered split
    simp only [inOrder, List.all_eq_true, decide_eq_true_eq] at checked
    exact checked revision shown

def watchedPr : PrKey := ⟨['r'], 9⟩

def shows (pane : Char) (checks : ChecksState) (revision now : ℕ) : Tracker.Event :=
  .report ⟨[pane], some watchedPr, some ⟨checks, 0, 0, 0, 0⟩, revision, now, (now, now + 1)⟩

def opens (pane : Char) (now : ℕ) : Tracker.Event := .openRun [pane] [pane] now now [] false now

/-- One card lags a round behind; all let go, and a later run sees the next round. -/
def laggingCard : List Tracker.Event :=
  [opens 'a' 1, opens 'b' 2, shows 'a' .pending 1 10, shows 'a' .passing 3 20,
    shows 'b' .pending 2 21,
    shows 'b' .passing 4 22, .endRun ['a'] 30, .endRun ['b'] 31, opens 'c' 40,
    shows 'c' .pending 5 50, shows 'c' .failing 6 60]

theorem lagging_card_recorded_once :
    (Tracker.run .first laggingCard).ledger.map Recorded.interval = [(1, 3), (5, 6)] ∧
    ((Tracker.run .first laggingCard).ledger.Pairwise fun left right =>
      left.SamePeriod right → Apart left.interval right.interval) ∧
    (Tracker.run .first laggingCard).finished =
      (Tracker.run .first laggingCard).ledger.filterMap Recorded.span := by
  have recorded := rounds_recorded_once .first laggingCard
    (reported_of_checks (by decide +kernel) (by decide +kernel) (by decide +kernel))
    (by
      intro past report future split
      have checked := Runs.checked_after (notReopened .first) (by decide +kernel) split
      simpa only [notReopened, Bool.not_eq_true'] using checked)
  exact ⟨by decide +kernel, recorded.1, recorded.2.1⟩

/-- The only run watching lets go while the checks are pending; the next one is told of the same
report. -/
def toldAgain : List Tracker.Event :=
  [opens 'a' 1, shows 'a' .pending 5 10, .endRun ['a'] 20, opens 'b' 21, shows 'b' .pending 5 30,
    shows 'b' .passing 6 40]

/-- The stretch left at a revision and the one opened again there share it. -/
theorem told_again_recorded_twice :
    Reported toldAgain ∧
    (Tracker.run .first toldAgain).ledger.map (fun entry => (entry.epoch, entry.interval)) =
      [(1, (5, 5)), (1, (5, 6))] ∧
    ¬ (Tracker.run .first toldAgain).ledger.Pairwise fun left right =>
      left.SamePeriod right → Apart left.interval right.interval := by
  refine ⟨reported_of_checks (by decide +kernel) (by decide +kernel) (by decide +kernel),
    by decide +kernel, by decide +kernel⟩

end AgentDeck.Ci
