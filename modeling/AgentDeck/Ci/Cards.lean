import AgentDeck.Ci.Folded

/-!
# The cards of the runs

A run's card keeps the revision at which it first saw the checks pending, which is one of those it
was shown. Only a report to its own pane changes it.
-/

namespace AgentDeck.Ci

open SortedMap

namespace Tracker

/-! ## The runs -/

section Runs

variable {tracker : Tracker} {key : PrKey} {shared : SharedCi}

theorem releaseCi_runs (oldest : Oldest) (tracker : Tracker) (key : PrKey) (runId : Text)
    (identity : Attributes) (now : ℕ) :
    (tracker.releaseCi oldest key runId identity now).runs = tracker.runs := by
  unfold releaseCi
  cases tracker.ci.get? key with
  | none => rfl
  | some held =>
    simp only
    split
    · rfl
    · simp only [makeRoom_runs]
      split
      · rfl
      · exact recordCi_runs _ _

theorem letGo_runs (oldest : Oldest) (tracker : Tracker) (run : Run) (now : ℕ) :
    (letGo oldest tracker run now).runs = tracker.runs := by
  unfold letGo
  split
  · rfl
  · exact releaseCi_runs _ _ _ _ _ _

theorem takeCi_runs (tracker : Tracker) (key : PrKey) :
    (tracker.takeCi key).1.runs = tracker.runs := by
  unfold takeCi
  split
  · rfl
  · unfold resumeCi
    split <;> rfl

theorem recordAll_runs (effects : List CiEffect) (now : ℕ) :
    ∀ (tracker : Tracker) (shared : SharedCi),
      (effects.foldl (fun state effect => state.1.recordCi key state.2 effect now)
        (tracker, shared)).1.runs = tracker.runs := by
  induction effects with
  | nil =>
    intro tracker shared
    rfl
  | cons effect rest ih =>
    intro tracker shared
    exact (ih _ _).trans (recordCi_runs _ _)

theorem takeReport_runs (report : Report) :
    (tracker.takeReport key shared report).1.runs = tracker.runs := by
  unfold takeReport
  split
  · exact recordAll_runs _ _ _ _
  · rfl

theorem recordOwn_runs (report : Report) (run : Run) (ended : Option ((ℕ × ℕ) × CiState)) :
    (tracker.recordOwn key shared report run ended).1.runs = tracker.runs := by
  unfold recordOwn
  split
  · rfl
  · split
    · exact recordRound_runs _ _ _
    · rfl

end Runs

end Tracker

/-! ## What a report does to a card -/

/-- The run's card, as it shows the pull request `key`. -/
def Run.turned (run : Run) (key : Option PrKey) : Run :=
  if run.ciPr = key then run
  else { run with ciPr := key, ciSeen := none, ciPendingSince := none }

variable (oldest : Tracker.Oldest)

theorem moveCard_run (tracker : Tracker) (report : Report) (run : Run) :
    (tracker.moveCard oldest report run).2 = run.turned report.key := by
  unfold Tracker.moveCard Run.turned
  split <;> rfl

variable {run : Run}

theorem moveCard_runs {tracker : Tracker} {report : Report}
    (here : tracker.runs.get? report.pane = some run) (pane : Text) :
    (tracker.moveCard oldest report run).1.runs.get? pane =
      if pane = report.pane then some (run.turned report.key) else tracker.runs.get? pane := by
  unfold Tracker.moveCard Run.turned
  by_cases same : run.ciPr = report.key
  · rw [if_pos same]
    split
    · rename_i own
      rw [own, here]
    · rfl
  · rw [if_neg same, if_neg same]
    have inserted : ∀ moved, (tracker.runs.insert report.pane moved).get? pane =
        if pane = report.pane then some moved else tracker.runs.get? pane := by
      intro moved
      rw [get?_insert]
      split <;> rfl
    split
    · exact inserted _
    · rw [Tracker.releaseCi_runs]
      exact inserted _

def Run.after (run : Run) (report : Report) : Run :=
  match report.key with
  | none => run.turned report.key
  | some _ => ((run.turned report.key).see report.seen report.revision report.now).1

theorem observeCi_runs (tracker : Tracker) (report : Report) (pane : Text) :
    (tracker.observeCi oldest report).runs.get? pane =
      if pane = report.pane then (tracker.runs.get? pane).map fun run => run.after report
      else tracker.runs.get? pane := by
  unfold Tracker.observeCi
  cases here : tracker.runs.get? report.pane with
  | none =>
    simp only
    split
    · rename_i own
      rw [own, here]
      rfl
    · rfl
  | some run =>
    simp only [moveCard_run]
    cases shows : report.key with
    | none =>
      rw [moveCard_runs oldest here]
      split
      · rename_i own
        rw [own, here]
        simp only [Option.map_some, Run.after, shows]
      · rfl
    | some key =>
      simp only [Tracker.recordOwn_runs, Tracker.takeReport_runs, Tracker.takeCi_runs]
      rw [get?_insert, moveCard_runs oldest here]
      split
      · rename_i own
        rw [own, here]
        simp only [Option.map_some, Run.after, shows]
      · rfl

/-! ## Every card -/

/-- A card that shows pending knows since which revision, one of those it was shown. -/
structure CardSound (shown : List ℕ) (run : Run) : Prop where
  pending : run.ciSeen = some .pending → run.ciPendingSince.isSome
  since : ∀ since start, run.ciPendingSince = some (since, start) → since ∈ shown

variable {shown : List ℕ}

section

variable (card : CardSound shown run)

include card

theorem CardSound.turned (key : Option PrKey) : CardSound shown (run.turned key) := by
  unfold Run.turned
  split
  · exact card
  · exact ⟨nofun, nofun⟩

theorem CardSound.mono {more : List ℕ} (grows : ∀ revision ∈ shown, revision ∈ more) :
    CardSound more run :=
  ⟨card.pending, fun since start same => grows since (card.since since start same)⟩

theorem CardSound.see (seen : Option CiState) (revision now : ℕ) :
    CardSound (shown ++ [revision]) (run.see seen revision now).1 := by
  have kept : CardSound (shown ++ [revision]) run :=
    card.mono fun _ mem => List.mem_append_left _ mem
  unfold Run.see
  cases seen with
  | none => exact kept
  | some state =>
    simp only
    split
    · exact ⟨fun pending => by simp_all, nofun⟩
    · split
      · refine ⟨fun _ => rfl, ?_⟩
        intro since start same
        cases same
        exact List.mem_append_right _ List.mem_cons_self
      · rename_i notBegun
        refine ⟨?_, kept.since⟩
        intro pending
        -- It showed pending already.
        refine kept.pending ?_
        by_contra before
        exact notBegun ⟨Option.some.inj pending, before⟩

theorem CardSound.after (report : Report) :
    CardSound (shown ++ [report.revision]) (run.after report) := by
  unfold Run.after
  split
  · exact (card.turned _).mono fun _ mem => List.mem_append_left _ mem
  · exact (card.turned _).see _ _ _

end

/-! ## Along a run of the tracker -/

/-- The revisions shown to the run on a pane, one after another, from the events that came. -/
def shownStep (pane : Text) (shown : List ℕ) : Tracker.Event → List ℕ
  | .report report => if report.pane = pane then shown ++ [report.revision] else shown
  | .openRun other _ _ _ _ _ _ => if other = pane then [] else shown
  | _ => shown

def shownTo (events : List Tracker.Event) (pane : Text) : List ℕ :=
  events.foldl (shownStep pane) []

theorem shownTo_concat (past : List Tracker.Event) (event : Tracker.Event) (pane : Text) :
    shownTo (past ++ [event]) pane = shownStep pane (shownTo past pane) event := by
  unfold shownTo
  rw [List.foldl_append]
  rfl

theorem run_concat (past : List Tracker.Event) (event : Tracker.Event) :
    Tracker.run oldest (past ++ [event]) = (Tracker.run oldest past).step oldest event := by
  unfold Tracker.run
  rw [List.foldl_append]
  rfl

def Cards (past : List Tracker.Event) (tracker : Tracker) : Prop :=
  ∀ pane run, tracker.runs.get? pane = some run → CardSound (shownTo past pane) run

theorem Cards.step {past : List Tracker.Event} {tracker : Tracker} (cards : Cards past tracker)
    (event : Tracker.Event) : Cards (past ++ [event]) (tracker.step oldest event) := by
  intro pane run here
  rw [shownTo_concat]
  cases event with
  | report report =>
    simp only [Tracker.step, observeCi_runs] at here
    simp only [shownStep]
    split at here
    · rename_i own
      rcases Option.map_eq_some_iff.mp here with ⟨before, was, rfl⟩
      rw [if_pos own.symm]
      exact (cards pane before was).after report
    · rename_i other
      rw [if_neg (Ne.symm other)]
      exact cards pane run here
  | openRun other runId traceId spanId identity setAside now =>
    have kept : ∀ cleared : Tracker, (pane ≠ other → cleared.runs.get? pane =
      tracker.runs.get? pane) →
        (cleared.runs.insert other (.started runId traceId spanId identity)).get? pane = some run →
        CardSound (if other = pane then [] else shownTo past pane) run := by
      intro cleared same found
      rw [get?_insert] at found
      split at found
      · cases found
        exact ⟨nofun, nofun⟩
      · rename_i differ
        rw [if_neg (Ne.symm differ)]
        exact cards pane run (same differ ▸ found)
    refine kept _ ?_ here
    intro differ
    cases tracker.runs.get? other with
    | none => rfl
    | some old =>
      have erased : ∀ kept, ((tracker.runs.erase other).get? pane = kept →
          tracker.runs.get? pane = kept) := by
        intro kept same
        rw [get?_erase, if_neg differ] at same
        exact same
      simp only
      split
      · simp only [Tracker.letGo_runs]
        exact (erased _ rfl).symm
      · rw [Tracker.letGo_runs]
        exact (erased _ rfl).symm
  | endRun other now =>
    refine cards pane run ?_
    unfold Tracker.step at here
    simp only at here
    split at here
    · exact here
    · rw [Tracker.letGo_runs, get?_erase] at here
      split at here
      · cases here
      · exact here
  | endReplaced runId => exact cards pane run here
  | release key runId identity now =>
    refine cards pane run ?_
    simp only [Tracker.step, Tracker.releaseCi_runs] at here
    exact here

theorem cards_run (events : List Tracker.Event) : Cards events (Tracker.run oldest events) := by
  induction events using List.reverseRecOn with
  | nil =>
    intro pane run here
    simp [Tracker.run, Tracker.new] at here
  | append_singleton past event ih =>
    rw [run_concat]
    exact ih.step oldest event

end AgentDeck.Ci
