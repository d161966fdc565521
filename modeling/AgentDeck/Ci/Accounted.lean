import AgentDeck.Ci.Observed

/-!
# The intervals of every pull request

What holds between two calls: the shared state of a pull request, held or released, stands for the
intervals recorded for it, and every span was emitted with one of them.
-/

namespace AgentDeck.Ci

open SortedMap

/-! ## One pull request -/

/-- What is known of a pull request's checks: the newest revision, the rounds, where the open
stretch began and the last state. -/
structure View where
  revision : ℕ
  rounds : RecordedRounds
  openSince : Option ℕ
  last : Option CiState

def SharedCi.view (shared : SharedCi) : View :=
  ⟨shared.revision, shared.rounds, if shared.ci.isOpen then some shared.openSince else none,
    shared.ci.last⟩

def ReleasedCi.view (released : ReleasedCi) : View :=
  ⟨released.revision, released.rounds, none, released.settled⟩

/-- The view stands for the intervals `all`, none of them past the newest revision and none in the
open stretch; the last state is the newest revision's. -/
structure Sound (states : ℕ → Option CiState) (view : View) (all : List (ℕ × ℕ)) : Prop where
  stands : StandsFor view.rounds all
  bounded : ∀ round ∈ all, round.2 ≤ view.revision
  opened : ∀ since, view.openSince = some since →
    0 < since ∧ since ≤ view.revision ∧ ∀ round ∈ all, round.2 < since
  state : ∀ state, view.last = some state → states view.revision = some state

structure SharedSound (states : ℕ → Option CiState) (number : ℕ) (shared : SharedCi)
    (all : List (ℕ × ℕ)) : Prop where
  sound : Sound states shared.view all
  checks : shared.ci.For number

structure ReleasedSound (states : ℕ → Option CiState) (released : ReleasedCi) (all : List (ℕ × ℕ)) :
    Prop where
  sound : Sound states released.view all
  settled : released.settled ≠ some .pending

theorem sound_fresh (states : ℕ → Option CiState) (number : ℕ) :
    SharedSound states number .fresh [] := by
  refine ⟨⟨standsFor_empty, by simp, ?_, ?_⟩, PrCi.For.fresh number⟩
  · intro since same
    simp [SharedCi.view, SharedCi.fresh, PrCi.isOpen, PrCi.fresh] at same
  · intro state same
    cases same

/-! ## All of them -/

/-- The intervals recorded for a pull request since it was taken up with nothing kept of it. -/
def Tracker.current (tracker : Tracker) (key : PrKey) : List (ℕ × ℕ) :=
  (tracker.ledger.filter fun entry =>
    decide (entry.key = key) && decide (entry.epoch = tracker.epochs key)).map Recorded.interval

/-- The entries are of one pull request, taken up once. -/
def Recorded.SamePeriod (left right : Recorded) : Prop :=
  left.key = right.key ∧ left.epoch = right.epoch

instance (left right : Recorded) : Decidable (left.SamePeriod right) :=
  inferInstanceAs (Decidable (_ ∧ _))

structure Accounted (states : PrKey → ℕ → Option CiState) (tracker : Tracker) : Prop where
  emitted : tracker.finished = tracker.ledger.filterMap Recorded.span
  epochs : ∀ entry ∈ tracker.ledger, entry.epoch ≤ tracker.epochs entry.key
  apart : tracker.ledger.Pairwise fun left right =>
    left.SamePeriod right → Apart left.interval right.interval
  held : ∀ key shared, tracker.ci.get? key = some shared →
    SharedSound (states key) key.number shared (tracker.current key)
  released : ∀ key kept, tracker.released.get? key = some kept →
    ReleasedSound (states key) kept (tracker.current key)
  either : ∀ key, (tracker.ci.get? key).isSome → tracker.released.get? key = none

theorem accounted_new (states : PrKey → ℕ → Option CiState) : Accounted states .new :=
  ⟨rfl, by simp [Tracker.new], List.Pairwise.nil, by simp [Tracker.new], by simp [Tracker.new],
    by simp [Tracker.new]⟩

theorem Accounted.frame {states : PrKey → ℕ → Option CiState} {tracker other : Tracker}
    (accounted : Accounted states tracker) (ci : other.ci = tracker.ci)
    (released : other.released = tracker.released) (finished : other.finished = tracker.finished)
    (ledger : other.ledger = tracker.ledger) (epochs : other.epochs = tracker.epochs) :
    Accounted states other := by
  rcases other
  subst ci released finished ledger epochs
  exact ⟨accounted.emitted, accounted.epochs, accounted.apart, accounted.held, accounted.released,
    accounted.either⟩

/-- The tracker with the shared state of `key` taken out. -/
structure InHand (states : PrKey → ℕ → Option CiState) (tracker : Tracker) (key : PrKey)
    (shared : SharedCi) : Prop where
  accounted : Accounted states tracker
  notHeld : tracker.ci.get? key = none
  notReleased : tracker.released.get? key = none
  sound : Sound (states key) shared.view (tracker.current key)

section Steps

variable {states : PrKey → ℕ → Option CiState} {tracker : Tracker} {key : PrKey} {shared : SharedCi}

section

variable (accounted : Accounted states tracker)

include accounted

theorem Accounted.eraseCi (key : PrKey) :
    Accounted states { tracker with ci := tracker.ci.erase key } := by
  refine ⟨accounted.emitted, accounted.epochs, accounted.apart, ?_, accounted.released, ?_⟩
  · intro other shared here
    rw [get?_erase] at here
    split at here
    · cases here
    · exact accounted.held other shared here
  · intro other here
    rw [get?_erase] at here
    split at here
    · cases here
    · exact accounted.either other here

theorem Accounted.eraseReleased (key : PrKey) :
    Accounted states { tracker with released := tracker.released.erase key } := by
  refine ⟨accounted.emitted, accounted.epochs, accounted.apart, accounted.held, ?_, ?_⟩
  · intro other kept here
    rw [get?_erase] at here
    split at here
    · cases here
    · exact accounted.released other kept here
  · intro other here
    rw [get?_erase]
    split
    · rfl
    · exact accounted.either other here

theorem Accounted.takeHeld (here : tracker.ci.get? key = some shared) :
    InHand states { tracker with ci := tracker.ci.erase key } key shared := by
  refine ⟨accounted.eraseCi key, ?_, ?_, (accounted.held key shared here).sound⟩
  · rw [get?_erase, if_pos rfl]
  · exact accounted.either key (by rw [here]; rfl)

omit accounted in
theorem current_bump (fresh : ∀ entry ∈ tracker.ledger, entry.epoch ≤ tracker.epochs entry.key)
    (other : PrKey) :
    ({ tracker with
        epochs := fun other =>
          if other = key then tracker.epochs key + 1 else tracker.epochs other } :
      Tracker).current other = if other = key then [] else tracker.current other := by
  unfold Tracker.current
  by_cases same : other = key
  · subst same
    simp only [if_true]
    rw [List.map_eq_nil_iff, List.filter_eq_nil_iff]
    intro entry mem
    simp only [Bool.and_eq_true, decide_eq_true_eq, not_and]
    intro sameKey sameEpoch
    have bound := fresh entry mem
    rw [sameKey] at bound
    omega
  · simp only [if_neg same]

theorem Accounted.bump (notHeld : tracker.ci.get? key = none)
    (notReleased : tracker.released.get? key = none) :
    Accounted states { tracker with
      epochs := fun other =>
        if other = key then tracker.epochs key + 1 else tracker.epochs other } := by
  refine ⟨accounted.emitted, ?_, accounted.apart, ?_, ?_, accounted.either⟩
  · intro entry mem
    have bound := accounted.epochs entry mem
    simp only
    split
    · rename_i same
      rw [same] at bound
      omega
    · exact bound
  · intro other shared here
    have differ : other ≠ key := by
      intro same
      rw [same, notHeld] at here
      cases here
    rw [current_bump accounted.epochs, if_neg differ]
    exact accounted.held other shared here
  · intro other kept here
    have differ : other ≠ key := by
      intro same
      rw [same, notReleased] at here
      cases here
    rw [current_bump accounted.epochs, if_neg differ]
    exact accounted.released other kept here

omit accounted in
theorem resumed_sound {released : ReleasedCi} {all : List (ℕ × ℕ)} {number : ℕ}
    {known : ℕ → Option CiState} (sound : ReleasedSound known released all) :
    SharedSound known number
      { SharedCi.fresh with
        ci := (released.settled.map (PrCi.resumed number)).getD .fresh
        revision := released.revision
        rounds := released.rounds } all := by
  have closed : ((released.settled.map (PrCi.resumed number)).getD .fresh).stretch = none := by
    cases released.settled <;> rfl
  have last : ((released.settled.map (PrCi.resumed number)).getD .fresh).last =
      released.settled := by
    cases released.settled <;> rfl
  refine ⟨⟨sound.sound.stands, sound.sound.bounded, ?_, ?_⟩, ?_⟩
  · intro since same
    simp [SharedCi.view, PrCi.isOpen, closed] at same
  · intro state same
    simp only [SharedCi.view, last] at same
    exact sound.sound.state state same
  · have settled := sound.settled
    cases here : released.settled with
    | none => exact PrCi.For.fresh number
    | some state =>
      rw [here] at settled
      exact PrCi.For.resumed fun same => settled (congrArg some same)

theorem Accounted.take (key : PrKey) :
    InHand states (tracker.takeCi key).1 key (tracker.takeCi key).2 ∧
      (tracker.takeCi key).2.ci.For key.number := by
  unfold Tracker.takeCi
  cases here : tracker.ci.get? key with
  | some shared => exact ⟨accounted.takeHeld here, (accounted.held key shared here).checks⟩
  | none =>
    unfold Tracker.resumeCi
    cases kept : tracker.released.get? key with
    | none =>
      refine ⟨⟨accounted.bump here kept, here, kept, ?_⟩, PrCi.For.fresh key.number⟩
      rw [current_bump accounted.epochs, if_pos rfl]
      exact (sound_fresh (states key) key.number).sound
    | some released =>
      have resumed : SharedSound (states key) key.number _ _ :=
        resumed_sound (accounted.released key released kept)
      refine ⟨⟨accounted.eraseReleased key, here, ?_, resumed.sound⟩, resumed.checks⟩
      rw [get?_erase, if_pos rfl]

end

section

variable (hand : InHand states tracker key shared)

include hand

theorem InHand.reshape {other : SharedCi} (view : other.view = shared.view) :
    InHand states tracker key other :=
  ⟨hand.accounted, hand.notHeld, hand.notReleased, by rw [view]; exact hand.sound⟩

theorem InHand.frame {other : Tracker} (ci : other.ci = tracker.ci)
    (released : other.released = tracker.released) (finished : other.finished = tracker.finished)
    (ledger : other.ledger = tracker.ledger) (epochs : other.epochs = tracker.epochs) :
    InHand states other key shared := by
  refine ⟨hand.accounted.frame ci released finished ledger epochs, ci ▸ hand.notHeld,
    released ▸ hand.notReleased, ?_⟩
  have same : other.current key = tracker.current key := by
    unfold Tracker.current
    rw [ledger, epochs]
  rw [same]
  exact hand.sound

theorem InHand.putHeld (checks : shared.ci.For key.number) :
    Accounted states { tracker with ci := tracker.ci.insert key shared } := by
  refine ⟨hand.accounted.emitted, hand.accounted.epochs, hand.accounted.apart, ?_,
    hand.accounted.released, ?_⟩
  · intro other state here
    rw [get?_insert] at here
    split at here
    · rename_i same
      cases here
      rw [same]
      exact ⟨hand.sound, checks⟩
    · exact hand.accounted.held other state here
  · intro other here
    rw [get?_insert] at here
    split at here
    · rename_i same
      rw [same]
      exact hand.notReleased
    · exact hand.accounted.either other here

theorem InHand.putReleased {kept : ReleasedCi}
    (sound : ReleasedSound (states key) kept (tracker.current key)) :
    Accounted states { tracker with released := tracker.released.insert key kept } := by
  refine ⟨hand.accounted.emitted, hand.accounted.epochs, hand.accounted.apart, hand.accounted.held,
    ?_, ?_⟩
  · intro other state here
    rw [get?_insert] at here
    split at here
    · rename_i same
      cases here
      rw [same]
      exact sound
    · exact hand.accounted.released other state here
  · intro other here
    rw [get?_insert]
    split
    · rename_i same
      rw [same, hand.notHeld] at here
      cases here
    · exact hand.accounted.either other here

end

/-! ## Recording an interval -/

/-- The tracker with an interval recorded and its span emitted. -/
def withRound (tracker : Tracker) (key : PrKey) (interval : ℕ × ℕ) (span : Option CiSpan) :
    Tracker :=
  { tracker with
    ledger := tracker.ledger ++ [⟨key, tracker.epochs key, interval, span⟩]
    finished := tracker.finished ++ span.toList }

theorem current_withRound (interval : ℕ × ℕ) (span : Option CiSpan) (other : PrKey) :
    (withRound tracker key interval span).current other =
      if other = key then tracker.current key ++ [interval] else tracker.current other := by
  unfold Tracker.current withRound
  rw [List.filter_append]
  by_cases same : other = key
  · subst same
    simp
  · rw [if_neg same, List.filter_cons_of_neg (by simp [Ne.symm same])]
    simp

theorem mem_current {entry : Recorded} (mem : entry ∈ tracker.ledger)
    (epoch : entry.epoch = tracker.epochs entry.key) :
    entry.interval ∈ tracker.current entry.key := by
  refine List.mem_map_of_mem (List.mem_filter.mpr ⟨mem, ?_⟩)
  rw [Bool.and_eq_true, decide_eq_true_eq, decide_eq_true_eq]
  exact ⟨rfl, epoch⟩

theorem Accounted.emit (accounted : Accounted states tracker) (notHeld : tracker.ci.get? key = none)
    (notReleased : tracker.released.get? key = none) {interval : ℕ × ℕ}
    (apart : ∀ round ∈ tracker.current key, Apart round interval) (span : Option CiSpan) :
    Accounted states (withRound tracker key interval span) := by
  refine ⟨?_, ?_, ?_, ?_, ?_, accounted.either⟩
  · simp only [withRound, List.filterMap_append, accounted.emitted]
    cases span <;> rfl
  · intro entry mem
    rcases List.mem_append.mp mem with old | new
    · exact accounted.epochs entry old
    · rw [List.mem_singleton.mp new]
      exact le_rfl
  · simp only [withRound]
    rw [List.pairwise_append]
    refine ⟨accounted.apart, List.pairwise_singleton _ _, ?_⟩
    intro entry mem new newMem same
    rw [List.mem_singleton.mp newMem] at same ⊢
    rcases same with ⟨sameKey, sameEpoch⟩
    simp only at sameKey sameEpoch ⊢
    refine apart entry.interval ?_
    rw [← sameKey]
    exact mem_current mem (by rw [sameEpoch, sameKey])
  · intro other state here
    have differ : other ≠ key := by
      intro same
      rw [same] at here
      cases here.symm.trans notHeld
    rw [current_withRound, if_neg differ]
    exact accounted.held other state here
  · intro other kept here
    have differ : other ≠ key := by
      intro same
      rw [same] at here
      cases here.symm.trans notReleased
    rw [current_withRound, if_neg differ]
    exact accounted.released other kept here

theorem InHand.record (hand : InHand states tracker key shared) {start finish : ℕ}
    (order : start ≤ finish) (above : shared.rounds.floor < finish)
    (apart : ∀ round ∈ tracker.current key, Apart round (start, finish))
    (bounded : finish ≤ shared.revision)
    (notOpen : ∀ since, shared.view.openSince = some since → finish < since)
    (span : Option CiSpan) :
    InHand states (withRound tracker key (start, finish) span) key
      { shared with rounds := shared.rounds.record start finish } := by
  refine ⟨hand.accounted.emit hand.notHeld hand.notReleased apart span, hand.notHeld,
    hand.notReleased, ?_⟩
  rw [current_withRound, if_pos rfl]
  have sound := hand.sound
  refine ⟨sound.stands.record order apart above, ?_, ?_, sound.state⟩
  · intro round mem
    rcases List.mem_append.mp mem with old | new
    · exact sound.bounded round old
    · rw [List.mem_singleton.mp new]
      exact bounded
  · intro since same
    rcases sound.opened since same with ⟨positive, within, before⟩
    refine ⟨positive, within, ?_⟩
    intro round mem
    rcases List.mem_append.mp mem with old | new
    · exact before round old
    · rw [List.mem_singleton.mp new]
      exact notOpen since same

end Steps

end AgentDeck.Ci
