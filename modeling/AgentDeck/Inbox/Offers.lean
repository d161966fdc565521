import AgentDeck.Inbox.LifeCycle

/-!
# Offers

An offer changes hands only through `assign_offer` and `return_offer`, and every return has a
holder to exclude. So an offer goes to each holder at most once and to at most `max_deliver`
holders, and the clock that `next_deadline` sets is the one `tick` acts on.
-/

namespace AgentDeck.Inbox

variable {inbox later : Inbox}

/-! ## Each holder once -/

/-- What every offer of an inbox with these limits satisfies. -/
structure Message.Fair (limits : InboxLimits) (msg : Message) : Prop where
  apart : (msg.excluded ++ msg.recipient.toList).Pairwise fun left right =>
    left.sameHolder right = false
  counted : msg.deliveries = msg.excluded.length + msg.recipient.toList.length
  bounded : msg.deliveries ≤ limits.maxDeliver
  waits : msg.state = .queued → msg.recipient = none → msg.deliveries < limits.maxDeliver
  spent : msg.excluded.length = limits.maxDeliver →
    ∃ since, msg.state = .undeliverable since .maxDeliver

variable {limits : InboxLimits} {msg : Message}

section

variable (fair : msg.Fair limits)

include fair

theorem Message.Fair.again (live : msg.state.isTerminal = false) :
    msg.excluded.length < limits.maxDeliver := by
  have counted := fair.counted
  have bounded := fair.bounded
  have unspent : msg.excluded.length ≠ limits.maxDeliver := by
    intro all
    rcases fair.spent all with ⟨since, state⟩
    rw [state] at live
    cases live
  omega

theorem Message.Fair.moved (live : msg.state.isTerminal = false) (now : Instant)
    {state : MessageState} (left : state ≠ .queued) :
    (msg.moved now state).Fair limits where
  apart := fair.apart
  counted := fair.counted
  bounded := fair.bounded
  waits queued := absurd queued left
  spent all := absurd all (Nat.ne_of_lt (fair.again live))

theorem Message.Fair.assigned (queued : msg.state = .queued) (free : msg.recipient = none)
    {holder : Recipient} (fresh : ∀ previous ∈ msg.excluded, previous.sameHolder holder = false)
    (now deadline : Instant) : ((msg.assigned holder deadline).moved now .queued).Fair limits := by
  have below := fair.waits queued free
  have counted := fair.counted
  have apart := fair.apart
  simp only [free, Option.toList_none, List.append_nil] at counted apart
  constructor
  · refine List.pairwise_append.mpr ⟨apart, List.pairwise_singleton _ _, ?_⟩
    intro previous mem other same
    rw [List.mem_singleton.mp same]
    exact fresh previous mem
  · simp [Message.moved, Message.assigned, counted]
  · exact below
  · intro _ absent
    cases absent
  · intro all
    simp only [Message.moved, Message.assigned] at all
    omega

theorem Message.Fair.returned {previous : Recipient} (held : msg.recipient = some previous)
    (now : Instant) : (msg.returned limits now).Fair limits := by
  have apart := fair.apart
  have counted := fair.counted
  have bounded := fair.bounded
  simp only [held, Option.toList_some, List.length_singleton] at apart counted
  simp only [Message.returned]
  split
  · constructor
    · simpa [Message.moved, Message.parted, held] using apart
    · simpa [Message.moved, Message.parted, held] using counted
    · exact bounded
    · intro queued
      cases queued
    · intro _
      exact ⟨now, rfl⟩
  · rename_i below
    constructor
    · simpa [Message.moved, Message.parted, held] using apart
    · simpa [Message.moved, Message.parted, held] using counted
    · exact bounded
    · intro _ _
      exact Nat.lt_of_not_le below
    · intro all
      simp only [Message.moved, Message.parted, held, Option.toList_some, List.length_append,
        List.length_singleton] at all
      omega

end

variable {now : Instant}

theorem Turn.fair {after : Message} {back : Option OfferReturn}
    (fair : msg.isOffer = true → msg.Fair limits) (turn : Turn limits now msg after back) :
    after.isOffer = true → after.Fair limits := by
  cases turn with
  | assign holder deadline offer free queued fresh =>
    intro _
    exact (fair offer).assigned queued free fresh now deadline
  | take consumer queued =>
    intro isOffer
    rcases offer : msg.isOffer with _ | _
    · simp only [offer] at isOffer
      cases offer.symm.trans isOffer
    · exact (fair offer).moved (by simp [queued, MessageState.isTerminal]) now (by simp)
  | claim holder expires offer waits held =>
    intro _
    exact (fair offer).moved waits.live now (by simp)
  | acknowledge how plain waits =>
    intro offer
    cases plain.symm.trans offer
  | complete offer claimed =>
    intro _
    exact (fair offer).moved (MessageState.live_of_claimed claimed) now (by simp)
  | requeue plain fetched =>
    intro offer
    cases plain.symm.trans offer
  | retire reason live =>
    intro offer
    exact (fair offer).moved live now (by simp)
  | giveBack previous cause offer live held =>
    intro _
    exact (fair offer).returned held now

theorem stable_fair (positive : 1 ≤ limits.maxDeliver) :
    Stable limits fun msg => msg.isOffer = true → msg.Fair limits where
  turn _ _ _ _ fair turn := turn.fair fair
  new now id kind address recipient content placed := by
    intro offer
    change (newMessage now id kind address recipient content).isOffer = true at offer
    rw [placed, Option.isNone_iff_eq_none] at offer
    subst offer
    constructor
    · exact List.Pairwise.nil
    · rfl
    · exact Nat.zero_le _
    · intro _ _
      exact positive
    · intro all
      simp only [Message.moved, newMessage, List.length_nil] at all
      omega
  count msg _ plain := by
    intro offer
    cases plain.symm.trans offer
  body msg fair := by
    intro offer
    rcases fair offer with ⟨apart, counted, bounded, waits, spent⟩
    exact ⟨apart, counted, bounded, waits, spent⟩

theorem run_fair (deck : String) (positive : 1 ≤ limits.maxDeliver) (ops : List Op) :
    ∀ msg ∈ ((new deck limits).run ops).messages,
      msg.isOffer = true → msg.Fair limits := by
  refine (run_reaches (new_sound deck limits) ops).forall (stable_fair positive) ?_
  intro msg mem
  cases mem

/-! ## Every return has a holder -/

/-- No turn is left to an offer that ended. -/
theorem Turn.live {after : Message} {back : Option OfferReturn}
    (turn : Turn limits now msg after back) (offer : msg.isOffer) :
    msg.state.isTerminal = false := by
  cases turn with
  | assign holder deadline offer free queued fresh => simp [queued, MessageState.isTerminal]
  | take consumer queued => simp [queued, MessageState.isTerminal]
  | claim holder expires offer waits held => exact waits.live
  | acknowledge how plain waits => exact absurd (plain.symm.trans offer) Bool.false_ne_true
  | complete offer claimed => exact MessageState.live_of_claimed claimed
  | requeue plain fetched => exact absurd (plain.symm.trans offer) Bool.false_ne_true
  | retire reason live => exact live
  | giveBack previous cause offer live held => exact live

theorem Message.Fair.no_turn (fair : msg.Fair limits) (offer : msg.isOffer)
    (all : msg.excluded.length = limits.maxDeliver) (after : Message)
    (back : Option OfferReturn) : ¬ Turn limits now msg after back := by
  intro turn
  rcases fair.spent all with ⟨since, state⟩
  have live := turn.live offer
  rw [state] at live
  cases live

/-! ## Deadlines -/

/-- A claim or an assignment of the message has run out by `now`. -/
def Message.Due (msg : Message) (now : Instant) : Prop := ∃ due, msg.deadline = some due ∧ due ≤ now

theorem nextDeadline_le_iff (now : Instant) :
    (∃ deadline, inbox.nextDeadline = some deadline ∧ deadline ≤ now) ↔
      ∃ msg ∈ inbox.messages, msg.Due now := by
  constructor
  · rintro ⟨deadline, least, le⟩
    rcases List.mem_filterMap.mp (List.min?_mem least) with ⟨msg, mem, found⟩
    exact ⟨msg, mem, deadline, found, le⟩
  · rintro ⟨msg, mem, due, found, le⟩
    have member : due ∈ inbox.messages.filterMap Message.deadline :=
      List.mem_filterMap.mpr ⟨msg, mem, found⟩
    rcases Option.isSome_iff_exists.mp (List.isSome_min?_of_mem member) with ⟨deadline, least⟩
    exact ⟨deadline, least, ((List.min?_eq_some_iff.mp least).2 due member).trans le⟩

theorem Message.returned_not_due (msg : Message) (limits : InboxLimits) (now : Instant) :
    ¬ (msg.returned limits now).Due now := by
  rintro ⟨due, found, _⟩
  simp only [Message.returned] at found
  split at found
  · simp [Message.deadline, Message.moved] at found
  · simp [Message.deadline, Message.moved, Message.parted] at found

theorem tickAt_of_due {index : ℕ} (sound : msg.Sound) (found : inbox.messages[index]? = some msg)
    (due : msg.Due now) :
    ∃ previous cause, msg.recipient = some previous ∧
      tickAt now index inbox = inbox.returnOffer index now cause := by
  rcases due with ⟨time, deadline, le⟩
  cases state : msg.state with
  | claimed claimant since expires =>
    simp only [Message.deadline, state, Option.some.injEq] at deadline
    refine ⟨claimant, .claimExpired, (sound.claim claimant since expires state).2, ?_⟩
    simp [tickAt, found, state, deadline, le]
  | queued =>
    simp only [Message.deadline, state] at deadline
    rcases Option.isSome_iff_exists.mp (sound.deadline (by simp [deadline])).2.2 with
      ⟨holder, held⟩
    refine ⟨holder, .notFetched, held, ?_⟩
    simp [tickAt, found, state, deadline, le]
  | fetched consumer since | acknowledged since how | undeliverable since reason =>
    simp [Message.deadline, state] at deadline

theorem tickAt_of_not_due {index : ℕ} (found : inbox.messages[index]? = some msg)
    (early : ¬ msg.Due now) : tickAt now index inbox = inbox := by
  simp only [Message.Due, Message.deadline] at early
  simp only [tickAt, found]
  cases state : msg.state with
  | claimed claimant since expires =>
    simp only [state, Option.some.injEq, exists_eq_left'] at early
    simp [early]
  | queued =>
    simp only [state, not_exists, not_and] at early
    have waits : (msg.assignDeadline.any fun due => decide (due ≤ now)) = false := by
      rcases assigned : msg.assignDeadline with _ | time
      · rfl
      · simpa using early time assigned
    simp [waits]
  | fetched consumer since => rfl
  | acknowledged since how => rfl
  | undeliverable since reason => rfl

theorem tickAt_cases (sound : inbox.Sound) (now : Instant) (index : ℕ) :
    (tickAt now index inbox = inbox ∧
        ∀ msg, inbox.messages[index]? = some msg → ¬ msg.Due now) ∨
      ∃ msg event, inbox.messages[index]? = some msg ∧ msg.Due now ∧
        Replaced inbox index (msg.returned inbox.limits now) event (tickAt now index inbox) := by
  rcases found : inbox.messages[index]? with _ | msg
  · simp [tickAt, found]
  · by_cases due : msg.Due now
    · right
      rcases tickAt_of_due (sound msg (List.mem_of_getElem? found)) found due with
        ⟨previous, cause, held, body⟩
      rw [body]
      exact ⟨msg, _, rfl, due, returnOffer_replaced found held now cause⟩
    · left
      refine ⟨tickAt_of_not_due found due, ?_⟩
      intro other same
      cases same
      exact due

/-- What the loop of `tick` leaves due, and when it emits an event. -/
structure Swept (inbox later : Inbox) (now : Instant) (count : ℕ) : Prop where
  left : ∀ (index : ℕ) (msg : Message), later.messages[index]? = some msg → msg.Due now →
    count ≤ index ∧ inbox.messages[index]? = some msg
  emits : ∃ events, later.events = inbox.events ++ events ∧ (events = [] ↔
    ∀ (index : ℕ) (msg : Message), index < count → inbox.messages[index]? = some msg →
      ¬ msg.Due now)

theorem sweep_tickAt (sound : inbox.Sound) (now : Instant) (count : ℕ) :
    Swept inbox (sweep (tickAt now) count inbox) now count := by
  induction count generalizing inbox with
  | zero =>
    refine ⟨fun index msg found _ => ⟨Nat.zero_le _, found⟩, [], by simp [sweep], ?_⟩
    simp
  | succ last ih =>
    have step := ih ((tickAt_effects sound now last).calls.sound sound)
    rcases step with ⟨left, events, emits, quiet⟩
    simp only [sweep]
    rcases tickAt_cases sound now last with ⟨same, early⟩ | ⟨msg, event, found, due, replaced⟩
    · rw [same] at left emits quiet ⊢
      refine ⟨?_, events, emits, ?_⟩
      · intro index msg found due
        rcases left index msg found due with ⟨le, before⟩
        refine ⟨?_, before⟩
        rcases Nat.lt_or_eq_of_le le with lt | rfl
        · exact lt
        · exact absurd due (early msg before)
      · rw [quiet]
        constructor
        · intro absent index msg below found
          rcases Nat.lt_or_eq_of_le (Nat.le_of_lt_succ below) with lt | rfl
          · exact absent index msg lt found
          · exact early msg found
        · intro absent index msg below found
          exact absent index msg (Nat.lt_succ_of_lt below) found
    · refine ⟨?_, event :: events, by rw [emits, replaced.events]; simp, ?_⟩
      · intro index other holds later
        rcases left index other holds later with ⟨le, before⟩
        rw [replaced.messages, List.getElem?_set] at before
        split at before
        · split at before
          · cases before
            exact absurd later (Message.returned_not_due _ _ _)
          · cases before
        · exact ⟨by omega, before⟩
      · constructor
        · intro absent
          cases absent
        · intro absent
          exact absurd due (absent last msg (Nat.lt_succ_self last) found)

theorem tick_messages (now : Instant) : (inbox.tick now).messages =
    ((sweep (tickAt now) inbox.messages.length inbox).trimHistory now).messages := rfl

theorem tick_events_eq (now : Instant) : (inbox.tick now).events =
    (sweep (tickAt now) inbox.messages.length inbox).events := rfl

theorem tick_not_due (sound : inbox.Sound) (now : Instant) :
    ∀ msg ∈ (inbox.tick now).messages, ¬ msg.Due now := by
  have swept : ∀ msg ∈ (sweep (tickAt now) inbox.messages.length inbox).messages,
      ¬ msg.Due now := by
    intro msg mem due
    rcases List.mem_iff_getElem?.mp mem with ⟨index, found⟩
    rcases (sweep_tickAt sound now _).left index msg found due with ⟨le, before⟩
    rw [List.getElem?_eq_none le] at before
    cases before
  rw [tick_messages]
  exact (trimHistory_kept now).forall (fun _ early => early) swept

theorem tick_events (sound : inbox.Sound) (now : Instant) :
    ∃ events, (inbox.tick now).events = inbox.events ++ events ∧
      (events = [] ↔ ¬ ∃ msg ∈ inbox.messages, msg.Due now) := by
  rcases (sweep_tickAt sound now inbox.messages.length).emits with ⟨events, emits, quiet⟩
  rw [tick_events_eq]
  refine ⟨events, emits, ?_⟩
  rw [quiet]
  constructor
  · rintro absent ⟨msg, mem, due⟩
    rcases List.mem_iff_getElem.mp mem with ⟨index, bound, rfl⟩
    exact absent index _ bound (List.getElem?_eq_getElem bound) due
  · intro absent index msg _ found due
    exact absent ⟨msg, List.mem_of_getElem? found, due⟩

theorem sweep_tickAt_of_not_due (now : Instant) (early : ∀ msg ∈ inbox.messages, ¬ msg.Due now)
    (count : ℕ) : sweep (tickAt now) count inbox = inbox := by
  induction count with
  | zero => rfl
  | succ last ih =>
    have same : tickAt now last inbox = inbox := by
      rcases found : inbox.messages[last]? with _ | msg
      · simp [tickAt, found]
      · exact tickAt_of_not_due found (early msg (List.mem_of_getElem? found))
    rw [sweep, same, ih]

theorem tick_lasting (now : Instant) (early : ∀ msg ∈ inbox.messages, ¬ msg.Due now) :
    Lasting inbox.messages (inbox.tick now).messages := by
  rw [tick_messages, sweep_tickAt_of_not_due now early]
  exact (trimHistory_kept now).lasting

/-- In every run an offer goes to each holder at most once and to at most `max_deliver`, after which
no turn is left to it; every `return_offer` is a `Call`, which finds a holder; and `tick` acts
exactly when `next_deadline` has passed. -/
theorem offers_once_each (deck : String) (limits : InboxLimits) (positive : 1 ≤ limits.maxDeliver)
    (ops : List Op) :
    let inbox := (new deck limits).run ops
    (∀ msg ∈ inbox.messages, msg.isOffer = true →
      (msg.excluded ++ msg.recipient.toList).Pairwise
          (fun left right => left.sameHolder right = false) ∧
        msg.deliveries = msg.excluded.length + msg.recipient.toList.length ∧
        msg.deliveries ≤ limits.maxDeliver ∧
        (∀ claimant since expires, msg.state = .claimed claimant since expires →
          msg.recipient = .some claimant) ∧
        (msg.excluded.length = limits.maxDeliver →
          (∃ since, msg.state = .undeliverable since .maxDeliver) ∧
            ∀ now after back, ¬ Turn inbox.limits now msg after back)) ∧
      (∀ op : Op, op ≠ .drainEvents → Calls inbox (inbox.apply op)) ∧
      ∀ now,
        (∃ events, (inbox.tick now).events = inbox.events ++ events ∧
          (events ≠ [] ↔ ∃ deadline, inbox.nextDeadline = .some deadline ∧ deadline ≤ now) ∧
          (events = [] → Lasting inbox.messages (inbox.tick now).messages)) ∧
        ∀ msg ∈ (inbox.tick now).messages,
          (∀ claimant since expires, msg.state = .claimed claimant since expires →
            now < expires) ∧
          ∀ due, msg.assignDeadline = .some due → now < due := by
  intro inbox
  have sound := run_sound deck limits ops
  have fair := run_fair deck positive ops
  have bound : inbox.limits = limits := (run_reaches (new_sound deck limits) ops).limits_eq
  refine ⟨?_, ?_, ?_⟩
  · intro msg mem offer
    have facts := fair msg mem offer
    refine ⟨facts.apart, facts.counted, facts.bounded, ?_, ?_⟩
    · intro claimant since expires claimed
      exact ((sound msg mem).claim claimant since expires claimed).2
    · intro all
      rw [bound]
      exact ⟨facts.spent all, fun _ => facts.no_turn offer all⟩
  · intro op stays
    exact apply_calls sound stays
  · intro now
    refine ⟨?_, ?_⟩
    · rcases tick_events sound now with ⟨events, emits, quiet⟩
      refine ⟨events, emits, ?_, ?_⟩
      · rw [nextDeadline_le_iff, ne_eq, quiet, not_not]
      · intro absent
        refine tick_lasting now ?_
        intro msg mem due
        exact quiet.mp absent ⟨msg, mem, due⟩
    · intro msg mem
      have early := tick_not_due sound now msg mem
      have later : msg.Sound := (tick_act sound now).calls.sound sound msg mem
      refine ⟨?_, ?_⟩
      · intro claimant since expires claimed
        by_contra passed
        exact early ⟨expires, by simp [Message.deadline, claimed], Nat.le_of_not_lt passed⟩
      · intro due assigned
        by_contra passed
        have queued := (later.deadline (by simp [assigned])).1
        exact early ⟨due, by simp [Message.deadline, queued, assigned], Nat.le_of_not_lt passed⟩

/-- A job offered to a worker that never fetches it, past its assignment deadline. -/
def unfetchedRun : List Op :=
  [.offer 0 (.orchestration "token") "workers" none
      ⟨.deck "job".toList, "subject".toList, "body".toList, .trusted, none, none, none, none⟩
      [.bound "pane" "agent"] "m-1",
    .tick (fromSecs 300)]

theorem offers_once_each_unfetchedRun : 1 ≤ InboxLimits.default.maxDeliver ∧
    (((new "deck" .default).run unfetchedRun).messages.map fun msg =>
      (msg.isOffer, msg.excluded, msg.deliveries)) = [(true, [.bound "pane" "agent"], 1)] ∧
    ∀ msg ∈ ((new "deck" .default).run unfetchedRun).messages, msg.isOffer = true →
      msg.deliveries ≤ InboxLimits.default.maxDeliver := by
  refine ⟨by decide, by decide +kernel, ?_⟩
  intro msg mem offer
  have once := offers_once_each "deck" .default (by decide) unfetchedRun
  exact (once.1 msg mem offer).2.2.1

end AgentDeck.Inbox
