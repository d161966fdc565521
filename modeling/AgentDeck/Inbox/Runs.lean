import AgentDeck.Inbox.Effects

/-!
# Every run is a sequence of calls

One lemma for each operation: from an inbox whose messages are sound it makes a sequence of calls;
`drain_events` takes the events and nothing else.
The loops of `agent_exited` and `tick` go through the inboxes in between, whose messages are sound
as well.
-/

namespace AgentDeck.Inbox

variable {inbox later : Inbox}

/-- Every message the inbox lists keeps the invariant of its record. -/
def Sound (inbox : Inbox) : Prop := ∀ msg ∈ inbox.messages, msg.Sound

theorem Reaches.sound (sound : inbox.Sound) (reaches : Reaches inbox later) : later.Sound :=
  reaches.forall (stable_sound inbox.limits) sound

theorem Calls.sound (sound : inbox.Sound) (calls : Calls inbox later) : later.Sound :=
  calls.reaches.sound sound

theorem exists_of_findIdx? {p : Message → Bool} {messages : List Message} {index : ℕ}
    (found : messages.findIdx? p = some index) : ∃ msg, messages[index]? = some msg ∧ p msg := by
  rcases List.findIdx?_eq_some_iff_getElem.mp found with ⟨bound, holds, _⟩
  exact ⟨messages[index], List.getElem?_eq_getElem bound, holds⟩

/-! ## Posts -/

variable (now : Instant) (recipient : Recipient) (content : Content) (minted : MessageId)
  (id paneId agentId : String)

theorem Calls.expireDedup : Calls inbox (inbox.expireDedup now) :=
  .one (.keep rfl rfl rfl)

theorem Calls.recordRate (sender : Sender) : Calls inbox (inbox.recordRate now sender) := by
  simp only [Inbox.recordRate]
  split
  · exact .same
  · exact .one (.keep rfl rfl rfl)

/-- A registered id changes what the inbox remembers and no message. -/
theorem Calls.registerId (wanted : Option MessageId) (minted : MessageId) :
    Calls inbox (inbox.registerId now wanted minted).2 :=
  .one (.keep rfl rfl rfl)

theorem Calls.releaseReply : Calls inbox inbox.releaseReply := .one (.keep rfl rfl rfl)

theorem admitAgentDirect_calls : Calls inbox (inbox.admitAgentDirect now recipient content).2 := by
  simp only [admitAgentDirect]
  split
  · exact .same
  · exact Calls.expireDedup now

theorem insertDirect_calls : Calls inbox (inbox.insertDirect now recipient content minted).2 := by
  refine Calls.then_trim ?_ now
  refine (Calls.registerId now content.id minted).after ?_
  exact .one (.insert _ _ _ _ _ _ rfl)

theorem postDirect_calls : Calls inbox (inbox.postDirect now recipient content minted).2 := by
  have admits : Calls inbox (inbox.admitDirect now recipient content).2 := Calls.expireDedup now
  simp only [postDirect]
  split
  · rename_i refused
    rw [refused] at admits
    exact admits
  · rename_i admitted
    rw [admitted] at admits
    exact admits.after (insertDirect_calls now recipient content minted)

theorem postAgentDirect_calls :
    Calls inbox (inbox.postAgentDirect now recipient content minted).2 := by
  have admits : Calls inbox (inbox.admitAgentDirect now recipient content).2 :=
    admitAgentDirect_calls now recipient content
  simp only [postAgentDirect]
  split
  · rename_i refused
    rw [refused] at admits
    exact admits
  · rename_i admitted
    rw [admitted] at admits
    refine admits.after ((Calls.recordRate now content.sender).after ?_)
    exact insertDirect_calls now recipient content minted

theorem reserveReply_calls : Calls inbox inbox.reserveReply.2 := by
  simp only [reserveReply]
  split
  · exact .same
  · exact .one (.keep rfl rfl rfl)

theorem reserveDelegate_calls (content : Content) (replacing : ℕ) :
    Calls inbox (inbox.reserveDelegate now paneId content replacing).2 := by
  have admits : Calls inbox (inbox.admitReservedReply now content).2 := Calls.expireDedup now
  simp only [reserveDelegate]
  split
  · rename_i refused
    rw [refused] at admits
    exact admits
  · rename_i admitted
    rw [admitted] at admits
    split
    · exact admits
    · split
      · exact admits
      · exact admits.after (.one (.keep rfl rfl rfl))

theorem postReservedReply_calls :
    Calls inbox (inbox.postReservedReply now recipient content minted).2 := by
  have admits : Calls inbox (inbox.admitReservedReply now content).2 := Calls.expireDedup now
  simp only [postReservedReply]
  split
  · rename_i refused
    rw [refused] at admits
    exact admits
  · rename_i admitted
    rw [admitted] at admits
    exact admits.after (Calls.releaseReply.after (insertDirect_calls now recipient content minted))

/-- A publication inserts one message for each recipient, in order. -/
theorem inserts_calls (id : MessageId) (topic : String) (address : Address) (content : Content)
    (recipients : List Recipient) :
    Calls inbox (recipients.foldl (fun inbox recipient =>
      inbox.insert now id (.publish topic) address (some recipient) content) inbox) := by
  induction recipients generalizing inbox with
  | nil => exact .same
  | cons recipient rest ih =>
    have first : Calls inbox
        (inbox.insert now id (.publish topic) address (some recipient) content) :=
      .one (.insert _ _ _ _ _ _ rfl)
    exact first.after ih

theorem publish_calls (scope : Scope) (topic : String) (content : Content)
    (recipients : List Recipient) (minted : MessageId) :
    Calls inbox (inbox.publish now scope topic content recipients minted).2 := by
  have admits : Calls inbox (inbox.admitPublish now content recipients).2 := Calls.expireDedup now
  simp only [publish]
  split
  · rename_i refused
    rw [refused] at admits
    exact admits
  · rename_i admitted
    rw [admitted] at admits
    refine Calls.then_trim ?_ now
    refine admits.after ((Calls.registerId now content.id minted).after ?_)
    exact (Calls.recordRate now content.sender).after (inserts_calls _ _ _ _ _ _)

/-! ## Offers -/

theorem assignOffer_act (id : MessageId) (candidates : List Recipient) :
    Act (some now) inbox (inbox.assignOffer now id candidates).2 := by
  simp only [assignOffer]
  split
  · exact .same
  · rename_i index position
    rcases exists_of_findIdx? position with ⟨msg, found, matched⟩
    simp only [Bool.and_eq_true, decide_eq_true_eq, Option.isNone_iff_eq_none] at matched
    split
    · exact .same
    · rename_i holder picked
      simp only [found] at picked
      have eligible := List.find?_some picked
      simp only [Bool.and_eq_true, Bool.not_eq_true', List.any_eq_false, Bool.not_eq_true]
        at eligible
      have live : msg.state.isTerminal = false := by simp [matched.2, MessageState.isTerminal]
      refine Act.turned ?_ found live (edit_turned found rfl now _) rfl
      exact .assign index now _ holder found matched.1.1.2 matched.1.2 matched.2 eligible.1
        eligible.2

/-- An offer is posted without a recipient, then assigned to a candidate. -/
theorem offer_calls (scope : Scope) (pool : String) (claimTtl : Option Duration) (content : Content)
    (candidates : List Recipient) (minted : MessageId) :
    Calls inbox (inbox.offer now scope pool claimTtl content candidates minted).2 := by
  have admits : Calls inbox (inbox.admitOffer now scope claimTtl content).2 :=
    Calls.expireDedup now
  simp only [offer]
  split
  · rename_i refused
    rw [refused] at admits
    exact admits
  · rename_i admitted
    rw [admitted] at admits
    refine admits.after ((Calls.registerId now content.id minted).after ?_)
    refine (Calls.recordRate now content.sender).after ?_
    exact Calls.after (.one (.insert _ _ _ _ _ _ rfl)) (assignOffer_act _ _ _).calls

/-! ## Receipts -/

theorem ack_act (how : AckHow) : Act (some now) inbox (inbox.ack now id paneId agentId how).2 := by
  simp only [ack]
  split
  · exact .same
  · rename_i index position
    rcases exists_of_findIdx? position with ⟨msg, found, matched⟩
    have acknowledges (plain : msg.isOffer = false)
        (waits : msg.Open ∨ msg.state.undeliverableReason = some .maxDeliver) :
        Act (some now) inbox
          ((inbox.transition index now (.acknowledged now how)).trimHistory now) :=
      .trim (.one (.turn index now found (.acknowledge how plain waits))) now
    have claims {pool : String} {claimTtl : Duration} (kind : msg.kind = .offer pool claimTtl)
        (waits : msg.Open) : Act (some now) inbox (inbox.transition index now
          (.claimed (msg.recipient.getD (.bound paneId agentId)) now (now + claimTtl))) := by
      rcases held : msg.recipient with _ | holder
      · simp [held] at matched
      · have offer : msg.isOffer := by simp [Message.isOffer, kind]
        exact Act.turned (.turn index now found (.claim holder _ offer waits held)) found
          waits.live (transition_turned found now _) rfl
    simp only [found]
    split
    · exact .same
    · rename_i since reason state
      split
      · rename_i spent
        exact acknowledges spent.2 (Or.inr (by simp [state, spent.1,
          MessageState.undeliverableReason]))
      · exact .same
    · exact .same
    · rename_i state
      split
      · rename_i kind
        exact claims kind (Or.inl state)
      · rename_i kind
        exact acknowledges (by simp [Message.isOffer, kind]) (Or.inl (Or.inl state))
      · rename_i kind
        exact acknowledges (by simp [Message.isOffer, kind]) (Or.inl (Or.inl state))
    · rename_i state
      have fetched : msg.Open := Or.inr (by simp [state, MessageState.isFetched])
      split
      · rename_i kind
        exact claims kind fetched
      · rename_i kind
        exact acknowledges (by simp [Message.isOffer, kind]) (Or.inl fetched)
      · rename_i kind
        exact acknowledges (by simp [Message.isOffer, kind]) (Or.inl fetched)

/-- Taking a receipt counts the delivery and turns the message to `fetched`. -/
theorem takeReceipt_act (consumer : Consumer) :
    Act (some now) inbox (inbox.takeReceipt now id paneId agentId consumer).2 := by
  simp only [takeReceipt]
  split
  · exact .same
  · rename_i index position
    rcases exists_of_findIdx? position with ⟨msg, found, _⟩
    simp only [found]
    split
    · exact .same
    · rename_i queued
      have queued := not_not.mp queued
      have live : msg.state.isTerminal = false := by simp [queued, MessageState.isTerminal]
      rcases offer : msg.isOffer with _ | _
      · exact Act.turned (.take index now consumer found queued offer) found live
          (edit_turned found rfl now _) rfl
      · have turn : Turn inbox.limits now msg _ none := Turn.take consumer queued
        simp only [offer] at turn ⊢
        exact Act.turned (.turn index now found turn) found live (transition_turned found now _) rfl

theorem countReceiptRepeat_act : Act none inbox (inbox.countReceiptRepeat id paneId agentId).2 := by
  simp only [countReceiptRepeat]
  split
  · exact .same
  · rename_i index position
    rcases exists_of_findIdx? position with ⟨msg, found, _⟩
    simp only [found]
    split
    · exact .same
    · rename_i counted
      simp only [Bool.or_eq_true, Bool.not_eq_true', not_or, Bool.not_eq_false,
        Bool.not_eq_true] at counted
      have live := MessageState.live_of_isFetched counted.1
      refine .quiet (.one (.count index found counted.1 counted.2)) ?_
      rw [edit_messages found]
      exact ended_set found live live

theorem requeueReceipt_act : Act (some now) inbox (inbox.requeueReceipt now id paneId).2 := by
  simp only [requeueReceipt]
  split
  · exact .same
  · rename_i index position
    rcases exists_of_findIdx? position with ⟨msg, found, matched⟩
    simp only [Bool.and_eq_true, Message.isFor, Option.any_eq_true] at matched
    rcases matched.2 with ⟨holder, held, _⟩
    simp only [found]
    split
    · exact .same
    · rename_i fetched
      simp only [Bool.not_eq_false] at fetched
      split
      · rename_i offer
        exact .trim (.one (.giveBack index now _ found offer
          (MessageState.live_of_isFetched fetched) held)) now
      · rename_i plain
        simp only [Bool.not_eq_true] at plain
        exact .trim (.one (.turn index now found (.requeue plain fetched))) now

section

variable (sound : inbox.Sound)

include sound

/-- An index that `claimedBy` finds is that of a claimed offer with its claimant. -/
theorem exists_of_claimedBy {id paneId agentId : String} {index : ℕ}
    (claims : inbox.claimedBy id paneId agentId = .ok index) :
    ∃ msg claimant, inbox.messages[index]? = some msg ∧ msg.isOffer = true ∧
      msg.state.name = .claimed ∧ msg.recipient = some claimant := by
  simp only [claimedBy] at claims
  split at claims
  · cases claims
  · rename_i position matched
    rcases exists_of_findIdx? matched with ⟨msg, found, _⟩
    simp only [found] at claims
    split at claims
    · rename_i claimant since expires state
      rcases sound msg (List.mem_of_getElem? found) with ⟨_, _, claim⟩
      rcases claim claimant since expires (Option.some.inj state) with ⟨offer, held⟩
      split at claims
      · cases claims
        refine ⟨msg, claimant, found, offer, ?_, held⟩
        rw [Option.some.inj state]
        rfl
      · cases claims
    · cases claims

/-- A completion ends the offer its claimant holds; any other is refused. -/
theorem complete_act (now : Instant) (id paneId agentId : String) :
    Act (some now) inbox (inbox.complete now id paneId agentId).2 := by
  simp only [complete]
  split
  · exact .same
  · rename_i index claims
    rcases exists_of_claimedBy sound claims with ⟨msg, claimant, found, offer, claimed, held⟩
    simp only [expireClaimIfDue]
    split
    · rename_i expired
      split at expired
      · cases expired
        exact .trim (.one (.giveBack index now _ found offer
          (MessageState.live_of_claimed claimed) held)) now
      · cases expired
    · rename_i kept
      split at kept
      · cases kept
      · cases kept
        exact .trim (.one (.turn index now found (.complete offer claimed))) now

/-- A release puts the offer back, to be claimed by another. -/
theorem release_act (now : Instant) (id paneId agentId : String) :
    Act (some now) inbox (inbox.release now id paneId agentId).2 := by
  simp only [release]
  split
  · exact .same
  · rename_i index claims
    rcases exists_of_claimedBy sound claims with ⟨msg, claimant, found, offer, claimed, held⟩
    have gives (cause : ReturnCause) :
        Act (some now) inbox ((inbox.returnOffer index now cause).trimHistory now) :=
      .trim (.one (.giveBack index now cause found offer
        (MessageState.live_of_claimed claimed) held)) now
    simp only [expireClaimIfDue]
    split
    · rename_i expired
      split at expired
      · cases expired
        exact gives _
      · cases expired
    · rename_i kept
      split at kept
      · cases kept
      · cases kept
        exact gives _

/-! ## Exits, retirement and deadlines -/

omit sound in
/-- A sweep visits the indices from the last to the first, so a removal shifts none that is still to
come. -/
theorem sweep_effects {clock : Option Instant} {body : ℕ → Inbox → Inbox}
    (step : ∀ index inbox, Sound inbox → Effects clock inbox (body index inbox)) (count : ℕ)
    (sound : inbox.Sound) : Effects clock inbox (sweep body count inbox) := by
  induction count generalizing inbox with
  | zero => exact .same
  | succ index ih =>
    have first := step index inbox sound
    exact first.after (ih (first.calls.sound sound))

omit sound in
theorem exitAt_effects (index : ℕ) :
    Effects (some now) inbox (exitAt now paneId agentId index inbox) := by
  simp only [exitAt]
  split
  · exact .same
  · rename_i msg found
    split
    · exact .same
    · rename_i holds
      simp only [heldBy, Bool.not_eq_false, Bool.and_eq_true, Bool.not_eq_true',
        decide_eq_true_eq] at holds
      split
      · rename_i offer
        exact .one (.giveBack index now _ found offer holds.1 holds.2)
      · exact .one (.turn index now found (.retire .agentExited holds.1))

/-- An exit puts back the offers the agent held and ends its other messages. -/
theorem agentExited_act (now : Instant) (paneId agentId : String) :
    Act (some now) inbox (inbox.agentExited now paneId agentId) :=
  .trim (sweep_effects (fun index _ _ => exitAt_effects now paneId agentId index) _ sound) now

omit sound in
/-- A retirement ends a live message with its reason. -/
theorem retire_act (reason : UndeliverableReason) :
    Act (some now) inbox (inbox.retire now id paneId reason).2 := by
  simp only [retire]
  split
  · exact .same
  · rename_i index position
    rcases exists_of_findIdx? position with ⟨msg, found, matched⟩
    simp only [Bool.and_eq_true, Bool.not_eq_true'] at matched
    exact .trim (.one (.turn index now found (.retire reason matched.1.2))) now

theorem tickAt_effects (now : Instant) (index : ℕ) :
    Effects (some now) inbox (tickAt now index inbox) := by
  simp only [tickAt]
  split
  · exact .same
  · rename_i msg found
    rcases sound msg (List.mem_of_getElem? found) with ⟨_, deadline, claim⟩
    split
    · rename_i claimant since expires state
      rcases claim claimant since expires state with ⟨offer, held⟩
      split
      · exact .one (.giveBack index now _ found offer (by simp [state, MessageState.isTerminal])
          held)
      · exact .same
    · rename_i state
      split
      · rename_i due
        rcases Option.any_eq_true _ _ |>.mp due with ⟨_, assigned, _⟩
        rcases deadline (by simp [assigned]) with ⟨_, offer, held⟩
        rcases Option.isSome_iff_exists.mp held with ⟨holder, held⟩
        exact .one (.giveBack index now _ found offer (by simp [state, MessageState.isTerminal])
          held)
      · exact .same
    · exact .same
    · exact .same
    · exact .same

/-- A tick visits every message, then trims the history. -/
theorem tick_act (now : Instant) : Act (some now) inbox (inbox.tick now) := by
  have swept := sweep_effects (fun index _ sound => tickAt_effects sound now index)
    inbox.messages.length sound
  have expired := swept.after (.one (.expire now rfl))
  exact .trim (expired.after (.one (.age (expiredRate now _)))) now

/-! ## Runs -/

/-- Every operation but `drain_events` is a sequence of internal calls. -/
theorem apply_calls {op : Op} (stays : op ≠ .drainEvents) : Calls inbox (inbox.apply op) := by
  cases op with
  | admitReply now content | admitDirect now recipient content | admitReservedReply now content
  | admitPublish now content recipients | admitOffer now scope claimTtl content =>
    exact Calls.expireDedup now
  | admitAgentDirect now recipient content => exact admitAgentDirect_calls now recipient content
  | postDirect => exact postDirect_calls _ _ _ _
  | postAgentDirect => exact postAgentDirect_calls _ _ _ _
  | reserveReply => exact reserveReply_calls
  | reserveDelegate => exact reserveDelegate_calls _ _ _ _
  | releaseReply => exact Calls.releaseReply
  | postReservedReply => exact postReservedReply_calls _ _ _ _
  | publish => exact publish_calls _ _ _ _ _ _
  | offer => exact offer_calls _ _ _ _ _ _ _
  | assignOffer => exact (assignOffer_act _ _ _).calls
  | ack => exact (ack_act _ _ _ _ _).calls
  | takeReceipt => exact (takeReceipt_act _ _ _ _ _).calls
  | countReceiptRepeat => exact (countReceiptRepeat_act _ _ _).calls
  | requeueReceipt => exact (requeueReceipt_act _ _ _).calls
  | complete => exact (complete_act sound _ _ _ _).calls
  | release => exact (release_act sound _ _ _ _).calls
  | agentExited => exact (agentExited_act sound _ _ _).calls
  | retire => exact (retire_act _ _ _ _).calls
  | tick now => exact (tick_act sound now).calls
  | forgetPaneHistory paneId => exact .one (.forget paneId)
  | drainEvents => exact absurd rfl stays

theorem apply_reaches (op : Op) : Reaches inbox (inbox.apply op) := by
  by_cases drains : op = .drainEvents
  · subst drains
    exact Relation.ReflTransGen.single (Or.inr rfl)
  · exact (apply_calls sound drains).reaches

/-- Induction on the calls of a run. -/
theorem run_reaches (ops : List Op) : Reaches inbox (inbox.run ops) := by
  induction ops generalizing inbox with
  | nil => exact Relation.ReflTransGen.refl
  | cons op rest ih =>
    have first := apply_reaches sound op
    exact Relation.ReflTransGen.trans first (ih (first.sound sound))

end

theorem new_sound (deck : String) (limits : InboxLimits) : (new deck limits).Sound := by
  intro msg mem
  cases mem

/-- The invariant of every record, in every run from an empty inbox. -/
theorem run_sound (deck : String) (limits : InboxLimits) (ops : List Op) :
    ((new deck limits).run ops).Sound :=
  (run_reaches (new_sound deck limits) ops).sound (new_sound deck limits)

end AgentDeck.Inbox
