import AgentDeck.Attempts.Safety
import AgentDeck.Attempts.Identity

/-!
# User actions

A cancel sets the latch of its record and revokes what is open; the latch is never lifted, so the
finalizer can only end the record from there. `Latching` ties the latch and the terminal states to
the stages of the attempts, which is what `may_hand_over` relies on: it never reads the state of a
message. `Heeds` is the part of a record that only an applied action changes, with the revision
that every change of state moves on.
-/

namespace AgentDeck.Attempts

open AttemptModel (commitStage rebind)

namespace MessageState

/-- The states of a record whose cancel was applied while its generation ran. -/
def isCancelled : MessageState → Bool
  | cancelHeld | settled | undeliverable .cancelled | undeliverable .exited => true
  | queued | attempting | uncertain _ | undeliverable .maxDeliver => false

end MessageState

namespace Delivery

/-! ## The latch -/

/-- What the latch and the end of a record say, also while an action waits for the finalizer. -/
structure Latchable (msg : Delivery) : Prop where
  capped : msg.latch = true → msg.state ≠ .undeliverable .maxDeliver
  cancelled : msg.state = .undeliverable .cancelled → msg.latch = true
  ended : msg.state = .undeliverable .maxDeliver ∨ msg.state = .undeliverable .exited →
    ∀ attempt ∈ msg.attempts, attempt.a = msg.a → attempt.stage.isFinal = true
  quelled : msg.latch = true → ∀ attempt ∈ msg.attempts, attempt.a = msg.a →
    attempt.stage.isFinal = true ∨ attempt.revoked = true

structure Latching (exited : Bool) (msg : Delivery) : Prop extends Latchable msg where
  latched : msg.latch = true → msg.state.isCancelled = true ∨
    (exited = true ∧ msg.state = .queued)
  gone : exited = true → msg.state.isTerminal = true ∨ msg.state = .queued

variable {msg changed : Delivery} {exited : Bool}

theorem Latchable.of_live (unlatched : msg.latch = false) (live : msg.state.isTerminal = false) :
    msg.Latchable := by
  constructor
  · simp [unlatched]
  · intro cancelled
    simp [cancelled, MessageState.isTerminal] at live
  · rintro (ended | ended) <;> simp [ended, MessageState.isTerminal] at live
  · simp [unlatched]

theorem Latching.of_live (unlatched : msg.latch = false) (live : msg.state.isTerminal = false) :
    msg.Latching false :=
  ⟨Latchable.of_live unlatched live, by simp [unlatched], by simp⟩

theorem Latchable.attempts (latchable : msg.Latchable) (state : changed.state = msg.state)
    (latch : changed.latch = msg.latch) (assignment : changed.a = msg.a)
    (attempts : ∀ new ∈ changed.attempts, ∃ old ∈ msg.attempts, new.a = old.a ∧
      (old.stage.isFinal = true → new.stage.isFinal = true) ∧
      (old.revoked = true → new.revoked = true)) : changed.Latchable := by
  constructor
  · rw [latch, state]
    exact latchable.capped
  · rw [latch, state]
    exact latchable.cancelled
  · rw [state, assignment]
    intro ended new mem current
    rcases attempts new mem with ⟨old, oldMem, sameA, final, _⟩
    exact final (latchable.ended ended old oldMem (sameA.symm.trans current))
  · rw [latch, assignment]
    intro latched new mem current
    rcases attempts new mem with ⟨old, oldMem, sameA, final, revoked⟩
    exact (latchable.quelled latched old oldMem (sameA.symm.trans current)).imp final revoked

theorem Latching.attempts (latching : msg.Latching exited) (state : changed.state = msg.state)
    (latch : changed.latch = msg.latch) (assignment : changed.a = msg.a)
    (attempts : ∀ new ∈ changed.attempts, ∃ old ∈ msg.attempts, new.a = old.a ∧
      (old.stage.isFinal = true → new.stage.isFinal = true) ∧
      (old.revoked = true → new.revoked = true)) : changed.Latching exited := by
  refine ⟨latching.toLatchable.attempts state latch assignment attempts, ?_, ?_⟩
  · rw [latch, state]
    exact latching.latched
  · rw [state]
    exact latching.gone

theorem Latching.congr (latching : msg.Latching exited) (state : changed.state = msg.state)
    (latch : changed.latch = msg.latch) (assignment : changed.a = msg.a)
    (attempts : changed.attempts = msg.attempts) : changed.Latching exited := by
  refine latching.attempts state latch assignment ?_
  rw [attempts]
  exact fun new mem => ⟨new, mem, rfl, id, id⟩

end Delivery

theorem Touch.revoked {powers : Powers} {msg : Delivery} {old new : Attempt}
    (touch : Touch powers msg old new) : new.revoked = old.revoked := by
  cases touch <;> rfl

namespace Delivery

variable {powers : Powers} {msg changed : Delivery} {exited : Bool}

theorem Latching.edit (latching : msg.Latching exited) (powerless : powers.acts = false)
    (edit : Edit powers msg changed) : changed.Latching exited := by
  cases edit with
  | touch attempts touched =>
    refine latching.attempts rfl rfl rfl ?_
    intro new mem
    rcases exists_left_of_forall₂ touched mem with ⟨old, oldMem, touch⟩
    have evolves : old.Evolves powers true new := touch.evolves
    exact ⟨old, oldMem, touch.a, evolves.final, fun revoked => touch.revoked.trans revoked⟩
  | retried allowed => simp [powerless] at allowed
  | cancelled allowed => simp [powerless] at allowed
  | lastAction allowed => simp [powerless] at allowed
  | dropToken | heldLong | notStarted => exact latching.congr rfl rfl rfl rfl

theorem revoke_keeps (now : Instant) (attempt : Attempt) :
    (revoke now attempt).a = attempt.a ∧
      (attempt.stage.isFinal = true → (revoke now attempt).stage.isFinal = true) ∧
      (attempt.revoked = true → (revoke now attempt).revoked = true) := by
  simp only [revoke]
  split
  · exact ⟨rfl, id, fun _ => rfl⟩
  · exact ⟨rfl, id, id⟩

theorem reclaimAttempt_keeps (msg : Delivery) (attempt : Attempt) :
    (msg.reclaimAttempt attempt).a = attempt.a ∧
      (attempt.stage.isFinal = true → (msg.reclaimAttempt attempt).stage.isFinal = true) ∧
      (attempt.revoked = true → (msg.reclaimAttempt attempt).revoked = true) := by
  simp only [reclaimAttempt]
  split
  · exact ⟨rfl, id, id⟩
  · split <;> split <;> exact ⟨rfl, id, id⟩

theorem Latching.reclaim (latching : msg.Latching exited) :
    ({ msg with attempts := msg.attempts.map msg.reclaimAttempt } : Delivery).Latching exited := by
  refine latching.attempts rfl rfl rfl ?_
  intro new mem
  rcases List.mem_map.mp mem with ⟨old, oldMem, rfl⟩
  exact ⟨old, oldMem, msg.reclaimAttempt_keeps old⟩

@[simp]
theorem noteWitness_latch (msg : Delivery) (now : Instant) (witnessed : Bool) :
    (msg.noteWitness now witnessed).latch = msg.latch := by
  simp only [Delivery.noteWitness]
  repeat' split
  all_goals rfl

theorem Latching.noteWitness (latching : msg.Latching exited) (now : Instant) (witnessed : Bool) :
    (msg.noteWitness now witnessed).Latching exited := by
  refine latching.congr ?_ ?_ ?_ ?_ <;> simp

/-! ## The finalizer and the latch -/

theorem Latchable.of_terminal (latchable : msg.Latchable) (terminal : msg.state.isTerminal) :
    msg.Latching false := by
  refine ⟨latchable, ?_, by simp⟩
  intro latched
  have capped := latchable.capped latched
  left
  cases state : msg.state with
  | settled => rfl
  | undeliverable reason =>
    cases reason with
    | cancelled => rfl
    | exited => rfl
    | maxDeliver => exact absurd state capped
  | queued | attempting | uncertain | cancelHeld =>
    simp [state, MessageState.isTerminal] at terminal

theorem Latching.correct (latching : msg.Latching exited) (id : String) (despiteCancel : Bool) :
    (msg.correct id despiteCancel).1.Latching exited := by
  rw [correct_fst]
  exact latching.congr rfl rfl rfl rfl

theorem Latchable.settle (latchable : msg.Latchable) (state : changed.state = .settled)
    (latch : changed.latch = msg.latch) (assignment : changed.a = msg.a)
    (attempts : ∀ new ∈ changed.attempts, ∃ old ∈ msg.attempts, new.a = old.a ∧
      (old.stage.isFinal = true → new.stage.isFinal = true) ∧
      (old.revoked = true → new.revoked = true)) : changed.Latching false := by
  refine ⟨⟨?_, ?_, ?_, ?_⟩, ?_, by simp⟩
  · simp [state]
  · simp [state]
  · simp [state]
  · rw [latch, assignment]
    intro latched new mem current
    rcases attempts new mem with ⟨old, oldMem, sameA, final, revoked⟩
    exact (latchable.quelled latched old oldMem (sameA.symm.trans current)).imp final revoked
  · intro _
    rw [state]
    exact Or.inl rfl

theorem Latchable.ruleCommitted (latchable : msg.Latchable) (now : Instant) (id : String) :
    (msg.ruleCommitted now id).1.Latching false := by
  simp only [Delivery.ruleCommitted]
  split
  · refine Latching.correct (latchable.settle (by simp) (by simp) (by simp) ?_) id false
    rw [setState_attempts]
    exact fun new mem => ⟨new, mem, rfl, fun final => final, fun revoked => revoked⟩
  · split
    · rename_i terminal
      have ended := latchable.of_terminal terminal
      split
      · exact ended.correct id true
      · exact ended.correct id false
      · exact ended
    · have settled : ({ msg.setState .settled with
          token := none
          possessedSince := none
          waitingSince := none
          heldLongSent := none
          attempts := msg.attempts.map (revoke now) } : Delivery).Latching false := by
        refine latchable.settle (by simp) (by simp) (by simp) ?_
        intro new mem
        rcases List.mem_map.mp mem with ⟨old, oldMem, rfl⟩
        exact ⟨old, oldMem, revoke_keeps now old⟩
      split
      · exact settled.correct id msg.latch
      · exact settled

theorem Latchable.ruleLatched (latchable : msg.Latchable) (latched : msg.latch) (id : String)
    (reading : Reading) : (msg.ruleLatched id reading).1.Latching false := by
  have quelled := latchable.quelled latched
  simp only [Delivery.ruleLatched]
  split
  · refine ⟨⟨?_, ?_, ?_, ?_⟩, ?_, ?_⟩ <;> simp [latched, MessageState.isCancelled]
    exact quelled
  · refine ⟨⟨?_, ?_, ?_, ?_⟩, ?_, ?_⟩ <;> simp [latched, MessageState.isCancelled]
    exact quelled

theorem ruleNotHanded_latching {limits : Limits} {id : String} (unlatched : msg.latch = false)
    (live : msg.state.isTerminal = false)
    (notHanded : ∀ attempt ∈ msg.attempts, attempt.a = msg.a → attempt.stage = .notHanded) :
    (msg.ruleNotHanded limits id).1.Latching false := by
  simp only [Delivery.ruleNotHanded]
  split
  · exact Latching.of_live unlatched live
  · split
    · refine ⟨⟨?_, ?_, ?_, ?_⟩, ?_, ?_⟩ <;> simp [unlatched]
      intro attempt mem current
      rw [notHanded attempt mem current]
      rfl
    · split
      · exact Latching.of_live (by simp [unlatched]) (by simp [MessageState.isTerminal])
      · exact Latching.of_live (by simp [unlatched]) (by simp [MessageState.isTerminal])

theorem ruleLapsed_live {limits : Limits} {now : Instant} {cleared : Bool}
    (live : msg.state.isTerminal = false) :
    (msg.ruleLapsed limits now cleared).latch = msg.latch ∧
      (msg.ruleLapsed limits now cleared).state.isTerminal = false := by
  simp only [Delivery.ruleLapsed]
  repeat' split
  all_goals first
    | exact ⟨rfl, live⟩
    | exact ⟨by simp, by simp [MessageState.isTerminal]⟩

theorem ruleHeld_live {now : Instant} {held : Bool} :
    (msg.ruleHeld now held).latch = msg.latch ∧
      (msg.ruleHeld now held).state.isTerminal = false := by
  simp only [Delivery.ruleHeld]
  split <;> simp [MessageState.isTerminal]

theorem Latchable.rules {reading : Reading} (latchable : msg.Latchable) (reads : Reads reading msg)
    (limits : Limits) (now : Instant) (id : String) :
    (msg.rules limits now id reading).1.Latching false := by
  simp only [Delivery.rules]
  split
  · exact latchable.ruleCommitted now id
  · split
    · rename_i terminal
      exact latchable.of_terminal terminal
    · rename_i live
      rw [Bool.not_eq_true] at live
      split
      · rename_i latched
        exact latchable.ruleLatched latched id reading
      · rename_i unlatched
        rw [Bool.not_eq_true] at unlatched
        split
        · exact Latching.of_live (by simp [unlatched]) (by simp [MessageState.isTerminal])
        · split
          · rename_i allNotHanded
            exact ruleNotHanded_latching unlatched live (reads.allNotHanded allNotHanded)
          · split
            · exact Latching.of_live (ruleHeld_live.1.trans unlatched) ruleHeld_live.2
            · exact Latching.of_live ((ruleLapsed_live live).1.trans unlatched)
                (ruleLapsed_live live).2

/-! ## What only an action changes -/

@[simp]
theorem setState_lastAction (msg : Delivery) (state : MessageState) :
    (msg.setState state).lastAction = msg.lastAction := by
  simp only [setState]
  split <;> rfl

theorem le_setState_revision (msg : Delivery) (state : MessageState) :
    msg.revision ≤ (msg.setState state).revision := by
  simp only [setState]
  split
  · exact le_rfl
  · exact Nat.le_succ _

/-- The latch and the last action stay, and the revision only grows. -/
structure Heeds (old new : Delivery) : Prop where
  latch : new.latch = old.latch
  lastAction : new.lastAction = old.lastAction
  revision : old.revision ≤ new.revision

theorem Heeds.refl (msg : Delivery) : msg.Heeds msg := ⟨rfl, rfl, le_rfl⟩

variable {middle : Delivery}

theorem Heeds.trans {old new : Delivery} (first : old.Heeds middle) (second : middle.Heeds new) :
    old.Heeds new :=
  ⟨second.latch.trans first.latch, second.lastAction.trans first.lastAction,
    first.revision.trans second.revision⟩

theorem Heeds.setState (msg : Delivery) (state : MessageState) : msg.Heeds (msg.setState state) :=
  ⟨by simp, by simp, msg.le_setState_revision state⟩

theorem Heeds.state {msg : Delivery} {state : MessageState} (first : msg.Heeds middle) :
    msg.Heeds (middle.setState state) :=
  first.trans (Heeds.setState middle state)

theorem Heeds.congr {msg changed : Delivery} (first : msg.Heeds middle)
    (latch : changed.latch = middle.latch) (lastAction : changed.lastAction = middle.lastAction)
    (revision : changed.revision = middle.revision) : msg.Heeds changed :=
  first.trans ⟨latch, lastAction, revision.ge⟩

theorem Heeds.correct (msg : Delivery) (id : String) (despiteCancel : Bool) :
    msg.Heeds (msg.correct id despiteCancel).1 := by
  rw [correct_fst]
  exact ⟨rfl, rfl, le_rfl⟩

theorem Heeds.ruleCommitted (msg : Delivery) (now : Instant) (id : String) :
    msg.Heeds (msg.ruleCommitted now id).1 := by
  simp only [Delivery.ruleCommitted]
  split
  · exact (Heeds.setState msg .settled).trans (Heeds.correct _ id false)
  · split
    · split
      · exact Heeds.correct msg id true
      · exact Heeds.correct msg id false
      · exact Heeds.refl msg
    · have settled : msg.Heeds { msg.setState .settled with
          token := none
          possessedSince := none
          waitingSince := none
          heldLongSent := none
          attempts := msg.attempts.map (revoke now) } :=
        (Heeds.setState msg .settled).congr rfl rfl rfl
      split
      · exact settled.trans (Heeds.correct _ id msg.latch)
      · exact settled

theorem Heeds.ruleNotHanded (msg : Delivery) (limits : Limits) (id : String) :
    msg.Heeds (msg.ruleNotHanded limits id).1 := by
  simp only [Delivery.ruleNotHanded]
  split
  · exact ⟨rfl, rfl, le_rfl⟩
  · split
    · exact Heeds.state ⟨rfl, rfl, le_rfl⟩
    · split
      · exact Heeds.state ⟨rfl, rfl, le_rfl⟩
      · exact Heeds.state ⟨rfl, rfl, le_rfl⟩

theorem Heeds.ruleHeld (msg : Delivery) (now : Instant) (held : Bool) :
    msg.Heeds (msg.ruleHeld now held) := by
  simp only [Delivery.ruleHeld]
  split
  · have dropped : msg.Heeds { msg with token := none } := ⟨rfl, rfl, le_rfl⟩
    exact (Heeds.state dropped).congr rfl rfl rfl
  · exact (Heeds.setState msg .attempting).congr rfl rfl rfl

theorem Heeds.ruleLapsed (msg : Delivery) (limits : Limits) (now : Instant) (cleared : Bool) :
    msg.Heeds (msg.ruleLapsed limits now cleared) := by
  have waits : msg.Heeds { msg with
      possessedSince := none, waitingSince := some (msg.waitingSince.getD now) } :=
    ⟨rfl, rfl, le_rfl⟩
  simp only [Delivery.ruleLapsed]
  split
  · split
    · exact Heeds.state ⟨rfl, rfl, le_rfl⟩
    · exact waits.state
  · split
    · exact waits
    · split
      · exact waits.state
      · split
        · split
          · exact waits.state
          · exact waits.state
        · split
          · exact (Heeds.state waits).congr rfl rfl rfl
          · exact waits.state

theorem Heeds.rules (msg : Delivery) (limits : Limits) (now : Instant) (id : String)
    (reading : Reading) : msg.Heeds (msg.rules limits now id reading).1 := by
  simp only [Delivery.rules]
  split
  · exact Heeds.ruleCommitted msg now id
  · split
    · exact Heeds.refl msg
    · split
      · simp only [Delivery.ruleLatched]
        split
        · exact Heeds.state ⟨rfl, rfl, le_rfl⟩
        · exact Heeds.state ⟨rfl, rfl, le_rfl⟩
      · split
        · exact Heeds.setState msg .queued
        · split
          · exact Heeds.ruleNotHanded msg limits id
          · split
            · exact Heeds.ruleHeld msg now reading.held
            · exact Heeds.ruleLapsed msg limits now reading.cleared

theorem Heeds.noteWitness (msg : Delivery) (now : Instant) (witnessed : Bool) :
    msg.Heeds (msg.noteWitness now witnessed) := by
  simp only [Delivery.noteWitness]
  split
  · split
    · exact ⟨rfl, rfl, le_rfl⟩
    · exact Heeds.refl msg
  · exact ⟨rfl, rfl, le_rfl⟩

theorem Heeds.edit (powerless : powers.acts = false) (edit : Edit powers msg changed) :
    msg.Heeds changed := by
  cases edit with
  | retried allowed => simp [powerless] at allowed
  | cancelled allowed => simp [powerless] at allowed
  | lastAction allowed => simp [powerless] at allowed
  | _ => exact ⟨rfl, rfl, le_rfl⟩

/-! ## What a record has heard -/

/-- The last action is one that was applied, at a revision the record has left behind. -/
def Acted (msg : Delivery) : Prop :=
  ∀ revision verb outcome, msg.lastAction = some (revision, verb, outcome) →
    (∃ after, outcome = .applied after) ∧ revision < msg.revision ∧
      (verb = .cancel → msg.latch = true)

/-- Every revoked attempt had its revoke among the effects `told`. -/
def Told (id : String) (told : List Effect) (msg : Delivery) : Prop :=
  ∀ attempt ∈ msg.attempts, attempt.revoked = true → .revoke id attempt.a attempt.e ∈ told

theorem Acted.heeds (acted : msg.Acted) (heeds : msg.Heeds changed) : changed.Acted := by
  intro revision verb outcome last
  rw [heeds.lastAction] at last
  rcases acted revision verb outcome last with ⟨applied, behind, latched⟩
  refine ⟨applied, behind.trans_le heeds.revision, ?_⟩
  rw [heeds.latch]
  exact latched

section Told

variable {id : String} {told more : List Effect}

theorem Told.mono (heard : msg.Told id told) (within : told ⊆ more) : msg.Told id more :=
  fun attempt mem revoked => within (heard attempt mem revoked)

theorem Told.attempts (heard : msg.Told id told)
    (attempts : ∀ new ∈ changed.attempts, ∃ old ∈ msg.attempts, new.a = old.a ∧ new.e = old.e ∧
      new.revoked = old.revoked) : changed.Told id told := by
  intro new mem revoked
  rcases attempts new mem with ⟨old, oldMem, sameA, sameE, same⟩
  rw [sameA, sameE]
  exact heard old oldMem (same.symm.trans revoked)

theorem Told.map (heard : msg.Told id told) {f : Attempt → Attempt}
    (same : ∀ attempt, (f attempt).a = attempt.a ∧ (f attempt).e = attempt.e ∧
      (f attempt).revoked = attempt.revoked) (attempts : changed.attempts = msg.attempts.map f) :
    changed.Told id told := by
  apply heard.attempts
  rw [attempts]
  intro new mem
  rcases List.mem_map.mp mem with ⟨old, oldMem, rfl⟩
  exact ⟨old, oldMem, same old⟩

theorem Told.edit (heard : msg.Told id told) (powerless : powers.acts = false)
    (edit : Edit powers msg changed) : changed.Told id told := by
  cases edit with
  | touch attempts touched =>
    apply heard.attempts
    intro new mem
    rcases exists_left_of_forall₂ touched mem with ⟨old, oldMem, touch⟩
    have evolves : old.Evolves powers true new := touch.evolves
    exact ⟨old, oldMem, evolves.a, evolves.e, touch.revoked⟩
  | retried allowed => simp [powerless] at allowed
  | cancelled allowed => simp [powerless] at allowed
  | lastAction allowed => simp [powerless] at allowed
  | dropToken => exact heard
  | heldLong => exact heard
  | notStarted => exact heard

theorem Told.revoke (heard : msg.Told id told) (now : Instant) (current : Attempt → Bool)
    (attempts : changed.attempts =
      msg.attempts.map fun attempt => if current attempt then revoke now attempt else attempt)
    (sent : ∀ attempt ∈ msg.attempts, current attempt = true → attempt.stage.isFinal = false →
      attempt.revoked = false → .revoke id attempt.a attempt.e ∈ more) :
    changed.Told id (told ++ more) := by
  intro new mem revoked
  rw [attempts] at mem
  rcases List.mem_map.mp mem with ⟨old, oldMem, rfl⟩
  have before : old.revoked = true → .revoke id old.a old.e ∈ told ++ more :=
    fun was => List.mem_append_left more (heard old oldMem was)
  split at revoked
  · rename_i isCurrent
    rw [if_pos isCurrent]
    simp only [Delivery.revoke] at revoked ⊢
    split at revoked
    · rename_i marks
      rw [if_pos marks]
      simp only [Bool.and_eq_true, Bool.not_eq_true'] at marks
      exact List.mem_append_right told (sent old oldMem isCurrent marks.1 marks.2)
    · rename_i unmarked
      rw [if_neg unmarked]
      exact before revoked
  · rename_i other
    rw [if_neg other]
    exact before revoked

theorem mem_revokeEffects {attempts : List Attempt} {attempt : Attempt} (mem : attempt ∈ attempts)
    (isOpen : attempt.stage.isFinal = false) (unrevoked : attempt.revoked = false) :
    .revoke id attempt.a attempt.e ∈ revokeEffects id attempts := by
  refine List.mem_map.mpr ⟨attempt, List.mem_filter.mpr ⟨mem, ?_⟩, rfl⟩
  simp [isOpen, unrevoked]

theorem Told.ruleCommitted (heard : msg.Told id told) (now : Instant) :
    (msg.ruleCommitted now id).1.Told id (told ++ (msg.ruleCommitted now id).2) := by
  have same : ∀ {other : Delivery} {effects : List Effect}, other.attempts = msg.attempts →
      other.Told id (told ++ effects) := by
    intro other effects attempts
    apply (heard.mono (List.subset_append_left told effects)).attempts
    rw [attempts]
    exact fun new mem => ⟨new, mem, rfl, rfl, rfl⟩
  have revoked : ∀ {other : Delivery} {effects : List Effect},
      other.attempts = msg.attempts.map (Delivery.revoke now) →
      revokeEffects id msg.attempts ⊆ effects → other.Told id (told ++ effects) := by
    intro other effects attempts within
    refine heard.revoke now (fun _ => true) (by simpa using attempts) ?_
    exact fun attempt mem _ isOpen unrevoked => within (mem_revokeEffects mem isOpen unrevoked)
  simp only [Delivery.ruleCommitted]
  split
  · exact same (by simp [correct_fst])
  · split
    · split
      · exact same (by simp [correct_fst])
      · exact same (by simp [correct_fst])
      · exact same rfl
    · split
      · exact revoked (by simp [correct_fst]) (List.subset_append_left _ _)
      · exact revoked rfl (List.Subset.refl _)

theorem Told.rules (heard : msg.Told id told) (limits : Limits) (now : Instant)
    (reading : Reading) :
    (msg.rules limits now id reading).1.Told id (told ++ (msg.rules limits now id reading).2) := by
  by_cases committed : reading.committed = true
  · simp only [Delivery.rules, committed]
    exact heard.ruleCommitted now
  · have attempts : (msg.rules limits now id reading).1.attempts = msg.attempts := by
      simp only [Delivery.rules, committed, Bool.false_eq_true, if_false]
      split
      · rfl
      · split
        · simp only [Delivery.ruleLatched]
          split <;> simp
        · split
          · simp
          · split
            · simp only [Delivery.ruleNotHanded]
              repeat' split
              all_goals simp
            · split
              · simp only [Delivery.ruleHeld]
                split <;> simp
              · simp only [Delivery.ruleLapsed]
                repeat' split
                all_goals simp
    apply (heard.mono (List.subset_append_left told _)).attempts
    rw [attempts]
    exact fun new mem => ⟨new, mem, rfl, rfl, rfl⟩

end Told

/-- A record that keeps what its actions promised. -/
structure Heeded (exited : Bool) (id : String) (told : List Effect) (msg : Delivery) : Prop where
  latching : msg.Latching exited
  heard : msg.Told id told
  acted : msg.Acted

section Heeded

variable {id : String} {told more : List Effect}

theorem Heeded.mono (heeded : msg.Heeded exited id told) (within : told ⊆ more) :
    msg.Heeded exited id more :=
  ⟨heeded.latching, heeded.heard.mono within, heeded.acted⟩

theorem Heeded.edit (heeded : msg.Heeded exited id told) (powerless : powers.acts = false)
    (edit : Edit powers msg changed) : changed.Heeded exited id told :=
  ⟨heeded.latching.edit powerless edit, heeded.heard.edit powerless edit,
    heeded.acted.heeds (Heeds.edit powerless edit)⟩

theorem Heeded.reclaim (heeded : msg.Heeded exited id told) :
    ({ msg with attempts := msg.attempts.map msg.reclaimAttempt } : Delivery).Heeded
      exited id told := by
  refine ⟨heeded.latching.reclaim, heeded.heard.map ?_ rfl, heeded.acted⟩
  intro attempt
  simp only [reclaimAttempt]
  split
  · exact ⟨rfl, rfl, rfl⟩
  · split <;> split <;> exact ⟨rfl, rfl, rfl⟩

theorem Latchable.finalized {reading : Reading} (latchable : msg.Latchable)
    (heard : msg.Told id told) (acted : msg.Acted) (reads : Reads reading msg) (limits : Limits)
    (now : Instant) (witnessed : Bool) :
    ((msg.rules limits now id reading).1.noteWitness now witnessed).Heeded false id
      (told ++ (msg.rules limits now id reading).2) := by
  refine ⟨(latchable.rules reads limits now id).noteWitness now witnessed, ?_, ?_⟩
  · apply (heard.rules limits now reading).attempts
    rw [noteWitness_attempts]
    exact fun new mem => ⟨new, mem, rfl, rfl, rfl⟩
  · exact acted.heeds ((Heeds.rules msg limits now id reading).trans (Heeds.noteWitness _ now _))

theorem Heeded.updateAttempt (heeded : msg.Heeded exited id told) (a e : ℕ) {f : Attempt → Attempt}
    (same : ∀ attempt, (f attempt).a = attempt.a ∧ (f attempt).e = attempt.e ∧
      (f attempt).revoked = attempt.revoked)
    (final : ∀ attempt, attempt.stage.isFinal = true → (f attempt).stage.isFinal) :
    (msg.updateAttempt a e f).Heeded exited id told := by
  have attempts : ∀ new ∈ (msg.updateAttempt a e f).attempts, ∃ old ∈ msg.attempts,
      new = old ∨ new = f old := by
    intro new mem
    have related : List.Forall₂ (fun old new => new = old ∨ new = f old) msg.attempts
        (msg.updateAttempt a e f).attempts :=
      forall₂_updateFirst (fun _ => Or.inl rfl) fun _ _ _ => Or.inr rfl
    exact exists_left_of_forall₂ related mem
  refine ⟨heeded.latching.attempts rfl rfl rfl ?_, heeded.heard.attempts ?_, heeded.acted⟩
  · intro new mem
    rcases attempts new mem with ⟨old, oldMem, rfl | rfl⟩
    · exact ⟨new, oldMem, rfl, fun final => final, fun revoked => revoked⟩
    · exact ⟨old, oldMem, (same old).1, final old, fun revoked => (same old).2.2.trans revoked⟩
  · intro new mem
    rcases attempts new mem with ⟨old, oldMem, rfl | rfl⟩
    · exact ⟨new, oldMem, rfl, rfl, rfl⟩
    · exact ⟨old, oldMem, same old⟩

theorem Heeded.new (exited : Bool) (offer : Bool) (a : ℕ) :
    (Delivery.new offer a).Heeded exited id told := by
  refine ⟨⟨Latchable.of_live rfl rfl, ?_, ?_⟩, ?_, ?_⟩
  · simp [Delivery.new]
  · exact fun _ => Or.inr rfl
  · simp [Told, Delivery.new]
  · simp [Acted, Delivery.new]

theorem Told.handOut (heard : msg.Told id told) (now : Instant) (rx : Rx) (d : ℕ) (slot : Slot)
    (kind : IssueKind) : (msg.handOut now rx d slot kind).Told id told := by
  intro new mem revoked
  rcases List.mem_append.mp mem with earlier | last
  · rcases List.mem_map.mp earlier with ⟨old, oldMem, rfl⟩
    split at revoked
    · rename_i current
      rw [if_pos current]
      exact heard old oldMem revoked
    · rename_i earlierA
      rw [if_neg earlierA]
      exact heard old oldMem revoked
  · rw [List.mem_singleton] at last
    subst last
    cases revoked

theorem exitAttempt_final (attempt : Attempt) : (exitAttempt attempt).stage.isFinal := by
  simp only [exitAttempt]
  split
  · rfl
  · rename_i kept
    simp only [Bool.or_eq_true, Bool.not_eq_true', not_or, Bool.not_eq_false] at kept
    exact kept.1

theorem Heeds.exit (msg : Delivery) : msg.Heeds msg.exited := by
  simp only [Delivery.exited]
  split
  · exact ⟨rfl, rfl, le_rfl⟩
  · exact Heeds.state ⟨rfl, rfl, le_rfl⟩

theorem Heeded.exit (heeded : msg.Heeded exited id told) : msg.exited.Heeded true id told := by
  have final : ∀ attempt ∈ msg.exited.attempts, attempt.stage.isFinal := by
    rw [exited_attempts]
    intro attempt mem
    rcases List.mem_map.mp mem with ⟨old, _, rfl⟩
    exact exitAttempt_final old
  have latch := (Heeds.exit msg).latch
  refine ⟨⟨⟨?_, ?_, ?_, ?_⟩, ?_, ?_⟩, ?_, heeded.acted.heeds (Heeds.exit msg)⟩
  · rw [latch]
    intro latched
    simp only [Delivery.exited]
    split
    · exact heeded.latching.capped latched
    · simp
  · simp only [Delivery.exited]
    split
    · exact heeded.latching.cancelled
    · simp
  · exact fun _ attempt mem _ => final attempt mem
  · exact fun _ attempt mem _ => Or.inl (final attempt mem)
  · rw [latch]
    intro latched
    left
    simp only [Delivery.exited]
    split
    · rename_i terminal
      rcases (heeded.latching.toLatchable.of_terminal terminal).latched latched with
        cancelled | ⟨exited, _⟩
      · exact cancelled
      · cases exited
    · rw [setState_state]
      rfl
  · intro _
    left
    simp only [Delivery.exited]
    split
    · assumption
    · rw [setState_state]
      rfl
  · apply heeded.heard.map _ exited_attempts
    intro attempt
    simp only [exitAttempt]
    split <;> exact ⟨rfl, rfl, rfl⟩

end Heeded

/-- The record an applied action hands to the finalizer, and the revokes it sends. -/
def acted (msg : Delivery) (now : Instant) (id : String) : Verb → Delivery × List Effect
  | .retry => (msg.retried, [])
  | .cancel => (msg.cancelled now, revokeEffects id msg.current)

theorem retried_lastAction (msg : Delivery) : msg.retried.lastAction = msg.lastAction := by
  simp only [retried]
  split <;> simp

theorem retried_latch (msg : Delivery) : msg.retried.latch = msg.latch := by
  simp only [retried]
  split <;> simp

theorem retried_state (msg : Delivery) : msg.retried.state = .attempting := by
  simp only [retried]
  split
  · assumption
  · simp

theorem retried_attempts (msg : Delivery) : msg.retried.attempts = msg.attempts := by
  simp only [retried]
  split <;> simp

theorem revision_lt_retried (msg : Delivery) : msg.revision < msg.retried.revision := by
  simp only [retried]
  split
  · exact Nat.lt_succ_self _
  · rename_i other
    simp only [setState, other]
    exact Nat.lt_succ_self _

theorem acted_lastAction (msg : Delivery) (now : Instant) (id : String) (verb : Verb) :
    (msg.acted now id verb).1.lastAction = msg.lastAction := by
  cases verb with
  | retry => exact msg.retried_lastAction
  | cancel => rfl

theorem revision_lt_acted (msg : Delivery) (now : Instant) (id : String) (verb : Verb) :
    msg.revision < (msg.acted now id verb).1.revision := by
  cases verb with
  | retry => exact msg.revision_lt_retried
  | cancel => exact Nat.lt_succ_self _

theorem latch_acted (msg : Delivery) (now : Instant) (id : String) (verb : Verb) :
    (msg.acted now id verb).1.latch = (msg.latch || decide (verb = .cancel)) := by
  cases verb with
  | retry => simp [acted, retried_latch]
  | cancel => simp [acted, cancelled]

theorem Acted.acted (acted : msg.Acted) (now : Instant) (id : String) (verb : Verb) :
    (msg.acted now id verb).1.Acted := by
  intro revision lastVerb outcome last
  rw [acted_lastAction] at last
  rcases acted revision lastVerb outcome last with ⟨applied, behind, latched⟩
  refine ⟨applied, behind.trans (msg.revision_lt_acted now id verb), ?_⟩
  intro isCancel
  rw [latch_acted, latched isCancel]
  rfl

theorem Told.acted {id : String} {told : List Effect} (heard : msg.Told id told) (now : Instant)
    (verb : Verb) : (msg.acted now id verb).1.Told id (told ++ (msg.acted now id verb).2) := by
  cases verb with
  | retry =>
    apply (heard.mono (List.subset_append_left told _)).attempts
    simp only [Delivery.acted, retried_attempts]
    exact fun new mem => ⟨new, mem, rfl, rfl, rfl⟩
  | cancel =>
    refine heard.revoke now (fun attempt => decide (attempt.a = msg.a)) ?_ ?_
    · simp [Delivery.acted, Delivery.cancelled]
    · intro attempt mem current isOpen unrevoked
      exact mem_revokeEffects (List.mem_filter.mpr ⟨mem, current⟩) isOpen unrevoked

theorem Latching.of_retryable (latching : msg.Latching exited) (retryable : msg.retryable) :
    msg.latch = false ∧ exited = false := by
  have state : msg.state.isUncertain = true ∨ msg.state = .attempting := by
    simp only [Delivery.retryable, Bool.or_eq_true, Bool.and_eq_true,
      decide_eq_true_eq] at retryable
    exact retryable.imp id fun held => held.1
  constructor
  · rw [← Bool.not_eq_true]
    intro latched
    rcases latching.latched latched with cancelled | ⟨_, queued⟩
    · cases current : msg.state <;>
        simp_all [MessageState.isUncertain, MessageState.isCancelled]
    · simp [queued, MessageState.isUncertain] at state
  · rw [← Bool.not_eq_true]
    intro exited
    rcases latching.gone exited with terminal | queued
    · cases current : msg.state <;> simp_all [MessageState.isUncertain, MessageState.isTerminal]
    · simp [queued, MessageState.isUncertain] at state

theorem Latchable.of_cancelled (live : msg.state.isTerminal = false) (now : Instant) :
    (msg.cancelled now).Latchable := by
  have ne : ∀ {reason}, msg.state ≠ .undeliverable reason := by
    intro reason ended
    simp [ended, MessageState.isTerminal] at live
  refine ⟨fun _ => ne, fun ended => absurd ended ne, ?_, ?_⟩
  · rintro (ended | ended)
    · exact absurd ended ne
    · exact absurd ended ne
  · intro _ attempt mem current
    rcases List.mem_map.mp mem with ⟨old, _, rfl⟩
    split
    · simp only [revoke]
      split
      · exact Or.inr rfl
      · rename_i unmarked
        simp only [Bool.and_eq_true, Bool.not_eq_true', not_and_or, Bool.not_eq_false] at unmarked
        exact unmarked
    · rename_i other
      rw [if_neg other] at current
      exact absurd current other

end Delivery

namespace AttemptModel

variable {powers : Powers} {model later : AttemptModel} {told : List Effect}

/-! ## What a model has heard -/

/-- Every record keeps what its actions promised; `told` are the effects drained before. -/
def Heeded (told : List Effect) (model : AttemptModel) : Prop :=
  ∀ id msg, model.messages.get? id = some msg →
    msg.Heeded model.exited id (told ++ model.effects)

theorem Heeded.emit (heeded : model.Heeded told) (effects : List Effect) :
    (model.emit effects).Heeded told := by
  intro id msg found
  refine (heeded _ _ found).mono ?_
  simp only [AttemptModel.emit, ← List.append_assoc]
  exact List.subset_append_left _ _

variable {id : String} {msg : Delivery}

section

variable (heeded : model.Heeded told)

include heeded

theorem Heeded.insert (here : msg.Heeded model.exited id (told ++ model.effects)) :
    { model with messages := model.messages.insert id msg }.Heeded told := by
  intro other record found
  rw [SortedMap.get?_insert] at found
  split at found
  · rename_i same
    cases found
    rw [same]
    exact here
  · exact heeded other record found

theorem Heeded.reclaim (id : String) : (model.reclaim id).Heeded told := by
  have related : SortedMap.Related (fun _ (old new : Delivery) => ∀ other effects,
      old.Heeded model.exited other effects → new.Heeded model.exited other effects)
      model.messages (model.reclaim id).messages :=
    reclaim_related id _ (fun _ _ _ same => same) fun _ _ _ same => same.reclaim
  intro other msg found
  rcases related.left_of_right found with ⟨old, oldFound, kept⟩
  rw [reclaim_exited]
  refine kept other _ ((heeded _ _ oldFound).mono ?_)
  apply List.append_subset.mpr ⟨List.subset_append_left _ _, _⟩
  apply List.subset_append_of_subset_right
  simp only [AttemptModel.reclaim]
  split
  · exact List.Subset.refl _
  · exact List.subset_append_left _ _

omit heeded in
theorem heeded_finalize (running : model.exited = false)
    (others : ∀ {other msg}, other ≠ id → model.messages.get? other = some msg →
      msg.Heeded model.exited other (told ++ model.effects))
    (here : ∀ msg, model.messages.get? id = some msg → msg.Latchable ∧
      msg.Told id (told ++ model.effects) ∧ msg.Acted) (now : Instant) :
    (model.finalize now id).Heeded told := by
  rcases finalize_cases model now id with ⟨same, exited | absent⟩ | ⟨msg, _, found, same⟩
  · simp [running] at exited
  · rw [same]
    intro other msg found
    apply others _ found
    rintro rfl
    simp [absent] at found
  · rw [same]
    rcases here msg found with ⟨latchable, heard, acted⟩
    have judged := latchable.finalized heard acted (reading_reads model now id msg) model.limits
      now (model.reading now id msg).witnessed
    have ruled : (model.ruled now id msg).Heeded told := by
      intro other record isRecord
      simp only [AttemptModel.ruled, AttemptModel.emit, SortedMap.get?_insert] at isRecord ⊢
      rw [← List.append_assoc]
      split at isRecord
      · rename_i isHere
        cases isRecord
        rw [isHere, running]
        exact judged
      · rename_i different
        exact (others different isRecord).mono (List.subset_append_left _ _)
    exact ruled.reclaim id

theorem Heeded.finalize (now : Instant) (id : String) : (model.finalize now id).Heeded told := by
  by_cases running : model.exited = false
  · refine heeded_finalize running (fun _ found => heeded _ _ found) ?_ now
    intro msg found
    exact ⟨(heeded _ _ found).latching.toLatchable, (heeded _ _ found).heard,
      (heeded _ _ found).acted⟩
  · simpa [AttemptModel.finalize, running] using heeded

theorem Heeded.updateAttempt (id : String) (a e : ℕ) {f : Attempt → Attempt}
    (same : ∀ attempt, (f attempt).a = attempt.a ∧ (f attempt).e = attempt.e ∧
      (f attempt).revoked = attempt.revoked)
    (final : ∀ attempt, attempt.stage.isFinal = true → (f attempt).stage.isFinal) :
    (model.updateAttempt id a e f).Heeded told := by
  intro other msg found
  simp only [AttemptModel.updateAttempt, SortedMap.get?_modify] at found
  split at found
  · rcases Option.map_eq_some_iff.mp found with ⟨old, oldFound, rfl⟩
    exact (heeded _ _ oldFound).updateAttempt a e same final
  · exact heeded other msg found

end

theorem Heeded.move (heeded : model.Heeded told) (powerless : powers.acts = false)
    (move : Move powers model later) : later.Heeded told := by
  cases move with
  | edit messages edited =>
    intro id msg found
    rcases edited.left_of_right found with ⟨old, oldFound, edit⟩
    exact (heeded _ _ oldFound).edit powerless edit
  | finalize now id => exact heeded.finalize now id
  | commit _ now id a e effects =>
    refine Heeded.finalize (Heeded.emit ?_ effects) now id
    exact heeded.updateAttempt id a e (fun _ => ⟨rfl, rfl, rfl⟩) fun _ _ => rfl
  | reclaim id => exact heeded.reclaim id
  | rebind _ now id a e rx receiver =>
    have bumped : { model with
        receivers := model.receivers.insert rx { receiver with nextD := receiver.nextD + 1 }
        }.Heeded told := fun id msg found => heeded id msg found
    refine bumped.updateAttempt id a e ?_ ?_
    · intro attempt
      rw [rebind_eq]
      exact ⟨rfl, rfl, rfl⟩
    · intro attempt final
      rw [rebind_eq]
      exact final
  | relink => exact fun id msg found => heeded id msg found
  | clock => exact fun id msg found => heeded id msg found
  | emit effects => exact heeded.emit effects

theorem Heeded.moves (heeded : model.Heeded told) (powerless : powers.acts = false)
    (moves : Moves powers model later) : later.Heeded told := by
  induction moves with
  | refl => exact heeded
  | tail _ move ih => exact ih.move powerless move

/-! ## An action -/

@[simp]
theorem finalize_generation (now : Instant) (id : String) :
    (model.finalize now id).generation = model.generation := by
  rcases finalize_frame model now id with ⟨_, _, _, same⟩
  rw [same]

theorem Move.generation (move : Move powers model later) : later.generation = model.generation := by
  cases move with
  | finalize now id => exact finalize_generation now id
  | commit _ now id a e effects => exact finalize_generation now id
  | reclaim id =>
    rcases reclaim_frame model id with ⟨_, _, _, same⟩
    rw [same]
  | _ => rfl

theorem Moves.generation (moves : Moves powers model later) :
    later.generation = model.generation := by
  induction moves with
  | refl => rfl
  | tail _ move ih => exact move.generation.trans ih

theorem Change.generation {op : Op} (change : Change model op later) :
    later.generation = model.generation := by
  cases change with
  | moves _ moves => exact Moves.generation moves
  | handOut now id => exact finalize_generation now id
  | _ => rfl

/-- Everything a user action has checked when it is applied. -/
structure Takes (model : AttemptModel) (id : String) (generation revision : ℕ) (verb : Verb)
    (msg : Delivery) : Prop where
  generation : generation = model.generation
  record : model.messages.get? id = some msg
  unrepeated : msg.repeated revision verb = none
  current : revision = msg.revision
  live : msg.state.isTerminal = false
  retryable : verb = .retry → msg.retryable = true ∧ msg.issued < model.limits.maxAttempts

theorem action_cases (model : AttemptModel) (now : Instant) (id : String) (generation revision : ℕ)
    (verb : Verb) :
    (∃ msg outcome, generation = model.generation ∧ model.messages.get? id = some msg ∧
      msg.repeated revision verb = some outcome ∧
      model.action now id generation revision verb = (outcome, model)) ∨
    (∃ outcome, (∀ after, outcome ≠ .applied after) ∧
      model.action now id generation revision verb = (outcome, model)) ∨
    ∃ msg, model.Takes id generation revision verb msg ∧
      model.action now id generation revision verb =
        model.applied now id revision verb (msg.acted now id verb).1 (msg.acted now id verb).2 := by
  simp only [action]
  split
  · exact Or.inr (Or.inl ⟨_, by simp, rfl⟩)
  · rename_i sameGeneration
    rw [not_not] at sameGeneration
    split
    · exact Or.inr (Or.inl ⟨_, by simp, rfl⟩)
    · rename_i msg record
      split
      · rename_i outcome repeated
        exact Or.inl ⟨msg, outcome, sameGeneration, record, repeated, rfl⟩
      · rename_i unrepeated
        split
        · exact Or.inr (Or.inl ⟨_, by simp, rfl⟩)
        · rename_i current
          rw [not_not] at current
          split
          · exact Or.inr (Or.inl ⟨_, by simp, rfl⟩)
          · split
            · exact Or.inr (Or.inl ⟨_, by simp, rfl⟩)
            · rename_i live
              rw [Bool.not_eq_true] at live
              split
              · split
                · exact Or.inr (Or.inl ⟨_, by simp, rfl⟩)
                · rename_i retryable
                  split
                  · exact Or.inr (Or.inl ⟨_, by simp, rfl⟩)
                  · rename_i room
                    rw [Bool.not_eq_false] at retryable
                    exact Or.inr (Or.inr ⟨msg, ⟨sameGeneration, record, unrepeated, current, live,
                      fun _ => ⟨retryable, not_le.mp room⟩⟩, rfl⟩)
              · exact Or.inr (Or.inr ⟨msg, ⟨sameGeneration, record, unrepeated, current, live,
                  fun retry => by cases retry⟩, rfl⟩)

variable {generation : ℕ}

theorem Takes.latchable {revision : ℕ} {verb : Verb}
    (takes : model.Takes id generation revision verb msg) (latching : msg.Latching model.exited)
    (now : Instant) : (msg.acted now id verb).1.Latchable := by
  cases verb with
  | retry =>
    have unlatched := (latching.of_retryable (takes.retryable rfl).1).1
    refine Delivery.Latchable.of_live (msg.retried_latch.trans unlatched) ?_
    simp [Delivery.acted, Delivery.retried_state, MessageState.isTerminal]
  | cancel => exact Delivery.Latchable.of_cancelled takes.live now

theorem Takes.latching_exited {revision : ℕ} {verb : Verb}
    (takes : model.Takes id generation revision verb msg) (latching : msg.Latching model.exited)
    (exited : model.exited) (now : Instant) : (msg.acted now id verb).1.Latching true := by
  cases verb with
  | retry =>
    have running := (latching.of_retryable (takes.retryable rfl).1).2
    simp [exited] at running
  | cancel =>
    have queued : msg.state = .queued := by
      rcases latching.gone exited with terminal | queued
      · simp [takes.live] at terminal
      · exact queued
    exact ⟨takes.latchable latching now, fun _ => Or.inr ⟨rfl, queued⟩, fun _ => Or.inr queued⟩

theorem finalize_heeds (model : AttemptModel) (now : Instant) (id : String) :
    SortedMap.Related (fun _ => Delivery.Heeds) model.messages
      (model.finalize now id).messages := by
  apply finalize_related now id Delivery.Heeds.refl Delivery.Heeds.trans
  · intro msg reading
    exact (Delivery.Heeds.rules msg _ now id reading).trans (Delivery.Heeds.noteWitness _ now _)
  · exact fun msg => ⟨rfl, rfl, le_rfl⟩

/-- The model an applied action hands to the finalizer. -/
def changedTo (model : AttemptModel) (id : String) (changed : Delivery) (effects : List Effect) :
    AttemptModel :=
  { model with messages := model.messages.insert id changed }.emit effects

theorem applied_cases (model : AttemptModel) (now : Instant) (id : String) (revision : ℕ)
    (verb : Verb) (changed : Delivery) (effects : List Effect) :
    ∃ after, changed.Heeds after ∧
      ((model.changedTo id changed effects).finalize now id).messages.get? id = some after ∧
      model.applied now id revision verb changed effects =
        (.applied after.revision,
          { (model.changedTo id changed effects).finalize now id with
            messages :=
              ((model.changedTo id changed effects).finalize now id).messages.insert id
                { after with lastAction := some (revision, verb, .applied after.revision) } }) := by
  have inserted : (model.changedTo id changed effects).messages.get? id = some changed := by
    simp [changedTo, AttemptModel.emit]
  rcases (finalize_heeds _ now id).right_of_left inserted with ⟨after, found, heeds⟩
  refine ⟨after, heeds, found, ?_⟩
  simp only [changedTo] at found ⊢
  simp only [applied, found]

theorem Heeded.acted (heeded : model.Heeded told) {revision : ℕ} {verb : Verb}
    (takes : model.Takes id generation revision verb msg) (now : Instant) :
    ((model.changedTo id (msg.acted now id verb).1 (msg.acted now id verb).2).finalize
      now id).Heeded told := by
  have before := heeded _ _ takes.record
  have heard := before.heard.acted now verb
  have acted := before.acted.acted now id verb
  by_cases running : model.exited = false
  · have judges : (model.changedTo id (msg.acted now id verb).1
        (msg.acted now id verb).2).exited = false := running
    refine heeded_finalize judges ?_ ?_ now
    · intro other record different found
      simp only [changedTo, AttemptModel.emit, SortedMap.get?_insert, different] at found ⊢
      rw [← List.append_assoc]
      exact (heeded _ _ found).mono (List.subset_append_left _ _)
    · intro record found
      simp only [changedTo, AttemptModel.emit, SortedMap.get?_insert] at found ⊢
      cases found
      rw [← List.append_assoc]
      exact ⟨takes.latchable before.latching now, heard, acted⟩
  · rw [Bool.not_eq_false] at running
    have unjudged : (model.changedTo id (msg.acted now id verb).1
        (msg.acted now id verb).2).exited = true := running
    simp only [AttemptModel.finalize, unjudged, if_true]
    intro other record found
    simp only [changedTo, AttemptModel.emit, SortedMap.get?_insert] at found ⊢
    rw [← List.append_assoc]
    split at found
    · rename_i here
      cases found
      rw [here, running]
      exact ⟨takes.latching_exited before.latching running now, heard, acted⟩
    · exact (heeded _ _ found).mono (List.subset_append_left _ _)

theorem Heeded.action (heeded : model.Heeded told) (now : Instant) (id : String)
    (generation revision : ℕ) (verb : Verb) :
    (model.action now id generation revision verb).2.Heeded told := by
  rcases action_cases model now id generation revision verb with
    ⟨_, _, _, _, _, same⟩ | ⟨_, _, same⟩ | ⟨msg, takes, same⟩
  · rw [same]
    exact heeded
  · rw [same]
    exact heeded
  · have judged := heeded.acted takes now
    rcases applied_cases model now id revision verb (msg.acted now id verb).1
      (msg.acted now id verb).2 with ⟨after, heeds, found, applied⟩
    rw [same, applied]
    have kept := judged _ _ found
    refine judged.insert ⟨kept.latching.congr rfl rfl rfl rfl, kept.heard, ?_⟩
    intro lastRevision lastVerb outcome last
    cases last
    refine ⟨⟨_, rfl⟩, ?_, ?_⟩
    · calc
        revision = msg.revision := takes.current
        _ < (msg.acted now id verb).1.revision := msg.revision_lt_acted now id verb
        _ ≤ after.revision := heeds.revision
    · intro isCancel
      simp [heeds.latch, Delivery.latch_acted, isCancel]

/-! ## Runs -/

theorem HandsOut.heeded {now : Instant} {rx : Rx} {receiver : Receiver} {kind : IssueKind}
    (hands : model.HandsOut now id rx receiver msg kind) (heeded : model.Heeded told) :
    ((model.handTo now id rx receiver msg kind).finalize now id).Heeded told := by
  have before := heeded _ _ hands.record
  have running : (model.handTo now id rx receiver msg kind).exited = false := hands.running
  refine heeded_finalize running ?_ ?_ now
  · intro other record different found
    simp only [handTo, SortedMap.get?_insert, different] at found
    exact heeded _ _ found
  · intro record found
    simp only [handTo, SortedMap.get?_insert] at found
    cases found
    exact ⟨Delivery.Latchable.of_live hands.unlatched hands.live, before.heard.handOut now rx _ _ _,
      before.acted.heeds ⟨rfl, rfl, le_rfl⟩⟩

theorem Heeded.change (heeded : model.Heeded told) {op : Op} (powerless : op.powers.acts = false)
    (change : Change model op later) : later.Heeded (told ++ Trace.drainedBy model op) := by
  cases change with
  | moves silent moves =>
    intro id msg found
    refine (heeded.moves powerless moves _ _ found).mono ?_
    rw [List.append_assoc]
    exact List.append_subset.mpr ⟨List.subset_append_left _ _,
      List.subset_append_of_subset_right _ (List.subset_append_right _ _)⟩
  | post id offer absent =>
    simpa [Trace.drainedBy] using
      heeded.insert (Delivery.Heeded.new model.exited offer (model.forgottenA + 1))
  | handOut now id rx receiver msg kind hands => simpa [Trace.drainedBy] using hands.heeded heeded
  | forget id msg =>
    intro other record found
    simpa [Trace.drainedBy] using heeded _ _ (SortedMap.get?_of_erase found)
  | drain =>
    intro id msg found
    simpa [Trace.drainedBy] using heeded _ _ found
  | exit =>
    intro id msg found
    simp only [AttemptModel.exit, SortedMap.get?_map] at found
    rcases Option.map_eq_some_iff.mp found with ⟨old, oldFound, rfl⟩
    refine (heeded _ _ oldFound).exit.mono ?_
    simp only [Trace.drainedBy, AttemptModel.exit, List.append_nil, ← List.append_assoc]
    exact List.subset_append_left _ _

/-- The user action a call makes: the record, the revision it names, and its verb. -/
def Op.action : Op → Option (String × ℕ × Verb)
  | .retry _ id _ revision => some (id, revision, .retry)
  | .cancel _ id _ revision => some (id, revision, .cancel)
  | _ => none

theorem Op.acts_of_action {op : Op} (silent : op.action = none) : op.powers.acts = false := by
  cases op with
  | retry => cases silent
  | cancel => cases silent
  | _ => rfl

theorem Heeded.apply (heeded : model.Heeded told) (valid : model.Valid) (op : Op) :
    (model.apply op).Heeded (told ++ Trace.drainedBy model op) := by
  by_cases silent : op.action = none
  · exact heeded.change (Op.acts_of_action silent) (valid.change op)
  · cases op with
    | retry now id generation revision =>
      simp only [Trace.drainedBy, List.append_nil]
      exact heeded.action now id generation revision .retry
    | cancel now id generation revision =>
      simp only [Trace.drainedBy, List.append_nil]
      exact heeded.action now id generation revision .cancel
    | _ => exact absurd rfl silent

end AttemptModel

namespace Trace

theorem heeded_run {trace : Trace} (valid : trace.model.Valid)
    (heeded : trace.model.Heeded trace.drained) (ops : List AttemptModel.Op) :
    (trace.run ops).model.Heeded (trace.run ops).drained := by
  induction ops generalizing trace with
  | nil => exact heeded
  | cons op rest ih => exact ih (valid.apply op) (heeded.apply valid op)

theorem heeded_start_run (limits : Limits) (generation : ℕ) (ops : List AttemptModel.Op) :
    ((Trace.start limits generation).run ops).model.Heeded
      ((Trace.start limits generation).run ops).drained := by
  refine heeded_run (AttemptModel.Valid.new limits generation) ?_ ops
  intro id msg found
  simp [Trace.start, AttemptModel.new] at found

end Trace

end AgentDeck.Attempts
