import AgentDeck.Attempts.Cancellation

/-!
# Corrections to the sender

A sender who was told that a message is uncertain, cancelled or undeliverable is owed one
correction when the message commits after all. The finalizer alone corrects, in its first rule,
and the record remembers it; `Abides` says that no other change of the model touches what was
corrected. What the sender was told is history, and the first rule reads the present state of the
record only, so a commit that finds a record no longer uncertain misses its correction.
-/

namespace AgentDeck.Attempts

open AttemptModel (commitStage rebind)

/-- The corrections of `id` among the effects, in their order: whether each came despite a
cancel. -/
def corrections (id : String) (effects : List Effect) : List Bool :=
  effects.filterMap fun
    | .deliveredAfterAll other despiteCancel => if other = id then some despiteCancel else none
    | _ => none

@[simp]
theorem corrections_nil (id : String) : corrections id [] = [] := rfl

@[simp]
theorem corrections_append (id : String) (first second : List Effect) :
    corrections id (first ++ second) = corrections id first ++ corrections id second :=
  List.filterMap_append

theorem corrections_eq_nil {id : String} {effects : List Effect}
    (silent : ∀ despiteCancel, .deliveredAfterAll id despiteCancel ∉ effects) :
    corrections id effects = [] := by
  apply List.filterMap_eq_nil_iff.mpr
  intro effect mem
  cases effect with
  | deliveredAfterAll other despiteCancel =>
    simp only
    split
    · rename_i here
      rw [here] at mem
      exact absurd mem (silent despiteCancel)
    · rfl
  | _ => rfl

theorem Plain.corrections {effects : List Effect} (plain : Plain effects) (id : String) :
    corrections id effects = [] :=
  corrections_eq_nil (plain.uncorrecting id)

namespace Delivery

variable {powers : Powers} {msg changed : Delivery} {id : String}

/-- What the sender of the record was told when it was corrected. -/
def despite (msg : Delivery) : List Bool := if msg.corrected then [msg.latch] else []

theorem hasCommit_iff_of_stages {old new : Delivery} (same : new.stages = old.stages)
    (assignment : new.a = old.a) : new.HasCommit ↔ old.HasCommit :=
  ⟨hasCommit_of_stages same.symm assignment.symm, hasCommit_of_stages same assignment⟩

/-! ## Changes that correct nobody -/

/-- A change that neither commits nor corrects the record. -/
structure Abides (old new : Delivery) : Prop where
  commit : new.HasCommit ↔ old.HasCommit
  corrected : new.corrected = old.corrected
  latch : old.HasCommit → new.latch = old.latch
  capped : old.state = .undeliverable .maxDeliver → new.state = .undeliverable .maxDeliver

theorem Abides.refl (msg : Delivery) : msg.Abides msg := ⟨Iff.rfl, rfl, fun _ => rfl, id⟩

theorem Abides.trans {old middle new : Delivery} (first : old.Abides middle)
    (second : middle.Abides new) : old.Abides new :=
  ⟨second.commit.trans first.commit, second.corrected.trans first.corrected,
    fun commit => (second.latch (first.commit.mpr commit)).trans (first.latch commit),
    fun capped => second.capped (first.capped capped)⟩

theorem Abides.congr (stages : changed.stages = msg.stages) (assignment : changed.a = msg.a)
    (corrected : changed.corrected = msg.corrected) (latch : changed.latch = msg.latch)
    (state : changed.state = msg.state) : msg.Abides changed :=
  ⟨hasCommit_iff_of_stages stages assignment, corrected, fun _ => latch, fun capped =>
    state.trans capped⟩

theorem Abides.touch {attempts : List Attempt}
    (touched : List.Forall₂ (Touch powers msg) msg.attempts attempts) :
    msg.Abides { msg with attempts := attempts } := by
  refine ⟨⟨?_, ?_⟩, rfl, fun _ => rfl, fun capped => capped⟩
  · rintro ⟨new, mem, current, stage⟩
    rcases exists_left_of_forall₂ touched mem with ⟨old, oldMem, touch⟩
    have oldCurrent : old.a = msg.a := touch.a.symm.trans current
    exact ⟨old, oldMem, oldCurrent, touch.commits oldCurrent stage⟩
  · rintro ⟨old, mem, current, stage⟩
    rcases exists_right_of_forall₂ touched mem with ⟨new, newMem, touch⟩
    exact ⟨new, newMem, touch.a.trans current, touch.committed stage⟩

theorem Abides.edit (staged : msg.Staged) (edit : Edit powers msg changed) :
    msg.Abides changed := by
  cases edit with
  | touch attempts touched => exact Abides.touch touched
  | dropToken | heldLong | notStarted | lastAction => exact Abides.congr rfl rfl rfl rfl rfl
  | retried _ live =>
    refine ⟨hasCommit_iff_of_stages ?_ ?_, ?_, ?_, ?_⟩
    · simp only [stages, retried_attempts]
    · simp only [retried]
      split <;> simp
    · simp only [retried]
      split <;> simp
    · exact fun _ => msg.retried_latch
    · intro capped
      simp [capped, MessageState.isTerminal] at live
  | cancelled _ live now =>
    refine ⟨hasCommit_iff_of_stages ?_ rfl, rfl, ?_, fun capped => capped⟩
    · apply map_map_eq
      intro attempt
      split
      · exact revoke_stages now attempt
      · rfl
    · exact fun commit => absurd commit (staged.not_hasCommit live)

theorem Abides.reclaim (msg : Delivery) :
    msg.Abides { msg with attempts := msg.attempts.map msg.reclaimAttempt } := by
  refine Abides.congr ?_ rfl rfl rfl rfl
  exact map_map_eq (reclaimAttempt_stages msg)

theorem noteWitness_corrected (msg : Delivery) (now : Instant) (witnessed : Bool) :
    (msg.noteWitness now witnessed).corrected = msg.corrected := by
  simp only [Delivery.noteWitness]
  split
  · split <;> rfl
  · rfl

theorem Abides.noteWitness (msg : Delivery) (now : Instant) (witnessed : Bool) :
    msg.Abides (msg.noteWitness now witnessed) := by
  refine Abides.congr ?_ ?_ (msg.noteWitness_corrected now witnessed) ?_ ?_ <;> simp [stages]

theorem mem_updateFirst_of_find? {p : Attempt → Bool} {f : Attempt → Attempt}
    {attempts : List Attempt} {attempt : Attempt} (found : attempts.find? p = some attempt) :
    f attempt ∈ updateFirst p f attempts := by
  induction attempts with
  | nil => simp at found
  | cons head rest ih =>
    simp only [updateFirst]
    split
    · rename_i matched
      simp only [List.find?_cons, matched, Option.some.injEq] at found
      rw [found]
      exact List.mem_cons_self
    · rename_i unmatched
      simp only [List.find?_cons, unmatched] at found
      exact List.mem_cons_of_mem head (ih found)

theorem hasCommit_commit {a e : ℕ} {attempt : Attempt} (lookup : msg.attempt a e = some attempt)
    (current : a = msg.a) : (msg.updateAttempt a e commitStage).HasCommit := by
  have isFound := List.find?_some lookup
  simp only [Bool.and_eq_true, decide_eq_true_eq] at isFound
  exact ⟨commitStage attempt, mem_updateFirst_of_find? lookup, isFound.1.trans current, rfl⟩

/-! ## The finalizer's corrections -/

/-- The first rule has judged the commit of the record, if there is one. -/
def Judged (msg : Delivery) : Prop :=
  msg.HasCommit → msg.state = .settled ∨
    (msg.corrected = true ∧ (msg.state = .undeliverable .cancelled ∨
      (msg.offer = true ∧ msg.state = .undeliverable .maxDeliver)))

theorem Judged.ruleCommitted (judged : msg.Judged) (commit : msg.HasCommit) (now : Instant)
    (id : String) : msg.ruleCommitted now id = (msg, []) := by
  rcases judged commit with settled | ⟨corrected, cancelled | ⟨offer, capped⟩⟩
  · simp [Delivery.ruleCommitted, settled, MessageState.isTerminal]
  · simp [Delivery.ruleCommitted, cancelled, MessageState.isTerminal, correct, corrected]
  · simp [Delivery.ruleCommitted, capped, offer, MessageState.isTerminal, correct, corrected]

theorem ruleCommitted_keeps (msg : Delivery) (now : Instant) (id : String) :
    (msg.ruleCommitted now id).1.stages = msg.stages ∧
      (msg.ruleCommitted now id).1.a = msg.a ∧ (msg.ruleCommitted now id).1.latch = msg.latch := by
  have revoked : (msg.attempts.map (revoke now)).map (fun attempt =>
      (attempt.a, attempt.stage, attempt.resumePending, attempt.slot)) = msg.stages :=
    map_map_eq (revoke_stages now)
  simp only [Delivery.ruleCommitted]
  split
  · simp [correct_fst, stages]
  · split
    · split <;> simp [correct_fst, stages]
    · split
      · rw [correct_fst]
        exact ⟨revoked, by simp, by simp⟩
      · exact ⟨revoked, by simp, by simp⟩

theorem rules_uncommitted {reading : Reading} (uncommitted : reading.committed = false)
    (msg : Delivery) (limits : Limits) (now : Instant) (id : String) :
    (msg.rules limits now id reading).1.corrected = msg.corrected ∧
      ∀ other, corrections other (msg.rules limits now id reading).2 = [] := by
  simp only [rules, uncommitted, Bool.false_eq_true, if_false]
  split
  · exact ⟨rfl, fun _ => rfl⟩
  · split
    · simp only [ruleLatched]
      split
      · refine ⟨by simp, fun other => ?_⟩
        split <;> rfl
      · exact ⟨by simp, fun _ => rfl⟩
    · split
      · exact ⟨by simp, fun _ => rfl⟩
      · split
        · simp only [ruleNotHanded]
          repeat' split
          all_goals exact ⟨by simp, fun _ => rfl⟩
        · split
          · simp only [ruleHeld]
            split <;> simp
          · simp only [ruleLapsed]
            repeat' split
            all_goals simp

theorem Abides.rules {reading : Reading} (judged : msg.Judged)
    (assigned : ∀ attempt ∈ msg.attempts, attempt.a ≤ msg.a) (reads : Reads reading msg)
    (limits : Limits) (now : Instant) (id : String) :
    msg.Abides (msg.rules limits now id reading).1 ∧
      ∀ other, corrections other (msg.rules limits now id reading).2 = [] := by
  by_cases commit : msg.HasCommit
  · simp only [Delivery.rules, reads.committed.mpr commit, judged.ruleCommitted commit now id]
    exact ⟨Abides.refl msg, fun _ => rfl⟩
  · have uncommitted : reading.committed = false := by
      rw [← Bool.not_eq_true]
      exact fun committed => commit (reads.committed.mp committed)
    rcases rules_uncommitted uncommitted msg limits now id with ⟨corrected, silent⟩
    refine ⟨⟨⟨?_, fun committed => absurd committed commit⟩, corrected,
      fun committed => absurd committed commit, ?_⟩, silent⟩
    · rintro ⟨new, mem, current, stage⟩
      rcases rules_frame msg limits now id reading with ⟨attempts, later⟩
      have before : ∃ old ∈ msg.attempts, old.a = new.a ∧ old.stage = new.stage := by
        rcases attempts with same | revoked
        · rw [same] at mem
          exact ⟨new, mem, rfl, rfl⟩
        · rw [revoked] at mem
          rcases List.mem_map.mp mem with ⟨old, oldMem, rfl⟩
          have kept := revoke_stages now old
          simp only [Prod.mk.injEq] at kept
          exact ⟨old, oldMem, kept.1.symm, kept.2.1.symm⟩
      rcases before with ⟨old, oldMem, sameA, sameStage⟩
      have within := assigned old oldMem
      exact ⟨old, oldMem, by omega, sameStage.trans stage⟩
    · intro capped
      simp [Delivery.rules, uncommitted, capped, MessageState.isTerminal]

theorem corrections_rules_other {other : String} (different : other ≠ id) (msg : Delivery)
    (limits : Limits) (now : Instant) (reading : Reading) :
    corrections other (msg.rules limits now id reading).2 = [] := by
  have silent : ∀ (changed : Delivery) despiteCancel,
      corrections other (changed.correct id despiteCancel).2 = [] := by
    intro changed despiteCancel
    simp only [correct]
    split
    · rfl
    · simp [corrections, different.symm]
  by_cases committed : reading.committed = true
  · simp only [Delivery.rules, committed, if_true, Delivery.ruleCommitted]
    split
    · exact silent _ false
    · split
      · split
        · exact silent _ true
        · exact silent _ false
        · rfl
      · split
        · rw [corrections_append, silent, (revokeEffects_plain id msg.attempts).corrections]
          rfl
        · exact (revokeEffects_plain id msg.attempts).corrections other
  · rw [Bool.not_eq_true] at committed
    exact (rules_uncommitted committed msg limits now id).2 other

/-- What the state of the record told its sender, where it is not a delivery. -/
def toldOtherwise (msg : Delivery) : Bool :=
  msg.latch || msg.state.isUncertain || decide (msg.state = .undeliverable .maxDeliver)

theorem Latchable.corrected_ruleCommitted (latchable : msg.Latchable)
    (unsettled : msg.state ≠ .settled) (unexited : msg.state ≠ .undeliverable .exited)
    (now : Instant) (id : String) :
    (msg.ruleCommitted now id).1.corrected = (msg.corrected || msg.toldOtherwise) := by
  simp only [Delivery.ruleCommitted, toldOtherwise]
  split
  · rename_i capped
    simp [correct_fst, capped.1]
  · split
    · rename_i terminal
      split
      · rename_i cancelled
        simp [correct_fst, latchable.cancelled cancelled]
      · rename_i capped
        simp [correct_fst, capped]
      · rename_i notCancelled notCapped
        cases state : msg.state with
        | settled => exact absurd state unsettled
        | undeliverable reason =>
          cases reason with
          | cancelled => exact absurd state notCancelled
          | exited => exact absurd state unexited
          | maxDeliver => exact absurd state notCapped
        | queued | attempting | uncertain | cancelHeld =>
          simp [state, MessageState.isTerminal] at terminal
    · rename_i live
      have uncapped : msg.state ≠ .undeliverable .maxDeliver := by
        intro capped
        simp [capped, MessageState.isTerminal] at live
      split
      · rename_i told
        simp [correct_fst, told]
      · rename_i untold
        simp [untold, uncapped]

theorem Latchable.despite_ruleCommitted (latchable : msg.Latchable) (now : Instant) (id : String) :
    (msg.ruleCommitted now id).1.despite =
      msg.despite ++ corrections id (msg.ruleCommitted now id).2 := by
  have corrects : ∀ (changed : Delivery) (despiteCancel : Bool),
      changed.corrected = msg.corrected → changed.latch = msg.latch → despiteCancel = msg.latch →
      (changed.correct id despiteCancel).1.despite =
        msg.despite ++ corrections id (changed.correct id despiteCancel).2 := by
    intro changed despiteCancel corrected latch isLatch
    cases already : msg.corrected with
    | true =>
      simp [correct, despite, corrected, already, latch]
    | false =>
      simp [correct, despite, corrected, already, latch, corrections, isLatch]
  simp only [Delivery.ruleCommitted]
  split
  · rename_i capped
    apply corrects _ _ (by simp) (by simp)
    symm
    rw [← Bool.not_eq_true]
    exact fun latched => latchable.capped latched capped.1
  · split
    · split
      · rename_i cancelled
        exact corrects msg true rfl rfl (latchable.cancelled cancelled).symm
      · rename_i capped
        apply corrects msg false rfl rfl
        symm
        rw [← Bool.not_eq_true]
        exact fun latched => latchable.capped latched capped
      · simp
    · have revokes := (revokeEffects_plain id msg.attempts).corrections id
      split
      · rw [corrections_append, revokes]
        exact corrects _ msg.latch (by simp) (by simp) rfl
      · rw [revokes]
        simp [despite]

end Delivery

namespace AttemptModel

variable {powers : Powers} {model later : AttemptModel} {told : List Effect} {id : String}

/-- A change of the model that neither commits nor corrects the record `id`. -/
structure Abides (id : String) (model later : AttemptModel) : Prop where
  effects : ∃ extra, later.effects = model.effects ++ extra ∧ corrections id extra = []
  record : ∀ msg, model.messages.get? id = some msg →
    ∃ after, later.messages.get? id = some after ∧ msg.Abides after

theorem Abides.refl (id : String) (model : AttemptModel) : Abides id model model :=
  ⟨⟨[], by simp, rfl⟩, fun msg record => ⟨msg, record, Delivery.Abides.refl msg⟩⟩

theorem Abides.trans {middle : AttemptModel} (first : Abides id model middle)
    (second : Abides id middle later) : Abides id model later := by
  rcases first.effects with ⟨firstExtra, firstEffects, firstSilent⟩
  rcases second.effects with ⟨secondExtra, secondEffects, secondSilent⟩
  constructor
  · refine ⟨firstExtra ++ secondExtra, ?_, by simp [firstSilent, secondSilent]⟩
    rw [secondEffects, firstEffects, List.append_assoc]
  · intro msg record
    rcases first.record msg record with ⟨middle, isMiddle, firstAbides⟩
    rcases second.record middle isMiddle with ⟨after, isAfter, secondAbides⟩
    exact ⟨after, isAfter, firstAbides.trans secondAbides⟩

theorem Abides.of_related (effects : later.effects = model.effects)
    (related : SortedMap.Related (fun _ => Delivery.Abides) model.messages later.messages) :
    Abides id model later :=
  ⟨⟨[], by simp [effects], rfl⟩, fun _ record => related.right_of_left record⟩

theorem Abides.emit (model : AttemptModel) {effects : List Effect} (plain : Plain effects) :
    Abides id model (model.emit effects) :=
  ⟨⟨effects, rfl, plain.corrections id⟩,
    fun msg record => ⟨msg, record, Delivery.Abides.refl msg⟩⟩

theorem Abides.reclaim (model : AttemptModel) (other : String) :
    Abides id model (model.reclaim other) := by
  constructor
  · simp only [AttemptModel.reclaim]
    split
    · exact ⟨[], by simp, rfl⟩
    · refine ⟨_, rfl, corrections_eq_nil ?_⟩
      simp
  · intro msg record
    exact (reclaim_related other _ Delivery.Abides.refl Delivery.Abides.reclaim).right_of_left
      record

theorem Abides.finalize (model : AttemptModel) (now : Instant) (other : String)
    (judged : ∀ msg, model.messages.get? other = some msg → msg.Judged ∧
      ∀ attempt ∈ msg.attempts, attempt.a ≤ msg.a) :
    Abides id model (model.finalize now other) := by
  rcases finalize_cases model now other with ⟨same, _⟩ | ⟨msg, _, found, same⟩
  · rw [same]
    exact Abides.refl id model
  · rw [same]
    refine Abides.trans ?_ (Abides.reclaim _ other)
    rcases judged msg found with ⟨isJudged, assigned⟩
    rcases Delivery.Abides.rules isJudged assigned (reading_reads model now other msg) model.limits
      now other with ⟨abides, silent⟩
    refine ⟨⟨_, rfl, silent id⟩, ?_⟩
    intro record isRecord
    have inserted : SortedMap.Related (fun _ => Delivery.Abides) model.messages
        (model.ruled now other msg).messages :=
      SortedMap.Related.insert (fun _ => Delivery.Abides.refl) model.messages found
        (abides.trans (Delivery.Abides.noteWitness _ now _))
    exact inserted.right_of_left isRecord

variable {other : String}

theorem Abides.finalize_other (different : other ≠ id) (model : AttemptModel) (now : Instant) :
    Abides id model (model.finalize now other) := by
  rcases finalize_cases model now other with ⟨same, _⟩ | ⟨msg, _, found, same⟩
  · rw [same]
    exact Abides.refl id model
  · rw [same]
    refine Abides.trans ?_ (Abides.reclaim _ other)
    refine ⟨⟨_, rfl, Delivery.corrections_rules_other different.symm msg _ now _⟩, ?_⟩
    intro record isRecord
    refine ⟨record, ?_, Delivery.Abides.refl record⟩
    simp [ruled, AttemptModel.emit, different.symm, isRecord]

variable {msg : Delivery}

theorem Valid.judged (valid : model.Valid) (record : model.messages.get? other = some msg) :
    msg.Judged ∧
      ∀ attempt ∈ msg.attempts, attempt.a ≤ msg.a :=
  ⟨(valid.recorded.staged (by simp) record).committed,
    (valid.recorded.counted record).assigned_attempts⟩

theorem Valid.abides_move (valid : model.Valid) (powerless : powers.commits = false)
    (move : Move powers model later) : Abides id model later := by
  have same : SortedMap.Related (fun _ => Delivery.Abides) model.messages model.messages :=
    SortedMap.Related.refl (fun _ => Delivery.Abides.refl) model.messages
  cases move with
  | edit messages edited =>
    refine Abides.of_related rfl (edited.imp ?_)
    intro other old new found edit
    exact Delivery.Abides.edit (valid.recorded.staged (by simp) found) edit
  | finalize now other => exact Abides.finalize model now other fun _ found => valid.judged found
  | commit allowed => simp [powerless] at allowed
  | reclaim other => exact Abides.reclaim model other
  | rebind _ now other a e rx receiver =>
    refine Abides.of_related rfl
      (SortedMap.Related.modify (fun _ => Delivery.Abides.refl) _ other ?_)
    intro msg _
    exact ⟨msg.hasCommit_rebind a e rx _ now, rfl, fun _ => rfl, fun capped => capped⟩
  | relink => exact Abides.of_related rfl same
  | clock => exact Abides.of_related rfl same
  | emit effects plain => exact Abides.emit model plain

theorem Valid.abides_moves (valid : model.Valid) (powerless : powers.commits = false)
    (moves : Moves powers model later) : Abides id model later := by
  induction moves with
  | refl => exact Abides.refl id model
  | tail before move ih => exact ih.trans ((valid.moves before).abides_move powerless move)

variable {now : Instant}

theorem HandsOut.abides (valid : model.Valid) {rx : Rx} {receiver : Receiver} {kind : IssueKind}
    (hands : model.HandsOut now other rx receiver msg kind) :
    Abides id model ((model.handTo now other rx receiver msg kind).finalize now other) := by
  have uncommitted : ¬msg.HasCommit :=
    (valid.recorded.staged (by simp) hands.record).not_hasCommit hands.live
  have stillUncommitted :
      ¬(msg.handOut now rx (receiver.nextD + 1) receiver.slot kind).HasCommit := by
    rintro ⟨attempt, mem, current, stage⟩
    rcases List.mem_append.mp mem with earlier | last
    · rcases List.mem_map.mp earlier with ⟨old, oldMem, rfl⟩
      apply uncommitted
      split at stage <;> split at current
      · exact ⟨old, oldMem, current, stage⟩
      · contradiction
      · contradiction
      · exact ⟨old, oldMem, current, stage⟩
    · rw [List.mem_singleton] at last
      subst last
      cases stage
  have handed : Abides id model (model.handTo now other rx receiver msg kind) := by
    refine Abides.of_related rfl (SortedMap.Related.insert (fun _ => Delivery.Abides.refl)
      model.messages hands.record ?_)
    exact ⟨⟨fun commit => absurd commit stillUncommitted, fun commit => absurd commit uncommitted⟩,
      rfl, fun _ => rfl, fun capped => capped⟩
  refine handed.trans (Abides.finalize _ now other ?_)
  intro record found
  have counted := (hands.recorded valid.recorded).counted found
  simp only [handTo, SortedMap.get?_insert] at found
  cases found
  exact ⟨fun commit => absurd commit stillUncommitted, counted.assigned_attempts⟩

/-- The record whose current assignment a call commits. -/
def committedBy (model : AttemptModel) : Op → Option String
  | .stage _ id a e stage _ => if model.commits id a e stage then some id else none
  | _ => none

theorem stage_cases (running : model.exited = false) {a e : ℕ} {stage : Stage} (source : Option Rx)
    (commits : model.commits other a e stage) :
    ∃ msg attempt, model.messages.get? other = some msg ∧ msg.attempt a e = some attempt ∧
      a = msg.a ∧
      ((attempt.stage = .committed ∧ (model.stage now other a e stage source).2 = model) ∨
      ∃ violation, Plain violation ∧ (model.stage now other a e stage source).2 =
        ((model.updateAttempt other a e commitStage).emit violation).finalize now other) := by
  simp only [AttemptModel.commits, Bool.and_eq_true, decide_eq_true_eq,
    Option.any_eq_true] at commits
  rcases commits with ⟨rfl, msg, record, current, isAttempt⟩
  rcases Option.isSome_iff_exists.mp isAttempt with ⟨attempt, lookup⟩
  refine ⟨msg, attempt, record, lookup, current, ?_⟩
  simp only [AttemptModel.stage, running, record, lookup]
  by_cases already : attempt.stage = .committed
  · exact Or.inl ⟨already, by simp [already]⟩
  · refine Or.inr ⟨if attempt.stage = .notHanded ∨ a ≠ msg.a then
      [Effect.witnessViolation other a e] else [], ?_, by simp [already, current]⟩
    constructor
    · intro _ _ _
      split <;> simp
    · split <;> simp

theorem Abides.stage_other (running : model.exited = false) (different : other ≠ id) {a e : ℕ}
    {stage : Stage} (source : Option Rx) (commits : model.commits other a e stage) :
    Abides id model (model.stage now other a e stage source).2 := by
  rcases stage_cases running source commits with
    ⟨msg, attempt, record, _, _, ⟨_, same⟩ | ⟨violation, plain, same⟩⟩
  · rw [same]
    exact Abides.refl id model
  · rw [same]
    have updated : Abides id model (model.updateAttempt other a e commitStage) := by
      refine ⟨⟨[], by simp [AttemptModel.updateAttempt], rfl⟩, ?_⟩
      intro found isFound
      refine ⟨found, ?_, Delivery.Abides.refl found⟩
      simp [AttemptModel.updateAttempt, different.symm, isFound]
    exact (updated.trans (Abides.emit _ plain)).trans (Abides.finalize_other different _ now)

variable {after : Delivery}

theorem Valid.abides_apply (valid : model.Valid) (told : List Effect)
    (running : model.exited = false) {op : Op} (stays : op ≠ .exit)
    (uncommitting : model.committedBy op ≠ some id) (record : model.messages.get? id = some msg)
    (found : (model.apply op).messages.get? id = some after) :
    corrections id (told ++ Trace.drainedBy model op ++ (model.apply op).effects) =
        corrections id (told ++ model.effects) ∧ msg.Abides after := by
  have of_abides : Trace.drainedBy model op = [] → Abides id model (model.apply op) →
      corrections id (told ++ Trace.drainedBy model op ++ (model.apply op).effects) =
        corrections id (told ++ model.effects) ∧ msg.Abides after := by
    intro undrained abides
    rcases abides.effects with ⟨extra, effects, silent⟩
    rcases abides.record msg record with ⟨same, isSame, recordAbides⟩
    cases Option.some.inj (found.symm.trans isSame)
    refine ⟨?_, recordAbides⟩
    rw [undrained, effects]
    simp [silent]
  by_cases stages : ∃ now other a e stage source, op = .stage now other a e stage source
  · rcases stages with ⟨now, other, a, e, stage, source, rfl⟩
    refine of_abides rfl ?_
    by_cases commits : model.commits other a e stage = true
    · simp only [committedBy, commits] at uncommitting
      exact Abides.stage_other running (fun same => uncommitting (congrArg some same))
        source commits
    · have moves : Moves Powers.none model (model.stage now other a e stage source).2 :=
        valid.stage now other a e stage source fun committing => absurd committing commits
      exact valid.abides_moves rfl moves
  · have powerless : op.powers.commits = false := by
      cases op with
      | stage now other a e stage source =>
        exact absurd ⟨now, other, a, e, stage, source, rfl⟩ stages
      | _ => rfl
    by_cases drains : op = .drainEffects
    · subst drains
      cases Option.some.inj (record.symm.trans found)
      exact ⟨by simp [Trace.drainedBy, AttemptModel.apply, drainEffects], Delivery.Abides.refl msg⟩
    have undrained : Trace.drainedBy model op = [] := by
      cases op with
      | drainEffects => exact absurd rfl drains
      | _ => rfl
    refine of_abides undrained ?_
    have change := valid.change op
    generalize model.apply op = later at change found
    cases change with
    | moves _ moves => exact valid.abides_moves powerless moves
    | post other offer absent =>
      refine ⟨⟨[], by simp, rfl⟩, ?_⟩
      intro same isSame
      refine ⟨same, ?_, Delivery.Abides.refl same⟩
      have different : id ≠ other := by
        rintro rfl
        simp [absent] at record
      simp [different, isSame]
    | handOut now other rx receiver handed kind hands => exact hands.abides valid
    | forget other forgotten isForgotten =>
      have different : id ≠ other := by
        rintro rfl
        simp at found
      refine ⟨⟨[], by simp, rfl⟩, ?_⟩
      intro same isSame
      exact ⟨same, by simp [different, isSame], Delivery.Abides.refl same⟩
    | drain => exact absurd rfl drains
    | exit => exact absurd rfl stays

theorem finalize_committed (running : model.exited = false) (now : Instant)
    (record : model.messages.get? id = some msg) (commit : msg.HasCommit)
    (found : (model.finalize now id).messages.get? id = some after) :
    (∃ extra, (model.finalize now id).effects = model.effects ++ extra ∧
      corrections id extra = corrections id (msg.ruleCommitted now id).2) ∧
    (msg.ruleCommitted now id).1.Abides after := by
  rcases finalize_cases model now id with ⟨_, exited | absent⟩ | ⟨other, _, isOther, finalized⟩
  · simp [running] at exited
  · simp [record] at absent
  · cases Option.some.inj (record.symm.trans isOther)
    have committed : (model.reading now id msg).committed :=
      (reading_reads model now id msg).committed.mpr commit
    have ruling : msg.rules model.limits now id (model.reading now id msg) =
        msg.ruleCommitted now id := by
      simp [Delivery.rules, committed]
    rw [finalized] at found ⊢
    have reclaimed : Abides id (model.ruled now id msg) ((model.ruled now id msg).reclaim id) :=
      Abides.reclaim _ id
    rcases reclaimed.effects with ⟨extra, effects, silent⟩
    have isRuled : (model.ruled now id msg).messages.get? id =
        some ((msg.ruleCommitted now id).1.noteWitness now
          (model.reading now id msg).witnessed) := by
      simp [ruled, AttemptModel.emit, ruling]
    rcases reclaimed.record _ isRuled with ⟨same, isSame, abides⟩
    cases Option.some.inj (found.symm.trans isSame)
    refine ⟨⟨(msg.ruleCommitted now id).2 ++ extra, ?_, by simp [silent]⟩,
      (Delivery.Abides.noteWitness _ now _).trans abides⟩
    rw [effects]
    simp [ruled, AttemptModel.emit, ruling]

/-- What a commit leaves of its record: a correction as the state before it says. -/
structure Commits (id : String) (msg after : Delivery) (effects : List Effect) : Prop where
  despite : after.despite = msg.despite ++ corrections id effects
  commit : after.HasCommit
  latch : after.latch = msg.latch
  corrected : ¬msg.HasCommit → after.corrected = (msg.corrected || msg.toldOtherwise)
  repeated : msg.HasCommit → after.corrected = msg.corrected

theorem Valid.commit_record (valid : model.Valid) (heeded : model.Heeded told)
    (running : model.exited = false) {a e : ℕ} {stage : Stage} (source : Option Rx)
    (commits : model.commits id a e stage) (record : model.messages.get? id = some msg)
    (found : (model.stage now id a e stage source).2.messages.get? id = some after) :
    ∃ extra, (model.stage now id a e stage source).2.effects = model.effects ++ extra ∧
      Commits id msg after extra := by
  rcases stage_cases running source commits with
    ⟨same, attempt, isSame, lookup, current, ⟨stage, unchanged⟩ | ⟨violation, plain, committed⟩⟩
  · cases Option.some.inj (record.symm.trans isSame)
    rw [unchanged] at found ⊢
    cases Option.some.inj (record.symm.trans found)
    have commit : msg.HasCommit := by
      have isFound := List.find?_some lookup
      simp only [Bool.and_eq_true, decide_eq_true_eq] at isFound
      exact ⟨attempt, List.mem_of_find?_eq_some lookup, isFound.1.trans current, stage⟩
    exact ⟨[], by simp, by simp, commit, rfl, fun uncommitted => absurd commit uncommitted,
      fun _ => rfl⟩
  · cases Option.some.inj (record.symm.trans isSame)
    have commit := Delivery.hasCommit_commit lookup current
    have latchable := ((heeded _ _ record).updateAttempt (f := commitStage) a e
      (fun _ => ⟨rfl, rfl, rfl⟩) fun _ _ => rfl).latching.toLatchable
    have isRecord : ((model.updateAttempt id a e commitStage).emit violation).messages.get? id =
        some (msg.updateAttempt a e commitStage) := by
      simp [AttemptModel.updateAttempt, AttemptModel.emit, record]
    have stillRunning : ((model.updateAttempt id a e commitStage).emit violation).exited = false :=
      running
    rw [committed] at found ⊢
    rcases finalize_committed stillRunning now isRecord commit found with
      ⟨⟨extra, effects, corrects⟩, abides⟩
    rcases (msg.updateAttempt a e commitStage).ruleCommitted_keeps now id with
      ⟨stages, assignment, latch⟩
    have isCommit := (Delivery.hasCommit_iff_of_stages stages assignment).mpr commit
    refine ⟨violation ++ extra, ?_, ?_, abides.commit.mpr isCommit,
      (abides.latch isCommit).trans latch, ?_, ?_⟩
    · rw [effects]
      simp [AttemptModel.emit, AttemptModel.updateAttempt]
    · rw [corrections_append, plain.corrections, corrects]
      have told := latchable.despite_ruleCommitted now id
      simp only [Delivery.despite, abides.corrected, abides.latch isCommit] at told ⊢
      exact told
    · intro uncommitted
      rw [abides.corrected]
      have staged := valid.recorded.staged (by simp) record
      have unexited : msg.state ≠ .undeliverable .exited := valid.recorded.running running record
      exact latchable.corrected_ruleCommitted (fun settled => uncommitted (staged.settled settled))
        unexited now id
    · intro committedBefore
      have judged : (msg.updateAttempt a e commitStage).Judged :=
        fun _ => (valid.judged record).1 committedBefore
      rw [abides.corrected, judged.ruleCommitted commit now id]
      rfl

end AttemptModel

/-! ## What the sender of a record was told -/

/-- One record of a trace, with what it has been since it was posted. -/
structure Life where
  trace : Trace
  uncertain : Bool
  capped : Bool
  cancelled : Bool

namespace Life

open AttemptModel (Op)

variable {id : String} {life : Life} {op : Op} {base : List Bool}

def record (id : String) (life : Life) : Option Delivery := life.trace.model.messages.get? id

def posted (trace : Trace) (id : String) (offer : Bool) : Life :=
  ⟨trace.step (.post id offer), false, false, false⟩

/-- Whether the call is a cancel of `id` that is answered as applied. -/
def cancels (id : String) (model : AttemptModel) : Op → Bool
  | .cancel now other generation revision =>
    decide (other = id) &&
      match (model.cancel now other generation revision).1 with
      | .applied _ => true
      | _ => false
  | _ => false

def step (id : String) (life : Life) (op : Op) : Life :=
  let trace := life.trace.step op
  { trace := trace
    uncertain := life.uncertain ||
      (trace.model.messages.get? id).any fun msg => msg.state.isUncertain
    capped := life.capped || (trace.model.messages.get? id).any fun msg =>
      decide (msg.state = .undeliverable .maxDeliver)
    cancelled := life.cancelled || cancels id life.trace.model op }

def run (id : String) (life : Life) (ops : List Op) : Life := ops.foldl (step id) life

/-- The call commits a record that was uncertain before, and is live and so no longer. -/
def misses (id : String) (life : Life) (op : Op) : Bool :=
  life.uncertain && decide (life.trace.model.committedBy op = some id) &&
    (life.record id).any fun msg =>
      !msg.latch && !msg.state.isTerminal && !msg.state.isUncertain

/-- The sender of a committed record who was told otherwise has had one correction, and no sender
has more; `base` are the corrections of earlier records of the same id. -/
structure Corrected (id : String) (base : List Bool) (life : Life) : Prop where
  once : ∃ own, corrections id life.trace.emitted = base ++ own ∧ own.length ≤ 1
  corrected : ∀ msg, life.record id = some msg → msg.HasCommit →
    life.uncertain = true ∨ life.cancelled = true ∨ life.capped = true →
      corrections id life.trace.emitted = base ++ [life.cancelled]

/-- What a life tells of its record in any run. -/
structure Tallied (id : String) (base : List Bool) (life : Life) (msg : Delivery) : Prop where
  despite : corrections id life.trace.emitted = base ++ msg.despite
  cancelled : msg.latch = life.cancelled
  commit : msg.corrected = true → msg.HasCommit
  capped : life.capped = true → msg.state = .undeliverable .maxDeliver ∨ msg.HasCommit
  uncertain : msg.state.isUncertain = true → life.uncertain = true

def Settled (life : Life) (msg : Delivery) : Prop :=
  msg.HasCommit → life.uncertain = true ∨ life.cancelled = true ∨ life.capped = true →
    msg.corrected = true

theorem Tallied.corrected {msg : Delivery} (tallied : life.Tallied id base msg)
    (record : life.record id = some msg) (settled : life.Settled msg) : life.Corrected id base := by
  constructor
  · refine ⟨msg.despite, tallied.despite, ?_⟩
    simp only [Delivery.despite]
    split <;> simp
  · intro same isSame commit told
    cases Option.some.inj (record.symm.trans isSame)
    rw [tallied.despite]
    simp [Delivery.despite, settled commit told, tallied.cancelled]

theorem Corrected.settled {msg : Delivery} (corrected : life.Corrected id base)
    (tallied : life.Tallied id base msg) (record : life.record id = some msg) :
    life.Settled msg := by
  intro commit told
  have own := (tallied.despite.symm.trans (corrected.corrected msg record commit told))
  rw [← Bool.not_eq_false]
  intro uncorrected
  simp [Delivery.despite, uncorrected] at own

section Step

variable {msg after : Delivery}

theorem cancelled_step (valid : life.trace.model.Valid)
    (heeded : life.trace.model.Heeded life.trace.drained) (cancelled : msg.latch = life.cancelled)
    (record : life.record id = some msg) (found : (life.step id op).record id = some after) :
    after.latch = (life.step id op).cancelled := by
  simp only [Life.step]
  by_cases cancels : cancels id life.trace.model op = true
  · rw [cancels, Bool.or_true]
    cases op with
    | cancel now other generation revision =>
      simp only [Life.cancels, Bool.and_eq_true, decide_eq_true_eq] at cancels
      rcases cancels with ⟨rfl, isApplied⟩
      have answered : ∃ applied,
          (life.trace.model.cancel now other generation revision).1 = .applied applied := by
        revert isApplied
        cases (life.trace.model.cancel now other generation revision).1 with
        | applied revision => exact fun _ => ⟨revision, rfl⟩
        | _ => intro impossible; cases impossible
      rcases answered with ⟨applied, answered⟩
      rcases (heeded.applied answered).2 with ⟨same, isSame, _, _, latched⟩
      cases Option.some.inj (found.symm.trans isSame)
      exact latched rfl
    | _ => cases cancels
  · rw [Bool.not_eq_true] at cancels
    rw [cancels, Bool.or_false, ← cancelled]
    rcases valid.apply_record op record found with
      heeds | ⟨revision, verb, applied, isAction, answered, marks⟩
    · exact heeds.latch
    · rw [marks.latch]
      cases op with
      | retry => cases isAction; simp
      | cancel now other generation revision =>
        cases isAction
        simp only [AttemptModel.answer, Option.some.injEq] at answered
        simp [Life.cancels, answered] at cancels
      | _ => cases isAction

theorem settled_step (valid : (life.step id op).trace.model.Valid)
    (found : (life.step id op).record id = some after)
    (cancelled : after.latch = (life.step id op).cancelled)
    (corrected : after.HasCommit →
      life.uncertain = true ∨ after.latch = true ∨ life.capped = true → after.corrected) :
    (life.step id op).Settled after := by
  intro commit told
  have staged := valid.recorded.staged (by simp) found
  have ended := valid.terminal_of_commit found commit
  have isRecord : (life.trace.step op).model.messages.get? id = some after := found
  rcases told with uncertain | isCancelled | capped
  · simp only [Life.step, isRecord, Option.any_some, Bool.or_eq_true] at uncertain
    rcases uncertain with before | now
    · exact corrected commit (Or.inl before)
    · cases state : after.state <;>
        simp [state, MessageState.isUncertain, MessageState.isTerminal] at now ended
  · exact corrected commit (Or.inr (Or.inl (cancelled.trans isCancelled)))
  · simp only [Life.step, isRecord, Option.any_some, Bool.or_eq_true, decide_eq_true_eq] at capped
    rcases capped with before | now
    · exact corrected commit (Or.inr (Or.inr before))
    · rcases staged.committed commit with settled | ⟨isCorrected, _⟩
      · simp [now] at settled
      · exact isCorrected

theorem uncertain_step (found : (life.step id op).record id = some after)
    (uncertain : after.state.isUncertain) : (life.step id op).uncertain := by
  have isRecord : (life.trace.step op).model.messages.get? id = some after := found
  simp [Life.step, isRecord, uncertain]

/-- What one call does to the tally, and when it leaves a sender uncorrected. -/
structure Steps (id : String) (base : List Bool) (life : Life) (op : Op) (msg after : Delivery) :
    Prop where
  tallied : (life.step id op).Tallied id base after
  settled : life.Settled msg → life.misses id op = false → (life.step id op).Settled after
  missed : life.misses id op = true → ¬(life.step id op).Settled after

variable (tallied : life.Tallied id base msg)

include tallied

variable (valid : life.trace.model.Valid)

include valid

variable (heeded : life.trace.model.Heeded life.trace.drained)

include heeded

variable (running : life.trace.model.exited = false)

include running

theorem Tallied.steps_abides (stays : op ≠ .exit)
    (uncommitting : life.trace.model.committedBy op ≠ some id) (record : life.record id = some msg)
    (found : (life.step id op).record id = some after) : Steps id base life op msg after := by
  have cancelled := cancelled_step valid heeded tallied.cancelled record found
  rcases valid.abides_apply life.trace.drained running stays uncommitting record found with
    ⟨silent, abides⟩
  have despite : after.despite = msg.despite := by
    cases corrected : msg.corrected with
    | true =>
      simp [Delivery.despite, abides.corrected, abides.latch (tallied.commit corrected)]
    | false => simp [Delivery.despite, abides.corrected, corrected]
  refine ⟨⟨?_, cancelled, ?_, ?_, uncertain_step found⟩, ?_, ?_⟩
  · rw [despite, ← tallied.despite]
    exact silent
  · intro corrected
    exact abides.commit.mpr (tallied.commit (abides.corrected.symm.trans corrected))
  · intro capped
    have isRecord : (life.trace.step op).model.messages.get? id = some after := found
    simp only [Life.step, isRecord, Option.any_some, Bool.or_eq_true, decide_eq_true_eq] at capped
    rcases capped with before | now
    · rcases tallied.capped before with state | commit
      · exact Or.inl (abides.capped state)
      · exact Or.inr (abides.commit.mpr commit)
    · exact Or.inl now
  · intro settled _
    refine settled_step (valid.apply op) found cancelled ?_
    intro commit told
    have before := abides.commit.mp commit
    rw [abides.corrected]
    apply settled before
    rw [← tallied.cancelled, ← abides.latch before]
    exact told
  · intro misses
    simp [Life.misses, uncommitting] at misses

/-- A call that commits the record. -/
theorem Tallied.steps_commits (committing : life.trace.model.committedBy op = some id)
    (record : life.record id = some msg) (found : (life.step id op).record id = some after) :
    Steps id base life op msg after := by
  have cancelled := cancelled_step valid heeded tallied.cancelled record found
  have isStage : ∃ now a e stage source, op = .stage now id a e stage source ∧
      life.trace.model.commits id a e stage = true := by
    cases op with
    | stage now other a e stage source =>
      simp only [AttemptModel.committedBy] at committing
      split at committing
      · rename_i commits
        cases committing
        exact ⟨now, a, e, stage, source, rfl, commits⟩
      · cases committing
    | _ => cases committing
  have grows : ∃ extra, (life.trace.model.apply op).effects =
      life.trace.model.effects ++ extra ∧ AttemptModel.Commits id msg after extra ∧
        Trace.drainedBy life.trace.model op = [] := by
    rcases isStage with ⟨now, a, e, stage, source, rfl, commits⟩
    rcases valid.commit_record heeded running source commits record found with
      ⟨extra, effects, commit⟩
    exact ⟨extra, effects, commit, rfl⟩
  rcases grows with ⟨extra, effects, commit, undrained⟩
  have staged := valid.recorded.staged (by simp) record
  have unexited : msg.state ≠ .undeliverable .exited := valid.recorded.running running record
  refine ⟨⟨?_, cancelled, fun _ => commit.commit, fun _ => Or.inr commit.commit,
    uncertain_step found⟩, ?_, ?_⟩
  · rw [commit.despite, ← List.append_assoc, ← tallied.despite]
    simp [Trace.emitted, Life.step, Trace.step, undrained, effects]
  · intro settled hit
    refine settled_step (valid.apply op) found cancelled ?_
    intro _ told
    rw [commit.latch] at told
    by_cases before : msg.HasCommit
    · rw [commit.repeated before]
      apply settled before
      rw [← tallied.cancelled]
      exact told
    · rw [commit.corrected before, Bool.or_eq_true]
      right
      simp only [Delivery.toldOtherwise, Bool.or_eq_true, decide_eq_true_eq]
      rcases told with uncertain | latched | capped
      · simp only [Life.misses, uncertain, committing, record, decide_true, Bool.true_and,
          Option.any_some, Bool.and_eq_false_imp, Bool.and_eq_true, Bool.not_eq_true'] at hit
        by_contra untold
        simp only [not_or, Bool.not_eq_true] at untold
        rcases untold with ⟨⟨unlatched, certain⟩, uncapped⟩
        have live : msg.state.isTerminal = false := by
          cases state : msg.state with
          | settled => exact absurd (staged.settled state) before
          | undeliverable reason =>
            cases reason with
            | cancelled =>
              have latched := (heeded _ _ record).latching.cancelled state
              simp [unlatched] at latched
            | exited => exact absurd state unexited
            | maxDeliver => exact absurd state uncapped
          | queued | attempting | uncertain | cancelHeld => rfl
        have stillUncertain := hit ⟨unlatched, live⟩
        simp [certain] at stillUncertain
      · exact Or.inl (Or.inl latched)
      · rcases tallied.capped capped with state | commit
        · exact Or.inr state
        · exact absurd commit before
  · intro misses settled
    simp only [Life.misses, record, Option.any_some, Bool.and_eq_true, Bool.not_eq_true'] at misses
    rcases misses with ⟨⟨uncertain, _⟩, ⟨unlatched, live⟩, certain⟩
    have before : ¬msg.HasCommit := staged.not_hasCommit live
    have uncorrected : msg.corrected = false := by
      rw [← Bool.not_eq_true]
      exact fun corrected => before (tallied.commit corrected)
    have uncapped : msg.state ≠ .undeliverable .maxDeliver := by
      intro capped
      simp [capped, MessageState.isTerminal] at live
    have told : (life.step id op).uncertain := by
      simp [Life.step, uncertain]
    have corrected := settled commit.commit (Or.inl told)
    rw [commit.corrected before] at corrected
    simp [uncorrected, Delivery.toldOtherwise, unlatched, certain, uncapped] at corrected

theorem Tallied.steps (stays : op ≠ .exit) (record : life.record id = some msg)
    (found : (life.step id op).record id = some after) : Steps id base life op msg after := by
  by_cases committing : life.trace.model.committedBy op = some id
  · exact tallied.steps_commits valid heeded running committing record found
  · exact tallied.steps_abides valid heeded running stays committing record found

end Step

theorem corrected_run (more : List Op) {life : Life} {msg : Delivery}
    (valid : life.trace.model.Valid) (heeded : life.trace.model.Heeded life.trace.drained)
    (running : life.trace.model.exited = false) (stays : Op.exit ∉ more)
    (tallied : life.Tallied id base msg) (settled : life.Settled msg)
    (record : life.record id = some msg) (retains : AttemptModel.Retains id life.trace.model more) :
    (∀ before after, more = before ++ after → (life.run id before).Corrected id base) ↔
      ∀ before op after, more = before ++ op :: after →
        (life.run id before).misses id op = false := by
  induction more generalizing life msg with
  | nil =>
    constructor
    · intro _ before op after split
      simp at split
    · intro _ before after split
      rw [(List.append_eq_nil_iff.mp split.symm).1]
      exact tallied.corrected record settled
  | cons op rest ih =>
    have next := retains.2.here
    rcases Option.isSome_iff_exists.mp next with ⟨after, found⟩
    rw [List.mem_cons, not_or] at stays
    have notExit : op ≠ .exit := fun isExit => stays.1 isExit.symm
    have steps : Steps id base life op msg after :=
      tallied.steps valid heeded running notExit record found
    have stillRunning : (life.step id op).trace.model.exited = false :=
      ((valid.change op).exited_eq notExit).trans running
    have later := fun settledAfter => @ih (life.step id op) after (valid.apply op)
      (heeded.apply valid op) stillRunning stays.2 steps.tallied settledAfter found retains.2
    constructor
    · intro corrected
      have settledAfter := (corrected [op] rest rfl).settled steps.tallied found
      have hit : life.misses id op = false := by
        rw [← Bool.not_eq_true]
        exact fun misses => steps.missed misses settledAfter
      have fromNext := (later settledAfter).mp fun before after split =>
        corrected (op :: before) after (by rw [split]; rfl)
      intro before other after split
      cases before with
      | nil =>
        cases split
        exact hit
      | cons first before =>
        cases split
        exact fromNext before other after rfl
    · intro hits
      have settledAfter := steps.settled settled (hits [] op rest rfl)
      have fromNext := (later settledAfter).mpr fun before other after split =>
        hits (op :: before) other after (by rw [split]; rfl)
      intro before after split
      cases before with
      | nil => exact tallied.corrected record settled
      | cons first before =>
        cases split
        exact fromNext before after rfl

end Life

/-- In a life without an exit, the sender is corrected exactly once at every moment if and only if
no commit finds the record, uncertain before, live and no longer uncertain. -/
theorem sender_corrected_iff (limits : Limits) (generation : ℕ) (ops more : List AttemptModel.Op)
    (id : String) (offer : Bool)
    (absent : ((Trace.start limits generation).run ops).model.messages.get? id = none)
    (running : AttemptModel.Op.exit ∉ ops ++ more)
    (retains : AttemptModel.Retains id
      (Life.posted ((Trace.start limits generation).run ops) id offer).trace.model more) :
    (∀ before after, more = before ++ after →
      ((Life.posted ((Trace.start limits generation).run ops) id offer).run id before).Corrected id
        (corrections id ((Trace.start limits generation).run ops).emitted)) ↔
    ∀ before op after, more = before ++ op :: after →
      ((Life.posted ((Trace.start limits generation).run ops) id offer).run id before).misses id
        op =
        false := by
  have valid := Trace.valid_run limits generation ops
  have heeded := Trace.heeded_start_run limits generation ops
  rw [List.mem_append, not_or] at running
  have notExited : ((Trace.start limits generation).run ops).model.exited = false := by
    rw [Trace.run_model]
    exact ((AttemptModel.Valid.new limits generation).run_exited ops running.1).trans rfl
  generalize (Trace.start limits generation).run ops = trace at *
  have isPosted : (trace.model.apply (.post id offer)) = { trace.model with
      messages := trace.model.messages.insert id (.new offer (trace.model.forgottenA + 1)) } := by
    simp [AttemptModel.apply, AttemptModel.post, absent]
  have record : (Life.posted trace id offer).record id =
      some (.new offer (trace.model.forgottenA + 1)) := by
    simp [Life.posted, Life.record, Trace.step, isPosted]
  refine Life.corrected_run more (valid.apply (.post id offer))
    (heeded.apply valid (.post id offer)) ?_ running.2 ?_ ?_ record retains
  · exact ((valid.change (.post id offer)).exited_eq (by simp)).trans notExited
  · refine ⟨?_, rfl, ?_, ?_, ?_⟩
    · simp [Life.posted, Trace.step, Trace.emitted, Trace.drainedBy, isPosted, Delivery.despite,
        Delivery.new]
    · simp [Delivery.new]
    · simp [Life.posted]
    · simp [Delivery.new, MessageState.isUncertain]
  · simp [Life.Settled, Delivery.HasCommit, Delivery.new]

/-- A message whose receiver goes silent: its delivery is uncertain in the end. -/
def lapsedLife : List AttemptModel.Op :=
  [.register 0 .pi true, .issue 0 "m" 1, .tick (fromSecs 100), .tick (fromSecs 300)]

/-- A late commit of the uncertain message: its sender has had one correction. -/
theorem sender_corrected_lapsedLife :
    corrections "m" ((Life.posted ((Trace.start Limits.default 1).run []) "m" false).run "m"
      (lapsedLife ++ [AttemptModel.Op.stage (fromSecs 301) "m" 1 1 .committed
        none])).trace.emitted = [false] := by
  have hits : ∀ before op after,
      lapsedLife ++ [AttemptModel.Op.stage (fromSecs 301) "m" 1 1 .committed none] =
        before ++ op :: after →
      ((Life.posted ((Trace.start Limits.default 1).run []) "m" false).run "m" before).misses "m"
        op = false := by
    intro before op after split
    rcases before with _ | ⟨_, _ | ⟨_, _ | ⟨_, _ | ⟨_, _ | ⟨_, before⟩⟩⟩⟩⟩
    · cases split
      decide
    · cases split
      decide
    · cases split
      decide
    · cases split
      decide
    · cases split
      decide
    · have short := congrArg List.length split
      simp only [lapsedLife, List.length_append, List.length_cons, List.length_nil] at short
      omega
  have retains : AttemptModel.Retains "m"
      (Life.posted ((Trace.start Limits.default 1).run []) "m" false).trace.model
      (lapsedLife ++ [AttemptModel.Op.stage (fromSecs 301) "m" 1 1 .committed none]) := by
    simp only [lapsedLife, List.cons_append, List.nil_append, AttemptModel.Retains]
    decide
  have corrected := (sender_corrected_iff Limits.default 1 []
    (lapsedLife ++ [AttemptModel.Op.stage (fromSecs 301) "m" 1 1 .committed none]) "m"
      false (by decide)
    (by simp [lapsedLife]) retains).mpr hits _ [] (List.append_nil _).symm
  have record : ∃ msg, ((Life.posted ((Trace.start Limits.default 1).run []) "m" false).run "m"
      (lapsedLife ++ [AttemptModel.Op.stage (fromSecs 301) "m" 1 1 .committed none])).record "m" =
        some msg ∧
        msg.HasCommit :=
    ⟨_, rfl, _, List.mem_cons_self, by decide, by decide⟩
  rcases record with ⟨msg, record, commit⟩
  exact corrected.corrected msg record commit (Or.inl (by decide))

/-- A retry takes the record out of its uncertainty, and the late commit corrects nobody. -/
theorem retried_commit_uncorrected :
    ∃ msg, ((Life.posted ((Trace.start Limits.default 1).run []) "m" false).run "m"
        (lapsedLife ++ [AttemptModel.Op.retry (fromSecs 301) "m" 1 2,
          .stage (fromSecs 302) "m" 1 1 .committed none])).record "m" = some msg ∧
      msg.HasCommit ∧
      ((Life.posted ((Trace.start Limits.default 1).run []) "m" false).run "m"
        lapsedLife).uncertain = true ∧
      corrections "m" ((Life.posted ((Trace.start Limits.default 1).run []) "m" false).run "m"
        (lapsedLife ++ [AttemptModel.Op.retry (fromSecs 301) "m" 1 2,
          .stage (fromSecs 302) "m" 1 1 .committed none])).trace.emitted = [] := by
  refine ⟨_, rfl, ⟨_, List.mem_cons_self, ?_, ?_⟩, ?_, ?_⟩
  all_goals decide

end AgentDeck.Attempts
