import AgentDeck.Attempts.Actions
import AgentDeck.Attempts.Evidence

/-!
# Cancels are final and actions idempotent

What a run makes of an applied action. The latch of a record is never lifted while the record is
retained, so `Latching` refuses every hand-out and every hand-over from the cancel on. Every other
call keeps the last action of a record, and an applied one leaves its revision behind, so an
action asked again either finds its own answer or a later revision.
-/

namespace AgentDeck.Attempts

namespace AttemptModel

variable {powers : Powers} {model later : AttemptModel} {told : List Effect}

/-! ## What a call does to one record -/

theorem Move.heeds (powerless : powers.acts = false) (move : Move powers model later) :
    SortedMap.Related (fun _ => Delivery.Heeds) model.messages later.messages := by
  have same : SortedMap.Related (fun _ => Delivery.Heeds) model.messages model.messages :=
    SortedMap.Related.refl (fun _ => Delivery.Heeds.refl) model.messages
  cases move with
  | edit messages edited => exact edited.imp fun _ _ _ _ edit => Delivery.Heeds.edit powerless edit
  | finalize now id => exact finalize_heeds model now id
  | commit _ now id a e effects =>
    refine SortedMap.Related.trans (fun _ => Delivery.Heeds.trans) ?_ (finalize_heeds _ now id)
    exact updateAttempt_related _ Delivery.Heeds.refl id a e fun msg _ => ⟨rfl, rfl, le_rfl⟩
  | reclaim id =>
    exact reclaim_related id _ Delivery.Heeds.refl fun msg => ⟨rfl, rfl, le_rfl⟩
  | rebind _ now id a e rx receiver =>
    exact SortedMap.Related.modify (fun _ => Delivery.Heeds.refl) _ id
      fun msg _ => ⟨rfl, rfl, le_rfl⟩
  | relink => exact same
  | clock => exact same
  | emit => exact same

theorem Moves.heeds (powerless : powers.acts = false) (moves : Moves powers model later) :
    SortedMap.Related (fun _ => Delivery.Heeds) model.messages later.messages := by
  induction moves with
  | refl => exact SortedMap.Related.refl (fun _ => Delivery.Heeds.refl) model.messages
  | tail _ move ih =>
    exact SortedMap.Related.trans (fun _ => Delivery.Heeds.trans) ih (move.heeds powerless)

variable {id : String} {msg after : Delivery}

theorem Change.heeds {op : Op} (powerless : op.powers.acts = false) (change : Change model op later)
    (record : model.messages.get? id = some msg) (found : later.messages.get? id = some after) :
    msg.Heeds after := by
  have of_related : SortedMap.Related (fun _ => Delivery.Heeds) model.messages later.messages →
      msg.Heeds after := by
    intro related
    rcases related.left_of_right found with ⟨old, oldFound, heeds⟩
    cases Option.some.inj (record.symm.trans oldFound)
    exact heeds
  cases change with
  | moves _ moves => exact of_related (Moves.heeds powerless moves)
  | post other offer absent =>
    rw [SortedMap.get?_insert] at found
    split at found
    · rename_i here
      rw [here, absent] at record
      cases record
    · cases Option.some.inj (record.symm.trans found)
      exact Delivery.Heeds.refl msg
  | handOut now other rx receiver handed kind hands =>
    refine of_related (SortedMap.Related.trans (fun _ => Delivery.Heeds.trans) ?_
      (finalize_heeds _ now other))
    exact SortedMap.Related.insert (fun _ => Delivery.Heeds.refl) model.messages hands.record
      ⟨rfl, rfl, le_rfl⟩
  | forget other forgotten =>
    cases Option.some.inj (record.symm.trans (SortedMap.get?_of_erase found))
    exact Delivery.Heeds.refl msg
  | drain =>
    cases Option.some.inj (record.symm.trans found)
    exact Delivery.Heeds.refl msg
  | exit =>
    simp only [AttemptModel.exit, SortedMap.get?_map, record] at found
    cases found
    exact Delivery.Heeds.exit msg

structure Marks (revision : ℕ) (verb : Verb) (after : ℕ) (old new : Delivery) : Prop where
  current : revision = old.revision
  left : old.revision < new.revision
  latch : new.latch = (old.latch || decide (verb = .cancel))
  remembered : new.lastAction = some (revision, verb, .applied after)

theorem action_record (model : AttemptModel) (now : Instant) (id : String) (generation revision : ℕ)
    (verb : Verb) {other : String} (record : model.messages.get? other = some msg)
    (found : (model.action now id generation revision verb).2.messages.get? other = some after) :
    msg.Heeds after ∨ (other = id ∧ ∃ applied,
      (model.action now id generation revision verb).1 = .applied applied ∧
        Marks revision verb applied msg after) := by
  have unchanged : (model.action now id generation revision verb).2 = model →
      msg.Heeds after := by
    intro same
    rw [same, record] at found
    cases found
    exact Delivery.Heeds.refl msg
  rcases action_cases model now id generation revision verb with
    ⟨_, _, _, _, _, same⟩ | ⟨_, _, same⟩ | ⟨acting, takes, same⟩
  · exact Or.inl (unchanged (congrArg Prod.snd same))
  · exact Or.inl (unchanged (congrArg Prod.snd same))
  · rcases applied_cases model now id revision verb (acting.acted now id verb).1
      (acting.acted now id verb).2 with ⟨judged, heeds, isJudged, applied⟩
    rw [same, applied, SortedMap.get?_insert] at found
    split at found
    · rename_i here
      cases found
      subst here
      cases Option.some.inj (record.symm.trans takes.record)
      refine Or.inr ⟨rfl, judged.revision, ?_, takes.current, ?_, ?_, rfl⟩
      · rw [same, applied]
      · exact (msg.revision_lt_acted now other verb).trans_le heeds.revision
      · exact heeds.latch.trans (msg.latch_acted now other verb)
    · rename_i different
      have untouched : (model.changedTo id (acting.acted now id verb).1
          (acting.acted now id verb).2).messages.get? other = some msg := by
        simp [changedTo, AttemptModel.emit, different, record]
      rcases (finalize_heeds _ now id).right_of_left untouched with ⟨kept, isKept, keptHeeds⟩
      cases Option.some.inj (found.symm.trans isKept)
      exact Or.inl keptHeeds

def answer (model : AttemptModel) : Op → Option ActionOutcome
  | .retry now id generation revision => some (model.retry now id generation revision).1
  | .cancel now id generation revision => some (model.cancel now id generation revision).1
  | _ => none

theorem Valid.apply_record (valid : model.Valid) (op : Op)
    (record : model.messages.get? id = some msg)
    (found : (model.apply op).messages.get? id = some after) :
    msg.Heeds after ∨ ∃ revision verb applied, op.action = some (id, revision, verb) ∧
      model.answer op = some (.applied applied) ∧ Marks revision verb applied msg after := by
  by_cases silent : op.action = none
  · exact Or.inl ((valid.change op).heeds (Op.acts_of_action silent) record found)
  · cases op with
    | retry now other generation revision =>
      rcases action_record model now other generation revision .retry record found with
        heeds | ⟨rfl, applied, answered, marks⟩
      · exact Or.inl heeds
      · exact Or.inr ⟨revision, .retry, applied, rfl, congrArg some answered, marks⟩
    | cancel now other generation revision =>
      rcases action_record model now other generation revision .cancel record found with
        heeds | ⟨rfl, applied, answered, marks⟩
      · exact Or.inl heeds
      · exact Or.inr ⟨revision, .cancel, applied, rfl, congrArg some answered, marks⟩
    | _ => exact absurd rfl silent

/-! ## What a run does to one record -/

theorem Valid.retains_induction (holds : Delivery → Prop)
    (kept : ∀ {model : AttemptModel}, model.Valid → ∀ op {msg after},
      model.messages.get? id = some msg → (model.apply op).messages.get? id = some after →
        holds msg → holds after) (valid : model.Valid) (ops : List Op)
    (retains : Retains id model ops) (record : model.messages.get? id = some msg)
    (before : holds msg) :
    ∃ after, (model.run ops).messages.get? id = some after ∧ holds after := by
  induction ops generalizing model msg with
  | nil => exact ⟨msg, record, before⟩
  | cons op rest ih =>
    have next := retains.2.here
    rcases Option.isSome_iff_exists.mp next with ⟨after, found⟩
    exact ih (valid.apply op) retains.2 found (kept valid op record found before)

theorem Valid.latch_run (valid : model.Valid) (record : model.messages.get? id = some msg)
    (latched : msg.latch) (ops : List Op) (retains : Retains id model ops) :
    ∃ after, (model.run ops).messages.get? id = some after ∧ after.latch := by
  refine valid.retains_induction (fun msg => msg.latch = true) ?_ ops retains record latched
  intro model valid op msg after record found latched
  rcases valid.apply_record op record found with heeds | ⟨_, _, _, _, _, marks⟩
  · exact heeds.latch.trans latched
  · rw [marks.latch, latched]
    rfl

/-- The record has left `revision` behind, and remembers no other action made there. -/
def Passed (revision : ℕ) (verb : Verb) (outcome : ActionOutcome) (msg : Delivery) : Prop :=
  revision < msg.revision ∧ ∀ lastVerb lastOutcome,
    msg.lastAction = some (revision, lastVerb, lastOutcome) → lastVerb = verb ∧
      lastOutcome = outcome

variable {revision : ℕ} {verb : Verb} {outcome : ActionOutcome}

theorem Valid.passed_run (valid : model.Valid) (record : model.messages.get? id = some msg)
    (passed : Passed revision verb outcome msg) (ops : List Op) (retains : Retains id model ops) :
    ∃ after, (model.run ops).messages.get? id = some after ∧
      Passed revision verb outcome after := by
  refine valid.retains_induction _ ?_ ops retains record passed
  intro model valid op msg after record found passed
  rcases valid.apply_record op record found with heeds | ⟨_, _, _, _, _, marks⟩
  · refine ⟨passed.1.trans_le heeds.revision, ?_⟩
    rw [heeds.lastAction]
    exact passed.2
  · refine ⟨passed.1.trans marks.left, ?_⟩
    intro lastVerb lastOutcome last
    rw [marks.remembered] at last
    cases last
    exact absurd marks.current (ne_of_lt passed.1)

/-- Every action on `id` that is applied along the run repeats the one at `revision`. -/
def StaysLast (id : String) (revision : ℕ) (verb : Verb) (model : AttemptModel) : List Op → Prop
  | [] => True
  | op :: rest =>
    (∀ otherRevision otherVerb applied, op.action = some (id, otherRevision, otherVerb) →
      model.answer op = some (.applied applied) →
        otherRevision = revision ∧ otherVerb = verb) ∧
    StaysLast id revision verb (model.apply op) rest

theorem Valid.last_run (valid : model.Valid) (record : model.messages.get? id = some msg)
    (behind : revision < msg.revision) (last : msg.lastAction = some (revision, verb, outcome))
    (ops : List Op) (retains : Retains id model ops)
    (stays : StaysLast id revision verb model ops) :
    ∃ after, (model.run ops).messages.get? id = some after ∧
      after.lastAction = some (revision, verb, outcome) := by
  induction ops generalizing model msg with
  | nil => exact ⟨msg, record, last⟩
  | cons op rest ih =>
    have next := retains.2.here
    rcases Option.isSome_iff_exists.mp next with ⟨after, found⟩
    rcases valid.apply_record op record found with
      heeds | ⟨otherRevision, otherVerb, applied, isAction, answered, marks⟩
    · exact ih (valid.apply op) found (behind.trans_le heeds.revision)
        (heeds.lastAction.trans last) retains.2 stays.2
    · -- The record has moved past `revision`, so an applied action names a later one.
      have same := (stays.1 _ _ _ isAction answered).1
      have current := marks.current
      omega

theorem run_generation (valid : model.Valid) (ops : List Op) :
    (model.run ops).generation = model.generation := by
  induction ops generalizing model with
  | nil => rfl
  | cons op rest ih => exact (ih (valid.apply op)).trans (valid.change op).generation

theorem moves_user (model : AttemptModel) (now : Instant) (id : String) (generation revision : ℕ)
    (verb : Verb) : Moves Powers.user model (model.action now id generation revision verb).2 :=
  moves_action rfl model now id generation revision verb

theorem action_generation (model : AttemptModel) (now : Instant) (id : String)
    (generation revision : ℕ) (verb : Verb) :
    (model.action now id generation revision verb).2.generation = model.generation := by
  exact Moves.generation (moves_user model now id generation revision verb)

/-! ## What an answer says -/

theorem repeated_iff :
    msg.repeated revision verb = some outcome ↔
      msg.lastAction = some (revision, verb, outcome) := by
  simp only [Delivery.repeated]
  split
  · rename_i lastRevision lastVerb lastOutcome last
    rw [last]
    split
    · rename_i same
      simp [same]
    · rename_i other
      simp only [reduceCtorEq, Option.some.injEq, Prod.mk.injEq, false_iff]
      exact fun same => other ⟨same.1, same.2.1⟩
  · rename_i last
    simp [last]

variable {now : Instant} {generation : ℕ}

theorem Heeded.applied (heeded : model.Heeded told) {applied : ℕ}
    (answered : (model.action now id generation revision verb).1 = .applied applied) :
    generation = model.generation ∧
    ∃ msg, (model.action now id generation revision verb).2.messages.get? id = some msg ∧
      msg.lastAction = some (revision, verb, .applied applied) ∧ revision < msg.revision ∧
      (verb = .cancel → msg.latch = true) := by
  have remembered : ∀ {other : AttemptModel} {msg : Delivery}, other.Heeded told →
      other.messages.get? id = some msg → msg.lastAction = some (revision, verb, .applied applied) →
      revision < msg.revision ∧ (verb = .cancel → msg.latch = true) :=
    fun otherHeeded found last => ((otherHeeded _ _ found).acted _ _ _ last).2
  have after := heeded.action now id generation revision verb
  rcases action_cases model now id generation revision verb with
    ⟨msg, outcome, same, record, repeated, unchanged⟩ | ⟨outcome, unapplied, unchanged⟩ |
    ⟨msg, takes, isApplied⟩
  · rw [unchanged] at answered after ⊢
    subst answered
    have last := repeated_iff.mp repeated
    exact ⟨same, msg, record, last, remembered after record last⟩
  · rw [unchanged] at answered
    exact absurd answered (unapplied applied)
  · rcases applied_cases model now id revision verb (msg.acted now id verb).1
      (msg.acted now id verb).2 with ⟨judged, _, _, same⟩
    rw [isApplied, same] at answered after ⊢
    simp only [ActionOutcome.applied.injEq] at answered
    subst answered
    refine ⟨takes.generation, { judged with
      lastAction := some (revision, verb, .applied judged.revision) }, ?_, rfl, ?_⟩
    · simp
    · exact remembered after (by simp) rfl

theorem action_of_passed {lastVerb : Verb} {applied : ℕ}
    (record : model.messages.get? id = some msg) (passed : Passed revision lastVerb outcome msg)
    (answered : (model.action now id generation revision verb).1 = .applied applied) :
    verb = lastVerb ∧ .applied applied = outcome ∧
      (model.action now id generation revision verb).2 = model := by
  rcases action_cases model now id generation revision verb with
    ⟨same, found, _, isRecord, repeated, unchanged⟩ | ⟨refused, unapplied, unchanged⟩ |
    ⟨same, takes, _⟩
  · cases Option.some.inj (record.symm.trans isRecord)
    rw [unchanged] at answered ⊢
    subst answered
    rcases passed.2 _ _ (repeated_iff.mp repeated) with ⟨sameVerb, sameOutcome⟩
    exact ⟨sameVerb, sameOutcome, rfl⟩
  · rw [unchanged] at answered
    exact absurd answered (unapplied applied)
  · cases Option.some.inj (record.symm.trans takes.record)
    exact absurd takes.current (ne_of_lt passed.1)

theorem action_of_last (record : model.messages.get? id = some msg)
    (last : msg.lastAction = some (revision, verb, outcome)) :
    model.action now id model.generation revision verb = (outcome, model) := by
  simp [action, record, repeated_iff.mpr last]

/-! ## Hand-outs and hand-overs -/

/-- A record that a cancel was applied to is neither handed out nor handed over any more. -/
structure Quelled (model : AttemptModel) (id : String) : Prop where
  issue : ∀ now rx, ∃ refusal, (model.issue now id rx).1 = .error refusal
  mayHandOver : ∀ now a e rx, ∃ refusal, model.mayHandOver now id a e rx = .error refusal
  /-- Nothing judges a cancel made after the exit, so a record posted then stays queued. -/
  state : ∀ msg, model.messages.get? id = some msg → msg.state.isCancelled = true ∨
    (model.exited = true ∧ msg.state = .queued)

theorem mayHandOver_cases {a e : ℕ} {rx : Rx} {grant : Grant}
    (granted : model.mayHandOver now id a e rx = .ok grant) :
    ∃ msg attempt, model.messages.get? id = some msg ∧ msg.attempt a e = some attempt ∧
      attempt.stage.isFinal = false ∧ a = msg.a ∧ msg.latch = false ∧ ¬msg.HasCommit := by
  simp only [mayHandOver] at granted
  split at granted
  · cases granted
  · rename_i msg record
    split at granted
    · cases granted
    · rename_i attempt found
      split at granted
      · cases granted
      · split at granted
        · cases granted
        · rename_i isOpen
          split at granted
          · cases granted
          · rename_i uncommitted
            split at granted
            · cases granted
            · rename_i unrevoked
              rw [Bool.not_eq_true] at isOpen
              simp only [Bool.or_eq_true, decide_eq_true_eq, not_or, not_not,
                Bool.not_eq_true] at unrevoked
              refine ⟨msg, attempt, record, found, isOpen, unrevoked.2, unrevoked.1.2, ?_⟩
              rintro ⟨committed, mem, current, stage⟩
              refine uncommitted (List.any_eq_true.mpr ⟨committed, mem, ?_⟩)
              simp [current, stage, unrevoked.2]

theorem Heeded.quelled (heeded : model.Heeded told) (record : model.messages.get? id = some msg)
    (latched : msg.latch) : model.Quelled id := by
  constructor
  · intro now rx
    have cases : ((∃ refusal, (model.issue now id rx).1 = .error refusal) ∧
        Moves Powers.none model (model.issue now id rx).2) ∨ _ := issue_cases model now id rx
    rcases cases with ⟨refused, _⟩ | ⟨receiver, handed, kind, hands, _⟩
    · exact refused
    · cases Option.some.inj (record.symm.trans hands.record)
      simp [hands.unlatched] at latched
  · intro now a e rx
    cases outcome : model.mayHandOver now id a e rx with
    | error refusal => exact ⟨refusal, rfl⟩
    | ok grant =>
      rcases mayHandOver_cases outcome with ⟨same, _, isRecord, _, _, _, unlatched, _⟩
      cases Option.some.inj (record.symm.trans isRecord)
      simp [unlatched] at latched
  · intro same isRecord
    cases Option.some.inj (record.symm.trans isRecord)
    exact (heeded _ _ record).latching.latched latched

/-- A granted hand-over is of a message that has not ended: every way to end leaves no open
attempt that is not revoked. -/
theorem Heeded.granted (heeded : model.Heeded told) (valid : model.Valid) {a e : ℕ} {rx : Rx}
    {grant : Grant} (granted : model.mayHandOver now id a e rx = .ok grant) :
    ∃ msg attempt, model.messages.get? id = some msg ∧ msg.attempt a e = some attempt ∧
      attempt.stage.isFinal = false ∧ a = msg.a ∧ msg.state.isTerminal = false ∧
      ¬msg.HasCommit ∧ msg.latch = false := by
  rcases mayHandOver_cases granted with
    ⟨msg, attempt, record, found, isOpen, current, unlatched, uncommitted⟩
  refine ⟨msg, attempt, record, found, isOpen, current, ?_, uncommitted, unlatched⟩
  have latching := (heeded _ _ record).latching
  have ended : ¬(msg.state = .undeliverable .maxDeliver ∨ msg.state = .undeliverable .exited) := by
    intro ended
    have isFound := List.find?_some found
    simp only [Bool.and_eq_true, decide_eq_true_eq] at isFound
    have final := latching.ended ended attempt (List.mem_of_find?_eq_some found)
      (isFound.1.trans current)
    simp [isOpen] at final
  cases state : msg.state with
  | settled => exact absurd ((valid.recorded.staged (by simp) record).settled state) uncommitted
  | undeliverable reason =>
    cases reason with
    | cancelled => simp [latching.cancelled state] at unlatched
    | exited => exact absurd (Or.inr state) ended
    | maxDeliver => exact absurd (Or.inl state) ended
  | queued | attempting | uncertain | cancelHeld => rfl

/-! ## Cancels and repeats in every run -/

theorem finalize_effects (model : AttemptModel) (now : Instant) (id : String) :
    model.effects ⊆ (model.finalize now id).effects := by
  rcases finalize_cases model now id with ⟨same, _⟩ | ⟨msg, _, _, same⟩
  · rw [same]
    exact List.Subset.refl _
  · rw [same]
    have ruled : model.effects ⊆ (model.ruled now id msg).effects := List.subset_append_left _ _
    refine List.Subset.trans ruled ?_
    simp only [AttemptModel.reclaim]
    split
    · exact List.Subset.refl _
    · exact List.subset_append_left _ _

theorem Heeded.revokes (heeded : model.Heeded told) {applied : ℕ}
    (answered : (model.cancel now id generation revision).1 = .applied applied)
    (record : model.messages.get? id = some msg) {attempt : Attempt} (mem : attempt ∈ msg.current)
    (isOpen : attempt.stage.isFinal = false) :
    .revoke id attempt.a attempt.e ∈
      told ++ (model.cancel now id generation revision).2.effects := by
  have kept := heeded _ _ record
  have before : attempt.revoked = true → .revoke id attempt.a attempt.e ∈ told ++ model.effects :=
    kept.heard attempt (List.mem_filter.mp mem).1
  simp only [cancel] at answered ⊢
  rcases action_cases model now id generation revision .cancel with
    ⟨same, outcome, _, isRecord, repeated, unchanged⟩ | ⟨outcome, unapplied, unchanged⟩ |
    ⟨same, takes, isApplied⟩
  · -- The cancel was applied before: its latch says that what is open is revoked.
    rw [unchanged]
    cases Option.some.inj (record.symm.trans isRecord)
    have latched := ((kept.acted _ _ _ (repeated_iff.mp repeated)).2.2) rfl
    rcases List.mem_filter.mp mem with ⟨attemptMem, current⟩
    rw [decide_eq_true_eq] at current
    rcases kept.latching.quelled latched attempt attemptMem current with final | revoked
    · simp [isOpen] at final
    · exact before revoked
  · rw [unchanged] at answered
    exact absurd answered (unapplied applied)
  · cases Option.some.inj (record.symm.trans takes.record)
    rcases applied_cases model now id revision .cancel (msg.acted now id .cancel).1
      (msg.acted now id .cancel).2 with ⟨judged, _, _, isJudged⟩
    rw [isApplied, isJudged]
    have within : model.effects ++ Delivery.revokeEffects id msg.current ⊆
        ((model.changedTo id (msg.acted now id .cancel).1
          (msg.acted now id .cancel).2).finalize now id).effects :=
      finalize_effects (model.changedTo id (msg.acted now id .cancel).1
        (msg.acted now id .cancel).2) now id
    cases revoked : attempt.revoked with
    | true =>
      rcases List.mem_append.mp (before revoked) with earlier | pending
      · exact List.mem_append_left _ earlier
      · exact List.mem_append_right _ (within (List.mem_append_left _ pending))
    | false =>
      refine List.mem_append_right _ (within (List.mem_append_right _ ?_))
      exact Delivery.mem_revokeEffects mem isOpen revoked

/-- What the actions on the record `id` promise from the end of `trace` on. -/
structure ActionsFinal (trace : Trace) (id : String) : Prop where
  /-- Until the record is forgotten an applied cancel is final. -/
  cancelled : ∀ now generation revision applied,
    (trace.model.cancel now id generation revision).1 = .applied applied →
    (∀ msg, trace.model.messages.get? id = some msg → ∀ attempt ∈ msg.current,
      attempt.stage.isFinal = false → .revoke id attempt.a attempt.e ∈
        (trace.step (.cancel now id generation revision)).emitted) ∧
    ∀ more, Retains id (trace.model.cancel now id generation revision).2 more →
      ((trace.model.cancel now id generation revision).2.run more).Quelled id
  /-- An action that is not applied changes nothing. -/
  refused : ∀ now generation revision verb,
    (∀ applied, (trace.model.action now id generation revision verb).1 ≠ .applied applied) →
    (trace.model.action now id generation revision verb).2 = trace.model
  /-- At most one action is applied at a revision: a later answer repeats it. -/
  once : ∀ now generation revision verb applied,
    (trace.model.action now id generation revision verb).1 = .applied applied →
    ∀ more, Retains id (trace.model.action now id generation revision verb).2 more →
    ∀ laterNow laterGeneration laterVerb laterApplied,
      (((trace.model.action now id generation revision verb).2.run more).action laterNow id
        laterGeneration revision laterVerb).1 = .applied laterApplied →
      laterVerb = verb ∧ laterApplied = applied ∧
        (((trace.model.action now id generation revision verb).2.run more).action laterNow id
          laterGeneration revision laterVerb).2 =
          (trace.model.action now id generation revision verb).2.run more
  /-- The last applied action answers the same again, and changes nothing. -/
  repeated : ∀ now generation revision verb applied,
    (trace.model.action now id generation revision verb).1 = .applied applied →
    ∀ more, Retains id (trace.model.action now id generation revision verb).2 more →
    StaysLast id revision verb (trace.model.action now id generation revision verb).2 more →
    ∀ laterNow, ((trace.model.action now id generation revision verb).2.run more).action laterNow id
      generation revision verb =
        (.applied applied, (trace.model.action now id generation revision verb).2.run more)
  granted : ∀ now a e rx grant, trace.model.mayHandOver now id a e rx = .ok grant →
    ∃ msg attempt, trace.model.messages.get? id = some msg ∧ msg.attempt a e = some attempt ∧
      attempt.stage.isFinal = false ∧ a = msg.a ∧ msg.state.isTerminal = false ∧
      ¬msg.HasCommit ∧ msg.latch = false

end AttemptModel

open AttemptModel (Op)

/-- Cancels are final and actions are idempotent, in every run. -/
theorem actions_final (limits : Limits) (generation : ℕ) (ops : List Op) (id : String) :
    AttemptModel.ActionsFinal ((Trace.start limits generation).run ops) id := by
  have valid := Trace.valid_run limits generation ops
  have heeded := Trace.heeded_start_run limits generation ops
  generalize (Trace.start limits generation).run ops = trace at valid heeded
  have acted : ∀ now generation revision verb,
      (trace.model.action now id generation revision verb).2.Valid := by
    intro now generation revision verb
    exact valid.moves (AttemptModel.moves_user trace.model now id generation
      revision verb)
  have heedsOn : ∀ {model : AttemptModel}, model.Valid → model.Heeded trace.drained →
      ∀ more, ∃ told, (model.run more).Heeded told := by
    intro model isValid isHeeded more
    have run := @Trace.heeded_run ⟨model, [], trace.drained⟩ isValid isHeeded more
    rw [Trace.run_model] at run
    exact ⟨_, run⟩
  refine ⟨?_, ?_, ?_, ?_, ?_⟩
  · intro now generation revision applied answered
    constructor
    · intro msg record attempt mem isOpen
      simp only [Trace.emitted, Trace.step, Trace.drainedBy, List.append_nil]
      exact heeded.revokes answered record mem isOpen
    · intro more retains
      rcases (heeded.applied answered).2 with ⟨msg, found, _, _, latched⟩
      rcases (acted _ _ _ _).latch_run found (latched rfl) more retains with
        ⟨after, isAfter, stillLatched⟩
      rcases heedsOn (acted _ _ _ _) (heeded.action _ _ _ _ _) more with ⟨told, later⟩
      exact later.quelled isAfter stillLatched
  · intro now generation revision verb unapplied
    rcases AttemptModel.action_cases trace.model now id generation revision verb with
      ⟨_, _, _, _, _, same⟩ | ⟨_, _, same⟩ | ⟨msg, takes, same⟩
    · rw [same]
    · rw [same]
    · rcases AttemptModel.applied_cases trace.model now id revision verb
        (msg.acted now id verb).1 (msg.acted now id verb).2 with ⟨judged, _, _, isJudged⟩
      rw [same, isJudged] at unapplied
      exact absurd rfl (unapplied judged.revision)
  · intro now generation revision verb applied answered more retains laterNow laterGeneration
      laterVerb laterApplied again
    rcases (heeded.applied answered).2 with ⟨msg, found, last, behind, _⟩
    have passed : AttemptModel.Passed revision verb (.applied applied) msg := by
      refine ⟨behind, ?_⟩
      intro lastVerb lastOutcome isLast
      rw [last] at isLast
      cases isLast
      exact ⟨rfl, rfl⟩
    rcases (acted _ _ _ _).passed_run found passed more retains with ⟨after, isAfter, stillPassed⟩
    rcases AttemptModel.action_of_passed isAfter stillPassed again with ⟨sameVerb, same, unchanged⟩
    exact ⟨sameVerb, ActionOutcome.applied.inj same, unchanged⟩
  · intro now generation revision verb applied answered more retains stays laterNow
    rcases heeded.applied answered with ⟨sameGeneration, msg, found, last, behind, _⟩
    rcases (acted _ _ _ _).last_run found behind last more retains stays with
      ⟨after, isAfter, stillLast⟩
    have kept : ((trace.model.action now id generation revision verb).2.run more).generation =
        generation := by
      rw [AttemptModel.run_generation (acted _ _ _ _), sameGeneration]
      exact AttemptModel.action_generation trace.model now id _ revision verb
    have answer := @AttemptModel.action_of_last _ _ _ _ _ _ laterNow isAfter stillLast
    rw [kept] at answer
    exact answer
  · intro now a e rx grant granted
    exact heeded.granted valid granted

/-- A message posted after its generation exited. -/
def postedLateRun : List Op := [.exit, .post "m" false]

/-- A cancel after the exit is applied, and yet its record stays queued. -/
theorem late_cancel_stays_queued :
    (((AttemptModel.new Limits.default 1).run postedLateRun).cancel 0 "m" 1 0).1 = .applied 1 ∧
      ((((AttemptModel.new Limits.default 1).run postedLateRun).cancel 0 "m" 1 0).2.messages.get?
        "m").map Delivery.state = some .queued ∧ MessageState.queued.isCancelled = false := by
  decide

/-- A message whose first attempt is with a pi receiver. -/
def handedOutRun : List Op := [.post "m" false, .register 0 .pi true, .issue 0 "m" 1]

/-- The cancel of `handedOutRun` revokes the open attempt, and ends its hand-overs. -/
theorem actions_final_handedOutRun :
    Effect.revoke "m" 1 1 ∈
      (((Trace.start Limits.default 1).run handedOutRun).step (.cancel 5 "m" 1 1)).emitted ∧
    ∃ refusal,
      (((AttemptModel.new Limits.default 1).run handedOutRun).cancel 5 "m" 1 1).2.mayHandOver
      6 "m" 1 1 1 = .error refusal := by
  have final := actions_final Limits.default 1 handedOutRun "m"
  have answered : (((Trace.start Limits.default 1).run handedOutRun).model.cancel 5 "m" 1 1).1 =
      .applied 3 := by
    decide
  have record : ∃ msg, ((Trace.start Limits.default 1).run handedOutRun).model.messages.get? "m" =
      some msg ∧ ∃ attempt ∈ msg.current, attempt.stage.isFinal = false ∧ attempt.a = 1 ∧
        attempt.e = 1 :=
    ⟨_, rfl, _, List.mem_cons_self, rfl, rfl, rfl⟩
  rcases final.cancelled 5 1 1 3 answered with ⟨revoked, quelled⟩
  rcases record with ⟨msg, record, attempt, mem, isOpen, isA, isE⟩
  refine ⟨?_, ?_⟩
  · have sent := revoked msg record attempt mem isOpen
    rw [isA, isE] at sent
    exact sent
  · have retained : AttemptModel.Retains "m"
        (((Trace.start Limits.default 1).run handedOutRun).model.cancel 5 "m" 1 1).2 [] := by
      simp only [AttemptModel.Retains]
      decide
    have refused := (quelled [] retained).mayHandOver 6 1 1 1
    rw [Trace.run_model] at refused
    exact refused

end AgentDeck.Attempts
