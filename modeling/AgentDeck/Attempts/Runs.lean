import AgentDeck.Attempts.Operations

/-!
# Runs of the delivery model

`Change` sorts the calls: ordinary moves, `post` of an unknown id, a hand-out, `forget` of a spent
record, `drain_effects` and `exit`. Every change keeps `Valid`, so every state a run from
`AttemptModel.new` reaches is valid.
-/

namespace AgentDeck.Attempts

namespace Delivery

section Exit

variable {limits : Limits} {msg : Delivery}

@[simp]
theorem exited_attempts : msg.exited.attempts = msg.attempts.map exitAttempt := by
  simp only [exited]
  split <;> simp

@[simp]
theorem exited_a : msg.exited.a = msg.a := by
  simp only [exited]
  split <;> simp

theorem exitAttempt_identity (attempt : Attempt) :
    ((exitAttempt attempt).a, (exitAttempt attempt).e, (exitAttempt attempt).kind) =
      (attempt.a, attempt.e, attempt.kind) := by
  simp only [exitAttempt]
  split <;> rfl

theorem exitAttempt_binding (attempt : Attempt) :
    (exitAttempt attempt).binding = attempt.binding := by
  simp only [exitAttempt]
  split <;> rfl

theorem exitAttempt_committed {attempt : Attempt}
    (resuming : attempt.resumePending = true → attempt.stage.isFinal = false) :
    (exitAttempt attempt).stage = .committed ↔ attempt.stage = .committed := by
  simp only [exitAttempt]
  split
  · rename_i ended
    simp only [Bool.or_eq_true, Bool.not_eq_true'] at ended
    have isOpen : attempt.stage.isFinal = false := ended.elim id resuming
    simp [(Stage.ne_of_not_final isOpen).1]
  · rfl

theorem Counted.exited (counted : msg.Counted limits) : msg.exited.Counted limits := by
  have same : msg.exited.identities = msg.identities := by
    simp only [identities, exited_attempts]
    exact map_map_eq exitAttempt_identity
  simp only [Delivery.exited] at same ⊢
  split
  · rename_i terminal
    rw [if_pos terminal] at same
    exact counted.restate ⟨same, rfl, rfl⟩ rfl (Or.inl rfl) rfl (Or.inr (Or.inr rfl))
  · rename_i live
    rw [if_neg live] at same
    refine counted.restate ⟨same, by simp, by simp⟩ (by simp) (Or.inl (by simp)) (by simp)
      (Or.inr (Or.inl (by simp [MessageState.isTerminal])))

theorem hasCommit_exited (staging : msg.Staging) : msg.exited.HasCommit ↔ msg.HasCommit := by
  simp only [HasCommit, exited_attempts, exited_a]
  constructor
  · rintro ⟨attempt, mem, current, stage⟩
    rcases List.mem_map.mp mem with ⟨old, oldMem, rfl⟩
    have sameA : (exitAttempt old).a = old.a := congrArg Binding.a (exitAttempt_binding old)
    refine ⟨old, oldMem, sameA.symm.trans current, ?_⟩
    exact (exitAttempt_committed fun pending => (staging.resuming old oldMem pending).1).mp stage
  · rintro ⟨attempt, mem, current, stage⟩
    have sameA : (exitAttempt attempt).a = attempt.a :=
      congrArg Binding.a (exitAttempt_binding attempt)
    refine ⟨exitAttempt attempt, List.mem_map.mpr ⟨attempt, mem, rfl⟩, sameA.trans current, ?_⟩
    exact (exitAttempt_committed fun pending => (staging.resuming attempt mem pending).1).mpr stage

theorem Staged.exited (staged : msg.Staged) : msg.exited.Staged := by
  have commit := hasCommit_exited staged.toStaging
  have answered : ∀ attempt ∈ msg.exited.attempts, attempt.resumePending = true →
      attempt.stage.isFinal = false ∧ attempt.slot.oneShot = false := by
    intro attempt mem pending
    rw [exited_attempts] at mem
    rcases List.mem_map.mp mem with ⟨old, oldMem, rfl⟩
    simp only [exitAttempt] at pending
    split at pending
    · simp at pending
    · rename_i kept
      simp only [Bool.or_eq_true, not_or] at kept
      exact absurd pending kept.2
  by_cases terminal : msg.state.isTerminal = true
  · have state : msg.exited.state = msg.state := by simp [Delivery.exited, terminal]
    have told : msg.exited.corrected = msg.corrected := by simp [Delivery.exited, terminal]
    have offer : msg.exited.offer = msg.offer := by simp [Delivery.exited, terminal]
    refine ⟨⟨?_, answered⟩, ?_, ?_⟩
    · exact fun settled => commit.mpr (staged.settled (state ▸ settled))
    · intro queued
      rw [state] at queued
      simp [queued, MessageState.isTerminal] at terminal
    · intro committed
      rw [state, told, offer]
      exact staged.committed (commit.mp committed)
  · have state : msg.exited.state = .undeliverable .exited := by simp [Delivery.exited, terminal]
    rw [Bool.not_eq_true] at terminal
    refine ⟨⟨?_, answered⟩, ?_, ?_⟩
    · simp [state]
    · simp [state]
    · exact fun committed => absurd (commit.mp committed) (staged.not_hasCommit terminal)

end Exit

end Delivery

namespace AttemptModel

/-- What a call may do besides the model's own moves. -/
def Op.powers : Op → Powers
  | .tick _ | .tickCleared _ _ | .tickTurn _ _ _ => Powers.clock
  | .withhold _ _ _ _ => Powers.holder
  | .register _ _ _ | .connectionClosed _ _ | .streamClosed _ _ | .snapshot _ _ _ _ _
  | .resumeAnswer _ _ _ _ _ _ => Powers.linker
  | .retry _ _ _ _ | .cancel _ _ _ _ => Powers.user
  | .stage _ _ _ _ _ _ => Powers.reporter
  | _ => Powers.none

/-- The hand-out a call makes. -/
def issuedBy (model : AttemptModel) : Op → Option (String × Issued)
  | .issue now id rx => (model.issue now id rx).1.toOption.map fun issued => (id, issued)
  | _ => none

/-- What one call does: moves of the records, or one of the calls that make or drop them. -/
inductive Change (model : AttemptModel) : Op → AttemptModel → Prop
  | moves {op : Op} {later : AttemptModel} (silent : model.issuedBy op = none)
      (moves : Moves op.powers model later) : Change model op later
  | post (id : String) (offer : Bool) (absent : model.messages.get? id = none) :
      Change model (.post id offer)
        { model with messages := model.messages.insert id (.new offer (model.forgottenA + 1)) }
  | handOut (now : Instant) (id : String) (rx : Rx) (receiver : Receiver) (msg : Delivery)
      (kind : IssueKind) (hands : model.HandsOut now id rx receiver msg kind)
      (told : model.issuedBy (.issue now id rx) =
        some (id, ⟨msg.a, msg.attempts.length + 1, receiver.nextD + 1, kind⟩)) :
      Change model (.issue now id rx)
        ((model.handTo now id rx receiver msg kind).finalize now id)
  | forget (id : String) (msg : Delivery) (record : model.messages.get? id = some msg)
      (ended : msg.state.isTerminal = true)
      (reclaimed : ∀ attempt ∈ msg.attempts, attempt.reclaimed = true) :
      Change model (.forget id)
        { model with
          messages := model.messages.erase id, forgottenA := max model.forgottenA msg.a }
  | drain : Change model .drainEffects { model with effects := [] }
  | exit : Change model .exit model.exit

variable {model later : AttemptModel}

theorem Change.of_post (model : AttemptModel) (id : String) (offer : Bool) :
    Change model (.post id offer) (model.post id offer) := by
  simp only [AttemptModel.post]
  split
  · exact Change.moves rfl Relation.ReflTransGen.refl
  · rename_i absent
    exact Change.post id offer absent

theorem Change.of_issue (model : AttemptModel) (now : Instant) (id : String) (rx : Rx) :
    Change model (.issue now id rx) (model.issue now id rx).2 := by
  rcases issue_cases model now id rx with
    ⟨⟨refusal, refused⟩, moves⟩ | ⟨receiver, msg, kind, hands, handed⟩
  · refine Change.moves ?_ moves
    simp [issuedBy, refused, Except.toOption]
  · rw [handed]
    refine Change.handOut now id rx receiver msg kind hands ?_
    simp [issuedBy, handed, Except.toOption]

theorem Change.of_forget (model : AttemptModel) (id : String) :
    Change model (.forget id) (model.forget id).2 := by
  simp only [AttemptModel.forget]
  split
  · rename_i spent
    simp only [AttemptModel.spent, Option.any_eq_true, Bool.and_eq_true, List.all_eq_true] at spent
    rcases spent with ⟨msg, record, ended, reclaimed⟩
    rw [record]
    exact Change.forget id msg record ended reclaimed
  · exact Change.moves rfl Relation.ReflTransGen.refl

/-- Every call is a change: one case per call. -/
theorem Valid.change (valid : model.Valid) (op : Op) : Change model op (model.apply op) := by
  cases op with
  | post id offer => exact Change.of_post model id offer
  | register now slot queueSurvived =>
    exact Change.moves rfl (valid.register rfl now slot queueSurvived)
  | issue now id rx => exact Change.of_issue model now id rx
  | stage now id a e stage source =>
    exact Change.moves rfl (valid.stage now id a e stage source fun _ => rfl)
  | withhold now id a e => exact Change.moves rfl (moves_withhold rfl model now id a e)
  | released now id a e handedOver =>
    exact Change.moves rfl (valid.released now id a e handedOver)
  | deckNotHanded now id a e rx => exact Change.moves rfl (valid.deckNotHanded now id a e rx)
  | snapshot now rx seq seen held =>
    exact Change.moves rfl (valid.snapshot rfl now rx seq seen held)
  | connectionClosed now rx => exact Change.moves rfl (valid.connectionClosed rfl now rx)
  | streamClosed now rx => exact Change.moves rfl (valid.streamClosed rfl now rx)
  | resumeAnswer now rx id a e answer =>
    exact Change.moves rfl (valid.resumeAnswer rfl now rx id a e answer)
  | turn now view => exact Change.moves rfl (valid.turn now view)
  | tick now => exact Change.moves rfl (valid.tick rfl rfl now)
  | tickCleared now cleared => exact Change.moves rfl (valid.tickCleared rfl rfl now cleared)
  | tickTurn now cleared turn => exact Change.moves rfl (valid.tickTurn rfl rfl now cleared turn)
  | tickVerified verified => exact Change.moves rfl (valid.tickVerified verified)
  | noteTurn now turn => exact Change.moves rfl (moves_noteTurn model now turn)
  | revokesDue now => exact Change.moves rfl (moves_revokesDue model now)
  | finalize now id => exact Change.moves rfl (moves_finalize model now id)
  | expireStaging now => exact Change.moves rfl (valid.expireStaging now)
  | retry now id generation revision =>
    exact Change.moves rfl (moves_action rfl model now id generation revision .retry)
  | cancel now id generation revision =>
    exact Change.moves rfl (moves_action rfl model now id generation revision .cancel)
  | forget id => exact Change.of_forget model id
  | drainEffects => exact Change.drain
  | exit => exact Change.exit

/-! ## The invariant of the reachable states -/

theorem Valid.new (limits : Limits) (generation : ℕ) :
    (AttemptModel.new limits generation).Valid := by
  refine ⟨⟨?_, ?_, ?_, ?_⟩, ⟨?_, ?_, ?_, ?_⟩, ⟨?_, ?_⟩⟩ <;>
    simp [AttemptModel.new, Binds, unreclaimed]

variable {id : String}

section

variable (valid : model.Valid)

include valid

theorem Valid.post (absent : model.messages.get? id = none) (offer : Bool) (a : ℕ) :
    { model with messages := model.messages.insert id (.new offer a) }.Valid := by
  have binds : ∀ {other binding}, { model with
      messages := model.messages.insert id (.new offer a) }.Binds other binding →
        model.Binds other binding := by
    rintro other binding ⟨msg, found, mem⟩
    rw [SortedMap.get?_insert] at found
    split at found
    · cases found
      simp [Delivery.new, Delivery.bindings] at mem
    · exact ⟨msg, found, mem⟩
  refine ⟨?_, ⟨?_, ?_, valid.linked.registered, valid.linked.slotted⟩, ⟨?_, ?_⟩⟩
  · exact valid.recorded.insert id (Delivery.Counted.new _ offer a) (Delivery.Staged.new offer a)
      (by simp [Delivery.new]) (Or.inl rfl)
  · exact fun bound => valid.linked.bound (binds bound)
  · exact fun left right => valid.linked.distinct (binds left) (binds right)
  · have total := SortedMap.total_insert (fun _ msg => Delivery.unreclaimed msg) model.messages id
      (.new offer a)
    have empty : (Delivery.new offer a).unreclaimed = 0 := rfl
    rw [absent, Option.map_none, Option.getD_none] at total
    have reserved := valid.accounted.reserved
    simp only [unreclaimed] at reserved ⊢
    rw [reserved]
    congr 1
    omega
  · exact valid.accounted.affordable

theorem Valid.forget {msg : Delivery} (record : model.messages.get? id = some msg)
    (reclaimed : ∀ attempt ∈ msg.attempts, attempt.reclaimed) (forgottenA : ℕ) :
    { model with messages := model.messages.erase id, forgottenA := forgottenA }.Valid := by
  have binds : ∀ {other binding}, { model with
      messages := model.messages.erase id, forgottenA := forgottenA }.Binds other binding →
        model.Binds other binding := by
    rintro other binding ⟨record, found, mem⟩
    exact ⟨record, SortedMap.get?_of_erase found, mem⟩
  refine ⟨⟨?_, ?_, ?_, ?_⟩, ⟨?_, ?_, valid.linked.registered, valid.linked.slotted⟩, ⟨?_, ?_⟩⟩
  · exact fun found => valid.recorded.counted (SortedMap.get?_of_erase found)
  · exact fun found => valid.recorded.staging (SortedMap.get?_of_erase found)
  · exact fun _ found => valid.recorded.staged (by simp) (SortedMap.get?_of_erase found)
  · exact fun running found => valid.recorded.running running (SortedMap.get?_of_erase found)
  · exact fun bound => valid.linked.bound (binds bound)
  · exact fun left right => valid.linked.distinct (binds left) (binds right)
  · have total := SortedMap.total_erase (fun _ msg => Delivery.unreclaimed msg) model.messages id
    have empty : msg.unreclaimed = 0 := by
      simp only [Delivery.unreclaimed, Delivery.reservations, List.countP_map]
      apply List.countP_eq_zero.mpr
      intro attempt mem
      simp [Attempt.reservation, reclaimed attempt mem]
    rw [record, Option.map_some, Option.getD_some] at total
    have reserved := valid.accounted.reserved
    simp only [unreclaimed] at reserved ⊢
    rw [reserved]
    congr 1
    omega
  · exact valid.accounted.affordable

theorem Valid.exit : model.exit.Valid := by
  have kept : ∀ {id msg}, model.exit.messages.get? id = some msg →
      ∃ old, model.messages.get? id = some old ∧ msg = old.exited := by
    intro id msg found
    simp only [AttemptModel.exit, SortedMap.get?_map] at found
    rcases Option.map_eq_some_iff.mp found with ⟨old, oldFound, rfl⟩
    exact ⟨old, oldFound, rfl⟩
  refine ⟨⟨?_, ?_, ?_, ?_⟩, ?_, ⟨?_, ?_⟩⟩
  · intro id msg found
    rcases kept found with ⟨old, oldFound, rfl⟩
    exact (valid.recorded.counted oldFound).exited
  · intro id msg found
    rcases kept found with ⟨old, oldFound, rfl⟩
    exact (valid.recorded.staged (by simp) oldFound).exited.toStaging
  · intro id msg _ found
    rcases kept found with ⟨old, oldFound, rfl⟩
    exact (valid.recorded.staged (by simp) oldFound).exited
  · intro id msg running
    simp [AttemptModel.exit] at running
  · refine valid.linked.congr (SortedMap.Related.map model.messages ?_) rfl rfl rfl
    intro id msg _
    simp only [Delivery.SameBindings, Delivery.bindings, Delivery.exited_attempts]
    exact Delivery.map_map_eq Delivery.exitAttempt_binding
  · have empty : model.exit.unreclaimed = 0 := by
      simp only [unreclaimed, AttemptModel.exit, SortedMap.total_map]
      have zero : ∀ msg : Delivery, msg.exited.unreclaimed = 0 := by
        simp [Delivery.unreclaimed, Delivery.reservations, Attempt.reservation,
          Delivery.exitAttempt]
      simp [zero, SortedMap.total]
    rw [empty]
    rfl
  · simp [AttemptModel.exit]

/-- A change keeps the model valid. -/
theorem Valid.of_change {op : Op} (change : Change model op later) : later.Valid := by
  cases change with
  | moves _ moves => exact valid.moves moves
  | post id offer absent => exact valid.post absent offer _
  | handOut now id rx receiver msg kind hands => exact hands.valid valid
  | forget id msg record _ reclaimed => exact valid.forget record reclaimed _
  | drain =>
    exact ⟨⟨valid.recorded.counted, valid.recorded.staging, valid.recorded.staged,
      valid.recorded.running⟩, ⟨valid.linked.bound, valid.linked.distinct,
      valid.linked.registered, valid.linked.slotted⟩, ⟨valid.accounted.reserved,
      valid.accounted.affordable⟩⟩
  | exit => exact valid.exit

theorem Valid.apply (op : Op) : (model.apply op).Valid :=
  valid.of_change (valid.change op)

theorem Valid.run (ops : List Op) : (model.run ops).Valid := by
  induction ops generalizing model with
  | nil => exact valid
  | cons op rest ih => exact ih (valid.apply op)

end

theorem valid_run (limits : Limits) (generation : ℕ) (ops : List Op) :
    ((AttemptModel.new limits generation).run ops).Valid :=
  (Valid.new limits generation).run ops

/-! ## What a call leaves of a record -/

/-- A record evolves, and a hand-out may add an attempt at its end. -/
structure Grows (powers : Powers) (old new : Delivery) : Prop where
  attempts : ∃ kept extra, new.attempts = kept ++ extra ∧
    List.Forall₂ (Attempt.Evolves powers new.state.isTerminal) old.attempts kept ∧
    (∀ attempt ∈ extra, attempt.reclaimed = true →
      new.state.isTerminal = true ∧ attempt.Quiescent)
  assignment : old.a ≤ new.a
  terminal : old.state.isTerminal = true → new.state.isTerminal = true ∧ new.a = old.a

theorem Grows.of_evolves {powers : Powers} {old new : Delivery} (evolves : old.Evolves powers new) :
    Grows powers old new :=
  ⟨⟨new.attempts, [], (List.append_nil _).symm, evolves.attempts, by simp⟩, evolves.assignment,
    evolves.terminal⟩

theorem Grows.exists_attempt {powers : Powers} {old new : Delivery} (grows : Grows powers old new)
    {attempt : Attempt} (mem : attempt ∈ old.attempts) : ∃ after ∈ new.attempts,
      attempt.Evolves powers new.state.isTerminal after := by
  rcases grows.attempts with ⟨kept, extra, split, related, _⟩
  rcases Delivery.exists_right_of_forall₂ related mem with ⟨after, afterMem, evolves⟩
  exact ⟨after, split ▸ List.mem_append_left extra afterMem, evolves⟩

section HandTo

variable {now : Instant} {id : String} {rx : Rx} {receiver : Receiver} {msg : Delivery}
  {kind : IssueKind} {powers : Powers}

theorem HandsOut.record_after (_hands : model.HandsOut now id rx receiver msg kind) :
    ∃ after, ((model.handTo now id rx receiver msg kind).finalize now id).messages.get? id =
      some after ∧
      (msg.handOut now rx (receiver.nextD + 1) receiver.slot kind).Evolves powers after := by
  have evolves : (model.handTo now id rx receiver msg kind).Evolves powers _ :=
    Evolves.finalize _ now id
  exact evolves.records.right_of_left (by simp [handTo])

theorem HandsOut.other_after (_hands : model.HandsOut now id rx receiver msg kind) {other : String}
    (different : other ≠ id) {record : Delivery} (found : model.messages.get? other = some record) :
    ∃ after, ((model.handTo now id rx receiver msg kind).finalize now id).messages.get? other =
      some after ∧ record.Evolves powers after := by
  have evolves : (model.handTo now id rx receiver msg kind).Evolves powers _ :=
    Evolves.finalize _ now id
  exact evolves.records.right_of_left (by simp [handTo, different, found])

theorem grows_handOut {after : Delivery} (live : msg.state.isTerminal = false) {d : ℕ} {slot : Slot}
    (powerless : powers.withholds = false)
    (evolves : (msg.handOut now rx d slot kind).Evolves powers after) : Grows powers msg after := by
  refine ⟨?_, evolves.assignment, fun terminal => by simp [live] at terminal⟩
  have rechecked : ∀ ended, List.Forall₂ (Attempt.Evolves powers ended) msg.attempts
      (msg.attempts.map fun attempt => if attempt.a = msg.a then attempt.recheck else attempt) := by
    intro ended
    refine Delivery.forall₂_map fun attempt _ => ?_
    split
    · exact (Touch.recheck : Touch powers msg attempt _).evolves
    · exact Attempt.Evolves.refl powers _ attempt
  have attempts := evolves.attempts
  rcases Delivery.exists_append_of_forall₂ attempts with ⟨kept, extra, split, related, last⟩
  refine ⟨kept, extra, split, ?_, ?_⟩
  · exact Delivery.forall₂_trans (rechecked _) related fun first second => first.trans second id
  · intro attempt mem reclaimed
    rcases Delivery.exists_left_of_forall₂ last mem with ⟨fresh, freshMem, evolved⟩
    rw [List.mem_singleton] at freshMem
    subst freshMem
    rcases evolved.reclaims powerless reclaimed with before | ended
    · cases before
    · exact ended

end HandTo

/-- Until exit a record stays and grows, or is forgotten. -/
theorem Change.grows {op : Op} (change : Change model op later) (notExit : op ≠ .exit)
    {msg : Delivery} (record : model.messages.get? id = some msg) :
    (op = .forget id ∧ later.messages.get? id = none) ∨
      ∃ after, later.messages.get? id = some after ∧ Grows op.powers msg after := by
  cases change with
  | moves _ moves =>
    rcases (Evolves.moves moves).records.right_of_left record with ⟨after, found, evolves⟩
    exact Or.inr ⟨after, found, Grows.of_evolves evolves⟩
  | post other offer absent =>
    have different : id ≠ other := by
      rintro rfl
      simp [absent] at record
    exact Or.inr ⟨msg, by simp [different, record], Grows.of_evolves (Delivery.Evolves.refl _ msg)⟩
  | handOut now other rx receiver handed kind hands =>
    by_cases here : id = other
    · subst here
      have same : msg = handed := Option.some.inj (record.symm.trans hands.record)
      subst same
      rcases hands.record_after with ⟨after, found, evolves⟩
      exact Or.inr ⟨after, found, grows_handOut hands.live rfl evolves⟩
    · rcases hands.other_after here record with ⟨after, found, evolves⟩
      exact Or.inr ⟨after, found, Grows.of_evolves evolves⟩
  | forget other forgotten =>
    by_cases here : id = other
    · subst here
      exact Or.inl ⟨rfl, by simp⟩
    · exact Or.inr ⟨msg, by simp [here, record],
        Grows.of_evolves (Delivery.Evolves.refl _ msg)⟩
  | drain => exact Or.inr ⟨msg, record, Grows.of_evolves (Delivery.Evolves.refl _ msg)⟩
  | exit => exact absurd rfl notExit

/-- A record appears by its post alone. -/
theorem Change.appears {op : Op} (change : Change model op later)
    (absent : model.messages.get? id = none) {after : Delivery}
    (found : later.messages.get? id = some after) :
    ∃ offer, op = .post id offer ∧ after = .new offer (model.forgottenA + 1) := by
  cases change with
  | moves _ moves =>
    rw [(Evolves.moves moves).records.right_none absent] at found
    cases found
  | post other offer _ =>
    rw [SortedMap.get?_insert] at found
    split at found
    · rename_i here
      cases found
      exact ⟨offer, by rw [here], rfl⟩
    · simp [absent] at found
  | handOut now other rx receiver handed kind hands =>
    have different : id ≠ other := by
      rintro rfl
      simp [hands.record] at absent
    have evolves : (model.handTo now other rx receiver handed kind).Evolves Powers.none _ :=
      Evolves.finalize _ now other
    rw [evolves.records.right_none (by simp [handTo, different, absent])] at found
    cases found
  | forget other forgotten =>
    simp [absent] at found
  | drain => simp [absent] at found
  | exit => simp [AttemptModel.exit, absent] at found

end AttemptModel

end AgentDeck.Attempts
