import AgentDeck.Attempts.Runs

/-!
# Hand-outs and commits

A hand-out without a possible-repeat mark never follows an attempt that may have reached the
agent, and a commit ends its message: no later call hands it out or lets an attempt of its
assignment be handed over.
-/

namespace AgentDeck.Attempts

namespace AttemptModel

variable {model later : AttemptModel}

/-! ## Unmarked hand-outs -/

variable {id : String} {msg : Delivery}

theorem HandsOut.queued_of_unmarked {now : Instant} {rx : Rx} {receiver : Receiver}
    {kind : IssueKind} (hands : model.HandsOut now id rx receiver msg kind)
    (unmarked : kind.marked = false) : msg.state = .queued := by
  rcases hands.granted with ⟨token, _, _, rfl⟩ | ⟨_, queued, _⟩
  · cases kind : token.kind with
    | auto => simp [kind, TokenKind.issueKind, IssueKind.marked] at unmarked
    | manual => simp [kind, TokenKind.issueKind, IssueKind.marked] at unmarked
  · exact queued

theorem Valid.not_handed_of_unmarked (valid : model.Valid) {now : Instant} {rx : Rx}
    {issued : Issued} (success : (model.issue now id rx).1 = .ok issued)
    (unmarked : issued.kind.marked = false) (record : model.messages.get? id = some msg) :
    ∀ attempt ∈ msg.current, attempt.stage = .notHanded := by
  have cases : ((∃ refusal, (model.issue now id rx).1 = .error refusal) ∧
      Moves Powers.none model (model.issue now id rx).2) ∨ _ := issue_cases model now id rx
  rcases cases with ⟨⟨refusal, refused⟩, _⟩ | ⟨receiver, handed, kind, hands, told⟩
  · simp [refused] at success
  · rw [told] at success
    cases success
    have same : msg = handed := Option.some.inj (record.symm.trans hands.record)
    subst same
    intro attempt mem
    simp only [Delivery.current, List.mem_filter, decide_eq_true_eq] at mem
    exact (valid.recorded.staged (by simp) record).queued (hands.queued_of_unmarked unmarked)
      attempt mem.1 mem.2

/-- Unmarked hand-outs never duplicate a possibly delivered message. -/
theorem unmarked_issue_never_repeats (limits : Limits) (generation : ℕ) (ops : List Op)
    (now : Instant) (id : String) (rx : Rx) (msg : Delivery) (issued : Issued)
    (record : ((AttemptModel.new limits generation).run ops).messages.get? id = some msg)
    (success : (((AttemptModel.new limits generation).run ops).issue now id rx).1 = .ok issued) :
    (issued.kind = .first ∨ issued.kind = .requeue →
      ∀ attempt ∈ msg.current, attempt.stage = .notHanded) ∧
    ((∃ attempt ∈ msg.current, attempt.stage = .issued ∨ attempt.stage = .handed ∨
        attempt.stage = .handedInert ∨ attempt.stage = .fenced ∨ attempt.stage = .committed) →
      issued.kind = .autoRepeat ∨ issued.kind = .manualRetry) := by
  have valid := valid_run limits generation ops
  have notHanded := fun unmarked => valid.not_handed_of_unmarked success unmarked record
  constructor
  · rintro (first | requeue)
    · exact notHanded (by simp [first, IssueKind.marked])
    · exact notHanded (by simp [requeue, IssueKind.marked])
  · rintro ⟨attempt, mem, stage⟩
    have handed : attempt.stage ≠ .notHanded := by
      rcases stage with stage | stage | stage | stage | stage <;> simp [stage]
    cases kind : issued.kind with
    | first | requeue =>
      exact absurd (notHanded (by simp [kind, IssueKind.marked]) attempt mem) handed
    | autoRepeat => exact Or.inl rfl
    | manualRetry => exact Or.inr rfl

/-- A requeued message: its first attempt was reported as not handed. -/
def requeuedRun : List Op :=
  [.post "m" false, .register 0 .pi true, .issue 0 "m" 1, .stage 1 "m" 1 1 .notHanded (some 1)]

/-- The message of `requeuedRun`, handed out again without a mark. -/
theorem unmarked_issue_of_requeuedRun :
    ∃ msg, ((AttemptModel.new Limits.default 1).run requeuedRun).messages.get? "m" = some msg ∧
      (∀ attempt ∈ msg.current, attempt.stage = .notHanded) ∧ msg.current.length = 1 := by
  have success : (((AttemptModel.new Limits.default 1).run requeuedRun).issue 2 "m" 1).1 =
      .ok ⟨1, 2, 2, .requeue⟩ := by decide
  have record : ∃ msg, ((AttemptModel.new Limits.default 1).run requeuedRun).messages.get? "m" =
      some msg ∧ msg.current.length = 1 := ⟨_, rfl, by decide⟩
  rcases record with ⟨msg, record, length⟩
  exact ⟨msg, record,
    (unmarked_issue_never_repeats Limits.default 1 requeuedRun 2 "m" 1 msg _ record
    success).1 (Or.inr rfl), length⟩

/-! ## Commit dominance -/

theorem Change.committed (valid : model.Valid) {op : Op} (change : Change model op later)
    (record : model.messages.get? id = some msg) {attempt : Attempt} (mem : attempt ∈ msg.attempts)
    (committed : attempt.stage = .committed) :
    (op = .forget id ∧ later.messages.get? id = none) ∨
      ∃ after, later.messages.get? id = some after ∧ ∃ kept ∈ after.attempts,
        kept.a = attempt.a ∧ kept.e = attempt.e ∧ kept.stage = .committed := by
  by_cases isExit : op = .exit
  · subst isExit
    cases change with
    | moves _ moves =>
      rcases (Evolves.moves moves).records.right_of_left record with ⟨after, found, evolves⟩
      rcases Delivery.exists_right_of_forall₂ evolves.attempts mem with ⟨kept, keptMem, evolved⟩
      exact Or.inr ⟨after, found, kept, keptMem, evolved.a, evolved.e,
        evolved.committed committed⟩
    | exit =>
      have binding := Delivery.exitAttempt_binding attempt
      refine Or.inr ⟨msg.exited, by simp [AttemptModel.exit, record],
        Delivery.exitAttempt attempt, ?_, congrArg Binding.a binding, congrArg Binding.e binding,
        ?_⟩
      · rw [Delivery.exited_attempts]
        exact List.mem_map.mpr ⟨attempt, mem, rfl⟩
      · apply (Delivery.exitAttempt_committed ?_).mpr committed
        exact fun pending => ((valid.recorded.staging record).resuming attempt mem pending).1
  · rcases change.grows isExit record with forgotten | ⟨after, found, grows⟩
    · exact Or.inl forgotten
    · rcases grows.exists_attempt mem with ⟨kept, keptMem, evolved⟩
      exact Or.inr ⟨after, found, kept, keptMem, evolved.a, evolved.e,
        evolved.committed committed⟩

theorem Change.terminal {op : Op} (change : Change model op later)
    (record : model.messages.get? id = some msg) (ended : msg.state.isTerminal)
    {after : Delivery} (found : later.messages.get? id = some after) :
    after.state.isTerminal = true ∧ after.a = msg.a := by
  by_cases isExit : op = .exit
  · subst isExit
    cases change with
    | moves _ moves =>
      rcases (Evolves.moves moves).records.right_of_left record with ⟨same, sameFound, evolves⟩
      cases Option.some.inj (found.symm.trans sameFound)
      exact evolves.terminal ended
    | exit =>
      simp only [AttemptModel.exit, SortedMap.get?_map, record] at found
      cases found
      simp [Delivery.exited, ended]
  · rcases change.grows isExit record with ⟨_, gone⟩ | ⟨same, sameFound, grows⟩
    · simp [gone] at found
    · cases Option.some.inj (found.symm.trans sameFound)
      exact grows.terminal ended

/-- The record of `id` is kept through the whole run. -/
def Retains (id : String) (model : AttemptModel) : List Op → Prop
  | [] => (model.messages.get? id).isSome = true
  | op :: rest => (model.messages.get? id).isSome = true ∧ Retains id (model.apply op) rest

theorem Retains.here {id : String} {model : AttemptModel} {ops : List Op}
    (retains : Retains id model ops) : (model.messages.get? id).isSome := by
  cases ops with
  | nil => exact retains
  | cons => exact retains.1

def CommittedUnder (id : String) (a : ℕ) (model : AttemptModel) : Prop :=
  ∃ msg, model.messages.get? id = some msg ∧ msg.a = a ∧ msg.HasCommit

section

variable (valid : model.Valid)

include valid

theorem Valid.terminal_of_commit (record : model.messages.get? id = some msg)
    (commit : msg.HasCommit) : msg.state.isTerminal := by
  rw [← Bool.not_eq_false]
  exact fun live => (valid.recorded.staged (by simp) record).not_hasCommit live commit

theorem Valid.committedUnder_apply {a : ℕ} (commit : model.CommittedUnder id a) (op : Op)
    (retained : ((model.apply op).messages.get? id).isSome) :
    (model.apply op).CommittedUnder id a := by
  rcases commit with ⟨msg, record, rfl, commit⟩
  have ended := valid.terminal_of_commit record commit
  rcases commit with ⟨attempt, mem, current, committed⟩
  have change := valid.change op
  rcases change.committed valid record mem committed with
    ⟨_, gone⟩ | ⟨after, found, kept, keptMem, sameA, _, stage⟩
  · simp [gone] at retained
  · have sameAssignment := (change.terminal record ended found).2
    exact ⟨after, found, sameAssignment, kept, keptMem,
      sameA.trans (current.trans sameAssignment.symm), stage⟩

theorem Valid.committedUnder_run {a : ℕ} (commit : model.CommittedUnder id a) (ops : List Op)
    (retains : Retains id model ops) : (model.run ops).CommittedUnder id a := by
  induction ops generalizing model with
  | nil => exact commit
  | cons op rest ih =>
    have next := retains.2.here
    exact ih (valid.apply op) (valid.committedUnder_apply commit op next) retains.2

theorem Valid.issue_refused {a : ℕ} (commit : model.CommittedUnder id a) (now : Instant) (rx : Rx) :
    ∃ refusal, (model.issue now id rx).1 = .error refusal := by
  rcases commit with ⟨msg, record, _, commit⟩
  have ended := valid.terminal_of_commit record commit
  have cases : ((∃ refusal, (model.issue now id rx).1 = .error refusal) ∧
      Moves Powers.none model (model.issue now id rx).2) ∨ _ := issue_cases model now id rx
  rcases cases with ⟨refused, _⟩ | ⟨receiver, handed, kind, hands, _⟩
  · exact refused
  · have same : msg = handed := Option.some.inj (record.symm.trans hands.record)
    subst same
    simp [hands.live] at ended

end

theorem mayHandOver_refused {a : ℕ} (commit : model.CommittedUnder id a) (now : Instant) (e : ℕ)
    (rx : Rx) : ∃ refusal, model.mayHandOver now id a e rx = .error refusal := by
  rcases commit with ⟨msg, record, rfl, attempt, mem, current, committed⟩
  have found : (msg.attempts.any fun other => other.a = msg.a && other.stage = .committed) = true :=
    List.any_eq_true.mpr ⟨attempt, mem, by simp [current, committed]⟩
  simp only [mayHandOver, record]
  split
  · exact ⟨_, rfl⟩
  · split
    · exact ⟨_, rfl⟩
    · split
      · exact ⟨_, rfl⟩
      · exact ⟨_, rfl⟩

/-- What a commit says about its record, in this state and for good. -/
structure CommitDominates (model : AttemptModel) (id : String) (msg : Delivery) : Prop where
  terminal : msg.HasCommit → msg.state.isTerminal = true ∧ (msg.state = .settled ∨
    (msg.corrected = true ∧ (msg.state = .undeliverable .cancelled ∨
      (msg.offer = true ∧ msg.state = .undeliverable .maxDeliver))))
  settled : msg.state = .settled → msg.HasCommit
  /-- No call changes a committed stage, unless it forgets the whole record. -/
  kept : ∀ op, ∀ attempt ∈ msg.attempts, attempt.stage = .committed →
    (op = .forget id ∧ (model.apply op).messages.get? id = none) ∨
    ∃ after, (model.apply op).messages.get? id = some after ∧ ∃ kept ∈ after.attempts,
      kept.a = attempt.a ∧ kept.e = attempt.e ∧ kept.stage = .committed
  /-- Until the record is forgotten no hand-out succeeds and no hand-over is granted. -/
  refused : msg.HasCommit → ∀ ops, Retains id model ops →
    (∀ now rx, ∃ refusal, ((model.run ops).issue now id rx).1 = .error refusal) ∧
    ∀ now e rx, ∃ refusal, (model.run ops).mayHandOver now id msg.a e rx = .error refusal

theorem commit_dominates (limits : Limits) (generation : ℕ) (ops : List Op) (id : String)
    (msg : Delivery)
    (record : ((AttemptModel.new limits generation).run ops).messages.get? id = some msg) :
    CommitDominates ((AttemptModel.new limits generation).run ops) id msg := by
  have valid := valid_run limits generation ops
  have staged := valid.recorded.staged (by simp) record
  refine ⟨?_, staged.settled, ?_, ?_⟩
  · exact fun commit => ⟨valid.terminal_of_commit record commit, staged.committed commit⟩
  · intro op attempt mem committed
    exact (valid.change op).committed valid record mem committed
  · intro commit more retains
    have committedUnder := valid.committedUnder_run ⟨msg, record, rfl, commit⟩ more retains
    exact ⟨fun now rx => (valid.run more).issue_refused committedUnder now rx,
      fun now e rx => mayHandOver_refused committedUnder now e rx⟩

/-- An attempt fenced by its receiver's silence commits late. -/
def lateCommitRun : List Op :=
  [.post "m" false, .register 0 .onceWaiter false, .issue 0 "m" 1, .connectionClosed 1 1,
    .stage 2 "m" 1 1 .committed none]

/-- The late commit of `lateCommitRun` settles its message for good. -/
theorem commit_dominates_lateCommitRun :
    ∃ msg, ((AttemptModel.new Limits.default 1).run lateCommitRun).messages.get? "m" = some msg ∧
      msg.state.isTerminal = true ∧ ∃ refusal,
        ((((AttemptModel.new Limits.default 1).run lateCommitRun).run
          [.register 3 .onceWaiter false, .exit]).issue 4 "m" 2).1 = .error refusal := by
  have record : ∃ msg, ((AttemptModel.new Limits.default 1).run lateCommitRun).messages.get? "m" =
      some msg ∧ msg.HasCommit := by
    refine ⟨_, rfl, ?_⟩
    exact ⟨_, List.mem_cons_self, by decide, by decide⟩
  rcases record with ⟨msg, record, commit⟩
  have dominates := commit_dominates Limits.default 1 lateCommitRun "m" msg record
  refine ⟨msg, record, (dominates.terminal commit).1, ?_⟩
  have retains : Retains "m" ((AttemptModel.new Limits.default 1).run lateCommitRun)
      [.register 3 .onceWaiter false, .exit] := by
    simp only [Retains]
    decide
  exact (dominates.refused commit _ retains).1 4 2

end AttemptModel

end AgentDeck.Attempts
