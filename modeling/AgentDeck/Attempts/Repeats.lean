import AgentDeck.Attempts.Clearance

/-!
# Runs with spool checks

The callers of the model promise two things: a check given back to the clock is one the model
returned before, and only an attempt just handed out is withheld. A `Watch` follows a run under
these promises, with the history of its notices, and every automatic repeat of such a run rests on
a check that nothing in the history has made stale.
-/

namespace AgentDeck.Attempts

namespace Delivery

/-- A scheduled automatic repeat waits for no attempt whose caps file is still being written. -/
def Unheld (msg : Delivery) : Prop :=
  ∀ token, msg.token = some token → token.kind = .auto → ∀ attempt ∈ msg.attempts,
    attempt.a = msg.a → attempt.withheld = false

def Idle (msg : Delivery) : Prop := msg.token = none ∧ msg.state ≠ .queued

variable {msg : Delivery}

theorem Unheld.of_token (absent : msg.token = none) : msg.Unheld := by
  intro token isToken
  simp [absent] at isToken

theorem Unheld.congr {changed : Delivery} (unheld : msg.Unheld)
    (token : changed.token = msg.token) (a : changed.a = msg.a)
    (attempts : List.Forall₂ (fun old new : Attempt => new.a = old.a ∧
      (new.withheld = true → old.withheld = true)) msg.attempts changed.attempts) :
    changed.Unheld := by
  intro other isToken auto new newMem current
  rcases exists_left_of_forall₂ attempts newMem with ⟨old, oldMem, sameA, withheld⟩
  have released := unheld other (token ▸ isToken) auto old oldMem (sameA ▸ a ▸ current)
  rw [← Bool.not_eq_true] at released ⊢
  exact fun isWithheld => released (withheld isWithheld)

theorem Unheld.edit {powers : Powers} {changed : Delivery} (unheld : msg.Unheld)
    (powerless : powers.withholds = false) (edit : Edit powers msg changed) : changed.Unheld := by
  cases edit with
  | touch attempts touched =>
    refine unheld.congr rfl rfl (touched.imp fun old new touch => ⟨touch.a, ?_⟩)
    have evolves : old.Evolves powers true new := touch.evolves
    exact evolves.withheld powerless
  | dropToken => exact Unheld.of_token rfl
  | retried =>
    intro token isToken auto
    cases isToken
    cases auto
  | cancelled => exact Unheld.of_token rfl
  | _ => exact unheld

theorem rules_auto {limits : Limits} {now : Instant} {id : String} {reading : Reading}
    {token : RepeatToken} (isToken : (msg.rules limits now id reading).1.token = some token)
    (auto : token.kind = .auto) : (msg.rules limits now id reading).1.a = msg.a ∧
      (msg.token = some token ∨ reading.resuming = false) := by
  simp only [rules] at isToken ⊢
  split at isToken
  · rename_i committed
    simp only [ruleCommitted] at isToken ⊢
    repeat' split at isToken
    all_goals simp_all [correct_fst]
  · rename_i uncommitted
    simp only [uncommitted]
    split at isToken
    · rename_i terminal
      have kept : msg.token = some token := isToken
      simp [terminal, kept]
    · rename_i live
      split at isToken
      · simp only [ruleLatched] at isToken
        split at isToken <;> simp at isToken
      · rename_i unlatched
        split at isToken
        · rename_i noneIssued
          simp only [setState_token] at isToken
          simp [live, unlatched, noneIssued, isToken]
        · rename_i someIssued
          split at isToken
          · simp only [ruleNotHanded] at isToken
            repeat' split at isToken
            all_goals simp at isToken
          · rename_i handed
            split at isToken
            · simp only [ruleHeld, setState_token] at isToken
              split at isToken
              · simp at isToken
              · rename_i manual
                simp [isToken, auto] at manual
            · rename_i lapsed
              simp only [Bool.or_eq_true, not_or, Bool.not_eq_true] at lapsed
              simp only [live, unlatched, someIssued, handed, lapsed, ruleLapsed]
              simp only [Bool.false_eq_true, if_false, Bool.or_self]
              repeat' split
              all_goals simp

theorem rules_idle {limits : Limits} {now : Instant} {id : String} {reading : Reading}
    (absent : msg.token = none) (live : msg.state.isTerminal = false)
    (unlatched : msg.latch = false) (uncommitted : reading.committed = false)
    (issued : reading.noneIssued = false) (handed : reading.allNotHanded = false)
    (uncleared : reading.cleared = false) : (msg.rules limits now id reading).1.Idle := by
  simp only [rules, uncommitted, live, unlatched, issued, handed]
  simp only [Bool.false_eq_true, if_false]
  split
  · simp [ruleHeld, absent, Idle]
  · simp only [ruleLapsed, absent, uncleared]
    simp only [Option.isSome_none, Bool.false_eq_true, if_false, Bool.not_false, if_true]
    split
    · rename_i uncertain
      refine ⟨rfl, ?_⟩
      intro queued
      have isQueued : msg.state = .queued := queued
      simp [isQueued, MessageState.isUncertain] at uncertain
    · repeat' split
      all_goals simp [Idle]

end Delivery

namespace AttemptModel

variable {powers : Powers} {model later : AttemptModel}

/-! ## Withheld attempts -/

/-- No automatic repeat is scheduled over a withheld attempt. -/
def Unheld (model : AttemptModel) : Prop :=
  ∀ id msg, model.messages.get? id = some msg → msg.Unheld

variable {msg : Delivery} {other : String}

theorem Unheld.insert (unheld : model.Unheld) {messages : SortedMap String Delivery}
    (isMessages : messages = model.messages) (id : String) (changed : msg.Unheld)
    {record : Delivery} (found : (messages.insert id msg).get? other = some record) :
    record.Unheld := by
  rw [SortedMap.get?_insert, isMessages] at found
  split at found
  · cases found
    exact changed
  · exact unheld other record found

theorem Unheld.reclaim (unheld : model.Unheld) (id : String) : (model.reclaim id).Unheld := by
  simp only [AttemptModel.reclaim]
  split
  · exact unheld
  · rename_i msg record
    intro other changed found
    refine unheld.insert rfl id ?_ found
    refine (unheld id msg record).congr rfl rfl (Delivery.forall₂_map fun attempt _ => ?_)
    have evolves : attempt.Evolves Powers.none _ (msg.reclaimAttempt attempt) :=
      Attempt.Evolves.reclaim msg attempt
    exact ⟨evolves.a, evolves.withheld rfl⟩

variable {id : String}

theorem Unheld.ruled (unheld : model.Unheld) (now : Instant)
    (record : model.messages.get? id = some msg) : (model.ruled now id msg).Unheld := by
  intro other changed found
  refine unheld.insert rfl id ?_ found
  intro token isToken auto attempt mem current
  rw [Delivery.noteWitness_token] at isToken
  rw [Delivery.noteWitness_attempts] at mem
  rw [Delivery.noteWitness_a] at current
  rcases Delivery.rules_auto isToken auto with ⟨sameA, before⟩
  rw [sameA] at current
  -- The rules leave the attempts alone or revoke them, and a revoke withholds nothing.
  have kept : ∃ old ∈ msg.attempts, old.a = msg.a ∧ attempt.withheld = old.withheld := by
    rcases (Delivery.rules_frame msg model.limits now id (model.reading now id msg)).1 with
      same | revoked
    · exact ⟨attempt, same ▸ mem, current, rfl⟩
    · rw [revoked] at mem
      rcases List.mem_map.mp mem with ⟨old, oldMem, rfl⟩
      refine ⟨old, oldMem, ?_, ?_⟩
      · rw [← current]
        simp only [Delivery.revoke]
        split <;> rfl
      · simp only [Delivery.revoke]
        split <;> rfl
  rcases kept with ⟨old, oldMem, oldCurrent, same⟩
  rw [same]
  rcases before with unchanged | resuming
  · exact unheld id msg record token unchanged auto old oldMem oldCurrent
  · simp only [reading, Delivery.current, List.any_eq_false, List.mem_filter,
      decide_eq_true_eq, Bool.or_eq_true, not_or, Bool.not_eq_true, and_imp] at resuming
    exact (resuming old oldMem oldCurrent).2

theorem Unheld.finalize (unheld : model.Unheld) (now : Instant) (id : String) :
    (model.finalize now id).Unheld := by
  rcases finalize_cases model now id with ⟨same, _⟩ | ⟨msg, _, record, same⟩
  · rw [same]
    exact unheld
  · rw [same]
    exact (unheld.ruled now record).reclaim id

theorem Unheld.updateAttempt (unheld : model.Unheld) (id : String) (a e : ℕ) {f : Attempt → Attempt}
    (sameA : ∀ attempt, (f attempt).a = attempt.a)
    (withheld : ∀ attempt, (f attempt).withheld = attempt.withheld) :
    (model.updateAttempt id a e f).Unheld := by
  intro other changed found
  simp only [AttemptModel.updateAttempt, SortedMap.get?_modify] at found
  split at found
  · rcases Option.map_eq_some_iff.mp found with ⟨msg, record, rfl⟩
    refine (unheld other msg record).congr rfl rfl ?_
    refine Delivery.forall₂_updateFirst (fun _ => ⟨rfl, fun isWithheld => isWithheld⟩) ?_
    refine fun attempt _ _ => ⟨sameA attempt, ?_⟩
    rw [withheld attempt]
    exact fun isWithheld => isWithheld
  · exact unheld other changed found

theorem Unheld.move (unheld : model.Unheld) (powerless : powers.withholds = false)
    (move : Move powers model later) : later.Unheld := by
  cases move with
  | edit messages edited =>
    intro id changed found
    rcases edited.left_of_right found with ⟨msg, record, edit⟩
    exact (unheld id msg record).edit powerless edit
  | finalize now id => exact unheld.finalize now id
  | commit _ now id a e effects =>
    have committed : (model.updateAttempt id a e commitStage).Unheld :=
      unheld.updateAttempt id a e (fun _ => rfl) fun _ => rfl
    have emitted : ((model.updateAttempt id a e commitStage).emit effects).Unheld := committed
    exact emitted.finalize now id
  | reclaim id => exact unheld.reclaim id
  | rebind _ now id a e rx receiver =>
    have bumped : { model with
        receivers := model.receivers.insert rx { receiver with nextD := receiver.nextD + 1 }
        }.Unheld := unheld
    apply bumped.updateAttempt id a e
    · intro attempt
      rw [rebind_eq]
    · intro attempt
      rw [rebind_eq]
  | relink => exact unheld
  | clock => exact unheld
  | emit => exact unheld

theorem Unheld.moves (unheld : model.Unheld) (powerless : powers.withholds = false)
    (moves : Moves powers model later) : later.Unheld := by
  induction moves with
  | refl => exact unheld
  | tail _ move ih => exact ih.move powerless move

/-! ## What a hand-out leaves -/

theorem reclaim_get?_ne (different : other ≠ id) :
    (model.reclaim id).messages.get? other = model.messages.get? other := by
  simp only [reclaim]
  split
  · rfl
  · simp [different]

variable (now : Instant)

theorem finalize_get?_ne (different : other ≠ id) :
    (model.finalize now id).messages.get? other = model.messages.get? other := by
  rcases finalize_cases model now id with ⟨same, _⟩ | ⟨msg, _, _, same⟩
  · rw [same]
  · rw [same, reclaim_get?_ne different]
    simp [ruled, emit, different]

theorem handOut_get?_ne (rx : Rx) (receiver : Receiver) (msg : Delivery) (kind : IssueKind)
    (different : other ≠ id) :
    (model.handOut now id rx receiver msg kind).2.messages.get? other =
      model.messages.get? other := by
  simp only [handOut]
  split
  · exact finalize_get?_ne now different
  · split
    · rfl
    · rw [finalize_get?_ne now different]
      simp [handTo, different]

theorem issue_get?_ne (rx : Rx) (different : other ≠ id) :
    (model.issue now id rx).2.messages.get? other = model.messages.get? other := by
  simp only [issue]
  repeat' split
  · rfl
  · rfl
  · rfl
  · rfl
  · rfl
  · rfl
  · exact handOut_get?_ne now rx _ _ _ different
  · rw [finalize_get?_ne now different]
    simp [different]
  · exact handOut_get?_ne now rx _ _ _ different
  · exact handOut_get?_ne now rx _ _ _ different
  · rfl

theorem issue_idle (rx : Rx) (record : model.messages.get? id = some msg) (idle : msg.Idle) :
    (model.issue now id rx).2 = model := by
  rcases idle with ⟨none, notQueued⟩
  simp only [issue, record, none]
  repeat' split
  all_goals rfl

theorem HandsOut.idle {now : Instant} {rx : Rx} {receiver : Receiver} {kind : IssueKind}
    (hands : model.HandsOut now id rx receiver msg kind) (valid : model.Valid) {after : Delivery}
    (found : ((model.handTo now id rx receiver msg kind).finalize now id).messages.get? id =
      some after) : after.Idle := by
  have uncommitted := (valid.recorded.staged (by simp) hands.record).not_hasCommit hands.live
  have handed : (model.handTo now id rx receiver msg kind).messages.get? id =
      some (msg.handOut now rx (receiver.nextD + 1) receiver.slot kind) := by simp [handTo]
  rcases finalize_cases (model.handTo now id rx receiver msg kind) now id with
    ⟨_, exited | absent⟩ | ⟨handedOut, _, isHandedOut, same⟩
  · have running : (model.handTo now id rx receiver msg kind).exited = false := hands.running
    simp [running] at exited
  · simp [handed] at absent
  · cases Option.some.inj (handed.symm.trans isHandedOut)
    generalize model.handTo now id rx receiver msg kind = handedTo at same handed found
    have ruledIdle : ((msg.handOut now rx (receiver.nextD + 1) receiver.slot kind).rules
        handedTo.limits now id (handedTo.reading now id
          (msg.handOut now rx (receiver.nextD + 1) receiver.slot kind))).1.Idle := by
      refine Delivery.rules_idle rfl hands.live hands.unlatched ?_ ?_ ?_ ?_
      · rw [← Bool.not_eq_true, (reading_reads handedTo now id _).committed]
        rintro ⟨attempt, mem, current, committed⟩
        rcases List.mem_append.mp mem with earlier | last
        · rcases List.mem_map.mp earlier with ⟨old, oldMem, rfl⟩
          refine uncommitted ⟨old, oldMem, ?_, ?_⟩
          · rw [apply_ite Attempt.a] at current
            simpa [Attempt.recheck, Delivery.handOut] using current
          · rw [apply_ite Attempt.stage] at committed
            simpa [Attempt.recheck] using committed
        · rw [List.mem_singleton] at last
          subst last
          cases committed
      · simp [reading, Delivery.current, Delivery.handOut]
      · simp [reading, Delivery.current, Delivery.handOut]
      · simp [reading, Delivery.current, Delivery.handOut, Attempt.needsClearance]
    rw [same] at found
    simp only [AttemptModel.reclaim, ruled, emit, SortedMap.get?_insert, if_true] at found
    cases found
    exact ⟨by simpa using ruledIdle.1, by simpa using ruledIdle.2⟩

/-! ## Successions -/

section Succeeds

variable {handed : List (String × ℕ × ℕ)} {history calls : List Notice}

theorem Moves.succeeds (moves : Moves powers model later) (powerless : powers.clears = false)
    (quiet : ∀ id msg after, model.messages.get? id = some msg →
      later.messages.get? id = some after → ∀ old ∈ msg.attempts, ∀ new ∈ after.attempts,
      old.Evolves powers after.state.isTerminal new → new.mark = old.mark → new.Unsettled →
      new.Undisturbed id calls) : Succeeds model later handed calls := by
  intro id after found new newMem
  rcases (Evolves.moves moves).exists_before found newMem with ⟨msg, record, old, oldMem, step⟩
  exact Or.inl ⟨msg, record, old, oldMem, step.follows powerless
    (quiet id msg after record found old oldMem new newMem step)⟩

theorem Watched.clear_moves (watched : Watched model handed history) (valid : model.Valid)
    (now : Instant) (cleared : List LapseCheck)
    (known : ∀ check ∈ cleared, Notice.checked check ∈ history)
    (moves : Moves Powers.linker (model.clearChecks now cleared) later) :
    Watched later handed (history ++ cleared.map .passed ++ newlyFenced model later) := by
  have clears : Moves Powers.clock model (model.clearChecks now cleared) :=
    valid.clearChecks rfl now cleared
  have laterValid := (valid.moves clears).moves moves
  have related := valid.clearChecks_related now (fun check (mem : check ∈ cleared) => mem)
  refine (watched.clear valid now cleared known).advance (moves.succeeds rfl ?_)
    (fun _ mem => mem) (unchecked_newlyFenced model later)
  intro id msg after record found old oldMem new newMem step same _
  rcases related.left_of_right record with ⟨before, beforeRecord, attempts⟩
  -- Clearing touches neither stages nor marks, so the fences are those since before it.
  rcases Delivery.exists_left_of_forall₂ attempts oldMem with ⟨start, startMem, rfl | ⟨rfl, _⟩⟩
  · exact valid.undisturbed_newlyFenced laterValid beforeRecord found startMem newMem step.a step.e
      step.fenced same
  · exact valid.undisturbed_newlyFenced laterValid beforeRecord found startMem newMem step.a step.e
      step.fenced same

theorem undisturbed_append {id : String} {attempt : Attempt} {first second : List Notice}
    (before : attempt.Undisturbed id first) (after : attempt.Undisturbed id second) :
    attempt.Undisturbed id (first ++ second) := by
  intro notice mem
  rcases List.mem_append.mp mem with isFirst | isSecond
  · exact before notice isFirst
  · exact after notice isSecond

theorem undisturbed_nil (id : String) (attempt : Attempt) : attempt.Undisturbed id [] := by
  intro notice mem
  cases mem

theorem Valid.follows_same (valid : model.Valid) (laterValid : later.Valid) {id : String}
    {msg : Delivery} (record : model.messages.get? id = some msg)
    (found : later.messages.get? id = some msg) {attempt : Attempt} (mem : attempt ∈ msg.attempts)
    (undisturbed : attempt.Undisturbed id calls) :
    attempt.Follows id (calls ++ newlyFenced model later) attempt := by
  refine (Attempt.Evolves.refl Powers.none true attempt).follows rfl fun _ _ => ?_
  exact undisturbed_append undisturbed
    (valid.undisturbed_newlyFenced laterValid record found mem mem rfl rfl Or.inl rfl)

theorem HandsOut.succeeds {now : Instant} {id : String} {rx : Rx} {receiver : Receiver}
    {msg : Delivery} {kind : IssueKind} (hands : model.HandsOut now id rx receiver msg kind)
    (valid : model.Valid) (unused : (id, msg.a, msg.attempts.length + 1) ∉ handed) (e : ℕ) :
    Succeeds model ((model.handTo now id rx receiver msg kind).finalize now id) handed
      ([Notice.handedOut id msg.a e] ++ newlyFenced model
        ((model.handTo now id rx receiver msg kind).finalize now id)) := by
  have laterValid := hands.valid valid
  have recordAfter : ∃ after, _ ∧ Delivery.Evolves Powers.none _ after := hands.record_after
  rcases recordAfter with ⟨handedOut, foundOut, evolves⟩
  intro other after found new newMem
  by_cases here : other = id
  · subst here
    cases Option.some.inj (foundOut.symm.trans found)
    rcases Delivery.exists_left_of_forall₂ evolves.attempts newMem with ⟨middle, middleMem, second⟩
    rcases List.mem_append.mp middleMem with earlier | last
    · rcases List.mem_map.mp earlier with ⟨old, oldMem, isMiddle⟩
      have first : old.Evolves Powers.none handedOut.state.isTerminal middle := by
        rw [← isMiddle]
        split
        · exact (Touch.recheck : Touch Powers.none msg old _).evolves
        · exact Attempt.Evolves.refl _ _ old
      have step := first.trans second id
      refine Or.inl ⟨msg, hands.record, old, oldMem, step.follows rfl fun same _ => ?_⟩
      refine undisturbed_append ?_ (valid.undisturbed_newlyFenced laterValid hands.record found
        oldMem newMem step.a step.e step.fenced same)
      intro notice mem disturbed
      rw [List.mem_singleton] at mem
      subst mem
      -- The attempts of the assignment were all rechecked, so their marks have moved.
      have current : old.a = msg.a := step.a.symm.trans disturbed.2.symm
      rw [if_pos current] at isMiddle
      have raised : middle.mark = old.mark + 1 := by
        rw [← isMiddle]
        rfl
      have grown := second.mark
      omega
    · rw [List.mem_singleton] at last
      subst last
      refine Or.inr ⟨?_, ?_⟩
      · rw [second.a, second.e]
        exact unused
      · rw [← Bool.not_eq_true]
        intro cleared
        have impossible := (second.cleared rfl cleared).1
        cases impossible
  · have kept : model.messages.get? other = some after := by
      rw [finalize_get?_ne now here] at found
      simpa [handTo, here] using found
    refine Or.inl ⟨after, kept, new, newMem, valid.follows_same laterValid kept found newMem ?_⟩
    intro notice mem disturbed
    rw [List.mem_singleton] at mem
    subst mem
    exact here disturbed.1.symm

theorem Valid.succeeds (valid : model.Valid) {op : Op} (notExit : op ≠ .exit)
    (powerless : op.powers.clears = false)
    (unused : ∀ id issued, model.issuedBy op = some (id, issued) →
      (id, issued.a, issued.e) ∉ handed) :
    Succeeds model (model.apply op) handed
      (model.callNotices op ++ newlyFenced model (model.apply op)) := by
  have change := valid.change op
  have laterValid := valid.apply op
  generalize isLater : model.apply op = later at change laterValid ⊢
  cases change with
  | moves silent moves =>
    subst isLater
    refine moves.succeeds powerless ?_
    intro id msg after record found old oldMem new newMem step same unsettled
    exact undisturbed_append
      (valid.undisturbed_calls laterValid silent record found oldMem newMem step same unsettled)
      (valid.undisturbed_newlyFenced laterValid record found oldMem newMem step.a step.e
        step.fenced same)
  | post other offer absent =>
    intro id after found new newMem
    by_cases here : id = other
    · simp only [here, SortedMap.get?_insert] at found
      cases found
      simp [Delivery.new] at newMem
    · have record : model.messages.get? id = some after := by
        simpa [here] using found
      exact Or.inl ⟨after, record, new, newMem,
        valid.follows_same laterValid record found newMem (undisturbed_nil id new)⟩
  | handOut now id rx receiver msg kind hands told =>
    have calls : ∃ e, model.callNotices (.issue now id rx) = [.handedOut id msg.a e] := by
      simp only [issuedBy] at told
      rcases answer : (model.issue now id rx).1 with _ | issued
      · simp [answer, Except.toOption] at told
      · simp only [answer, Except.toOption, Option.map_some, Option.some.injEq,
          Prod.mk.injEq] at told
        exact ⟨issued.e, by simp [callNotices, answer, told.2]⟩
    rcases calls with ⟨e, isCalls⟩
    rw [isCalls]
    exact hands.succeeds valid (unused id _ told) e
  | forget other msg =>
    intro id after found new newMem
    have record := SortedMap.get?_of_erase found
    exact Or.inl ⟨after, record, new, newMem,
      valid.follows_same laterValid record found newMem (undisturbed_nil id new)⟩
  | drain =>
    intro id after found new newMem
    exact Or.inl ⟨after, found, new, newMem,
      valid.follows_same laterValid found found newMem (undisturbed_nil id new)⟩
  | exit => exact absurd rfl notExit

end Succeeds

theorem Change.exited_of_running {op : Op} (change : Change model op later)
    (running : later.exited = false) : model.exited = false := by
  cases change with
  | moves _ moves => exact (Evolves.moves moves).exited.symm.trans running
  | handOut now id rx receiver msg kind hands => exact hands.running
  | exit => cases running
  | _ => exact running

theorem Unheld.change (unheld : model.Unheld) (valid : model.Valid) {op : Op}
    (change : Change model op later) (powerless : op.powers.withholds = false) : later.Unheld := by
  cases change with
  | moves _ moves => exact unheld.moves powerless moves
  | post id offer => exact fun other record found => unheld.insert rfl id (.of_token rfl) found
  | handOut now id rx receiver msg kind hands =>
    intro other after found
    by_cases here : other = id
    · subst here
      exact .of_token (hands.idle valid found).1
    · rw [finalize_get?_ne now here] at found
      exact unheld other after (by simpa [handTo, here] using found)
  | forget id msg =>
    intro other after found
    exact unheld other after (SortedMap.get?_of_erase found)
  | drain => exact unheld
  | exit =>
    intro id after found
    simp only [AttemptModel.exit, SortedMap.get?_map] at found
    rcases Option.map_eq_some_iff.mp found with ⟨msg, _, rfl⟩
    apply Delivery.Unheld.of_token
    simp only [Delivery.exited]
    split <;> simp

end AttemptModel

/-! ## Watched runs -/

open AttemptModel (Op)

/-- A call of the model, asking for its lapse candidates among them. -/
inductive Call
  | op (op : Op)
  | lapseCandidates (now : Instant)

/-- A run with its notices; `spent` are the hand-outs since the last call but `issue` and
`withhold`. -/
structure Watch where
  trace : Trace
  history : List Notice
  spent : List (String × ℕ × ℕ)

namespace Watch

def start (limits : Limits) (generation : ℕ) : Watch := ⟨.start limits generation, [], []⟩

def spentAfter (watch : Watch) : Op → List (String × ℕ × ℕ)
  | .issue now id rx =>
    watch.spent ++ ((watch.trace.model.issuedBy (.issue now id rx)).map fun issued =>
      (issued.1, issued.2.a, issued.2.e)).toList
  | .withhold _ _ _ _ => watch.spent
  | _ => []

def step (watch : Watch) : Call → Watch
  | .op op =>
    ⟨watch.trace.step op, watch.history ++ watch.trace.model.notices op, watch.spentAfter op⟩
  | .lapseCandidates now =>
    { watch with
      history := watch.history ++ (watch.trace.model.lapseCandidates now).map .checked }

def Admits (watch : Watch) : Call → Prop
  | .op (.tickCleared _ cleared) => ∀ check ∈ cleared, Notice.checked check ∈ watch.history
  | .op (.tickTurn _ cleared _) => ∀ check ∈ cleared, Notice.checked check ∈ watch.history
  | .op (.withhold _ id a e) => (id, a, e) ∈ watch.spent
  | _ => True

def run (watch : Watch) (calls : List Call) : Watch := calls.foldl step watch

def Admissible (watch : Watch) : List Call → Prop
  | [] => True
  | call :: rest => watch.Admits call ∧ (watch.step call).Admissible rest

/-- What a watched run keeps. Once the generation exited nothing is handed out any more, so the
history no longer matters. -/
structure Sound (watch : Watch) : Prop where
  valid : watch.trace.model.Valid
  fresh : watch.trace.Fresh
  unheld : watch.trace.model.Unheld
  watched : watch.trace.model.exited = false →
    watch.trace.model.Watched watch.trace.handed watch.history
  idle : ∀ id a e, (id, a, e) ∈ watch.spent → ∀ msg, watch.trace.model.messages.get? id = some msg →
    msg.Idle

variable {watch : Watch}

theorem Sound.start (limits : Limits) (generation : ℕ) : (start limits generation).Sound := by
  refine ⟨AttemptModel.Valid.new limits generation, Trace.Fresh.start limits generation, ?_, ?_, ?_⟩
  · intro id msg found
    simp [Watch.start, Trace.start, AttemptModel.new] at found
  · intro _
    constructor <;> simp [Watch.start, Trace.start, AttemptModel.new]
  · simp [Watch.start]

section

variable (sound : watch.Sound)

include sound

theorem Sound.unused (op : Op) (id : String) (issued : Issued)
    (told : watch.trace.model.issuedBy op = some (id, issued)) :
    (id, issued.a, issued.e) ∉ watch.trace.handed := by
  intro mem
  have nodup := (sound.fresh.step sound.valid op).nodup
  simp only [Trace.step, told] at nodup
  exact (List.nodup_append'.mp nodup).2.2 mem (List.mem_singleton.mpr rfl)

theorem Sound.watched_call {op : Op} (notExit : op ≠ .exit) (powerless : op.powers.clears = false)
    (watched : watch.trace.model.Watched watch.trace.handed watch.history) :
    (watch.trace.model.apply op).Watched (watch.trace.step op).handed
      (watch.history ++ (watch.trace.model.callNotices op ++
        AttemptModel.newlyFenced watch.trace.model (watch.trace.model.apply op))) := by
  apply watched.advance (sound.valid.succeeds notExit powerless (sound.unused op))
  · intro triple mem
    exact List.mem_append_left _ mem
  · intro check mem
    rcases List.mem_append.mp mem with call | fenced
    · exact AttemptModel.unchecked_callNotices _ op check call
    · exact AttemptModel.unchecked_newlyFenced _ _ check fenced

theorem Sound.watched_tick (now : Instant) (running : watch.trace.model.exited = false)
    (watched : watch.trace.model.Watched watch.trace.handed watch.history) :
    (watch.trace.model.tick now).Watched watch.trace.handed
      (watch.history ++ watch.trace.model.notices (.tick now)) := by
  have expires : AttemptModel.Moves Powers.linker watch.trace.model
      (watch.trace.model.tickExpired now) := sound.valid.tickHolds rfl now
  have evolves := AttemptModel.Evolves.moves expires
  have validExpired := sound.valid.moves expires
  have expired := watched.advance (expires.succeeds rfl fun _ _ _ record found _ oldMem _ newMem
    step same _ => sound.valid.undisturbed_newlyFenced validExpired record found oldMem newMem
      step.a step.e step.fenced same) (fun _ mem => mem)
    (AttemptModel.unchecked_newlyFenced watch.trace.model _)
  have retained : ∀ {id msg}, (watch.trace.model.tickExpired now).messages.get? id = some msg →
      ∀ tag ∈ msg.tags, (id, tag.1, tag.2) ∈ watch.trace.handed := by
    intro id msg found tag mem
    rcases evolves.records.left_of_right found with ⟨old, record, evolved⟩
    exact sound.fresh.retained record tag (evolved.tags ▸ mem)
  have checked := expired.check validExpired retained now
  have ticked := checked.clear_moves validExpired now
    ((watch.trace.model.tickExpired now).lapseCandidates now)
    (fun check mem => List.mem_append_right _ (List.mem_map.mpr ⟨check, mem, rfl⟩))
    ((validExpired.moves (validExpired.clearChecks rfl now _ :
      AttemptModel.Moves Powers.clock _ _)).runTimers rfl now)
  have isTick : watch.trace.model.tick now = ((watch.trace.model.tickExpired now).clearChecks now
      ((watch.trace.model.tickExpired now).lapseCandidates now)).runTimers now := by
    have stillRunning : (watch.trace.model.tickExpired now).exited = false :=
      evolves.exited.trans running
    exact if_neg (by rw [← AttemptModel.tickExpired, stillRunning]; simp)
  rw [← isTick] at ticked
  simpa only [AttemptModel.notices, List.append_assoc] using ticked

theorem Sound.watched_tickCleared (now : Instant) (cleared : List LapseCheck)
    (known : ∀ check ∈ cleared, Notice.checked check ∈ watch.history)
    (running : watch.trace.model.exited = false)
    (watched : watch.trace.model.Watched watch.trace.handed watch.history) :
    (watch.trace.model.tickCleared now cleared).Watched watch.trace.handed
      (watch.history ++ watch.trace.model.notices (.tickCleared now cleared)) := by
  have ticked := watched.clear_moves sound.valid now cleared known
    ((sound.valid.moves (sound.valid.clearChecks rfl now cleared :
      AttemptModel.Moves Powers.clock _ _)).runTimers rfl now)
  have isTick : watch.trace.model.tickCleared now cleared =
      (watch.trace.model.clearChecks now cleared).runTimers now := if_neg (by simp [running])
  rw [← isTick] at ticked
  simpa only [AttemptModel.notices, List.append_assoc] using ticked

theorem Sound.watched_tickTurn (now : Instant) (cleared : List LapseCheck) (turn : TurnView)
    (known : ∀ check ∈ cleared, Notice.checked check ∈ watch.history)
    (running : watch.trace.model.exited = false)
    (watched : watch.trace.model.Watched watch.trace.handed watch.history) :
    (watch.trace.model.tickTurn now cleared turn).Watched watch.trace.handed
      (watch.history ++ watch.trace.model.notices (.tickTurn now cleared turn)) := by
  have turns : AttemptModel.Moves Powers.none watch.trace.model (watch.trace.model.turn now turn) :=
    sound.valid.turn now turn
  have validTurned := sound.valid.moves turns
  have turned := sound.watched_call (Op.noConfusion : Op.turn now turn ≠ .exit) rfl watched
  have sameHanded : (watch.trace.step (.turn now turn)).handed = watch.trace.handed :=
    List.append_nil _
  rw [sameHanded] at turned
  have timers : AttemptModel.Moves Powers.linker
      ((watch.trace.model.turn now turn).clearChecks now cleared)
      ((((watch.trace.model.turn now turn).clearChecks now cleared).runTimers now).noteTurn now
        turn) :=
    ((validTurned.moves (validTurned.clearChecks rfl now cleared :
      AttemptModel.Moves Powers.clock _ _)).runTimers rfl now).trans
      (AttemptModel.moves_noteTurn _ now turn)
  have ticked := turned.clear_moves validTurned now cleared
    (fun check mem => List.mem_append_left _ (known check mem)) timers
  have isTick : watch.trace.model.tickTurn now cleared turn =
      (((watch.trace.model.turn now turn).clearChecks now cleared).runTimers now).noteTurn now
        turn := by
    have stillRunning : (watch.trace.model.turn now turn).exited = false :=
      (AttemptModel.Evolves.moves turns).exited.trans running
    simp [AttemptModel.tickTurn, AttemptModel.tickCleared, stillRunning]
  rw [← isTick] at ticked
  simpa only [AttemptModel.notices, AttemptModel.callNotices, AttemptModel.apply,
    List.append_assoc] using ticked

theorem Sound.watched_op {op : Op} (admits : watch.Admits (.op op))
    (running : (watch.trace.model.apply op).exited = false) :
    (watch.trace.model.apply op).Watched (watch.trace.step op).handed
      (watch.history ++ watch.trace.model.notices op) := by
  have wasRunning := (sound.valid.change op).exited_of_running running
  have watched := sound.watched wasRunning
  cases op with
  | tick now =>
    have sameHanded : (watch.trace.step (.tick now)).handed = watch.trace.handed :=
      List.append_nil _
    rw [sameHanded]
    exact sound.watched_tick now wasRunning watched
  | tickCleared now cleared =>
    have sameHanded : (watch.trace.step (.tickCleared now cleared)).handed = watch.trace.handed :=
      List.append_nil _
    rw [sameHanded]
    exact sound.watched_tickCleared now cleared admits wasRunning watched
  | tickTurn now cleared turn =>
    have sameHanded : (watch.trace.step (.tickTurn now cleared turn)).handed =
        watch.trace.handed := List.append_nil _
    rw [sameHanded]
    exact sound.watched_tickTurn now cleared turn admits wasRunning watched
  | exit => cases running
  | _ => exact sound.watched_call Op.noConfusion rfl watched

theorem Sound.withhold_unheld (now : Instant) {id : String} {a e : ℕ}
    (spent : (id, a, e) ∈ watch.spent) : (watch.trace.model.withhold now id a e).Unheld := by
  intro other changed found
  simp only [AttemptModel.withhold, AttemptModel.updateAttempt, SortedMap.get?_modify] at found
  split at found
  · rename_i here
    rcases Option.map_eq_some_iff.mp found with ⟨msg, record, rfl⟩
    exact .of_token (sound.idle id a e spent msg (here ▸ record)).1
  · exact sound.unheld other changed found

theorem Sound.idle_op (op : Op) (id : String) (a e : ℕ) (spent : (id, a, e) ∈ watch.spentAfter op)
    (msg : Delivery) (found : (watch.trace.model.apply op).messages.get? id = some msg) :
    msg.Idle := by
  cases op with
  | issue now other rx =>
    have kept : (id, a, e) ∈ watch.spent → msg.Idle := by
      intro before
      by_cases here : id = other
      · subst here
        rcases record : watch.trace.model.messages.get? id with _ | old
        · rcases (sound.valid.change (.issue now id rx)).appears record found with
            ⟨_, impossible, _⟩
          cases impossible
        · have idle := sound.idle id a e before old record
          simp only [AttemptModel.apply, AttemptModel.issue_idle now rx record idle] at found
          exact Option.some.inj (record.symm.trans found) ▸ idle
      · simp only [AttemptModel.apply, AttemptModel.issue_get?_ne now rx here] at found
        exact sound.idle id a e before msg found
    rcases List.mem_append.mp spent with before | new
    · exact kept before
    · have change := sound.valid.change (.issue now other rx)
      generalize watch.trace.model.apply (.issue now other rx) = later at change found
      cases change with
      | moves silent => simp [silent] at new
      | handOut _ _ _ receiver handed kind hands told =>
        simp only [told, Option.map_some, Option.toList_some, List.mem_singleton] at new
        rcases new with ⟨rfl, _⟩
        exact hands.idle sound.valid found
  | withhold now other b f =>
    simp only [AttemptModel.apply, AttemptModel.withhold, AttemptModel.updateAttempt,
      SortedMap.get?_modify] at found
    split at found
    · rcases Option.map_eq_some_iff.mp found with ⟨old, record, rfl⟩
      exact sound.idle id a e spent old record
    · exact sound.idle id a e spent msg found
  | _ => cases spent

theorem Sound.step {call : Call} (admits : watch.Admits call) : (watch.step call).Sound := by
  cases call with
  | op op =>
    refine ⟨sound.valid.apply op, sound.fresh.step sound.valid op, ?_, sound.watched_op admits,
      sound.idle_op op⟩
    have unheld := sound.unheld.change sound.valid (sound.valid.change op)
    cases op with
    | withhold now id a e => exact sound.withhold_unheld now admits
    | _ => exact unheld rfl
  | lapseCandidates now =>
    refine ⟨sound.valid, sound.fresh, sound.unheld, ?_, sound.idle⟩
    exact fun running => (sound.watched running).check sound.valid sound.fresh.retained now

theorem Sound.run {calls : List Call} (admissible : watch.Admissible calls) :
    (watch.run calls).Sound := by
  induction calls generalizing watch with
  | nil => exact sound
  | cons call rest ih => exact ih (sound.step admissible.1) admissible.2

end

/-- The attempt is at rest, and a check of it was returned and then passed to a tick, with nothing
after the check that could have made it stale. -/
structure Cleared (watch : Watch) (now : Instant) (id : String) (attempt : Attempt) : Prop where
  answered : attempt.resumePending = false
  released : attempt.withheld = false
  unpossessed : watch.trace.model.possesses now id attempt = false
  checked : ∃ check earlier between since,
    watch.history = earlier ++ Notice.checked check :: (between ++ Notice.passed check :: since) ∧
    check.id = id ∧ check.a = attempt.a ∧ check.e = attempt.e ∧
    attempt.Undisturbed id (between ++ Notice.passed check :: since)

theorem Sound.cleared (sound : watch.Sound) {now : Instant} {id : String} {rx : Rx}
    {receiver : Receiver} {msg : Delivery}
    (hands : watch.trace.model.HandsOut now id rx receiver msg .autoRepeat) {attempt : Attempt}
    (mem : attempt ∈ msg.attempts) (current : attempt.a = msg.a)
    (handed : attempt.stage ≠ .notHanded) : watch.Cleared now id attempt := by
  rcases hands.granted with ⟨token, isToken, tokenValid, isKind⟩ | ⟨_, _, isKind⟩
  · have auto : token.kind = .auto := by
      cases kind : token.kind with
      | auto => rfl
      | manual => simp [kind, TokenKind.issueKind] at isKind
    simp only [AttemptModel.tokenValid, auto, Delivery.current, Bool.and_eq_true, Bool.or_eq_true,
      decide_eq_true_eq, Bool.not_eq_true', List.any_eq_false, List.all_eq_true, List.mem_filter,
      not_or, Bool.not_eq_true, and_imp, reduceCtorEq, false_or] at tokenValid
    rcases tokenValid.2 with ⟨free, clearances⟩
    have isFree := free attempt mem current
    have released := sound.unheld id msg hands.record token isToken auto attempt mem current
    have uncommitted : attempt.stage ≠ .committed := fun committed =>
      (sound.valid.recorded.staged (by simp) hands.record).not_hasCommit hands.live
        ⟨attempt, mem, current, committed⟩
    have needed : attempt.needsClearance := by
      simp only [Attempt.needsClearance, isFree.1, released]
      cases stage : attempt.stage with
      | committed => exact absurd stage uncommitted
      | notHanded => exact absurd stage handed
      | _ => rfl
    have isCleared : attempt.cleared := by
      rcases clearances attempt mem current with unneeded | cleared
      · simp [needed] at unneeded
      · exact cleared
    have watched := sound.watched hands.running
    rcases watched.cleared id msg hands.record attempt mem isCleared with
      ⟨check, ⟨earlier, between, since, split⟩, isId, isA, isE, isMark⟩
    refine ⟨isFree.1, released, isFree.2, check, earlier, between, since, split, isId, isA, isE, ?_⟩
    subst isId
    exact ((watched.checks earlier check _ split).2 msg hands.record attempt mem isA.symm
      isE.symm).2 isMark.symm ⟨uncommitted, handed⟩
  · split at isKind <;> cases isKind

end Watch

/-- An automatic repeat rests on a current spool check of every attempt that may have reached the
agent. -/
theorem auto_repeat_checked (limits : Limits) (generation : ℕ) (calls : List Call)
    (admissible : (Watch.start limits generation).Admissible calls) (now : Instant) (id : String)
    (rx : Rx) (issued : Issued)
    (answer : (((Watch.start limits generation).run calls).trace.model.issue now id rx).1 =
      .ok issued) (auto : issued.kind = .autoRepeat) :
    ∃ msg, ((Watch.start limits generation).run calls).trace.model.messages.get? id = some msg ∧
      ∀ attempt ∈ msg.current, attempt.stage ≠ .notHanded →
        ((Watch.start limits generation).run calls).Cleared now id attempt := by
  have sound := (Watch.Sound.start limits generation).run admissible
  generalize (Watch.start limits generation).run calls = watch at sound answer ⊢
  have outcome : (_ ∧ AttemptModel.Moves Powers.none _ _) ∨ _ :=
    AttemptModel.issue_cases watch.trace.model now id rx
  rcases outcome with ⟨⟨refusal, refused⟩, _⟩ | ⟨receiver, msg, kind, hands, handed⟩
  · rw [refused] at answer
    cases answer
  · rw [handed] at answer
    cases answer
    have isAuto : kind = .autoRepeat := auto
    subst isAuto
    refine ⟨msg, hands.record, ?_⟩
    intro attempt mem unhanded
    simp only [Delivery.current, List.mem_filter, decide_eq_true_eq] at mem
    exact sound.cleared hands mem.1 mem.2 unhanded

/-- A once-waiter's attempt lapses, its check finds nothing, and the clock clears it. -/
def lapsedCalls : List Call :=
  [.op (.post "m" false), .op (.register 0 .onceWaiter false), .op (.issue 0 "m" 1),
    .op (.withhold 0 "m" 1 1), .op (.released 0 "m" 1 1 true), .lapseCandidates (fromSecs 60),
    .op (.tickCleared (fromSecs 60) [⟨"m", 1, 1, 0⟩])]

theorem auto_repeat_checked_lapsedCalls :
    ∃ msg, ((Watch.start Limits.default 1).run lapsedCalls).trace.model.messages.get? "m" =
      some msg ∧ ∃ attempt ∈ msg.current, attempt.stage ≠ .notHanded ∧
        ((Watch.start Limits.default 1).run lapsedCalls).Cleared (fromSecs 61) "m" attempt := by
  have admissible : (Watch.start Limits.default 1).Admissible lapsedCalls := by
    refine ⟨trivial, trivial, trivial, ?_, trivial, trivial, ?_, trivial⟩
    · exact (by decide : ("m", 1, 1) ∈ [("m", 1, 1)])
    · intro check mem
      rw [List.mem_singleton] at mem
      subst mem
      decide
  rcases auto_repeat_checked Limits.default 1 lapsedCalls admissible (fromSecs 61) "m" 1
    ⟨1, 2, 2, .autoRepeat⟩ (by decide) rfl with ⟨msg, record, cleared⟩
  have handed : (((Watch.start Limits.default 1).run lapsedCalls).trace.model.messages.get?
      "m").any (fun msg => msg.current.any fun attempt => attempt.stage ≠ .notHanded) = true := by
    decide
  rw [record, Option.any_some, List.any_eq_true] at handed
  rcases handed with ⟨attempt, mem, notNotHanded⟩
  rw [decide_eq_true_eq] at notNotHanded
  exact ⟨msg, record, attempt, mem, notNotHanded, cleared attempt mem notNotHanded⟩

end AgentDeck.Attempts
