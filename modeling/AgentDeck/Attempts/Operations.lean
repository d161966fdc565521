import AgentDeck.Attempts.Moves

/-!
# The operations are sequences of moves

For each operation of `src/inbox_attempts.rs` that works on the records the model has: from a
valid state its effect is a sequence of moves. What is left is what moves do not cover: `post`, a
successful hand-out, `forget`, `drain_effects` and `exit`.
-/

namespace AgentDeck.Attempts

open Relation (ReflTransGen)

namespace AttemptModel

variable {powers : Powers} {model later : AttemptModel}

/-! ## Building moves -/

theorem Move.mapAttempts {f : String → Attempt → Attempt}
    (touched : ∀ id msg, model.messages.get? id = some msg → ∀ attempt ∈ msg.attempts,
      Touch powers msg attempt (f id attempt)) : Move powers model (model.mapAttempts f) := by
  refine Move.edit _ (SortedMap.Related.map model.messages ?_)
  intro id msg found
  exact Edit.touch _ (Delivery.forall₂_map (touched id msg found))

variable {id : String} {msg : Delivery}

/-- A change of one record in place. -/
theorem Move.insert {changed : Delivery} (found : model.messages.get? id = some msg)
    (edit : Edit powers msg changed) :
    Move powers model { model with messages := model.messages.insert id changed } :=
  Move.edit _ (SortedMap.Related.insert (fun _ => Edit.refl powers) model.messages found edit)

/-- A change of one attempt that touches nothing else of its record. -/
theorem Move.updateAttempt {a e : ℕ} {f : Attempt → Attempt}
    (touched : ∀ msg, model.messages.get? id = some msg → ∀ attempt ∈ msg.attempts,
      attempt.a = a → attempt.e = e → Touch powers msg attempt (f attempt)) :
    Move powers model (model.updateAttempt id a e f) := by
  refine Move.edit _ (SortedMap.Related.modify (fun _ => Edit.refl powers) model.messages id ?_)
  intro msg found
  refine Edit.touch _ (Delivery.forall₂_updateFirst (fun _ => Touch.same) ?_)
  intro attempt mem matched
  simp only [Bool.and_eq_true, decide_eq_true_eq] at matched
  exact touched msg found attempt mem matched.1 matched.2

variable {attempt : Attempt}

theorem exists_of_attempt {a e : ℕ} (found : model.attempt id a e = some attempt) :
    ∃ msg, model.messages.get? id = some msg ∧
      msg.attempt a e = some attempt := by
  simp only [AttemptModel.attempt] at found
  rcases record : model.messages.get? id with _ | msg
  · simp [record] at found
  · rw [record] at found
    exact ⟨msg, rfl, found⟩

theorem Valid.updateFound (valid : model.Valid) {a e : ℕ}
    (found : model.attempt id a e = some attempt) {f : Attempt → Attempt}
    (touched : ∀ msg, model.messages.get? id = some msg → attempt ∈ msg.attempts →
      attempt.a = a → attempt.e = e → Touch powers msg attempt (f attempt)) :
    Move powers model (model.updateAttempt id a e f) := by
  rcases exists_of_attempt found with ⟨msg, record, lookup⟩
  apply Move.updateAttempt
  intro other otherRecord candidate mem isA isE
  rw [record] at otherRecord
  cases otherRecord
  have same := (valid.recorded.counted record).eq_of_lookup lookup mem isA isE
  subst same
  exact touched msg record mem isA isE

/-- Induction on the items: each step starts from a valid model that keeps `P`. -/
theorem foldl_moves {α : Type} {f : AttemptModel → α → AttemptModel} (P : AttemptModel → Prop)
    (items : List α) (valid : model.Valid) (start : P model)
    (step : ∀ (current : AttemptModel) (item : α), item ∈ items → current.Valid → P current →
      Moves powers current (f current item) ∧ P (f current item)) :
    Moves powers model (items.foldl f model) := by
  induction items generalizing model with
  | nil => exact ReflTransGen.refl
  | cons head rest ih =>
    rcases step model head List.mem_cons_self valid start with ⟨moves, holds⟩
    refine moves.trans (ih (valid.moves moves) holds ?_)
    exact fun current item mem => step current item (List.mem_cons_of_mem head mem)

theorem foldl_moves_of_valid {α : Type} {f : AttemptModel → α → AttemptModel} (items : List α)
    (valid : model.Valid)
    (step : ∀ (current : AttemptModel) (item : α), current.Valid →
      Moves powers current (f current item)) : Moves powers model (items.foldl f model) :=
  foldl_moves (fun _ => True) items valid trivial fun current item _ isValid _ =>
    ⟨step current item isValid, trivial⟩

theorem moves_finalize (model : AttemptModel) (now : Instant) (id : String) :
    Moves powers model (model.finalize now id) :=
  ReflTransGen.single (Move.finalize now id)

/-- The messages of a call are finalized one after another. -/
theorem Valid.finalizeEach (valid : model.Valid) (now : Instant) (ids : List String) :
    Moves powers model (model.finalizeEach now ids) :=
  foldl_moves_of_valid ids valid fun current id _ => moves_finalize current now id

theorem finalizeEach_receivers (model : AttemptModel) (now : Instant) (ids : List String) :
    (model.finalizeEach now ids).receivers = model.receivers := by
  simp only [finalizeEach]
  induction ids generalizing model with
  | nil => rfl
  | cons head rest ih => simpa using ih (model.finalize now head)

/-! ## Receivers -/

variable {receiver : Receiver}

theorem Valid.answered (valid : model.Valid) (found : model.messages.get? id = some msg)
    (mem : attempt ∈ msg.attempts) (bound : model.receivers.get? attempt.rx = some receiver)
    (oneShot : receiver.slot.oneShot) : attempt.resumePending = false := by
  have binds : model.Binds id attempt.binding :=
    ⟨msg, found, List.mem_map.mpr ⟨attempt, mem, rfl⟩⟩
  have slot : receiver.slot = attempt.slot := ((valid.linked.bound binds).2 receiver bound).1
  rw [← Bool.not_eq_true]
  intro pending
  have stream := ((valid.recorded.staging found).resuming attempt mem pending).2
  rw [← slot, oneShot] at stream
  cases stream

/-- Receivers may go or change where each keeps its slot, its next delivery number and its hold. -/
theorem Move.keepRegistered (allowed : powers.links) (receivers : SortedMap Rx Receiver)
    (slots : SortedMap Slot Rx)
    (kept : ∀ rx receiver, receivers.get? rx = some receiver →
      ∃ before, model.receivers.get? rx = some before ∧ receiver.slot = before.slot ∧
        receiver.nextD = before.nextD ∧ receiver.holdUntil = before.holdUntil)
    (vacated : ∀ slot rx, slots.get? slot = some rx → model.slots.get? slot = some rx) :
    Move powers model { model with receivers := receivers, slots := slots } :=
  Move.relink allowed receivers slots model.nextRx model.seenSlots
    ⟨le_rfl, fun rx receiver found => Or.inl (kept rx receiver found),
      fun slot rx found => Or.inl (vacated slot rx found)⟩

variable {slot : Slot}

theorem get?_of_get?_vacate {other : Slot} {rx holder : Rx}
    (found : (model.vacate slot rx).get? other = some holder) :
    model.slots.get? other = some holder := by
  simp only [vacate] at found
  split at found
  · exact SortedMap.get?_of_erase found
  · exact found

theorem Move.dropReceiver (allowed : powers.links) (rx : Rx) (slot : Slot) :
    Move powers model (model.dropReceiver rx slot) := by
  refine Move.keepRegistered allowed _ _ ?_ fun _ _ => get?_of_get?_vacate
  intro other receiver found
  exact ⟨receiver, SortedMap.get?_of_erase found, rfl, rfl, rfl⟩

/-- A closed hook gives up its slot, and what it held is settled. -/
theorem Valid.closeOneShot (valid : model.Valid) (allowed : powers.links) (now : Instant)
    (rx : Rx) (close : Bool)
    (oneShot : ∀ receiver, model.receivers.get? rx = some receiver → receiver.slot.oneShot) :
    Moves powers model (model.closeOneShot now rx close) := by
  simp only [AttemptModel.closeOneShot]
  split
  · exact .refl
  · rename_i receiver found
    -- Fence first: the receiver's slot says that no attempt of it awaits a resume answer.
    have fenced : Move powers model
        (model.mapAttempts fun _ => fenceClosed model.limits now rx) := by
      apply Move.mapAttempts
      intro id msg record attempt mem
      simp only [fenceClosed]
      split
      · rename_i bound
        simp only [Bool.and_eq_true, decide_eq_true_eq, Bool.not_eq_true'] at bound
        refine Touch.fence bound.2 ?_ _
        exact valid.answered record mem (bound.1 ▸ found) (oneShot receiver found)
      · exact Touch.same
    have dropped : Move powers (model.mapAttempts fun _ => fenceClosed model.limits now rx)
        ((model.dropReceiver rx receiver.slot).mapAttempts fun _ =>
          fenceClosed model.limits now rx) := Move.dropReceiver allowed rx receiver.slot
    have closed := (ReflTransGen.single fenced).tail dropped
    split
    · exact closed.tail (Move.emit _ ⟨fun _ _ _ => by simp, fun _ _ => by simp⟩)
    · exact closed

theorem Move.enroll (allowed : powers.links) (now : Instant) (slot : Slot) (queueSurvived : Bool) :
    Move powers model (model.enroll now slot queueSurvived) := by
  refine Move.relink allowed _ model.slots _ _ ⟨Nat.le_succ _, ?_, fun _ _ => Or.inl⟩
  intro rx receiver found
  rw [SortedMap.get?_insert] at found
  split at found
  · rename_i here
    cases found
    refine Or.inr ⟨here.ge, here.trans_lt (Nat.lt_succ_self _), ?_⟩
    split
    · exact fun _ => by assumption
    · simp
  · exact Or.inl ⟨receiver, found, rfl, rfl, rfl⟩

theorem Move.occupy (allowed : powers.links) {rx : Rx} (known : rx < model.nextRx)
    (agrees : ∀ receiver, model.receivers.get? rx = some receiver → receiver.slot = slot) :
    Move powers model (model.occupy slot rx) := by
  refine Move.relink allowed model.receivers _ model.nextRx model.seenSlots ⟨le_rfl, ?_, ?_⟩
  · exact fun other receiver found => Or.inl ⟨receiver, found, rfl, rfl, rfl⟩
  · intro other holder found
    rw [SortedMap.get?_insert] at found
    split at found
    · rename_i here
      cases found
      exact Or.inr ⟨known, fun receiver bound => (agrees receiver bound).trans here.symm⟩
    · exact Or.inl found

section

variable (valid : model.Valid)

include valid

theorem Valid.bound_slot (found : model.messages.get? id = some msg) (mem : attempt ∈ msg.attempts)
    (bound : model.boundToRetired slot attempt) : attempt.slot = slot := by
  simp only [boundToRetired, Option.any_eq_true, Bool.and_eq_true, decide_eq_true_eq] at bound
  rcases bound with ⟨receiver, registered, sameSlot, _⟩
  have binds : model.Binds id attempt.binding :=
    ⟨msg, found, List.mem_map.mpr ⟨attempt, mem, rfl⟩⟩
  exact ((valid.linked.bound binds).2 receiver registered).1.symm.trans sameSlot

variable (allowed : powers.links = true)

include allowed

variable (now : Instant)

include now

/-- The successor of a stream takes over what the retired receiver had open. -/
theorem Valid.resumeFrom (stream : slot.oneShot = false) (old : Rx) :
    Moves powers model (model.resumeFrom now slot old).2 := by
  have retired : Move powers model { model with
      receivers := model.receivers.modify old fun receiver =>
        { receiver with retired := true } } := by
    refine Move.keepRegistered allowed _ model.slots ?_ fun _ _ found => found
    intro other receiver found
    rw [SortedMap.get?_modify] at found
    split at found
    · rcases Option.map_eq_some_iff.mp found with ⟨before, foundBefore, rfl⟩
      exact ⟨before, foundBefore, rfl, rfl, rfl⟩
    · exact ⟨receiver, found, rfl, rfl, rfl⟩
  refine (ReflTransGen.single retired).tail (Move.mapAttempts ?_)
  intro id msg record attempt mem
  split
  · rename_i resumes
    simp only [AttemptModel.resumes, Bool.and_eq_true, Bool.not_eq_true'] at resumes
    refine Touch.resume allowed _ resumes.2 ?_
    rw [(valid.move retired).bound_slot record mem resumes.1]
    exact stream
  · exact Touch.same

omit valid allowed now in
/-- A new receiver is handed the corrections that its slot still owes. -/
theorem Move.handBack (slot : Slot) (rx : Rx) : Move powers model (model.handBack slot rx) := by
  apply Move.mapAttempts
  intro id msg record attempt mem
  split
  · rename_i corrects
    simp only [AttemptModel.corrects, Bool.and_eq_true] at corrects
    exact Touch.correcting rx corrects.1.1.2
  · exact Touch.same

/-- A registration supersedes a hook and succeeds a stream. -/
theorem Valid.register (slot : Slot) (queueSurvived : Bool) :
    Moves powers model (model.register now slot queueSurvived).2 := by
  have enrolled : Move powers model (model.enroll now slot queueSurvived) :=
    Move.enroll allowed now slot queueSurvived
  have validEnrolled := valid.move enrolled
  have occupied : Move powers (model.enroll now slot queueSurvived)
      ((model.enroll now slot queueSurvived).occupy slot model.nextRx) := by
    apply Move.occupy allowed
    · exact Nat.lt_succ_self _
    · intro receiver found
      simp only [AttemptModel.enroll, SortedMap.get?_insert] at found
      cases found
      rfl
  have placed := (ReflTransGen.single enrolled).tail occupied
  have validPlaced := valid.moves placed
  simp only [AttemptModel.register]
  split
  · rename_i oneShot
    have superseded : Moves powers model
        ((model.enroll now slot queueSurvived).supersede now slot model.nextRx) := by
      simp only [AttemptModel.supersede]
      split
      · split
        · rename_i old held
          refine placed.trans (validPlaced.closeOneShot allowed now old true ?_)
          intro receiver found
          rw [(validEnrolled.linked.slotted held).2 receiver found]
          exact oneShot
        · exact placed
      · exact ReflTransGen.single enrolled
    exact superseded.trans ((valid.moves superseded).finalizeEach now _)
  · rename_i stream
    rw [Bool.not_eq_true] at stream
    have succeeded : Moves powers model
        ((model.enroll now slot queueSurvived).succeed now slot model.nextRx).2 := by
      simp only [AttemptModel.succeed]
      split
      · rename_i old _
        exact placed.trans (validPlaced.resumeFrom allowed now stream old)
      · exact placed
    have corrected := succeeded.tail (Move.handBack slot model.nextRx)
    exact corrected.trans ((valid.moves corrected).finalizeEach now _)

omit valid allowed now in
theorem Move.regainOnce (model : AttemptModel) : Move powers model model.regainOnce := by
  apply Move.mapAttempts
  intro id msg record attempt mem
  split
  · exact Touch.recheck
  · exact Touch.same

omit allowed in
theorem Valid.turn (view : TurnView) : Moves powers model (model.turn now view) := by
  simp only [AttemptModel.turn]
  have clocked : Move powers model { model with turnClock := view } := Move.clock view
  refine (ReflTransGen.single clocked).trans ?_
  have valid := valid.move clocked
  split
  · have regained : Move powers { model with turnClock := view } _ := Move.regainOnce _
    exact (ReflTransGen.single regained).trans ((valid.move regained).finalizeEach now _)
  · exact valid.finalizeEach now _

theorem Valid.connectionClosed (rx : Rx) : Moves powers model (model.connectionClosed now rx) := by
  simp only [AttemptModel.connectionClosed]
  split
  · rename_i oneShot
    have closed : Moves powers model (model.closeOneShot now rx false) := by
      apply valid.closeOneShot allowed
      intro receiver found
      simpa [found] using oneShot
    exact closed.trans ((valid.moves closed).finalizeEach now _)
  · exact valid.finalizeEach now _

theorem Valid.streamClosed (rx : Rx) : Moves powers model (model.streamClosed now rx) := by
  have closed : Move powers model { model with
      receivers := model.receivers.modify rx fun receiver =>
        if !receiver.retired && !receiver.slot.oneShot then
          { receiver with closedAt := some (receiver.closedAt.getD now) }
        else receiver } := by
    refine Move.keepRegistered allowed _ model.slots ?_ fun _ _ found => found
    intro other receiver found
    rw [SortedMap.get?_modify] at found
    split at found
    · rcases Option.map_eq_some_iff.mp found with ⟨before, foundBefore, rfl⟩
      refine ⟨before, foundBefore, ?_⟩
      split <;> simp
    · exact ⟨receiver, found, rfl, rfl, rfl⟩
  exact (ReflTransGen.single closed).trans ((valid.move closed).finalizeEach now _)

omit valid allowed now in
theorem Move.regainHeld (model : AttemptModel) (rx : Rx) (entry : String × ℕ × ℕ) :
    Move powers model (AttemptModel.regainHeld rx model entry) := by
  apply Move.updateAttempt
  intro msg _ attempt _ _ _
  split
  · exact Touch.recheck
  · exact Touch.same

omit valid now in
/-- A snapshot is noted at its receiver. -/
theorem Move.noteSnapshot {rx : Rx} (found : model.receivers.get? rx = some receiver)
    (now : Instant) (seq seen : ℕ) (held : List (String × ℕ × ℕ)) :
    Move powers model (model.noteSnapshot now rx receiver seq seen held) := by
  refine Move.keepRegistered allowed _ model.slots ?_ fun _ _ found => found
  intro other after foundAfter
  rw [SortedMap.get?_insert] at foundAfter
  split at foundAfter
  · rename_i here
    cases foundAfter
    exact ⟨receiver, here ▸ found, rfl, rfl, rfl⟩
  · exact ⟨after, foundAfter, rfl, rfl, rfl⟩

/-- What a snapshot holds is regained, one attempt after another. -/
theorem Valid.applySnapshot (rx : Rx) (seq seen : ℕ) (held : List (String × ℕ × ℕ)) :
    Moves powers model (model.applySnapshot now rx seq seen held).2 := by
  simp only [AttemptModel.applySnapshot]
  split
  · exact .refl
  · rename_i receiver found
    split
    · exact .refl
    · have noted : Move powers model (model.noteSnapshot now rx receiver seq seen held) :=
        Move.noteSnapshot allowed found now seq seen held
      refine (ReflTransGen.single noted).trans ?_
      exact foldl_moves_of_valid held (valid.move noted) fun current entry _ =>
        ReflTransGen.single (Move.regainHeld current rx entry)

theorem Valid.snapshot (rx : Rx) (seq seen : ℕ) (held : List (String × ℕ × ℕ)) :
    Moves powers model (model.snapshot now rx seq seen held).2 := by
  have noted : Moves powers model (model.applySnapshot now rx seq seen held).2 :=
    valid.applySnapshot allowed now rx seq seen held
  simp only [AttemptModel.snapshot]
  split
  · exact noted.trans ((valid.moves noted).finalizeEach now _)
  · exact noted

omit valid allowed now in
theorem closeOneShot_receivers (model : AttemptModel) (now : Instant) (rx : Rx) (close : Bool)
    {other : Rx} (found : (model.closeOneShot now rx close).receivers.get? other = some receiver) :
    model.receivers.get? other = some receiver := by
  simp only [AttemptModel.closeOneShot] at found
  split at found
  · exact found
  · split at found
    · exact SortedMap.get?_of_erase found
    · exact SortedMap.get?_of_erase found

/-- A receiver whose hold has run out is a hook; the loop only removes receivers, so one that it
comes to is still what it was. -/
theorem Valid.closeHeld {current : AttemptModel} (isValid : current.Valid)
    (kept : ∀ rx receiver, current.receivers.get? rx = some receiver →
      model.receivers.get? rx = some receiver)
    {rx : Rx} (due : rx ∈ (model.receivers.entries.filter fun entry =>
      entry.2.holdUntil.any fun holdUntil => decide (holdUntil ≤ now)).map Prod.fst) :
    Moves powers current (current.closeOneShot now rx true) := by
  apply isValid.closeOneShot allowed
  intro receiver found
  rcases List.mem_map.mp due with ⟨⟨dueRx, held⟩, mem, rfl⟩
  rw [List.mem_filter, ← SortedMap.get?_eq_some_iff] at mem
  cases Option.some.inj (mem.1.symm.trans (kept dueRx receiver found))
  simp only [Option.any_eq_true] at mem
  rcases mem.2 with ⟨holdUntil, holds, _⟩
  have isHook := (valid.linked.registered mem.1).2 (by simp [holds])
  rw [isHook]
  rfl

omit valid allowed now in
theorem finalizeBoundTo_receivers (model : AttemptModel) (now : Instant) (rx : Rx) :
    (model.finalizeBoundTo now rx).receivers = model.receivers :=
  finalizeEach_receivers model now _

/-- A hook whose hold has run out is closed. -/
theorem Valid.expireHolds : Moves powers model (model.expireHolds now) := by
  refine foldl_moves (fun current => ∀ rx receiver, current.receivers.get? rx = some receiver →
    model.receivers.get? rx = some receiver) _ valid (fun _ _ found => found) ?_
  intro current rx due isValid kept
  have closed : Moves powers current (current.closeOneShot now rx true) :=
    valid.closeHeld allowed now isValid kept due
  refine ⟨closed.trans ((isValid.moves closed).finalizeEach now _), ?_⟩
  intro other receiver found
  rw [finalizeBoundTo_receivers] at found
  exact kept other receiver (closeOneShot_receivers current now rx true found)

omit valid now in
/-- A retired stream fences its open attempts that are not to be resumed. -/
theorem moves_retireStream (model : AttemptModel) (rx : Rx) :
    Moves powers model (model.retireStream rx) := by
  have fenced : ∀ current : AttemptModel,
      Move powers current (current.mapAttempts fun _ => fenceRetired rx) := by
    intro current
    apply Move.mapAttempts
    intro id msg record attempt mem
    simp only [fenceRetired]
    split
    · rename_i bound
      simp only [Bool.and_eq_true, Bool.not_eq_true'] at bound
      exact Touch.fence bound.1.2 bound.2 attempt.quietAt
    · exact Touch.same
  simp only [AttemptModel.retireStream]
  split
  · exact ReflTransGen.single (fenced model)
  · rename_i receiver found
    refine (ReflTransGen.single (Move.keepRegistered allowed _ _ ?_ ?_)).tail (fenced _)
    · intro other after foundAfter
      rw [SortedMap.get?_insert] at foundAfter
      split at foundAfter
      · rename_i here
        cases foundAfter
        exact ⟨receiver, here ▸ found, rfl, rfl, rfl⟩
      · exact ⟨after, foundAfter, rfl, rfl, rfl⟩
    · exact fun _ _ => get?_of_get?_vacate

theorem Valid.retireClosed : Moves powers model (model.retireClosed now) :=
  foldl_moves_of_valid _ valid fun current rx _ => moves_retireStream allowed current rx

end

/-! ## Stage records -/

/-- Whether a stage record commits an attempt of its message's current assignment. -/
def commits (model : AttemptModel) (id : String) (a e : ℕ) (stage : Stage) : Bool :=
  decide (stage = .committed) && (model.messages.get? id).any fun msg =>
    decide (a = msg.a) && (msg.attempt a e).isSome

theorem Valid.stage (valid : model.Valid) (now : Instant) (id : String) (a e : ℕ) (stage : Stage)
    (source : Option Rx) (allowed : model.commits id a e stage = true → powers.commits) :
    Moves powers model (model.stage now id a e stage source).2 := by
  simp only [AttemptModel.stage]
  split
  · exact .refl
  · rename_i running
    rw [Bool.not_eq_true] at running
    split
    · exact .refl
    · rename_i msg record
      split
      · exact .refl
      · rename_i attempt lookup
        have found : model.attempt id a e = some attempt := by
          simp [AttemptModel.attempt, record, lookup]
        split
        · rename_i committing
          have violation : Plain
              (if attempt.stage = .notHanded ∨ a ≠ msg.a then [Effect.witnessViolation id a e]
              else []) := by
            constructor
            · intro other otherA otherE
              split <;> simp
            · split <;> simp
          split
          · exact .refl
          · split
            · rename_i earlier
              have committed : Move powers model (model.updateAttempt id a e commitStage) := by
                apply valid.updateFound found
                intro other otherRecord _ isA _
                rw [record] at otherRecord
                cases otherRecord
                exact Touch.commitEarlier (isA ▸ earlier)
              exact (((ReflTransGen.single committed).tail (Move.emit _ violation)).tail
                (Move.emit _ ⟨fun _ _ _ => by simp, fun _ _ => by simp⟩)).tail (Move.reclaim id)
            · rename_i current
              rw [not_not] at current
              refine ReflTransGen.single
                (Move.commit (allowed ?_) now id a e _ running violation)
              rw [current] at lookup
              simp [commits, committing, record, current, lookup]
        · rename_i uncommitted
          split
          · exact .refl
          · rename_i reportable
            split
            · exact .refl
            · rename_i rx slot _
              split
              · exact .refl
              · rename_i bound
                split
                · exact .refl
                · rename_i above
                  have reported : Move powers model (model.updateAttempt id a e (reportStage
                      (if stage = .handed ∧ slot = .onceWaiter then .handedInert else stage))) := by
                    apply valid.updateFound found
                    intro _ _ _ _ _
                    rw [not_or] at bound reportable
                    rw [not_le] at above
                    have answered : attempt.resumePending = false := by
                      rw [← Bool.not_eq_true]
                      exact bound.2
                    split
                    · rename_i inert
                      refine Touch.report _ ?_ (by simp) (by simp) answered
                      rw [inert.1] at above
                      simp only [Stage.rank] at above ⊢
                      omega
                    · exact Touch.report stage above uncommitted reportable.2 answered
                  exact (ReflTransGen.single reported).tail (Move.finalize now id)

theorem moves_withhold (allowed : powers.withholds) (model : AttemptModel) (now : Instant)
    (id : String) (a e : ℕ) : Moves powers model (model.withhold now id a e) := by
  refine ReflTransGen.single (Move.updateAttempt ?_)
  intro msg _ attempt _ _ _
  exact Touch.withhold allowed _

section

variable (valid : model.Valid)

include valid

theorem Valid.deckNotHanded (now : Instant) (id : String) (a e : ℕ) (rx : Rx) :
    Moves powers model (model.deckNotHanded now id a e rx).2 := by
  simp only [AttemptModel.deckNotHanded]
  split
  · exact .refl
  · split
    · exact .refl
    · rename_i attempt found
      split
      · exact .refl
      · rename_i bound
        split
        · exact .refl
        · refine (ReflTransGen.single (valid.updateFound found ?_)).tail
            (Move.finalize now id)
          intro _ _ _ _ _
          rw [not_or, Bool.not_eq_false] at bound
          refine Touch.deckNotHanded ?_ bound.2
          tauto

theorem Valid.released (now : Instant) (id : String) (a e : ℕ) (handedOver : Bool) :
    Moves powers model (model.released now id a e handedOver) := by
  simp only [AttemptModel.released]
  split
  · exact .refl
  · have released : Move powers model (model.updateAttempt id a e releaseHold) :=
      Move.updateAttempt fun _ _ _ _ _ _ => Touch.releaseHold
    split
    · exact (ReflTransGen.single released).tail (Move.finalize now id)
    · exact (ReflTransGen.single released).trans
        ((valid.move released).deckNotHanded now id a e _)

theorem Valid.stagingLapsed (now : Instant) : Moves powers model (model.stagingLapsed now) := by
  have released : Move powers model (model.mapAttempts fun _ attempt =>
      if stagingRanOut now attempt then releaseHold attempt else attempt) := by
    apply Move.mapAttempts
    intro id msg record attempt mem
    split
    · exact Touch.releaseHold
    · exact Touch.same
  refine (ReflTransGen.single released).trans ?_
  apply foldl_moves_of_valid _ (valid.move released)
  intro current entry isValid
  have told : Move powers current
      (current.emit [.stagingLapsed entry.1 entry.2.a entry.2.e]) :=
    Move.emit _ ⟨fun _ _ _ => by simp, fun _ _ => by simp⟩
  exact (ReflTransGen.single told).trans ((isValid.move told).deckNotHanded now _ _ _ _)

theorem Valid.expireStaging (now : Instant) : Moves powers model (model.expireStaging now) := by
  simp only [AttemptModel.expireStaging]
  split
  · exact .refl
  · exact valid.stagingLapsed now

/-! ## Spool checks and the clock -/

theorem Valid.tickVerified (verified : List LapseCheck) :
    Moves powers model (model.tickVerified verified) := by
  simp only [AttemptModel.tickVerified]
  split
  · exact .refl
  · apply foldl_moves_of_valid verified valid
    intro current check isValid
    split
    · exact .refl
    · split
      · have unverified : Move powers current (current.updateAttempt check.id check.a check.e
            fun attempt => { attempt with verifier := false }) :=
          Move.updateAttempt fun _ _ _ _ _ _ => Touch.unverify
        exact (ReflTransGen.single unverified).tail (Move.reclaim check.id)
      · exact ReflTransGen.single (Move.reclaim check.id)

omit valid in
theorem moves_clearCheck (allowed : powers.clears) (model : AttemptModel) (now : Instant)
    (check : LapseCheck) : Moves powers model (clearCheck now model check) := by
  simp only [clearCheck]
  split
  · exact ReflTransGen.single
      (Move.updateAttempt fun _ _ _ _ _ _ => Touch.clear allowed)
  · exact .refl

theorem Valid.clearChecks (allowed : powers.clears) (now : Instant)
    (cleared : List LapseCheck) : Moves powers model (model.clearChecks now cleared) :=
  foldl_moves_of_valid cleared valid fun current check _ =>
    moves_clearCheck allowed current now check

omit valid in
theorem moves_noteHeldLong (model : AttemptModel) (now : Instant) (id : String) :
    Moves powers model (model.noteHeldLong now id) := by
  simp only [AttemptModel.noteHeldLong]
  split
  · exact .refl
  · rename_i msg record
    split
    · exact (ReflTransGen.single (Move.insert record (Edit.heldLong _))).tail
        (Move.emit _ ⟨fun _ _ _ => by simp, fun _ _ => by simp⟩)
    · exact .refl

theorem Valid.tickMessage (now : Instant) (id : String) :
    Moves powers model (tickMessage now model id) := by
  have lapsed : Move powers model { model with
      messages := model.messages.modify id fun msg =>
        { msg with attempts := msg.attempts.map (lapseResume now) } } := by
    refine Move.edit _ (SortedMap.Related.modify (fun _ => Edit.refl powers) model.messages id ?_)
    intro msg record
    refine Edit.touch _ (Delivery.forall₂_map ?_)
    intro attempt mem
    simp only [lapseResume]
    split
    · rename_i overdue
      simp only [Bool.and_eq_true] at overdue
      exact Touch.fenceResumed ((valid.recorded.staging record).resuming attempt mem overdue.1).1
    · exact Touch.same
  exact ((ReflTransGen.single lapsed).tail (Move.finalize now id)).trans
    (moves_noteHeldLong _ now id)

omit valid in
theorem moves_revokesDue (model : AttemptModel) (now : Instant) :
    Moves powers model (model.revokesDue now) := by
  simp only [revokesDue]
  split
  · exact .refl
  · have resent : Move powers model (model.mapAttempts fun _ attempt =>
        if revokeDue model.limits now attempt then { attempt with revokeSent := some now }
        else attempt) := by
      apply Move.mapAttempts
      intro id msg record attempt mem
      split
      · exact Touch.resend now
      · exact Touch.same
    exact (ReflTransGen.single resent).tail
      (Move.emit _ ⟨fun _ _ _ => by simp, fun _ _ => by simp⟩)

theorem Valid.tickMessages (now : Instant) (ids : List String) :
    Moves powers model ((ids.foldl (AttemptModel.tickMessage now) model).revokesDue now) := by
  refine ReflTransGen.trans ?_ (moves_revokesDue _ now)
  exact foldl_moves_of_valid ids valid fun current id isValid => isValid.tickMessage now id

theorem Valid.runTimers (allowed : powers.links) (now : Instant) :
    Moves powers model (model.runTimers now) := by
  have expired : Moves powers model (model.expireHolds now) := valid.expireHolds allowed now
  have retired := expired.trans ((valid.moves expired).retireClosed allowed now)
  have staged := retired.trans ((valid.moves retired).stagingLapsed now)
  exact staged.trans ((valid.moves staged).tickMessages now _)

theorem Valid.tickCleared (allowed : powers.clears) (links : powers.links)
    (now : Instant) (cleared : List LapseCheck) :
    Moves powers model (model.tickCleared now cleared) := by
  simp only [AttemptModel.tickCleared]
  split
  · exact .refl
  · have checked := valid.clearChecks allowed now cleared
    exact checked.trans ((valid.moves checked).runTimers links now)

theorem Valid.tickHolds (allowed : powers.links) (now : Instant) :
    Moves powers model (if model.exited then model else model.expireHolds now) := by
  split
  · exact .refl
  · exact valid.expireHolds allowed now

theorem Valid.tick (allowed : powers.clears) (links : powers.links) (now : Instant) :
    Moves powers model (model.tick now) := by
  have expired : Moves powers model (if model.exited then model else model.expireHolds now) :=
    valid.tickHolds links now
  exact expired.trans ((valid.moves expired).tickCleared allowed links now _)

omit valid in
theorem moves_noteTurn (model : AttemptModel) (now : Instant) (turn : TurnView) :
    Moves powers model (model.noteTurn now turn) := by
  simp only [noteTurn]
  split
  · exact .refl
  · refine ReflTransGen.single (Move.edit _ (SortedMap.Related.map model.messages ?_))
    exact fun id msg _ => Edit.notStarted _

theorem Valid.tickTurn (allowed : powers.clears) (links : powers.links)
    (now : Instant) (cleared : List LapseCheck) (turn : TurnView) :
    Moves powers model (model.tickTurn now cleared turn) := by
  have turned : Moves powers model (model.turn now turn) := valid.turn now turn
  have ticked := turned.trans ((valid.moves turned).tickCleared allowed links now cleared)
  exact ticked.trans (moves_noteTurn _ now turn)

/-! ## Resume answers and user actions -/

theorem Valid.resumeAnswer (allowed : powers.links) (now : Instant) (rx : Rx) (id : String)
    (a e : ℕ) (answer : ResumeAnswer) :
    Moves powers model (model.resumeAnswer now rx id a e answer).2 := by
  simp only [AttemptModel.resumeAnswer]
  split
  · exact .refl
  · rename_i receiver registered
    split
    · exact .refl
    · split
      · exact .refl
      · rename_i attempt found
        split
        · exact .refl
        · rename_i pending
          rw [Bool.not_eq_false] at pending
          split
          · exact .refl
          · rename_i sameSlot
            rw [not_not] at sameSlot
            have isOpen : ∀ msg, model.messages.get? id = some msg → attempt ∈ msg.attempts →
                attempt.stage.isFinal = false := fun msg record mem =>
              ((valid.recorded.staging record).resuming attempt mem pending).1
            have fenced : Move powers model
                (model.updateAttempt id a e fun attempt => (unresume attempt).fence) :=
              valid.updateFound found fun msg record mem _ _ =>
                Touch.fenceResumed (isOpen msg record mem)
            refine ReflTransGen.tail ?_ (Move.finalize now id)
            split
            · refine ReflTransGen.tail (ReflTransGen.single ?_) (Move.emit _ ?_)
              · refine Move.rebind allowed now id a e rx receiver registered ?_
                intro msg record other mem isA isE
                rcases exists_of_attempt found with ⟨same, sameRecord, lookup⟩
                rw [record] at sameRecord
                cases sameRecord
                have isFound := (valid.recorded.counted record).eq_of_lookup lookup mem isA isE
                subst isFound
                refine ⟨isOpen msg record mem, ?_⟩
                rcases Option.map_eq_some_iff.mp sameSlot with ⟨bound, boundFound, slot⟩
                have binds : model.Binds id attempt.binding :=
                  ⟨msg, record, List.mem_map.mpr ⟨attempt, mem, rfl⟩⟩
                exact ((valid.linked.bound binds).2 bound boundFound).1.symm.trans slot
              · constructor
                · intro other otherA otherE
                  split <;> simp
                · split <;> simp
            · split
              · exact ReflTransGen.single (valid.updateFound found
                  fun msg record mem _ _ => Touch.resumeNotHanded (isOpen msg record mem))
              · exact ReflTransGen.single fenced
            · exact ReflTransGen.single fenced

end

theorem moves_applied (allowed : powers.acts) (model : AttemptModel) (now : Instant)
    (revision : ℕ) (verb : Verb) {changed : Delivery} {effects : List Effect}
    (record : model.messages.get? id = some msg) (edit : Edit powers msg changed)
    (plain : Plain effects) :
    Moves powers model (model.applied now id revision verb changed effects).2 := by
  have changes : Moves powers model
      (({ model with messages := model.messages.insert id changed }.emit effects).finalize
        now id) :=
    ((ReflTransGen.single (Move.insert record edit)).tail
      (Move.emit effects plain)).tail (Move.finalize now id)
  simp only [applied]
  split
  · exact changes
  · rename_i msg found
    exact changes.tail (Move.insert found (Edit.lastAction allowed _))

theorem moves_action (allowed : powers.acts) (model : AttemptModel) (now : Instant)
    (id : String) (generation revision : ℕ) (verb : Verb) :
    Moves powers model (model.action now id generation revision verb).2 := by
  simp only [action]
  split
  · exact .refl
  · split
    · exact .refl
    · rename_i msg record
      split
      · exact .refl
      · split
        · exact .refl
        · split
          · exact .refl
          · split
            · exact .refl
            · rename_i live
              rw [Bool.not_eq_true] at live
              split
              · split
                · exact .refl
                · split
                  · exact .refl
                  · exact moves_applied allowed model now revision _ record
                      (Edit.retried allowed live) ⟨fun _ _ _ => by simp, fun _ _ => by simp⟩
              · exact moves_applied allowed model now revision _ record
                  (Edit.cancelled allowed live now) (Delivery.revokeEffects_plain id _)

/-! ## Handing out -/

/-- What a kind of hand-out needs of the record. -/
def Grants (model : AttemptModel) (now : Instant) (id : String) (msg : Delivery)
    (kind : IssueKind) : Prop :=
  (∃ token, msg.token = some token ∧ model.tokenValid now id msg token = true ∧
    kind = token.kind.issueKind) ∨
  (msg.token = none ∧ msg.state = .queued ∧
    kind = if msg.attempts.isEmpty then .first else .requeue)

/-- Everything `issue` has checked when it hands `id` out. -/
structure HandsOut (model : AttemptModel) (now : Instant) (id : String) (rx : Rx)
    (receiver : Receiver) (msg : Delivery) (kind : IssueKind) : Prop where
  running : model.exited = false
  registered : model.receivers.get? rx = some receiver
  active : receiver.retired = false
  record : model.messages.get? id = some msg
  live : msg.state.isTerminal = false
  unlatched : msg.latch = false
  granted : model.Grants now id msg kind
  room : msg.issued < model.limits.maxAttempts
  affordable : model.evidenceReserved + evidencePerAttempt ≤ model.limits.evidenceLimit

theorem handOut_cases (model : AttemptModel) (now : Instant) (id : String) (rx : Rx)
    (receiver : Receiver) (msg : Delivery) (kind : IssueKind) :
    ((∃ refusal, (model.handOut now id rx receiver msg kind).1 = .error refusal) ∧
      Moves powers model (model.handOut now id rx receiver msg kind).2) ∨
    (msg.issued < model.limits.maxAttempts ∧
      model.evidenceReserved + evidencePerAttempt ≤ model.limits.evidenceLimit ∧
      model.handOut now id rx receiver msg kind =
        (.ok ⟨msg.a, msg.attempts.length + 1, receiver.nextD + 1, kind⟩,
          (model.handTo now id rx receiver msg kind).finalize now id)) := by
  simp only [handOut]
  split
  · exact Or.inl ⟨⟨_, rfl⟩, moves_finalize model now id⟩
  · rename_i room
    split
    · exact Or.inl ⟨⟨_, rfl⟩, ReflTransGen.single
        (Move.emit _ ⟨fun _ _ _ => by simp, fun _ _ => by simp⟩)⟩
    · rename_i affordable
      exact Or.inr ⟨not_le.mp room, not_lt.mp affordable, rfl⟩

theorem issue_cases (model : AttemptModel) (now : Instant) (id : String) (rx : Rx) :
    ((∃ refusal, (model.issue now id rx).1 = .error refusal) ∧
      Moves powers model (model.issue now id rx).2) ∨
    ∃ receiver msg kind, model.HandsOut now id rx receiver msg kind ∧
      model.issue now id rx =
        (.ok ⟨msg.a, msg.attempts.length + 1, receiver.nextD + 1, kind⟩,
          (model.handTo now id rx receiver msg kind).finalize now id) := by
  simp only [issue]
  split
  · exact Or.inl ⟨⟨_, rfl⟩, ReflTransGen.refl⟩
  · rename_i running
    split
    · exact Or.inl ⟨⟨_, rfl⟩, ReflTransGen.refl⟩
    · rename_i receiver registered
      split
      · exact Or.inl ⟨⟨_, rfl⟩, ReflTransGen.refl⟩
      · rename_i active
        split
        · exact Or.inl ⟨⟨_, rfl⟩, ReflTransGen.refl⟩
        · rename_i msg record
          split
          · exact Or.inl ⟨⟨_, rfl⟩, ReflTransGen.refl⟩
          · rename_i live
            split
            · exact Or.inl ⟨⟨_, rfl⟩, ReflTransGen.refl⟩
            · rename_i unlatched
              rw [Bool.not_eq_true] at running active live unlatched
              split
              · rename_i token hasToken
                split
                · rename_i tokenValid
                  rcases handOut_cases model now id rx receiver msg token.kind.issueKind with
                    refused | ⟨room, affordable, handed⟩
                  · exact Or.inl refused
                  · exact Or.inr ⟨receiver, msg, _, ⟨running, registered, active, record, live,
                      unlatched,
                      Or.inl ⟨token, hasToken, tokenValid, rfl⟩, room, affordable⟩, handed⟩
                · exact Or.inl ⟨⟨_, rfl⟩, (ReflTransGen.single
                    (Move.insert record Edit.dropToken)).tail (Move.finalize now id)⟩
              · rename_i noToken
                split
                · rename_i queued
                  rcases handOut_cases model now id rx receiver msg
                    (if msg.attempts.isEmpty then .first else .requeue) with
                    refused | ⟨room, affordable, handed⟩
                  · exact Or.inl refused
                  · exact Or.inr ⟨receiver, msg, _, ⟨running, registered, active, record, live,
                      unlatched,
                      Or.inr ⟨noToken, queued, rfl⟩, room, affordable⟩, handed⟩
                · exact Or.inl ⟨⟨_, rfl⟩, ReflTransGen.refl⟩

section HandTo

variable {now : Instant} {id : String} {rx : Rx} {receiver : Receiver} {msg : Delivery}
  {kind : IssueKind}

theorem HandsOut.recorded (hands : model.HandsOut now id rx receiver msg kind)
    (recorded : model.Recorded none) :
    (model.handTo now id rx receiver msg kind).Recorded (some id) := by
  have budget : kind = .autoRepeat → msg.autoRepeats < model.limits.maxAutoRepeats := by
    intro auto
    rcases hands.granted with ⟨token, hasToken, _, rfl⟩ | ⟨_, _, rfl⟩
    · apply (recorded.counted hands.record).autoToken token hasToken
      cases kind : token.kind with
      | auto => rfl
      | manual => simp [kind, TokenKind.issueKind] at auto
    · split at auto <;> cases auto
  constructor
  · intro other record found
    simp only [handTo, SortedMap.get?_insert] at found
    split at found
    · cases found
      exact (recorded.counted hands.record).handOut now rx _ _ kind hands.room budget
    · exact recorded.counted found
  · intro other record found
    simp only [handTo, SortedMap.get?_insert] at found
    split at found
    · cases found
      exact (recorded.staging hands.record).handOut now rx _ _ kind
    · exact recorded.staging found
  · intro other record awaited found
    simp only [handTo, SortedMap.get?_insert] at found
    split at found
    · rename_i here
      exact absurd (congrArg some here) awaited
    · exact recorded.staged (by simp) found
  · intro other record running found
    simp only [handTo, SortedMap.get?_insert] at found
    split at found
    · cases found
      have unexited : msg.state ≠ .undeliverable .exited := recorded.running running hands.record
      exact unexited
    · exact recorded.running running found

theorem HandsOut.linked (hands : model.HandsOut now id rx receiver msg kind)
    (linked : model.Linked) : (model.handTo now id rx receiver msg kind).Linked := by
  refine linked.deliver hands.registered rfl rfl rfl id msg.a (msg.attempts.length + 1) ?_
  rintro other binding ⟨record, found, mem⟩
  simp only [handTo, SortedMap.get?_insert] at found
  split at found
  · rename_i here
    cases found
    simp only [Delivery.bindings, Delivery.handOut, List.map_append, List.map_map] at mem
    rcases List.mem_append.mp mem with earlier | last
    · rcases List.mem_map.mp earlier with ⟨attempt, attemptMem, rfl⟩
      refine Or.inl ⟨msg, here ▸ hands.record, List.mem_map.mpr ⟨attempt, attemptMem, ?_⟩⟩
      simp only [Function.comp_apply]
      split <;> rfl
    · exact Or.inr ⟨here, List.mem_singleton.mp last⟩
  · exact Or.inl ⟨record, found, mem⟩

theorem HandsOut.accounted (hands : model.HandsOut now id rx receiver msg kind)
    (accounted : model.Accounted) : (model.handTo now id rx receiver msg kind).Accounted := by
  have grown : (msg.handOut now rx (receiver.nextD + 1) receiver.slot kind).unreclaimed =
      msg.unreclaimed + 1 := by
    simp only [Delivery.unreclaimed, Delivery.reservations, Delivery.handOut, List.countP_append,
      List.countP_map]
    congr 1
    apply List.countP_congr
    intro attempt _
    simp only [Function.comp_apply]
    split <;> rfl
  have total := SortedMap.total_insert (fun _ msg => Delivery.unreclaimed msg) model.messages id
    (msg.handOut now rx (receiver.nextD + 1) receiver.slot kind)
  rw [hands.record, Option.map_some, Option.getD_some] at total
  have reserved := accounted.reserved
  refine ⟨?_, hands.affordable⟩
  simp only [unreclaimed, handTo, reserved]
  rw [← Nat.mul_succ]
  congr 1
  omega

theorem HandsOut.valid (hands : model.HandsOut now id rx receiver msg kind) (valid : model.Valid) :
    ((model.handTo now id rx receiver msg kind).finalize now id).Valid :=
  ⟨(hands.recorded valid.recorded).finalize (Or.inr rfl) hands.running now,
    (hands.linked valid.linked).move (Move.finalize now id : Move Powers.none _ _),
    (hands.accounted valid.accounted).finalize now id⟩

end HandTo

end AttemptModel

end AgentDeck.Attempts
