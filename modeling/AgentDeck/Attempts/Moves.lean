import AgentDeck.Attempts.Evolves

/-!
# Moves of the delivery model

`Move` says once what a step of the model can do. The operations are sequences of moves (the
next module shows which), so an invariant is proved for eight moves and not for thirty
operations. `Valid` is the invariant of the reachable states; it has three parts, and each is
kept by every move:

* `Recorded`: every record is counted and staged (see `Delivery.Counted`, `Delivery.Staged`);
* `Accounted`: the evidence reserved is what the unreclaimed attempts hold;
* `Linked`: every attempt is bound to a receiver of its slot under a number of its own.
-/

namespace AgentDeck.Attempts

namespace AttemptModel

variable {powers : Powers} {model later : AttemptModel}

/-- The record `id` after the finalizer's rules, before its evidence is reclaimed. -/
def ruled (model : AttemptModel) (now : Instant) (id : String) (msg : Delivery) : AttemptModel :=
  { model with
    messages := model.messages.insert id
      ((msg.rules model.limits now id (model.reading now id msg)).1.noteWitness now
        (model.reading now id msg).witnessed) }.emit
    (msg.rules model.limits now id (model.reading now id msg)).2

theorem finalize_cases (model : AttemptModel) (now : Instant) (id : String) :
    (model.finalize now id = model ∧ (model.exited = true ∨ model.messages.get? id = none)) ∨
      ∃ msg, model.exited = false ∧ model.messages.get? id = some msg ∧
        model.finalize now id = (model.ruled now id msg).reclaim id := by
  simp only [finalize]
  split
  · rename_i exited
    exact Or.inl ⟨rfl, Or.inl exited⟩
  · rename_i running
    rw [Bool.not_eq_true] at running
    split
    · rename_i absent
      exact Or.inl ⟨rfl, Or.inr absent⟩
    · rename_i msg found
      exact Or.inr ⟨msg, running, found, rfl⟩

section Frame

variable (now : Instant) (id : String)

variable (model) in
theorem reclaim_frame : ∃ messages reserved effects, model.reclaim id =
    { model with messages := messages, evidenceReserved := reserved, effects := effects } := by
  simp only [reclaim]
  split
  · exact ⟨model.messages, model.evidenceReserved, model.effects, rfl⟩
  · exact ⟨_, _, _, rfl⟩

variable (model) in
theorem finalize_frame : ∃ messages reserved effects, model.finalize now id =
    { model with messages := messages, evidenceReserved := reserved, effects := effects } := by
  rcases finalize_cases model now id with ⟨same, _⟩ | ⟨msg, _, _, same⟩
  · exact ⟨model.messages, model.evidenceReserved, model.effects, same⟩
  · rcases reclaim_frame (model.ruled now id msg) id with
      ⟨messages, reserved, effects, reclaimed⟩
    exact ⟨messages, reserved, effects, same.trans reclaimed⟩

@[simp]
theorem finalize_limits : (model.finalize now id).limits = model.limits := by
  rcases finalize_frame model now id with ⟨_, _, _, same⟩
  rw [same]

@[simp]
theorem finalize_receivers : (model.finalize now id).receivers = model.receivers := by
  rcases finalize_frame model now id with ⟨_, _, _, same⟩
  rw [same]

@[simp]
theorem finalize_slots : (model.finalize now id).slots = model.slots := by
  rcases finalize_frame model now id with ⟨_, _, _, same⟩
  rw [same]

@[simp]
theorem finalize_nextRx : (model.finalize now id).nextRx = model.nextRx := by
  rcases finalize_frame model now id with ⟨_, _, _, same⟩
  rw [same]

@[simp]
theorem finalize_forgottenA : (model.finalize now id).forgottenA = model.forgottenA := by
  rcases finalize_frame model now id with ⟨_, _, _, same⟩
  rw [same]

@[simp]
theorem finalize_exited : (model.finalize now id).exited = model.exited := by
  rcases finalize_frame model now id with ⟨_, _, _, same⟩
  rw [same]

@[simp]
theorem reclaim_limits : (model.reclaim id).limits = model.limits := by
  rcases reclaim_frame model id with ⟨_, _, _, same⟩
  rw [same]

@[simp]
theorem reclaim_receivers : (model.reclaim id).receivers = model.receivers := by
  rcases reclaim_frame model id with ⟨_, _, _, same⟩
  rw [same]

@[simp]
theorem reclaim_slots : (model.reclaim id).slots = model.slots := by
  rcases reclaim_frame model id with ⟨_, _, _, same⟩
  rw [same]

@[simp]
theorem reclaim_nextRx : (model.reclaim id).nextRx = model.nextRx := by
  rcases reclaim_frame model id with ⟨_, _, _, same⟩
  rw [same]

@[simp]
theorem reclaim_forgottenA : (model.reclaim id).forgottenA = model.forgottenA := by
  rcases reclaim_frame model id with ⟨_, _, _, same⟩
  rw [same]

@[simp]
theorem reclaim_exited : (model.reclaim id).exited = model.exited := by
  rcases reclaim_frame model id with ⟨_, _, _, same⟩
  rw [same]

theorem reclaim_related (R : Delivery → Delivery → Prop) (refl : ∀ msg, R msg msg)
    (reclaimed : ∀ msg : Delivery,
      R msg { msg with attempts := msg.attempts.map msg.reclaimAttempt }) :
    SortedMap.Related (fun _ => R) model.messages (model.reclaim id).messages := by
  simp only [reclaim]
  split
  · exact SortedMap.Related.refl (fun _ => refl) model.messages
  · rename_i msg found
    exact SortedMap.Related.insert (fun _ => refl) model.messages found (reclaimed msg)

theorem finalize_related {R : Delivery → Delivery → Prop} (refl : ∀ msg, R msg msg)
    (trans : ∀ {old middle new}, R old middle → R middle new → R old new)
    (ruled : ∀ (msg : Delivery) (reading : Delivery.Reading),
      R msg ((msg.rules model.limits now id reading).1.noteWitness now reading.witnessed))
    (reclaimed : ∀ msg : Delivery,
      R msg { msg with attempts := msg.attempts.map msg.reclaimAttempt }) :
    SortedMap.Related (fun _ => R) model.messages (model.finalize now id).messages := by
  rcases finalize_cases model now id with ⟨same, _⟩ | ⟨msg, _, found, same⟩
  · rw [same]
    exact SortedMap.Related.refl (fun _ => refl) model.messages
  · rw [same]
    refine SortedMap.Related.trans (fun _ => trans) ?_ (reclaim_related id R refl reclaimed)
    exact SortedMap.Related.insert (fun _ => refl) model.messages found (ruled msg _)

end Frame

/-- A change of the receivers that keeps slots, delivery numbers and holds. -/
structure Relinked (model later : AttemptModel) : Prop where
  nextRx : model.nextRx ≤ later.nextRx
  receivers : ∀ rx receiver, later.receivers.get? rx = some receiver →
    (∃ before, model.receivers.get? rx = some before ∧ receiver.slot = before.slot ∧
      receiver.nextD = before.nextD ∧ receiver.holdUntil = before.holdUntil) ∨
    (model.nextRx ≤ rx ∧ rx < later.nextRx ∧
      (receiver.holdUntil.isSome = true → receiver.slot = .hook))
  slots : ∀ slot rx, later.slots.get? slot = some rx → model.slots.get? slot = some rx ∨
    (rx < later.nextRx ∧ ∀ receiver, later.receivers.get? rx = some receiver → receiver.slot = slot)

inductive Move (powers : Powers) (model : AttemptModel) : AttemptModel → Prop
  | edit (messages : SortedMap String Delivery)
      (edited : SortedMap.Related (fun _ => Edit powers) model.messages messages) :
      Move powers model { model with messages := messages }
  | finalize (now : Instant) (id : String) : Move powers model (model.finalize now id)
  | commit (allowed : powers.commits = true) (now : Instant) (id : String) (a e : ℕ)
      (effects : List Effect) (running : model.exited = false) (plain : Plain effects) :
      Move powers model
        (((model.updateAttempt id a e commitStage).emit effects).finalize now id)
  | reclaim (id : String) : Move powers model (model.reclaim id)
  | rebind (allowed : powers.links = true) (now : Instant) (id : String) (a e : ℕ) (rx : Rx)
      (receiver : Receiver)
      (registered : model.receivers.get? rx = some receiver)
      (resumed : ∀ msg, model.messages.get? id = some msg → ∀ attempt ∈ msg.attempts,
        attempt.a = a → attempt.e = e →
          attempt.stage.isFinal = false ∧ attempt.slot = receiver.slot) :
      Move powers model
        ({ model with
          receivers := model.receivers.insert rx { receiver with nextD := receiver.nextD + 1 }
          }.updateAttempt id a e (rebind rx (receiver.nextD + 1) now))
  | relink (allowed : powers.links = true) (receivers : SortedMap Rx Receiver)
      (slots : SortedMap Slot Rx) (nextRx : Rx) (seenSlots : Finset Slot)
      (relinked : Relinked model
        { model with
          receivers := receivers, slots := slots, nextRx := nextRx, seenSlots := seenSlots }) :
      Move powers model
        { model with
          receivers := receivers, slots := slots, nextRx := nextRx, seenSlots := seenSlots }
  | clock (view : TurnView) : Move powers model { model with turnClock := view }
  | emit (effects : List Effect) (plain : Plain effects) :
      Move powers model (model.emit effects)

abbrev Moves (powers : Powers) : AttemptModel → AttemptModel → Prop :=
  Relation.ReflTransGen (Move powers)

/-! ## Records -/

/-- Every record is counted, and staged except for the record `pending`. -/
structure Recorded (pending : Option String) (model : AttemptModel) : Prop where
  counted : ∀ {id msg}, model.messages.get? id = some msg → msg.Counted model.limits
  staging : ∀ {id msg}, model.messages.get? id = some msg → msg.Staging
  staged : ∀ {id msg}, some id ≠ pending → model.messages.get? id = some msg → msg.Staged
  running : ∀ {id msg}, model.exited = false → model.messages.get? id = some msg →
    msg.state ≠ .undeliverable .exited

variable {pending : Option String}

theorem Recorded.insert (recorded : model.Recorded pending) (id : String) {msg : Delivery}
    (counted : msg.Counted model.limits) (staged : msg.Staged)
    (running : model.exited = false → msg.state ≠ .undeliverable .exited)
    (awaited : pending = none ∨ pending = some id) :
    { model with messages := model.messages.insert id msg }.Recorded none := by
  constructor
  · intro other record found
    rw [SortedMap.get?_insert] at found
    split at found
    · exact Option.some.inj found ▸ counted
    · exact recorded.counted found
  · intro other record found
    rw [SortedMap.get?_insert] at found
    split at found
    · exact Option.some.inj found ▸ staged.toStaging
    · exact recorded.staging found
  · intro other record _ found
    rw [SortedMap.get?_insert] at found
    split at found
    · exact Option.some.inj found ▸ staged
    · rename_i different
      refine recorded.staged ?_ found
      rcases awaited with none | here
      · simp [none]
      · simpa [here] using different
  · intro other record notExited found
    rw [SortedMap.get?_insert] at found
    split at found
    · exact Option.some.inj found ▸ running notExited
    · exact recorded.running notExited found

theorem reading_reads (model : AttemptModel) (now : Instant) (id : String) (msg : Delivery) :
    Delivery.Reads (model.reading now id msg) msg := by
  constructor
  · simp [reading, Delivery.current, Delivery.HasCommit]
  · simp only [reading, Delivery.current]
    simp
  · simp only [reading, Delivery.current]
    simp only [Bool.and_eq_true, List.all_eq_true, List.mem_filter, decide_eq_true_eq, and_imp]
    exact fun _ all => all

theorem Recorded.emit (recorded : model.Recorded pending) (effects : List Effect) :
    (model.emit effects).Recorded pending :=
  ⟨recorded.counted, recorded.staging, recorded.staged, recorded.running⟩

theorem Recorded.reclaim (recorded : model.Recorded none) (id : String) :
    (model.reclaim id).Recorded none := by
  simp only [AttemptModel.reclaim]
  split
  · exact recorded
  · rename_i msg found
    have unexited : model.exited = false → msg.state ≠ .undeliverable .exited :=
      fun running => recorded.running running found
    have inserted := recorded.insert id (recorded.counted found).reclaim
      (recorded.staged (by simp) found).reclaim unexited (Or.inl rfl)
    exact ⟨inserted.counted, inserted.staging, inserted.staged, inserted.running⟩

theorem Recorded.finalize {id : String}
    (recorded : model.Recorded pending) (awaited : pending = none ∨ pending = some id)
    (running : model.exited = false) (now : Instant) : (model.finalize now id).Recorded none := by
  rcases finalize_cases model now id with ⟨same, exited | absent⟩ | ⟨msg, _, found, same⟩
  · simp [running] at exited
  · rw [same]
    refine ⟨recorded.counted, recorded.staging, ?_, recorded.running⟩
    intro other msg _ found
    refine recorded.staged ?_ found
    rcases awaited with none | here
    · simp [none]
    · rw [here]
      rintro ⟨⟩
      simp [absent] at found
  · rw [same]
    have counted := recorded.counted found
    have unexited := recorded.running running found
    have staged := (recorded.staging found).rules unexited counted.assigned_attempts
      (reading_reads model now id msg) model.limits now id
    have inserted := recorded.insert id
      ((counted.rules now id (model.reading now id msg)).noteWitness now
        (model.reading now id msg).witnessed)
      (staged.noteWitness now (model.reading now id msg).witnessed)
      (fun _ => by
        rw [Delivery.noteWitness_state]
        exact Delivery.rules_unexited unexited _ _ _ _) awaited
    exact (inserted.emit _).reclaim id

theorem Recorded.edit {messages : SortedMap String Delivery} (recorded : model.Recorded none)
    (edited : SortedMap.Related (fun _ => Edit powers) model.messages messages) :
    { model with messages := messages }.Recorded none := by
  constructor
  · intro id msg found
    rcases edited.left_of_right found with ⟨old, oldFound, edit⟩
    exact (recorded.counted oldFound).edit edit
  · intro id msg found
    rcases edited.left_of_right found with ⟨old, oldFound, edit⟩
    exact ((recorded.staged (by simp) oldFound).edit edit).toStaging
  · intro id msg _ found
    rcases edited.left_of_right found with ⟨old, oldFound, edit⟩
    exact (recorded.staged (by simp) oldFound).edit edit
  · intro id msg running found
    rcases edited.left_of_right found with ⟨old, oldFound, edit⟩
    exact edit.unexited (recorded.running running oldFound)

theorem Recorded.updateAttempt (recorded : model.Recorded none)
    (id : String) (a e : ℕ) {f : Attempt → Attempt}
    (identity : ∀ attempt : Attempt, ((f attempt).a, (f attempt).e, (f attempt).kind) =
      (attempt.a, attempt.e, attempt.kind))
    (staging : ∀ msg, model.messages.get? id = some msg → (msg.updateAttempt a e f).Staging)
    (staged : pending ≠ some id → ∀ msg, model.messages.get? id = some msg →
      (msg.updateAttempt a e f).Staged) : (model.updateAttempt id a e f).Recorded pending := by
  constructor
  · intro other msg found
    simp only [AttemptModel.updateAttempt, SortedMap.get?_modify] at found
    split at found
    · rcases Option.map_eq_some_iff.mp found with ⟨old, oldFound, rfl⟩
      refine (recorded.counted oldFound).restate ⟨?_, rfl, rfl⟩ rfl (Or.inr rfl) rfl
        (Or.inr (Or.inr rfl))
      exact Delivery.updateAttempt_map old a e identity
    · exact recorded.counted found
  · intro other msg found
    simp only [AttemptModel.updateAttempt, SortedMap.get?_modify] at found
    split at found
    · rename_i here
      rcases Option.map_eq_some_iff.mp found with ⟨old, oldFound, rfl⟩
      exact staging old (here ▸ oldFound)
    · exact recorded.staging found
  · intro other msg awaited found
    simp only [AttemptModel.updateAttempt, SortedMap.get?_modify] at found
    split at found
    · rename_i here
      rcases Option.map_eq_some_iff.mp found with ⟨old, oldFound, rfl⟩
      exact staged (here ▸ awaited.symm) old (here ▸ oldFound)
    · exact recorded.staged (by simp) found
  · intro other msg running found
    simp only [AttemptModel.updateAttempt, SortedMap.get?_modify] at found
    split at found
    · rcases Option.map_eq_some_iff.mp found with ⟨old, oldFound, rfl⟩
      have unexited : old.state ≠ .undeliverable .exited := recorded.running running oldFound
      exact unexited
    · exact recorded.running running found

theorem Recorded.move (recorded : model.Recorded none) (move : Move powers model later) :
    later.Recorded none := by
  cases move with
  | edit messages edited => exact recorded.edit edited
  | finalize now id =>
    by_cases running : model.exited = false
    · exact recorded.finalize (Or.inl rfl) running now
    · simpa [AttemptModel.finalize, running] using recorded
  | commit _ now id a e effects running =>
    have committed : (model.updateAttempt id a e commitStage).Recorded (some id) :=
      recorded.updateAttempt id a e (fun _ => rfl)
        (fun msg found => (recorded.staging found).commit a e) (fun other => absurd rfl other)
    exact (committed.emit effects).finalize (Or.inr rfl) running now
  | reclaim id => exact recorded.reclaim id
  | rebind _ now id a e rx receiver registered resumed =>
    have bumped : { model with
        receivers := model.receivers.insert rx { receiver with nextD := receiver.nextD + 1 }
        }.Recorded none :=
      ⟨recorded.counted, recorded.staging, recorded.staged, recorded.running⟩
    refine bumped.updateAttempt id a e (fun attempt => by rw [rebind_eq]) ?_ ?_
    · intro msg found
      exact ((recorded.staged (by simp) found).rebind a e rx _ now).toStaging
    · intro _ msg found
      exact (recorded.staged (by simp) found).rebind a e rx _ now
  | relink | clock => exact ⟨recorded.counted, recorded.staging, recorded.staged, recorded.running⟩
  | emit effects => exact recorded.emit effects

/-! ## Receivers -/

/-- The record `id` has an attempt bound so. -/
def Binds (model : AttemptModel) (id : String) (binding : Binding) : Prop :=
  ∃ msg, model.messages.get? id = some msg ∧ binding ∈ msg.bindings

structure Linked (model : AttemptModel) : Prop where
  bound : ∀ {id binding}, model.Binds id binding → binding.rx < model.nextRx ∧
    ∀ receiver, model.receivers.get? binding.rx = some receiver →
      receiver.slot = binding.slot ∧ binding.d ≤ receiver.nextD
  distinct : ∀ {id other left right}, model.Binds id left → model.Binds other right →
    left.rx = right.rx → left.d = right.d → id = other ∧ left.a = right.a ∧ left.e = right.e
  registered : ∀ {rx receiver}, model.receivers.get? rx = some receiver →
    rx < model.nextRx ∧ (receiver.holdUntil.isSome = true → receiver.slot = .hook)
  slotted : ∀ {slot rx}, model.slots.get? slot = some rx → rx < model.nextRx ∧
    ∀ receiver, model.receivers.get? rx = some receiver → receiver.slot = slot

theorem Linked.congr (linked : model.Linked)
    (related : SortedMap.Related (fun _ => Delivery.SameBindings) model.messages later.messages)
    (receivers : later.receivers = model.receivers) (slots : later.slots = model.slots)
    (nextRx : later.nextRx = model.nextRx) : later.Linked := by
  have binds : ∀ {id binding}, later.Binds id binding → model.Binds id binding := by
    rintro id binding ⟨msg, found, mem⟩
    rcases related.left_of_right found with ⟨old, oldFound, same⟩
    exact ⟨old, oldFound, same ▸ mem⟩
  refine ⟨?_, ?_, ?_, ?_⟩
  · intro id binding bound
    rw [receivers, nextRx]
    exact linked.bound (binds bound)
  · intro id other left right leftBound rightBound
    exact linked.distinct (binds leftBound) (binds rightBound)
  · intro rx receiver found
    rw [nextRx]
    exact linked.registered (receivers ▸ found)
  · intro slot rx found
    rw [nextRx, receivers]
    exact linked.slotted (slots ▸ found)

theorem finalize_bindings (now : Instant) (id : String) :
    SortedMap.Related (fun _ => Delivery.SameBindings) model.messages
      (model.finalize now id).messages := by
  apply finalize_related
  · exact fun _ => rfl
  · exact fun first second => second.trans first
  · intro msg reading
    simp only [Delivery.SameBindings, Delivery.bindings, Delivery.noteWitness_attempts]
    exact Delivery.rules_map msg _ now id reading Delivery.revoke_binding
  · exact fun msg => Delivery.map_map_eq msg.reclaimAttempt_binding

theorem Linked.relink (linked : model.Linked) (relinked : Relinked model later)
    (messages : later.messages = model.messages) : later.Linked := by
  have binds : ∀ {id binding}, later.Binds id binding → model.Binds id binding := by
    rintro id binding ⟨msg, found, mem⟩
    exact ⟨msg, messages ▸ found, mem⟩
  have grown := relinked.nextRx
  refine ⟨?_, ?_, ?_, ?_⟩
  · intro id binding bound
    rcases linked.bound (binds bound) with ⟨known, agrees⟩
    refine ⟨known.trans_le grown, ?_⟩
    intro receiver found
    rcases relinked.receivers _ receiver found with
      ⟨before, foundBefore, slot, nextD, _⟩ | ⟨fresh, _⟩
    · rw [slot, nextD]
      exact agrees before foundBefore
    · exact absurd known (not_lt.mpr fresh)
  · intro id other left right leftBound rightBound
    exact linked.distinct (binds leftBound) (binds rightBound)
  · intro rx receiver found
    rcases relinked.receivers rx receiver found with
      ⟨before, foundBefore, slot, _, holdUntil⟩ | ⟨_, known, hold⟩
    · rcases linked.registered foundBefore with ⟨known, hold⟩
      rw [slot, holdUntil]
      exact ⟨known.trans_le grown, hold⟩
    · exact ⟨known, hold⟩
  · intro slot rx found
    rcases relinked.slots slot rx found with before | fresh
    · rcases linked.slotted before with ⟨known, agrees⟩
      refine ⟨known.trans_le grown, ?_⟩
      intro receiver receiverFound
      rcases relinked.receivers rx receiver receiverFound with
        ⟨old, foundOld, sameSlot, _⟩ | ⟨new, _⟩
      · rw [sameSlot]
        exact agrees old foundOld
      · exact absurd known (not_lt.mpr new)
    · exact fresh

theorem Linked.deliver (linked : model.Linked) {rx : Rx} {receiver : Receiver}
    (registered : model.receivers.get? rx = some receiver)
    (receivers : later.receivers =
      model.receivers.insert rx { receiver with nextD := receiver.nextD + 1 })
    (slots : later.slots = model.slots) (nextRx : later.nextRx = model.nextRx) (id : String)
    (a e : ℕ)
    (binds : ∀ {other binding}, later.Binds other binding → model.Binds other binding ∨
      (other = id ∧ binding = ⟨a, e, rx, receiver.nextD + 1, receiver.slot⟩)) :
    later.Linked := by
  have fresh : ∀ {other binding}, model.Binds other binding → binding.rx = rx →
      binding.d ≤ receiver.nextD := by
    intro other binding bound here
    exact ((linked.bound bound).2 receiver (here ▸ registered)).2
  refine ⟨?_, ?_, ?_, ?_⟩
  · intro other binding bound
    rw [receivers, nextRx]
    rcases binds bound with before | ⟨rfl, rfl⟩
    · rcases linked.bound before with ⟨known, agrees⟩
      refine ⟨known, ?_⟩
      intro found
      rw [SortedMap.get?_insert]
      split
      · rename_i here
        rintro ⟨⟩
        rcases agrees receiver (here ▸ registered) with ⟨slot, d⟩
        exact ⟨slot, by simp; omega⟩
      · exact agrees found
    · refine ⟨(linked.registered registered).1, ?_⟩
      simp
  · intro left right leftBinding rightBinding leftBound rightBound sameRx sameD
    rcases binds leftBound with leftBefore | ⟨rfl, rfl⟩
    · rcases binds rightBound with rightBefore | ⟨rfl, rfl⟩
      · exact linked.distinct leftBefore rightBefore sameRx sameD
      · have := fresh leftBefore sameRx
        simp only at sameD
        omega
    · rcases binds rightBound with rightBefore | ⟨rfl, rfl⟩
      · have := fresh rightBefore sameRx.symm
        simp only at sameD
        omega
      · exact ⟨rfl, rfl, rfl⟩
  · intro other found
    rw [receivers, nextRx, SortedMap.get?_insert]
    split
    · rename_i here
      rintro ⟨⟩
      rw [here]
      have known := linked.registered registered
      exact known
    · exact linked.registered
  · intro slot other found
    rw [slots] at found
    rw [receivers, nextRx]
    rcases linked.slotted found with ⟨known, agrees⟩
    refine ⟨known, ?_⟩
    intro current
    rw [SortedMap.get?_insert]
    split
    · rename_i here
      rintro ⟨⟩
      exact agrees receiver (here ▸ registered)
    · exact agrees current

theorem updateAttempt_related (R : Delivery → Delivery → Prop) (refl : ∀ msg, R msg msg)
    (id : String) (a e : ℕ) {f : Attempt → Attempt}
    (updated : ∀ msg, model.messages.get? id = some msg → R msg (msg.updateAttempt a e f)) :
    SortedMap.Related (fun _ => R) model.messages (model.updateAttempt id a e f).messages :=
  SortedMap.Related.modify (fun _ => refl) model.messages id updated

theorem Linked.rebind (linked : model.Linked) (now : Instant) (id : String) (a e : ℕ) {rx : Rx}
    {receiver : Receiver} (registered : model.receivers.get? rx = some receiver)
    (resumed : ∀ msg, model.messages.get? id = some msg → ∀ attempt ∈ msg.attempts,
      attempt.a = a → attempt.e = e →
        attempt.stage.isFinal = false ∧ attempt.slot = receiver.slot) :
    ({ model with
      receivers := model.receivers.insert rx { receiver with nextD := receiver.nextD + 1 }
      }.updateAttempt id a e (rebind rx (receiver.nextD + 1) now)).Linked := by
  refine linked.deliver registered rfl rfl rfl id a e ?_
  rintro other binding ⟨msg, found, mem⟩
  simp only [AttemptModel.updateAttempt, SortedMap.get?_modify] at found
  split at found
  · rename_i here
    rcases Option.map_eq_some_iff.mp found with ⟨old, oldFound, rfl⟩
    rcases List.mem_map.mp mem with ⟨attempt, attemptMem, rfl⟩
    have updated : List.Forall₂ (fun before after : Attempt => after = before ∨
        (after.binding = ⟨a, e, rx, receiver.nextD + 1, receiver.slot⟩)) old.attempts
          (old.updateAttempt a e (AttemptModel.rebind rx (receiver.nextD + 1) now)).attempts := by
      refine Delivery.forall₂_updateFirst (fun _ => Or.inl rfl) ?_
      intro before beforeMem matched
      simp only [Bool.and_eq_true, decide_eq_true_eq] at matched
      right
      rw [rebind_eq]
      simp only [Attempt.binding, matched.1, matched.2,
        (resumed old (here ▸ oldFound) before beforeMem matched.1 matched.2).2]
    rcases Delivery.exists_left_of_forall₂ updated attemptMem with
      ⟨before, beforeMem, rfl | rebound⟩
    · exact Or.inl ⟨old, oldFound, List.mem_map.mpr ⟨attempt, beforeMem, rfl⟩⟩
    · exact Or.inr ⟨here, rebound⟩
  · exact Or.inl ⟨msg, found, mem⟩

theorem Linked.move (linked : model.Linked) (move : Move powers model later) : later.Linked := by
  cases move with
  | edit messages edited =>
    refine linked.congr (edited.imp ?_) rfl rfl rfl
    intro id old new _ edit
    exact Delivery.edit_map edit Touch.binding Delivery.revoke_binding
  | finalize now id => exact linked.congr (finalize_bindings now id) (by simp) (by simp) (by simp)
  | commit _ now id a e effects =>
    have committed : ((model.updateAttempt id a e commitStage).emit effects).Linked := by
      refine linked.congr (updateAttempt_related Delivery.SameBindings (fun _ => rfl) id a e ?_)
        rfl rfl rfl
      exact fun msg _ => Delivery.updateAttempt_map msg a e fun _ => rfl
    exact committed.congr (finalize_bindings now id) (by simp) (by simp) (by simp)
  | reclaim id =>
    refine linked.congr (reclaim_related id _ (fun _ => rfl) ?_) ?_ ?_ ?_
    · exact fun msg => Delivery.map_map_eq msg.reclaimAttempt_binding
    · simp
    · simp
    · simp
  | rebind _ now id a e rx receiver registered resumed =>
    exact linked.rebind now id a e registered resumed
  | relink _ receivers slots nextRx seenSlots relinked => exact linked.relink relinked rfl
  | clock | emit => exact ⟨linked.bound, linked.distinct, linked.registered, linked.slotted⟩

/-! ## Evidence -/

/-- The attempts whose evidence is still reserved. -/
def unreclaimed (model : AttemptModel) : ℕ :=
  model.messages.total fun _ msg => msg.unreclaimed

structure Accounted (model : AttemptModel) : Prop where
  reserved : model.evidenceReserved = evidencePerAttempt * model.unreclaimed
  affordable : model.evidenceReserved ≤ model.limits.evidenceLimit

/-- Whether the evidence of `(id, a, e)` has been returned, as a count. -/
def reclaimedCount (model : AttemptModel) (id : String) (a e : ℕ) : ℕ :=
  ((model.messages.get? id).map fun msg => msg.reservations.count ⟨a, e, true⟩).getD 0

/-- Every `Reclaimed` effect of the step goes with one attempt it reclaims, and the other way
round. -/
def Ledgered (model later : AttemptModel) : Prop :=
  ∀ id a e, later.effects.count (.reclaimed id a e) + model.reclaimedCount id a e =
    model.effects.count (.reclaimed id a e) + later.reclaimedCount id a e

section

variable (same : SortedMap.Related (fun _ => Delivery.SameReservations) model.messages
    later.messages)

include same

theorem unreclaimed_congr : later.unreclaimed = model.unreclaimed := by
  apply same.total_eq
  intro _ old new same
  simp only [Delivery.SameReservations] at same
  simp only [Delivery.unreclaimed, same]

theorem reclaimedCount_congr (id : String) (a e : ℕ) :
    later.reclaimedCount id a e = model.reclaimedCount id a e := by
  simp only [reclaimedCount]
  rcases found : model.messages.get? id with _ | msg
  · rw [same.right_none found]
  · rcases same.right_of_left found with ⟨new, newFound, same⟩
    simp only [Delivery.SameReservations] at same
    simp [newFound, same]

omit same in
theorem Ledgered.refl (model : AttemptModel) : model.Ledgered model := fun _ _ _ => rfl

omit same in
theorem Ledgered.trans {middle : AttemptModel} (first : model.Ledgered middle)
    (second : middle.Ledgered later) : model.Ledgered later := by
  intro id a e
  have firstStep := first id a e
  have secondStep := second id a e
  omega

theorem Ledgered.of_reservations {effects : List Effect}
    (emitted : later.effects = model.effects ++ effects) (unreclaiming : Unreclaiming effects) :
    model.Ledgered later := by
  intro id a e
  rw [reclaimedCount_congr same, emitted, List.count_append,
    List.count_eq_zero.mpr (unreclaiming id a e), Nat.add_zero]

end

theorem Accounted.congr (accounted : model.Accounted)
    (same : SortedMap.Related (fun _ => Delivery.SameReservations) model.messages later.messages)
    (reserved : later.evidenceReserved = model.evidenceReserved)
    (limits : later.limits = model.limits) : later.Accounted := by
  refine ⟨?_, ?_⟩
  · rw [reserved, unreclaimed_congr same]
    exact accounted.reserved
  · rw [reserved, limits]
    exact accounted.affordable

theorem Accounted.reclaim (accounted : model.Accounted) (id : String) :
    (model.reclaim id).Accounted := by
  simp only [AttemptModel.reclaim]
  split
  · exact accounted
  · rename_i msg found
    have shrunk := msg.unreclaimed_reclaim
    have total := SortedMap.total_insert (fun _ msg => Delivery.unreclaimed msg) model.messages id
      { msg with attempts := msg.attempts.map msg.reclaimAttempt }
    rw [found, Option.map_some, Option.getD_some] at total
    have reserved := accounted.reserved
    have affordable := accounted.affordable
    refine ⟨?_, ?_⟩
    · simp only [unreclaimed, reserved, ← Nat.mul_sub]
      congr 1
      omega
    · exact (Nat.sub_le _ _).trans affordable

theorem Ledgered.reclaim (model : AttemptModel) (id : String) :
    model.Ledgered (model.reclaim id) := by
  simp only [AttemptModel.reclaim]
  split
  · exact Ledgered.refl model
  · rename_i msg found
    intro other a e
    simp only [reclaimedCount, SortedMap.get?_insert, List.count_append]
    by_cases here : other = id
    · subst here
      have counted := msg.count_reclaim a e
      have listed : (msg.reclaimable.map fun attempt =>
          Effect.reclaimed other attempt.a attempt.e).count (.reclaimed other a e) =
            msg.reclaimable.countP fun attempt => attempt.a = a && attempt.e = e := by
        simp only [List.count, List.countP_map]
        apply List.countP_congr
        simp
      simp only [found, if_true, Option.map_some, Option.getD_some]
      omega
    · have unlisted : (msg.reclaimable.map fun attempt =>
          Effect.reclaimed id attempt.a attempt.e).count (.reclaimed other a e) = 0 := by
        apply List.count_eq_zero.mpr
        intro mem
        rcases List.mem_map.mp mem with ⟨_, _, same⟩
        simp only [Effect.reclaimed.injEq] at same
        exact here same.1.symm
      rw [if_neg here]
      omega

theorem ruled_reservations (now : Instant) {id : String} {msg : Delivery}
    (found : model.messages.get? id = some msg) :
    SortedMap.Related (fun _ => Delivery.SameReservations) model.messages
      (model.ruled now id msg).messages := by
  refine SortedMap.Related.insert (fun _ => Delivery.SameReservations.refl) model.messages found ?_
  simp only [Delivery.SameReservations, Delivery.reservations, Delivery.noteWitness_attempts]
  exact Delivery.rules_map msg _ now id _ Delivery.revoke_reservation

theorem Accounted.finalize (accounted : model.Accounted) (now : Instant) (id : String) :
    (model.finalize now id).Accounted := by
  rcases finalize_cases model now id with ⟨same, _⟩ | ⟨msg, _, found, same⟩
  · rw [same]
    exact accounted
  · rw [same]
    exact (accounted.congr (ruled_reservations now found) rfl rfl).reclaim id

theorem Ledgered.finalize (model : AttemptModel) (now : Instant) (id : String) :
    model.Ledgered (model.finalize now id) := by
  rcases finalize_cases model now id with ⟨same, _⟩ | ⟨msg, _, found, same⟩
  · rw [same]
    exact Ledgered.refl model
  · rw [same]
    exact (Ledgered.of_reservations (ruled_reservations now found) rfl
      (Delivery.rules_unreclaiming msg _ now id _)).trans (Ledgered.reclaim _ id)

theorem commit_reservations (id : String) (a e : ℕ) :
    SortedMap.Related (fun _ => Delivery.SameReservations) model.messages
      (model.updateAttempt id a e commitStage).messages :=
  updateAttempt_related Delivery.SameReservations (fun _ => rfl) id a e fun msg _ =>
    Delivery.updateAttempt_map msg a e fun _ => rfl

theorem rebind_reservations (id : String) (a e : ℕ) (rx : Rx) (d : ℕ) (now : Instant) :
    SortedMap.Related (fun _ => Delivery.SameReservations) model.messages
      (model.updateAttempt id a e (rebind rx d now)).messages :=
  updateAttempt_related Delivery.SameReservations (fun _ => rfl) id a e fun msg _ =>
    Delivery.updateAttempt_map msg a e fun attempt => by rw [rebind_eq]; rfl

theorem Accounted.move (accounted : model.Accounted) (move : Move powers model later) :
    later.Accounted := by
  cases move with
  | edit messages edited =>
    refine accounted.congr (edited.imp ?_) rfl rfl
    intro id old new _ edit
    exact Delivery.edit_map edit Touch.reservation Delivery.revoke_reservation
  | finalize now id => exact accounted.finalize now id
  | commit _ now id a e effects =>
    have committed : ((model.updateAttempt id a e commitStage).emit effects).Accounted :=
      accounted.congr (commit_reservations id a e) rfl rfl
    exact committed.finalize now id
  | reclaim id => exact accounted.reclaim id
  | rebind _ now id a e rx => exact accounted.congr (rebind_reservations id a e rx _ now) rfl rfl
  | relink | clock | emit => exact ⟨accounted.reserved, accounted.affordable⟩

theorem Ledgered.move (move : Move powers model later) : model.Ledgered later := by
  have nothing : Unreclaiming [] := fun _ _ _ => by simp
  have same : SortedMap.Related (fun _ => Delivery.SameReservations) model.messages
      model.messages :=
    SortedMap.Related.refl (fun _ => Delivery.SameReservations.refl) model.messages
  cases move with
  | edit messages edited =>
    refine Ledgered.of_reservations (edited.imp ?_) (List.append_nil _).symm nothing
    intro id old new _ edit
    exact Delivery.edit_map edit Touch.reservation Delivery.revoke_reservation
  | finalize now id => exact Ledgered.finalize model now id
  | commit _ now id a e effects running plain =>
    have committed : model.Ledgered ((model.updateAttempt id a e commitStage).emit effects) :=
      Ledgered.of_reservations (commit_reservations id a e) rfl plain.unreclaiming
    exact committed.trans (Ledgered.finalize _ now id)
  | reclaim id => exact Ledgered.reclaim model id
  | rebind _ now id a e rx =>
    exact Ledgered.of_reservations (rebind_reservations id a e rx _ now)
      (List.append_nil _).symm nothing
  | relink => exact Ledgered.of_reservations same (List.append_nil _).symm nothing
  | clock => exact Ledgered.of_reservations same (List.append_nil _).symm nothing
  | emit effects plain => exact Ledgered.of_reservations same rfl plain.unreclaiming

/-! ## Evolution and validity -/

/-- How the model evolves between two hand-outs, posts and forgettings. -/
structure Evolves (powers : Powers) (model later : AttemptModel) : Prop where
  records : SortedMap.Related (fun _ => Delivery.Evolves powers) model.messages later.messages
  limits : later.limits = model.limits
  exited : later.exited = model.exited
  forgottenA : later.forgottenA = model.forgottenA

theorem Evolves.refl (powers : Powers) (model : AttemptModel) : model.Evolves powers model :=
  ⟨SortedMap.Related.refl (fun _ => Delivery.Evolves.refl powers) model.messages, rfl, rfl, rfl⟩

theorem Evolves.trans {middle : AttemptModel} (first : model.Evolves powers middle)
    (second : middle.Evolves powers later) : model.Evolves powers later :=
  ⟨SortedMap.Related.trans (fun _ => Delivery.Evolves.trans) first.records second.records,
    second.limits.trans first.limits, second.exited.trans first.exited,
    second.forgottenA.trans first.forgottenA⟩

theorem Evolves.finalize (model : AttemptModel) (now : Instant) (id : String) :
    model.Evolves powers (model.finalize now id) := by
  refine ⟨?_, by simp, by simp, by simp⟩
  apply finalize_related
  · exact Delivery.Evolves.refl powers
  · exact Delivery.Evolves.trans
  · intro msg reading
    exact (Delivery.Evolves.rules msg _ now id reading).trans
      (Delivery.Evolves.noteWitness _ now _)
  · exact Delivery.Evolves.reclaim

theorem Evolves.move (move : Move powers model later) : model.Evolves powers later := by
  have same : SortedMap.Related (fun _ => Delivery.Evolves powers) model.messages model.messages :=
    SortedMap.Related.refl (fun _ => Delivery.Evolves.refl powers) model.messages
  cases move with
  | edit messages edited =>
    exact ⟨edited.imp fun _ _ _ _ edit => Delivery.Evolves.edit edit, rfl, rfl, rfl⟩
  | finalize now id => exact Evolves.finalize model now id
  | commit _ now id a e effects =>
    have committed : model.Evolves powers
        ((model.updateAttempt id a e commitStage).emit effects) := by
      refine ⟨updateAttempt_related _ (Delivery.Evolves.refl powers) id a e ?_, rfl, rfl, rfl⟩
      exact fun msg _ => Delivery.Evolves.updateAttempt msg a e fun attempt _ _ _ =>
        Attempt.Evolves.commit attempt
    exact committed.trans (Evolves.finalize _ now id)
  | reclaim id =>
    exact ⟨reclaim_related id _ (Delivery.Evolves.refl powers) Delivery.Evolves.reclaim,
      by simp, by simp, by simp⟩
  | rebind _ now id a e rx receiver registered resumed =>
    refine ⟨SortedMap.Related.modify (fun _ => Delivery.Evolves.refl powers) _ id ?_, rfl, rfl,
      rfl⟩
    intro msg found
    refine Delivery.Evolves.updateAttempt msg a e fun attempt mem isA isE => ?_
    exact Attempt.Evolves.rebind attempt (resumed msg found attempt mem isA isE).1 rx _ now
  | relink => exact ⟨same, rfl, rfl, rfl⟩
  | clock => exact ⟨same, rfl, rfl, rfl⟩
  | emit => exact ⟨same, rfl, rfl, rfl⟩

/-- The invariant of the reachable states. -/
structure Valid (model : AttemptModel) : Prop where
  recorded : model.Recorded none
  linked : model.Linked
  accounted : model.Accounted

theorem Valid.move (valid : model.Valid) (move : Move powers model later) : later.Valid :=
  ⟨valid.recorded.move move, valid.linked.move move, valid.accounted.move move⟩

theorem Valid.moves (valid : model.Valid) (moves : Moves powers model later) : later.Valid := by
  induction moves with
  | refl => exact valid
  | tail _ move ih => exact ih.move move

theorem Evolves.moves (moves : Moves powers model later) : model.Evolves powers later := by
  induction moves with
  | refl => exact Evolves.refl powers model
  | tail _ move ih => exact ih.trans (Evolves.move move)

theorem Ledgered.moves (moves : Moves powers model later) : model.Ledgered later := by
  induction moves with
  | refl => exact Ledgered.refl model
  | tail _ move ih => exact ih.trans (Ledgered.move move)

end AttemptModel

end AgentDeck.Attempts
