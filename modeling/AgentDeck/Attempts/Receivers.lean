import AgentDeck.Attempts.Runs

/-!
# Receivers

Six operations replace, close, expire or retire a receiver, and each has to hand on the attempts
its receiver leaves open. `Served` is what they keep between them: a slot names its one live
receiver, and every open attempt is bound to a live receiver of its slot or waits for the answer
of a successor. The calls without the power to change receivers only ease an attempt, so they keep
`Served` at once; the others are taken one at a time.
-/

namespace AgentDeck.Attempts

open AttemptModel (commitStage reportStage releaseHold unresume rebind)

/-! ## Changes that leave the receivers alone -/

namespace Attempt

/-- The attempt stays where it is bound, is not opened again and awaits no new answer. -/
structure Eases (old new : Attempt) : Prop where
  rx : new.rx = old.rx
  slot : new.slot = old.slot
  isOpen : new.stage.isFinal = false → old.stage.isFinal = false ∧
    (old.resumePending = true → new.resumePending = true)
  pending : new.resumePending = true → old.resumePending = true ∧
    new.resumeDeadline = old.resumeDeadline

variable (attempt : Attempt)

theorem Eases.refl : attempt.Eases attempt := by
  constructor <;> tauto

theorem Eases.trans {old middle new : Attempt} (first : old.Eases middle)
    (second : middle.Eases new) : old.Eases new := by
  refine ⟨second.rx.trans first.rx, second.slot.trans first.slot, ?_, ?_⟩
  · intro isOpen
    rcases second.isOpen isOpen with ⟨middleOpen, keeps⟩
    rcases first.isOpen middleOpen with ⟨oldOpen, kept⟩
    exact ⟨oldOpen, fun pending => keeps (kept pending)⟩
  · intro pending
    rcases second.pending pending with ⟨middlePending, sameDeadline⟩
    rcases first.pending middlePending with ⟨oldPending, same⟩
    exact ⟨oldPending, sameDeadline.trans same⟩

theorem Eases.revoke (now : Instant) : attempt.Eases (Delivery.revoke now attempt) := by
  simp only [Delivery.revoke]
  split
  · constructor <;> simp
  · exact refl attempt

theorem Eases.reclaim (msg : Delivery) (attempt : Attempt) :
    attempt.Eases (msg.reclaimAttempt attempt) := by
  simp only [Delivery.reclaimAttempt]
  split
  · exact refl attempt
  · split <;> split <;> constructor <;> simp

theorem Eases.commit : attempt.Eases (commitStage attempt) := by
  constructor <;> simp [commitStage, Stage.isFinal]

end Attempt

theorem Touch.eases {powers : Powers} {msg : Delivery} {old new : Attempt}
    (touch : Touch powers msg old new) (powerless : powers.links = false) : old.Eases new := by
  cases touch with
  | resume allowed => simp [powerless] at allowed
  | report stage above uncommitted unfenced answered =>
    constructor <;> simp [reportStage, Stage.not_final_of_rank_lt above]
  | commitEarlier => exact Attempt.Eases.commit old
  | deckNotHanded => constructor <;> simp [Stage.isFinal]
  | fence isOpen answered =>
    constructor <;> simp [Attempt.fence, Attempt.regained, Attempt.recheck, Stage.isFinal]
  | fenceResumed =>
    constructor <;>
      simp [Attempt.fence, Attempt.regained, Attempt.recheck, unresume, Stage.isFinal]
  | resumeNotHanded => constructor <;> simp [unresume, Stage.isFinal]
  | releaseHold => constructor <;> simp [AttemptModel.releaseHold]
  | _ => constructor <;> simp [Attempt.recheck]

namespace Delivery

def Eases (old new : Delivery) : Prop := List.Forall₂ Attempt.Eases old.attempts new.attempts

theorem Eases.refl (msg : Delivery) : msg.Eases msg :=
  List.forall₂_same.mpr fun attempt _ => Attempt.Eases.refl attempt

theorem Eases.trans {old middle new : Delivery} (first : old.Eases middle)
    (second : middle.Eases new) : old.Eases new :=
  forall₂_trans first second Attempt.Eases.trans

theorem Eases.of_attempts {old new : Delivery} (same : new.attempts = old.attempts) :
    old.Eases new := by
  simp only [Eases, same]
  exact Eases.refl old

theorem Eases.edit {powers : Powers} {msg changed : Delivery} (edit : Edit powers msg changed)
    (powerless : powers.links = false) : msg.Eases changed := by
  cases edit with
  | touch attempts touched => exact touched.imp fun _ _ touch => touch.eases powerless
  | retried =>
    apply Eases.of_attempts
    simp only [Delivery.retried]
    split <;> simp
  | cancelled _ _ now =>
    refine forall₂_map fun attempt _ => ?_
    split
    · exact Attempt.Eases.revoke attempt now
    · exact Attempt.Eases.refl attempt
  | _ => exact Eases.of_attempts rfl

theorem Eases.rules (msg : Delivery) (limits : Limits) (now : Instant) (id : String)
    (reading : Reading) (witnessed : Bool) :
    msg.Eases ((msg.rules limits now id reading).1.noteWitness now witnessed) := by
  simp only [Eases, noteWitness_attempts]
  rcases (rules_frame msg limits now id reading).1 with same | revoked
  · rw [same]
    exact Eases.refl msg
  · rw [revoked]
    exact forall₂_map fun attempt _ => Attempt.Eases.revoke attempt now

theorem Eases.reclaim (msg : Delivery) :
    msg.Eases { msg with attempts := msg.attempts.map msg.reclaimAttempt } :=
  forall₂_map fun attempt _ => Attempt.Eases.reclaim msg attempt

end Delivery

namespace AttemptModel

variable {powers : Powers} {model later : AttemptModel}

/-- Receivers and slots stay, and every attempt eases. -/
structure Eases (model later : AttemptModel) : Prop where
  records : SortedMap.Related (fun _ => Delivery.Eases) model.messages later.messages
  receivers : later.receivers = model.receivers
  slots : later.slots = model.slots

theorem Eases.refl (model : AttemptModel) : model.Eases model :=
  ⟨SortedMap.Related.refl (fun _ => Delivery.Eases.refl) model.messages, rfl, rfl⟩

theorem Eases.trans {middle : AttemptModel} (first : model.Eases middle)
    (second : middle.Eases later) : model.Eases later :=
  ⟨SortedMap.Related.trans (fun _ => Delivery.Eases.trans) first.records second.records,
    second.receivers.trans first.receivers, second.slots.trans first.slots⟩

theorem Eases.finalize (model : AttemptModel) (now : Instant) (id : String) :
    model.Eases (model.finalize now id) := by
  refine ⟨?_, by simp, by simp⟩
  apply finalize_related
  · exact Delivery.Eases.refl
  · exact Delivery.Eases.trans
  · exact fun msg reading => Delivery.Eases.rules msg _ now id reading _
  · exact Delivery.Eases.reclaim

theorem Move.eases (move : Move powers model later) (powerless : powers.links = false) :
    model.Eases later := by
  have same : SortedMap.Related (fun _ => Delivery.Eases) model.messages model.messages :=
    SortedMap.Related.refl (fun _ => Delivery.Eases.refl) model.messages
  cases move with
  | edit messages edited =>
    exact ⟨edited.imp fun _ _ _ _ edit => Delivery.Eases.edit edit powerless, rfl, rfl⟩
  | finalize now id => exact Eases.finalize model now id
  | commit _ now id a e effects =>
    have committed : model.Eases ((model.updateAttempt id a e commitStage).emit effects) := by
      refine ⟨updateAttempt_related _ Delivery.Eases.refl id a e ?_, rfl, rfl⟩
      exact fun msg _ => Delivery.forall₂_updateFirst Attempt.Eases.refl
        fun attempt _ _ => Attempt.Eases.commit attempt
    exact committed.trans (Eases.finalize _ now id)
  | reclaim id =>
    exact ⟨reclaim_related id _ Delivery.Eases.refl Delivery.Eases.reclaim, by simp, by simp⟩
  | rebind allowed => simp [powerless] at allowed
  | relink allowed => simp [powerless] at allowed
  | clock => exact ⟨same, rfl, rfl⟩
  | emit => exact ⟨same, rfl, rfl⟩

theorem Moves.eases (moves : Moves powers model later) (powerless : powers.links = false) :
    model.Eases later := by
  induction moves with
  | refl => exact Eases.refl model
  | tail _ move ih => exact ih.trans (move.eases powerless)

/-! ## Who serves an attempt -/

/-- `rx` is registered in `slot`, and retired or live. -/
def Receives (model : AttemptModel) (rx : Rx) (slot : Slot) (retired : Bool) : Prop :=
  ∃ receiver, model.receivers.get? rx = some receiver ∧ receiver.slot = slot ∧
    receiver.retired = retired

/-- A slot names its live receivers, `gone` apart. -/
def SlottedBut (gone : Rx → Prop) (model : AttemptModel) : Prop :=
  ∀ slot, slot ≠ .hook → ∀ rx, ¬gone rx →
    (model.slots.get? slot = some rx ↔ model.Receives rx slot false)

def Slotted (model : AttemptModel) : Prop := model.SlottedBut fun _ => False

/-- Every open attempt has a live receiver, or a retired one and an answer to come in time. -/
structure Bound (model : AttemptModel) : Prop where
  held : ∀ {id msg}, model.messages.get? id = some msg → ∀ attempt ∈ msg.attempts,
    attempt.stage.isFinal = false → model.Receives attempt.rx attempt.slot false ∨
      (attempt.resumePending = true ∧ model.Receives attempt.rx attempt.slot true)
  deadlined : ∀ {id msg}, model.messages.get? id = some msg → ∀ attempt ∈ msg.attempts,
    attempt.resumePending = true → attempt.resumeDeadline.isSome = true

structure Served (model : AttemptModel) : Prop where
  slotted : model.Slotted
  bound : model.Bound

theorem Bound.eases (bound : model.Bound)
    (records : SortedMap.Related (fun _ => Delivery.Eases) model.messages later.messages)
    (receives : ∀ rx slot retired, model.Receives rx slot retired →
      later.Receives rx slot retired) : later.Bound := by
  constructor
  · intro id after found new mem isOpen
    rcases records.left_of_right found with ⟨msg, record, eases⟩
    rcases Delivery.exists_left_of_forall₂ eases mem with ⟨old, oldMem, eased⟩
    rcases eased.isOpen isOpen with ⟨oldOpen, keeps⟩
    rw [eased.rx, eased.slot]
    rcases bound.held record old oldMem oldOpen with live | ⟨pending, retired⟩
    · exact Or.inl (receives _ _ _ live)
    · exact Or.inr ⟨keeps pending, receives _ _ _ retired⟩
  · intro id after found new mem pending
    rcases records.left_of_right found with ⟨msg, record, eases⟩
    rcases Delivery.exists_left_of_forall₂ eases mem with ⟨old, oldMem, eased⟩
    rcases eased.pending pending with ⟨oldPending, same⟩
    rw [same]
    exact bound.deadlined record old oldMem oldPending

variable {rx : Rx} {slot : Slot}

theorem Receives.congr (same : later.receivers = model.receivers) {retired : Bool}
    (receives : model.Receives rx slot retired) : later.Receives rx slot retired := by
  rcases receives with ⟨receiver, registered, agrees⟩
  exact ⟨receiver, by rw [same, registered], agrees⟩

theorem Served.eases (served : model.Served) (eases : model.Eases later) : later.Served := by
  refine ⟨?_, served.bound.eases eases.records fun _ _ _ => Receives.congr eases.receivers⟩
  intro slot named rx gone
  rw [eases.slots, served.slotted slot named rx gone]
  exact ⟨Receives.congr eases.receivers, Receives.congr eases.receivers.symm⟩

theorem Served.moves (served : model.Served) (moves : Moves powers model later)
    (powerless : powers.links = false) : later.Served :=
  served.eases (moves.eases powerless)

theorem Served.emit (served : model.Served) (effects : List Effect) : (model.emit effects).Served :=
  served.eases ⟨SortedMap.Related.refl (fun _ => Delivery.Eases.refl) model.messages, rfl, rfl⟩

theorem Served.finalizeEach (served : model.Served) (now : Instant) (ids : List String) :
    (model.finalizeEach now ids).Served := by
  induction ids generalizing model with
  | nil => exact served
  | cons head rest ih => exact ih (served.eases (Eases.finalize model now head))

/-! ## Changes of one receiver -/

variable {receiver : Receiver}

theorem receives_insert {changed : Receiver} (registered : model.receivers.get? rx = some receiver)
    (slot : changed.slot = receiver.slot) (retired : changed.retired = receiver.retired)
    (receivers : later.receivers = model.receivers.insert rx changed) (other : Rx) (named : Slot)
    (isRetired : Bool) :
    later.Receives other named isRetired ↔ model.Receives other named isRetired := by
  simp only [Receives, receivers]
  by_cases here : other = rx
  · subst here
    simp [registered, slot, retired]
  · simp [here]

theorem receives_modify (rx : Rx) {f : Receiver → Receiver}
    (slot : ∀ receiver, (f receiver).slot = receiver.slot)
    (retired : ∀ receiver, (f receiver).retired = receiver.retired)
    (receivers : later.receivers = model.receivers.modify rx f) (other : Rx) (named : Slot)
    (isRetired : Bool) :
    later.Receives other named isRetired ↔ model.Receives other named isRetired := by
  simp only [Receives, receivers]
  by_cases here : other = rx
  · simp [here, slot, retired]
  · simp [here]

theorem Served.reread (served : model.Served)
    (receives : ∀ rx slot retired, later.Receives rx slot retired ↔ model.Receives rx slot retired)
    (slots : later.slots = model.slots) (messages : later.messages = model.messages) :
    later.Served := by
  constructor
  · intro named notHook other gone
    rw [slots, receives]
    exact served.slotted named notHook other gone
  · refine served.bound.eases ?_ fun other named isRetired => (receives other named isRetired).mpr
    rw [messages]
    exact SortedMap.Related.refl (fun _ => Delivery.Eases.refl) model.messages

theorem SlottedBut.remove (others : model.SlottedBut (· = rx))
    (live : ∀ other slot, later.Receives other slot false ↔
      other ≠ rx ∧ model.Receives other slot false)
    (slots : ∀ slot other, later.slots.get? slot = some other ↔
      other ≠ rx ∧ model.slots.get? slot = some other) : later.Slotted := by
  intro slot named other _
  rw [live, slots]
  constructor
  · rintro ⟨different, holds⟩
    exact ⟨different, (others slot named other different).mp holds⟩
  · rintro ⟨different, holds⟩
    exact ⟨different, (others slot named other different).mpr holds⟩

theorem get?_vacate_iff (only : ∀ other, model.slots.get? other = some rx → other = slot)
    (other : Slot) (holder : Rx) :
    (model.vacate slot rx).get? other = some holder ↔
      holder ≠ rx ∧ model.slots.get? other = some holder := by
  simp only [vacate]
  split
  · rename_i named
    rw [SortedMap.get?_erase]
    split
    · rename_i here
      rw [here, named]
      constructor
      · intro impossible
        cases impossible
      · rintro ⟨different, same⟩
        exact absurd (Option.some.inj same).symm different
    · rename_i elsewhere
      constructor
      · intro found
        refine ⟨?_, found⟩
        rintro rfl
        exact elsewhere (only other found)
      · exact fun found => found.2
  · rename_i unnamed
    constructor
    · intro found
      refine ⟨?_, found⟩
      rintro rfl
      exact unnamed (only other found ▸ found)
    · exact fun found => found.2

theorem served_closeOneShot (linked : model.Linked)
    (registered : model.receivers.get? rx = some receiver) (slotted : model.SlottedBut (· = rx))
    (bound : model.Bound) (now : Instant) (close : Bool) :
    (model.closeOneShot now rx close).Served := by
  have receives : ∀ other slot retired,
      ((model.dropReceiver rx receiver.slot).mapAttempts fun _ =>
        fenceClosed model.limits now rx).Receives other slot retired ↔
      other ≠ rx ∧ model.Receives other slot retired := by
    intro other slot retired
    simp only [Receives, mapAttempts, dropReceiver]
    by_cases here : other = rx
    · simp [here]
    · simp [here]
  have served : ((model.dropReceiver rx receiver.slot).mapAttempts fun _ =>
      fenceClosed model.limits now rx).Served := by
    constructor
    · refine slotted.remove (fun other slot => receives other slot false) ?_
      apply get?_vacate_iff
      exact fun named found => ((linked.slotted found).2 receiver registered).symm
    · constructor
      · intro id after found new mem isOpen
        simp only [mapAttempts, SortedMap.get?_map] at found
        rcases Option.map_eq_some_iff.mp found with ⟨msg, record, rfl⟩
        rcases List.mem_map.mp mem with ⟨old, oldMem, rfl⟩
        simp only [fenceClosed] at isOpen ⊢
        split at isOpen
        · simp [Attempt.fence, Attempt.regained, Attempt.recheck, Stage.isFinal] at isOpen
        · rename_i kept
          rw [if_neg kept]
          have elsewhere : old.rx ≠ rx := by
            intro here
            simp [here, isOpen] at kept
          rcases bound.held record old oldMem isOpen with live | ⟨pending, retired⟩
          · exact Or.inl ((receives _ _ _).mpr ⟨elsewhere, live⟩)
          · exact Or.inr ⟨pending, (receives _ _ _).mpr ⟨elsewhere, retired⟩⟩
      · intro id after found new mem
        simp only [mapAttempts, SortedMap.get?_map] at found
        rcases Option.map_eq_some_iff.mp found with ⟨msg, record, rfl⟩
        rcases List.mem_map.mp mem with ⟨old, oldMem, rfl⟩
        simp only [fenceClosed]
        split
        · exact bound.deadlined record old oldMem
        · exact bound.deadlined record old oldMem
  simp only [closeOneShot, registered]
  split
  · exact served.emit _
  · exact served

theorem Served.retireStream (served : model.Served) (linked : model.Linked) (rx : Rx) :
    (model.retireStream rx).Served := by
  rcases registered : model.receivers.get? rx with _ | receiver
  · -- Nobody is registered under `rx`, so no open attempt is bound to it.
    simp only [AttemptModel.retireStream, registered]
    refine served.eases ⟨SortedMap.Related.map model.messages ?_, rfl, rfl⟩
    intro id msg record
    refine Delivery.forall₂_map fun attempt _ => ?_
    simp only [fenceRetired]
    split
    · constructor <;> simp [Attempt.fence, Attempt.regained, Attempt.recheck, Stage.isFinal]
    · exact Attempt.Eases.refl attempt
  · have live : ∀ other slot, (model.retireStream rx).Receives other slot false ↔
        other ≠ rx ∧ model.Receives other slot false := by
      intro other slot
      simp only [Receives, AttemptModel.retireStream, registered, mapAttempts]
      by_cases here : other = rx
      · simp [here]
      · simp [here]
    have kept : ∀ other slot retired, model.Receives other slot retired →
        (model.retireStream rx).Receives other slot (retired || decide (other = rx)) := by
      rintro other slot retired ⟨found, isFound, sameSlot, same⟩
      simp only [Receives, AttemptModel.retireStream, registered, mapAttempts,
        SortedMap.get?_insert]
      by_cases here : other = rx
      · subst here
        cases isFound.symm.trans registered
        exact ⟨_, if_pos rfl, sameSlot, by simp⟩
      · exact ⟨found, by rw [if_neg here, isFound], sameSlot, by simp [here, same]⟩
    constructor
    · refine SlottedBut.remove
        (fun slot named other _ => served.slotted slot named other id) live ?_
      simp only [AttemptModel.retireStream, registered]
      apply get?_vacate_iff
      exact fun named found => ((linked.slotted found).2 receiver registered).symm
    · constructor
      · intro id after found new mem isOpen
        simp only [AttemptModel.retireStream, registered, mapAttempts, SortedMap.get?_map] at found
        rcases Option.map_eq_some_iff.mp found with ⟨msg, record, rfl⟩
        rcases List.mem_map.mp mem with ⟨old, oldMem, rfl⟩
        simp only [fenceRetired] at isOpen ⊢
        split at isOpen
        · simp [Attempt.fence, Attempt.regained, Attempt.recheck, Stage.isFinal] at isOpen
        · rename_i unfenced
          rw [if_neg unfenced]
          rcases served.bound.held record old oldMem isOpen with isLive | ⟨pending, retired⟩
          · have after := kept _ _ _ isLive
            by_cases here : old.rx = rx
            · have pending : old.resumePending := by simpa [here, isOpen] using unfenced
              exact Or.inr ⟨pending, by simpa [here] using after⟩
            · exact Or.inl (by simpa [here] using after)
          · exact Or.inr ⟨pending, by simpa using kept _ _ _ retired⟩
      · intro id after found new mem
        simp only [AttemptModel.retireStream, registered, mapAttempts, SortedMap.get?_map] at found
        rcases Option.map_eq_some_iff.mp found with ⟨msg, record, rfl⟩
        rcases List.mem_map.mp mem with ⟨old, oldMem, rfl⟩
        simp only [fenceRetired]
        split
        · exact served.bound.deadlined record old oldMem
        · exact served.bound.deadlined record old oldMem

theorem receives_enroll (linked : model.Linked) (now : Instant) (slot : Slot) (queueSurvived : Bool)
    (rx : Rx) (named : Slot) (retired : Bool) :
    (model.enroll now slot queueSurvived).Receives rx named retired ↔
      (rx = model.nextRx ∧ slot = named ∧ retired = false) ∨ model.Receives rx named retired := by
  simp only [Receives, AttemptModel.enroll]
  by_cases here : rx = model.nextRx
  · have fresh : model.receivers.get? rx = none := by
      rcases found : model.receivers.get? rx with _ | receiver
      · rfl
      · exact absurd (linked.registered found).1 (by rw [here]; exact lt_irrefl _)
    simp only [here]
    rw [here] at fresh
    simp [fresh]
  · simp [here]

theorem Bound.enroll (bound : model.Bound) (linked : model.Linked) (now : Instant) (slot : Slot)
    (queueSurvived : Bool) : (model.enroll now slot queueSurvived).Bound :=
  bound.eases (SortedMap.Related.refl (fun _ => Delivery.Eases.refl) model.messages)
    fun rx named retired receives =>
      (receives_enroll linked now slot queueSurvived rx named retired).mpr (Or.inr receives)

/-- The new incarnation takes its slot: all that may be out of place is the one it takes it
from. -/
theorem SlottedBut.occupy (slotted : model.Slotted) (linked : model.Linked) (now : Instant)
    (slot : Slot) (queueSurvived : Bool) :
    ((model.enroll now slot queueSurvived).occupy slot model.nextRx).SlottedBut
      (fun rx => model.slots.get? slot = some rx) := by
  intro named notHook rx stays
  have receives := receives_enroll linked now slot queueSurvived rx named false
  have before := slotted named notHook rx id
  simp only [AttemptModel.occupy, SortedMap.get?_insert]
  by_cases here : named = slot
  · subst here
    rw [if_pos rfl]
    constructor
    · intro isNew
      exact receives.mpr (Or.inl ⟨(Option.some.inj isNew).symm, rfl, rfl⟩)
    · intro live
      rcases receives.mp live with ⟨isNew, _⟩ | old
      · rw [isNew]
      · exact absurd (before.mpr old) stays
  · rw [if_neg here]
    refine before.trans ?_
    constructor
    · exact fun live => receives.mpr (Or.inr live)
    · intro live
      rcases receives.mp live with ⟨_, same, _⟩ | old
      · exact absurd same.symm here
      · exact old

/-- The incarnation `old` is retired, and what it left open awaits the answer of its successor. -/
theorem served_resumeFrom (valid : model.Valid) {old : Rx}
    (registered : model.receivers.get? old = some receiver) (inSlot : receiver.slot = slot)
    (slotted : model.SlottedBut (· = old)) (unnamed : ∀ named, model.slots.get? named ≠ some old)
    (bound : model.Bound) (now : Instant) : (model.resumeFrom now slot old).2.Served := by
  have modified : ∀ other, (model.receivers.modify old fun receiver =>
      { receiver with retired := true }).get? other =
        if other = old then some { receiver with retired := true }
        else model.receivers.get? other := by
    intro other
    rw [SortedMap.get?_modify]
    split
    · rename_i here
      rw [here, registered]
      rfl
    · rfl
  have resumed : ∀ other, (model.resumeFrom now slot old).2.receivers.get? other =
      if other = old then some { receiver with retired := true }
      else model.receivers.get? other := modified
  have kept : ∀ other named retired, model.Receives other named retired →
      (model.resumeFrom now slot old).2.Receives other named (retired || decide (other = old)) := by
    rintro other named retired ⟨found, isFound, sameSlot, same⟩
    simp only [Receives, resumed]
    by_cases here : other = old
    · subst here
      cases isFound.symm.trans registered
      exact ⟨_, if_pos rfl, sameSlot, by simp⟩
    · exact ⟨found, by rw [if_neg here, isFound], sameSlot, by simp [here, same]⟩
  have retire : Move Powers.linker model { model with
      receivers := model.receivers.modify old fun receiver =>
        { receiver with retired := true } } := by
    refine Move.keepRegistered rfl _ model.slots ?_ fun _ _ found => found
    intro other after found
    rw [modified] at found
    split at found
    · rename_i here
      cases found
      exact ⟨receiver, here ▸ registered, rfl, rfl, rfl⟩
    · exact ⟨after, found, rfl, rfl, rfl⟩
  have retiredValid := valid.move retire
  constructor
  · refine slotted.remove ?_ ?_
    · intro other named
      simp only [Receives, resumed]
      by_cases here : other = old
      · simp [here]
      · simp [here]
    · intro named other
      constructor
      · intro found
        refine ⟨?_, found⟩
        rintro rfl
        exact unnamed named found
      · exact fun found => found.2
  · constructor
    · intro id after found new mem isOpen
      simp only [resumeFrom, mapAttempts, SortedMap.get?_map] at found
      rcases Option.map_eq_some_iff.mp found with ⟨msg, record, rfl⟩
      rcases List.mem_map.mp mem with ⟨attempt, attemptMem, rfl⟩
      split at isOpen
      · rename_i resumes
        rw [if_pos resumes]
        simp only [AttemptModel.resumes, Bool.and_eq_true] at resumes
        have sameSlot := retiredValid.bound_slot record attemptMem resumes.1
        simp only [boundToRetired, Option.any_eq_true, Bool.and_eq_true, decide_eq_true_eq]
          at resumes
        rcases resumes.1 with ⟨holder, isHolder, holderSlot, isRetired⟩
        exact Or.inr ⟨rfl, holder, isHolder, holderSlot.trans sameSlot.symm, isRetired⟩
      · rename_i stays
        rw [if_neg stays]
        rcases bound.held record attempt attemptMem isOpen with live | ⟨pending, retired⟩
        · have after := kept _ _ _ live
          by_cases here : attempt.rx = old
          · have toRetired : { model with receivers := model.receivers.modify old fun receiver =>
                { receiver with retired := true } }.resumes slot attempt = true := by
              simp [AttemptModel.resumes, boundToRetired, modified, here, inSlot, isOpen]
            exact absurd toRetired stays
          · exact Or.inl (by simpa [here] using after)
        · exact Or.inr ⟨pending, by simpa using kept _ _ _ retired⟩
    · intro id after found new mem
      simp only [resumeFrom, mapAttempts, SortedMap.get?_map] at found
      rcases Option.map_eq_some_iff.mp found with ⟨msg, record, rfl⟩
      rcases List.mem_map.mp mem with ⟨attempt, attemptMem, rfl⟩
      split
      · exact fun _ => rfl
      · exact bound.deadlined record attempt attemptMem

/-! ## The calls that change receivers -/

theorem Served.named (served : model.Served) (notHook : slot ≠ .hook)
    (named : model.slots.get? slot = some rx) : ∃ receiver,
      model.receivers.get? rx = some receiver ∧ receiver.slot = slot ∧ receiver.retired = false :=
  (served.slotted slot notHook rx id).mp named

section

variable (served : model.Served)

include served

variable (valid : model.Valid)

include valid

theorem Served.placed (now : Instant) (notHook : slot ≠ .hook) (queueSurvived : Bool) {old : Rx}
    (held : model.slots.get? slot = some old) : ∃ receiver,
      ((model.enroll now slot queueSurvived).occupy slot model.nextRx).receivers.get? old =
        some receiver ∧ receiver.slot = slot ∧
      ((model.enroll now slot queueSurvived).occupy slot model.nextRx).SlottedBut (· = old) ∧
      (∀ named, ((model.enroll now slot queueSurvived).occupy slot model.nextRx).slots.get? named ≠
        some old) ∧
      ((model.enroll now slot queueSurvived).occupy slot model.nextRx).Bound := by
  rcases served.named notHook held with ⟨receiver, registered, inSlot, _⟩
  have known := (valid.linked.registered registered).1
  have isOld : old ≠ model.nextRx := known.ne
  have slotted := SlottedBut.occupy served.slotted valid.linked now slot queueSurvived
  have bound := served.bound.enroll valid.linked now slot queueSurvived
  refine ⟨receiver, ?_, inSlot, ?_, ?_, ⟨bound.held, bound.deadlined⟩⟩
  · simp [AttemptModel.occupy, AttemptModel.enroll, isOld, registered]
  · intro named named' rx different
    refine slotted named named' rx ?_
    intro isHeld
    exact different (Option.some.inj (isHeld.symm.trans held))
  · intro named found
    simp only [AttemptModel.occupy, SortedMap.get?_insert] at found
    split at found
    · exact isOld (Option.some.inj found).symm
    · rename_i elsewhere
      have same := (valid.linked.slotted found).2 receiver registered
      exact elsewhere (same.symm.trans inSlot)

theorem Served.unplaced (now : Instant)
    (queueSurvived : Bool) (free : model.slots.get? slot = none) :
    ((model.enroll now slot queueSurvived).occupy slot model.nextRx).Served := by
  have slotted := SlottedBut.occupy served.slotted valid.linked now slot queueSurvived
  have bound := served.bound.enroll valid.linked now slot queueSurvived
  refine ⟨fun named notHook rx _ => slotted named notHook rx ?_, ⟨bound.held, bound.deadlined⟩⟩
  simp [free]

omit valid in
theorem Served.move (move : Move Powers.none model later) : later.Served :=
  served.eases (move.eases rfl)

theorem Served.register (now : Instant) (slot : Slot) (queueSurvived : Bool) :
    (model.register now slot queueSurvived).2.Served := by
  have enrolled : Move Powers.linker model (model.enroll now slot queueSurvived) :=
    Move.enroll rfl now slot queueSurvived
  have occupied : Move Powers.linker (model.enroll now slot queueSurvived)
      ((model.enroll now slot queueSurvived).occupy slot model.nextRx) := by
    apply Move.occupy rfl
    · exact Nat.lt_succ_self _
    · intro receiver found
      simp only [AttemptModel.enroll, SortedMap.get?_insert] at found
      cases found
      rfl
  have placedValid := (valid.move enrolled).move occupied
  simp only [AttemptModel.register]
  split
  · apply Served.finalizeEach
    simp only [AttemptModel.supersede]
    split
    · rename_i isOnce
      have notHook : slot ≠ .hook := by
        rw [isOnce]
        decide
      split
      · rename_i old held
        rcases served.placed valid now notHook queueSurvived held with
          ⟨receiver, registered, _, slotted, _, bound⟩
        exact served_closeOneShot placedValid.linked registered slotted bound now true
      · rename_i free
        exact served.unplaced valid now queueSurvived free
    · have isHook : slot = .hook := by
        cases slot <;> simp_all [Slot.oneShot]
      refine ⟨?_, served.bound.enroll valid.linked now slot queueSurvived⟩
      intro named notHook rx gone
      have receives := receives_enroll valid.linked now slot queueSurvived rx named false
      refine (served.slotted named notHook rx gone).trans ?_
      constructor
      · exact fun live => receives.mpr (Or.inr live)
      · intro live
        rcases receives.mp live with ⟨_, same, _⟩ | before
        · exact absurd (same.symm.trans isHook) notHook
        · exact before
  · rename_i stream
    have notHook : slot ≠ .hook := by
      rintro rfl
      exact stream rfl
    apply Served.finalizeEach
    refine Served.move ?_ (Move.handBack slot model.nextRx)
    simp only [AttemptModel.succeed]
    split
    · rename_i old held
      rcases served.placed valid now notHook queueSurvived held with
        ⟨receiver, registered, inSlot, slotted, unnamed, bound⟩
      exact served_resumeFrom placedValid registered inSlot slotted unnamed bound now
    · rename_i free
      exact served.unplaced valid now queueSurvived free

theorem Served.connectionClosed (now : Instant) (rx : Rx) :
    (model.connectionClosed now rx).Served := by
  apply Served.finalizeEach
  split
  · rename_i oneShot
    simp only [Option.any_eq_true] at oneShot
    rcases oneShot with ⟨receiver, registered, _⟩
    exact served_closeOneShot valid.linked registered
      (fun slot named other _ => served.slotted slot named other id) served.bound now false
  · exact served

omit valid in
theorem Served.streamClosed (now : Instant) (rx : Rx) : (model.streamClosed now rx).Served := by
  apply Served.finalizeEach
  refine served.reread ?_ rfl rfl
  intro other slot retired
  refine receives_modify rx (f := fun receiver =>
    if !receiver.retired && !receiver.slot.oneShot then
      { receiver with closedAt := some (receiver.closedAt.getD now) }
    else receiver) ?_ ?_ rfl other slot retired
  · intro receiver
    split <;> rfl
  · intro receiver
    split <;> rfl

theorem Served.snapshot (now : Instant) (rx : Rx) (seq seen : ℕ) (held : List (String × ℕ × ℕ)) :
    (model.snapshot now rx seq seen held).2.Served := by
  have applied : (model.applySnapshot now rx seq seen held).2.Served := by
    simp only [AttemptModel.applySnapshot]
    split
    · exact served
    · rename_i receiver registered
      split
      · exact served
      · have receives : ∀ other slot retired,
            (model.noteSnapshot now rx receiver seq seen held).Receives other slot retired ↔
              model.Receives other slot retired := by
          apply receives_insert registered _ _ rfl <;> rfl
        have noted : (model.noteSnapshot now rx receiver seq seen held).Served :=
          served.reread receives rfl rfl
        have moved : Move Powers.linker model (model.noteSnapshot now rx receiver seq seen held) :=
          Move.noteSnapshot rfl registered now seq seen held
        have regained : Moves Powers.none (model.noteSnapshot now rx receiver seq seen held) _ :=
          foldl_moves_of_valid held (valid.move moved) fun current entry _ =>
            Relation.ReflTransGen.single (Move.regainHeld current rx entry)
        exact noted.moves regained rfl
  simp only [AttemptModel.snapshot]
  split
  · exact applied.finalizeEach now _
  · exact applied

end

variable {now : Instant} {id : String} {after : Delivery}

theorem Valid.retain_attempts (valid : model.Valid) {a e : ℕ} {attempt : Attempt}
    (found : model.attempt id a e = some attempt) {other : String}
    (isFound : (model.retain now rx receiver id a e).messages.get? other = some after)
    {new : Attempt} (mem : new ∈ after.attempts) : ∃ msg, model.messages.get? other = some msg ∧
      ∃ old ∈ msg.attempts, new = old ∨
        (new = rebind rx (receiver.nextD + 1) now old ∧ old = attempt) := by
  simp only [retain, AttemptModel.updateAttempt, SortedMap.get?_modify] at isFound
  split at isFound
  · rename_i here
    subst here
    rcases Option.map_eq_some_iff.mp isFound with ⟨msg, record, rfl⟩
    refine ⟨msg, record, ?_⟩
    have related : List.Forall₂ (fun old new => new = old ∨
        (new = rebind rx (receiver.nextD + 1) now old ∧ old = attempt)) msg.attempts
        (msg.updateAttempt a e (rebind rx (receiver.nextD + 1) now)).attempts := by
      refine Delivery.forall₂_updateFirst (fun _ => Or.inl rfl) ?_
      intro candidate candidateMem matched
      simp only [Bool.and_eq_true, decide_eq_true_eq] at matched
      rcases exists_of_attempt found with ⟨same, sameRecord, lookup⟩
      cases record.symm.trans sameRecord
      exact Or.inr ⟨rfl, ((valid.recorded.counted record).eq_of_lookup lookup candidateMem matched.1
        matched.2).symm⟩
    exact Delivery.exists_left_of_forall₂ related mem
  · exact ⟨after, isFound, new, mem, Or.inl rfl⟩

section

variable (served : model.Served)

include served

section

variable (valid : model.Valid)

include valid

theorem Served.retain (now : Instant) (registered : model.receivers.get? rx = some receiver)
    (live : receiver.retired = false) {a e : ℕ} {attempt : Attempt}
    (found : model.attempt id a e = some attempt)
    (sameSlot : (model.receivers.get? attempt.rx).map Receiver.slot = some receiver.slot) :
    (model.retain now rx receiver id a e).Served := by
  have receives : ∀ other named retired, (model.retain now rx receiver id a e).Receives
      other named retired ↔ model.Receives other named retired := by
    apply receives_insert registered _ _ rfl <;> rfl
  refine ⟨?_, ?_, ?_⟩
  · intro named notHook other gone
    rw [receives]
    exact served.slotted named notHook other gone
  · intro other after isFound new mem isOpen
    rcases valid.retain_attempts found isFound mem with
      ⟨msg, record, old, oldMem, rfl | ⟨rfl, rfl⟩⟩
    · rw [receives, receives]
      exact served.bound.held record _ oldMem isOpen
    · rcases Option.map_eq_some_iff.mp sameSlot with ⟨bound, boundFound, slot⟩
      have binds : model.Binds other old.binding :=
        ⟨msg, record, List.mem_map.mpr ⟨old, oldMem, rfl⟩⟩
      have inSlot := ((valid.linked.bound binds).2 bound boundFound).1
      rw [rebind_eq, receives]
      exact Or.inl ⟨receiver, registered, slot.symm.trans inSlot, live⟩
  · intro other after isFound new mem pending
    rcases valid.retain_attempts found isFound mem with
      ⟨msg, record, old, oldMem, rfl | ⟨rfl, rfl⟩⟩
    · exact served.bound.deadlined record _ oldMem pending
    · simp [rebind_eq] at pending

omit valid in
theorem Served.updateAttempt (id : String) (a e : ℕ) {f : Attempt → Attempt}
    (eases : ∀ attempt : Attempt, attempt.Eases (f attempt)) :
    (model.updateAttempt id a e f).Served := by
  refine served.eases ⟨updateAttempt_related _ Delivery.Eases.refl id a e ?_, rfl, rfl⟩
  exact fun msg _ => Delivery.forall₂_updateFirst Attempt.Eases.refl
    fun attempt _ _ => eases attempt

theorem Served.resumeAnswer (now : Instant) (rx : Rx) (id : String) (a e : ℕ)
    (answer : ResumeAnswer) : (model.resumeAnswer now rx id a e answer).2.Served := by
  have fenced : (model.updateAttempt id a e fun attempt => (unresume attempt).fence).Served := by
    apply served.updateAttempt
    intro attempt
    constructor <;>
      simp [Attempt.fence, Attempt.regained, Attempt.recheck, unresume, Stage.isFinal]
  simp only [AttemptModel.resumeAnswer]
  split
  · exact served
  · rename_i receiver registered
    split
    · exact served
    · rename_i live
      rw [Bool.not_eq_true] at live
      split
      · exact served
      · rename_i attempt found
        split
        · exact served
        · split
          · exact served
          · rename_i sameSlot
            rw [not_not] at sameSlot
            refine Served.eases ?_ (Eases.finalize _ now id)
            split
            · exact (served.retain valid now registered live found sameSlot).emit _
            · split
              · apply served.updateAttempt
                intro attempt
                constructor <;> simp [unresume, Stage.isFinal]
              · exact fenced
            · exact fenced

theorem Served.expireHolds (now : Instant) : (model.expireHolds now).Served := by
  have loop := List.foldlRecOn
    (motive := fun current : AttemptModel => current.Valid ∧ current.Served ∧
      ∀ rx receiver, current.receivers.get? rx = some receiver →
        model.receivers.get? rx = some receiver)
    ((model.receivers.entries.filter fun entry =>
      entry.2.holdUntil.any fun holdUntil => decide (holdUntil ≤ now)).map Prod.fst)
    (fun model rx => (model.closeOneShot now rx true).finalizeBoundTo now rx)
    ⟨valid, served, fun _ _ found => found⟩ ?_
  · exact loop.2.1
  · rintro current ⟨isValid, isServed, kept⟩ rx due
    have closed : Moves Powers.linker current (current.closeOneShot now rx true) :=
      valid.closeHeld rfl now isValid kept due
    refine ⟨?_, ?_, ?_⟩
    · have finalized : Moves Powers.none (current.closeOneShot now rx true)
          ((current.closeOneShot now rx true).finalizeBoundTo now rx) :=
        (isValid.moves closed).finalizeEach now _
      exact (isValid.moves closed).moves finalized
    · apply Served.finalizeEach
      rcases registered : current.receivers.get? rx with _ | receiver
      · simpa only [AttemptModel.closeOneShot, registered] using isServed
      · exact served_closeOneShot isValid.linked registered
          (fun slot named other _ => isServed.slotted slot named other id) isServed.bound now true
    · intro other receiver found
      rw [finalizeBoundTo_receivers] at found
      exact kept other receiver (closeOneShot_receivers current now rx true found)

theorem Served.retireClosed (now : Instant) : (model.retireClosed now).Served := by
  have loop := List.foldlRecOn
    (motive := fun current : AttemptModel => current.Valid ∧ current.Served)
    ((model.receivers.entries.filter fun entry =>
      !entry.2.retired && entry.2.closedAt.any fun closedAt =>
        decide (closedAt + model.limits.closedRetireAfter ≤ now)).map Prod.fst)
    AttemptModel.retireStream ⟨valid, served⟩ ?_
  · exact loop.2
  · rintro current ⟨isValid, isServed⟩ rx _
    have retired : Moves Powers.linker current (current.retireStream rx) :=
      moves_retireStream rfl current rx
    exact ⟨isValid.moves retired, isServed.retireStream isValid.linked rx⟩

theorem Served.tickCleared (now : Instant) (cleared : List LapseCheck) :
    (model.tickCleared now cleared).Served := by
  simp only [AttemptModel.tickCleared]
  split
  · exact served
  · have checked : Moves ⟨true, false, false, false, false⟩ model (model.clearChecks now cleared) :=
      valid.clearChecks rfl now cleared
    have checkedValid := valid.moves checked
    have expired : Moves Powers.linker (model.clearChecks now cleared)
        ((model.clearChecks now cleared).expireHolds now) := checkedValid.expireHolds rfl now
    have expiredValid := checkedValid.moves expired
    have retired : Moves Powers.linker _
        (((model.clearChecks now cleared).expireHolds now).retireClosed now) :=
      expiredValid.retireClosed rfl now
    have retiredServed := ((served.moves checked rfl).expireHolds checkedValid now).retireClosed
      expiredValid now
    have staged : Moves Powers.none _
        ((((model.clearChecks now cleared).expireHolds now).retireClosed now).stagingLapsed now) :=
      (expiredValid.moves retired).stagingLapsed now
    exact retiredServed.moves
      (staged.trans (((expiredValid.moves retired).moves staged).tickMessages now _)) rfl

theorem Served.tick (now : Instant) : (model.tick now).Served := by
  simp only [AttemptModel.tick]
  split
  · exact served.tickCleared valid now _
  · have expired : Moves Powers.linker model (model.expireHolds now) := valid.expireHolds rfl now
    exact (served.expireHolds valid now).tickCleared (valid.moves expired) now _

theorem Served.tickTurn (now : Instant) (cleared : List LapseCheck) (turn : TurnView) :
    (model.tickTurn now cleared turn).Served := by
  have turned : Moves Powers.none model (model.turn now turn) := valid.turn now turn
  have ticked := (served.moves turned rfl).tickCleared (valid.moves turned) now cleared
  exact ticked.moves (moves_noteTurn _ now turn : Moves Powers.none _ _) rfl

end

end

theorem HandsOut.served {msg : Delivery} {kind : IssueKind}
    (hands : model.HandsOut now id rx receiver msg kind) (served : model.Served) :
    ((model.handTo now id rx receiver msg kind).finalize now id).Served := by
  refine Served.eases ?_ (Eases.finalize _ now id)
  have receives : ∀ other named retired, (model.handTo now id rx receiver msg kind).Receives
      other named retired ↔ model.Receives other named retired := by
    apply receives_insert hands.registered _ _ rfl <;> rfl
  -- The new attempt is bound to the live receiver; the ones before it are only checked again.
  have attempts : ∀ {other after}, (model.handTo now id rx receiver msg kind).messages.get? other =
      some after → ∀ new ∈ after.attempts,
        (new.rx = rx ∧ new.slot = receiver.slot ∧ new.resumePending = false) ∨
        ∃ before, model.messages.get? other = some before ∧ ∃ old ∈ before.attempts,
          new = old ∨ new = old.recheck := by
    intro other after found new mem
    simp only [handTo, SortedMap.get?_insert] at found
    split at found
    · rename_i here
      cases found
      rcases List.mem_append.mp mem with earlier | last
      · rcases List.mem_map.mp earlier with ⟨old, oldMem, rfl⟩
        refine Or.inr ⟨msg, here ▸ hands.record, old, oldMem, ?_⟩
        split
        · exact Or.inr rfl
        · exact Or.inl rfl
      · rw [List.mem_singleton.mp last]
        exact Or.inl ⟨rfl, rfl, rfl⟩
    · exact Or.inr ⟨after, found, new, mem, Or.inl rfl⟩
  refine ⟨?_, ?_, ?_⟩
  · intro named notHook other gone
    rw [receives]
    exact served.slotted named notHook other gone
  · intro other after found new mem isOpen
    rw [receives, receives]
    rcases attempts found new mem with ⟨isRx, isSlot, _⟩ | ⟨before, record, old, oldMem, same⟩
    · exact Or.inl ⟨receiver, isRx ▸ hands.registered, isSlot.symm, hands.active⟩
    · rcases same with rfl | rfl
      · exact served.bound.held record _ oldMem isOpen
      · exact served.bound.held record old oldMem isOpen
  · intro other after found new mem pending
    rcases attempts found new mem with ⟨_, _, answered⟩ | ⟨before, record, old, oldMem, same⟩
    · rw [answered] at pending
      cases pending
    · rcases same with rfl | rfl
      · exact served.bound.deadlined record _ oldMem pending
      · exact served.bound.deadlined record old oldMem pending

/-! ## Every reachable state is served -/

section

variable (served : model.Served)

include served

theorem Served.post (id : String) (offer : Bool) : (model.post id offer).Served := by
  simp only [AttemptModel.post]
  split
  · exact served
  · have kept : ∀ {other after}, (model.messages.insert id
        (.new offer (model.forgottenA + 1))).get? other = some after → ∀ attempt ∈ after.attempts,
          model.messages.get? other = some after := by
      intro other after found attempt mem
      rw [SortedMap.get?_insert] at found
      split at found
      · cases found
        simp [Delivery.new] at mem
      · exact found
    exact ⟨served.slotted, fun found attempt mem => served.bound.held
      (kept found attempt mem) attempt
      mem, fun found attempt mem => served.bound.deadlined (kept found attempt mem) attempt mem⟩

theorem Served.forget (id : String) (forgottenA : ℕ) :
    { model with messages := model.messages.erase id, forgottenA := forgottenA }.Served := by
  exact ⟨served.slotted, fun found => served.bound.held (SortedMap.get?_of_erase found),
    fun found => served.bound.deadlined (SortedMap.get?_of_erase found)⟩

theorem Served.exit : model.exit.Served := by
  refine served.eases ⟨SortedMap.Related.map model.messages ?_, rfl, rfl⟩
  intro id msg _
  simp only [Delivery.Eases, Delivery.exited_attempts]
  refine Delivery.forall₂_map fun attempt _ => ?_
  simp only [Delivery.exitAttempt]
  split
  · constructor <;> simp [Stage.isFinal]
  · constructor <;> simp

theorem Served.apply (valid : model.Valid) (op : Op) : (model.apply op).Served := by
  cases op with
  | post id offer => exact served.post id offer
  | register now slot queueSurvived => exact served.register valid now slot queueSurvived
  | issue now id rx =>
    have outcome : (_ ∧ Moves Powers.none model (model.issue now id rx).2) ∨ _ :=
      issue_cases model now id rx
    rcases outcome with ⟨_, moves⟩ | ⟨receiver, msg, kind, hands, handed⟩
    · exact served.moves moves rfl
    · simp only [AttemptModel.apply, handed]
      exact hands.served served
  | snapshot now rx seq seen held => exact served.snapshot valid now rx seq seen held
  | connectionClosed now rx => exact served.connectionClosed valid now rx
  | streamClosed now rx => exact served.streamClosed now rx
  | resumeAnswer now rx id a e answer => exact served.resumeAnswer valid now rx id a e answer
  | tick now => exact served.tick valid now
  | tickCleared now cleared => exact served.tickCleared valid now cleared
  | tickTurn now cleared turn => exact served.tickTurn valid now cleared turn
  | forget id =>
    simp only [AttemptModel.apply, AttemptModel.forget]
    split
    · split
      · exact served
      · exact served.forget id _
    · exact served
  | drainEffects => exact ⟨served.slotted, served.bound.held, served.bound.deadlined⟩
  | exit => exact served.exit
  | stage now id a e stage source =>
    exact served.moves
      (valid.stage now id a e stage source fun _ => rfl : Moves Powers.reporter _ _) rfl
  | withhold now id a e =>
    exact served.moves (moves_withhold rfl model now id a e : Moves Powers.holder _ _) rfl
  | released now id a e handedOver =>
    exact served.moves (valid.released now id a e handedOver : Moves Powers.none _ _) rfl
  | deckNotHanded now id a e rx =>
    exact served.moves (valid.deckNotHanded now id a e rx : Moves Powers.none _ _) rfl
  | turn now view => exact served.moves (valid.turn now view : Moves Powers.none _ _) rfl
  | tickVerified verified =>
    exact served.moves (valid.tickVerified verified : Moves Powers.none _ _) rfl
  | noteTurn now turn =>
    exact served.moves (moves_noteTurn model now turn : Moves Powers.none _ _) rfl
  | revokesDue now => exact served.moves (moves_revokesDue model now : Moves Powers.none _ _) rfl
  | finalize now id => exact served.eases (Eases.finalize model now id)
  | expireStaging now => exact served.moves (valid.expireStaging now : Moves Powers.none _ _) rfl
  | retry now id generation revision =>
    exact served.moves
      (moves_action rfl model now id generation revision .retry : Moves Powers.user _ _) rfl
  | cancel now id generation revision =>
    exact served.moves
      (moves_action rfl model now id generation revision .cancel : Moves Powers.user _ _) rfl

omit served in
theorem Served.new (limits : Limits) (generation : ℕ) :
    (AttemptModel.new limits generation).Served := by
  refine ⟨?_, ?_, ?_⟩
  · intro slot _ rx _
    simp [AttemptModel.new, Receives]
  · simp [AttemptModel.new]
  · simp [AttemptModel.new]

theorem Served.run (valid : model.Valid) (ops : List Op) : (model.run ops).Served := by
  induction ops generalizing model with
  | nil => exact served
  | cons op rest ih => exact ih (served.apply valid op) (valid.apply op)

end

/-! ## What a tick leaves -/

/-- Nothing that falls due by `now` is left to do for receivers and resume answers. -/
structure Quiet (now : Instant) (model : AttemptModel) : Prop where
  resumes : ∀ id msg, model.messages.get? id = some msg → ∀ attempt ∈ msg.attempts,
    attempt.resumePending = true → ∀ deadline, attempt.resumeDeadline = some deadline →
      now < deadline
  holds : ∀ rx receiver, model.receivers.get? rx = some receiver → receiver.slot = .hook →
    ∀ holdUntil, receiver.holdUntil = some holdUntil → now < holdUntil
  streams : ∀ rx receiver, model.receivers.get? rx = some receiver → receiver.retired = false →
    receiver.slot.oneShot = false → ∀ closedAt, receiver.closedAt = some closedAt →
      now < closedAt + model.limits.closedRetireAfter

def Op.ticks : Op → Option Instant
  | .tick now | .tickCleared now _ | .tickTurn now _ _ => some now
  | _ => none

theorem closeOneShot_erased (model : AttemptModel) (now : Instant) (rx : Rx) (close : Bool) :
    (model.closeOneShot now rx close).receivers.get? rx = none := by
  simp only [closeOneShot]
  split
  · assumption
  · split <;> simp [AttemptModel.emit, mapAttempts, dropReceiver]

theorem expireHolds_receivers (model : AttemptModel) (now : Instant)
    (found : (model.expireHolds now).receivers.get? rx = some receiver) :
    model.receivers.get? rx = some receiver ∧
      ∀ holdUntil, receiver.holdUntil = some holdUntil → now < holdUntil := by
  have loop : ∀ (due : List Rx) (current : AttemptModel),
      (due.foldl (fun model rx => (model.closeOneShot now rx true).finalizeBoundTo now rx)
        current).receivers.get? rx = some receiver →
      current.receivers.get? rx = some receiver ∧ rx ∉ due := by
    intro due
    induction due with
    | nil => exact fun current found => ⟨found, by simp⟩
    | cons head rest ih =>
      intro current found
      rcases ih _ found with ⟨kept, notRest⟩
      rw [finalizeBoundTo_receivers] at kept
      refine ⟨closeOneShot_receivers current now head true kept, ?_⟩
      rw [List.mem_cons, not_or]
      refine ⟨?_, notRest⟩
      rintro rfl
      rw [closeOneShot_erased] at kept
      cases kept
  rcases loop _ model found with ⟨before, notDue⟩
  refine ⟨before, ?_⟩
  intro holdUntil held
  by_contra passed
  rw [not_lt] at passed
  apply notDue
  refine List.mem_map.mpr ⟨(rx, receiver), ?_, rfl⟩
  rw [List.mem_filter, ← SortedMap.get?_eq_some_iff]
  exact ⟨before, by simp [held, passed]⟩

theorem retireStream_receivers (model : AttemptModel) (rx : Rx) {other : Rx}
    (found : (model.retireStream rx).receivers.get? other = some receiver)
    (live : receiver.retired = false) :
    model.receivers.get? other = some receiver ∧ other ≠ rx := by
  simp only [retireStream, mapAttempts] at found
  rcases registered : model.receivers.get? rx with _ | before
  · simp only [registered] at found
    refine ⟨found, ?_⟩
    rintro rfl
    rw [registered] at found
    cases found
  · simp only [registered, SortedMap.get?_insert] at found
    split at found
    · cases found
      cases live
    · rename_i different
      exact ⟨found, different⟩

theorem retireClosed_holds (model : AttemptModel) (now : Instant)
    (found : (model.retireClosed now).receivers.get? rx = some receiver) :
    ∃ before, model.receivers.get? rx = some before ∧ receiver.holdUntil = before.holdUntil := by
  have loop : ∀ (gone : List Rx) (current : AttemptModel),
      (gone.foldl retireStream current).receivers.get? rx = some receiver →
      ∃ before, current.receivers.get? rx = some before ∧
        receiver.holdUntil = before.holdUntil := by
    intro gone
    induction gone with
    | nil => exact fun current found => ⟨receiver, found, rfl⟩
    | cons head rest ih =>
      intro current found
      rcases ih _ found with ⟨middle, isMiddle, same⟩
      simp only [retireStream, mapAttempts] at isMiddle
      rcases registered : current.receivers.get? head with _ | before
      · simp only [registered] at isMiddle
        exact ⟨middle, isMiddle, same⟩
      · simp only [registered, SortedMap.get?_insert] at isMiddle
        split at isMiddle
        · rename_i here
          cases isMiddle
          exact ⟨before, here ▸ registered, same⟩
        · exact ⟨middle, isMiddle, same⟩
  exact loop _ model found

/-- What `retire_closed` leaves live was there before, and its connection has not been closed for
too long. -/
theorem retireClosed_receivers (model : AttemptModel) (now : Instant)
    (found : (model.retireClosed now).receivers.get? rx = some receiver)
    (live : receiver.retired = false) : model.receivers.get? rx = some receiver ∧
      ∀ closedAt, receiver.closedAt = some closedAt →
        now < closedAt + model.limits.closedRetireAfter := by
  have loop : ∀ (gone : List Rx) (current : AttemptModel),
      (gone.foldl retireStream current).receivers.get? rx = some receiver →
      current.receivers.get? rx = some receiver ∧ rx ∉ gone := by
    intro gone
    induction gone with
    | nil => exact fun current found => ⟨found, by simp⟩
    | cons head rest ih =>
      intro current found
      rcases ih _ found with ⟨kept, notRest⟩
      rcases retireStream_receivers current head kept live with ⟨before, different⟩
      exact ⟨before, by simp [different, notRest]⟩
  rcases loop _ model found with ⟨before, notGone⟩
  refine ⟨before, ?_⟩
  intro closedAt closed
  by_contra passed
  rw [not_lt] at passed
  apply notGone
  refine List.mem_map.mpr ⟨(rx, receiver), ?_, rfl⟩
  rw [List.mem_filter, ← SortedMap.get?_eq_some_iff]
  exact ⟨before, by simp [live, closed, passed]⟩

/-- No resume answer of the record is overdue. -/
def Awaits (now : Instant) (msg : Delivery) : Prop :=
  ∀ attempt ∈ msg.attempts, attempt.resumePending = true →
    ∀ deadline, attempt.resumeDeadline = some deadline → now < deadline

theorem Awaits.eases {old new : Delivery} (awaits : Awaits now old) (eases : old.Eases new) :
    Awaits now new := by
  intro after mem pending deadline isDeadline
  rcases Delivery.exists_left_of_forall₂ eases mem with ⟨before, beforeMem, eased⟩
  rcases eased.pending pending with ⟨wasPending, same⟩
  exact awaits before beforeMem wasPending deadline (same ▸ isDeadline)

theorem Eases.noteHeldLong (model : AttemptModel) (now : Instant) (id : String) :
    model.Eases (model.noteHeldLong now id) := by
  simp only [AttemptModel.noteHeldLong]
  split
  · exact Eases.refl model
  · rename_i msg record
    split
    · refine ⟨?_, rfl, rfl⟩
      exact SortedMap.Related.insert (fun _ => Delivery.Eases.refl) model.messages record
        (Delivery.Eases.of_attempts rfl)
    · exact Eases.refl model

theorem awaits_tickMessage (model : AttemptModel) (now : Instant) (id : String)
    (found : (AttemptModel.tickMessage now model id).messages.get? id = some after) :
    Awaits now after := by
  have eases := (Eases.finalize { model with
    messages := model.messages.modify id fun msg =>
      { msg with attempts := msg.attempts.map (lapseResume now) } } now id).trans
    (Eases.noteHeldLong _ now id)
  rcases eases.records.left_of_right found with ⟨lapsed, isLapsed, eased⟩
  refine Awaits.eases ?_ eased
  simp only [SortedMap.get?_modify] at isLapsed
  rcases Option.map_eq_some_iff.mp isLapsed with ⟨msg, _, rfl⟩
  intro attempt mem pending deadline isDeadline
  rcases List.mem_map.mp mem with ⟨old, _, rfl⟩
  simp only [lapseResume] at pending isDeadline
  split at pending
  · simp [Attempt.fence, Attempt.regained, Attempt.recheck] at pending
  · rename_i stays
    rw [if_neg stays] at isDeadline
    by_contra passed
    rw [not_lt] at passed
    exact stays (by simp [pending, isDeadline, passed])

section

variable (valid : model.Valid)

include valid

theorem Valid.awaits_tickMessages (now : Instant) (ids : List String)
    (found : (ids.foldl (AttemptModel.tickMessage now) model).messages.get? id = some after)
    (covered : id ∈ ids ∨ ∀ msg, model.messages.get? id = some msg → Awaits now msg) :
    Awaits now after := by
  induction ids generalizing model with
  | nil => exact covered.elim (by simp) fun awaits => awaits after found
  | cons head rest ih =>
    have ticked : Moves Powers.none model (AttemptModel.tickMessage now model head) :=
      valid.tickMessage now head
    refine ih (valid.moves ticked) found ?_
    by_cases inRest : id ∈ rest
    · exact Or.inl inRest
    · right
      intro msg record
      by_cases here : id = head
      · subst here
        exact awaits_tickMessage model now id record
      · rcases (Moves.eases ticked rfl).records.left_of_right record with ⟨old, oldRecord, eased⟩
        have awaits := covered.resolve_left (by simp [here, inRest])
        exact (awaits old oldRecord).eases eased

theorem Valid.quiet_runTimers (now : Instant) : (model.runTimers now).Quiet now := by
  have expired : Moves Powers.linker model (model.expireHolds now) := valid.expireHolds rfl now
  have retired : Moves Powers.linker (model.expireHolds now)
      ((model.expireHolds now).retireClosed now) := (valid.moves expired).retireClosed rfl now
  have retiredValid := (valid.moves expired).moves retired
  have staged : Moves Powers.none ((model.expireHolds now).retireClosed now)
      (((model.expireHolds now).retireClosed now).stagingLapsed now) :=
    retiredValid.stagingLapsed now
  have stagedValid := retiredValid.moves staged
  have ticked : Moves Powers.none (((model.expireHolds now).retireClosed now).stagingLapsed now)
      (model.runTimers now) := stagedValid.tickMessages now _
  have receivers : (model.runTimers now).receivers =
      ((model.expireHolds now).retireClosed now).receivers :=
    (Moves.eases (staged.trans ticked) rfl).receivers
  have limits : (model.runTimers now).limits = (model.expireHolds now).limits :=
    ((Evolves.moves (staged.trans ticked)).limits).trans (Evolves.moves retired).limits
  have resent : ∀ current : AttemptModel, Moves Powers.none current (current.revokesDue now) :=
    fun current => moves_revokesDue current now
  refine ⟨?_, ?_, ?_⟩
  · intro id after found attempt mem pending
    rcases (Moves.eases (resent _) rfl).records.left_of_right found with ⟨msg, record, eased⟩
    refine (Awaits.eases ?_ eased) attempt mem pending
    refine stagedValid.awaits_tickMessages now _ record ?_
    -- The loop visits every record there is.
    by_cases known : id ∈ (((model.expireHolds now).retireClosed now).stagingLapsed
        now).messages.keys
    · exact Or.inl known
    · right
      intro msg isThere
      exact absurd ((SortedMap.mem_keys_iff _ id).mpr ⟨msg, isThere⟩) known
  · intro rx receiver found isHook
    rw [receivers] at found
    rcases retireClosed_holds _ now found with ⟨before, registered, same⟩
    rw [same]
    exact (expireHolds_receivers model now registered).2
  · intro rx receiver found live _
    rw [receivers] at found
    rw [limits]
    exact (retireClosed_receivers _ now found live).2

theorem Valid.quiet_tickCleared (running : model.exited = false) (now : Instant)
    (cleared : List LapseCheck) : (model.tickCleared now cleared).Quiet now := by
  have checked : Moves Powers.clock model (model.clearChecks now cleared) :=
    valid.clearChecks rfl now cleared
  have isTick : model.tickCleared now cleared = (model.clearChecks now cleared).runTimers now :=
    if_neg (by simp [running])
  rw [isTick]
  exact (valid.moves checked).quiet_runTimers now

theorem Valid.quiet_ticks (running : model.exited = false) {op : Op} (ticks : op.ticks = some now) :
    (model.apply op).Quiet now := by
  cases op with
  | tick instant =>
    cases ticks
    have expired : Moves Powers.linker model (model.expireHolds now) := valid.expireHolds rfl now
    have isTick : model.tick now =
        (model.expireHolds now).tickCleared now ((model.expireHolds now).lapseCandidates now) := by
      simp [AttemptModel.tick, running]
    simp only [AttemptModel.apply, isTick]
    exact (valid.moves expired).quiet_tickCleared
      ((Evolves.moves expired).exited.trans running) now _
  | tickCleared instant cleared =>
    cases ticks
    exact valid.quiet_tickCleared running now cleared
  | tickTurn instant cleared turn =>
    cases ticks
    have turned : Moves Powers.none model (model.turn now turn) := valid.turn now turn
    have turnedValid := valid.moves turned
    have quiet := turnedValid.quiet_tickCleared
      ((Evolves.moves turned).exited.trans running) now cleared
    have noted : Moves Powers.none ((model.turn now turn).tickCleared now cleared)
        (model.tickTurn now cleared turn) := moves_noteTurn _ now turn
    have eases := Moves.eases noted rfl
    refine ⟨?_, ?_, ?_⟩
    · intro id after found
      rcases eases.records.left_of_right found with ⟨msg, record, eased⟩
      exact Awaits.eases (quiet.resumes id msg record) eased
    · intro rx receiver found
      rw [AttemptModel.apply, eases.receivers] at found
      exact quiet.holds rx receiver found
    · intro rx receiver found
      rw [AttemptModel.apply, eases.receivers] at found
      rw [AttemptModel.apply, (Evolves.moves noted).limits]
      exact quiet.streams rx receiver found
  | _ => simp [Op.ticks] at ticks

end

/-- Slots, receivers and open attempts belong together. -/
structure NothingOrphaned (model : AttemptModel) : Prop where
  single : ∀ slot, slot ≠ .hook → ∀ left right, model.Receives left slot false →
    model.Receives right slot false → left = right
  slotted : ∀ slot, slot ≠ .hook → ∀ rx,
    model.slots.get? slot = some rx ↔ model.Receives rx slot false
  bound : ∀ id msg, model.messages.get? id = some msg → ∀ attempt ∈ msg.attempts,
    attempt.stage = .issued ∨ attempt.stage = .handed →
      model.Receives attempt.rx attempt.slot false ∨
        (attempt.resumePending = true ∧ attempt.resumeDeadline.isSome = true ∧
          attempt.slot.oneShot = false ∧ model.Receives attempt.rx attempt.slot true)
  answered : ∀ id msg, model.messages.get? id = some msg → ∀ attempt ∈ msg.attempts,
    attempt.resumePending = true → attempt.stage.isFinal = false

theorem Served.nothingOrphaned (served : model.Served) (valid : model.Valid) :
    model.NothingOrphaned := by
  refine ⟨?_, ?_, ?_, ?_⟩
  · intro slot notHook left right leftLive rightLive
    have leftNamed := (served.slotted slot notHook left id).mpr leftLive
    have rightNamed := (served.slotted slot notHook right id).mpr rightLive
    exact Option.some.inj (leftNamed.symm.trans rightNamed)
  · exact fun slot notHook rx => served.slotted slot notHook rx id
  · intro id msg record attempt mem stage
    have isOpen : attempt.stage.isFinal = false := by
      rcases stage with issued | handed
      · rw [issued]
        rfl
      · rw [handed]
        rfl
    rcases served.bound.held record attempt mem isOpen with live | ⟨pending, retired⟩
    · exact Or.inl live
    · exact Or.inr ⟨pending, served.bound.deadlined record attempt mem pending,
        ((valid.recorded.staging record).resuming attempt mem pending).2, retired⟩
  · exact fun id msg record attempt mem pending =>
      ((valid.recorded.staging record).resuming attempt mem pending).1

/-- Before exit no open attempt is left on a receiver that cannot answer for it, and a tick leaves
nothing overdue. -/
theorem nothing_orphaned (limits : Limits) (generation : ℕ) (ops : List Op)
    (running : ((AttemptModel.new limits generation).run ops).exited = false) :
    ((AttemptModel.new limits generation).run ops).NothingOrphaned ∧
      ∀ op now, op.ticks = some now →
        (((AttemptModel.new limits generation).run ops).apply op).Quiet now := by
  have valid := valid_run limits generation ops
  have served := (Served.new limits generation).run (Valid.new limits generation) ops
  exact ⟨served.nothingOrphaned valid, fun op now ticks => valid.quiet_ticks running ticks⟩

/-- A stream is handed a message, and a second incarnation takes its slot. -/
def succeededRun : List Op :=
  [.post "m" false, .register 0 .pi false, .issue 1 "m" 1, .register 2 .pi true]

theorem nothing_orphaned_succeededRun :
    (((AttemptModel.new Limits.default 1).run succeededRun).messages.get? "m").any (fun msg =>
      msg.attempts.any fun attempt => attempt.resumePending) = true ∧
    ((AttemptModel.new Limits.default 1).run succeededRun).NothingOrphaned :=
  ⟨by decide, (nothing_orphaned Limits.default 1 succeededRun (by decide)).1⟩

end AttemptModel

end AgentDeck.Attempts
