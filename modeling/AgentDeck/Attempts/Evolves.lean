import AgentDeck.Attempts.Record

/-!
# How attempts and records evolve

A relation between two states of one attempt that every move keeps: its identity is fixed, a
commit is never taken back, its mark only grows, and whatever could make an absence in the spool
stale moves the mark. `Delivery.Evolves` lifts it to a record. Both are reflexive and transitive,
so what one change does says what a whole operation, or a whole run, can do.
-/

namespace AgentDeck.Attempts

open AttemptModel (commitStage reportStage releaseHold unresume rebind)

namespace Attempt

/-- The attempt has nothing left that could change its content's fate. -/
def Quiescent (attempt : Attempt) : Prop :=
  attempt.stage.isFinal = true ∧ attempt.resumePending = false ∧ attempt.verifier = false ∧
    attempt.withheld = false

/-- `ended` says whether the message has ended in the later state. -/
structure Evolves (powers : Powers) (ended : Bool) (old new : Attempt) : Prop where
  a : new.a = old.a
  e : new.e = old.e
  slot : new.slot = old.slot
  committed : old.stage = .committed → new.stage = .committed
  notHanded : old.stage = .notHanded → new.stage = .notHanded ∨ new.stage = .committed
  final : old.stage.isFinal = true → new.stage.isFinal = true
  quiet : old.stage.isFinal = true → (new.resumePending = true → old.resumePending = true) ∧
    (new.verifier = true → old.verifier = true)
  withheld : powers.withholds = false → new.withheld = true → old.withheld = true
  reclaimed : old.reclaimed = true → new.reclaimed = true
  reclaims : powers.withholds = false → new.reclaimed = true →
    old.reclaimed = true ∨ (ended = true ∧ new.Quiescent)
  mark : old.mark ≤ new.mark
  cleared : powers.clears = false → new.cleared = true →
    old.cleared = true ∧ new.mark = old.mark
  fenced : new.stage = .fenced → old.stage = .fenced ∨ old.mark < new.mark
  rebound : new.rx = old.rx ∨ old.mark < new.mark

namespace Evolves

variable {powers : Powers} {ended later : Bool} {old middle new : Attempt}

theorem refl (powers : Powers) (ended : Bool) (attempt : Attempt) :
    attempt.Evolves powers ended attempt := by
  constructor <;> tauto

theorem quiescent (evolves : old.Evolves powers ended new) (powerless : powers.withholds = false)
    (quiescent : old.Quiescent) : new.Quiescent := by
  rcases quiescent with ⟨final, answered, unverified, released⟩
  refine ⟨evolves.final final, ?_, ?_, ?_⟩
  · rw [← Bool.not_eq_true]
    intro pending
    exact absurd ((evolves.quiet final).1 pending) (by simp [answered])
  · rw [← Bool.not_eq_true]
    intro verifier
    exact absurd ((evolves.quiet final).2 verifier) (by simp [unverified])
  · rw [← Bool.not_eq_true]
    intro withheld
    exact absurd (evolves.withheld powerless withheld) (by simp [released])

theorem trans (first : old.Evolves powers ended middle) (second : middle.Evolves powers later new)
    (stays : ended = true → later) : old.Evolves powers later new := by
  constructor
  · exact second.a.trans first.a
  · exact second.e.trans first.e
  · exact second.slot.trans first.slot
  · exact fun committed => second.committed (first.committed committed)
  · intro notHanded
    rcases first.notHanded notHanded with notHanded | committed
    · exact second.notHanded notHanded
    · exact Or.inr (second.committed committed)
  · exact fun final => second.final (first.final final)
  · intro final
    have firstQuiet := first.quiet final
    have secondQuiet := second.quiet (first.final final)
    exact ⟨fun pending => firstQuiet.1 (secondQuiet.1 pending),
      fun verifier => firstQuiet.2 (secondQuiet.2 verifier)⟩
  · exact fun powerless withheld => first.withheld powerless (second.withheld powerless withheld)
  · exact fun reclaimed => second.reclaimed (first.reclaimed reclaimed)
  · intro powerless reclaimed
    rcases second.reclaims powerless reclaimed with before | now
    · rcases first.reclaims powerless before with before | ⟨isEnded, quiescent⟩
      · exact Or.inl before
      · exact Or.inr ⟨stays isEnded, second.quiescent powerless quiescent⟩
    · exact Or.inr now
  · exact first.mark.trans second.mark
  · intro powerless cleared
    rcases second.cleared powerless cleared with ⟨middleCleared, secondMark⟩
    rcases first.cleared powerless middleCleared with ⟨oldCleared, firstMark⟩
    exact ⟨oldCleared, secondMark.trans firstMark⟩
  · intro fenced
    have firstMark := first.mark
    have secondMark := second.mark
    rcases second.fenced fenced with before | bumped
    · rcases first.fenced before with before | bumped
      · exact Or.inl before
      · omega
    · omega
  · have firstMark := first.mark
    have secondMark := second.mark
    rcases second.rebound with secondSame | bumped
    · rcases first.rebound with firstSame | bumped
      · exact Or.inl (secondSame.trans firstSame)
      · omega
    · omega

end Evolves

theorem Quiescent.evolves_reclaimed (attempt : Attempt) (powers : Powers)
    (quiescent : attempt.Quiescent) :
    attempt.Evolves powers true { attempt with reclaimed := true } := by
  constructor <;> tauto

end Attempt

theorem Stage.not_final_of_rank_lt {old new : Stage} (above : old.rank < new.rank) :
    old.isFinal = false := by
  cases old <;> cases new <;> simp_all [rank, isFinal]

theorem Stage.ne_of_not_final {stage : Stage} (isOpen : stage.isFinal = false) :
    stage ≠ .committed ∧ stage ≠ .notHanded := by
  cases stage <;> simp_all [isFinal]

section Changes

variable {powers : Powers} {ended : Bool} {msg changed : Delivery} {old new : Attempt}

theorem Touch.evolves (touch : Touch powers msg old new) : old.Evolves powers ended new := by
  cases touch with
  | same => exact Attempt.Evolves.refl powers ended old
  | recheck => constructor <;> simp [Attempt.recheck] <;> tauto
  | correcting rx final => constructor <;> simp [Attempt.recheck] <;> tauto
  | resume _ deadline isOpen => constructor <;> simp [isOpen] <;> tauto
  | report stage above uncommitted unfenced =>
    have isOpen := Stage.not_final_of_rank_lt above
    rcases Stage.ne_of_not_final isOpen with ⟨notCommitted, notNotHanded⟩
    constructor <;> simp [reportStage, isOpen, unfenced, notCommitted, notNotHanded]
    tauto
  | commitEarlier =>
    constructor <;> simp [commitStage, Stage.isFinal]
    tauto
  | releaseHold => constructor <;> simp [AttemptModel.releaseHold] <;> tauto
  | deckNotHanded movable =>
    have notCommitted : old.stage ≠ .committed := by
      rcases movable with issued | fenced
      · simp [issued]
      · simp [fenced]
    constructor <;> simp [Stage.isFinal, notCommitted]
    tauto
  | unverify => constructor <;> simp <;> tauto
  | fence isOpen answered quietAt =>
    rcases Stage.ne_of_not_final isOpen with ⟨notCommitted, notNotHanded⟩
    constructor <;> simp [Attempt.fence, Attempt.regained, Attempt.recheck, isOpen, notCommitted,
      notNotHanded]
    tauto
  | fenceResumed isOpen =>
    rcases Stage.ne_of_not_final isOpen with ⟨notCommitted, notNotHanded⟩
    constructor <;> simp [Attempt.fence, Attempt.regained, Attempt.recheck, unresume, isOpen,
      notCommitted, notNotHanded]
    tauto
  | resumeNotHanded isOpen =>
    rcases Stage.ne_of_not_final isOpen with ⟨notCommitted, _⟩
    constructor <;> simp [unresume, Stage.isFinal, notCommitted]
    tauto
  | resend sent => constructor <;> simp <;> tauto
  | clear allowed => constructor <;> simp [allowed] <;> tauto
  | withhold allowed =>
    constructor <;> simp [allowed]
    tauto

theorem Edit.unexited {powers : Powers} {msg changed : Delivery} (edit : Edit powers msg changed)
    (unexited : msg.state ≠ .undeliverable .exited) : changed.state ≠ .undeliverable .exited := by
  cases edit with
  | retried =>
    simp only [Delivery.retried]
    split
    · exact unexited
    · simp
  | _ => exact unexited

variable (attempt : Attempt)

theorem Attempt.Evolves.commit : attempt.Evolves powers ended (commitStage attempt) := by
  constructor <;> simp [commitStage, Stage.isFinal]
  tauto

theorem Attempt.Evolves.revoke (now : Instant) :
    attempt.Evolves powers ended (Delivery.revoke now attempt) := by
  simp only [Delivery.revoke]
  split
  · constructor <;> simp <;> tauto
  · exact refl powers ended attempt

theorem Attempt.Evolves.rebind (isOpen : attempt.stage.isFinal = false) (rx : Rx) (d : ℕ)
    (now : Instant) : attempt.Evolves powers ended (rebind rx d now attempt) := by
  rcases Stage.ne_of_not_final isOpen with ⟨notCommitted, notNotHanded⟩
  rw [AttemptModel.rebind_eq]
  constructor <;> simp [isOpen, notCommitted, notNotHanded]
  tauto

theorem Attempt.Evolves.reclaim (msg : Delivery) (attempt : Attempt) :
    attempt.Evolves powers msg.state.isTerminal (msg.reclaimAttempt attempt) := by
  have unverified : attempt.Evolves powers msg.state.isTerminal
      (if msg.state = .settled then { attempt with verifier := false } else attempt) := by
    split
    · constructor <;> simp <;> tauto
    · exact refl powers _ attempt
  simp only [Delivery.reclaimAttempt]
  split
  · exact refl powers _ attempt
  · generalize (if msg.state = .settled then { attempt with verifier := false } else attempt) =
      quieted at unverified ⊢
    split
    · rename_i quiescent
      simp only [Bool.and_eq_true, Bool.not_eq_true'] at quiescent
      rcases quiescent with ⟨⟨⟨⟨terminal, final⟩, answered⟩, unverifies⟩, released⟩
      rw [terminal] at unverified ⊢
      exact unverified.trans (Attempt.Quiescent.evolves_reclaimed _ powers
        ⟨final, answered, unverifies, released⟩) id
    · exact unverified

end Changes

structure Binding where
  a : ℕ
  e : ℕ
  rx : Rx
  d : ℕ
  slot : Slot

def Attempt.binding (attempt : Attempt) : Binding :=
  ⟨attempt.a, attempt.e, attempt.rx, attempt.d, attempt.slot⟩

structure Reservation where
  a : ℕ
  e : ℕ
  reclaimed : Bool
  deriving DecidableEq

def Attempt.reservation (attempt : Attempt) : Reservation :=
  ⟨attempt.a, attempt.e, attempt.reclaimed⟩

theorem Touch.binding {powers : Powers} {msg : Delivery} {old new : Attempt}
    (touch : Touch powers msg old new) : new.binding = old.binding := by
  cases touch <;> rfl

theorem Touch.reservation {powers : Powers} {msg : Delivery} {old new : Attempt}
    (touch : Touch powers msg old new) : new.reservation = old.reservation := by
  cases touch <;> rfl

def Unreclaiming (effects : List Effect) : Prop :=
  ∀ id a e, Effect.reclaimed id a e ∉ effects

/-- No effect of the list returns evidence or corrects a sender: the finalizer alone emits those. -/
structure Plain (effects : List Effect) : Prop where
  unreclaiming : Unreclaiming effects
  uncorrecting : ∀ id despiteCancel, Effect.deliveredAfterAll id despiteCancel ∉ effects

namespace Delivery

/-- The finalizer's rules leave the attempts alone or revoke the open ones, and never go back
to an earlier assignment. -/
theorem rules_frame (msg : Delivery) (limits : Limits) (now : Instant) (id : String)
    (reading : Reading) :
    ((msg.rules limits now id reading).1.attempts = msg.attempts ∨
      (msg.rules limits now id reading).1.attempts = msg.attempts.map (revoke now)) ∧
    msg.a ≤ (msg.rules limits now id reading).1.a := by
  simp only [rules]
  split
  · simp only [ruleCommitted]
    split
    · simp [correct_fst]
    · split
      · split <;> simp [correct_fst]
      · split <;> simp [correct_fst]
  · split
    · simp
    · split
      · simp only [ruleLatched]
        split <;> simp
      · split
        · simp
        · split
          · simp only [ruleNotHanded]
            split
            · simp
            · split
              · simp
              · split <;> simp
          · split
            · simp only [ruleHeld]
              split <;> simp
            · simp only [ruleLapsed]
              repeat' split
              all_goals simp

theorem rules_of_terminal {msg : Delivery} (terminal : msg.state.isTerminal)
    (limits : Limits) (now : Instant) (id : String) (reading : Reading) :
    (msg.rules limits now id reading).1.state.isTerminal = true ∧
      (msg.rules limits now id reading).1.a = msg.a := by
  simp only [rules]
  split
  · simp only [ruleCommitted]
    split
    · simp [correct_fst, MessageState.isTerminal]
    · split <;> simp [correct_fst, terminal]
  · exact ⟨terminal, rfl⟩

theorem rules_unexited {msg : Delivery} (unexited : msg.state ≠ .undeliverable .exited)
    (limits : Limits) (now : Instant) (id : String) (reading : Reading) :
    (msg.rules limits now id reading).1.state ≠ .undeliverable .exited := by
  simp only [rules]
  split
  · simp only [ruleCommitted]
    split
    · simp [correct_fst]
    · split
      · split <;> simp [correct_fst, unexited]
      · split <;> simp [correct_fst]
  · split
    · exact unexited
    · split
      · simp only [ruleLatched]
        split <;> simp
      · split
        · simp
        · split
          · simp only [ruleNotHanded]
            split
            · exact unexited
            · split
              · simp
              · split <;> simp
          · split
            · simp only [ruleHeld]
              split <;> simp
            · simp only [ruleLapsed]
              repeat' split
              all_goals simp [unexited]

@[simp]
theorem noteWitness_attempts (msg : Delivery) (now : Instant) (witnessed : Bool) :
    (msg.noteWitness now witnessed).attempts = msg.attempts := by
  simp only [noteWitness]
  repeat' split
  all_goals rfl

@[simp]
theorem noteWitness_a (msg : Delivery) (now : Instant) (witnessed : Bool) :
    (msg.noteWitness now witnessed).a = msg.a := by
  simp only [noteWitness]
  repeat' split
  all_goals rfl

@[simp]
theorem noteWitness_state (msg : Delivery) (now : Instant) (witnessed : Bool) :
    (msg.noteWitness now witnessed).state = msg.state := by
  simp only [noteWitness]
  repeat' split
  all_goals rfl

@[simp]
theorem noteWitness_token (msg : Delivery) (now : Instant) (witnessed : Bool) :
    (msg.noteWitness now witnessed).token = msg.token := by
  simp only [noteWitness]
  repeat' split
  all_goals rfl

/-- How a record evolves while it is retained and nothing is handed out. -/
structure Evolves (powers : Powers) (old new : Delivery) : Prop where
  attempts : List.Forall₂ (Attempt.Evolves powers new.state.isTerminal) old.attempts new.attempts
  assignment : old.a ≤ new.a
  terminal : old.state.isTerminal = true → new.state.isTerminal = true ∧ new.a = old.a

namespace Evolves

variable {powers : Powers} {old middle new : Delivery}

theorem of_attempts_eq (attempts : new.attempts = old.attempts) (assignment : old.a ≤ new.a)
    (terminal : old.state.isTerminal = true → new.state.isTerminal = true ∧ new.a = old.a) :
    old.Evolves powers new := by
  refine ⟨?_, assignment, terminal⟩
  rw [attempts]
  exact List.forall₂_same.mpr fun attempt _ => Attempt.Evolves.refl powers _ attempt

theorem refl (powers : Powers) (msg : Delivery) : msg.Evolves powers msg :=
  of_attempts_eq rfl le_rfl fun terminal => ⟨terminal, rfl⟩

theorem trans (first : old.Evolves powers middle) (second : middle.Evolves powers new) :
    old.Evolves powers new := by
  refine ⟨?_, first.assignment.trans second.assignment, ?_⟩
  · exact forall₂_trans first.attempts second.attempts fun firstStep secondStep =>
      firstStep.trans secondStep fun ended => (second.terminal ended).1
  · intro terminal
    rcases first.terminal terminal with ⟨middleTerminal, middleA⟩
    rcases second.terminal middleTerminal with ⟨newTerminal, newA⟩
    exact ⟨newTerminal, newA.trans middleA⟩

theorem edit (edit : Edit powers old new) : old.Evolves powers new := by
  cases edit with
  | touch attempts touched =>
    refine ⟨?_, le_rfl, fun terminal => ⟨terminal, rfl⟩⟩
    exact touched.imp fun _ _ touch => touch.evolves
  | retried _ live =>
    simp only [Delivery.retried]
    split
    · exact of_attempts_eq rfl le_rfl fun terminal => ⟨terminal, rfl⟩
    · apply of_attempts_eq <;> simp [live]
  | cancelled _ live now =>
    refine ⟨forall₂_map ?_, le_rfl, fun terminal => ⟨terminal, rfl⟩⟩
    intro attempt _
    split
    · exact Attempt.Evolves.revoke attempt now
    · exact Attempt.Evolves.refl powers _ attempt
  | dropToken | heldLong | notStarted | lastAction =>
    exact of_attempts_eq rfl le_rfl fun terminal => ⟨terminal, rfl⟩

theorem rules (msg : Delivery) (limits : Limits) (now : Instant) (id : String) (reading : Reading) :
    msg.Evolves powers (msg.rules limits now id reading).1 := by
  rcases rules_frame msg limits now id reading with ⟨attempts, assignment⟩
  refine ⟨?_, assignment, fun terminal => rules_of_terminal terminal limits now id reading⟩
  rcases attempts with same | revoked
  · rw [same]
    exact List.forall₂_same.mpr fun attempt _ => Attempt.Evolves.refl powers _ attempt
  · rw [revoked]
    exact forall₂_map fun attempt _ => Attempt.Evolves.revoke attempt now

theorem noteWitness (msg : Delivery) (now : Instant) (witnessed : Bool) :
    msg.Evolves powers (msg.noteWitness now witnessed) := by
  apply of_attempts_eq <;> simp

theorem reclaim (msg : Delivery) :
    msg.Evolves powers { msg with attempts := msg.attempts.map msg.reclaimAttempt } :=
  ⟨forall₂_map fun attempt _ => Attempt.Evolves.reclaim msg attempt, le_rfl,
    fun terminal => ⟨terminal, rfl⟩⟩

theorem updateAttempt (msg : Delivery) (a e : ℕ) {f : Attempt → Attempt}
    (changed : ∀ attempt ∈ msg.attempts, attempt.a = a → attempt.e = e →
      attempt.Evolves powers msg.state.isTerminal (f attempt)) :
    msg.Evolves powers (msg.updateAttempt a e f) := by
  refine ⟨?_, le_rfl, fun terminal => ⟨terminal, rfl⟩⟩
  apply forall₂_updateFirst (Attempt.Evolves.refl powers _)
  intro attempt mem found
  simp only [Bool.and_eq_true, decide_eq_true_eq] at found
  exact changed attempt mem found.1 found.2

end Evolves

/-! ## What the receivers and the evidence read of an attempt -/

/-! ## Effects -/

theorem correct_unreclaiming (msg : Delivery) (id : String) (despiteCancel : Bool) :
    Unreclaiming (msg.correct id despiteCancel).2 := by
  intro other a e
  simp only [correct]
  split <;> simp

theorem revokeEffects_unreclaiming (id : String) (attempts : List Attempt) :
    Unreclaiming (revokeEffects id attempts) := by
  intro other a e
  simp [revokeEffects]

theorem revokeEffects_plain (id : String) (attempts : List Attempt) :
    Plain (revokeEffects id attempts) :=
  ⟨revokeEffects_unreclaiming id attempts, fun other despiteCancel => by simp [revokeEffects]⟩

theorem rules_unreclaiming (msg : Delivery) (limits : Limits) (now : Instant) (id : String)
    (reading : Reading) : Unreclaiming (msg.rules limits now id reading).2 := by
  intro other a e
  simp only [rules]
  split
  · simp only [ruleCommitted]
    split
    · exact correct_unreclaiming _ id false other a e
    · split
      · split
        · exact correct_unreclaiming msg id true other a e
        · exact correct_unreclaiming msg id false other a e
        · simp
      · split
        · rw [List.mem_append, not_or]
          exact ⟨revokeEffects_unreclaiming id msg.attempts other a e,
            correct_unreclaiming _ id msg.latch other a e⟩
        · exact revokeEffects_unreclaiming id msg.attempts other a e
  · split
    · simp
    · split
      · simp only [ruleLatched]
        split
        · split <;> simp
        · simp
      · split
        · simp
        · split
          · simp only [ruleNotHanded]
            repeat' split
            all_goals simp
          · split <;> simp

section Frames

variable {β : Type} {f : Attempt → β} {powers : Powers} {msg changed : Delivery}

def bindings (msg : Delivery) : List Binding := msg.attempts.map Attempt.binding

def reservations (msg : Delivery) : List Reservation := msg.attempts.map Attempt.reservation

def SameBindings (old new : Delivery) : Prop := new.bindings = old.bindings

def SameReservations (old new : Delivery) : Prop := new.reservations = old.reservations

theorem SameReservations.refl (msg : Delivery) : msg.SameReservations msg := rfl

/-- The attempts of the record whose evidence is still reserved. -/
def unreclaimed (msg : Delivery) : ℕ :=
  msg.reservations.countP fun reservation => !reservation.reclaimed

theorem revoke_binding (now : Instant) (attempt : Attempt) :
    (revoke now attempt).binding = attempt.binding := by
  simp only [revoke]
  split <;> rfl

theorem revoke_reservation (now : Instant) (attempt : Attempt) :
    (revoke now attempt).reservation = attempt.reservation := by
  simp only [revoke]
  split <;> rfl

theorem reclaimAttempt_binding (msg : Delivery) (attempt : Attempt) :
    (msg.reclaimAttempt attempt).binding = attempt.binding := by
  simp only [reclaimAttempt]
  split
  · rfl
  · split <;> split <;> rfl

theorem edit_map (edit : Edit powers msg changed)
    (touched : ∀ {old new}, Touch powers msg old new → f new = f old)
    (revoked : ∀ now attempt, f (revoke now attempt) = f attempt) :
    changed.attempts.map f = msg.attempts.map f := by
  cases edit with
  | touch attempts touches => exact map_eq_of_forall₂ (touches.imp fun _ _ => touched)
  | retried =>
    simp only [retried]
    split <;> simp
  | cancelled _ live now =>
    apply map_map_eq
    intro attempt
    split
    · exact revoked now attempt
    · rfl
  | _ => rfl

theorem rules_map (msg : Delivery) (limits : Limits) (now : Instant) (id : String)
    (reading : Reading) (revoked : ∀ now attempt, f (revoke now attempt) = f attempt) :
    (msg.rules limits now id reading).1.attempts.map f = msg.attempts.map f := by
  rcases (rules_frame msg limits now id reading).1 with same | isRevoked
  · rw [same]
  · rw [isRevoked]
    exact map_map_eq (revoked now)

theorem updateAttempt_map (msg : Delivery) (a e : ℕ) {g : Attempt → Attempt}
    (same : ∀ attempt, f (g attempt) = f attempt) :
    (msg.updateAttempt a e g).attempts.map f = msg.attempts.map f :=
  map_eq_of_forall₂ (forall₂_updateFirst (fun _ => rfl) fun attempt _ _ => same attempt)

theorem reclaimAttempt_of_reclaimed (msg : Delivery) {attempt : Attempt}
    (reclaimed : attempt.reclaimed) : msg.reclaimAttempt attempt = attempt := by
  simp only [reclaimAttempt, reclaimed, if_true]

theorem unreclaimed_reclaim (msg : Delivery) :
    ({ msg with attempts := msg.attempts.map msg.reclaimAttempt } : Delivery).unreclaimed +
      msg.reclaimable.length = msg.unreclaimed := by
  simp only [unreclaimed, reservations, reclaimable, List.countP_map]
  induction msg.attempts with
  | nil => rfl
  | cons head rest ih =>
    simp only [List.countP_cons, Function.comp_apply, Attempt.reservation] at ih ⊢
    by_cases reclaimed : head.reclaimed = true
    · simpa [reclaimAttempt_of_reclaimed msg reclaimed, reclaimed] using ih
    · by_cases now : (msg.reclaimAttempt head).reclaimed = true
      · simp [reclaimed, now]
        omega
      · simp [reclaimed, now]
        omega

theorem count_reclaim (msg : Delivery) (a e : ℕ) :
    ({ msg with attempts := msg.attempts.map msg.reclaimAttempt } : Delivery).reservations.count
      ⟨a, e, true⟩ =
      msg.reservations.count ⟨a, e, true⟩ +
        msg.reclaimable.countP fun attempt => attempt.a = a && attempt.e = e := by
  simp only [reservations, reclaimable, List.count, List.countP_map, List.countP_filter]
  induction msg.attempts with
  | nil => rfl
  | cons head rest ih =>
    have sameA : (msg.reclaimAttempt head).a = head.a :=
      congrArg Binding.a (reclaimAttempt_binding msg head)
    have sameE : (msg.reclaimAttempt head).e = head.e :=
      congrArg Binding.e (reclaimAttempt_binding msg head)
    simp only [List.countP_cons, ih, Function.comp_apply, Attempt.reservation]
    by_cases reclaimed : head.reclaimed = true
    · simp [reclaimAttempt_of_reclaimed msg reclaimed]
      omega
    · by_cases now : (msg.reclaimAttempt head).reclaimed = true
      · simp [reclaimed, now, sameA, sameE]
        omega
      · simp [reclaimed, now]

end Frames

end Delivery

end AgentDeck.Attempts
