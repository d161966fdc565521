import AgentDeck.Attempts.Model

/-!
# One delivery record: what may change it, and what every change keeps

`Touch` lists every change the operations make to a single attempt while the state of its
message stays as it is, with the guard the code puts on each. `Edit` lists the changes to a
record outside the finalizer. Together with the finalizer's rules, `reclaim` and a hand-out they
are all that can happen to a record, so each property below is proved once for each of them.

`Counted` collects the numbering of the attempts and the budgets, `Staged` what the state of the
message says about the stages of its attempts. A commit and a hand-out break two clauses of
`Staged` until the finalizer has run; `Staging` is what is left of it in between.
-/

namespace AgentDeck.Attempts

open AttemptModel (commitStage reportStage releaseHold unresume)

theorem AttemptModel.rebind_eq (rx : Rx) (d : ℕ) (now : Instant) (attempt : Attempt) :
    rebind rx d now attempt =
      { attempt with
        resumePending := false
        resumeDeadline := none
        rx := rx
        d := d
        issuedAt := now
        cleared := false
        mark := attempt.mark + 1
        revokeSent := if attempt.revoked then some now else attempt.revokeSent } := by
  cases revoked : attempt.revoked <;>
    simp [rebind, Attempt.regained, Attempt.recheck, revoked]

namespace Delivery

section SetState

variable (msg : Delivery) (state : MessageState)

@[simp]
theorem setState_state : (msg.setState state).state = state := by
  simp only [setState]
  split
  · assumption
  · rfl

@[simp]
theorem setState_attempts : (msg.setState state).attempts = msg.attempts := by
  simp only [setState]
  split <;> rfl

@[simp]
theorem setState_a : (msg.setState state).a = msg.a := by
  simp only [setState]
  split <;> rfl

@[simp]
theorem setState_offer : (msg.setState state).offer = msg.offer := by
  simp only [setState]
  split <;> rfl

@[simp]
theorem setState_latch : (msg.setState state).latch = msg.latch := by
  simp only [setState]
  split <;> rfl

@[simp]
theorem setState_corrected : (msg.setState state).corrected = msg.corrected := by
  simp only [setState]
  split <;> rfl

@[simp]
theorem setState_token : (msg.setState state).token = msg.token := by
  simp only [setState]
  split <;> rfl

@[simp]
theorem setState_issued : (msg.setState state).issued = msg.issued := by
  simp only [setState]
  split <;> rfl

@[simp]
theorem setState_autoRepeats : (msg.setState state).autoRepeats = msg.autoRepeats := by
  simp only [setState]
  split <;> rfl

@[simp]
theorem setState_requeues : (msg.setState state).requeues = msg.requeues := by
  simp only [setState]
  split <;> rfl

end SetState

section Correct

variable (msg : Delivery) (id : String) (despiteCancel : Bool)

theorem correct_fst : (msg.correct id despiteCancel).1 = { msg with corrected := true } := by
  simp only [correct]
  split
  · rename_i corrected
    rw [← corrected]
  · rfl

end Correct

/-! ## Attempts changed in place -/

variable {R : Attempt → Attempt → Prop} {f : Attempt → Attempt} {attempts : List Attempt}

theorem forall₂_updateFirst {p : Attempt → Bool} (refl : ∀ attempt, R attempt attempt)
    (changed : ∀ attempt ∈ attempts, p attempt = true → R attempt (f attempt)) :
    List.Forall₂ R attempts (updateFirst p f attempts) := by
  induction attempts with
  | nil => exact List.Forall₂.nil
  | cons head rest ih =>
    simp only [updateFirst]
    split
    · rename_i found
      exact List.Forall₂.cons (changed head List.mem_cons_self found)
        (List.forall₂_same.mpr fun attempt _ => refl attempt)
    · exact List.Forall₂.cons (refl head)
        (ih fun attempt mem => changed attempt (List.mem_cons_of_mem head mem))

theorem updateFirst_eq_map {p : Attempt → Bool}
    (unique : attempts.Pairwise fun left right => ¬(p left = true ∧ p right = true)) :
    updateFirst p f attempts = attempts.map fun attempt =>
      if p attempt then f attempt else attempt := by
  induction attempts with
  | nil => rfl
  | cons head rest ih =>
    rcases List.pairwise_cons.mp unique with ⟨apart, restUnique⟩
    simp only [updateFirst, List.map_cons]
    split
    · rename_i found
      have unmatched : ∀ attempt ∈ rest, (if p attempt then f attempt else attempt) = attempt := by
        intro attempt mem
        exact if_neg fun matched => apart attempt mem ⟨found, matched⟩
      rw [List.map_congr_left unmatched, List.map_id']
    · rw [ih restUnique]

theorem forall₂_map (changed : ∀ attempt ∈ attempts, R attempt (f attempt)) :
    List.Forall₂ R attempts (attempts.map f) :=
  List.forall₂_map_right_iff.mpr (List.forall₂_same.mpr changed)

variable {before after : List Attempt}

theorem exists_left_of_forall₂ (related : List.Forall₂ R before after) {new : Attempt}
    (mem : new ∈ after) : ∃ old ∈ before, R old new := by
  induction related with
  | nil => simp at mem
  | cons head _ ih =>
    rcases List.mem_cons.mp mem with rfl | mem
    · exact ⟨_, List.mem_cons_self, head⟩
    · rcases ih mem with ⟨old, oldMem, holds⟩
      exact ⟨old, List.mem_cons_of_mem _ oldMem, holds⟩

theorem exists_right_of_forall₂ (related : List.Forall₂ R before after) {old : Attempt}
    (mem : old ∈ before) : ∃ new ∈ after, R old new :=
  exists_left_of_forall₂ (List.Forall₂.flip related) mem

theorem forall₂_trans {S T : Attempt → Attempt → Prop} {middle : List Attempt}
    (first : List.Forall₂ R before middle) (second : List.Forall₂ S middle after)
    (compose : ∀ {old new later}, R old new → S new later → T old later) :
    List.Forall₂ T before after := by
  induction first generalizing after with
  | nil =>
    cases second
    exact List.Forall₂.nil
  | cons head _ ih =>
    cases second with
    | cons next rest => exact List.Forall₂.cons (compose head next) (ih rest)

theorem exists_append_of_forall₂ {first second : List Attempt}
    (related : List.Forall₂ R (first ++ second) after) : ∃ kept extra, after = kept ++ extra ∧
      List.Forall₂ R first kept ∧ List.Forall₂ R second extra := by
  induction first generalizing after with
  | nil => exact ⟨[], after, rfl, List.Forall₂.nil, related⟩
  | cons head rest ih =>
    cases related with
    | cons next others =>
      rcases ih others with ⟨kept, extra, rfl, firstKept, secondExtra⟩
      exact ⟨_ :: kept, extra, rfl, List.Forall₂.cons next firstKept, secondExtra⟩

theorem map_eq_of_forall₂ {β : Type} {f : Attempt → β}
    (same : List.Forall₂ (fun old new => f new = f old) before after) :
    after.map f = before.map f := by
  induction same with
  | nil => rfl
  | cons head _ ih => simp only [List.map_cons, head, ih]

theorem map_map_eq {β : Type} {f : Attempt → β} {g : Attempt → Attempt}
    (same : ∀ attempt, f (g attempt) = f attempt) : (attempts.map g).map f = attempts.map f :=
  map_eq_of_forall₂ (forall₂_map fun attempt _ => same attempt)

/-- What the numbering and the budgets read of an attempt. -/
def identities (msg : Delivery) : List (ℕ × ℕ × IssueKind) :=
  msg.attempts.map fun attempt => (attempt.a, attempt.e, attempt.kind)

end Delivery

/-- What a call may do beside the moves every call may make: clear a spool check on the clock,
withhold an attempt it has just spent, change who receives, apply a user action, or commit an
attempt of the current assignment. -/
structure Powers where
  clears : Bool
  withholds : Bool
  links : Bool
  acts : Bool
  commits : Bool

namespace Powers

def none : Powers := ⟨false, false, false, false, false⟩

def clock : Powers := ⟨true, false, true, false, false⟩

def holder : Powers := ⟨false, true, false, false, false⟩

def linker : Powers := ⟨false, false, true, false, false⟩

def user : Powers := ⟨false, false, false, true, false⟩

def reporter : Powers := ⟨false, false, false, false, true⟩

end Powers

/-- A change to one attempt of `msg` that leaves the message's state alone. -/
inductive Touch (powers : Powers) (msg : Delivery) (attempt : Attempt) : Attempt → Prop
  | same : Touch powers msg attempt attempt
  | recheck : Touch powers msg attempt attempt.recheck
  | correcting (rx : Rx) (final : attempt.stage.isFinal = true) :
      Touch powers msg attempt { attempt with correcting := some rx }.recheck
  | resume (allowed : powers.links = true) (deadline : Instant)
      (isOpen : attempt.stage.isFinal = false) (stream : attempt.slot.oneShot = false) :
      Touch powers msg attempt
        { attempt with resumePending := true, resumeDeadline := some deadline }
  | report (stage : Stage) (above : attempt.stage.rank < stage.rank)
      (uncommitted : stage ≠ .committed) (unfenced : stage ≠ .fenced)
      (answered : attempt.resumePending = false) :
      Touch powers msg attempt (reportStage stage attempt)
  | commitEarlier (earlier : attempt.a ≠ msg.a) : Touch powers msg attempt (commitStage attempt)
  | releaseHold : Touch powers msg attempt (releaseHold attempt)
  | deckNotHanded (movable : attempt.stage = .issued ∨ attempt.stage = .fenced)
      (oneShot : attempt.slot.oneShot = true) :
      Touch powers msg attempt
        { attempt with stage := .notHanded, verifier := false, quietAt := none }
  | unverify : Touch powers msg attempt { attempt with verifier := false }
  | fence (isOpen : attempt.stage.isFinal = false) (answered : attempt.resumePending = false)
      (quietAt : Option Instant) :
        Touch powers msg attempt { attempt.fence with quietAt := quietAt }
  | fenceResumed (isOpen : attempt.stage.isFinal = false) :
      Touch powers msg attempt (unresume attempt).fence
  | resumeNotHanded (isOpen : attempt.stage.isFinal = false) :
      Touch powers msg attempt { unresume attempt with stage := .notHanded }
  | resend (sent : Instant) : Touch powers msg attempt { attempt with revokeSent := some sent }
  | clear (allowed : powers.clears = true) :
    Touch powers msg attempt { attempt with cleared := true }
  | withhold (allowed : powers.withholds = true) (stagedUntil : Option Instant) :
      Touch powers msg attempt { attempt with withheld := true, stagedUntil := stagedUntil }

/-- A change to a record outside the finalizer, `reclaim` and a hand-out. -/
inductive Edit (powers : Powers) (msg : Delivery) : Delivery → Prop
  | touch (attempts : List Attempt)
      (touched : List.Forall₂ (Touch powers msg) msg.attempts attempts) :
      Edit powers msg { msg with attempts := attempts }
  | dropToken : Edit powers msg { msg with token := none }
  | retried (allowed : powers.acts = true) (live : msg.state.isTerminal = false) :
      Edit powers msg msg.retried
  | cancelled (allowed : powers.acts = true) (live : msg.state.isTerminal = false) (now : Instant) :
      Edit powers msg (msg.cancelled now)
  | heldLong (revision : Option ℕ) : Edit powers msg { msg with heldLongSent := revision }
  | notStarted (revision : Option ℕ) : Edit powers msg { msg with notStarted := revision }
  | lastAction (allowed : powers.acts = true) (action : Option (ℕ × Verb × ActionOutcome)) :
      Edit powers msg { msg with lastAction := action }

theorem Edit.refl (powers : Powers) (msg : Delivery) : Edit powers msg msg :=
  Edit.touch msg.attempts (List.forall₂_same.mpr fun _ _ => Touch.same)

section Touch

variable {powers : Powers} {msg : Delivery} {old new : Attempt}

theorem Touch.identity (touch : Touch powers msg old new) :
    (new.a, new.e, new.kind) = (old.a, old.e, old.kind) := by
  cases touch <;> rfl

theorem Touch.a (touch : Touch powers msg old new) : new.a = old.a := by
  cases touch <;> rfl

theorem Touch.committed (touch : Touch powers msg old new) (committed : old.stage = .committed) :
    new.stage = .committed := by
  cases touch with
  | report stage above =>
    rw [committed] at above
    cases stage <;> simp [Stage.rank] at above
  | deckNotHanded movable => simp [committed] at movable
  | fence isOpen | fenceResumed isOpen | resumeNotHanded isOpen =>
    simp [committed, Stage.isFinal] at isOpen
  | commitEarlier => rfl
  | _ => exact committed

theorem Touch.commits (touch : Touch powers msg old new) (current : old.a = msg.a)
    (committed : new.stage = .committed) : old.stage = .committed := by
  cases touch with
  | report stage above uncommitted => exact absurd committed uncommitted
  | commitEarlier earlier => exact absurd current earlier
  | deckNotHanded => simp at committed
  | fence => simp [Attempt.fence, Attempt.regained, Attempt.recheck] at committed
  | fenceResumed => simp [Attempt.fence, Attempt.regained, Attempt.recheck] at committed
  | resumeNotHanded => simp at committed
  | _ => exact committed

theorem Touch.notHanded (touch : Touch powers msg old new) (current : old.a = msg.a)
    (notHanded : old.stage = .notHanded) : new.stage = .notHanded := by
  cases touch with
  | report stage above =>
    rw [notHanded] at above
    cases stage <;> simp [Stage.rank] at above
  | commitEarlier earlier => exact absurd current earlier
  | fence isOpen => simp [notHanded, Stage.isFinal] at isOpen
  | fenceResumed isOpen => simp [notHanded, Stage.isFinal] at isOpen
  | resumeNotHanded => rfl
  | deckNotHanded => rfl
  | _ => exact notHanded

theorem Touch.resuming (touch : Touch powers msg old new)
    (resuming : old.resumePending = true → old.stage.isFinal = false ∧ old.slot.oneShot = false)
    (pending : new.resumePending) : new.stage.isFinal = false ∧ new.slot.oneShot = false := by
  cases touch with
  | resume allowed deadline isOpen stream => exact ⟨isOpen, stream⟩
  | report stage above uncommitted unfenced answered => simp [reportStage, answered] at pending
  | commitEarlier => simp [commitStage] at pending
  | deckNotHanded movable oneShot =>
    have stream := (resuming pending).2
    simp [oneShot] at stream
  | fence isOpen answered =>
    simp [Attempt.fence, Attempt.regained, Attempt.recheck, answered] at pending
  | fenceResumed => simp [Attempt.fence, Attempt.regained, Attempt.recheck, unresume] at pending
  | resumeNotHanded => simp [unresume] at pending
  | _ => exact resuming pending

end Touch

namespace Delivery

theorem revoke_identity (now : Instant) (attempt : Attempt) :
    ((revoke now attempt).a, (revoke now attempt).e, (revoke now attempt).kind) =
      (attempt.a, attempt.e, attempt.kind) := by
  simp only [revoke]
  split <;> rfl

theorem reclaimAttempt_identity (msg : Delivery) (attempt : Attempt) :
    ((msg.reclaimAttempt attempt).a, (msg.reclaimAttempt attempt).e,
      (msg.reclaimAttempt attempt).kind) = (attempt.a, attempt.e, attempt.kind) := by
  simp only [reclaimAttempt]
  split
  · rfl
  · split <;> split <;> rfl

end Delivery

/-! ## Numbering and budgets -/

namespace Delivery

def slack (state : MessageState) : ℕ := if state.isTerminal then 0 else 1

/-- The attempts are numbered in order, and the counters agree with them and with the limits. -/
structure Counted (limits : Limits) (msg : Delivery) : Prop where
  numbered : msg.identities.map (fun identity => identity.2.1) =
    List.range' 1 msg.identities.length
  ordered : msg.identities.Pairwise fun earlier later => earlier.1 ≤ later.1
  assigned : ∀ identity ∈ msg.identities, identity.1 ≤ msg.a
  issued : msg.issued = msg.identities.length
  issuedLe : msg.issued ≤ limits.maxAttempts
  repeats : msg.autoRepeats = msg.identities.countP fun identity => identity.2.2 = .autoRepeat
  repeatsLe : msg.autoRepeats ≤ limits.maxAutoRepeats
  autoToken : ∀ token, msg.token = some token → token.kind = .auto →
    msg.autoRepeats < limits.maxAutoRepeats
  requeues : 0 < limits.maxDeliver → msg.requeues + slack msg.state ≤ limits.maxDeliver

/-- What a change that is not a hand-out leaves of the counters. -/
def SameCounts (old new : Delivery) : Prop :=
  new.identities = old.identities ∧ new.issued = old.issued ∧ new.autoRepeats = old.autoRepeats

namespace Counted

variable {limits : Limits} {msg changed : Delivery}

theorem new (limits : Limits) (offer : Bool) (a : ℕ) : (Delivery.new offer a).Counted limits := by
  constructor <;> simp [Delivery.new, identities, slack, MessageState.isTerminal]
  omega

variable (counted : msg.Counted limits)

include counted

theorem assigned_attempts : ∀ attempt ∈ msg.attempts, attempt.a ≤ msg.a := by
  intro attempt mem
  exact counted.assigned _ (List.mem_map.mpr ⟨attempt, mem, rfl⟩)

theorem nodup_e : (msg.attempts.map fun attempt => attempt.e).Nodup := by
  have numbered := counted.numbered
  simp only [identities] at numbered
  have same : msg.attempts.map (fun attempt => attempt.e) = List.range' 1 msg.attempts.length := by
    simpa [Function.comp_def] using numbered
  rw [same]
  exact List.nodup_range'

theorem eq_of_e {left right : Attempt} (leftMem : left ∈ msg.attempts)
    (rightMem : right ∈ msg.attempts) (same : left.e = right.e) : left = right :=
  List.inj_on_of_nodup_map counted.nodup_e leftMem rightMem same

theorem updateAttempt_attempts (a e : ℕ) (f : Attempt → Attempt) :
    (msg.updateAttempt a e f).attempts = msg.attempts.map fun attempt =>
      if attempt.a = a && attempt.e = e then f attempt else attempt := by
  apply updateFirst_eq_map
  apply (List.pairwise_map.mp counted.nodup_e).imp
  intro left right different matched
  simp only [Bool.and_eq_true, decide_eq_true_eq] at matched
  exact different (matched.1.2.trans matched.2.2.symm)

theorem eq_of_lookup {a e : ℕ} {found other : Attempt} (lookup : msg.attempt a e = some found)
    (mem : other ∈ msg.attempts) (_isA : other.a = a) (isE : other.e = e) : found = other := by
  have matched := List.find?_some lookup
  simp only [Bool.and_eq_true, decide_eq_true_eq] at matched
  exact counted.eq_of_e (List.mem_of_find?_eq_some lookup) mem (matched.2.trans isE.symm)

theorem update (same : SameCounts msg changed) (grown : msg.a ≤ changed.a)
    (token : ∀ token, changed.token = some token → token.kind = .auto →
      msg.autoRepeats < limits.maxAutoRepeats)
    (requeues : 0 < limits.maxDeliver →
      changed.requeues + slack changed.state ≤ limits.maxDeliver) : changed.Counted limits := by
  rcases same with ⟨identities, issued, autoRepeats⟩
  refine ⟨?_, ?_, ?_, ?_, ?_, ?_, ?_, ?_, requeues⟩
  · rw [identities]
    exact counted.numbered
  · rw [identities]
    exact counted.ordered
  · rw [identities]
    exact fun identity mem => (counted.assigned identity mem).trans grown
  · rw [issued, identities]
    exact counted.issued
  · rw [issued]
    exact counted.issuedLe
  · rw [autoRepeats, identities]
    exact counted.repeats
  · rw [autoRepeats]
    exact counted.repeatsLe
  · rw [autoRepeats]
    exact token

theorem restate (same : SameCounts msg changed)
    (assignment : changed.a = msg.a) (token : changed.token = none ∨ changed.token = msg.token)
    (requeues : changed.requeues = msg.requeues)
    (state : msg.state.isTerminal = false ∨ changed.state.isTerminal = true ∨
      changed.state = msg.state) : changed.Counted limits := by
  refine counted.update same assignment.ge ?_ ?_
  · intro repeatToken holds
    rcases token with none | unchanged
    · simp [none] at holds
    · exact counted.autoToken repeatToken (unchanged ▸ holds)
  · intro positive
    have room := counted.requeues positive
    rw [requeues]
    simp only [slack] at room ⊢
    rcases state with live | terminal | unchanged
    · rw [live] at room
      split <;> simp at room <;> omega
    · rw [terminal]
      split at room <;> simp <;> omega
    · rwa [unchanged]

theorem edit {powers : Powers} (edit : Edit powers msg changed) : changed.Counted limits := by
  cases edit with
  | touch attempts touched =>
    refine counted.restate ⟨?_, rfl, rfl⟩ rfl (Or.inr rfl) rfl (Or.inr (Or.inr rfl))
    exact map_eq_of_forall₂ (touched.imp fun _ _ touch => touch.identity)
  | dropToken =>
    exact counted.restate ⟨rfl, rfl, rfl⟩ rfl (Or.inl rfl) rfl (Or.inr (Or.inr rfl))
  | retried _ live =>
    refine counted.update ⟨?_, ?_, ?_⟩ ?_ ?_ ?_ <;> simp only [retried]
    · split <;> simp [identities]
    · split <;> simp
    · split <;> simp
    · split <;> simp
    · rintro token ⟨⟩ impossible
      simp at impossible
    · intro positive
      have room := counted.requeues positive
      split <;> simp_all [slack, MessageState.isTerminal]
  | cancelled _ live now =>
    refine counted.restate ⟨?_, rfl, rfl⟩ rfl (Or.inl rfl) rfl (Or.inr (Or.inr rfl))
    apply map_map_eq
    intro attempt
    split
    · exact revoke_identity now attempt
    · rfl
  | heldLong revision | notStarted revision | lastAction _ action =>
    exact counted.restate ⟨rfl, rfl, rfl⟩ rfl (Or.inr rfl) rfl (Or.inr (Or.inr rfl))

theorem correct (id : String) (despiteCancel : Bool) :
    (msg.correct id despiteCancel).1.Counted limits := by
  rw [correct_fst]
  exact counted.restate ⟨rfl, rfl, rfl⟩ rfl (Or.inr rfl) rfl (Or.inr (Or.inr rfl))

theorem ruleCommitted (now : Instant) (id : String) :
    (msg.ruleCommitted now id).1.Counted limits := by
  simp only [Delivery.ruleCommitted]
  split
  · apply Counted.correct
    refine counted.restate ?_ (by simp) (Or.inr (by simp)) (by simp)
      (Or.inr (Or.inl (by simp [MessageState.isTerminal])))
    simp [SameCounts, identities]
  · split
    · split
      · exact counted.correct id true
      · exact counted.correct id false
      · exact counted
    · have settled : ({ msg.setState .settled with
          token := none
          possessedSince := none
          waitingSince := none
          heldLongSent := none
          attempts := msg.attempts.map (revoke now) } : Delivery).Counted limits := by
        refine counted.restate ⟨?_, by simp, by simp⟩ (by simp) (Or.inl rfl) (by simp)
          (Or.inr (Or.inl (by simp [MessageState.isTerminal])))
        exact map_map_eq (revoke_identity now)
      split
      · exact settled.correct id msg.latch
      · exact settled

section

variable (live : msg.state.isTerminal = false)

include live

theorem ruleLatched (id : String) (reading : Reading) :
    (msg.ruleLatched id reading).1.Counted limits := by
  simp only [Delivery.ruleLatched]
  split
  · refine counted.restate ?_ (by simp) (Or.inl (by simp)) (by simp) (Or.inl live)
    simp [SameCounts, identities]
  · refine counted.restate ?_ (by simp) (Or.inl (by simp)) (by simp) (Or.inl live)
    simp [SameCounts, identities]

theorem ruleNotHanded (id : String) : (msg.ruleNotHanded limits id).1.Counted limits := by
  have room := counted.requeues
  simp only [slack, live] at room
  simp only [Delivery.ruleNotHanded]
  split
  · exact counted.restate ⟨rfl, rfl, rfl⟩ rfl (Or.inl rfl) rfl (Or.inl live)
  · split
    · refine counted.update ?_ (by simp) (by simp) ?_
      · simp [SameCounts, identities]
      · intro positive
        simpa [slack, MessageState.isTerminal] using room positive
    · rename_i budget
      split
      · refine counted.update ?_ (by simp) (by simp) ?_
        · simp [SameCounts, identities]
        · simp only [slack, MessageState.isTerminal]
          simp
          omega
      · refine counted.update ?_ (by simp) (by simp) ?_
        · simp [SameCounts, identities]
        · simp only [slack, MessageState.isTerminal]
          simp
          omega

theorem ruleHeld (now : Instant) (held : Bool) : (msg.ruleHeld now held).Counted limits := by
  simp only [Delivery.ruleHeld]
  split
  · refine counted.restate ?_ (by simp) (Or.inl (by simp)) (by simp) (Or.inl live)
    simp [SameCounts, identities]
  · refine counted.restate ?_ (by simp) (Or.inr (by simp)) (by simp) (Or.inl live)
    simp [SameCounts, identities]

theorem ruleLapsed (now : Instant) (cleared : Bool) :
    (msg.ruleLapsed limits now cleared).Counted limits := by
  have moved : ∀ state, (({ msg with
      possessedSince := none
      waitingSince := some (msg.waitingSince.getD now) } : Delivery).setState state).Counted
        limits := by
    intro state
    refine counted.restate ?_ (by simp) (Or.inr (by simp)) (by simp) (Or.inl live)
    simp [SameCounts, identities]
  simp only [Delivery.ruleLapsed]
  split
  · split
    · refine counted.restate ?_ (by simp) (Or.inl (by simp)) (by simp) (Or.inl live)
      simp [SameCounts, identities]
    · exact moved _
  · split
    · exact counted.restate ⟨rfl, rfl, rfl⟩ rfl (Or.inr rfl) rfl (Or.inl live)
    · split
      · exact moved _
      · split
        · split
          · exact moved _
          · exact moved _
        · split
          · rename_i room
            refine counted.update ?_ (by simp) (fun _ _ _ => room) ?_
            · simp [SameCounts, identities]
            · intro positive
              have room := counted.requeues positive
              rw [slack, live] at room
              simpa [slack, MessageState.isTerminal] using room
          · exact moved _

end

theorem rules (now : Instant) (id : String) (reading : Reading) :
    (msg.rules limits now id reading).1.Counted limits := by
  simp only [Delivery.rules]
  split
  · exact counted.ruleCommitted now id
  · split
    · exact counted
    · rename_i live
      rw [Bool.not_eq_true] at live
      split
      · exact counted.ruleLatched live id reading
      · split
        · refine counted.restate ?_ (by simp) (Or.inr (by simp)) (by simp) (Or.inl live)
          simp [SameCounts, identities]
        · split
          · exact counted.ruleNotHanded live id
          · split
            · exact counted.ruleHeld live now _
            · exact counted.ruleLapsed live now _

theorem noteWitness (now : Instant) (witnessed : Bool) :
    (msg.noteWitness now witnessed).Counted limits := by
  simp only [Delivery.noteWitness]
  split
  · split
    · exact counted.restate ⟨rfl, rfl, rfl⟩ rfl (Or.inr rfl) rfl (Or.inr (Or.inr rfl))
    · exact counted
  · exact counted.restate ⟨rfl, rfl, rfl⟩ rfl (Or.inr rfl) rfl (Or.inr (Or.inr rfl))

theorem reclaim :
    ({ msg with attempts := msg.attempts.map msg.reclaimAttempt } : Delivery).Counted limits :=
  counted.restate ⟨map_map_eq msg.reclaimAttempt_identity, rfl, rfl⟩ rfl (Or.inr rfl) rfl
    (Or.inr (Or.inr rfl))

theorem handOut (now : Instant) (rx : Rx) (d : ℕ) (slot : Slot) (kind : IssueKind)
    (room : msg.issued < limits.maxAttempts)
    (budget : kind = .autoRepeat → msg.autoRepeats < limits.maxAutoRepeats) :
    (msg.handOut now rx d slot kind).Counted limits := by
  have same : (msg.handOut now rx d slot kind).identities =
      msg.identities ++ [(msg.a, msg.attempts.length + 1, kind)] := by
    simp only [identities, Delivery.handOut, List.map_append, List.map_map]
    congr 1
    apply List.map_congr_left
    intro attempt _
    simp only [Function.comp_apply]
    split <;> rfl
  have length : msg.identities.length = msg.attempts.length := by simp [identities]
  constructor
  · rw [same, List.map_append, counted.numbered]
    simp [List.range'_concat, length, Nat.add_comm]
  · rw [same, List.pairwise_append]
    refine ⟨counted.ordered, by simp, ?_⟩
    simpa using fun a e kind mem => counted.assigned (a, e, kind) mem
  · rw [same]
    intro identity mem
    rcases List.mem_append.mp mem with earlier | last
    · exact counted.assigned identity earlier
    · rw [List.mem_singleton] at last
      exact (congrArg Prod.fst last).le
  · rw [same]
    simp [Delivery.handOut, counted.issued]
  · simp only [Delivery.handOut]
    omega
  · rw [same, List.countP_append, ← counted.repeats]
    simp only [Delivery.handOut]
    split
    · rename_i auto
      simp [auto]
    · rename_i other
      simp [other]
  · simp only [Delivery.handOut]
    split
    · rename_i auto
      exact budget auto
    · exact counted.repeatsLe
  · simp [Delivery.handOut]
  · exact counted.requeues

end Counted

/-! ## States and stages -/

def stages (msg : Delivery) : List (ℕ × Stage × Bool × Slot) :=
  msg.attempts.map fun attempt =>
    (attempt.a, attempt.stage, attempt.resumePending, attempt.slot)

/-- An attempt of the current assignment committed. -/
def HasCommit (msg : Delivery) : Prop :=
  ∃ attempt ∈ msg.attempts, attempt.a = msg.a ∧ attempt.stage = .committed

/-- What holds of the stages even while a commit or a hand-out waits for the finalizer. -/
structure Staging (msg : Delivery) : Prop where
  settled : msg.state = .settled → msg.HasCommit
  resuming : ∀ attempt ∈ msg.attempts, attempt.resumePending = true →
    attempt.stage.isFinal = false ∧ attempt.slot.oneShot = false

/-- What the state of a message says about the stages of its attempts. -/
structure Staged (msg : Delivery) : Prop extends Staging msg where
  queued : msg.state = .queued → ∀ attempt ∈ msg.attempts, attempt.a = msg.a →
    attempt.stage = .notHanded
  committed : msg.HasCommit → msg.state = .settled ∨
    (msg.corrected = true ∧ (msg.state = .undeliverable .cancelled ∨
      (msg.offer = true ∧ msg.state = .undeliverable .maxDeliver)))

structure Reads (reading : Reading) (msg : Delivery) : Prop where
  committed : reading.committed = true ↔ msg.HasCommit
  noneIssued : reading.noneIssued = true → ∀ attempt ∈ msg.attempts, attempt.a ≠ msg.a
  allNotHanded : reading.allNotHanded = true → ∀ attempt ∈ msg.attempts, attempt.a = msg.a →
    attempt.stage = .notHanded

section Stages

variable {msg changed : Delivery}

theorem mem_stages {old new : Delivery} (same : new.stages = old.stages) {attempt : Attempt}
    (mem : attempt ∈ new.attempts) : ∃ earlier ∈ old.attempts, earlier.a = attempt.a ∧
      earlier.stage = attempt.stage ∧ earlier.resumePending = attempt.resumePending ∧
      earlier.slot = attempt.slot := by
  have listed : (attempt.a, attempt.stage, attempt.resumePending, attempt.slot) ∈ old.stages := by
    rw [← same]
    exact List.mem_map.mpr ⟨attempt, mem, rfl⟩
  rcases List.mem_map.mp listed with ⟨earlier, earlierMem, eq⟩
  simp only [Prod.mk.injEq] at eq
  exact ⟨earlier, earlierMem, eq⟩

theorem hasCommit_of_stages {old new : Delivery} (same : new.stages = old.stages)
    (assignment : new.a = old.a) (commit : old.HasCommit) : new.HasCommit := by
  rcases commit with ⟨attempt, mem, current, stage⟩
  rcases mem_stages same.symm mem with ⟨later, laterMem, a, laterStage, _⟩
  exact ⟨later, laterMem, by omega, laterStage.trans stage⟩

theorem revoke_stages (now : Instant) (attempt : Attempt) :
    ((revoke now attempt).a, (revoke now attempt).stage, (revoke now attempt).resumePending,
      (revoke now attempt).slot) =
        (attempt.a, attempt.stage, attempt.resumePending, attempt.slot) := by
  simp only [revoke]
  split <;> rfl

theorem reclaimAttempt_stages (msg : Delivery) (attempt : Attempt) :
    ((msg.reclaimAttempt attempt).a, (msg.reclaimAttempt attempt).stage,
      (msg.reclaimAttempt attempt).resumePending, (msg.reclaimAttempt attempt).slot) =
        (attempt.a, attempt.stage, attempt.resumePending, attempt.slot) := by
  simp only [reclaimAttempt]
  split
  · rfl
  · split <;> split <;> rfl

theorem Staging.congr (staging : msg.Staging) (same : changed.stages = msg.stages)
    (assignment : changed.a = msg.a)
    (settled : changed.state = .settled → msg.state = .settled ∨ msg.HasCommit) :
    changed.Staging := by
  constructor
  · intro isSettled
    apply hasCommit_of_stages same assignment
    rcases settled isSettled with before | commit
    · exact staging.settled before
    · exact commit
  · intro attempt mem pending
    rcases mem_stages same mem with ⟨earlier, earlierMem, _, stage, resume, slot⟩
    rw [← stage, ← slot]
    exact staging.resuming earlier earlierMem (resume.trans pending)

theorem Staged.congr (staged : msg.Staged) (same : changed.stages = msg.stages)
    (assignment : changed.a = msg.a) (state : changed.state = msg.state)
    (corrected : msg.corrected = true → changed.corrected)
    (offer : changed.offer = msg.offer) : changed.Staged := by
  refine ⟨staged.toStaging.congr same assignment (fun settled => Or.inl (state ▸ settled)), ?_, ?_⟩
  · intro queued attempt mem current
    rcases mem_stages same mem with ⟨earlier, earlierMem, a, stage, _⟩
    rw [← stage]
    exact staged.queued (state ▸ queued) earlier earlierMem (by omega)
  · intro commit
    rw [state, offer]
    rcases staged.committed (hasCommit_of_stages same.symm assignment.symm commit) with
      settled | ⟨told, ended⟩
    · exact Or.inl settled
    · exact Or.inr ⟨corrected told, ended⟩

theorem Staged.new (offer : Bool) (a : ℕ) : (Delivery.new offer a).Staged := by
  refine ⟨⟨?_, ?_⟩, ?_, ?_⟩ <;> simp [Delivery.new, HasCommit]

theorem Staged.not_hasCommit (staged : msg.Staged) (live : msg.state.isTerminal = false) :
    ¬msg.HasCommit := by
  intro commit
  rcases staged.committed commit with settled | ⟨_, cancelled | ⟨_, exhausted⟩⟩
  · simp [settled, MessageState.isTerminal] at live
  · simp [cancelled, MessageState.isTerminal] at live
  · simp [exhausted, MessageState.isTerminal] at live

/-! ### The rules -/

variable {reading : Reading}

section

variable (staging : msg.Staging)

include staging

theorem Staging.ruleCommitted (unexited : msg.state ≠ .undeliverable .exited)
    (commit : msg.HasCommit) (now : Instant) (id : String) :
    (msg.ruleCommitted now id).1.Staged := by
  simp only [Delivery.ruleCommitted]
  split
  · rw [correct_fst]
    refine ⟨staging.congr ?_ ?_ fun _ => Or.inr commit, ?_, ?_⟩ <;> simp [stages]
  · rename_i notExhausted
    split
    · rename_i terminal
      have told : ∀ state, msg.state = state → state ≠ .queued →
          (state = .settled ∨ state = .undeliverable .cancelled ∨
            (msg.offer = true ∧ state = .undeliverable .maxDeliver)) →
          ({ msg with corrected := true } : Delivery).Staged := by
        intro state holds notQueued ended
        refine ⟨staging.congr rfl rfl Or.inl, ?_, ?_⟩
        · intro queued
          exact absurd (holds ▸ queued) notQueued
        · simp only [holds]
          tauto
      split
      · rename_i cancelled
        rw [correct_fst]
        exact told _ cancelled (by simp) (by simp)
      · rename_i exhausted
        rw [correct_fst]
        refine told _ exhausted (by simp) ?_
        simpa [exhausted] using notExhausted
      · rename_i notCancelled notMaxDeliver
        have settled : msg.state = .settled := by
          rcases state : msg.state with _ | _ | _ | _ | _ | reason
          · simp [state, MessageState.isTerminal] at terminal
          · simp [state, MessageState.isTerminal] at terminal
          · simp [state, MessageState.isTerminal] at terminal
          · simp [state, MessageState.isTerminal] at terminal
          · rfl
          · cases reason with
            | cancelled => exact absurd state notCancelled
            | exited => exact absurd state unexited
            | maxDeliver => exact absurd state notMaxDeliver
        refine ⟨staging, ?_, fun _ => Or.inl settled⟩
        intro queued
        simp [settled] at queued
    · have same : ({ msg.setState .settled with
          token := none
          possessedSince := none
          waitingSince := none
          heldLongSent := none
          attempts := msg.attempts.map (revoke now) } : Delivery).stages = msg.stages :=
        map_map_eq (revoke_stages now)
      split
      · rw [correct_fst]
        refine ⟨staging.congr same (by simp) fun _ => Or.inr commit, ?_, ?_⟩ <;> simp
      · refine ⟨staging.congr same (by simp) fun _ => Or.inr commit, ?_, ?_⟩ <;> simp

section

variable (absent : ¬msg.HasCommit)

include absent

theorem Staging.uncommitted (same : changed.stages = msg.stages) (assignment : changed.a = msg.a)
    (notSettled : changed.state = .settled → msg.state = .settled)
    (queued : changed.state = .queued → ∀ attempt ∈ msg.attempts, attempt.a = msg.a →
      attempt.stage = .notHanded) : changed.Staged := by
  refine ⟨staging.congr same assignment fun settled => Or.inl (notSettled settled), ?_, ?_⟩
  · intro isQueued attempt mem current
    rcases mem_stages same mem with ⟨earlier, earlierMem, a, stage, _⟩
    rw [← stage]
    exact queued isQueued earlier earlierMem (by omega)
  · intro commit
    exact absurd (hasCommit_of_stages same.symm assignment.symm commit) absent

theorem Staging.ruleNotHanded (assigned : ∀ attempt ∈ msg.attempts, attempt.a ≤ msg.a)
    (notHanded : ∀ attempt ∈ msg.attempts, attempt.a = msg.a → attempt.stage = .notHanded)
    (limits : Limits) (id : String) : (msg.ruleNotHanded limits id).1.Staged := by
  simp only [Delivery.ruleNotHanded]
  split
  · exact staging.uncommitted absent rfl rfl (fun settled => settled) fun _ => notHanded
  · split
    · refine staging.uncommitted absent ?_ ?_ ?_ ?_ <;> simp [stages]
    · split
      · -- The offer moves to its next assignment, which has no attempt yet.
        have fresh : ∀ attempt ∈ msg.attempts, attempt.a ≠ msg.a + 1 := by
          intro attempt mem eq
          have := assigned attempt mem
          omega
        refine ⟨⟨by simp, ?_⟩, ?_, ?_⟩
        · simpa using staging.resuming
        · intro _ attempt mem current
          exact absurd (by simpa using current) (fresh attempt (by simpa using mem))
        · rintro ⟨attempt, mem, current, _⟩
          exact absurd (by simpa using current) (fresh attempt (by simpa using mem))
      · refine staging.uncommitted absent ?_ ?_ ?_ fun _ => notHanded <;> simp [stages]

theorem Staging.ruleHeld (now : Instant) (held : Bool) : (msg.ruleHeld now held).Staged := by
  simp only [Delivery.ruleHeld]
  refine staging.uncommitted absent ?_ ?_ ?_ ?_ <;> split <;> simp [stages]

theorem Staging.ruleLapsed (limits : Limits) (now : Instant) (cleared : Bool) :
    (msg.ruleLapsed limits now cleared).Staged := by
  have moved : ∀ state, state ≠ .settled → state ≠ .queued → (({ msg with
      possessedSince := Option.none
      waitingSince := some (msg.waitingSince.getD now) } : Delivery).setState state).Staged := by
    intro state notSettled notQueued
    refine staging.uncommitted absent ?_ ?_ ?_ ?_ <;> simp [stages, notSettled, notQueued]
  simp only [Delivery.ruleLapsed]
  split
  · split
    · refine staging.uncommitted absent ?_ ?_ ?_ ?_ <;> simp [stages]
    · exact moved _ (by simp) (by simp)
  · split
    · rename_i uncertain
      refine staging.uncommitted absent rfl rfl (fun settled => settled) ?_
      intro queued
      simp only at queued
      simp [queued, MessageState.isUncertain] at uncertain
    · split
      · exact moved _ (by simp) (by simp)
      · split
        · split
          · exact moved _ (by simp) (by simp)
          · exact moved _ (by simp) (by simp)
        · split
          · refine staging.uncommitted absent ?_ ?_ ?_ ?_ <;> simp [stages]
          · exact moved _ (by simp) (by simp)

end

theorem Staging.rules (unexited : msg.state ≠ .undeliverable .exited)
    (assigned : ∀ attempt ∈ msg.attempts, attempt.a ≤ msg.a) (reads : Reads reading msg)
    (limits : Limits) (now : Instant) (id : String) :
    (msg.rules limits now id reading).1.Staged := by
  simp only [Delivery.rules]
  split
  · rename_i committed
    exact staging.ruleCommitted unexited (reads.committed.mp committed) now id
  · rename_i uncommitted
    have absent : ¬msg.HasCommit := fun commit => uncommitted (reads.committed.mpr commit)
    split
    · rename_i terminal
      refine staging.uncommitted absent rfl rfl (fun settled => settled) ?_
      intro queued
      simp only at queued
      simp [queued, MessageState.isTerminal] at terminal
    · split
      · simp only [Delivery.ruleLatched]
        split
        · refine staging.uncommitted absent ?_ ?_ ?_ ?_ <;> simp [stages]
        · refine staging.uncommitted absent ?_ ?_ ?_ ?_ <;> simp [stages]
      · split
        · rename_i noneIssued
          refine staging.uncommitted absent ?_ ?_ ?_ fun _ attempt mem current =>
            absurd current (reads.noneIssued noneIssued attempt mem) <;> simp [stages]
        · split
          · rename_i allNotHanded
            exact staging.ruleNotHanded absent assigned (reads.allNotHanded allNotHanded) limits id
          · split
            · exact staging.ruleHeld absent now _
            · exact staging.ruleLapsed absent limits now _

end

theorem Staged.noteWitness (staged : msg.Staged) (now : Instant) (witnessed : Bool) :
    (msg.noteWitness now witnessed).Staged := by
  simp only [Delivery.noteWitness]
  split
  · split
    · exact staged.congr rfl rfl rfl id rfl
    · exact staged
  · exact staged.congr rfl rfl rfl id rfl

theorem Staged.reclaim (staged : msg.Staged) :
    ({ msg with attempts := msg.attempts.map msg.reclaimAttempt } : Delivery).Staged :=
  staged.congr (map_map_eq msg.reclaimAttempt_stages) rfl rfl id rfl

/-! ### The other changes -/

variable {powers : Powers}

theorem Staged.touch {attempts : List Attempt} (staged : msg.Staged)
    (touched : List.Forall₂ (Touch powers msg) msg.attempts attempts) :
    ({ msg with attempts := attempts } : Delivery).Staged := by
  have commit_iff : ({ msg with attempts := attempts } : Delivery).HasCommit ↔ msg.HasCommit := by
    constructor
    · rintro ⟨attempt, mem, current, stage⟩
      rcases exists_left_of_forall₂ touched mem with ⟨earlier, earlierMem, touch⟩
      have earlierCurrent : earlier.a = msg.a := touch.a.symm.trans current
      exact ⟨earlier, earlierMem, earlierCurrent, touch.commits earlierCurrent stage⟩
    · rintro ⟨attempt, mem, current, stage⟩
      rcases exists_right_of_forall₂ touched mem with ⟨later, laterMem, touch⟩
      exact ⟨later, laterMem, touch.a.trans current, touch.committed stage⟩
  refine ⟨⟨?_, ?_⟩, ?_, ?_⟩
  · intro settled
    exact commit_iff.mpr (staged.settled settled)
  · intro attempt mem pending
    rcases exists_left_of_forall₂ touched mem with ⟨earlier, earlierMem, touch⟩
    exact touch.resuming (staged.resuming earlier earlierMem) pending
  · intro queued attempt mem current
    rcases exists_left_of_forall₂ touched mem with ⟨earlier, earlierMem, touch⟩
    have earlierCurrent : earlier.a = msg.a := touch.a.symm.trans current
    exact touch.notHanded earlierCurrent (staged.queued queued earlier earlierMem earlierCurrent)
  · intro commit
    exact staged.committed (commit_iff.mp commit)

theorem Staged.edit (staged : msg.Staged) (edit : Edit powers msg changed) : changed.Staged := by
  cases edit with
  | touch attempts touched => exact staged.touch touched
  | dropToken | heldLong revision | notStarted revision | lastAction _ action =>
    exact staged.congr rfl rfl rfl id rfl
  | retried _ live =>
    have absent := staged.not_hasCommit live
    simp only [Delivery.retried]
    split
    · rename_i attempting
      refine staged.toStaging.uncommitted absent rfl rfl id ?_
      intro queued
      simp [attempting] at queued
    · refine staged.toStaging.uncommitted absent ?_ ?_ ?_ ?_ <;> simp [stages]
  | cancelled _ live now =>
    refine staged.congr ?_ rfl rfl id rfl
    apply map_map_eq
    intro attempt
    split
    · exact revoke_stages now attempt
    · rfl

theorem Staging.commit (staging : msg.Staging) (a e : ℕ) :
    (msg.updateAttempt a e commitStage).Staging := by
  have updated : List.Forall₂ (fun old new : Attempt => new = old ∨ new = commitStage old)
      msg.attempts (msg.updateAttempt a e commitStage).attempts :=
    forall₂_updateFirst (fun attempt => Or.inl rfl) fun attempt _ _ => Or.inr rfl
  constructor
  · intro settled
    rcases staging.settled settled with ⟨attempt, mem, current, stage⟩
    rcases exists_right_of_forall₂ updated mem with ⟨later, laterMem, rfl | rfl⟩
    · exact ⟨later, laterMem, current, stage⟩
    · exact ⟨_, laterMem, current, rfl⟩
  · intro attempt mem pending
    rcases exists_left_of_forall₂ updated mem with ⟨earlier, earlierMem, rfl | rfl⟩
    · exact staging.resuming attempt earlierMem pending
    · simp [commitStage] at pending

theorem Staging.handOut (staging : msg.Staging) (now : Instant) (rx : Rx) (d : ℕ) (slot : Slot)
    (kind : IssueKind) : (msg.handOut now rx d slot kind).Staging := by
  constructor
  · intro settled
    rcases staging.settled settled with ⟨attempt, mem, current, stage⟩
    refine ⟨attempt.recheck, List.mem_append_left _ ?_, current, stage⟩
    exact List.mem_map.mpr ⟨attempt, mem, if_pos current⟩
  · intro attempt mem pending
    rcases List.mem_append.mp mem with earlier | last
    · rcases List.mem_map.mp earlier with ⟨old, oldMem, rfl⟩
      have old_resuming := staging.resuming old oldMem
      split at pending
      · rw [if_pos (by assumption)]
        exact old_resuming pending
      · rw [if_neg (by assumption)]
        exact old_resuming pending
    · rw [List.mem_singleton] at last
      simp [last] at pending

theorem forall₂_rebind (msg : Delivery) (a e : ℕ) (rx : Rx) (d : ℕ) (now : Instant) :
    List.Forall₂ (fun old new : Attempt => new.a = old.a ∧ new.stage = old.stage ∧
      new.slot = old.slot ∧ (new.resumePending = true → old.resumePending = true)) msg.attempts
        (msg.updateAttempt a e (AttemptModel.rebind rx d now)).attempts := by
  refine forall₂_updateFirst (fun attempt => ⟨rfl, rfl, rfl, id⟩) ?_
  intro attempt _ _
  rw [AttemptModel.rebind_eq]
  exact ⟨rfl, rfl, rfl, fun impossible => by simp at impossible⟩

theorem hasCommit_rebind (msg : Delivery) (a e : ℕ) (rx : Rx) (d : ℕ) (now : Instant) :
    (msg.updateAttempt a e (AttemptModel.rebind rx d now)).HasCommit ↔ msg.HasCommit := by
  have updated := msg.forall₂_rebind a e rx d now
  constructor
  · rintro ⟨attempt, mem, current, stage⟩
    rcases exists_left_of_forall₂ updated mem with ⟨old, oldMem, sameA, sameStage, _⟩
    exact ⟨old, oldMem, sameA.symm.trans current, sameStage.symm.trans stage⟩
  · rintro ⟨attempt, mem, current, stage⟩
    rcases exists_right_of_forall₂ updated mem with ⟨new, newMem, sameA, sameStage, _⟩
    exact ⟨new, newMem, sameA.trans current, sameStage.trans stage⟩

theorem Staged.rebind (staged : msg.Staged) (a e : ℕ) (rx : Rx) (d : ℕ) (now : Instant) :
    (msg.updateAttempt a e (AttemptModel.rebind rx d now)).Staged := by
  have updated := msg.forall₂_rebind a e rx d now
  have commit_iff := msg.hasCommit_rebind a e rx d now
  refine ⟨⟨?_, ?_⟩, ?_, ?_⟩
  · exact fun settled => commit_iff.mpr (staged.settled settled)
  · intro attempt mem pending
    rcases exists_left_of_forall₂ updated mem with ⟨old, oldMem, _, sameStage, sameSlot, before⟩
    rw [sameStage, sameSlot]
    exact staged.resuming old oldMem (before pending)
  · intro queued attempt mem current
    rcases exists_left_of_forall₂ updated mem with ⟨old, oldMem, sameA, sameStage, _⟩
    rw [sameStage]
    exact staged.queued queued old oldMem (sameA.symm.trans current)
  · exact fun commit => staged.committed (commit_iff.mp commit)

end Stages

end Delivery

end AgentDeck.Attempts
