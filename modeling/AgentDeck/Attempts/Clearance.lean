import AgentDeck.Attempts.Identity

/-!
# Automatic repeats and spool clearances

An automatic repeat is only granted on spool checks that nothing has made stale. What could make
one stale is observable from outside, so the result is about a history of notices: hand-outs,
snapshot listings, fences, rebindings and turn starts, between the checks the model returned and
the checks it was given back. Inside the model each of these moves the mark of the attempt, and a
clearance is only taken for the mark it was asked with.
-/

namespace AgentDeck.Attempts

inductive Notice
  | handedOut (id : String) (a e : ℕ)
  | listed (rx : Rx) (id : String) (a e : ℕ)
  | fenced (id : String) (a e : ℕ)
  | rebound (id : String) (a e : ℕ)
  | turnStarted
  | checked (check : LapseCheck)
  | passed (check : LapseCheck)
  deriving DecidableEq

namespace Attempt

/-- The notice makes an earlier spool check of this attempt stale. -/
def Disturbed (id : String) (attempt : Attempt) : Notice → Prop
  | .handedOut other a _ => other = id ∧ a = attempt.a
  | .listed rx other a e => rx = attempt.rx ∧ other = id ∧ a = attempt.a ∧ e = attempt.e
  | .fenced other a e => other = id ∧ a = attempt.a ∧ e = attempt.e
  | .rebound other a e => other = id ∧ a = attempt.a ∧ e = attempt.e
  | .turnStarted => attempt.slot = .onceWaiter
  | .checked _ => False
  | .passed _ => False

def Undisturbed (id : String) (attempt : Attempt) (notices : List Notice) : Prop :=
  ∀ notice ∈ notices, ¬attempt.Disturbed id notice

/-- The attempt may have reached the agent and its content is not known to be committed. -/
def Unsettled (attempt : Attempt) : Prop :=
  attempt.stage ≠ .committed ∧ attempt.stage ≠ .notHanded

/-- The later state of an attempt, with the notices in between. -/
structure Follows (id : String) (notices : List Notice) (old new : Attempt) : Prop where
  a : new.a = old.a
  e : new.e = old.e
  slot : new.slot = old.slot
  mark : old.mark ≤ new.mark
  cleared : new.cleared = true → old.cleared = true ∧ new.mark = old.mark
  unsettled : new.Unsettled → old.Unsettled
  rebound : new.rx = old.rx ∨ old.mark < new.mark
  quiet : new.mark = old.mark → new.Unsettled → new.Undisturbed id notices

theorem Evolves.unsettled {powers : Powers} {ended : Bool} {old new : Attempt}
    (evolves : old.Evolves powers ended new) (unsettled : new.Unsettled) : old.Unsettled := by
  refine ⟨fun committed => unsettled.1 (evolves.committed committed), fun notHanded => ?_⟩
  rcases evolves.notHanded notHanded with same | committed
  · exact unsettled.2 same
  · exact unsettled.1 committed

theorem Evolves.follows {powers : Powers} {ended : Bool} {old new : Attempt}
    (evolves : old.Evolves powers ended new) (powerless : powers.clears = false) {id : String}
    {notices : List Notice}
    (quiet : new.mark = old.mark → new.Unsettled → new.Undisturbed id notices) :
    old.Follows id notices new :=
  ⟨evolves.a, evolves.e, evolves.slot, evolves.mark, evolves.cleared powerless,
    evolves.unsettled, evolves.rebound, quiet⟩

theorem Follows.undisturbed {id : String} {notices since : List Notice} {old new : Attempt}
    (follows : old.Follows id notices new) (same : new.mark = old.mark)
    (before : old.Undisturbed id since) : new.Undisturbed id since := by
  have sameRx : new.rx = old.rx := by
    rcases follows.rebound with sameRx | bumped
    · exact sameRx
    · omega
  intro notice mem disturbed
  apply before notice mem
  cases notice <;> simp only [Disturbed, follows.a, follows.e, follows.slot, sameRx] at disturbed ⊢
  all_goals exact disturbed

end Attempt

namespace AttemptModel

variable {model later : AttemptModel}

/-! ## Histories -/

/-- The attempts that are fenced in the later state and were not before. -/
def newlyFenced (model later : AttemptModel) : List Notice :=
  (later.select fun id attempt => decide (attempt.stage = .fenced) &&
    !(model.attempt id attempt.a attempt.e).any fun before => decide (before.stage = .fenced)).map
    fun entry => .fenced entry.1 entry.2.1 entry.2.2

def turnNotices (model : AttemptModel) (view : TurnView) : List Notice :=
  if view.busy && !model.turnClock.busy then [.turnStarted] else []

/-- What a call that takes no spool check shows, apart from fences. -/
def callNotices (model : AttemptModel) : Op → List Notice
  | .issue now id rx =>
    match (model.issue now id rx).1 with
    | .ok issued => [.handedOut id issued.a issued.e]
    | .error _ => []
  | .snapshot now rx seq seen held =>
    if (model.snapshot now rx seq seen held).1 = .applied then
      held.map fun entry => .listed rx entry.1 entry.2.1 entry.2.2
    else []
  | .resumeAnswer now rx id a e .retained =>
    if (model.resumeAnswer now rx id a e .retained).1 = .applied then [.rebound id a e] else []
  | .turn _ view => model.turnNotices view
  | _ => []

/-- The state in which `tick` asks for its own candidates. -/
def tickExpired (model : AttemptModel) (now : Instant) : AttemptModel :=
  if model.exited then model else model.expireHolds now

/-- What a call shows, in the order it happens. A fence is seen by comparing the states before
and after; an attempt fenced and then found not handed within one call is not handed in the end,
and no result below speaks of it. -/
def notices (model : AttemptModel) : Op → List Notice
  | .tick now =>
    let checks := (model.tickExpired now).lapseCandidates now
    newlyFenced model (model.tickExpired now) ++ checks.map .checked ++ checks.map .passed ++
      newlyFenced (model.tickExpired now) (model.tick now)
  | .tickCleared now cleared =>
    cleared.map .passed ++ newlyFenced model (model.tickCleared now cleared)
  | .tickTurn now cleared turn =>
    model.turnNotices turn ++ newlyFenced model (model.turn now turn) ++ cleared.map .passed ++
      newlyFenced (model.turn now turn) (model.tickTurn now cleared turn)
  | op => model.callNotices op ++ newlyFenced model (model.apply op)

/-- The check was returned, and passed back after that. -/
def CheckedThenPassed (history : List Notice) (check : LapseCheck) : Prop :=
  ∃ earlier between since,
    history = earlier ++ Notice.checked check :: (between ++ Notice.passed check :: since)

/-- A check in the history, and a clearance of the model, still mean what they say. -/
structure Watched (model : AttemptModel) (handed : List (String × ℕ × ℕ))
    (history : List Notice) : Prop where
  checks : ∀ earlier check since, history = earlier ++ Notice.checked check :: since →
    (check.id, check.a, check.e) ∈ handed ∧
    ∀ msg, model.messages.get? check.id = some msg → ∀ attempt ∈ msg.attempts,
      attempt.a = check.a → attempt.e = check.e → check.mark ≤ attempt.mark ∧
        (attempt.mark = check.mark → attempt.Unsettled → attempt.Undisturbed check.id since)
  cleared : ∀ id msg, model.messages.get? id = some msg → ∀ attempt ∈ msg.attempts,
    attempt.cleared = true → ∃ check, CheckedThenPassed history check ∧ check.id = id ∧
      check.a = attempt.a ∧ check.e = attempt.e ∧ check.mark = attempt.mark

variable {history : List Notice}

theorem split_append {notices earlier since : List Notice} {notice : Notice}
    (split : history ++ notices = earlier ++ notice :: since) :
    (∃ before, history = earlier ++ notice :: before ∧ since = before ++ notices) ∨
      ∃ before, notices = before ++ notice :: since ∧ earlier = history ++ before := by
  rcases List.append_eq_append_iff.mp split with ⟨extra, isEarlier, rest⟩ | ⟨extra, isHistory, rest⟩
  · exact Or.inr ⟨extra, rest, isEarlier⟩
  · cases extra with
    | nil => exact Or.inr ⟨[], by simpa using rest.symm, by simpa using isHistory.symm⟩
    | cons head tail =>
      rw [List.cons_append, List.cons.injEq] at rest
      exact Or.inl ⟨tail, by rw [isHistory, rest.1], rest.2⟩

theorem CheckedThenPassed.append {check : LapseCheck} (ordered : CheckedThenPassed history check)
    (notices : List Notice) : CheckedThenPassed (history ++ notices) check := by
  rcases ordered with ⟨earlier, between, since, rfl⟩
  exact ⟨earlier, between, since ++ notices, by simp⟩

/-- Every later attempt follows an earlier one, or is new and was never checked. -/
def Succeeds (model later : AttemptModel) (handed : List (String × ℕ × ℕ))
    (notices : List Notice) : Prop :=
  ∀ id after, later.messages.get? id = some after → ∀ new ∈ after.attempts,
    (∃ msg, model.messages.get? id = some msg ∧ ∃ old ∈ msg.attempts,
      old.Follows id notices new) ∨ ((id, new.a, new.e) ∉ handed ∧ new.cleared = false)

variable {handed : List (String × ℕ × ℕ)}

theorem Watched.advance {handedAfter : List (String × ℕ × ℕ)} {notices : List Notice}
    (watched : Watched model handed history) (succeeds : Succeeds model later handed notices)
    (grown : ∀ triple ∈ handed, triple ∈ handedAfter)
    (unchecked : ∀ check, Notice.checked check ∉ notices) :
    Watched later handedAfter (history ++ notices) := by
  constructor
  · intro earlier check since split
    rcases split_append split with ⟨before, isHistory, rfl⟩ | ⟨before, isNotices, _⟩
    · rcases watched.checks earlier check before isHistory with ⟨known, marks⟩
      refine ⟨grown _ known, ?_⟩
      intro after found new mem isA isE
      rcases succeeds check.id after found new mem with
        ⟨msg, record, old, oldMem, follows⟩ | ⟨unknown, _⟩
      · rcases marks msg record old oldMem (follows.a.symm.trans isA)
          (follows.e.symm.trans isE) with ⟨le, undisturbed⟩
        have grownMark := follows.mark
        refine ⟨by omega, ?_⟩
        intro same unsettled notice noticeMem
        have unmoved : new.mark = old.mark := by omega
        rcases List.mem_append.mp noticeMem with isBefore | isNew
        · exact follows.undisturbed unmoved
            (undisturbed (by omega) (follows.unsettled unsettled)) notice isBefore
        · exact follows.quiet unmoved unsettled notice isNew
      · rw [isA, isE] at unknown
        exact absurd known unknown
    · exact absurd (isNotices ▸ List.mem_append_right before List.mem_cons_self) (unchecked check)
  · intro id after found new mem cleared
    rcases succeeds id after found new mem with
      ⟨msg, record, old, oldMem, follows⟩ | ⟨_, uncleared⟩
    · rcases follows.cleared cleared with ⟨oldCleared, sameMark⟩
      rcases watched.cleared id msg record old oldMem oldCleared with
        ⟨check, ordered, isId, isA, isE, isMark⟩
      exact ⟨check, ordered.append notices, isId, isA.trans follows.a.symm,
        isE.trans follows.e.symm, isMark.trans sameMark.symm⟩
    · simp [uncleared] at cleared

/-! ## Taking a check -/

variable {id : String}

theorem undisturbed_of_forall {attempt : Attempt} {notices : List Notice}
    (harmless : ∀ notice ∈ notices, (∃ check, notice = .checked check) ∨
      ∃ check, notice = .passed check) : attempt.Undisturbed id notices := by
  intro notice mem disturbed
  rcases harmless notice mem with ⟨check, rfl⟩ | ⟨check, rfl⟩
  · exact disturbed
  · exact disturbed

theorem exists_of_lapseCandidate {now : Instant} {check : LapseCheck}
    (mem : check ∈ model.lapseCandidates now) : ∃ msg, model.messages.get? check.id = some msg ∧
      ∃ attempt ∈ msg.attempts, attempt.a = check.a ∧ attempt.e = check.e ∧
        attempt.mark = check.mark := by
  simp only [lapseCandidates] at mem
  split at mem
  · cases mem
  · rcases List.mem_flatMap.mp mem with ⟨⟨id, msg⟩, entry, listed⟩
    split at listed
    · cases listed
    · rcases List.mem_map.mp listed with ⟨attempt, attemptMem, rfl⟩
      simp only [Delivery.current, List.mem_filter] at attemptMem
      exact ⟨msg, (SortedMap.get?_eq_some_iff _ _ _).mpr entry, attempt, attemptMem.1.1, rfl, rfl,
        rfl⟩

theorem Watched.check (watched : Watched model handed history) (valid : model.Valid)
    (retained : ∀ {id msg}, model.messages.get? id = some msg → ∀ tag ∈ msg.tags,
      (id, tag.1, tag.2) ∈ handed) (now : Instant) :
    Watched model handed (history ++ (model.lapseCandidates now).map .checked) := by
  have harmless : ∀ notices : List Notice, (∃ before, (model.lapseCandidates now).map
      Notice.checked = before ++ notices) → ∀ notice ∈ notices,
        (∃ check, notice = .checked check) ∨ ∃ check, notice = .passed check := by
    rintro notices ⟨before, split⟩ notice mem
    have listed : notice ∈ (model.lapseCandidates now).map Notice.checked := by
      rw [split]
      exact List.mem_append_right before mem
    rcases List.mem_map.mp listed with ⟨check, _, rfl⟩
    exact Or.inl ⟨check, rfl⟩
  constructor
  · intro earlier check since split
    rcases split_append split with ⟨before, isHistory, rfl⟩ | ⟨before, isNotices, _⟩
    · rcases watched.checks earlier check before isHistory with ⟨known, marks⟩
      refine ⟨known, ?_⟩
      intro msg record attempt mem isA isE
      rcases marks msg record attempt mem isA isE with ⟨le, undisturbed⟩
      refine ⟨le, ?_⟩
      intro same unsettled notice noticeMem
      rcases List.mem_append.mp noticeMem with isBefore | isNew
      · exact undisturbed same unsettled notice isBefore
      · exact undisturbed_of_forall (harmless _ ⟨[], rfl⟩) notice isNew
    · have listed : check ∈ model.lapseCandidates now := by
        have mem : Notice.checked check ∈ (model.lapseCandidates now).map Notice.checked := by
          rw [isNotices]
          exact List.mem_append_right before List.mem_cons_self
        rcases List.mem_map.mp mem with ⟨same, sameMem, eq⟩
        cases eq
        exact sameMem
      rcases exists_of_lapseCandidate listed with ⟨msg, record, attempt, mem, isA, isE, isMark⟩
      have tagged : (check.a, check.e) ∈ msg.tags :=
        List.mem_map.mpr ⟨attempt, mem, by rw [isA, isE]⟩
      refine ⟨retained record _ tagged, ?_⟩
      intro same sameRecord other otherMem _ otherE
      cases Option.some.inj (record.symm.trans sameRecord)
      have isSame := (valid.recorded.counted record).eq_of_e otherMem mem (otherE.trans isE.symm)
      subst isSame
      refine ⟨isMark.ge, fun _ _ => undisturbed_of_forall (harmless since
        ⟨before ++ [.checked check], ?_⟩)⟩
      rw [isNotices]
      simp
  · intro id msg record attempt mem cleared
    rcases watched.cleared id msg record attempt mem cleared with ⟨check, ordered, rest⟩
    exact ⟨check, ordered.append _, rest⟩

/-! ## Clearing a check -/

def ClearedBy (checks : List LapseCheck) (id : String) (old new : Attempt) : Prop :=
  new = old ∨ (new = { old with cleared := true } ∧ ∃ check ∈ checks, check.id = id ∧
    check.a = old.a ∧ check.e = old.e ∧ check.mark = old.mark)

def ClearedRecord (checks : List LapseCheck) (id : String) (old new : Delivery) : Prop :=
  List.Forall₂ (ClearedBy checks id) old.attempts new.attempts

theorem ClearedRecord.refl (checks : List LapseCheck) (id : String) (msg : Delivery) :
    ClearedRecord checks id msg msg := List.forall₂_same.mpr fun _ _ => Or.inl rfl

variable {checks : List LapseCheck} {old new : Attempt}

theorem ClearedBy.trans {middle : Attempt} (first : ClearedBy checks id old middle)
    (second : ClearedBy checks id middle new) : ClearedBy checks id old new := by
  rcases first with rfl | ⟨rfl, found⟩
  · exact second
  · rcases second with rfl | ⟨rfl, _⟩
    · exact Or.inr ⟨rfl, found⟩
    · exact Or.inr ⟨rfl, found⟩

theorem Valid.clearCheck_related (valid : model.Valid) (now : Instant) {check : LapseCheck}
    (mem : check ∈ checks) :
    SortedMap.Related (ClearedRecord checks) model.messages
      (clearCheck now model check).messages := by
  have same := ClearedRecord.refl checks
  simp only [clearCheck]
  split
  · rename_i isValid
    refine SortedMap.Related.modify same model.messages check.id ?_
    intro msg record
    refine Delivery.forall₂_updateFirst (fun _ => Or.inl rfl) ?_
    intro attempt attemptMem matched
    simp only [Bool.and_eq_true, decide_eq_true_eq] at matched
    simp only [checkValid, record] at isValid
    split at isValid
    · cases isValid
    · rename_i found lookup
      have isFound := (valid.recorded.counted record).eq_of_lookup lookup attemptMem matched.1
        matched.2
      subst isFound
      simp only [Bool.and_eq_true, decide_eq_true_eq] at isValid
      exact Or.inr ⟨rfl, check, mem, rfl, matched.1.symm, matched.2.symm, isValid.1.1.1.symm⟩
  · exact SortedMap.Related.refl same model.messages

theorem Valid.clearChecks_related (valid : model.Valid) (now : Instant) {cleared : List LapseCheck}
    (subset : ∀ check ∈ cleared, check ∈ checks) :
    SortedMap.Related (ClearedRecord checks) model.messages
      (model.clearChecks now cleared).messages := by
  induction cleared generalizing model with
  | nil => exact SortedMap.Related.refl (ClearedRecord.refl checks) model.messages
  | cons head rest ih =>
    have first := valid.clearCheck_related now (subset head List.mem_cons_self)
    have moves : Moves Powers.clock model (clearCheck now model head) :=
      moves_clearCheck rfl model now head
    have second := ih (valid.moves moves) fun check mem =>
      subset check (List.mem_cons_of_mem head mem)
    refine SortedMap.Related.trans ?_ first second
    intro id _ _ _ old new
    exact Delivery.forall₂_trans old new ClearedBy.trans

theorem Watched.clear (watched : Watched model handed history) (valid : model.Valid) (now : Instant)
    (cleared : List LapseCheck) (known : ∀ check ∈ cleared, Notice.checked check ∈ history) :
    Watched (model.clearChecks now cleared) handed (history ++ cleared.map .passed) := by
  have related := valid.clearChecks_related now (fun check (mem : check ∈ cleared) => mem)
  have harmless : ∀ notice ∈ cleared.map Notice.passed,
      (∃ check, notice = .checked check) ∨ ∃ check, notice = .passed check := by
    intro notice mem
    rcases List.mem_map.mp mem with ⟨check, _, rfl⟩
    exact Or.inr ⟨check, rfl⟩
  constructor
  · intro earlier check since split
    rcases split_append split with ⟨before, isHistory, rfl⟩ | ⟨before, isNotices, _⟩
    · rcases watched.checks earlier check before isHistory with ⟨isKnown, marks⟩
      refine ⟨isKnown, ?_⟩
      intro after found new newMem isA isE
      rcases related.left_of_right found with ⟨msg, record, attempts⟩
      rcases Delivery.exists_left_of_forall₂ attempts newMem with ⟨old, oldMem, clearedBy⟩
      have same : new.a = old.a ∧ new.e = old.e ∧ new.mark = old.mark ∧
          (new.Unsettled ↔ old.Unsettled) ∧
          ∀ notices, old.Undisturbed check.id notices → new.Undisturbed check.id notices := by
        rcases clearedBy with rfl | ⟨rfl, _⟩
        · exact ⟨rfl, rfl, rfl, Iff.rfl, fun _ undisturbed => undisturbed⟩
        · refine ⟨rfl, rfl, rfl, Iff.rfl, fun notices undisturbed notice mem disturbed => ?_⟩
          apply undisturbed notice mem
          cases notice <;> exact disturbed
      rcases same with ⟨sameA, sameE, sameMark, sameUnsettled, sameUndisturbed⟩
      rcases marks msg record old oldMem (sameA.symm.trans isA) (sameE.symm.trans isE) with
        ⟨le, undisturbed⟩
      refine ⟨sameMark ▸ le, ?_⟩
      intro isMark unsettled notice noticeMem
      rcases List.mem_append.mp noticeMem with isBefore | isNew
      · exact sameUndisturbed before (undisturbed (sameMark.symm.trans isMark)
          (sameUnsettled.mp unsettled)) notice isBefore
      · exact undisturbed_of_forall harmless notice isNew
    · have mem : Notice.checked check ∈ cleared.map Notice.passed := by
        rw [isNotices]
        exact List.mem_append_right before List.mem_cons_self
      rcases List.mem_map.mp mem with ⟨_, _, impossible⟩
      cases impossible
  · intro id after found new newMem isCleared
    rcases related.left_of_right found with ⟨msg, record, attempts⟩
    rcases Delivery.exists_left_of_forall₂ attempts newMem with
      ⟨old, oldMem, rfl | ⟨rfl, check, checkMem, isId, isA, isE, isMark⟩⟩
    · rcases watched.cleared id msg record new oldMem isCleared with ⟨check, ordered, rest⟩
      exact ⟨check, ordered.append _, rest⟩
    · refine ⟨check, ?_, isId, isA, isE, isMark⟩
      rcases List.append_of_mem (known check checkMem) with ⟨earlier, between, rfl⟩
      rcases List.append_of_mem checkMem with ⟨first, rest, rfl⟩
      exact ⟨earlier, between ++ first.map .passed, rest.map .passed, by simp⟩

/-! ## What moves a mark -/

/-- Every attempt with the property has a higher mark in the later state. -/
def Bumps (P : String → Attempt → Prop) (model later : AttemptModel) : Prop :=
  ∀ id msg after, model.messages.get? id = some msg → later.messages.get? id = some after →
    ∀ old ∈ msg.attempts, P id old → ∀ new ∈ after.attempts, new.e = old.e → old.mark < new.mark

variable {powers : Powers} {msg after : Delivery}

theorem Evolves.pair (evolves : model.Evolves powers later) (laterValid : later.Valid)
    (record : model.messages.get? id = some msg) (found : later.messages.get? id = some after)
    (oldMem : old ∈ msg.attempts) (newMem : new ∈ after.attempts) (sameE : new.e = old.e) :
    old.Evolves powers after.state.isTerminal new := by
  rcases evolves.records.right_of_left record with ⟨same, sameFound, evolved⟩
  cases Option.some.inj (sameFound.symm.trans found)
  rcases Delivery.exists_right_of_forall₂ evolved.attempts oldMem with ⟨kept, keptMem, step⟩
  have isNew := (laterValid.recorded.counted found).eq_of_e keptMem newMem
    (step.e.trans sameE.symm)
  exact isNew ▸ step

theorem Evolves.exists_before (evolves : model.Evolves powers later)
    (found : later.messages.get? id = some after) (newMem : new ∈ after.attempts) :
    ∃ msg, model.messages.get? id = some msg ∧
      ∃ old ∈ msg.attempts, old.Evolves powers after.state.isTerminal new := by
  rcases evolves.records.left_of_right found with ⟨msg, record, evolved⟩
  rcases Delivery.exists_left_of_forall₂ evolved.attempts newMem with ⟨old, oldMem, step⟩
  exact ⟨msg, record, old, oldMem, step⟩

section Bumps

variable {powers : Powers} {P : String → Attempt → Prop} {middle : AttemptModel}

theorem Bumps.trans_moves (bumps : Bumps P model middle) (moves : Moves powers middle later) :
    Bumps P model later := by
  intro id msg after record found old oldMem holds new newMem sameE
  rcases (Evolves.moves moves).exists_before found newMem with
    ⟨between, inMiddle, kept, keptMem, step⟩
  have raised := bumps id msg between record inMiddle old oldMem holds kept keptMem
    (step.e.symm.trans sameE)
  exact raised.trans_le step.mark

theorem bumps_mapAttempts (recorded : model.Recorded none) {f : String → Attempt → Attempt}
    (sameE : ∀ id attempt, (f id attempt).e = attempt.e)
    (raises : ∀ id attempt, P id attempt → attempt.mark < (f id attempt).mark) :
    Bumps P model (model.mapAttempts f) := by
  intro id msg after record found old oldMem holds new newMem isE
  simp only [AttemptModel.mapAttempts, SortedMap.get?_map, record] at found
  cases found
  rcases List.mem_map.mp newMem with ⟨before, beforeMem, rfl⟩
  rw [sameE] at isE
  rw [(recorded.counted record).eq_of_e beforeMem oldMem isE]
  exact raises id old holds

theorem bumps_updateAttempt (recorded : model.Recorded none) (id : String) (a e : ℕ)
    {f : Attempt → Attempt} (sameE : ∀ attempt, (f attempt).e = attempt.e)
    (raises : ∀ other attempt, P other attempt → other = id ∧ attempt.a = a ∧ attempt.e = e ∧
      attempt.mark < (f attempt).mark) : Bumps P model (model.updateAttempt id a e f) := by
  intro other msg after record found old oldMem holds new newMem isE
  rcases raises other old holds with ⟨rfl, isA, isOldE, raised⟩
  simp only [AttemptModel.updateAttempt, SortedMap.get?_modify, record] at found
  cases found
  have counted := recorded.counted record
  rw [counted.updateAttempt_attempts] at newMem
  rcases List.mem_map.mp newMem with ⟨before, beforeMem, rfl⟩
  have sameBefore : before.e = old.e := by
    rw [← isE]
    split
    · exact (sameE before).symm
    · rfl
  rw [counted.eq_of_e beforeMem oldMem sameBefore]
  simpa [isA, isOldE] using raised

variable (valid : model.Valid)

include valid

theorem Valid.bumps_regainHeld (rx : Rx) (held : List (String × ℕ × ℕ)) :
    Bumps (fun id old => old.rx = rx ∧ (id, old.a, old.e) ∈ held) model
      (held.foldl (regainHeld rx) model) := by
  induction held generalizing model with
  | nil =>
    rintro id msg after _ _ old _ ⟨_, impossible⟩
    cases impossible
  | cons entry rest ih =>
    have move : Move Powers.none model (regainHeld rx model entry) :=
      Move.regainHeld model rx entry
    have validNext := valid.move move
    have others : Moves Powers.none (regainHeld rx model entry)
        (rest.foldl (regainHeld rx) (regainHeld rx model entry)) :=
      foldl_moves_of_valid rest validNext fun current entry _ =>
        Relation.ReflTransGen.single (Move.regainHeld current rx entry)
    rintro id msg after record found old oldMem ⟨bound, listed⟩ new newMem sameE
    rcases List.mem_cons.mp listed with isEntry | inRest
    · have raised : Bumps (fun other attempt => other = entry.1 ∧ attempt.a = entry.2.1 ∧
          attempt.e = entry.2.2 ∧ attempt.rx = rx) model (regainHeld rx model entry) := by
        apply bumps_updateAttempt valid.recorded
        · intro attempt
          split <;> rfl
        · rintro other attempt ⟨isId, isA, isE, isRx⟩
          refine ⟨isId, isA, isE, ?_⟩
          rw [if_pos isRx]
          exact Nat.lt_succ_self _
      refine raised.trans_moves others id msg after record found old oldMem ?_ new newMem sameE
      simp [← isEntry, bound]
    · rcases (Evolves.moves others).exists_before found newMem with
        ⟨between, inMiddle, kept, keptMem, later⟩
      have earlier := (Evolves.move move).pair validNext record inMiddle oldMem keptMem
        (later.e.symm.trans sameE)
      have earlierMark := earlier.mark
      have laterMark := later.mark
      rcases earlier.rebound with sameRx | raised
      · have stillListed : (id, kept.a, kept.e) ∈ rest := by
          rw [earlier.a, earlier.e]
          exact inRest
        have raised := ih validNext id between after inMiddle found kept keptMem
          ⟨sameRx.trans bound, stillListed⟩ new newMem later.e
        omega
      · omega

theorem Valid.bumps_snapshot {now : Instant} {rx : Rx} {seq seen : ℕ} {held : List (String × ℕ × ℕ)}
    (applied : (model.snapshot now rx seq seen held).1 = .applied) :
    Bumps (fun id old => old.rx = rx ∧ (id, old.a, old.e) ∈ held) model
      (model.snapshot now rx seq seen held).2 := by
  have noted : Moves Powers.linker model (model.applySnapshot now rx seq seen held).2 :=
    valid.applySnapshot rfl now rx seq seen held
  simp only [AttemptModel.snapshot] at applied ⊢
  split at applied
  · rename_i isApplied
    rw [if_pos isApplied]
    refine Bumps.trans_moves ?_ ((valid.moves noted).finalizeEach now _ : Moves Powers.none _ _)
    simp only [AttemptModel.applySnapshot] at isApplied ⊢
    split at isApplied
    · cases isApplied
    · rename_i receiver found
      split at isApplied
      · cases isApplied
      · rename_i fresh
        simp only [if_neg fresh]
        have noted : Move Powers.linker model (model.noteSnapshot now rx receiver seq seen held) :=
          Move.noteSnapshot rfl found now seq seen held
        exact (valid.move noted).bumps_regainHeld rx held
  · rename_i dropped
    exact absurd applied dropped

theorem Valid.bumps_turn (now : Instant) {view : TurnView}
    (started : (view.busy && !model.turnClock.busy)) :
    Bumps (fun _ old => old.onceHeld = true) model (model.turn now view) := by
  have clocked : Move Powers.none model { model with turnClock := view } := Move.clock view
  have validClocked := valid.move clocked
  have regained : Move Powers.none { model with turnClock := view } _ := Move.regainOnce _
  simp only [AttemptModel.turn, started]
  refine Bumps.trans_moves ?_
    ((validClocked.move regained).finalizeEach now _ : Moves Powers.none _ _)
  apply bumps_mapAttempts validClocked.recorded
  · intro _ attempt
    split <;> rfl
  · intro _ attempt held
    rw [if_pos held]
    exact Nat.lt_succ_self _

theorem Valid.bumps_retained {now : Instant} {rx : Rx} {id : String} {a e : ℕ}
    (applied : (model.resumeAnswer now rx id a e .retained).1 = .applied) :
    Bumps (fun other old => other = id ∧ old.a = a ∧ old.e = e) model
      (model.resumeAnswer now rx id a e .retained).2 := by
  have retained : ∀ receiver effects, Bumps (fun other old => other = id ∧ old.a = a ∧ old.e = e)
      model (((model.retain now rx receiver id a e).emit effects).finalize now id) := by
    intro receiver effects
    refine Bumps.trans_moves ?_ (moves_finalize _ now id : Moves Powers.none _ _)
    have recorded : { model with
        receivers := model.receivers.insert rx { receiver with nextD := receiver.nextD + 1 }
        }.Recorded none :=
      ⟨valid.recorded.counted, valid.recorded.staging, valid.recorded.staged,
        valid.recorded.running⟩
    refine bumps_updateAttempt recorded id a e ?_ ?_
    · intro attempt
      rw [rebind_eq]
    · rintro other attempt ⟨isId, isA, isE⟩
      rw [rebind_eq]
      exact ⟨isId, isA, isE, Nat.lt_succ_self _⟩
  simp only [AttemptModel.resumeAnswer] at applied ⊢
  split at applied
  · cases applied
  · rename_i receiver registered
    split at applied
    · cases applied
    · rename_i unretired
      split at applied
      · cases applied
      · split at applied
        · cases applied
        · rename_i pending
          split at applied
          · cases applied
          · rename_i sameSlot
            simp only [if_neg unretired, if_neg pending, if_neg sameSlot]
            exact retained receiver _

end Bumps

/-! ## Quiet steps -/

theorem Valid.lookup (valid : model.Valid) (record : model.messages.get? id = some msg)
    {attempt : Attempt} (mem : attempt ∈ msg.attempts) :
    model.attempt id attempt.a attempt.e = some attempt := by
  rcases found : msg.attempt attempt.a attempt.e with _ | other
  · have unmatched := List.find?_eq_none.mp found attempt mem
    simp at unmatched
  · have same := (valid.recorded.counted record).eq_of_lookup found mem rfl rfl
    subst same
    simp [AttemptModel.attempt, record, found]

theorem Valid.undisturbed_newlyFenced (valid : model.Valid) (laterValid : later.Valid)
    (record : model.messages.get? id = some msg) (found : later.messages.get? id = some after)
    (oldMem : old ∈ msg.attempts) (newMem : new ∈ after.attempts) (sameA : new.a = old.a)
    (sameE : new.e = old.e)
    (fenced : new.stage = .fenced → old.stage = .fenced ∨ old.mark < new.mark)
    (same : new.mark = old.mark) : new.Undisturbed id (newlyFenced model later) := by
  intro notice mem disturbed
  simp only [newlyFenced, select, List.map_flatMap, List.mem_flatMap, List.map_map,
    List.mem_map, List.mem_filter] at mem
  rcases mem with ⟨⟨other, otherMsg⟩, entry, attempt, ⟨attemptMem, isFenced⟩, rfl⟩
  rcases disturbed with ⟨sameId, _, isE⟩
  subst sameId
  rw [← SortedMap.get?_eq_some_iff] at entry
  cases Option.some.inj (entry.symm.trans found)
  have isNew := (laterValid.recorded.counted found).eq_of_e attemptMem newMem isE
  subst isNew
  simp only [Bool.and_eq_true, decide_eq_true_eq] at isFenced
  rcases fenced isFenced.1 with before | bumped
  · have lookup := valid.lookup record oldMem
    rw [← sameA, ← sameE] at lookup
    simp [lookup, before] at isFenced
  · omega

theorem unchecked_newlyFenced (model later : AttemptModel) (check : LapseCheck) :
    Notice.checked check ∉ newlyFenced model later := by
  simp [newlyFenced]

theorem unchecked_turnNotices (model : AttemptModel) (view : TurnView) (check : LapseCheck) :
    Notice.checked check ∉ model.turnNotices view := by
  simp only [turnNotices]
  split <;> simp

theorem unchecked_callNotices (model : AttemptModel) (op : Op) (check : LapseCheck) :
    Notice.checked check ∉ model.callNotices op := by
  cases op with
  | turn now view => exact unchecked_turnNotices model view check
  | resumeAnswer now rx id a e answer =>
    cases answer with
    | retained =>
      simp only [callNotices]
      split <;> simp
    | notHanded => simp [callNotices]
    | unknown => simp [callNotices]
  | issue now id rx =>
    simp only [callNotices]
    split <;> simp
  | snapshot now rx seq seen held =>
    simp only [callNotices]
    split <;> simp
  | _ => simp [callNotices]

/-- The calls of an operation that takes no spool check leave what they do not move undisturbed. -/
theorem Valid.undisturbed_calls (valid : model.Valid) {op : Op}
    (laterValid : (model.apply op).Valid) (silent : model.issuedBy op = none)
    (record : model.messages.get? id = some msg)
    (found : (model.apply op).messages.get? id = some after) (oldMem : old ∈ msg.attempts)
    (newMem : new ∈ after.attempts) {ended : Bool} (step : old.Evolves powers ended new)
    (same : new.mark = old.mark) (unsettled : new.Unsettled) :
    new.Undisturbed id (model.callNotices op) := by
  have sameRx : new.rx = old.rx := by
    rcases step.rebound with sameRx | bumped
    · exact sameRx
    · omega
  intro notice mem disturbed
  cases op with
  | issue now other rx =>
    simp only [callNotices] at mem
    split at mem
    · rename_i issued told
      simp [issuedBy, told, Except.toOption] at silent
    · cases mem
  | snapshot now rx seq seen held =>
    simp only [callNotices] at mem
    split at mem
    · rename_i applied
      rcases List.mem_map.mp mem with ⟨entry, listed, rfl⟩
      rcases disturbed with ⟨isRx, isId, isA, isE⟩
      have isListed : (id, old.a, old.e) ∈ held := by
        rw [← step.a, ← step.e, ← isId, ← isA, ← isE]
        exact listed
      have bumped := valid.bumps_snapshot applied id msg after record found old oldMem
        ⟨sameRx.symm.trans isRx.symm, isListed⟩ new newMem step.e
      omega
    · cases mem
  | resumeAnswer now rx other a e answer =>
    cases answer with
    | retained =>
      simp only [callNotices] at mem
      split at mem
      · rename_i applied
        rw [List.mem_singleton] at mem
        subst mem
        rcases disturbed with ⟨isId, isA, isE⟩
        have bumped := valid.bumps_retained applied id msg after record found old oldMem
          ⟨isId.symm, step.a.symm.trans isA.symm, step.e.symm.trans isE.symm⟩ new newMem
            step.e
        omega
      · cases mem
    | notHanded => cases mem
    | unknown => cases mem
  | turn now view =>
    simp only [callNotices, turnNotices] at mem
    split at mem
    · rename_i started
      rw [List.mem_singleton] at mem
      subst mem
      have before := step.unsettled unsettled
      have held : old.onceHeld := by
        have onceWaiter : old.slot = .onceWaiter := step.slot.symm.trans disturbed
        simp only [Attempt.onceHeld, onceWaiter]
        split
        · rename_i committed
          exact absurd committed before.1
        · rename_i notHanded
          exact absurd notHanded before.2
        all_goals rfl
      have bumped := valid.bumps_turn now started id msg after record found old oldMem held new
        newMem step.e
      omega
    · cases mem
  | _ => cases mem

end AttemptModel

end AgentDeck.Attempts
