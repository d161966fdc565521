import AgentDeck.Probe.RecordLedger

/-!
# Each operation of the records

Every operation keeps the invariants, and each of its effects is one the ledger names. An operation
on one record touches that record and lets the rest be finished; the others change no record, or
prune one.
-/

namespace AgentDeck.Probe

namespace WriterScope

/-- A cause never goes down and is never cleared. -/
def Rises (scope scope' : WriterScope) : Prop :=
  ∀ cause ∈ scope.cause, ∃ cause' ∈ scope'.cause, cause ≤ cause'

variable (scope : WriterScope)

theorem Rises.refl : Rises scope scope :=
  fun cause set => ⟨cause, set, Nat.le_refl _⟩

theorem rises_set (cause : Cause) : Rises scope (scope.set cause) := by
  intro first is
  refine ⟨first.higher cause, ?_, ?_⟩
  · rw [Option.mem_def] at is
    simp only [set, is, Option.mem_def]
  · unfold Cause.higher
    split
    · assumption
    · exact Nat.le_refl _

theorem rises_setAny (cause : Option Cause) : Rises scope (scope.setAny cause) := by
  cases cause with
  | none => exact Rises.refl scope
  | some cause => exact rises_set scope cause

theorem undecided_setAny (cause : Option Cause) :
    (scope.setAny cause).undecided = scope.undecided := by
  cases cause with
  | none => rfl
  | some cause => rfl

theorem leave_cause (leaves : Bool) (scope : WriterScope) :
    (if leaves then { scope with undecided := scope.undecided - 1 } else scope).cause =
      scope.cause := by
  cases leaves with
  | true => rfl
  | false => rfl

theorem leave_undecided (leaves : Bool) (scope : WriterScope) :
    (if leaves then { scope with undecided := scope.undecided - 1 } else scope).undecided =
      if leaves then scope.undecided - 1 else scope.undecided := by
  cases leaves with
  | true => rfl
  | false => rfl

theorem Rises.leave {scope scope' : WriterScope} (rises : Rises scope scope') (leaves : Bool) :
    Rises scope (if leaves then { scope' with undecided := scope'.undecided - 1 } else scope') := by
  intro cause set
  rw [leave_cause]
  exact rises cause set

theorem not_closes {scope scope' : WriterScope} (undecided : scope'.undecided = scope.undecided) :
    (decide (scope.state = .pending) && decide (scope'.state = .closed)) = false := by
  rw [Bool.and_eq_false_iff, decide_eq_false_iff_not, decide_eq_false_iff_not]
  cases set : scope.cause with
  | some cause =>
    rw [state_of_cause set]
    exact .inl ScopeState.noConfusion
  | none =>
    by_cases zero : scope.undecided = 0
    · rw [state_of_zero set zero]
      exact .inl ScopeState.noConfusion
    · refine .inr ?_
      cases set' : scope'.cause with
      | some cause =>
        rw [state_of_cause set']
        exact ScopeState.noConfusion
      | none =>
        rw [← undecided] at zero
        rw [state_of_pos set' zero]
        exact ScopeState.noConfusion

end WriterScope

open WriterScope (Rises)

variable {before after : Option Stop}

theorem Records.SameStop.mem (same : SameStop before after)
    {stop : Stop} (is : before = some stop) :
    ∃ stop' ∈ after, stop'.cause = stop.cause ∧ stop'.source = stop.source := by
  subst is
  cases after with
  | none => exact same.elim
  | some stop' => exact ⟨stop', rfl, same⟩

theorem Records.SameStop.none (same : SameStop before after) (is : before = none) :
    after = none := by
  subst is
  cases after with
  | none => rfl
  | some stop' => exact same.elim

theorem Records.SameStop.isSome (same : SameStop before after) : after.isSome = before.isSome := by
  cases before with
  | none => rw [same.none rfl]
  | some stop =>
    rcases same.mem rfl with ⟨stop', is, _⟩
    rw [is]
    rfl

namespace Rebooks

variable {s s' : Records} {fifo fifo' : HazardFifo} {answer : Answer}

theorem of_same (booked : Booked s fifo) (scope : s'.scope = s.scope)
    (pending : s'.pendingSince = s.pendingSince) (stopped : Records.SameStop s.stopped s'.stopped)
    (paused : fifo'.paused = s'.anyPending) (rescan : answer.rescan = false) :
    Rebooks s answer s' fifo' := by
  refine ⟨⟨?_, ?_, paused⟩, ?_, ?_, ?_, ?_⟩
  · rw [pending, scope]
    exact booked.pendingSince
  · rw [stopped.isSome, scope]
    exact booked.stopped
  · intro cause is
    exact ⟨cause, scope ▸ is, Nat.le_refl _⟩
  · intro stop is
    exact stopped.mem is
  · intro unset cause is
    rw [scope, unset] at is
    cases is
  · rw [rescan, scope]
    exact (WriterScope.not_closes rfl).symm

theorem of_transition (booked : Booked s fifo) (mid : Records) (now : Instant)
    (resolved : Option Resolution) (source : Option StopSource) (record : Option RecordKey)
    (stopped : mid.stopped = s.stopped) (rises : Rises s.scope mid.scope)
    (unset : source = none → mid.scope.cause = s.scope.cause) (scope : s'.scope = mid.scope)
    (pending : s'.pendingSince =
      (mid.transition s.scope.state now resolved source record).2.pendingSince)
    (kept : Records.SameStop (mid.transition s.scope.state now resolved source record).2.stopped
      s'.stopped)
    (paused : fifo'.paused = s'.anyPending)
    (rescan : answer.rescan =
      (decide (s.scope.state = .pending) && decide (mid.scope.state = .closed))) :
    Rebooks s answer s' fifo' := by
  rcases mid.transition_spec s.scope.state now resolved source record with
    ⟨_, _, _, _, pendingSince, books⟩
  rw [← scope] at rises rescan
  have opens : s.scope.cause = none → ∀ cause ∈ s'.scope.cause,
      ∃ stop ∈ s'.stopped, stop.cause = cause := by
    intro before cause is
    have fresh : mid.stopped = none := by
      rw [stopped, ← Option.isNone_iff_eq_none, ← Option.not_isSome, booked.stopped, before]
      rfl
    rw [scope] at is
    cases made : source with
    | none =>
      rw [unset made, before] at is
      cases is
    | some source' =>
      rcases books.first fresh cause is source' made with ⟨stop, first, sameCause, _⟩
      rcases kept.mem first with ⟨stop', there, same⟩
      exact ⟨stop', there, same.1.trans sameCause⟩
  have keeps : ∀ stop ∈ s.stopped, ∃ stop' ∈ s'.stopped, stop'.cause = stop.cause ∧
      stop'.source = stop.source := by
    intro stop is
    exact kept.mem (books.kept stop (stopped.trans is))
  refine ⟨⟨?_, ?_, paused⟩, rises, keeps, opens, rescan⟩
  · rw [pending, pendingSince, scope]
  · cases before : s.scope.cause with
    | some cause =>
      rcases rises cause before with ⟨cause', after, _⟩
      have was : s.stopped.isSome := by
        rw [booked.stopped, before]
        rfl
      rcases Option.isSome_iff_exists.mp was with ⟨stop, is⟩
      rcases keeps stop is with ⟨stop', there, _⟩
      rw [there, after]
      rfl
    | none =>
      cases after : s'.scope.cause with
      | some cause =>
        rcases opens before cause after with ⟨stop, there, _⟩
        rw [there]
        rfl
      | none =>
        have fresh : mid.stopped = none := by
          rw [stopped, ← Option.isNone_iff_eq_none, ← Option.not_isSome, booked.stopped,
            before]
          rfl
        rw [scope] at after
        rw [kept.none (books.none fresh (.inl after))]
        rfl

end Rebooks

variable {s : Records}

/-- The end of a step that touched one record: the pop is done, then subsumption, the books and
the quiet clock. -/
theorem Records.finish_spec {fifo : HazardFifo} (booked : Booked s fifo) (s₁ : Records)
    {popped : List Record} (pops : List.Forall₂ Pops s₁.records popped) (fifo₁ : HazardFifo)
    (now : Instant) (resolved : Option Resolution) (source : Option StopSource)
    (record : Option RecordKey) (stopped : s₁.stopped = s.stopped) (rises : Rises s.scope s₁.scope)
    (unset : source = none → s₁.scope.cause = s.scope.cause) {moved : Bool × Records}
    {fed : Records × HazardFifo}
    (moves : moved = ({ s₁ with records := popped }.subsume).transition s.scope.state now resolved
      source record) (feeds : fed = moved.2.after fifo₁ now) :
    List.Forall₂ (Finishes s₁.records) s₁.records fed.1.records ∧ fed.1.scope = s₁.scope ∧
      fed.1.count = s₁.count ∧ Rebooks s ⟨0, 0, moved.1⟩ fed.1 fed.2 := by
  subst moves feeds
  rcases ({ s₁ with records := popped }.subsume).transition_spec s.scope.state now resolved source
    record with ⟨_, records, scope, history, _, _⟩
  have fed := (({ s₁ with records := popped }.subsume).transition s.scope.state now resolved source
    record).2.after_feeds fifo₁ now
  have sameScope := fed.scope.trans scope
  refine ⟨?_, sameScope, ?_, ?_⟩
  · rw [fed.records, records]
    exact pops_finishes pops
  · rw [fed.count]
    exact congrArg CountHistory.count history
  · exact Rebooks.of_transition booked ({ s₁ with records := popped }.subsume) now resolved source
      record stopped rises unset sameScope fed.pendingSince fed.stopped fed.paused rfl

def Record.applied (r : Record) (obs : Sighting) : Option Decision :=
  if r.drained then none else obs.decision

def Record.sighted (r : Record) (obs : Sighting) (count : ℕ) (now : Instant) : Record :=
  match r.applied obs with
  | some decision => (r.note obs).decided decision count now
  | none => r.note obs

namespace Records

/-- The records after an observation, before the pop. -/
def sighted (s : Records) (obs : Sighting) (now : Instant) (r : Record) : Records :=
  { s.update obs.key fun _ => r.sighted obs s.count now with
    scope := if (r.note obs).undecided && (r.applied obs).isSome then
        { s.scope.setAny ((r.applied obs).bind (decisionCause s.policy)) with
          undecided :=
            (s.scope.setAny ((r.applied obs).bind (decisionCause s.policy))).undecided - 1 }
      else s.scope.setAny ((r.applied obs).bind (decisionCause s.policy))
    history := if decide ((r.note obs).settlement = .opened) &&
        decide ((r.sighted obs s.count now).settlement = .consumed) then
        s.history.set now (s.count - 1)
      else s.history }

theorem observeKept_eq (s : Records) (fifo : HazardFifo) (obs : Sighting) (now : Instant)
    (before : ScopeState) (r : Record) {moved : Bool × Records} {fed : Records × HazardFifo}
    (moves : moved = (((s.sighted obs now r).maybePop fifo obs.key now).1.subsume).transition before
      now (if (r.note obs).undecided && (r.applied obs).isSome then (r.applied obs).map .decided
        else none) ((r.applied obs).map (.decision obs.channel)) (some obs.key))
    (feeds : fed = moved.2.after ((s.sighted obs now r).maybePop fifo obs.key now).2 now) :
    s.observeKept fifo obs now before r =
      (.kept (r.sighted obs s.count now).settlement moved.1, fed) := by
  subst moves feeds
  rfl

end Records

theorem settleOnDecision_ne_opened (r : Record) (decision : Decision) (count : ℕ) :
    settleOnDecision r decision count ≠ .opened := by
  unfold settleOnDecision
  split <;> exact Settlement.noConfusion

variable {r : Record}

theorem settleOnDecision_consumed {decision : Decision} {count : ℕ}
    (is : settleOnDecision r decision count = .consumed) :
    decision = .armed ∧ r.isOwned = true ∧ 1 ≤ count := by
  unfold settleOnDecision at is
  split at is
  · exact Settlement.noConfusion is
  · exact Settlement.noConfusion is
  · rename_i owned
    exact ⟨rfl, owned, by omega⟩
  · exact Settlement.noConfusion is
  · exact Settlement.noConfusion is
  · exact Settlement.noConfusion is

theorem Attribution.exists_of_isNotOwned {attribution : Attribution}
    (is : attribution.isNotOwned) : ∃ reason, attribution = .notOwned reason := by
  cases attribution with
  | notOwned reason => exact ⟨reason, rfl⟩
  | pending | owned | unattributable => exact absurd is Bool.false_ne_true

theorem Record.note_completion (r : Record) (obs : Sighting) :
    (r.note obs).completion = r.completion ∨ r.completion = .pending ∧
      (r.note obs).completion = .notRequired ∧
        ∃ reason, (r.note obs).attribution = .notOwned reason := by
  by_cases needless : r.attribution = .pending ∧ obs.attribution.isNotOwned = true ∧
    r.completion = .pending
  · rcases needless with ⟨fresh, notOwned, pending⟩
    refine .inr ⟨pending, ?_, ?_⟩
    · simp only [Record.note, fresh, notOwned, pending, decide_true, Bool.and_self, if_true]
    · simp only [Record.note, fresh]
      exact Attribution.exists_of_isNotOwned notOwned
  · refine .inl ?_
    simp only [Record.note]
    rw [if_neg]
    rw [Bool.and_eq_true, Bool.and_eq_true, decide_eq_true_eq, decide_eq_true_eq, and_assoc]
    exact needless

theorem Record.completes_of_note {s' : Records} {final : Record} {obs : Sighting}
    (completion : final.completion = (r.note obs).completion)
    (attribution : final.attribution = (r.note obs).attribution) :
    final.completion = r.completion ∨ r.completion = .pending ∧ Completes s s' final := by
  rcases r.note_completion obs with same | ⟨pending, notRequired, notOwned⟩
  · exact .inl (completion.trans same)
  · refine .inr ⟨pending, ?_⟩
    rw [← completion] at notRequired
    rw [← attribution] at notOwned
    simp only [Completes, notRequired]
    exact notOwned

theorem sighted_turns (s s' : Records) {obs : Sighting} (now : Instant) (flagged : Flagged r)
    (key : r.key = obs.key) : Turns s (.observe obs now) s' r (r.sighted obs s.count now) := by
  cases applies : r.applied obs with
  | none =>
    have is : r.sighted obs s.count now = r.note obs := by
      simp only [Record.sighted, applies]
    rw [is]
    refine ⟨⟨rfl, fun _ => rfl, fun drained => ⟨drained, rfl, rfl, rfl⟩, .inl, ?_⟩, ?_, id⟩
    · exact Record.completes_of_note rfl rfl
    · exact fun flagged => ⟨flagged.undecided, flagged.opened⟩
  | some decision =>
    have is : r.sighted obs s.count now = (r.note obs).decided decision s.count now := by
      simp only [Record.sighted, applies]
    have undrained : r.drained = false := by
      rw [Bool.eq_false_iff]
      intro drained
      rw [Record.applied, if_pos drained] at applies
      cases applies
    have sent : obs.decision = some decision := by
      rw [Record.applied, undrained] at applies
      exact applies
    rw [is]
    refine ⟨⟨rfl, ?_, ?_, ?_, ?_⟩, ?_, ?_⟩
    · exact fun settled => if_neg settled
    · exact fun drained => absurd (undrained.symm.trans drained) Bool.false_ne_true
    · intro consumed
      by_cases opened : r.settlement = .opened
      · refine .inr ?_
        have settles : settleOnDecision (r.note obs) decision s.count = .consumed :=
          (if_pos opened).symm.trans consumed
        rcases settleOnDecision_consumed settles with ⟨armed, owned, count⟩
        have undecided := flagged.undecided.symm.trans (flagged.opened.mp opened)
        rw [Bool.and_eq_true, Option.isNone_iff_eq_none] at undecided
        refine ⟨owned, count, undecided.1, undrained, .inl ⟨obs, now, rfl, key.symm, ?_⟩⟩
        rw [sent, armed]
      · exact .inl ((if_neg opened).symm.trans consumed)
    · exact Record.completes_of_note rfl rfl
    · intro _
      refine ⟨?_, ?_⟩
      · have nonempty : ((r.note obs).decision <|> some decision).isNone = false := by
          cases (r.note obs).decision with
          | none => rfl
          | some first => rfl
        simp only [Record.decided, nonempty, Bool.false_and]
      · refine ⟨?_, fun still => absurd still Bool.false_ne_true⟩
        intro opened
        by_cases before : r.settlement = .opened
        · exact absurd ((if_pos before).symm.trans opened) (settleOnDecision_ne_opened _ _ _)
        · exact absurd ((if_neg before).symm.trans opened) before
    · exact fun still => absurd still Bool.false_ne_true

theorem leaves_countP {records : List Record} {r₁ : Record} (mem : r ∈ records) (leaves : Bool)
    (is : leaves = (r.undecided && !r₁.undecided)) {left : ℕ}
    (drops : left = if leaves then records.countP Record.undecided - 1
      else records.countP Record.undecided) :
    left + (r.undecided && !r₁.undecided).toNat = records.countP Record.undecided := by
  rw [← is]
  cases leaves with
  | false =>
    rw [drops]
    rfl
  | true =>
    have undecided : r.undecided := by
      rw [eq_comm, Bool.and_eq_true] at is
      exact is.1
    have positive : 0 < records.countP Record.undecided :=
      List.countP_pos_iff.mpr ⟨r, mem, undecided⟩
    rw [drops, if_pos rfl, Bool.toNat_true]
    omega

variable {op : RecordsOp}

theorem consumed_count {s' : Records} {r₁ : Record} (turns : Turns s op s' r r₁) (consumed : Bool)
    (is : consumed = (decide (r.settlement = .opened) && decide (r₁.settlement = .consumed)))
    {count : ℕ} (drops : count = if consumed then s.count - 1 else s.count) :
    count + 0 + (decide (r₁.settlement = .consumed) &&
      !decide (r.settlement = .consumed)).toNat = s.count + 0 := by
  have flag : (decide (r₁.settlement = .consumed) && !decide (r.settlement = .consumed)) =
      consumed := by
    rw [is]
    by_cases opened : r.settlement = .opened
    · simp only [opened, reduceCtorEq, decide_false, Bool.not_false, Bool.and_true, decide_true,
        Bool.true_and]
    · rw [turns.settled opened, decide_eq_false opened, Bool.false_and, Bool.and_not_self]
  rw [flag, drops]
  cases consumed with
  | false => rfl
  | true =>
    rw [eq_comm, Bool.and_eq_true, decide_eq_true_eq, decide_eq_true_eq] at is
    rcases turns.consumed is.2 with before | consumes
    · exact Settlement.noConfusion (is.1.symm.trans before)
    · have positive := consumes.count
      rw [if_pos rfl, Bool.toNat_true]
      omega

/-- What a step of the records does, and that it keeps the invariants. -/
structure Works (s : Records) (op : RecordsOp) (answer : Answer) (s' : Records)
    (fifo' : HazardFifo) : Prop where
  reworks : Reworks s op answer s'
  rebooks : Rebooks s answer s' fifo'

/-- The records an observation is booked on: those there are, or these with a new one. -/
structure Basis (s : Records) (op : RecordsOp) (base : Records) : Prop where
  listed : Listed base
  within : ∀ r ∈ s.records, r ∈ base.records
  comes : ∀ r ∈ base.records, r ∈ s.records ∨ Joins s op r
  cause : base.scope.cause = s.scope.cause
  history : base.history = s.history
  stopped : base.stopped = s.stopped

theorem Basis.refl (listed : Listed s) : Basis s op s :=
  ⟨listed, fun _ mem => mem, fun _ mem => .inl mem, rfl, rfl, rfl⟩

theorem Basis.rises {base : Records} (basis : Basis s op base) {scope : WriterScope}
    (rises : Rises base.scope scope) : Rises s.scope scope := by
  intro cause is
  exact rises cause (basis.cause ▸ is)

theorem Basis.count {base : Records} (basis : Basis s op base) : base.count = s.count :=
  congrArg CountHistory.count basis.history

theorem observeKept_effect {base : Records} {fifo : HazardFifo} {obs : Sighting} {now : Instant}
    (booked : Booked s fifo) (basis : Basis s (.observe obs now) base)
    (found : base.get obs.key = some r) {out : Recorded × Records × HazardFifo}
    (is : out = base.observeKept fifo obs now s.scope.state r) :
    Works s (.observe obs now) (Recorded.answer (.ok out.1)) out.2.1 out.2.2 := by
  rw [base.observeKept_eq fifo obs now s.scope.state r rfl rfl] at is
  rcases base.get_split found with ⟨key, pre, post, split, _, changed⟩
  have mem : r ∈ base.records := by
    rw [split]
    exact List.mem_append_right _ List.mem_cons_self
  rcases (base.sighted obs now r).maybePop_spec fifo obs.key now with ⟨popped, pop, pops⟩
  rw [pop] at is
  have rises : Rises base.scope (base.sighted obs now r).scope :=
    (WriterScope.rises_setAny base.scope _).leave _
  have unset : (r.applied obs).map (StopSource.decision obs.channel) = none →
      (base.sighted obs now r).scope.cause = s.scope.cause := by
    intro absent
    rw [Option.map_eq_none_iff] at absent
    simp only [Records.sighted, absent, Option.isSome_none, Bool.and_false]
    exact basis.cause
  have finished := Records.finish_spec booked (base.sighted obs now r) pops
    ((base.sighted obs now r).maybePop fifo obs.key now).2 now
    (if (r.note obs).undecided && (r.applied obs).isSome then (r.applied obs).map .decided
      else none) ((r.applied obs).map (.decision obs.channel)) (some obs.key) basis.stopped
    (basis.rises rises) unset rfl rfl
  rcases finished with ⟨all, scope, count, rebooks⟩
  rw [is]
  refine ⟨?_, rebooks⟩
  have turns := sighted_turns s out.2.1 now (basis.listed.flagged r mem) key
  rw [is, ← basis.count] at turns
  rw [show (base.sighted obs now r).records = pre ++ r.sighted obs base.count now :: post from
    changed _] at all
  refine Reworks.of_touch split basis.listed.keys basis.listed.flagged basis.within basis.comes
    turns all ?_ ?_
  · refine leaves_countP mem ((r.note obs).undecided && (r.applied obs).isSome) ?_ ?_
    · unfold Record.sighted
      cases r.applied obs with
      | none => exact (Bool.and_false _).trans (Bool.and_not_self r.undecided).symm
      | some decision => rfl
    · rw [scope, ← basis.listed.undecided]
      refine (WriterScope.leave_undecided _ _).trans ?_
      rw [WriterScope.undecided_setAny]
  · refine consumed_count turns _ rfl ?_
    rw [count, ← basis.count]
    exact CountHistory.count_consume _ _ _ _

end AgentDeck.Probe
