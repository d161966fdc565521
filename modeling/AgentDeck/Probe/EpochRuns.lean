import AgentDeck.Lib.Runs
import AgentDeck.Probe.Epoch

/-!
# Runs of the input epoch

A run of the epoch's operations, with what happened beside it. The epoch calls the box untouched
only on evidence that is newer than every foreign op: a probe whose own byte was the last op, or a
ring's reconcile from an epoch observed after the last foreign op.
-/

namespace AgentDeck.Probe

inductive EpochOp
  | record (owner : Option DeckJobId)
  | apply (obs : Observation)
  | reconcileRing (ring : DeckJobId) (admittedAt : ℕ)

/-- What happened: an op entered and moved the epoch to a value; an observation applied; a ring
reconciled, from what was observed and the last foreign op's epoch. -/
inductive EpochEvent
  | entered (owner : Option DeckJobId) (epoch : ℕ)
  | applied (obs : Observation)
  | reconciled (ring : DeckJobId) (admittedAt observed lastForeign : ℕ)

/-- The epoch and what happened, the newest first. -/
structure EpochStory where
  epoch : InputEpoch
  events : List EpochEvent

namespace InputEpoch

theorem apply_cases (e : InputEpoch) (obs : Observation) :
    ((e.apply obs).1 = false ∧ (e.apply obs).2 = e) ∨
    ((e.apply obs).1 = true ∧ (e.apply obs).2 = { e with observed := e.epoch } ∧
      e.exhausted = false ∧ obs.admittedAt + 1 = e.epoch ∧ e.owner = some obs.probe ∧
      e.lastForeign ≤ obs.admittedAt ∧ obs.readEmpty = true ∧ obs.retired = false) := by
  cases applies : (e.apply obs).1 with
  | false =>
    refine .inl ⟨rfl, ?_⟩
    simp only [apply] at applies ⊢
    rw [applies]
    rfl
  | true =>
    refine .inr ⟨rfl, ?_, ?_⟩
    · simp only [apply] at applies ⊢
      rw [applies]
      rfl
    · simp only [apply, Bool.and_eq_true, Bool.not_eq_true', decide_eq_true_eq] at applies
      rcases applies with ⟨⟨⟨⟨⟨⟨fresh, _⟩, last⟩, owner⟩, foreign⟩, empty⟩, retired⟩
      exact ⟨fresh, last, owner, foreign, empty, retired⟩

theorem reconcileRing_cases (e : InputEpoch) (ring : DeckJobId) (admittedAt : ℕ) :
    ((e.reconcileRing ring admittedAt).1 = false ∧ (e.reconcileRing ring admittedAt).2 = e) ∨
    ((e.reconcileRing ring admittedAt).1 = true ∧
      (e.reconcileRing ring admittedAt).2 = { e with observed := e.epoch } ∧
      e.exhausted = false ∧ e.owner = some ring ∧ e.lastForeign ≤ admittedAt ∧
      e.observed = admittedAt) := by
  cases applies : (e.reconcileRing ring admittedAt).1 with
  | false =>
    refine .inl ⟨rfl, ?_⟩
    simp only [reconcileRing] at applies ⊢
    rw [applies]
    rfl
  | true =>
    refine .inr ⟨rfl, ?_, ?_⟩
    · simp only [reconcileRing] at applies ⊢
      rw [applies]
      rfl
    · simp only [reconcileRing, Bool.and_eq_true, Bool.not_eq_true', decide_eq_true_eq]
        at applies
      rcases applies with ⟨⟨⟨fresh, owner⟩, foreign⟩, observed⟩
      exact ⟨fresh, owner, foreign, observed⟩

theorem record_cases (e : InputEpoch) (owner : Option DeckJobId) :
    (e.record owner).observed = e.observed ∧ (e.record owner).owner = owner ∧
    (e.record owner).lastForeign = (if owner = none then (e.record owner).epoch
      else e.lastForeign) ∧
    ((e.record owner).epoch = e.epoch + 1 ∧ (e.record owner).exhausted = e.exhausted ∨
      (e.record owner).epoch = e.epoch ∧ (e.record owner).exhausted = true) := by
  simp only [record]
  split
  · split
    · exact ⟨rfl, rfl, rfl, .inl ⟨rfl, rfl⟩⟩
    · exact ⟨rfl, rfl, rfl, .inr ⟨rfl, rfl⟩⟩
  · split
    · exact ⟨rfl, rfl, rfl, .inl ⟨rfl, rfl⟩⟩
    · exact ⟨rfl, rfl, rfl, .inr ⟨rfl, rfl⟩⟩

theorem touched_eq_false {e : InputEpoch} :
    e.touched = false ↔ e.exhausted = false ∧ e.epoch = e.observed := by
  simp only [touched, Bool.or_eq_false_iff, decide_eq_false_iff_not, not_not]

end InputEpoch

namespace EpochStory

def start : EpochStory := ⟨.default, []⟩

def step (t : EpochStory) : EpochOp → EpochStory
  | .record owner =>
    { epoch := t.epoch.record owner
      events := .entered owner (t.epoch.record owner).epoch :: t.events }
  | .apply obs =>
    { epoch := (t.epoch.apply obs).2
      events := if (t.epoch.apply obs).1 then .applied obs :: t.events else t.events }
  | .reconcileRing ring admittedAt =>
    { epoch := (t.epoch.reconcileRing ring admittedAt).2
      events := if (t.epoch.reconcileRing ring admittedAt).1 then
          .reconciled ring admittedAt t.epoch.observed t.epoch.lastForeign :: t.events
        else t.events }

/-- No op entered in these events. -/
def Quiet (events : List EpochEvent) : Prop :=
  ∀ owner epoch, EpochEvent.entered owner epoch ∉ events

def Settles (job : DeckJobId) (epoch : ℕ) (events : List EpochEvent) : Prop :=
  (∃ obs, .applied obs ∈ events ∧ obs.probe = job ∧ obs.readEmpty = true ∧ obs.retired = false ∧
    obs.admittedAt + 1 = epoch) ∨
  ∃ admittedAt observed lastForeign, .reconciled job admittedAt observed lastForeign ∈ events ∧
    observed = admittedAt ∧ lastForeign ≤ admittedAt

/-- A probe whose byte entered in these events, from an epoch on, and whose observation applied. -/
def Reads (since : ℕ) (events : List EpochEvent) : Prop :=
  ∃ obs, .applied obs ∈ events ∧ since ≤ obs.admittedAt ∧
    .entered (some obs.probe) (obs.admittedAt + 1) ∈ events

theorem Reads.cons {since : ℕ} {events : List EpochEvent} (reads : Reads since events)
    (event : EpochEvent) : Reads since (event :: events) := by
  rcases reads with ⟨obs, mem, later, byte⟩
  exact ⟨obs, List.mem_cons_of_mem _ mem, later, List.mem_cons_of_mem _ byte⟩

theorem Quiet.of_cons {event : EpochEvent} {events : List EpochEvent}
    (quiet : Quiet (event :: events)) : Quiet events :=
  fun owner epoch mem => quiet owner epoch (List.mem_cons_of_mem _ mem)

theorem quiet_or_last (events : List EpochEvent) :
    Quiet events ∨ ∃ after owner epoch before,
      events = after ++ EpochEvent.entered owner epoch :: before ∧ Quiet after := by
  induction events with
  | nil => exact .inl fun _ _ mem => absurd mem List.not_mem_nil
  | cons event events ih =>
    cases event with
    | entered owner epoch =>
      refine .inr ⟨[], owner, epoch, events, rfl, ?_⟩
      exact fun _ _ mem => absurd mem List.not_mem_nil
    | _ =>
      rcases ih with quiet | ⟨after, owner, epoch, before, is, quiet⟩
      · refine .inl ?_
        intro owner epoch mem
        rcases List.mem_cons.mp mem with is | mem
        · exact EpochEvent.noConfusion is
        · exact quiet owner epoch mem
      · refine .inr ⟨_ :: after, owner, epoch, before, by rw [is]; rfl, ?_⟩
        intro owner epoch mem
        rcases List.mem_cons.mp mem with is | mem
        · exact EpochEvent.noConfusion is
        · exact quiet owner epoch mem

/-- What every reachable story keeps while the epoch can advance. -/
structure Kept (t : EpochStory) : Prop where
  observed : t.epoch.observed ≤ t.epoch.epoch
  lastForeign : t.epoch.lastForeign ≤ t.epoch.epoch
  last : t.epoch.exhausted = false → ∀ after owner epoch before,
    t.events = after ++ EpochEvent.entered owner epoch :: before → Quiet after →
      owner = t.epoch.owner ∧ epoch = t.epoch.epoch
  settled : t.epoch.touched = false → ∀ after owner epoch before,
    t.events = after ++ EpochEvent.entered owner epoch :: before → Quiet after →
      ∃ job, owner = some job ∧ Settles job epoch after
  foreign : t.epoch.exhausted = false → ∀ after epoch before,
    t.events = after ++ EpochEvent.entered none epoch :: before →
      epoch ≤ t.epoch.lastForeign ∧ (epoch ≤ t.epoch.observed → Reads epoch after)

theorem start_kept : start.Kept where
  observed := Nat.le_refl _
  lastForeign := Nat.le_refl _
  last _ after _ _ _ is := by simp only [start, List.nil_eq, List.append_eq_nil_iff,
    reduceCtorEq, and_false] at is
  settled _ after _ _ _ is := by simp only [start, List.nil_eq, List.append_eq_nil_iff,
    reduceCtorEq, and_false] at is
  foreign _ after _ _ is := by simp only [start, List.nil_eq, List.append_eq_nil_iff,
    reduceCtorEq, and_false] at is

namespace Kept

variable {t : EpochStory}

variable (kept : t.Kept)

include kept

theorem record (owner : Option DeckJobId) : (t.step (.record owner)).Kept := by
  rcases t.epoch.record_cases owner with ⟨observed, owned, foreign, moved⟩
  have below : t.epoch.observed ≤ (t.epoch.record owner).epoch := by
    have before := kept.observed
    omega
  have rises : t.epoch.epoch ≤ (t.epoch.record owner).epoch := by omega
  -- an epoch that can still advance moved by one
  have advances : (t.epoch.record owner).exhausted = false →
      t.epoch.exhausted = false ∧ (t.epoch.record owner).epoch = t.epoch.epoch + 1 := by
    intro fresh
    rcases moved with ⟨next, same⟩ | ⟨_, exhausted⟩
    · exact ⟨same.symm.trans fresh, next⟩
    · rw [exhausted] at fresh
      cases fresh
  refine ⟨?_, ?_, ?_, ?_, ?_⟩
  · simp only [step, observed]
    exact below
  · simp only [step, foreign]
    split
    · exact Nat.le_refl _
    · exact Nat.le_trans kept.lastForeign rises
  · intro fresh after other epoch before is quiet
    cases after with
    | nil =>
      rw [step, List.nil_append, List.cons.injEq, EpochEvent.entered.injEq] at is
      exact ⟨is.1.1.symm.trans owned.symm, is.1.2.symm⟩
    | cons event after =>
      simp only [step, List.cons_append, List.cons.injEq] at is
      exact absurd (is.1 ▸ List.mem_cons_self) (quiet owner (t.epoch.record owner).epoch)
  · intro untouched
    rw [InputEpoch.touched_eq_false] at untouched
    have next := (advances untouched.1).2
    have same := untouched.2
    simp only [step] at same
    have before := kept.observed
    omega
  · intro fresh after epoch before is
    simp only [step] at fresh is ⊢
    rcases advances fresh with ⟨wasFresh, next⟩
    cases after with
    | nil =>
      rcases is with ⟨⟨rfl, rfl⟩, _⟩
      refine ⟨Nat.le_of_eq foreign.symm, ?_⟩
      have before := kept.observed
      omega
    | cons event after =>
      rw [List.cons_append, List.cons.injEq] at is
      rcases kept.foreign wasFresh after epoch before is.2 with ⟨older, reads⟩
      refine ⟨?_, ?_⟩
      · rw [foreign]
        split
        · have last := kept.lastForeign
          omega
        · exact older
      · rw [observed]
        exact fun reached => (reads reached).cons event

theorem settle {event : EpochEvent} {job : DeckJobId}
    (plain : ∀ owner epoch, event ≠ .entered owner epoch) (fresh : t.epoch.exhausted = false)
    (owner : t.epoch.owner = some job) (settles : Settles job t.epoch.epoch [event])
    (reads : ∀ after epoch before, t.events = after ++ EpochEvent.entered none epoch :: before →
      Reads epoch (event :: after)) :
    Kept { epoch := { t.epoch with observed := t.epoch.epoch }, events := event :: t.events } := by
  -- the event is no op, so the ops before it are the same
  have older : ∀ after other epoch before,
      event :: t.events = after ++ EpochEvent.entered other epoch :: before →
      ∃ after', after = event :: after' ∧
        t.events = after' ++ EpochEvent.entered other epoch :: before := by
    intro after other epoch before is
    cases after with
    | nil =>
      rw [List.nil_append, List.cons.injEq] at is
      exact absurd is.1 (plain other epoch)
    | cons first after =>
      rw [List.cons_append, List.cons.injEq] at is
      exact ⟨after, by rw [is.1], is.2⟩
  refine ⟨Nat.le_refl _, kept.lastForeign, ?_, ?_, ?_⟩
  · intro _ after other epoch before is quiet
    rcases older after other epoch before is with ⟨after', rfl, was⟩
    exact kept.last fresh after' other epoch before was quiet.of_cons
  · intro _ after other epoch before is quiet
    rcases older after other epoch before is with ⟨after', rfl, was⟩
    rcases kept.last fresh after' other epoch before was quiet.of_cons with ⟨rfl, rfl⟩
    refine ⟨job, owner, ?_⟩
    rcases settles with ⟨obs, mem, rest⟩ | ⟨admittedAt, observed, lastForeign, mem, rest⟩
    · refine .inl ⟨obs, ?_, rest⟩
      rw [List.mem_singleton.mp mem]
      exact List.mem_cons_self
    · refine .inr ⟨admittedAt, observed, lastForeign, ?_, rest⟩
      rw [List.mem_singleton.mp mem]
      exact List.mem_cons_self
  · intro _ after epoch before is
    rcases older after none epoch before is with ⟨after', rfl, was⟩
    exact ⟨(kept.foreign fresh after' epoch before was).1, fun _ => reads after' epoch before was⟩

theorem apply (obs : Observation) : (t.step (.apply obs)).Kept := by
  simp only [step]
  rcases t.epoch.apply_cases obs with
    ⟨refused, same⟩ | ⟨applied, moved, fresh, last, owner, foreign, empty, retired⟩
  · rw [refused, same]
    exact kept
  · rw [applied, moved]
    refine kept.settle (fun _ _ => EpochEvent.noConfusion) fresh owner ?_ ?_
    · exact .inl ⟨obs, List.mem_singleton_self _, rfl, empty, retired, last⟩
    · intro after epoch before is
      refine ⟨obs, List.mem_cons_self, ?_, ?_⟩
      · exact Nat.le_trans (kept.foreign fresh after epoch before is).1 foreign
      · -- the probe's byte is the last op, and the foreign op is not
        rcases quiet_or_last after with quiet | ⟨latest, other, moved, rest, shape, quiet⟩
        · have absent := (kept.last fresh after none epoch before is quiet).1
          rw [owner] at absent
          cases absent
        · have whole : t.events = latest ++ EpochEvent.entered other moved ::
              (rest ++ EpochEvent.entered none epoch :: before) := by
            rw [is, shape, List.append_assoc, List.cons_append]
          rcases kept.last fresh latest other moved _ whole quiet with ⟨isOwner, isLast⟩
          rw [shape, last, ← owner, ← isOwner, ← isLast]
          exact List.mem_cons_of_mem _ List.mem_append_cons_self

theorem reconcileRing (ring : DeckJobId) (admittedAt : ℕ) :
    (t.step (.reconcileRing ring admittedAt)).Kept := by
  simp only [step]
  rcases t.epoch.reconcileRing_cases ring admittedAt with
    ⟨refused, same⟩ | ⟨applied, moved, fresh, owner, foreign, observed⟩
  · rw [refused, same]
    exact kept
  · rw [applied, moved]
    refine kept.settle (fun _ _ => EpochEvent.noConfusion) fresh owner ?_ ?_
    · exact .inr ⟨admittedAt, _, _, List.mem_singleton_self _, observed, foreign⟩
    · intro after epoch before is
      rcases kept.foreign fresh after epoch before is with ⟨older, reads⟩
      refine (reads ?_).cons _
      rw [observed]
      exact Nat.le_trans older foreign

theorem step (op : EpochOp) : (t.step op).Kept := by
  cases op with
  | record owner => exact kept.record owner
  | apply obs => exact kept.apply obs
  | reconcileRing ring admittedAt => exact kept.reconcileRing ring admittedAt

end Kept

theorem run_kept (ops : List EpochOp) {t : EpochStory} (kept : t.Kept) : (ops.foldl step t).Kept :=
  Runs.run_keeps_always Kept (fun _ op kept => kept.step op) kept

theorem exhausted_step {t : EpochStory} (exhausted : t.epoch.exhausted) (op : EpochOp) :
    (t.step op).epoch.exhausted = true ∧ t.epoch.touched = true ∧
    (∀ obs, (t.epoch.apply obs).1 = false) ∧
    ∀ ring admittedAt, (t.epoch.reconcileRing ring admittedAt).1 = false := by
  have applies : ∀ obs, (t.epoch.apply obs).1 = false := by
    intro obs
    simp only [InputEpoch.apply, exhausted, Bool.not_true, Bool.false_and]
  have reconciles : ∀ ring admittedAt, (t.epoch.reconcileRing ring admittedAt).1 = false := by
    intro ring admittedAt
    simp only [InputEpoch.reconcileRing, exhausted, Bool.not_true, Bool.false_and]
  refine ⟨?_, ?_, applies, reconciles⟩
  · cases op with
    | record owner =>
      rcases t.epoch.record_cases owner with ⟨_, _, _, ⟨_, same⟩ | ⟨_, set⟩⟩
      · exact same.trans exhausted
      · exact set
    | apply obs =>
      rcases t.epoch.apply_cases obs with ⟨_, same⟩ | ⟨_, _, fresh, _⟩
      · simp only [step, same, exhausted]
      · rw [exhausted] at fresh
        cases fresh
    | reconcileRing ring admittedAt =>
      rcases t.epoch.reconcileRing_cases ring admittedAt with ⟨_, same⟩ | ⟨_, _, fresh, _⟩
      · simp only [step, same, exhausted]
      · rw [exhausted] at fresh
        cases fresh
  · simp only [InputEpoch.touched, exhausted, Bool.true_or]

theorem Kept.evidence {t : EpochStory} (kept : t.Kept) (untouched : t.epoch.touched = false) :
    (Quiet t.events ∨ ∃ after job epoch before,
      t.events = after ++ EpochEvent.entered (some job) epoch :: before ∧ Quiet after ∧
      Settles job epoch after) ∧
    ∀ after epoch before, t.events = after ++ EpochEvent.entered none epoch :: before →
      Reads epoch after := by
  have observed := (InputEpoch.touched_eq_false.mp untouched)
  refine ⟨?_, ?_⟩
  · rcases quiet_or_last t.events with quiet | ⟨after, owner, epoch, before, is, quiet⟩
    · exact .inl quiet
    · rcases kept.settled untouched after owner epoch before is quiet with ⟨job, rfl, settles⟩
      exact .inr ⟨after, job, epoch, before, is, quiet, settles⟩
  · intro after epoch before is
    rcases kept.foreign observed.1 after epoch before is with ⟨older, reads⟩
    apply reads
    rw [← observed.2]
    exact Nat.le_trans older kept.lastForeign

end EpochStory

end AgentDeck.Probe
