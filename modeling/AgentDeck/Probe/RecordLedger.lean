import AgentDeck.Probe.RecordSteps

/-!
# What a step of the records makes of them

The operations of `Records` as one step, the invariant that ties the writer scope, the stop and the
quiet clock to the records, and the effect of a step: what it makes of each record, which records
it takes away, and what it does to the count of liabilities.
-/

namespace AgentDeck.Probe

inductive RecordsOp
  | observe (obs : Sighting) (now : Instant)
  | refusedIdentity (generation : ℕ) (channel : Channel) (decision : Option Decision)
      (claim : Option Claim) (now : Instant)
  | report (generation : ℕ) (key : RecordKey) (report : Report) (now : Instant)
  | frontier (generation : ℕ) (key : RecordKey) (outcome : FrontierOutcome)
  | exit (generation : ℕ) (key : RecordKey) (time now : Instant)
  | drain (generation : ℕ) (key : RecordKey) (now : Instant) (complete : Bool)
  | matchSegment (generation : ℕ) (key : RecordKey) (seg : ℕ)
  | complete (generation : ℕ) (key : RecordKey) (route : Route) (time now : Instant)
  | prune (generation : ℕ) (key : RecordKey) (markersDeleted : Bool) (now : Instant)
  | raise (generation : ℕ) (stamp : Instant)
  | lower (generation : ℕ) (stamp : Instant)

structure Answer where
  raised : ℕ
  lowered : ℕ
  rescan : Bool

def Answer.nothing : Answer := ⟨0, 0, false⟩

def Recorded.answer : Except Refusal Recorded → Answer
  | .ok (.kept _ rescan) => ⟨0, 0, rescan⟩
  | _ => .nothing

def Drained.answer : Except Refusal Drained → Answer
  | .ok drained => ⟨0, 0, drained.rescan⟩
  | .error _ => .nothing

def raiseAnswer : Except Refusal ℕ → Answer
  | .ok _ => ⟨1, 0, false⟩
  | .error _ => .nothing

def lowerAnswer : Except Refusal ℕ → Answer
  | .ok _ => ⟨0, 1, false⟩
  | .error _ => .nothing

def RecordsOp.run (s : Records) (fifo : HazardFifo) : RecordsOp → Answer × Records × HazardFifo
  | .observe obs now =>
    let (answer, s, fifo) := s.observe fifo obs now
    (Recorded.answer answer, s, fifo)
  | .refusedIdentity generation channel decision claim now =>
    (.nothing, (s.refusedIdentity generation channel decision claim now).2, fifo)
  | .report generation key sent now => (.nothing, (s.report fifo generation key sent now).2)
  | .frontier generation key outcome => (.nothing, (s.frontier generation key outcome).2, fifo)
  | .exit generation key time now => (.nothing, (s.exit fifo generation key time now).2)
  | .drain generation key now whole =>
    let (answer, s, fifo) := s.drain fifo generation key now whole
    (Drained.answer answer, s, fifo)
  | .matchSegment generation key seg => (.nothing, (s.matchSegment generation key seg).2, fifo)
  | .complete generation key route time now =>
    (.nothing, (s.complete fifo generation key route time now).2)
  | .prune generation key markersDeleted now =>
    (.nothing, (s.prune fifo generation key markersDeleted now).2)
  | .raise generation stamp =>
    let (answer, s) := s.raise generation stamp
    (raiseAnswer answer, s, fifo)
  | .lower generation stamp =>
    let (answer, s) := s.lower generation stamp
    (lowerAnswer answer, s, fifo)

/-- A record counts as undecided until a decision applied or its exit was drained, and until then
its settlement is open. -/
structure Flagged (r : Record) : Prop where
  undecided : r.undecided = (r.decision.isNone && !r.drained)
  opened : r.settlement = .opened ↔ r.undecided = true

structure Listed (s : Records) : Prop where
  keys : (s.records.map Record.key).Nodup
  flagged : ∀ r ∈ s.records, Flagged r
  undecided : s.scope.undecided = s.records.countP Record.undecided

/-- The pending episode, the stop and the quiet clock follow the scope and the records. -/
structure Booked (s : Records) (fifo : HazardFifo) : Prop where
  pendingSince : s.pendingSince.isSome = decide (s.scope.state = .pending)
  stopped : s.stopped.isSome = s.scope.cause.isSome
  paused : fifo.paused = s.anyPending

/-- A step that may consume a liability for a record: its first decision, armed, or a complete
drain of an undecided record whose interval the history proves. -/
structure Consumes (s : Records) (op : RecordsOp) (r r' : Record) : Prop where
  owned : r'.isOwned = true
  count : 1 ≤ s.count
  undecided : r.decision = none
  undrained : r.drained = false
  how : (∃ obs now, op = .observe obs now ∧ obs.key = r.key ∧ obs.decision = some .armed) ∨
    ∃ generation now, op = .drain generation r.key now true ∧
      ∃ exit ∈ r.exitObserved, s.history.proves r.birthFloor exit = true

/-- How a pending record's completion may change. -/
def Completes (s s' : Records) (r' : Record) : Prop :=
  match r'.completion with
  | .pending => False
  | .complete _ => s.scope.state = .closed ∧ s'.scope.state = .closed
  | .subsumed key => ∃ exit ∈ r'.exitObserved, r'.editorEnded = true ∧
      ∃ other ∈ s'.records, other.key = key ∧ other.key ≠ r'.key ∧ other.attribution = .owned ∧
        exit < other.birthFloor
  | .notRequired => ∃ reason, r'.attribution = .notOwned reason

/-- What a step may make of a record. -/
structure Becomes (s : Records) (op : RecordsOp) (s' : Records) (r r' : Record) : Prop where
  key : r'.key = r.key
  settled : r.settlement ≠ .opened → r'.settlement = r.settlement
  drained : r.drained = true → r'.drained = true ∧ r'.decision = r.decision ∧
    r'.settlement = r.settlement ∧ r'.drainedReport = r.drainedReport
  consumed : r'.settlement = .consumed → r.settlement = .consumed ∨ Consumes s op r r'
  completion : r'.completion = r.completion ∨ r.completion = .pending ∧ Completes s s' r'

def newlyConsumed (before after : List Record) : ℕ :=
  after.countP fun r' => decide (r'.settlement = .consumed) &&
    !before.any fun r => decide (r.key = r'.key) && decide (r.settlement = .consumed)

/-- A record as an observation of a new key first makes it. -/
def Joins (s : Records) (op : RecordsOp) (r : Record) : Prop :=
  ∃ obs now, op = .observe obs now ∧ s.get obs.key = none ∧ r = .blank obs

structure Reworks (s : Records) (op : RecordsOp) (answer : Answer) (s' : Records) : Prop where
  listed : Listed s'
  origin : ∀ r' ∈ s'.records, ∃ r, (r ∈ s.records ∨ Joins s op r) ∧ Becomes s op s' r r'
  fate : ∀ r ∈ s.records, (∃ r' ∈ s'.records, r'.key = r.key) ∨
    (∃ generation now, op = .prune generation r.key true now) ∧ r.settlement ≠ .opened ∧
      r.drained = true ∧ r.completion ≠ .pending
  count : s'.count + answer.lowered + newlyConsumed s.records s'.records =
    s.count + answer.raised

/-- What a step does to the writer scope and the books that follow it. -/
structure Rebooks (s : Records) (answer : Answer) (s' : Records) (fifo' : HazardFifo) : Prop where
  booked : Booked s' fifo'
  cause : ∀ cause ∈ s.scope.cause, ∃ cause' ∈ s'.scope.cause, cause ≤ cause'
  stopped : ∀ stop ∈ s.stopped, ∃ stop' ∈ s'.stopped, stop'.cause = stop.cause ∧
    stop'.source = stop.source
  first : s.scope.cause = none → ∀ cause ∈ s'.scope.cause, ∃ stop ∈ s'.stopped, stop.cause = cause
  rescan : answer.rescan =
    (decide (s.scope.state = .pending) && decide (s'.scope.state = .closed))

/-- What an operation makes of the one record it is about, before the pop and the subsumption. -/
structure Turns (s : Records) (op : RecordsOp) (s' : Records) (r r' : Record) : Prop
    extends Becomes s op s' r r' where
  flagged : Flagged r → Flagged r'
  undecided : r'.undecided = true → r.undecided = true

namespace Becomes

variable {s s' : Records} {op : RecordsOp} {r r₁ r' : Record} {touched : List Record}

theorem refl (r : Record) : Becomes s op s' r r where
  key := rfl
  settled _ := rfl
  drained is := ⟨is, rfl, rfl, rfl⟩
  consumed is := .inl is
  completion := .inl rfl

theorem completes_finished (completes : Completes s s' r₁) (finishes : Finishes touched r₁ r')
    (same : r'.completion = r₁.completion) : Completes s s' r' := by
  have is : r' = { r₁ with hazardPop := r'.hazardPop } := by
    rw [← same]
    exact finishes.same
  rw [is]
  exact completes

theorem completes_subsumed (all : List.Forall₂ (Finishes touched) touched s'.records)
    (finishes : Finishes touched r₁ r') {exit : Instant} (observed : exit ∈ r₁.exitObserved)
    (ended : r₁.editorEnded) {other : Record} (mem : other ∈ touched)
    (subsumes : Records.subsumes r₁ exit other) (is : r'.completion = .subsumed other.key) :
    Completes s s' r' := by
  simp only [Records.subsumes, Bool.and_eq_true, decide_eq_true_eq] at subsumes
  rcases List.mem_iff_get.mp mem with ⟨place, rfl⟩
  have within : place.1 < s'.records.length := by
    rw [← all.length_eq]
    exact place.2
  have later := all.get place.2 within
  have sameEnd : r'.editorEnded = r₁.editorEnded := by
    rw [finishes.same]
    rfl
  simp only [Completes, is]
  refine ⟨exit, ?_, ?_, s'.records.get ⟨place.1, within⟩, List.get_mem _ _, later.key, ?_, ?_, ?_⟩
  · rw [finishes.exitObserved]
    exact observed
  · rw [sameEnd]
    exact ended
  · rw [later.key, finishes.key]
    exact subsumes.1.1
  · rw [later.attribution]
    exact subsumes.1.2
  · rw [later.birthFloor]
    exact subsumes.2

theorem finish (becomes : Becomes s op s' r r₁) (finishes : Finishes touched r₁ r')
    (all : List.Forall₂ (Finishes touched) touched s'.records) : Becomes s op s' r r' where
  key := finishes.key.trans becomes.key
  settled is := finishes.settlement.trans (becomes.settled is)
  drained is := by
    rcases becomes.drained is with ⟨drained, decision, settlement, report⟩
    refine ⟨finishes.drained.trans drained, finishes.decision.trans decision, ?_, ?_⟩
    · exact finishes.settlement.trans settlement
    · exact finishes.drainedReport.trans report
  consumed is := by
    rcases becomes.consumed (finishes.settlement.symm.trans is) with before | consumes
    · exact .inl before
    · refine .inr { consumes with owned := ?_ }
      have owned := consumes.owned
      simp only [Record.isOwned] at owned ⊢
      rw [finishes.attribution, finishes.claim]
      exact owned
  completion := by
    rcases finishes.completion with same | ⟨waits, exit, observed, ended, other, mem, subs, is⟩
    · rcases becomes.completion with still | ⟨pending, completes⟩
      · exact .inl (same.trans still)
      · exact .inr ⟨pending, completes_finished completes finishes same⟩
    · refine .inr ⟨?_, completes_subsumed all finishes observed ended mem subs is⟩
      rcases becomes.completion with still | ⟨pending, _⟩
      · exact still.symm.trans waits
      · exact pending

end Becomes

variable {records : List Record} {r : Record}

theorem Finishes.flagged {r' : Record} (finishes : Finishes records r r') (flagged : Flagged r) :
    Flagged r' := by
  refine ⟨?_, ?_⟩
  · rw [finishes.undecided, finishes.decision, finishes.drained]
    exact flagged.undecided
  · rw [finishes.settlement, finishes.undecided]
    exact flagged.opened

variable {touched later : List Record}

theorem Finishes.countP (holds : Record → Bool)
    (same : ∀ r r', Finishes records r r' → holds r' = holds r)
    (all : List.Forall₂ (Finishes records) touched later) :
    later.countP holds = touched.countP holds := by
  induction all with
  | nil => rfl
  | cons finishes _ ih =>
    rw [List.countP_cons, List.countP_cons, ih, same _ _ finishes]

theorem Finishes.map_key (all : List.Forall₂ (Finishes records) touched later) :
    later.map Record.key = touched.map Record.key := by
  induction all with
  | nil => rfl
  | cons finishes _ ih => rw [List.map_cons, List.map_cons, ih, finishes.key]

theorem Finishes.came (all : List.Forall₂ (Finishes records) touched later) {r' : Record}
    (mem : r' ∈ later) : ∃ r ∈ touched, Finishes records r r' := by
  rcases List.mem_iff_get.mp mem with ⟨place, rfl⟩
  have within : place.1 < touched.length := by
    rw [all.length_eq]
    exact place.2
  exact ⟨touched.get ⟨place.1, within⟩, List.get_mem _ _, all.get within place.2⟩

theorem eq_of_key (keys : (records.map Record.key).Nodup) {other : Record} (mem : r ∈ records)
    (there : other ∈ records) (same : other.key = r.key) : other = r :=
  List.inj_on_of_nodup_map keys there mem same

theorem newlyConsumed_touch {s : Records} {op : RecordsOp} {base pre post : List Record}
    {r₁ : Record} (split : base = pre ++ r :: post) (keys : (base.map Record.key).Nodup)
    (within : ∀ o ∈ s.records, o ∈ base) (comes : ∀ o ∈ base, o ∈ s.records ∨ Joins s op o)
    (key : r₁.key = r.key)
    (all : List.Forall₂ (Finishes (pre ++ r₁ :: post)) (pre ++ r₁ :: post) later) :
    newlyConsumed s.records later =
      (decide (r₁.settlement = .consumed) && !decide (r.settlement = .consumed)).toNat := by
  have mem : r ∈ base := by
    rw [split]
    exact List.mem_append_right _ List.mem_cons_self
  have known : ∀ o ∈ base, o.settlement = .consumed → o ∈ s.records := by
    intro o there consumed
    rcases comes o there with listed | ⟨obs, now, _, _, rfl⟩
    · exact listed
    · exact Settlement.noConfusion consumed
  unfold newlyConsumed
  rw [Finishes.countP _ _ all]
  · have others : ∀ o ∈ base, (decide (o.settlement = .consumed) &&
        !s.records.any fun r => decide (r.key = o.key) && decide (r.settlement = .consumed)) =
          false := by
      intro o there
      rw [Bool.and_eq_false_iff]
      by_cases consumed : o.settlement = .consumed
      · refine .inr ?_
        rw [Bool.not_eq_false', List.any_eq_true]
        refine ⟨o, known o there consumed, ?_⟩
        simp only [consumed, decide_true, Bool.and_self]
      · exact .inl (decide_eq_false consumed)
    have here : (s.records.any fun r' => decide (r'.key = r₁.key) &&
        decide (r'.settlement = .consumed)) = decide (r.settlement = .consumed) := by
      rw [Bool.eq_iff_iff, List.any_eq_true, decide_eq_true_eq]
      constructor
      · rintro ⟨o, listed, is⟩
        rw [Bool.and_eq_true, decide_eq_true_eq, decide_eq_true_eq] at is
        have same := eq_of_key keys mem (within o listed) (is.1.trans key)
        exact same ▸ is.2
      · intro consumed
        refine ⟨r, known r mem consumed, ?_⟩
        simp only [key, consumed, decide_true, Bool.and_self]
    have absent : ∀ part : List Record, (∀ o ∈ part, o ∈ base) → part.countP (fun r' =>
        decide (r'.settlement = .consumed) && !s.records.any fun r =>
          decide (r.key = r'.key) && decide (r.settlement = .consumed)) = 0 := by
      intro part sub
      rw [List.countP_eq_zero]
      intro o there
      rw [others o (sub o there)]
      exact Bool.false_ne_true
    rw [List.countP_append, List.countP_cons, absent pre, absent post, here]
    · cases (decide (r₁.settlement = .consumed) && !decide (r.settlement = .consumed)) with
      | true => rfl
      | false => rfl
    · intro o there
      rw [split]
      exact List.mem_append_right _ (List.mem_cons_of_mem _ there)
    · intro o there
      rw [split]
      exact List.mem_append_left _ there
  · intro o o' finishes
    simp only [finishes.settlement, finishes.key]

theorem Reworks.of_touch {s : Records} {op : RecordsOp} {answer : Answer} {s' : Records}
    {base pre post : List Record} {r₁ : Record} (split : base = pre ++ r :: post)
    (keys : (base.map Record.key).Nodup) (flagged : ∀ o ∈ base, Flagged o)
    (within : ∀ o ∈ s.records, o ∈ base) (comes : ∀ o ∈ base, o ∈ s.records ∨ Joins s op o)
    (turns : Turns s op s' r r₁)
    (all : List.Forall₂ (Finishes (pre ++ r₁ :: post)) (pre ++ r₁ :: post) s'.records)
    (undecided : s'.scope.undecided + (r.undecided && !r₁.undecided).toNat =
      base.countP Record.undecided)
    (count : s'.count + answer.lowered +
      (decide (r₁.settlement = .consumed) && !decide (r.settlement = .consumed)).toNat =
        s.count + answer.raised) : Reworks s op answer s' := by
  have sameKeys : s'.records.map Record.key = base.map Record.key := by
    rw [Finishes.map_key all, split]
    simp only [List.map_append, List.map_cons, turns.key]
  have mem : r ∈ base := by
    rw [split]
    exact List.mem_append_right _ List.mem_cons_self
  have touched : ∀ o ∈ pre ++ r₁ :: post, o = r₁ ∨ o ∈ base := by
    intro o there
    rw [split]
    simp only [List.mem_append, List.mem_cons] at there ⊢
    rcases there with before | same | after
    · exact .inr (.inl before)
    · exact .inl same
    · exact .inr (.inr (.inr after))
  refine ⟨⟨?_, ?_, ?_⟩, ?_, ?_, ?_⟩
  · rw [sameKeys]
    exact keys
  · intro o' there
    rcases Finishes.came all there with ⟨o, mem', finishes⟩
    refine finishes.flagged ?_
    rcases touched o mem' with rfl | listed
    · exact turns.flagged (flagged r mem)
    · exact flagged o listed
  · rw [Finishes.countP Record.undecided (fun _ _ finishes => finishes.undecided) all]
    rw [split] at undecided
    have fewer := turns.undecided
    simp only [List.countP_append, List.countP_cons] at undecided ⊢
    cases was : r.undecided with
    | true =>
      cases is : r₁.undecided with
      | true =>
        simp only [was, is, Bool.not_true, Bool.and_false, Bool.toNat_false] at undecided ⊢
        omega
      | false =>
        simp only [was, is, Bool.not_false, Bool.and_true, Bool.toNat_true, if_true]
          at undecided ⊢
        simp only [Bool.false_eq_true, if_false]
        omega
    | false =>
      have is : r₁.undecided = false := by
        rw [Bool.eq_false_iff]
        intro still
        exact Bool.false_ne_true (was.symm.trans (fewer still))
      simp only [was, is, Bool.false_and, Bool.toNat_false] at undecided ⊢
      omega
  · intro o' there
    rcases Finishes.came all there with ⟨o, mem', finishes⟩
    rcases touched o mem' with rfl | listed
    · exact ⟨r, comes r mem, turns.toBecomes.finish finishes all⟩
    · exact ⟨o, comes o listed, (Becomes.refl o).finish finishes all⟩
  · intro o listed
    have there : o.key ∈ s'.records.map Record.key := by
      rw [sameKeys]
      exact List.mem_map_of_mem (within o listed)
    exact .inl (List.mem_map.mp there)
  · rw [newlyConsumed_touch split keys within comes turns.key all]
    exact count

end AgentDeck.Probe
