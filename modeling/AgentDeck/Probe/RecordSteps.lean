import AgentDeck.Probe.Record
import Mathlib.Data.List.Nodup

/-!
# What a step of the records changes

Each step changes at most one record, and then lets pending records be subsumed, books the move of
the writer scope and feeds the quiet clock. The lemmas here say of each of these parts what it
changes and what it leaves alone.
-/

namespace AgentDeck.Probe

namespace CountHistory

theorem count_set (h : CountHistory) (stamp : Instant) (count : ℕ) :
    (h.set stamp count).count = count := by
  simp only [set, CountHistory.count, List.getLast?_concat]

theorem count_consume (consumed : Bool) (h : CountHistory) (stamp : Instant) (count : ℕ) :
    (if consumed then h.set stamp count else h).count = if consumed then count else h.count := by
  cases consumed with
  | true => exact count_set h stamp count
  | false => rfl

theorem count_dropFront (h : CountHistory) : h.dropFront.count = h.count := by
  unfold dropFront
  split
  · rfl
  · rename_i stamp count rest is
    simp only [CountHistory.count, is]
    cases rest with
    | nil => rfl
    | cons next rest => simp only [List.getLast?_cons, Option.getD_some]

theorem count_dropFronts (dropped : ℕ) (h : CountHistory) :
    (dropFront^[dropped] h).count = h.count := by
  induction dropped generalizing h with
  | zero => rfl
  | succ dropped ih => rw [Function.iterate_succ_apply, ih, count_dropFront]

theorem count_compact (h : CountHistory) (keepFrom : Option Instant) :
    (h.compact keepFrom).count = h.count := by
  cases keepFrom with
  | none => exact count_dropFronts _ h
  | some first => exact count_dropFronts _ h

end CountHistory

/-- What a pop and a subsumption may change of a record, next to `records`. -/
structure Finishes (records : List Record) (r r' : Record) : Prop where
  same : r' = { r with completion := r'.completion, hazardPop := r'.hazardPop }
  completion : r'.completion = r.completion ∨
    r.completion = .pending ∧ ∃ exit ∈ r.exitObserved, r.editorEnded = true ∧
      ∃ other ∈ records, Records.subsumes r exit other = true ∧
        r'.completion = .subsumed other.key

namespace Finishes

variable {records : List Record} {r r' : Record}

theorem refl (r : Record) : Finishes records r r := ⟨rfl, .inl rfl⟩

variable (finishes : Finishes records r r')

include finishes

theorem key : r'.key = r.key := by
  rw [finishes.same]

theorem attribution : r'.attribution = r.attribution := by
  rw [finishes.same]

theorem claim : r'.claim = r.claim := by
  rw [finishes.same]

theorem decision : r'.decision = r.decision := by
  rw [finishes.same]

theorem settlement : r'.settlement = r.settlement := by
  rw [finishes.same]

theorem drained : r'.drained = r.drained := by
  rw [finishes.same]

theorem drainedReport : r'.drainedReport = r.drainedReport := by
  rw [finishes.same]

theorem undecided : r'.undecided = r.undecided := by
  rw [finishes.same]

theorem birthFloor : r'.birthFloor = r.birthFloor := by
  rw [finishes.same]

theorem exitObserved : r'.exitObserved = r.exitObserved := by
  rw [finishes.same]

end Finishes

namespace Records

theorem get_split {s : Records} {key : RecordKey} {r : Record} (found : s.get key = some r) :
    r.key = key ∧ ∃ pre post, s.records = pre ++ r :: post ∧ (∀ p ∈ pre, p.key ≠ key) ∧
      ∀ f, change key f s.records = pre ++ f r :: post := by
  have is : r.key = key := by
    have := List.find?_some found
    exact of_decide_eq_true this
  refine ⟨is, ?_⟩
  rw [get, List.find?_eq_some_iff_append] at found
  rcases found with ⟨_, pre, post, split, others⟩
  have before : ∀ p ∈ pre, p.key ≠ key := by
    intro p mem same
    have := others p mem
    simp only [same, decide_true, Bool.not_true, Bool.false_eq_true] at this
  refine ⟨pre, post, split, before, ?_⟩
  intro f
  rw [split]
  clear split others
  induction pre with
  | nil => rw [List.nil_append, change, if_pos is, List.nil_append]
  | cons p pre ih =>
    rw [List.forall_mem_cons] at before
    rw [List.cons_append, change, if_neg before.1, ih before.2]
    rfl

theorem get_none {s : Records} {key : RecordKey} (missing : s.get key = none) :
    ∀ r ∈ s.records, r.key ≠ key := by
  intro r mem same
  have := List.find?_eq_none.mp missing r mem
  exact this (decide_eq_true same)

theorem subsume_finishes (records : List Record) :
    List.Forall₂ (Finishes records) records (records.map (subsumed records)) := by
  rw [List.forall₂_map_right_iff, List.forall₂_same]
  intro r mem
  unfold subsumed
  split
  · exact Finishes.refl r
  · rename_i exit observed
    split
    · exact Finishes.refl r
    · rename_i waits
      rw [not_or, not_not] at waits
      split
      · rename_i other found
        refine ⟨rfl, .inr ⟨waits.1, exit, observed, ?_, other, ?_, ?_, rfl⟩⟩
        · exact Bool.eq_true_of_not_eq_false waits.2
        · exact List.mem_of_find?_eq_some found
        · exact List.find?_some found
      · exact Finishes.refl r

end Records

namespace WriterScope

variable {scope : WriterScope}

theorem state_of_cause {cause : Cause} (set : scope.cause = some cause) :
    scope.state = .opened cause := by
  rw [state, set]

theorem state_of_zero (unset : scope.cause = none) (absent : scope.undecided = 0) :
    scope.state = .closed := by
  rw [state, unset, absent]

theorem state_of_pos (unset : scope.cause = none) (nonempty : scope.undecided ≠ 0) :
    scope.state = .pending := by
  rcases Nat.exists_eq_succ_of_ne_zero nonempty with ⟨fewer, is⟩
  rw [state, unset, is]

theorem isClosed_iff (scope : WriterScope) : scope.isClosed = true ↔ scope.state = .closed := by
  unfold isClosed state
  rcases scope with ⟨_ | cause, undecided⟩
  · cases undecided with
    | zero => simp only [Option.isNone_none, decide_true, Bool.and_self]
    | succ fewer =>
      simp only [decide_false, Bool.and_false, reduceCtorEq]
  · simp only [Option.isNone_some, Bool.false_and, reduceCtorEq]

end WriterScope

/-- The fields a step of the records reads, but for its records, scope and history. -/
structure SameFrame (s s' : Records) : Prop where
  generation : s'.generation = s.generation
  policy : s'.policy = s.policy
  retired : s'.retired = s.retired
  cap : s'.cap = s.cap

namespace Records

variable (s : Records)

theorem episode_spec (duration : Duration) (resolved : Resolution) :
    SameFrame s (s.episode duration resolved) ∧
      (s.episode duration resolved).records = s.records ∧
      (s.episode duration resolved).scope = s.scope ∧
      (s.episode duration resolved).history = s.history ∧
      (s.episode duration resolved).pendingSince = s.pendingSince ∧
      (s.episode duration resolved).stopped = s.stopped := by
  unfold episode
  split
  · exact ⟨⟨rfl, rfl, rfl, rfl⟩, rfl, rfl, rfl, rfl, rfl⟩
  · exact ⟨⟨rfl, rfl, rfl, rfl⟩, rfl, rfl, rfl, rfl, rfl⟩

/-- What a stop keeps: its cause and its source. -/
def SameStop : Option Stop → Option Stop → Prop
  | some stop, some stop' => stop'.cause = stop.cause ∧ stop'.source = stop.source
  | none, none => True
  | _, _ => False

theorem SameStop.refl (stop : Option Stop) : SameStop stop stop := by
  cases stop with
  | none => trivial
  | some stop => exact ⟨rfl, rfl⟩

theorem bookEpisode_spec (now : Instant) (resolved : Option Resolution) :
    SameFrame s (s.bookEpisode now resolved) ∧
      (s.bookEpisode now resolved).records = s.records ∧
      (s.bookEpisode now resolved).scope = s.scope ∧
      (s.bookEpisode now resolved).history = s.history ∧
      (s.bookEpisode now resolved).stopped = s.stopped ∧
      (s.bookEpisode now resolved).pendingSince.isSome = decide (s.scope.state = .pending) := by
  unfold bookEpisode
  split
  · rename_i is _
    exact ⟨⟨rfl, rfl, rfl, rfl⟩, rfl, rfl, rfl, rfl, by rw [is]; rfl⟩
  · rename_i cause since is _
    rcases episode_spec { s with pendingSince := none } (now - since)
      (resolved.getD (.opened cause)) with ⟨frame, records, scope, history, pending, stopped⟩
    refine ⟨⟨frame.1, frame.2, frame.3, frame.4⟩, records, scope, history, stopped, ?_⟩
    rw [pending, is]
    rfl
  · rename_i since is _
    rcases episode_spec { s with pendingSince := none } (now - since) (resolved.getD .retired) with
      ⟨frame, records, scope, history, pending, stopped⟩
    refine ⟨⟨frame.1, frame.2, frame.3, frame.4⟩, records, scope, history, stopped, ?_⟩
    rw [pending, is]
    rfl
  · rename_i before opened closed
    refine ⟨⟨rfl, rfl, rfl, rfl⟩, rfl, rfl, rfl, rfl, ?_⟩
    cases since : s.pendingSince with
    | none =>
      cases state : s.scope.state with
      | pending => exact absurd since (before state)
      | closed => rfl
      | opened cause => rfl
    | some time =>
      cases state : s.scope.state with
      | pending => rfl
      | closed => exact absurd since (closed time state)
      | opened cause => exact absurd since (opened cause time state)

/-- The first stop is booked when the scope is open and none was booked before. -/
structure Books (s s' : Records) (source : Option StopSource) : Prop where
  kept : ∀ stop, s.stopped = some stop → s'.stopped = some stop
  first : s.stopped = none → ∀ cause, s.scope.cause = some cause → ∀ made, source = some made →
    ∃ stop, s'.stopped = some stop ∧ stop.cause = cause ∧ stop.source = made
  none : s.stopped = none → s.scope.cause = none ∨ source = none → s'.stopped = none

theorem bookStop_spec (now : Instant) (source : Option StopSource) (record : Option RecordKey) :
    SameFrame s (s.bookStop now source record) ∧
      (s.bookStop now source record).records = s.records ∧
      (s.bookStop now source record).scope = s.scope ∧
      (s.bookStop now source record).history = s.history ∧
      (s.bookStop now source record).pendingSince = s.pendingSince ∧
      Books s (s.bookStop now source record) source := by
  unfold bookStop
  split
  · rename_i cause made opened stopped
    refine ⟨⟨rfl, rfl, rfl, rfl⟩, rfl, rfl, rfl, rfl, ?_, ?_, ?_⟩
    · intro stop is
      cases stopped.symm.trans is
    · intro _ cause' set made' is
      rw [WriterScope.state_of_cause set] at opened
      exact ⟨_, rfl, (ScopeState.opened.inj opened).symm, Option.some.inj is⟩
    · intro _ absent
      rcases absent with unset | none
      · cases undecided : s.scope.undecided with
        | zero =>
          rw [WriterScope.state_of_zero unset undecided] at opened
          exact ScopeState.noConfusion opened
        | succ fewer =>
          rw [WriterScope.state_of_pos unset (by omega)] at opened
          exact ScopeState.noConfusion opened
      · cases none
  · rename_i other
    refine ⟨⟨rfl, rfl, rfl, rfl⟩, rfl, rfl, rfl, rfl, fun _ is => is, ?_, fun none _ => none⟩
    intro stopped cause set made is
    exact absurd is (other cause made (WriterScope.state_of_cause set) stopped)

theorem transition_spec (before : ScopeState) (now : Instant) (resolved : Option Resolution)
    (source : Option StopSource) (record : Option RecordKey) :
    SameFrame s (s.transition before now resolved source record).2 ∧
      (s.transition before now resolved source record).2.records = s.records ∧
      (s.transition before now resolved source record).2.scope = s.scope ∧
      (s.transition before now resolved source record).2.history = s.history ∧
      (s.transition before now resolved source record).2.pendingSince.isSome =
        decide (s.scope.state = .pending) ∧
      Books s (s.transition before now resolved source record).2 source := by
  rcases s.bookEpisode_spec now resolved with
    ⟨frame, records, scope, history, stopped, pending⟩
  rcases (s.bookEpisode now resolved).bookStop_spec now source record with
    ⟨frame', records', scope', history', pending', books⟩
  refine ⟨⟨?_, ?_, ?_, ?_⟩, ?_, ?_, ?_, ?_, ?_, ?_, ?_⟩
  · exact frame'.generation.trans frame.generation
  · exact frame'.policy.trans frame.policy
  · exact frame'.retired.trans frame.retired
  · exact frame'.cap.trans frame.cap
  · exact records'.trans records
  · exact scope'.trans scope
  · exact history'.trans history
  · rw [← pending, ← pending']
    rfl
  · rw [← stopped]
    exact books.kept
  · rw [← stopped, ← scope]
    exact books.first
  · rw [← stopped, ← scope]
    exact books.none

theorem compact_count : s.compact.count = s.count :=
  s.history.count_compact _

theorem refreshStop_spec :
    SameFrame s s.refreshStop ∧ s.refreshStop.records = s.records ∧
      s.refreshStop.scope = s.scope ∧ s.refreshStop.history = s.history ∧
      s.refreshStop.pendingSince = s.pendingSince ∧ SameStop s.stopped s.refreshStop.stopped := by
  unfold refreshStop
  split
  · rename_i stop is
    split
    · refine ⟨⟨rfl, rfl, rfl, rfl⟩, rfl, rfl, rfl, rfl, ?_⟩
      rw [is]
      exact ⟨rfl, rfl⟩
    · exact ⟨⟨rfl, rfl, rfl, rfl⟩, rfl, rfl, rfl, rfl, SameStop.refl _⟩
  · exact ⟨⟨rfl, rfl, rfl, rfl⟩, rfl, rfl, rfl, rfl, SameStop.refl _⟩

end Records

theorem HazardFifo.recordsPending_paused (f : HazardFifo) (now : Instant) (pending : Bool) :
    (f.recordsPending now pending).paused = pending := by
  simp only [HazardFifo.recordsPending]
  split
  · rfl
  · rename_i same
    rw [not_not] at same
    exact same.symm

namespace Records

/-- The end of a step: the history is compacted and the quiet clock is fed. -/
structure Feeds (s s' : Records) (fifo' : HazardFifo) : Prop where
  frame : SameFrame s s'
  records : s'.records = s.records
  scope : s'.scope = s.scope
  count : s'.count = s.count
  pendingSince : s'.pendingSince = s.pendingSince
  stopped : SameStop s.stopped s'.stopped
  paused : fifo'.paused = s'.anyPending

theorem after_feeds (s : Records) (fifo : HazardFifo) (now : Instant) :
    Feeds s (s.after fifo now).1 (s.after fifo now).2 := by
  rcases s.compact.refreshStop_spec with ⟨frame, records, scope, history, pending, stopped⟩
  refine ⟨⟨frame.1, frame.2, frame.3, frame.4⟩, records, scope, ?_, pending, stopped, ?_⟩
  · rw [← s.compact_count]
    exact congrArg CountHistory.count history
  · exact fifo.recordsPending_paused now _

/-- A pop changes the receipt of a record and nothing else. -/
def Pops (r r' : Record) : Prop := ∃ receipt, r' = { r with hazardPop := receipt }

theorem change_pops (key : RecordKey) (receipt : HazardPop) (records : List Record) :
    List.Forall₂ Pops records (change key (fun r => { r with hazardPop := receipt }) records) := by
  induction records with
  | nil => exact .nil
  | cons r rest ih =>
    rw [change]
    split
    · exact .cons ⟨receipt, rfl⟩ (List.forall₂_same.mpr fun r _ => ⟨r.hazardPop, rfl⟩)
    · exact .cons ⟨r.hazardPop, rfl⟩ ih

theorem maybePop_spec (s : Records) (fifo : HazardFifo) (key : RecordKey) (now : Instant) :
    ∃ records, (s.maybePop fifo key now).1 = { s with records := records } ∧
      List.Forall₂ Pops s.records records := by
  have same : List.Forall₂ Pops s.records s.records :=
    List.forall₂_same.mpr fun r _ => ⟨r.hazardPop, rfl⟩
  unfold maybePop
  split
  · split
    · split
      · exact ⟨_, rfl, change_pops key _ s.records⟩
      · exact ⟨s.records, rfl, same⟩
    · exact ⟨s.records, rfl, same⟩
  · exact ⟨s.records, rfl, same⟩

theorem pops_finishes {records popped : List Record} (pops : List.Forall₂ Pops records popped) :
    List.Forall₂ (Finishes records) records (popped.map (subsumed popped)) := by
  rw [List.forall₂_map_right_iff, List.forall₂_iff_zip]
  refine ⟨pops.length_eq, ?_⟩
  intro r r' paired
  have among : ∀ other ∈ popped, ∃ was ∈ records, Pops was other := by
    intro other mem
    rcases List.mem_iff_get.mp mem with ⟨place, rfl⟩
    have within : place.1 < records.length := by
      rw [pops.length_eq]
      exact place.2
    exact ⟨records.get ⟨place.1, within⟩, List.get_mem _ _, pops.get within place.2⟩
  have finishes := subsume_finishes popped
  rw [List.forall₂_map_right_iff, List.forall₂_same] at finishes
  have done := finishes r' (List.of_mem_zip paired).2
  rcases (List.forall₂_iff_zip.mp pops).2 paired with ⟨receipt, rfl⟩
  refine ⟨done.same, ?_⟩
  rcases done.completion with same | ⟨waits, exit, observed, ended, other, mem, subsumes, is⟩
  · exact .inl same
  · rcases among other mem with ⟨was, there, receipt', rfl⟩
    exact .inr ⟨waits, exit, observed, ended, was, there, subsumes, is⟩

end Records

end AgentDeck.Probe
