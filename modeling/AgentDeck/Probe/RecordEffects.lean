import AgentDeck.Probe.RecordOps

/-!
# The effect of every operation of the records

From the invariants, every operation has the effect the ledger names, whatever it answers.
-/

namespace AgentDeck.Probe

open WriterScope (Rises)

theorem newlyConsumed_sub {before after : List Record} (sub : ∀ r ∈ after, r ∈ before) :
    newlyConsumed before after = 0 := by
  unfold newlyConsumed
  rw [List.countP_eq_zero]
  intro r mem
  rw [Bool.not_eq_true, Bool.and_eq_false_iff]
  by_cases consumed : r.settlement = .consumed
  · refine .inr ?_
    rw [Bool.not_eq_false', List.any_eq_true]
    refine ⟨r, sub r mem, ?_⟩
    simp only [consumed, decide_true, Bool.and_self]
  · exact .inl (decide_eq_false consumed)

variable {s s' : Records} {fifo fifo' : HazardFifo} {op : RecordsOp} {answer : Answer}

theorem Reworks.of_same (listed : Listed s) (records : s'.records = s.records)
    (undecided : s'.scope.undecided = s.scope.undecided)
    (count : s'.count + answer.lowered = s.count + answer.raised) : Reworks s op answer s' := by
  refine ⟨⟨?_, ?_, ?_⟩, ?_, ?_, ?_⟩
  · rw [records]
    exact listed.keys
  · rw [records]
    exact listed.flagged
  · rw [records, undecided]
    exact listed.undecided
  · intro r mem
    rw [records] at mem
    exact ⟨r, .inl mem, Becomes.refl r⟩
  · intro r mem
    rw [← records] at mem
    exact .inl ⟨r, mem, rfl⟩
  · rw [records, newlyConsumed_sub fun _ mem => mem]
    exact count

theorem anyPending_of_records (records : s'.records = s.records) :
    s'.anyPending = s.anyPending := by
  unfold Records.anyPending
  rw [records]

/-- An operation that changes nothing. -/
theorem Works.refl (listed : Listed s) (booked : Booked s fifo) :
    Works s op .nothing s fifo where
  reworks := Reworks.of_same listed rfl rfl rfl
  rebooks := Rebooks.of_same booked rfl rfl (Records.SameStop.refl _) booked.paused rfl

variable {scope : WriterScope}

/-- A stop that is only recorded in the scope leaves the records and the hazards. -/
theorem Works.of_stop (listed : Listed s) (booked : Booked s fifo) (rises : Rises s.scope scope)
    (undecided : scope.undecided = s.scope.undecided) (now : Instant) (source : StopSource) :
    Works s op .nothing
      ({ s with scope := scope }.transition s.scope.state now none (some source) none).2 fifo := by
  rcases { s with scope := scope }.transition_spec s.scope.state now none (some source) none with
    ⟨_, records, sameScope, history, _, _⟩
  refine ⟨Reworks.of_same listed records ?_ ?_, ?_⟩
  · rw [sameScope]
    exact undecided
  · exact congrArg CountHistory.count history
  · refine Rebooks.of_transition booked { s with scope := scope } now none (some source) none rfl
      rises ?_ sameScope rfl (Records.SameStop.refl _) ?_ ?_
    · exact fun absent => absurd absent (Option.some_ne_none source)
    · rw [anyPending_of_records (s := s) records]
      exact booked.paused
    · exact (WriterScope.not_closes undecided).symm

/-- An observation under a new key adds one undecided record. -/
theorem basis_join (listed : Listed s) {obs : Sighting} {now : Instant}
    (missing : s.get obs.key = none) :
    Basis s (.observe obs now) { s with
      records := s.records ++ [Record.blank obs]
      scope := { s.scope with undecided := s.scope.undecided + 1 } } := by
  refine ⟨⟨?_, ?_, ?_⟩, ?_, ?_, rfl, rfl, rfl⟩
  · simp only [List.map_append, List.map_cons, List.map_nil]
    rw [List.nodup_append]
    refine ⟨listed.keys, List.nodup_singleton _, ?_⟩
    intro key mem other is same
    rcases List.mem_map.mp mem with ⟨r, there, rfl⟩
    rw [List.mem_singleton] at is
    exact Records.get_none missing r there (same.trans is)
  · intro r mem
    rcases List.mem_append.mp mem with there | blank
    · exact listed.flagged r there
    · rw [List.mem_singleton] at blank
      subst blank
      exact ⟨rfl, Iff.intro (fun _ => rfl) fun _ => rfl⟩
  · simp only [List.countP_append, ← listed.undecided]
    rfl
  · exact fun r mem => List.mem_append_left _ mem
  · intro r mem
    rcases List.mem_append.mp mem with there | blank
    · exact .inl there
    · exact .inr ⟨obs, now, rfl, missing, List.mem_singleton.mp blank⟩

theorem get_join {obs : Sighting} (missing : s.get obs.key = none) :
    { s with records := s.records ++ [Record.blank obs], scope := scope }.get obs.key =
      some (.blank obs) := by
  unfold Records.get at missing ⊢
  rw [List.find?_append, missing, Option.none_or]
  exact List.find?_cons_of_pos (decide_eq_true rfl)

theorem dropped_eq (decision : Option Decision) : ∃ scope : WriterScope,
    s.dropped decision = { s with scope := scope } ∧ Rises s.scope scope ∧
      scope.undecided = s.scope.undecided := by
  unfold Records.dropped
  split
  · exact ⟨s.scope, rfl, Rises.refl _, rfl⟩
  · exact ⟨_, rfl, WriterScope.rises_set _ _, rfl⟩
  · exact ⟨_, rfl, WriterScope.rises_set _ _, rfl⟩

/-- An observation adds a record or updates its key's; a refused one changes none. -/
theorem observe_effect (listed : Listed s) (booked : Booked s fifo) (obs : Sighting) (now : Instant)
    {out : Except Refusal Recorded × Records × HazardFifo} (is : out = s.observe fifo obs now) :
    Works s (.observe obs now) (Recorded.answer out.1) out.2.1 out.2.2 := by
  unfold Records.observe at is
  split at is
  · subst is
    exact Works.refl listed booked
  · split at is
    · rename_i r found
      subst is
      exact observeKept_effect booked (Basis.refl listed) found rfl
    · rename_i missing
      split at is
      · rcases dropped_eq (s := s) obs.decision with ⟨scope, drops, rises, undecided⟩
        rw [drops] at is
        subst is
        exact Works.of_stop listed booked rises undecided now _
      · subst is
        exact observeKept_effect booked (basis_join listed missing) (get_join missing) rfl

theorem refusedIdentity_effect (listed : Listed s) (booked : Booked s fifo) (generation : ℕ)
    (channel : Channel) (decision : Option Decision) (claim : Option Claim) (now : Instant) :
    Works s op .nothing (s.refusedIdentity generation channel decision claim now).2 fifo := by
  unfold Records.refusedIdentity
  split
  · exact Works.refl listed booked
  · split
    · split
      · exact Works.of_stop listed booked (WriterScope.rises_set _ _) rfl now _
      · exact Works.of_stop listed booked (Rises.refl _) rfl now _
    · exact Works.of_stop listed booked (Rises.refl _) rfl now _

variable {r : Record}

/-- A record whose fields that count stay as they are. -/
theorem Turns.of_same {r' : Record} (key : r'.key = r.key)
    (settlement : r'.settlement = r.settlement) (drained : r'.drained = r.drained)
    (decision : r'.decision = r.decision) (report : r'.drainedReport = r.drainedReport)
    (undecided : r'.undecided = r.undecided)
    (completion : r'.completion = r.completion ∨ r.completion = .pending ∧ Completes s s' r') :
    Turns s op s' r r' := by
  refine ⟨⟨key, fun _ => settlement, ?_, ?_, completion⟩, ?_, ?_⟩
  · exact fun is => ⟨drained.trans is, decision, settlement, report⟩
  · exact fun is => .inl (settlement.symm.trans is)
  · intro flagged
    refine ⟨?_, ?_⟩
    · rw [undecided, decision, drained]
      exact flagged.undecided
    · rw [settlement, undecided]
      exact flagged.opened
  · exact fun is => undecided.symm.trans is

variable {key : RecordKey}

theorem Reworks.of_quiet (listed : Listed s) (found : s.get key = some r) (f : Record → Record)
    (turns : Turns s op s' r (f r)) (undecided : (f r).undecided = r.undecided)
    (settlement : (f r).settlement = r.settlement)
    (all : List.Forall₂ (Finishes (Records.change key f s.records))
      (Records.change key f s.records) s'.records) (scope : s'.scope.undecided = s.scope.undecided)
    (count : s'.count = s.count) : Reworks s op .nothing s' := by
  rcases s.get_split found with ⟨_, pre, post, split, _, changed⟩
  rw [changed] at all
  refine Reworks.of_touch split listed.keys listed.flagged (fun _ mem => mem)
    (fun _ mem => .inl mem) turns all ?_ ?_
  · rw [undecided, scope, Bool.and_not_self]
    exact listed.undecided
  · rw [settlement, Bool.and_not_self, count]
    rfl

theorem finishes_same (records : List Record) : List.Forall₂ (Finishes records) records records :=
  List.forall₂_same.mpr fun r _ => Finishes.refl r

theorem pops_same (records : List Record) : List.Forall₂ Records.Pops records records :=
  List.forall₂_same.mpr fun r _ => ⟨r.hazardPop, rfl⟩

/-- What a report writes into its record. -/
def Record.reported (report : Report) (asks : Bool) (r : Record) : Record :=
  { r with
    report := report
    frontier := if asks then .requested else r.frontier }

/-- What a report writes into its record and the scope. -/
def Records.reported (s : Records) (key : RecordKey) (report : Report) (asks : Bool) : Records :=
  { s.update key (Record.reported report asks) with
    scope := match report with
      | .done .survivors => s.scope.set .editorLeftWriter
      | .done .unknown => s.scope.set .editorEndUnknown
      | _ => s.scope }

theorem Records.reported_scope (s : Records) (key : RecordKey) (report : Report) (asks : Bool) :
    Rises s.scope (s.reported key report asks).scope ∧
      (s.reported key report asks).scope.undecided = s.scope.undecided := by
  unfold Records.reported
  split
  · exact ⟨WriterScope.rises_set _ _, rfl⟩
  · exact ⟨WriterScope.rises_set _ _, rfl⟩
  · exact ⟨Rises.refl _, rfl⟩

section

variable (listed : Listed s)

include listed

variable (booked : Booked s fifo)

include booked

/-- A report is taken once and may ask for the frontier. -/
theorem report_effect (generation : ℕ) (key : RecordKey) (report : Report) (now : Instant) :
    Works s op .nothing (s.report fifo generation key report now).2.1
      (s.report fifo generation key report now).2.2 := by
  unfold Records.report
  split
  · exact Works.refl listed booked
  · split
    · exact Works.refl listed booked
    · rename_i r found
      split
      · exact Works.refl listed booked
      · generalize (decide (report = .done .clean) && decide (r.frontier = .notApplicable)) = asks
        rcases s.reported_scope key report asks with ⟨rises, undecided⟩
        rcases Records.finish_spec booked (s.reported key report asks) (pops_same _) fifo now none
          (some (.report report)) (some key) rfl rises
          (fun absent => absurd absent (Option.some_ne_none _)) rfl rfl with
          ⟨all, scope, count, rebooks⟩
        refine ⟨?_, ?_⟩
        · refine Reworks.of_quiet listed found (Record.reported report asks) ?_ rfl rfl all ?_ count
          · exact Turns.of_same rfl rfl rfl rfl rfl rfl (.inl rfl)
          · exact (congrArg _ scope).trans undecided
        · refine { rebooks with rescan := (WriterScope.not_closes ?_).symm }
          exact (congrArg _ scope).trans undecided

omit booked in
omit listed in
theorem update_anyPending (key : RecordKey) {f : Record → Record}
    (same : ∀ r, (f r).completion = r.completion) : (s.update key f).anyPending = s.anyPending := by
  unfold Records.anyPending Records.update
  induction s.records with
  | nil => rfl
  | cons r rest ih =>
    simp only [Records.change]
    split
    · rw [List.any_cons, List.any_cons, same]
    · rw [List.any_cons, List.any_cons, ih]

/-- An answer from the frontier changes only its record. -/
theorem frontier_effect (generation : ℕ) (key : RecordKey) (outcome : FrontierOutcome) :
    Works s op .nothing (s.frontier generation key outcome).2 fifo := by
  unfold Records.frontier
  split
  · exact Works.refl listed booked
  · split
    · exact Works.refl listed booked
    · rename_i r found
      split
      · exact Works.refl listed booked
      · refine ⟨?_, ?_⟩
        · refine Reworks.of_quiet listed found _ ?_ rfl rfl (finishes_same _) rfl rfl
          exact Turns.of_same rfl rfl rfl rfl rfl rfl (.inl rfl)
        · refine Rebooks.of_same booked rfl rfl (Records.SameStop.refl _) ?_ rfl
          rw [booked.paused]
          refine (update_anyPending key ?_).symm
          exact fun _ => rfl

/-- The first exit observed of a record stays. -/
theorem exit_effect (generation : ℕ) (key : RecordKey) (time now : Instant) :
    Works s op .nothing (s.exit fifo generation key time now).2.1
      (s.exit fifo generation key time now).2.2 := by
  unfold Records.exit
  split
  · exact Works.refl listed booked
  · split
    · exact Works.refl listed booked
    · rename_i r found
      have fed := ((s.update key fun r => { r with exitObserved := r.exitObserved <|> some time
        }).subsume).after_feeds fifo now
      refine ⟨?_, ?_⟩
      · refine Reworks.of_quiet listed found
          (fun r => { r with exitObserved := r.exitObserved <|> some time }) ?_ rfl rfl ?_
          (congrArg _ fed.scope) fed.count
        · exact Turns.of_same rfl rfl rfl rfl rfl rfl (.inl rfl)
        · rw [fed.records]
          exact Records.subsume_finishes _
      · exact Rebooks.of_same booked fed.scope fed.pendingSince fed.stopped fed.paused rfl

theorem matchSegment_effect (generation : ℕ) (key : RecordKey) (seg : ℕ) :
    Works s op .nothing (s.matchSegment generation key seg).2 fifo := by
  unfold Records.matchSegment
  split
  · exact Works.refl listed booked
  · split
    · exact Works.refl listed booked
    · rename_i r found
      split
      · exact Works.refl listed booked
      · split
        · exact Works.refl listed booked
        · rcases (s.update key fun r => { r with matched := some seg }).refreshStop_spec with
            ⟨_, records, scope, history, pending, stopped⟩
          refine ⟨?_, ?_⟩
          · refine Reworks.of_quiet listed found
              (fun r => { r with matched := some seg }) ?_ rfl rfl
              ?_ (congrArg _ scope) (congrArg CountHistory.count history)
            · exact Turns.of_same rfl rfl rfl rfl rfl rfl (.inl rfl)
            · rw [records]
              exact finishes_same _
          · refine Rebooks.of_same booked scope pending stopped ?_ rfl
            rw [booked.paused, anyPending_of_records records]
            refine (update_anyPending key ?_).symm
            exact fun _ => rfl

/-- A pending record is completed once, along a route that is open to it. -/
theorem complete_effect (generation : ℕ) (key : RecordKey) (route : Route) (time now : Instant) :
    Works s op .nothing (s.complete fifo generation key route time now).2.1
      (s.complete fifo generation key route time now).2.2 := by
  unfold Records.complete
  split
  · exact Works.refl listed booked
  · split
    · exact Works.refl listed booked
    · rename_i r found
      split
      · exact Works.refl listed booked
      · rename_i pending
        rw [not_not] at pending
        split
        · exact Works.refl listed booked
        · rename_i closed
          rw [Bool.not_eq_false, WriterScope.isClosed_iff] at closed
          split
          · exact Works.refl listed booked
          · have fed := (s.update key fun r => { r with completion := .complete time }).after_feeds
              fifo now
            refine ⟨?_, ?_⟩
            · refine Reworks.of_quiet listed found
                (fun r => { r with completion := .complete time })
                ?_ rfl rfl ?_ (congrArg _ fed.scope) fed.count
              · refine Turns.of_same rfl rfl rfl rfl rfl rfl (.inr ⟨pending, closed, ?_⟩)
                rw [fed.scope]
                exact closed
              · rw [fed.records]
                exact finishes_same _
            · exact Rebooks.of_same booked fed.scope fed.pendingSince fed.stopped fed.paused rfl

end

/-- Whether a drain proves that a liability was out for the whole of a record's interval. -/
def Records.proved (s : Records) (r : Record) (exit : Instant) (complete : Bool) : Bool :=
  complete && r.isOwned && decide (0 < s.count) && s.history.proves r.birthFloor exit

/-- What a drain writes into a record, the first time. -/
def Record.drainedOnce (r : Record) (proved : Bool) : Record :=
  if !r.drained then Records.drainRecord r proved else r

/-- The records after a drain, before the pop. -/
def Records.drainedOnce (s : Records) (key : RecordKey) (now : Instant) (complete : Bool)
    (r : Record) (exit : Instant) : Records :=
  { s.update key fun kept => if !r.drained then drainRecord kept (s.proved r exit complete)
      else kept with
    scope := if !r.drained && r.undecided then
        { (if !r.drained then s.scope.setAny (drainCause r) else s.scope) with
          undecided :=
            (if !r.drained then s.scope.setAny (drainCause r) else s.scope).undecided - 1 }
      else if !r.drained then s.scope.setAny (drainCause r) else s.scope
    history := if !r.drained && decide (r.settlement = .opened) && s.proved r exit complete then
        s.history.set now (s.count - 1)
      else s.history }

theorem drained_turns (s s' : Records) (flagged : Flagged r) (generation : ℕ) (now : Instant)
    {exit : Instant} (observed : r.exitObserved = some exit) (complete : Bool) :
    Turns s (.drain generation r.key now complete) s' r
      (r.drainedOnce (s.proved r exit complete)) := by
  unfold Record.drainedOnce
  split
  · rename_i undrained
    rw [Bool.not_eq_true'] at undrained
    refine ⟨⟨rfl, fun settled => if_neg settled, ?_, ?_, .inl rfl⟩, ?_, ?_⟩
    · exact fun drained => absurd (undrained.symm.trans drained) Bool.false_ne_true
    · intro consumed
      by_cases opened : r.settlement = .opened
      · refine .inr ?_
        have proved : s.proved r exit complete := by
          rw [← Bool.not_eq_false]
          intro unproved
          rw [unproved] at consumed
          exact Settlement.noConfusion ((if_pos opened).symm.trans consumed)
        unfold Records.proved at proved
        rw [Bool.and_eq_true, Bool.and_eq_true, Bool.and_eq_true, decide_eq_true_eq] at proved
        rcases proved with ⟨⟨⟨whole, owned⟩, count⟩, proves⟩
        have undecided := flagged.undecided.symm.trans (flagged.opened.mp opened)
        rw [Bool.and_eq_true, Option.isNone_iff_eq_none] at undecided
        refine ⟨owned, count, undecided.1, undrained,
          .inr ⟨generation, now, ?_, exit, observed, ?_⟩⟩
        · rw [whole]
        · exact proves
      · exact .inl ((if_neg opened).symm.trans consumed)
    · intro _
      refine ⟨(Bool.and_false _).symm, ?_, fun still => absurd still Bool.false_ne_true⟩
      intro opened
      by_cases before : r.settlement = .opened
      · have settles := (if_pos before).symm.trans opened
        split at settles
        · exact Settlement.noConfusion settles
        · exact Settlement.noConfusion settles
      · exact absurd ((if_neg before).symm.trans opened) before
    · exact fun still => absurd still Bool.false_ne_true
  · exact ⟨Becomes.refl r, id, id⟩

theorem get_finished {records touched : List Record} {later : Records}
    (all : List.Forall₂ (Finishes records) touched later.records)
    (found : touched.find? (fun r => decide (r.key = key)) = some r) :
    ∃ r', later.get key = some r' ∧ r'.exitObserved = r.exitObserved := by
  unfold Records.get
  generalize later.records = finished at all
  induction all with
  | nil => exact absurd found (Option.some_ne_none r).symm
  | cons finishes rest ih =>
    rename_i first first' touched finished
    rw [List.find?_cons] at found ⊢
    rw [finishes.key]
    split at found
    · refine ⟨first', rfl, ?_⟩
      rw [← Option.some.inj found]
      exact finishes.exitObserved
    · exact ih found

def Records.popDrained (s : Records) (fifo : HazardFifo) (key : RecordKey) (now : Instant)
    (complete : Bool) (r : Record) : Records × HazardFifo :=
  if !r.drained && complete && decide (r.attribution = .owned) then
    (s.update key fun kept =>
      { kept with hazardPop := (fifo.popAtDrain r.hazardPop r.birthFloor now).2.1 },
      (fifo.popAtDrain r.hazardPop r.birthFloor now).2.2)
  else (s, fifo)

theorem popDrained_spec (fifo : HazardFifo) (key : RecordKey) (now : Instant) (complete : Bool)
    (r : Record) :
    ∃ records, (s.popDrained fifo key now complete r).1 = { s with records := records } ∧
      List.Forall₂ Records.Pops s.records records := by
  unfold Records.popDrained
  split
  · exact ⟨_, rfl, Records.change_pops key _ s.records⟩
  · exact ⟨s.records, rfl, pops_same s.records⟩

theorem drain_eq {generation : ℕ} {now : Instant} {complete : Bool} {exit : Instant}
    (fresh : ¬s.stale generation = true) (found : s.get key = some r)
    (observed : r.exitObserved = some exit) {popped : Records × HazardFifo} {moved : Bool × Records}
    {fed : Records × HazardFifo}
    (pop : popped = (s.drainedOnce key now complete r exit).popDrained fifo key now complete r)
    (moves : moved = popped.1.subsume.transition s.scope.state now
      (if !r.drained && r.undecided then some .exitWithoutDecision else none) (some .drain)
      (some key)) (feeds : fed = moved.2.after popped.2 now) :
    s.drain fifo generation key now complete =
      match (fed.1.get key).bind fun r => (r.fact fed.1.generation).map fun fact => (r, fact) with
      | some (r, fact) => (.ok ⟨r.settlement, fact, moved.1⟩, fed)
      | none => (.error .notExited, fed) := by
  subst pop moves feeds
  unfold Records.drain
  rw [if_neg fresh]
  simp only [found, observed]
  rfl

theorem drainedOnce_scope (s : Records) (r : Record)
    (is : scope = if !r.drained then s.scope.setAny (drainCause r) else s.scope) :
    Rises s.scope scope ∧ scope.undecided = s.scope.undecided := by
  split at is
  · subst is
    exact ⟨WriterScope.rises_setAny _ _, WriterScope.undecided_setAny _ _⟩
  · subst is
    exact ⟨Rises.refl _, rfl⟩

/-- A drain counts a record as consumed exactly when it turns it. -/
theorem drained_consumed (r : Record) (proved : Bool) :
    (!r.drained && decide (r.settlement = .opened) && proved) =
      (decide (r.settlement = .opened) &&
        decide ((r.drainedOnce proved).settlement = .consumed)) := by
  unfold Record.drainedOnce
  by_cases opened : r.settlement = .opened
  · cases r.drained with
    | true =>
      simp only [opened, Bool.not_true, Bool.false_and, if_false, reduceCtorEq, decide_false,
        Bool.and_false]
    | false =>
      simp only [Records.drainRecord, opened]
      cases proved with
      | true => rfl
      | false => rfl
  · rw [decide_eq_false opened, Bool.and_false, Bool.false_and, Bool.false_and]

theorem drainedOnce_key (r : Record) (proved : Bool) : (r.drainedOnce proved).key = r.key := by
  unfold Record.drainedOnce
  split
  · rfl
  · rfl

theorem drainedOnce_exit (r : Record) (proved : Bool) :
    (r.drainedOnce proved).exitObserved = r.exitObserved := by
  unfold Record.drainedOnce
  split
  · rfl
  · rfl

variable (listed : Listed s)

include listed

variable (booked : Booked s fifo)

include booked

theorem drained_effect (generation : ℕ) (now : Instant) (complete : Bool) {exit : Instant}
    (found : s.get key = some r) (observed : r.exitObserved = some exit)
    {popped : Records × HazardFifo} {moved : Bool × Records} {fed : Records × HazardFifo}
    (pop : popped = (s.drainedOnce key now complete r exit).popDrained fifo key now complete r)
    (moves : moved = popped.1.subsume.transition s.scope.state now
      (if !r.drained && r.undecided then some .exitWithoutDecision else none) (some .drain)
      (some key))
    (feeds : fed = moved.2.after popped.2 now) :
    Works s (.drain generation key now complete) ⟨0, 0, moved.1⟩ fed.1 fed.2 ∧
      ∃ r', fed.1.get key = some r' ∧ r'.exitObserved = some exit := by
  rcases s.get_split found with ⟨isKey, pre, post, split, others, changed⟩
  have mem : r ∈ s.records := List.mem_of_find?_eq_some found
  rcases popDrained_spec (s := s.drainedOnce key now complete r exit) fifo key now complete r with
    ⟨records, is, pops⟩
  rw [pop, is] at moves
  rcases drainedOnce_scope s r rfl with ⟨rises, undecided⟩
  rcases Records.finish_spec booked (s.drainedOnce key now complete r exit) pops popped.2 now
    _ (some .drain) (some key) rfl
    (Rises.leave rises (!r.drained && r.undecided))
      (fun absent => absurd absent (Option.some_ne_none _)) moves feeds with
    ⟨all, scope, count, rebooks⟩
  have touched : (s.drainedOnce key now complete r exit).records =
      pre ++ r.drainedOnce (s.proved r exit complete) :: post := changed _
  rw [touched] at all
  have turns := drained_turns s fed.1 (listed.flagged r mem) generation now observed complete
  rw [isKey] at turns
  refine ⟨⟨?_, rebooks⟩, ?_⟩
  · refine Reworks.of_touch split listed.keys listed.flagged (fun _ mem => mem)
      (fun _ mem => .inl mem) turns all ?_ ?_
    · refine leaves_countP mem (!r.drained && r.undecided) ?_ ?_
      · unfold Record.drainedOnce
        cases r.drained with
        | true => exact (Bool.and_not_self r.undecided).symm
        | false => exact (Bool.true_and _).trans (Bool.and_true _).symm
      · rw [scope, ← listed.undecided]
        refine (WriterScope.leave_undecided _ _).trans ?_
        rw [undecided]
    · refine consumed_count turns _ (drained_consumed r (s.proved r exit complete)) ?_
      rw [count]
      exact CountHistory.count_consume _ _ _ _
  · have here : (pre ++ r.drainedOnce (s.proved r exit complete) :: post).find?
        (fun r => decide (r.key = key)) = some (r.drainedOnce (s.proved r exit complete)) := by
      rw [List.find?_eq_some_iff_append]
      refine ⟨decide_eq_true ((drainedOnce_key r _).trans isKey), pre, post, rfl, ?_⟩
      intro p before
      rw [Bool.not_eq_true', decide_eq_false_iff_not]
      exact others p before
    rcases get_finished all here with ⟨r', there, exits⟩
    exact ⟨r', there, exits.trans ((drainedOnce_exit r _).trans observed)⟩

/-- A drain pops the hazards of an owned record and settles it once. -/
theorem drain_effect (generation : ℕ) (key : RecordKey) (now : Instant) (complete : Bool)
    {out : Except Refusal Drained × Records × HazardFifo}
    (is : out = s.drain fifo generation key now complete) :
    Works s (.drain generation key now complete) (Drained.answer out.1) out.2.1 out.2.2 := by
  by_cases fresh : s.stale generation = true
  · rw [Records.drain, if_pos fresh] at is
    subst is
    exact Works.refl listed booked
  · cases found : s.get key with
    | none =>
      rw [Records.drain, if_neg fresh, found] at is
      subst is
      exact Works.refl listed booked
    | some r =>
      cases observed : r.exitObserved with
      | none =>
        rw [Records.drain, if_neg fresh, found] at is
        simp only [observed] at is
        subst is
        exact Works.refl listed booked
      | some exit =>
        rw [drain_eq fresh found observed rfl rfl rfl] at is
        rcases drained_effect listed booked generation now complete found observed rfl rfl rfl with
          ⟨effect, r', there, exits⟩
        simp only [there, Option.bind_some, Record.fact, exits] at is
        subst is
        exact effect

theorem raise_effect (generation : ℕ) (stamp : Instant) :
    Works s op (raiseAnswer (s.raise generation stamp).1) (s.raise generation stamp).2 fifo := by
  unfold Records.raise
  split
  · exact Works.refl listed booked
  · split
    · refine ⟨Reworks.of_same listed rfl rfl ?_, ?_⟩
      · refine (Records.compact_count _).trans ?_
        exact CountHistory.count_set _ _ _
      · exact Rebooks.of_same booked rfl rfl (Records.SameStop.refl _) booked.paused rfl
    · exact Works.refl listed booked

theorem lower_effect (generation : ℕ) (stamp : Instant) :
    Works s op (lowerAnswer (s.lower generation stamp).1) (s.lower generation stamp).2 fifo := by
  unfold Records.lower
  split
  · exact Works.refl listed booked
  · split
    · refine ⟨Reworks.of_same listed rfl rfl ?_, ?_⟩
      · have lowered : ({ s with history := s.history.set stamp (s.count - 1) }.compact).count =
            s.count - 1 := by
          refine (Records.compact_count _).trans ?_
          exact CountHistory.count_set _ _ _
        simp only [lowerAnswer]
        omega
      · exact Rebooks.of_same booked rfl rfl (Records.SameStop.refl _) booked.paused rfl
    · exact Works.refl listed booked

/-- A record leaves once it is settled, drained and complete and its markers are gone. -/
theorem prune_effect (generation : ℕ) (key : RecordKey) (markersDeleted : Bool) (now : Instant) :
    Works s (.prune generation key markersDeleted now) .nothing
      (s.prune fifo generation key markersDeleted now).2.1
      (s.prune fifo generation key markersDeleted now).2.2 := by
  unfold Records.prune
  split
  · exact Works.refl listed booked
  · split
    · exact Works.refl listed booked
    · rename_i r found
      split
      · exact Works.refl listed booked
      · rename_i goes
        simp only [not_or, Bool.not_eq_false] at goes
        rcases goes with ⟨deleted, settled, drained, completed⟩
        rcases s.get_split found with ⟨isKey, pre, post, split, others, _⟩
        have erased : (s.records.eraseP fun r => decide (r.key = key)) = pre ++ post := by
          rw [split, List.eraseP_append_right]
          · refine congrArg (pre ++ ·) (List.eraseP_cons_of_pos ?_)
            exact decide_eq_true isKey
          · intro p mem
            rw [decide_eq_true_eq]
            exact others p mem
        have fed := ({ s with records := s.records.eraseP fun r => decide (r.key = key)
          }).after_feeds fifo now
        have records := fed.records.trans erased
        have sub : (pre ++ post).Sublist s.records := by
          rw [split]
          exact List.Sublist.append_left (List.sublist_cons_self r post) pre
        have undecided : r.undecided = false := by
          rw [Bool.eq_false_iff]
          have mem : r ∈ s.records := List.mem_of_find?_eq_some found
          exact fun still => settled ((listed.flagged r mem).opened.mpr still)
        refine ⟨⟨⟨?_, ?_, ?_⟩, ?_, ?_, ?_⟩, ?_⟩
        · rw [records]
          exact (sub.map Record.key).nodup listed.keys
        · rw [records]
          exact fun o mem => listed.flagged o (sub.subset mem)
        · refine (congrArg _ fed.scope).trans ?_
          rw [records]
          refine listed.undecided.trans ?_
          rw [split, List.countP_append, List.countP_append, List.countP_cons, undecided]
          rfl
        · rw [records]
          exact fun o mem => ⟨o, .inl (sub.subset mem), Becomes.refl o⟩
        · intro o mem
          rw [split, List.mem_append, List.mem_cons] at mem
          rw [records]
          rcases mem with before | rfl | after
          · exact .inl ⟨o, List.mem_append_left _ before, rfl⟩
          · exact .inr ⟨⟨generation, now, by rw [isKey, deleted]⟩, settled, drained, completed⟩
          · exact .inl ⟨o, List.mem_append_right _ after, rfl⟩
        · rw [records, newlyConsumed_sub fun o mem => sub.subset mem]
          exact fed.count
        · exact Rebooks.of_same booked fed.scope fed.pendingSince fed.stopped fed.paused rfl

/-- Every operation works as `Works` says: one case per operation. -/
theorem run_effect (op : RecordsOp) :
    Works s op (op.run s fifo).1 (op.run s fifo).2.1 (op.run s fifo).2.2 := by
  cases op with
  | observe obs now => exact observe_effect listed booked obs now rfl
  | refusedIdentity generation channel decision claim now =>
    exact refusedIdentity_effect listed booked generation channel decision claim now
  | report generation key sent now => exact report_effect listed booked generation key sent now
  | frontier generation key outcome => exact frontier_effect listed booked generation key outcome
  | exit generation key time now => exact exit_effect listed booked generation key time now
  | drain generation key now whole => exact drain_effect listed booked generation key now whole rfl
  | matchSegment generation key seg => exact matchSegment_effect listed booked generation key seg
  | complete generation key route time now =>
    exact complete_effect listed booked generation key route time now
  | prune generation key markersDeleted now =>
    exact prune_effect listed booked generation key markersDeleted now
  | raise generation stamp => exact raise_effect listed booked generation stamp
  | lower generation stamp => exact lower_effect listed booked generation stamp

end AgentDeck.Probe
