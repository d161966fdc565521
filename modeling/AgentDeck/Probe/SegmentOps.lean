import AgentDeck.Probe.SegmentSteps

/-!
# The operations of the segments

Every operation, with its arguments and its answer, is a chain of moves of the serial queue: from
sound segments it hands out the numbers it answers, sends the ones it reports written, and ends
segments with the outcomes they are entitled to.
-/

namespace AgentDeck.Probe

open Serial (Ticket Queue Moves Chain Closed Sound)

/-- An operation. `runs` and `again` are what the checks of the editors answer. -/
inductive SegmentsOp
  | openProbe (held : Bool) (now : Instant)
  | openHumanG (op : ℕ)
  | openCut
  | openHeldTrigger
  | nextTrigger
  | written (runs : RecordKey → Bool) (number offset : ℕ) (time now : Instant)
  | writeFailed (number : ℕ)
  | withdrawn (number : ℕ)
  | cancelled (op : ℕ)
  | onOutput (runs : ℕ → RecordKey → Bool) (seen : List Seen) (now : Instant)
  | settle (runs : RecordKey → Bool) (now : Instant)
  | drained (runs again : RecordKey → Bool) (fact : ExitFact) (now : Instant)
  | editorReport (runs again : RecordKey → Bool) (key : RecordKey) (editor : Option EditorPin)
      (now : Instant)
  | noteCookedLine (number run : ℕ)
  | undecide (number : ℕ)
  | takeDecidedProbes
  | takeCompletedProbes
  | takeEnded
  | refuseBehind
  | refuseSignalBehind
  | retire

/-- What a call of the segments answers, with the numbers it hands out and the endings it gives. -/
inductive SegmentsAnswer
  | number (result : Except SegmentRefusal ℕ)
  | result (result : Except SegmentRefusal Unit)
  | trigger (number : Option ℕ)
  | count (ended : ℕ)
  | flag (whether : Bool)
  | decided (probes : List (ℕ × RecordKey × Decision))
  | completed (probes : List (ℕ × RecordKey × Option Decision))
  | endings (ended : List Ended)
  | none

namespace SegmentsAnswer

/-- The numbers an answer hands out. -/
def handed : SegmentsAnswer → List ℕ
  | .number (.ok given) => [given]
  | .trigger (some given) => [given]
  | _ => []

/-- The endings an answer gives. -/
def taken : SegmentsAnswer → List Ended
  | .endings ended => ended
  | _ => []

def refused : SegmentsAnswer → Prop
  | .number given => given = .error .retired
  | .result did => did = .error .retired
  | .trigger given => given = Option.none
  | .count ended => ended = 0
  | .flag whether => whether = false
  | .decided probes => probes = []
  | _ => True

end SegmentsAnswer

namespace SegmentsOp

def run (op : SegmentsOp) (s : Segments) (records : Records) (fifo : HazardFifo) :
    SegmentsAnswer × Segments × Records × HazardFifo :=
  match op with
  | openProbe held now =>
    let (result, s) := s.openProbe held now
    (.number result, s, records, fifo)
  | openHumanG op =>
    let (result, s) := s.openHumanG op
    (.result result, s, records, fifo)
  | openCut =>
    let (result, s) := s.openCut
    (.result result, s, records, fifo)
  | openHeldTrigger =>
    let (result, s) := s.openHeldTrigger
    (.number result, s, records, fifo)
  | nextTrigger =>
    let (number, s) := s.nextTrigger
    (.trigger number, s, records, fifo)
  | written runs number offset time now =>
    let (result, s, records, fifo) := s.written runs records fifo number offset time now
    (.result result, s, records, fifo)
  | writeFailed number =>
    let (result, s) := s.writeFailed number
    (.result result, s, records, fifo)
  | withdrawn number =>
    let (result, s) := s.withdrawn number
    (.result result, s, records, fifo)
  | cancelled op =>
    let (ended, s) := s.cancelled op
    (.count ended, s, records, fifo)
  | onOutput runs seen now => (.none, Segments.onOutput runs now 0 seen s records fifo)
  | settle runs now => (.none, s.settle runs records fifo now)
  | drained runs again fact now =>
    let (result, s, records, fifo) := s.drained runs again records fifo fact now
    (.result result, s, records, fifo)
  | editorReport runs again key editor now =>
    let (took, s, records, fifo) := s.editorReport runs again records fifo key editor now
    (.flag took, s, records, fifo)
  | noteCookedLine number run => (.none, s.noteCookedLine number run, records, fifo)
  | undecide number => (.none, s.undecide number, records, fifo)
  | takeDecidedProbes =>
    let (probes, s) := s.takeDecidedProbes records
    (.decided probes, s, records, fifo)
  | takeCompletedProbes =>
    let (probes, s) := s.takeCompletedProbes
    (.completed probes, s, records, fifo)
  | takeEnded =>
    let (ended, s) := s.takeEnded
    (.endings ended, s, records, fifo)
  | refuseBehind =>
    let (refuses, s) := s.refuseBehind records
    (.flag refuses, s, records, fifo)
  | refuseSignalBehind =>
    let (refuses, s) := s.refuseSignalBehind records
    (.flag refuses, s, records, fifo)
  | retire => (.none, s.retire, records, fifo)

/-- The number that was reported written with success. -/
def wrote : SegmentsOp → SegmentsAnswer → List ℕ
  | .written _ number _ _ _, .result (.ok ()) => [number]
  | _, _ => []

/-- What hands over what is left, also after retirement. -/
def takes : SegmentsOp → Bool
  | .takeCompletedProbes => true
  | .takeEnded => true
  | _ => false

def fresh : SegmentsOp → Mark → Prop
  | .openProbe _ _ => Unmatched
  | _ => Human

/-- The outcomes an operation may end segments with. -/
def allowed : SegmentsOp → Ticket Mark → Ended → Prop
  | .openProbe _ _ => Entitled
  | _ => Plain

end SegmentsOp

namespace Segments

variable {s : Segments} {taken : List Ended} {handed wrote : List ℕ}

theorem plain_written (seg : Segment) (sent : seg.ticket.sent) :
    Plain seg.ticket (seg.end_ .written) :=
  ⟨sent, SegmentOutcome.noConfusion⟩

variable (runs : RecordKey → Bool) (records : Records) (number : ℕ) (fifo : HazardFifo)
  (now : Instant)

theorem evaluate_chain :
    Chain segmentCap Human Plain (s.queue taken handed wrote)
      ((s.evaluate runs records fifo now).1.queue taken handed wrote) := by
  refine settleAll_chain Human Plain taken handed wrote plain_written runs now _ s records fifo ?_
  simp only [queue, map_ticket_map (f := refresh records) fun _ => rfl]

theorem evaluate_chain_of_still {s' : Segments}
    (tickets : s'.segments.map Segment.ticket = s.segments.map Segment.ticket)
    (last : s'.last = s.last) (opened : s'.opened = s.opened) (ended : s'.ended = s.ended)
    (runs : RecordKey → Bool) (records : Records) (fifo : HazardFifo) (now : Instant) :
    Chain segmentCap Human Plain (s.queue taken handed wrote)
      ((s'.evaluate runs records fifo now).1.queue taken handed wrote) := by
  rw [← queue_congr taken handed wrote tickets last opened ended]
  exact evaluate_chain runs records fifo now

theorem nextNumber_ok {number : ℕ} (is : s.nextNumber = .ok number) : number = s.last + 1 := by
  unfold nextNumber at is
  split at is
  · exact (Except.ok.inj is).symm
  · simp only [reduceCtorEq] at is

theorem refused_chain (Fresh : Mark → Prop) (Allowed : Ticket Mark → Ended → Prop)
    (refusal : SegmentRefusal) :
    Chain segmentCap Fresh Allowed (s.queue taken handed wrote)
      (s.queue taken (handed ++ (SegmentsAnswer.number (.error refusal)).handed) wrote) := by
  simp only [SegmentsAnswer.handed, List.append_nil]
  exact .refl

variable {seg : Segment}

theorem lapsed_entitled {now : Instant} (lapsed : s.lapsed seg now) :
    Entitled seg.ticket (seg.end_ .superseded) := by
  simp only [Segments.lapsed, Bool.and_eq_true, decide_eq_true_eq] at lapsed
  rcases lapsed with ⟨⟨⟨⟨_, isProbe⟩, unmatched⟩, _⟩, late⟩
  refine ⟨?_, ?_, isProbe⟩
  · exact Option.isSome_of_any late
  · exact Option.isNone_iff_eq_none.mp unmatched

theorem openProbe_chain (held : Bool) (now : Instant) :
    Chain segmentCap Unmatched Entitled (s.queue taken handed wrote)
      ((s.openProbe held now).2.queue taken
        (handed ++ (SegmentsAnswer.number (s.openProbe held now).1).handed) wrote) := by
  have fresh : Unmatched ⟨.probe, none⟩ := rfl
  unfold openProbe
  split
  · exact refused_chain Unmatched Entitled .retired
  · simp only
    split
    · exact refused_chain Unmatched Entitled .busy
    · rename_i cleared retry
      split
      · rename_i refusal is
        exact refused_chain Unmatched Entitled refusal
      · rename_i number is
        rw [nextNumber_ok is]
        split at retry
        · rename_i empty
          rw [← Option.some.inj retry]
          exact pushNumbered_chain Unmatched Entitled taken handed wrote fresh empty
        · rename_i old alone
          split at retry
          · rename_i lapses
            rw [Bool.and_eq_true] at lapses
            rw [← Option.some.inj retry]
            have ends := end_moves Unmatched Entitled taken handed wrote
              (alone.trans (List.nil_append _).symm) (lapsed_entitled lapses.2)
            have opens := pushNumbered_chain Unmatched Entitled taken handed wrote fresh
              (s := { s with segments := [], ended := s.ended ++ [old.end_ .superseded] }) rfl
            exact .head ends opens
          · simp only [reduceCtorEq] at retry
        · simp only [reduceCtorEq] at retry

theorem openHumanG_chain (op : ℕ) :
    Chain segmentCap Human Plain (s.queue taken handed wrote)
      ((s.openHumanG op).2.queue taken handed wrote) := by
  unfold openHumanG
  split
  · exact .refl
  · split
    · exact .refl
    · split
      · exact .refl
      · rename_i room
        exact .single (push_moves Human Plain taken handed wrote ⟨rfl, rfl⟩ (some op)
          (Nat.lt_of_not_le room))

theorem openCut_chain :
    Chain segmentCap Human Plain (s.queue taken handed wrote)
      (s.openCut.2.queue taken handed wrote) := by
  unfold openCut
  split
  · exact .refl
  · split
    · exact .refl
    · rename_i room
      exact .single (push_moves Human Plain taken handed wrote ⟨rfl, rfl⟩ none
        (Nat.lt_of_not_le room))

theorem openHeldTrigger_chain :
    Chain segmentCap Human Plain (s.queue taken handed wrote)
      (s.openHeldTrigger.2.queue taken
        (handed ++ (SegmentsAnswer.number s.openHeldTrigger.1).handed) wrote) := by
  unfold openHeldTrigger
  split
  · exact refused_chain Human Plain .retired
  · split
    · exact refused_chain Human Plain .busy
    · rename_i empty
      split
      · rename_i refusal is
        exact refused_chain Human Plain refusal
      · rename_i number is
        rw [nextNumber_ok is]
        rw [Bool.not_eq_true', Bool.not_eq_false, List.isEmpty_iff] at empty
        exact pushNumbered_chain Human Plain taken handed wrote ⟨rfl, rfl⟩ empty

theorem nextTrigger_chain :
    Chain segmentCap Human Plain (s.queue taken handed wrote)
      (s.nextTrigger.2.queue taken
        (handed ++ (SegmentsAnswer.trigger s.nextTrigger.1).handed) wrote) := by
  have idle : Chain segmentCap Human Plain (s.queue taken handed wrote)
      (s.queue taken (handed ++ (SegmentsAnswer.trigger none).handed) wrote) := by
    simp only [SegmentsAnswer.handed, List.append_nil]
    exact .refl
  unfold nextTrigger
  split
  · exact idle
  · split
    · rename_i number seg rest is segments
      rw [nextNumber_ok is]
      split
      · exact idle
      · rename_i unnumbered
        rw [Bool.not_eq_true, Option.isSome_eq_false_iff, Option.isNone_iff_eq_none] at unnumbered
        have numbers : Moves segmentCap Human Plain (s.queue taken handed wrote)
            ((s.queue taken handed wrote).hand seg.ticket (rest.map Segment.ticket)) := by
          refine .hand ?_ unnumbered
          simp only [queue, segments, List.map_cons]
        exact .single numbers
    · exact idle

theorem submitted_ok {number place : ℕ} (is : s.submitted number = .ok (place, seg)) :
    s.segments[place]? = some seg ∧ seg.number = some number ∧ seg.written = none := by
  unfold submitted at is
  simp only at is
  split at is
  · simp only [reduceCtorEq] at is
  · split at is
    · simp only [reduceCtorEq] at is
    · rename_i found there
      split at is
      · simp only [reduceCtorEq] at is
      · rename_i unsent
        rcases is with ⟨rfl, rfl⟩
        rw [Bool.not_eq_true, Option.isSome_eq_false_iff, Option.isNone_iff_eq_none] at unsent
        refine ⟨there, ?_, unsent⟩
        rw [List.getElem?_eq_some_iff] at there
        rcases there with ⟨inside, is⟩
        have holds := List.findIdx_getElem (w := inside)
        rw [is] at holds
        exact of_decide_eq_true holds

theorem split_at {place : ℕ} (there : s.segments[place]? = some seg) :
    s.segments = s.segments.take place ++ seg :: s.segments.drop (place + 1) := by
  rw [List.getElem?_eq_some_iff] at there
  rcases there with ⟨inside, is⟩
  have drop := List.drop_eq_getElem_cons inside
  rw [is] at drop
  rw [← drop, List.take_append_drop]

theorem endAt_chain {place : ℕ} (there : s.segments[place]? = some seg) {outcome : SegmentOutcome}
    (allowed : Plain seg.ticket (seg.end_ outcome)) :
    Chain segmentCap Human Plain (s.queue taken handed wrote)
      ((s.endAt place seg outcome).queue taken handed wrote) := by
  have ends := end_moves Human Plain taken handed wrote (split_at there) allowed
  unfold endAt
  rw [List.eraseIdx_eq_take_drop_succ]
  exact .single ends

theorem writeFailed_chain :
    Chain segmentCap Human Plain (s.queue taken handed wrote)
      ((s.writeFailed number).2.queue taken handed wrote) := by
  unfold writeFailed
  split
  · exact .refl
  · rename_i place seg is
    rcases submitted_ok is with ⟨there, isNumber, unsent⟩
    have allowed : Plain seg.ticket (seg.end_ .writeFailed) := by
      refine ⟨⟨?_, ?_⟩, SegmentOutcome.noConfusion⟩
      · simp only [Segment.ticket, isNumber, Option.isSome_some]
      · simp only [Segment.ticket, unsent, Option.isSome_none]
    have ends : Chain segmentCap Human Plain (s.queue taken handed wrote)
        ((s.endAt place seg .writeFailed).queue taken handed wrote) := endAt_chain there allowed
    split
    · refine .trans ends (endWhere_chain Human Plain taken handed wrote _ ?_)
      intro other _ which
      rw [Bool.and_eq_true, Option.isNone_iff_eq_none] at which
      exact ⟨which.2, SegmentOutcome.noConfusion⟩
    · exact ends

theorem withdrawn_chain :
    Chain segmentCap Human Plain (s.queue taken handed wrote)
      ((s.withdrawn number).2.queue taken handed wrote) := by
  unfold withdrawn
  split
  · exact .refl
  · rename_i place seg is
    rcases submitted_ok is with ⟨there, isNumber, unsent⟩
    have unsentTicket : seg.ticket.sent = false := by
      simp only [Segment.ticket, unsent, Option.isSome_none]
    refine endAt_chain there ?_
    split
    · refine ⟨⟨?_, unsentTicket⟩, SegmentOutcome.noConfusion⟩
      simp only [Segment.ticket, isNumber, Option.isSome_some]
    · exact ⟨unsentTicket, SegmentOutcome.noConfusion⟩

theorem cancelled_chain (sound : Sound segmentCap Entitled (s.queue taken handed wrote)) (op : ℕ) :
    Chain segmentCap Human Plain (s.queue taken handed wrote)
      ((s.cancelled op).2.queue taken handed wrote) := by
  refine endWhere_chain Human Plain taken handed wrote _ ?_
  intro seg mem which
  rw [Bool.and_eq_true, Option.isNone_iff_eq_none] at which
  have unsent := sound.unsent seg.ticket (List.mem_map_of_mem mem) which.2
  exact ⟨unsent, SegmentOutcome.noConfusion⟩

theorem endBehind_chain {outcome : SegmentOutcome} {behind : List Segment}
    (allowed : ∀ seg ∈ behind, Plain seg.ticket (seg.end_ outcome)) (kept : List Segment)
    (ended : List Ended) :
    Chain segmentCap Human Plain
      ({ s with segments := kept ++ behind, ended := ended }.queue taken handed wrote)
      ({ s with
          segments := kept
          ended := ended ++ behind.map fun seg : Segment => seg.end_ outcome }.queue taken
            handed wrote) := by
  induction behind generalizing ended with
  | nil =>
    rw [List.append_nil, List.map_nil, List.append_nil]
    exact .refl
  | cons seg behind ih =>
    rw [List.forall_mem_cons] at allowed
    have first := end_moves Human Plain taken handed wrote
      (s := { s with segments := kept ++ seg :: behind, ended := ended }) rfl allowed.1
    have rest := ih allowed.2 (ended ++ [seg.end_ outcome])
    rw [List.append_assoc] at rest
    exact .head first rest

theorem refuseRest_chain (sound : Sound segmentCap Entitled (s.queue taken handed wrote)) :
    Chain segmentCap Human Plain (s.queue taken handed wrote)
      (s.refuseRest.queue taken handed wrote) := by
  have allowed : ∀ seg ∈ s.segments.drop 1, Plain seg.ticket (seg.end_ .refused) := by
    intro seg mem
    have behind : seg.ticket ∈ (s.queue taken handed wrote).waiting.tail := by
      simp only [queue, ← List.drop_one, ← List.map_drop]
      exact List.mem_map_of_mem mem
    exact ⟨sound.behind seg.ticket behind, SegmentOutcome.noConfusion⟩
  have all : s.queue taken handed wrote =
      { s with segments := s.segments.take 1 ++ s.segments.drop 1, ended := s.ended }.queue
        taken handed wrote := by
    rw [List.take_append_drop]
  rw [all]
  exact endBehind_chain allowed (s.segments.take 1) s.ended

theorem refuseBehind_chain (sound : Sound segmentCap Entitled (s.queue taken handed wrote))
    (records : Records) :
    Chain segmentCap Human Plain (s.queue taken handed wrote)
      ((s.refuseBehind records).2.queue taken handed wrote) := by
  unfold refuseBehind
  split
  · exact refuseRest_chain sound
  · exact .refl

theorem refuseSignalBehind_chain (sound : Sound segmentCap Entitled (s.queue taken handed wrote))
    (records : Records) :
    Chain segmentCap Human Plain (s.queue taken handed wrote)
      ((s.refuseSignalBehind records).2.queue taken handed wrote) := by
  unfold refuseSignalBehind
  split
  · exact .refl
  · exact refuseRest_chain sound

theorem written_chain (number offset : ℕ) (time now : Instant) :
    Chain segmentCap Human Plain (s.queue taken handed wrote)
      ((s.written runs records fifo number offset time now).2.1.queue taken handed
        (wrote ++ (SegmentsOp.written runs number offset time now).wrote
          (.result (s.written runs records fifo number offset time now).1))) := by
  unfold written
  split
  · simp only [SegmentsOp.wrote, List.append_nil]
    exact .refl
  · rename_i place seg is
    rcases submitted_ok is with ⟨there, isNumber, unsent⟩
    simp only
    generalize fed : (if place = 0 then _ else _ : Segment) = reported
    have ticket : reported.ticket = { seg.ticket with sent := true } := by
      rw [← fed]
      split
      · rw [ticket_foldl_feedFront]
        rfl
      · rfl
    have sends : Moves segmentCap Human Plain (s.queue taken handed wrote)
        ((s.queue taken handed wrote).send ((s.segments.take place).map Segment.ticket) seg.ticket
          ((s.segments.drop (place + 1)).map Segment.ticket) number) := by
      refine .send ?_ isNumber ?_
      · have shape := congrArg (List.map Segment.ticket) (split_at there)
        rw [List.map_append] at shape
        exact shape
      · simp only [Segment.ticket, unsent, Option.isSome_none]
    have same : (s.queue taken handed wrote).send ((s.segments.take place).map Segment.ticket)
        seg.ticket ((s.segments.drop (place + 1)).map Segment.ticket) number =
        { s with segments := s.segments.set place reported }.queue taken handed
          (wrote ++ [number]) := by
      have inside := (List.getElem?_eq_some_iff.mp there).1
      simp only [Queue.send, queue, List.set_eq_take_append_cons_drop, inside, if_true,
        List.map_append, List.map_cons, ticket]
    rw [same] at sends
    exact .head sends (evaluate_chain runs records fifo now)

theorem noteMarker_tickets (seen : Seen) :
    (s.noteMarker records now seen).segments.map Segment.ticket =
      s.segments.map Segment.ticket := by
  unfold noteMarker
  split
  · rename_i seg rest segments
    rw [segments]
    split
    · rfl
    · split
      · rfl
      · rfl
  · rfl

theorem noteMarker_frame (seen : Seen) :
    (s.noteMarker records now seen).last = s.last ∧
    (s.noteMarker records now seen).opened = s.opened ∧
    (s.noteMarker records now seen).ended = s.ended := by
  unfold noteMarker
  split
  · exact ⟨rfl, rfl, rfl⟩
  · exact ⟨rfl, rfl, rfl⟩

theorem onOutput_chain (runs : ℕ → RecordKey → Bool) (now : Instant) (seen : List Seen) (place : ℕ)
    (s : Segments) (records : Records) (fifo : HazardFifo) :
    Chain segmentCap Human Plain (s.queue taken handed wrote)
      ((onOutput runs now place seen s records fifo).1.queue taken handed wrote) := by
  induction seen generalizing place s records fifo with
  | nil => exact .refl
  | cons marker rest ih =>
    unfold onOutput
    split
    · exact .refl
    · rcases noteMarker_frame (s := s) records now marker with ⟨last, opened, ended⟩
      refine .trans ?_ (ih _ _ _ _)
      exact evaluate_chain_of_still (noteMarker_tickets records now marker) last opened ended
        (runs place) records fifo now

theorem settle_chain :
    Chain segmentCap Human Plain (s.queue taken handed wrote)
      ((s.settle runs records fifo now).1.queue taken handed wrote) := by
  unfold settle
  split
  · exact .refl
  · exact evaluate_chain runs records fifo now

theorem drained_chain (again : RecordKey → Bool) (records : Records) (fifo : HazardFifo)
    (fact : ExitFact) (now : Instant) :
    Chain segmentCap Human Plain (s.queue taken handed wrote)
      ((s.drained runs again records fifo fact now).2.1.queue taken handed wrote) := by
  unfold drained
  split
  · exact .refl
  · split
    · exact .refl
    · refine .trans (evaluate_chain runs records fifo now) ?_
      refine evaluate_chain_of_still ?_ ?_ ?_ ?_ again _ _ now
      · refine map_ticket_changeFirst _ ?_ _
        exact fun _ => rfl
      · rfl
      · rfl
      · rfl

theorem editorReport_chain (again : RecordKey → Bool) (records : Records) (fifo : HazardFifo)
    (key : RecordKey) (editor : Option EditorPin) (now : Instant) :
    Chain segmentCap Human Plain (s.queue taken handed wrote)
      ((s.editorReport runs again records fifo key editor now).2.1.queue taken handed wrote) := by
  unfold editorReport
  split
  · exact .refl
  · refine .trans (evaluate_chain runs records fifo now) ?_
    simp only
    split
    · refine evaluate_chain_of_still ?_ ?_ ?_ ?_ again _ _ now
      · refine map_ticket_changeFirst _ ?_ _
        exact fun _ => rfl
      · rfl
      · rfl
      · rfl
    · unfold noteEditor
      split
      · exact .refl
      · exact .refl

theorem noteCookedLine_chain (run : ℕ) :
    Chain segmentCap Human Plain (s.queue taken handed wrote)
      ((s.noteCookedLine number run).queue taken handed wrote) := by
  refine still Human Plain taken handed wrote ?_ rfl rfl rfl
  refine map_ticket_changeFirst _ ?_ _
  exact fun _ => rfl

theorem undecide_chain :
    Chain segmentCap Human Plain (s.queue taken handed wrote)
      ((s.undecide number).queue taken handed wrote) := by
  refine still Human Plain taken handed wrote ?_ rfl rfl rfl
  refine map_ticket_changeFirst _ ?_ _
  exact fun _ => rfl

theorem takeDecidedProbes_chain :
    Chain segmentCap Human Plain (s.queue taken handed wrote)
      ((s.takeDecidedProbes records).2.queue taken handed wrote) := by
  refine still Human Plain taken handed wrote ?_ rfl rfl rfl
  refine map_ticket_map ?_ _
  intro seg
  split
  · rfl
  · rfl

theorem takeEnded_chain :
    Chain segmentCap Human Plain (s.queue taken handed wrote)
      (s.takeEnded.2.queue (taken ++ s.takeEnded.1) handed wrote) := by
  have same : s.takeEnded.2.queue (taken ++ s.takeEnded.1) handed wrote =
      s.queue taken handed wrote := by
    simp only [takeEnded, queue, List.append_nil]
  rw [same]
  exact .refl

theorem retire_chain :
    Chain segmentCap Human Plain (s.queue taken handed wrote)
      (s.retire.queue taken handed wrote) := by
  unfold retire
  split
  · exact .refl
  · refine endWhere_chain Human Plain taken handed wrote _ ?_
    exact fun _ _ _ => ⟨trivial, SegmentOutcome.noConfusion⟩

end Segments

namespace SegmentsOp

/-- An operation is a chain of the queue's moves. -/
theorem run_chain {s : Segments} {taken : List Ended} {handed wrote : List ℕ}
    (sound : Sound segmentCap Entitled (s.queue taken handed wrote)) (op : SegmentsOp)
    (records : Records) (fifo : HazardFifo) :
    Chain segmentCap op.fresh op.allowed (s.queue taken handed wrote)
      ((op.run s records fifo).2.1.queue (taken ++ (op.run s records fifo).1.taken)
        (handed ++ (op.run s records fifo).1.handed)
        (wrote ++ op.wrote (op.run s records fifo).1)) := by
  cases op with
  | openProbe held now =>
    simp only [run, SegmentsAnswer.taken, SegmentsOp.wrote, List.append_nil]
    exact Segments.openProbe_chain held now
  | openHeldTrigger =>
    simp only [run, SegmentsAnswer.taken, SegmentsOp.wrote, List.append_nil]
    exact Segments.openHeldTrigger_chain
  | nextTrigger =>
    simp only [run, SegmentsAnswer.taken, SegmentsOp.wrote, List.append_nil]
    exact Segments.nextTrigger_chain
  | written runs number offset time now =>
    simp only [run, SegmentsAnswer.taken, SegmentsAnswer.handed, List.append_nil]
    exact Segments.written_chain runs records fifo number offset time now
  | takeEnded =>
    simp only [run, SegmentsAnswer.handed, SegmentsOp.wrote, List.append_nil]
    exact Segments.takeEnded_chain
  | openHumanG op =>
    simp only [run, SegmentsAnswer.taken, SegmentsAnswer.handed, SegmentsOp.wrote,
      List.append_nil]
    exact Segments.openHumanG_chain op
  | openCut =>
    simp only [run, SegmentsAnswer.taken, SegmentsAnswer.handed, SegmentsOp.wrote,
      List.append_nil]
    exact Segments.openCut_chain
  | writeFailed number =>
    simp only [run, SegmentsAnswer.taken, SegmentsAnswer.handed, SegmentsOp.wrote,
      List.append_nil]
    exact Segments.writeFailed_chain number
  | withdrawn number =>
    simp only [run, SegmentsAnswer.taken, SegmentsAnswer.handed, SegmentsOp.wrote,
      List.append_nil]
    exact Segments.withdrawn_chain number
  | cancelled op =>
    simp only [run, SegmentsAnswer.taken, SegmentsAnswer.handed, SegmentsOp.wrote,
      List.append_nil]
    exact Segments.cancelled_chain sound op
  | onOutput runs seen now =>
    simp only [run, SegmentsAnswer.taken, SegmentsAnswer.handed, SegmentsOp.wrote,
      List.append_nil]
    exact Segments.onOutput_chain runs now seen 0 s records fifo
  | settle runs now =>
    simp only [run, SegmentsAnswer.taken, SegmentsAnswer.handed, SegmentsOp.wrote,
      List.append_nil]
    exact Segments.settle_chain runs records fifo now
  | drained runs again fact now =>
    simp only [run, SegmentsAnswer.taken, SegmentsAnswer.handed, SegmentsOp.wrote,
      List.append_nil]
    exact Segments.drained_chain runs again records fifo fact now
  | editorReport runs again key editor now =>
    simp only [run, SegmentsAnswer.taken, SegmentsAnswer.handed, SegmentsOp.wrote,
      List.append_nil]
    exact Segments.editorReport_chain runs again records fifo key editor now
  | noteCookedLine number run =>
    simp only [SegmentsOp.run, SegmentsAnswer.taken, SegmentsAnswer.handed, SegmentsOp.wrote,
      List.append_nil]
    exact Segments.noteCookedLine_chain number run
  | undecide number =>
    simp only [run, SegmentsAnswer.taken, SegmentsAnswer.handed, SegmentsOp.wrote,
      List.append_nil]
    exact Segments.undecide_chain number
  | takeDecidedProbes =>
    simp only [run, SegmentsAnswer.taken, SegmentsAnswer.handed, SegmentsOp.wrote,
      List.append_nil]
    exact Segments.takeDecidedProbes_chain records
  | takeCompletedProbes =>
    simp only [run, SegmentsAnswer.taken, SegmentsAnswer.handed, SegmentsOp.wrote,
      List.append_nil]
    exact .refl
  | refuseBehind =>
    simp only [run, SegmentsAnswer.taken, SegmentsAnswer.handed, SegmentsOp.wrote,
      List.append_nil]
    exact Segments.refuseBehind_chain sound records
  | refuseSignalBehind =>
    simp only [run, SegmentsAnswer.taken, SegmentsAnswer.handed, SegmentsOp.wrote,
      List.append_nil]
    exact Segments.refuseSignalBehind_chain sound records
  | retire =>
    simp only [run, SegmentsAnswer.taken, SegmentsAnswer.handed, SegmentsOp.wrote,
      List.append_nil]
    exact Segments.retire_chain

theorem fresh_unmatched (op : SegmentsOp) (m : Mark) (fresh : op.fresh m) : Unmatched m := by
  cases op with
  | openProbe held now => exact fresh
  | _ => exact fresh.2

theorem allowed_entitled (op : SegmentsOp) (t : Ticket Mark) (e : Ended)
    (allowed : op.allowed t e) : Entitled t e := by
  cases op with
  | openProbe held now => exact allowed
  | _ => exact allowed.1

end SegmentsOp

namespace Segments

theorem settleAll_retired (runs : RecordKey → Bool) (now : Instant) (segs : List Segment)
    (s : Segments) (records : Records) (fifo : HazardFifo) :
    (settleAll runs now segs s records fifo).1.retired = s.retired := by
  induction segs generalizing s records fifo with
  | nil => rfl
  | cons seg rest ih =>
    unfold settleAll
    split
    · simp only
      split
      · rfl
      · rw [ih]
    · rfl

theorem onOutput_retired (runs : ℕ → RecordKey → Bool) (now : Instant) (seen : List Seen)
    (place : ℕ) (s : Segments) (records : Records) (fifo : HazardFifo) :
    (onOutput runs now place seen s records fifo).1.retired = s.retired := by
  induction seen generalizing place s records fifo with
  | nil => rfl
  | cons marker rest ih =>
    unfold onOutput
    split
    · rfl
    · rw [ih, evaluate, settleAll_retired]
      unfold noteMarker
      split
      · rfl
      · rfl

theorem endWhere_nil {s : Segments} (empty : s.segments = []) (which : Segment → Bool)
    (outcome : SegmentOutcome) : s.endWhere which outcome = (0, s) := by
  cases s
  subst empty
  simp only [endWhere, List.filter_nil, List.length_nil, List.map_nil, List.append_nil]

theorem written_retired (s : Segments) (runs : RecordKey → Bool) (records : Records)
    (fifo : HazardFifo) (number offset : ℕ) (time now : Instant) :
    (s.written runs records fifo number offset time now).2.1.retired = s.retired := by
  unfold written
  split
  · rfl
  · simp only [evaluate, settleAll_retired]

theorem editorReport_retired (s : Segments) (runs again : RecordKey → Bool) (records : Records)
    (fifo : HazardFifo) (key : RecordKey) (editor : Option EditorPin) (now : Instant) :
    (s.editorReport runs again records fifo key editor now).2.1.retired = s.retired := by
  unfold editorReport
  split
  · rfl
  · simp only
    split
    · simp only [evaluate, settleAll_retired]
    · unfold noteEditor
      split
      · simp only [evaluate, settleAll_retired]
      · simp only [evaluate, settleAll_retired]

theorem openProbe_retired (s : Segments) (held : Bool) (now : Instant) :
    (s.openProbe held now).2.retired = s.retired := by
  unfold openProbe
  split
  · rfl
  · simp only
    split
    · rfl
    · rename_i cleared retry
      split
      · rfl
      · split at retry
        · rw [← Option.some.inj retry]
          rfl
        · split at retry
          · rw [← Option.some.inj retry]
            rfl
          · simp only [reduceCtorEq] at retry
        · simp only [reduceCtorEq] at retry

end Segments

namespace SegmentsOp

def retires : SegmentsOp → Bool
  | .retire => true
  | _ => false

variable (op : SegmentsOp)

theorem run_retired_eq (keeps : op.retires = false) (s : Segments) (records : Records)
    (fifo : HazardFifo) : (op.run s records fifo).2.1.retired = s.retired := by
  cases op with
  | openProbe held now => exact s.openProbe_retired held now
  | openHumanG op =>
    simp only [run, Segments.openHumanG]
    repeat' split
    all_goals rfl
  | openCut =>
    simp only [run, Segments.openCut]
    repeat' split
    all_goals rfl
  | openHeldTrigger =>
    simp only [run, Segments.openHeldTrigger]
    repeat' split
    all_goals rfl
  | nextTrigger =>
    simp only [run, Segments.nextTrigger]
    repeat' split
    all_goals rfl
  | written runs number offset time now =>
    exact s.written_retired runs records fifo number offset time now
  | writeFailed number =>
    simp only [run, Segments.writeFailed]
    repeat' split
    all_goals rfl
  | withdrawn number =>
    simp only [run, Segments.withdrawn]
    split
    · rfl
    · rfl
  | onOutput runs seen now => exact s.onOutput_retired runs now seen 0 records fifo
  | settle runs now =>
    simp only [run, Segments.settle]
    split
    · rfl
    · exact Segments.settleAll_retired runs now _ s records fifo
  | drained runs again fact now =>
    simp only [run, Segments.drained]
    repeat' split
    all_goals simp only [Segments.evaluate, Segments.settleAll_retired]
  | editorReport runs again key editor now =>
    exact s.editorReport_retired runs again records fifo key editor now
  | refuseBehind =>
    simp only [run, Segments.refuseBehind]
    split
    · rfl
    · rfl
  | refuseSignalBehind =>
    simp only [run, Segments.refuseSignalBehind]
    split
    · rfl
    · rfl
  | retire => exact Bool.noConfusion keeps
  | _ => rfl

theorem run_retired (keeps : op.takes = false) {s : Segments} (retired : s.retired)
    (empty : s.segments = []) (records : Records) (fifo : HazardFifo) :
    (op.run s records fifo).1.refused ∧ (op.run s records fifo).2 = (s, records, fifo) := by
  have closed : ∀ number, s.submitted number = .error .retired := by
    intro number
    simp only [Segments.submitted, retired, if_true]
  cases op with
  | openProbe held now =>
    simp only [run, Segments.openProbe, retired, if_true, SegmentsAnswer.refused, and_self]
  | openHumanG op =>
    simp only [run, Segments.openHumanG, retired, if_true, SegmentsAnswer.refused, and_self]
  | openCut =>
    simp only [run, Segments.openCut, retired, if_true, SegmentsAnswer.refused, and_self]
  | openHeldTrigger =>
    simp only [run, Segments.openHeldTrigger, retired, if_true, SegmentsAnswer.refused,
      and_self]
  | nextTrigger =>
    simp only [run, Segments.nextTrigger, retired, if_true, SegmentsAnswer.refused, and_self]
  | written runs number offset time now =>
    simp only [run, Segments.written, closed, SegmentsAnswer.refused, and_self]
  | writeFailed number =>
    simp only [run, Segments.writeFailed, closed, SegmentsAnswer.refused, and_self]
  | withdrawn number =>
    simp only [run, Segments.withdrawn, closed, SegmentsAnswer.refused, and_self]
  | cancelled op =>
    simp only [run, Segments.cancelled, Segments.endWhere_nil empty, SegmentsAnswer.refused,
      and_self]
  | onOutput runs seen now =>
    refine ⟨trivial, ?_⟩
    cases seen with
    | nil => rfl
    | cons marker rest =>
      simp only [run, Segments.onOutput, retired, if_true]
  | settle runs now =>
    simp only [run, Segments.settle, retired, if_true, SegmentsAnswer.refused, and_self]
  | drained runs again fact now =>
    simp only [run, Segments.drained, retired, if_true, SegmentsAnswer.refused, and_self]
  | editorReport runs again key editor now =>
    simp only [run, Segments.editorReport, retired, if_true, SegmentsAnswer.refused, and_self]
  | noteCookedLine number run =>
    refine ⟨trivial, ?_⟩
    simp only [SegmentsOp.run, Segments.noteCookedLine, empty, changeFirst]
    rw [← empty]
  | undecide number =>
    refine ⟨trivial, ?_⟩
    simp only [run, Segments.undecide, empty, changeFirst]
    rw [← empty]
  | takeDecidedProbes =>
    simp only [run, Segments.takeDecidedProbes, empty, List.filterMap_nil, List.map_nil,
      SegmentsAnswer.refused, true_and]
    rw [← empty]
  | takeCompletedProbes => exact Bool.noConfusion keeps
  | takeEnded => exact Bool.noConfusion keeps
  | refuseBehind =>
    simp only [run, Segments.refuseBehind, Segments.stranded, retired, Bool.not_true,
      Bool.false_and, Bool.false_eq_true, if_false, SegmentsAnswer.refused, and_self]
  | refuseSignalBehind =>
    simp only [run, Segments.refuseSignalBehind, Segments.frontStop, empty, ne_eq,
      reduceCtorEq, not_false_eq_true, if_true, SegmentsAnswer.refused, and_self]
  | retire =>
    simp only [run, Segments.retire, retired, if_true, SegmentsAnswer.refused, and_self]

theorem run_stays_retired {s : Segments} (retired : s.retired) (empty : s.segments = [])
    (records : Records) (fifo : HazardFifo) : (op.run s records fifo).2.1.retired := by
  cases takes : op.takes with
  | false =>
    rw [(op.run_retired takes retired empty records fifo).2]
    exact retired
  | true =>
    cases op with
    | takeCompletedProbes => exact retired
    | takeEnded => exact retired
    | _ => exact absurd takes Bool.false_ne_true

theorem run_closed {s : Segments} (closed : s.retired = true → s.segments = []) (records : Records)
    (fifo : HazardFifo) (retired : (op.run s records fifo).2.1.retired) :
    (op.run s records fifo).2.1.segments = [] := by
  cases retires : op.retires with
  | true =>
    cases op with
    | retire =>
      simp only [run, Segments.retire]
      split
      · rename_i before
        exact closed before
      · simp only [Segments.endWhere, Bool.not_true, List.filter_false]
    | _ => exact absurd retires Bool.false_ne_true
  | false =>
    rw [op.run_retired_eq retires] at retired
    cases takes : op.takes with
    | false =>
      rw [(op.run_retired takes retired (closed retired) records fifo).2]
      exact closed retired
    | true =>
      cases op with
      | takeCompletedProbes => exact closed retired
      | takeEnded => exact closed retired
      | _ => exact absurd takes Bool.false_ne_true

end SegmentsOp

end AgentDeck.Probe
