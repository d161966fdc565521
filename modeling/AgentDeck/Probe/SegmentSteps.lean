import AgentDeck.Lib.Serial
import AgentDeck.Probe.Segments

/-!
# The segments as a serial queue

A segment is a ticket of a serial queue: sent once its trigger was reported written, marked once it
matched a record. Every operation is a chain of the queue's moves, and the outcomes under which it
ends segments are those it is entitled to.
-/

namespace AgentDeck.Probe

open Serial (Ticket Queue Moves Chain Closed)

/-- What a segment was opened for, as far as its ending depends on it. -/
structure Mark where
  kind : SegmentKind
  record : Option RecordKey

/-- The kind stays, and so does the record once it is matched. -/
instance : Preorder Mark where
  le m m' := m'.kind = m.kind ∧ ∀ key ∈ m.record, key ∈ m'.record
  le_refl _ := ⟨rfl, fun _ is => is⟩
  le_trans _ _ _ first second :=
    ⟨second.1.trans first.1, fun key is => second.2 key (first.2 key is)⟩

def Segment.ticket (seg : Segment) : Ticket Mark where
  tag := seg.tag
  number := seg.number
  sent := seg.written.isSome
  mark := ⟨seg.kind, seg.record⟩

def Ended.closed (e : Ended) : Closed Ended where
  tag := e.tag
  number := e.number
  label := e

/-- The outcomes a segment may end with, by what was numbered and sent. -/
def Entitled (t : Ticket Mark) (e : Ended) : Prop :=
  match e.outcome with
  | .written => t.sent = true
  | .takenBack => t.number.isSome = true ∧ t.sent = false
  | .writeFailed => t.number.isSome = true ∧ t.sent = false
  | .cancelled => t.sent = false
  | .gone => t.number = none
  | .refused => t.number = none
  | .superseded => t.sent = true ∧ t.mark.record = none ∧ e.kind = .probe
  | .retired => True

def Unmatched (m : Mark) : Prop := m.record = none

def Human (m : Mark) : Prop := m.kind = .humanG ∧ m.record = none

/-- What every operation but `openProbe` may end segments with. -/
def Plain (t : Ticket Mark) (e : Ended) : Prop :=
  Entitled t e ∧ e.outcome ≠ .superseded

namespace Segments

/-- The segments as a queue, with the endings taken before, the numbers handed out and those
reported written. -/
def queue (s : Segments) (taken : List Ended) (handed wrote : List ℕ) :
    Queue Mark Ended where
  waiting := s.segments.map Segment.ticket
  last := s.last
  joined := s.opened
  log := (taken ++ s.ended).map Ended.closed
  handed := handed
  sent := wrote

theorem queue_congr {s s' : Segments} (taken : List Ended) (handed wrote : List ℕ)
    (tickets : s'.segments.map Segment.ticket = s.segments.map Segment.ticket)
    (last : s'.last = s.last) (opened : s'.opened = s.opened) (ended : s'.ended = s.ended) :
    s'.queue taken handed wrote = s.queue taken handed wrote := by
  simp only [queue, tickets, last, opened, ended]

variable (Fresh : Mark → Prop) (Allowed : Ticket Mark → Ended → Prop) {s : Segments}
  (taken : List Ended) (handed wrote : List ℕ)

theorem still {s' : Segments}
    (tickets : s'.segments.map Segment.ticket = s.segments.map Segment.ticket)
    (last : s'.last = s.last) (opened : s'.opened = s.opened) (ended : s'.ended = s.ended) :
    Chain segmentCap Fresh Allowed (s.queue taken handed wrote) (s'.queue taken handed wrote) := by
  rw [queue_congr taken handed wrote tickets last opened ended]
  exact .refl

theorem push_moves {kind : SegmentKind} (fresh : Fresh ⟨kind, none⟩) (op : Option ℕ)
    (room : s.segments.length < segmentCap) :
    Moves segmentCap Fresh Allowed (s.queue taken handed wrote)
      ((s.push kind op none).queue taken handed wrote) := by
  have moves : Moves segmentCap Fresh Allowed (s.queue taken handed wrote)
      ((s.queue taken handed wrote).join ⟨kind, none⟩) :=
    .join fresh (by simpa only [queue, List.length_map] using room)
  have same : (s.queue taken handed wrote).join ⟨kind, none⟩ =
      (s.push kind op none).queue taken handed wrote := by
    simp only [queue, push, List.map_append]
    rfl
  rw [← same]
  exact moves

theorem pushNumbered_chain {kind : SegmentKind} (fresh : Fresh ⟨kind, none⟩)
    (empty : s.segments = []) :
    Chain segmentCap Fresh Allowed (s.queue taken handed wrote)
      (({ s with last := s.last + 1 }.push kind none (some (s.last + 1))).queue taken
        (handed ++ [s.last + 1]) wrote) := by
  have room : s.segments.length < segmentCap := by
    rw [empty]
    decide
  have opens := push_moves Fresh Allowed taken handed wrote fresh none room
  have numbers : Moves segmentCap Fresh Allowed ((s.push kind none none).queue taken handed wrote)
      (((s.push kind none none).queue taken handed wrote).hand
        (Segment.new kind none none s.opened).ticket []) := by
    refine .hand ?_ rfl
    simp only [queue, push, empty, List.nil_append, List.map_cons, List.map_nil]
  have same : ((s.push kind none none).queue taken handed wrote).hand
      (Segment.new kind none none s.opened).ticket [] =
      (({ s with last := s.last + 1 }.push kind none (some (s.last + 1))).queue taken
        (handed ++ [s.last + 1]) wrote) := by
    simp only [empty]
    rfl
  rw [← same]
  exact .tail (.single opens) numbers

/-- Ending one segment is one move of the queue. -/
theorem end_moves {before after : List Segment} {seg : Segment} {outcome : SegmentOutcome}
    (place : s.segments = before ++ seg :: after)
    (allowed : Allowed seg.ticket (seg.end_ outcome)) :
    Moves segmentCap Fresh Allowed (s.queue taken handed wrote)
      ({ s with
          segments := before ++ after
          ended := s.ended ++ [seg.end_ outcome] }.queue taken handed wrote) := by
  have moves : Moves segmentCap Fresh Allowed (s.queue taken handed wrote)
      ((s.queue taken handed wrote).close (before.map Segment.ticket) seg.ticket
        (after.map Segment.ticket) (seg.end_ outcome)) := by
    refine .close ?_ allowed
    simp only [queue, place, List.map_append, List.map_cons]
  have same : (s.queue taken handed wrote).close (before.map Segment.ticket) seg.ticket
      (after.map Segment.ticket) (seg.end_ outcome) =
      { s with
          segments := before ++ after
          ended := s.ended ++ [seg.end_ outcome] }.queue taken handed wrote := by
    simp only [Queue.close, queue, List.map_append, List.append_assoc]
    rfl
  rw [← same]
  exact moves

theorem endWhere_chain (which : Segment → Bool) {outcome : SegmentOutcome}
    (allowed : ∀ seg ∈ s.segments, which seg = true → Allowed seg.ticket (seg.end_ outcome)) :
    Chain segmentCap Fresh Allowed (s.queue taken handed wrote)
      ((s.endWhere which outcome).2.queue taken handed wrote) := by
  -- the segments in front were looked at already
  have ends : ∀ (left kept : List Segment) (ended : List Ended),
      (∀ seg ∈ left, which seg = true → Allowed seg.ticket (seg.end_ outcome)) →
      Chain segmentCap Fresh Allowed
        ({ s with segments := kept ++ left, ended := ended }.queue taken handed wrote)
        ({ s with
            segments := kept ++ left.filter fun seg => !which seg
            ended := ended ++ (left.filter which).map fun seg : Segment => seg.end_ outcome }.queue
          taken handed wrote) := by
    intro left
    induction left with
    | nil =>
      intro kept ended _
      simp only [List.filter_nil, List.map_nil, List.append_nil]
      exact .refl
    | cons seg left ih =>
      intro kept ended allowed
      rw [List.forall_mem_cons] at allowed
      cases is : which seg with
      | true =>
        have first := end_moves Fresh Allowed taken handed wrote
          (s := { s with segments := kept ++ seg :: left, ended := ended }) rfl (allowed.1 is)
        have rest := ih kept (ended ++ [seg.end_ outcome]) allowed.2
        simp only [List.filter_cons, is]
        rw [List.append_assoc] at rest
        exact .head first rest
      | false =>
        have rest := ih (kept ++ [seg]) ended allowed.2
        simp only [List.append_assoc] at rest
        simp only [List.filter_cons, is]
        exact rest
  exact ends s.segments [] s.ended allowed

theorem map_ticket_changeFirst (which : Segment → Bool) {f : Segment → Segment}
    (same : ∀ seg, (f seg).ticket = seg.ticket) (segs : List Segment) :
    (changeFirst which f segs).map Segment.ticket = segs.map Segment.ticket := by
  induction segs with
  | nil => rfl
  | cons seg segs ih =>
    unfold changeFirst
    split
    · rw [List.map_cons, List.map_cons, same]
    · rw [List.map_cons, List.map_cons, ih]

theorem map_ticket_map {f : Segment → Segment} (same : ∀ seg, (f seg).ticket = seg.ticket)
    (segs : List Segment) : (segs.map f).map Segment.ticket = segs.map Segment.ticket := by
  rw [List.map_map]
  exact List.map_congr_left fun seg _ => same seg

theorem ticket_foldl_feedFront (records : Records) (now : Instant) (kept : List Seen)
    (seg : Segment) : (kept.foldl (feedFront records now) seg).ticket = seg.ticket := by
  induction kept generalizing seg with
  | nil => rfl
  | cons seen kept ih =>
    rw [List.foldl_cons, ih]
    rfl

theorem ticket_takeEditor (editors : List (RecordKey × Option EditorPin)) (key : RecordKey)
    (seg : Segment) : (takeEditor editors key seg).1.ticket = seg.ticket := by
  unfold takeEditor
  split
  · rfl
  · rfl

theorem ticket_matchFront (s : Segments) (records : Records) (seg : Segment) (number : ℕ)
    (written : Instant) :
    ∃ mark, seg.ticket.mark ≤ mark ∧
      (s.matchFront records seg number written).1.ticket = { seg.ticket with mark := mark } := by
  unfold matchFront
  split
  · split
    · rename_i key found
      split
      · rename_i unmatched _ _ _ _
        rw [Bool.and_eq_true, Option.isNone_iff_eq_none] at unmatched
        refine ⟨⟨seg.kind, some key⟩, ⟨rfl, ?_⟩, ?_⟩
        · intro other is
          simp only [Segment.ticket, unmatched.1, Option.not_mem_none] at is
        · simp only [ticket_takeEditor]
          rfl
      · exact ⟨seg.ticket.mark, le_refl _, rfl⟩
    · exact ⟨seg.ticket.mark, le_refl _, rfl⟩
  · exact ⟨seg.ticket.mark, le_refl _, rfl⟩

theorem ticket_settleFront (s : Segments) (runs : RecordKey → Bool) (now : Instant)
    (records : Records) (fifo : HazardFifo) (seg : Segment) (number : ℕ) :
    (s.settleFront runs now records fifo seg number).1.ticket = seg.ticket := by
  unfold settleFront
  split
  · rfl
  · split
    · rfl
    · simp only
      split
      · rfl
      · split
        · rfl
        · split
          · rfl
          · rfl
          · rfl

theorem matchFront_moves (records : Records) (seg : Segment) (rest : List Segment) (number : ℕ)
    (written : Instant) :
    Moves segmentCap Fresh Allowed ({ s with segments := seg :: rest }.queue taken handed wrote)
      ({ s with
          segments := (s.matchFront records seg number written).1 :: rest }.queue
        taken handed wrote) := by
  rcases ticket_matchFront s records seg number written with ⟨mark, grows, ticket⟩
  have moves : Moves segmentCap Fresh Allowed
      ({ s with segments := seg :: rest }.queue taken handed wrote)
      (({ s with segments := seg :: rest }.queue taken handed wrote).mark [] seg.ticket
        (rest.map Segment.ticket) mark) := .mark rfl grows
  have same : ({ s with segments := seg :: rest }.queue taken handed wrote).mark [] seg.ticket
      (rest.map Segment.ticket) mark =
      { s with segments := (s.matchFront records seg number written).1 :: rest }.queue
        taken handed wrote := by
    simp only [Queue.mark, queue, List.map_cons, ticket, List.nil_append]
  rw [← same]
  exact moves

theorem settleAll_chain (written : ∀ seg : Segment, seg.ticket.sent = true →
    Allowed seg.ticket (seg.end_ .written))
    (runs : RecordKey → Bool) (now : Instant) (segs : List Segment) (s : Segments)
    (records : Records) (fifo : HazardFifo) {q : Queue Mark Ended}
    (is : q = { s with segments := segs }.queue taken handed wrote) :
    Chain segmentCap Fresh Allowed q
      ((settleAll runs now segs s records fifo).1.queue taken handed wrote) := by
  induction segs generalizing s records fifo q with
  | nil =>
    rw [is]
    exact .refl
  | cons seg rest ih =>
    rw [is]
    unfold settleAll
    split
    · rename_i number offset time isNumber isWritten
      have matching := matchFront_moves Fresh Allowed taken handed wrote (s := s) records seg rest
        number time
      have ticket := ticket_matchFront s records seg number time
      generalize s.matchFront records seg number time = matched at matching ticket
      rcases matched with ⟨matched, editors, records'⟩
      simp only at matching ticket ⊢
      have sent : matched.ticket.sent := by
        rcases ticket with ⟨mark, _, is⟩
        rw [is]
        simp only [Segment.ticket, isWritten, Option.isSome_some]
      have settled := ticket_settleFront { s with editors := editors } runs now records' fifo
        matched number
      split
      · rename_i settled' records'' fifo'' settles
        rw [settles] at settled
        refine .head matching (still Fresh Allowed taken handed wrote ?_ rfl rfl rfl)
        rw [List.map_cons, List.map_cons, settled]
      · rename_i settled' key records'' fifo'' settles
        rw [settles] at settled
        have same : Chain segmentCap Fresh Allowed
            ({ s with segments := matched :: rest }.queue taken handed wrote)
            ({ s with segments := settled' :: rest }.queue taken handed wrote) := by
          refine still Fresh Allowed taken handed wrote ?_ rfl rfl rfl
          rw [List.map_cons, List.map_cons, settled]
        rw [← settled] at sent
        have ends := end_moves Fresh Allowed taken handed wrote
          (s := { s with segments := settled' :: rest }) (List.nil_append _).symm
          (written settled' sent)
        exact .trans (.head matching same) (.head ends (ih _ _ _ rfl))
    · exact .refl

end Segments

end AgentDeck.Probe
