import AgentDeck.Lib.Runs
import AgentDeck.Probe.RecordLedger
import AgentDeck.Probe.SegmentOps

/-!
# Runs of the segments

Operations of the segments and of the records, in any order. Only the front segment has a number,
the numbers are handed out one after the other, a segment is open or ended once, and each outcome
says what became of the segment's trigger.
-/

namespace AgentDeck.Probe

open Serial (Ticket Queue Chain Closed Sound Remains)

inductive StoryOp
  | segments (op : SegmentsOp)
  | records (op : RecordsOp)

/-- A run so far: the endings taken, the numbers handed out, those reported written, and the
segments that were open in a state before. -/
structure Story where
  segments : Segments
  records : Records
  fifo : HazardFifo
  taken : List Ended
  handed : List ℕ
  wrote : List ℕ
  past : List Segment

namespace Story

def start (generation : ℕ) (agent : Agent) (records : Records) (fifo : HazardFifo) : Story where
  segments := .new generation agent
  records := records
  fifo := fifo
  taken := []
  handed := []
  wrote := []
  past := []

def step (t : Story) : StoryOp → Story
  | .segments op =>
    let (answer, segments, records, fifo) := op.run t.segments t.records t.fifo
    { segments := segments
      records := records
      fifo := fifo
      taken := t.taken ++ answer.taken
      handed := t.handed ++ answer.handed
      wrote := t.wrote ++ op.wrote answer
      past := t.past ++ t.segments.segments }
  | .records op =>
    let (_, records, fifo) := op.run t.records t.fifo
    { t with
      records := records
      fifo := fifo }

def log (t : Story) : List Ended := t.taken ++ t.segments.ended

def NeverNumbered (t : Story) (tag : ℕ) : Prop :=
  ∀ seg ∈ t.past, seg.tag = tag → seg.number = none

def NeverMatched (t : Story) (tag : ℕ) : Prop :=
  ∀ seg ∈ t.past, seg.tag = tag → seg.record = none

/-- What an ending says of its trigger. -/
def Truthful (t : Story) (e : Ended) : Prop :=
  match e.outcome with
  | .written => ∃ n ∈ e.number, n ∈ t.wrote
  | .takenBack => ∃ n ∈ e.number, n ∉ t.wrote
  | .writeFailed => ∃ n ∈ e.number, n ∉ t.wrote
  | .cancelled => (∀ n ∈ e.number, n ∉ t.wrote) ∧ (e.number = none → t.NeverNumbered e.tag)
  | .gone => e.number = none ∧ t.NeverNumbered e.tag
  | .refused => e.number = none ∧ t.NeverNumbered e.tag
  | .superseded => e.kind = .probe ∧ (∃ n ∈ e.number, n ∈ t.wrote) ∧ t.NeverMatched e.tag
  | .retired => True

/-- A lone Claude probe, unmatched past its time with nothing held behind it. -/
def Supersedes (t : Story) (op : StoryOp) (e : Ended) : Prop :=
  ∃ now seg offset time, op = .segments (.openProbe false now) ∧ t.segments.agent = .claude ∧
    t.segments.segments = [seg] ∧ e = seg.end_ .superseded ∧ seg.kind = .probe ∧
    seg.record = none ∧ seg.mismatched = false ∧ seg.written = some (offset, time) ∧
    tTrigger < now - time

def queue (t : Story) : Queue Mark Ended := t.segments.queue t.taken t.handed t.wrote

structure Kept (t : Story) : Prop where
  sound : Sound segmentCap Entitled t.queue
  remains : ∀ seg ∈ t.past, Remains Entitled seg.ticket t.queue
  closed : t.segments.retired = true → t.segments.segments = []

theorem start_kept (generation : ℕ) (agent : Agent) (records : Records) (fifo : HazardFifo) :
    (start generation agent records fifo).Kept where
  sound := Serial.empty_sound
  remains _ mem := absurd mem List.not_mem_nil
  closed _ := rfl

variable {t : Story}

theorem Kept.chain (kept : t.Kept) (op : SegmentsOp) :
    Chain segmentCap op.fresh op.allowed t.queue (t.step (.segments op)).queue :=
  op.run_chain kept.sound t.records t.fifo

theorem Kept.step (kept : t.Kept) (op : StoryOp) : (t.step op).Kept := by
  cases op with
  | records op => exact ⟨kept.sound, kept.remains, kept.closed⟩
  | segments op =>
    have chain := (kept.chain op).mono op.fresh_unmatched op.allowed_entitled
    refine ⟨kept.sound.chain chain, ?_, ?_⟩
    · intro seg mem
      rcases List.mem_append.mp mem with mem | mem
      · exact (kept.remains seg mem).chain chain
      · have here : Remains Entitled seg.ticket t.queue :=
          .inl ⟨seg.ticket, List.mem_map_of_mem mem, Ticket.Ages.refl _⟩
        exact here.chain chain
    · exact op.run_closed kept.closed t.records t.fifo

theorem run_kept (ops : List StoryOp) (kept : t.Kept) : (ops.foldl step t).Kept :=
  Runs.run_keeps_always Kept (fun _ op kept => kept.step op) kept

theorem log_map (t : Story) : t.queue.log.map Closed.label = t.log := by
  simp only [queue, Segments.queue, List.map_map]
  exact List.map_id'' (fun _ => rfl) _

theorem Kept.ending (kept : t.Kept) {e : Ended} (mem : e ∈ t.log) {seg : Segment}
    (seen : seg ∈ t.past) (same : seg.tag = e.tag) :
    ∃ was : Ticket Mark, seg.ticket.Ages was ∧ was.number = e.number ∧ Entitled was e :=
  (kept.remains seg seen).closed kept.sound (List.mem_map_of_mem (f := Ended.closed) mem) same.symm

theorem Kept.neverNumbered (kept : t.Kept) {e : Ended} (mem : e ∈ t.log)
    (unnumbered : e.number = none) : t.NeverNumbered e.tag := by
  intro seg seen same
  rcases kept.ending mem seen same with ⟨was, ages, number, _⟩
  rw [unnumbered] at number
  cases is : seg.number with
  | none => rfl
  | some n =>
    have kept := ages.number n is
    rw [number] at kept
    cases kept

theorem Kept.truthful (kept : t.Kept) {e : Ended} (mem : e ∈ t.log) : t.Truthful e := by
  rcases kept.sound.truthful e.closed (List.mem_map_of_mem mem) with
    ⟨was, tag, number, entitled, sent, unsent⟩
  have neverNumbered := kept.neverNumbered mem
  have numbered : was.number.isSome = true → was.sent = false → ∃ n ∈ e.number, n ∉ t.wrote := by
    intro isSome notSent
    rcases Option.isSome_iff_exists.mp isSome with ⟨n, is⟩
    have here : n ∈ e.number := number.symm.trans is
    exact ⟨n, here, unsent notSent n here⟩
  unfold Truthful
  unfold Entitled at entitled
  cases outcome : e.outcome with
  | written =>
    simp only [Ended.closed, outcome] at entitled
    exact sent entitled
  | takenBack | writeFailed =>
    simp only [Ended.closed, outcome] at entitled
    exact numbered entitled.1 entitled.2
  | cancelled =>
    simp only [Ended.closed, outcome] at entitled
    exact ⟨unsent entitled, neverNumbered⟩
  | gone | refused =>
    simp only [Ended.closed, outcome] at entitled
    have absent := number.symm.trans entitled
    exact ⟨absent, neverNumbered absent⟩
  | superseded =>
    simp only [Ended.closed, outcome] at entitled
    refine ⟨entitled.2.2, sent entitled.1, ?_⟩
    intro seg seen same
    rcases kept.ending mem seen same with ⟨last, ages, _, allowed⟩
    unfold Entitled at allowed
    simp only [outcome] at allowed
    cases is : seg.record with
    | none => rfl
    | some key =>
      have kept := ages.mark.2 key is
      rw [allowed.2.1] at kept
      cases kept
  | retired => trivial

theorem openProbe_supersedes (s : Segments) (held : Bool) (now : Instant) :
    ∃ fresh, (s.openProbe held now).2.ended = s.ended ++ fresh ∧ ∀ e ∈ fresh,
      held = false ∧ ∃ seg, s.segments = [seg] ∧ e = seg.end_ .superseded ∧
        s.lapsed seg now = true := by
  have idle : ∃ fresh, s.ended = s.ended ++ fresh ∧ ∀ e ∈ fresh,
      held = false ∧ ∃ seg, s.segments = [seg] ∧ e = seg.end_ .superseded ∧
        s.lapsed seg now = true :=
    ⟨[], (List.append_nil _).symm, fun _ mem => absurd mem List.not_mem_nil⟩
  unfold Segments.openProbe
  split
  · exact idle
  · simp only
    split
    · exact idle
    · rename_i cleared retry
      split
      · exact idle
      · split at retry
        · rw [← Option.some.inj retry]
          exact idle
        · rename_i old alone
          split at retry
          · rename_i lapses
            rw [Bool.and_eq_true, Bool.not_eq_true'] at lapses
            rw [← Option.some.inj retry]
            refine ⟨[old.end_ .superseded], rfl, ?_⟩
            intro e mem
            rw [List.mem_singleton.mp mem]
            exact ⟨lapses.1, old, alone, rfl, lapses.2⟩
          · simp only [reduceCtorEq] at retry
        · simp only [reduceCtorEq] at retry

theorem Kept.adds (kept : t.Kept) (op : StoryOp) :
    ∃ fresh, (t.step op).log = t.log ++ fresh ∧
      ∀ e ∈ fresh, e.outcome = .superseded → t.Supersedes op e := by
  cases op with
  | records op =>
    exact ⟨[], (List.append_nil _).symm, fun _ mem => absurd mem List.not_mem_nil⟩
  | segments op =>
    rcases (kept.chain op).closes with ⟨fresh, log, allows⟩
    have labels := congrArg (List.map Closed.label) log
    rw [List.map_append, log_map, log_map] at labels
    have plain : (∀ t e, op.allowed t e → Plain t e) → ∃ fresh,
        (t.step (.segments op)).log = t.log ++ fresh ∧
        ∀ e ∈ fresh, e.outcome = .superseded → t.Supersedes (.segments op) e := by
      intro plain
      refine ⟨fresh.map Closed.label, labels, ?_⟩
      intro e mem superseded
      rcases List.mem_map.mp mem with ⟨c, closed, rfl⟩
      rcases allows c closed with ⟨was, _, _, allowed⟩
      exact absurd superseded (plain was c.label allowed).2
    cases op with
    | openProbe held now =>
      rcases openProbe_supersedes t.segments held now with ⟨fresh, ended, supersedes⟩
      refine ⟨fresh, ?_, ?_⟩
      · have log : (t.step (.segments (.openProbe held now))).log =
            (t.taken ++ []) ++ (t.segments.openProbe held now).2.ended := rfl
        rw [log, ended, List.append_nil, ← List.append_assoc]
        rfl
      · intro e mem _
        rcases supersedes e mem with ⟨free, seg, alone, is, lapsed⟩
        simp only [Segments.lapsed, Bool.and_eq_true, decide_eq_true_eq,
          Option.isNone_iff_eq_none, Bool.not_eq_true'] at lapsed
        rcases lapsed with ⟨⟨⟨⟨claude, isProbe⟩, unmatched⟩, clean⟩, late⟩
        cases written : seg.written with
        | none =>
          rw [written] at late
          cases late
        | some report =>
          rw [written, Option.any_some, decide_eq_true_eq] at late
          refine ⟨now, seg, report.1, report.2, ?_, claude, alone, is, isProbe, unmatched,
            clean, written, late⟩
          rw [free]
    | _ => exact plain fun _ _ allowed => allowed

end Story

open Story in
/-- Segments are serialized, and end once and truthfully. -/
theorem segments_end_truthfully (generation : ℕ) (agent : Agent) (records : Records)
    (fifo : HazardFifo) (ops : List StoryOp) {t : Story}
    (reached : t = ops.foldl step (start generation agent records fifo)) :
    (∀ seg ∈ t.segments.segments.tail, seg.number = none) ∧
    t.handed = List.range' 1 t.handed.length ∧
    t.segments.segments.length ≤ segmentCap ∧
    (t.log.map Ended.tag ++ t.segments.segments.map Segment.tag).Perm
      (List.range t.segments.opened) ∧
    (∀ e ∈ t.log, t.Truthful e) ∧
    (∀ op, ∃ fresh, (t.step op).log = t.log ++ fresh ∧
      ∀ e ∈ fresh, e.outcome = .superseded → t.Supersedes op e) ∧
    (t.segments.retired = true → t.segments.segments = [] ∧
      ∀ op : SegmentsOp,
        (t.step (.segments op)).segments.retired = true ∧
        (t.step (.segments op)).segments.segments = [] ∧
        (op.takes = false → (op.run t.segments t.records t.fifo).1.refused ∧
          (op.run t.segments t.records t.fifo).2 = (t.segments, t.records, t.fifo))) := by
  have kept : t.Kept := by
    rw [reached]
    exact run_kept ops (start_kept generation agent records fifo)
  have sound := kept.sound
  refine ⟨?_, ?_, ?_, ?_, fun e mem => kept.truthful mem, kept.adds, ?_⟩
  · intro seg mem
    have behind : seg.ticket ∈ t.queue.waiting.tail := by
      simp only [Story.queue, Segments.queue, ← List.drop_one, ← List.map_drop] at mem ⊢
      exact List.mem_map_of_mem mem
    exact sound.behind seg.ticket behind
  · have handed := sound.handed
    have length := congrArg List.length handed
    rw [List.length_range'] at length
    rw [← length] at handed
    exact handed
  · have room := sound.room
    simp only [Story.queue, Segments.queue, List.length_map] at room
    exact room
  · have tags := sound.tags
    simp only [Story.queue, Segments.queue, List.map_map] at tags
    exact tags
  · intro retired
    refine ⟨kept.closed retired, ?_⟩
    intro op
    have after : (t.step (.segments op)).segments.retired = true :=
      op.run_stays_retired retired (kept.closed retired) t.records t.fifo
    exact ⟨after, (kept.step (.segments op)).closed after, fun takes =>
      op.run_retired takes retired (kept.closed retired) t.records t.fifo⟩

theorem segments_end_truthfully_after_failure :
    let t := [StoryOp.segments .openCut, .segments .nextTrigger,
      .segments (.writeFailed 1)].foldl Story.step
        (Story.start 1 .claude (.new 1 .hold 0 recordCap) .default)
    t.handed = [1] ∧ t.log.map Ended.outcome = [.writeFailed] ∧ ∀ e ∈ t.log, t.Truthful e :=
  ⟨by decide, by decide, (segments_end_truthfully 1 .claude _ _ _ rfl).2.2.2.2.1⟩

end AgentDeck.Probe
