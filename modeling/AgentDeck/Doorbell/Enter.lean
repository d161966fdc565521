import AgentDeck.Doorbell.Lines

/-!
# The Enter is safe

A run enqueues the Enter at most once, before any delete, and only in a step whose own seam read
shows exactly the line in an open, unmoved pane, after the line's last job was taken in full. A
cancellation that was fed before it leaves the Enter only to profiles without a delete key.
-/

namespace AgentDeck.Doorbell

open History

variable {input : Input} {powers : Powers} {t : Txn} {world : World} {log : List Record}

/-- The record's event reports the last line job enqueued as taken in full. -/
def Record.Completes (earlier : List Record) (record : Record) : Prop :=
  ∃ accepted text, record.Ends .line accepted true ∧ (linesOf earlier).getLast? = some text ∧
    text.length ≤ accepted

/-- The last line job was taken in full at this instant. -/
def LineDone (log : List Record) (instant : Instant) : Prop :=
  Somewhere (fun earlier record => record.Completes earlier ∧ record.input.now = instant ∧
    linesOf log = linesOf earlier) log

def AdmissionLost (log : List Record) : Prop := ∃ record ∈ log, record.input.event = .admissionLost

/-- The composer shows exactly this text, with nothing hidden and the cursor after it. -/
structure Frame.Shows (frame : Frame) (text : Text) : Prop where
  dialog : frame.dialog = none
  composer : ∃ composer, frame.composer = some composer ∧ composer.text = text ∧
    composer.placeholder = false ∧ composer.hidden = false ∧ composer.cursorAtEnd = true

/-- The seam read of the record's step, for a job other than the line's first. -/
structure Record.Reads (record : Record) (t : Txn) (read : SeamRead) : Prop where
  mem : some read ∈ record.input.seam
  frame : record.reply.txn.frame = read.frame
  isOpen : read.isOpen = true
  jobMark : read.jobMark = t.j0
  mode : read.mode = none
  clean : read.frame.clean = true
  epoch : read.frame.epoch = record.reply.txn.epoch

/-- What the step that enqueues the Enter has checked. -/
structure Record.Enters (t : Txn) (earlier : List Record) (record : Record) : Prop where
  alone : ∀ job ∈ jobsOf earlier, ∃ text, job = .line text
  read : ∃ read, record.Reads t read ∧ read.frame.Shows t.line
  before : record.input.now < t.deadline
  delay : ∃ instant, LineDone earlier instant ∧ instant + submitDelay ≤ record.input.now
  uncancelled : AdmissionLost earlier → t.caps.deleteKey = false

theorem Frame.shows_of_holdsExactly {frame : Frame} {text : Text} (dialog : frame.dialog = none)
    (exact : frame.holdsExactly text) : frame.Shows text := by
  refine ⟨dialog, ?_⟩
  simp only [Frame.holdsExactly] at exact
  cases shown : frame.composer with
  | none => simp [shown] at exact
  | some composer =>
    simp only [shown, Option.any_some, Bool.and_eq_true, Bool.not_eq_true', decide_eq_true_eq]
      at exact
    exact ⟨composer, rfl, exact.1.2, exact.1.1.1, exact.1.1.2, exact.2⟩

variable {record : Record} {admitted : Txn}

theorem Txn.Passes.reads {read : SeamRead} (passes : t.Passes record.input read)
    (same : admitted.Same t) (frame : record.reply.txn.frame = t.frame)
    (epoch : record.reply.txn.epoch = t.epoch) :
    record.Reads admitted read where
  mem := passes.mem
  frame := frame.trans passes.frame
  isOpen := passes.isOpen
  jobMark := passes.jobMark.trans same.j0
  mode := passes.mode
  clean := passes.clean
  epoch := passes.epoch.trans epoch.symm

/-! ## On the way to the Enter -/

theorem LineDone.cons {instant : Instant} (done : LineDone log instant) (quiet : record.jobs = []) :
    LineDone (record :: log) instant := by
  have kept : linesOf (record :: log) = linesOf log := by simp [quiet]
  simp only [LineDone, kept]
  exact Somewhere.cons done record

theorem lineDone_newest (completes : record.Completes log) (quiet : record.jobs = []) :
    LineDone (record :: log) record.input.now := by
  have kept : linesOf (record :: log) = linesOf log := by simp [quiet]
  exact somewhere_newest ⟨completes, rfl, kept⟩

variable {after : Txn}

theorem Shift.early_back {later : World} (shift : Shift input t world after later)
    (early : after.phase.early) : t.phase.early := by
  cases shift with
  | look | epoch | note | partTaken | noneTaken | retire => exact early
  | takeBack =>
    rw [Txn.takeBack_phase] at early
    exact early
  | typeRest phase | echoed phase => rw [phase]; rfl
  | cancelled phase => rcases phase with phase | phase <;> rw [phase] <;> rfl
  | headTaken _ _ phase | lineTaken _ _ phase => rw [phase]; rfl
  | confirming | withdraw | deleted => cases early

theorem Shift.lost_kept {later : World} (shift : Shift input t world after later)
    (early : after.phase.early) (deleteKey : t.caps.deleteKey)
    (lost : t.admissionLost) : after.admissionLost := by
  cases shift with
  | cancelled phase keyless =>
    rw [keyless] at deleteKey
    cases deleteKey
  | takeBack =>
    rcases t.takeBack_frame world with ⟨_, _, _, same⟩
    rw [same]
    exact lost
  | withdraw => cases early
  | _ => exact lost

/-- What a step keeps on its way to the Enter, the event being that of `record`. -/
structure Approaches (log : List Record) (record : Record) (t : Txn) : Prop where
  typed : t.Typed (linesOf log)
  began : Began record.before t
  alone : t.phase.early = true → ∀ job ∈ jobsOf log, ∃ text, job = .line text
  lost : t.phase.early = true → t.caps.deleteKey = true → AdmissionLost (record :: log) →
    t.admissionLost = true
  done : t.phase = .echo ∨ t.phase = .preCr → ∃ instant, t.lineDoneAt = some instant ∧
    (LineDone log instant ∨ record.Completes log ∧ record.input.now = instant)

theorem getLast?_take_succ {α : Type*} {items : List α} {place : ℕ} {default : α}
    (inside : place < items.length) :
    (items.take (place + 1)).getLast? = some (items.getD place default) := by
  rw [List.take_add_one, List.getD_eq_getElem?_getD, List.getElem?_eq_getElem inside]
  exact List.getLast?_concat

theorem Approaches.shift {later : World} (approaches : Approaches log record t)
    (steady : record.before.Steady) (busy : record.before.Busy)
    (shift : Shift record.input t world after later) : Approaches log record after := by
  refine ⟨shift.typed approaches.typed, approaches.began.shift shift, ?_, ?_, ?_⟩
  · intro early
    exact approaches.alone (shift.early_back early)
  · intro early deleteKey lost
    rw [shift.same.caps] at deleteKey
    exact shift.lost_kept early deleteKey
      (approaches.lost (shift.early_back early) deleteKey lost)
  · have done := approaches.done
    cases shift with
    | look | epoch | note | partTaken | noneTaken | retire => exact done
    | takeBack =>
      rcases t.takeBack_frame world with ⟨_, _, _, same⟩
      rw [same]
      exact done
    | typeRest | headTaken | confirming | withdraw | deleted => simp [Txn.enter]
    | echoed phase => exact fun _ => done (.inl phase)
    | cancelled phase => exact fun _ => done phase
    | lineTaken stage accepted phase event full =>
      intro _
      -- The step began with this stage's job on the writer, so the report is that job's.
      have begun := approaches.began.lineJob stage phase
      have owned := steady.ownsLine busy begun
      have typed := approaches.typed.lineJob stage phase
      refine ⟨record.input.now, rfl, .inr ⟨⟨accepted, _, ⟨event, owned⟩, ?_, full⟩, rfl⟩⟩
      rw [typed.2]
      exact getLast?_take_succ typed.1

structure Entry (admitted : Txn) (log : List Record) (t : Txn) : Prop where
  alone : t.phase.early = true → ∀ job ∈ jobsOf log, ∃ text, job = .line text
  once : (jobsOf log).count .cr ≤ 1
  lost : t.phase.early = true → t.caps.deleteKey = true → AdmissionLost log → t.admissionLost = true
  done : t.phase = .echo ∨ t.phase = .preCr →
    ∃ instant, t.lineDoneAt = some instant ∧ LineDone log instant
  guarded : Everywhere (fun earlier record => Job.cr ∈ record.jobs → record.Enters admitted earlier)
    log

theorem Entry.approaches {reply : Reply} (entry : Entry admitted log t)
    (alive : t.phase.isDone = false) (typed : t.Typed (linesOf log)) :
    Approaches log ⟨input, t, world, reply⟩ ((t.tracked input).noted input.event) := by
  have same := t.tracked_same input
  have phase := t.tracked_phase input
  rcases t.tracked_frame input with ⟨_, _, _, _, _, _, tracked⟩
  refine ⟨typed.congr phase same.stages, began_tracked alive, ?_, ?_, ?_⟩
  · intro early
    exact entry.alone (phase ▸ early)
  · intro early deleteKey fed
    simp only [Txn.noted, tracked, Bool.or_eq_true, decide_eq_true_eq]
    rcases fed with ⟨record, present, event⟩
    rcases List.mem_cons.mp present with rfl | older
    · exact .inr event
    · exact .inl (entry.lost (phase ▸ early) (same.caps ▸ deleteKey) ⟨record, older, event⟩)
  · intro inPhase
    simp only [tracked] at inPhase ⊢
    rcases entry.done inPhase with ⟨instant, lineDone, found⟩
    exact ⟨instant, lineDone, .inl found⟩

theorem Entry.leave (entry : Entry admitted log t) (quiet : Job.cr ∉ record.jobs)
    (late : after.phase.early = false) : Entry admitted (record :: log) after := by
  refine ⟨by simp [late], ?_, by simp [late], ?_, ?_⟩
  · rw [jobsOf_cons, List.count_append, List.count_eq_zero.mpr quiet]
    exact entry.once
  · rintro (phase | phase) <;> simp [phase, Phase.early] at late
  · exact everywhere_cons.mpr ⟨fun enters => absurd enters quiet, entry.guarded⟩

variable {last : Txn}

theorem Entry.stay (entry : Entry admitted log t) (approaches : Approaches log record last)
    (quiet : record.jobs = []) (phase : after.phase = last.phase) (caps : after.caps = last.caps)
    (lineDoneAt : after.lineDoneAt = last.lineDoneAt)
    (kept : after.phase.sound = true → last.admissionLost = true → after.admissionLost) :
    Entry admitted (record :: log) after := by
  refine ⟨?_, ?_, ?_, ?_, ?_⟩
  · rw [phase, jobsOf_cons, quiet, List.append_nil]
    exact approaches.alone
  · rw [jobsOf_cons, quiet, List.append_nil]
    exact entry.once
  · intro early deleteKey fed
    apply kept (Phase.sound_of_early early)
    rw [phase] at early
    rw [caps] at deleteKey
    exact approaches.lost early deleteKey fed
  · rw [phase, lineDoneAt]
    intro inPhase
    rcases approaches.done inPhase with ⟨instant, same, older | ⟨completes, rfl⟩⟩
    · exact ⟨instant, same, older.cons quiet⟩
    · exact ⟨_, same, lineDone_newest completes quiet⟩
  · refine everywhere_cons.mpr ⟨?_, entry.guarded⟩
    rw [quiet]
    intro enters
    cases enters

theorem Entry.type {text : Text} {stage : ℕ} (entry : Entry admitted log t)
    (approaches : Approaches log record last) (jobs : record.jobs = [.line text])
    (early : last.phase.early) (phase : after.phase = .lineJob stage)
    (caps : after.caps = last.caps) (kept : after.admissionLost = last.admissionLost) :
    Entry admitted (record :: log) after := by
  refine ⟨?_, ?_, ?_, by simp [phase], ?_⟩
  · intro _ job present
    rw [jobsOf_cons, jobs, List.mem_append, List.mem_singleton] at present
    rcases present with older | rfl
    · exact approaches.alone early job older
    · exact ⟨text, rfl⟩
  · rw [jobsOf_cons, jobs, List.count_append]
    exact entry.once
  · intro _ deleteKey fed
    rw [kept]
    exact approaches.lost early (caps ▸ deleteKey) fed
  · refine everywhere_cons.mpr ⟨?_, entry.guarded⟩
    simp [jobs]

theorem Entry.enter (entry : Entry admitted log t) (approaches : Approaches log record last)
    (jobs : record.jobs = [.cr]) (early : last.phase.early)
    (late : after.phase.early = false) (enters : record.Enters admitted log) :
    Entry admitted (record :: log) after := by
  have absent : (jobsOf log).count .cr = 0 := by
    rw [List.count_eq_zero]
    intro present
    rcases approaches.alone early _ present with ⟨text, same⟩
    cases same
  refine ⟨by simp [late], ?_, by simp [late], ?_, ?_⟩
  · rw [jobsOf_cons, jobs, List.count_append, absent]
    exact Nat.le_refl 1
  · rintro (phase | phase) <;> simp [phase, Phase.early] at late
  · exact everywhere_cons.mpr ⟨fun _ => enters, entry.guarded⟩

theorem Entry.leaf {lastWorld : World} {lost : Bool} {reply : Reply} (entry : Entry admitted log t)
    (approaches : Approaches log ⟨input, t, world, reply⟩ last)
    (leaf : Leaf input powers { last with admissionLost := lost } lastWorld reply)
    (same : admitted.Same last) (kept : reply.txn.phase.sound = true → lost = last.admissionLost) :
    Entry admitted (⟨input, t, world, reply⟩ :: log) reply.txn := by
  cases leaf with
  | rest actions quiet =>
    refine entry.stay approaches (filterMap_job_quiet quiet) rfl rfl rfl ?_
    intro sound
    exact (kept sound).trans
  | lose => exact entry.stay approaches rfl rfl rfl rfl fun _ _ => rfl
  | line stage phase =>
    have early : last.phase.early := by rw [show last.phase = .typing stage from phase]; rfl
    exact entry.type approaches rfl early rfl rfl (kept rfl)
  | cr read phase passes dialog exact floor keyless =>
    have early : last.phase.early := by rw [phase]; rfl
    apply entry.enter approaches rfl early rfl
    constructor
    · exact approaches.alone early
    · refine ⟨read, ?_, ?_⟩
      · have forgotten : admitted.Same { last with admissionLost := lost } :=
          ⟨same.attempt, same.line, same.caps, same.deadline, same.j0⟩
        exact passes.reads forgotten rfl rfl
      · rw [← same.line]
        exact Frame.shows_of_holdsExactly dialog exact
    · rw [← same.deadline]
      exact passes.before
    · rcases approaches.done (.inr phase) with ⟨instant, found, lineDone⟩
      have floor : instant + submitDelay ≤ input.now := by simpa [found] using floor
      rcases lineDone with older | ⟨_, justNow⟩
      · exact ⟨instant, older, floor⟩
      · -- The line was not taken in this very step: the delay has passed since.
        have positive : 0 < submitDelay := by decide
        have now : input.now = instant := justNow
        rw [now] at floor
        exact absurd floor (Nat.not_le.mpr (Nat.lt_add_of_pos_right positive))
    · rintro ⟨record, present, event⟩
      by_contra hasKey
      have deleteKey : last.caps.deleteKey := by
        rw [same.caps]
        simpa using hasKey
      have isLost := approaches.lost early deleteKey
        ⟨record, List.mem_cons_of_mem _ present, event⟩
      have keyed := keyless ((kept rfl).trans isLost)
      rw [deleteKey] at keyed
      cases keyed
  | deletes | suspended | paused | settled | expired | submitted | withdrawn | notTyped | retired =>
    apply entry.leave _ rfl
    simp [Record.jobs, Txn.enqueue, Txn.release, Action.job?]

/-! ## Runs -/

namespace Run

structure Entering (t : Txn) (run : Run) : Prop where
  typing : run.Typing t
  entry : Entry t run.log run.txn

theorem Entering.feed {run : Run} (entering : run.Entering t) (input : Input) :
    (run.feed input).Entering t := by
  have good := entering.typing.good
  refine ⟨entering.typing.feed input, ?_⟩
  rcases feed_cases good input with ⟨isDone, unmoved⟩ | ⟨alive, last, lastWorld, lost, reached⟩
  · simp only [Run.feed, record, unmoved]
    apply entering.entry.leave (by simp [Record.jobs])
    revert isDone
    cases run.txn.phase <;> simp [Phase.isDone, Phase.early]
  · apply entering.entry.leaf ?_ reached.leaf (good.same.trans reached.same) reached.kept
    apply reached.keeps (fun after _ => Approaches run.log _ after)
      (fun _ approaches shift => approaches.shift good.steady good.busy shift) good.steady good.busy
    exact entering.entry.approaches alive entering.typing.typed

theorem Entering.turn {run : Run} (entering : run.Entering t) (round : Round) :
    (run.turn round).Entering t := by
  cases round with
  | feed input => exact entering.feed input
  | move | answer => exact ⟨entering.typing.turn _, entering.entry⟩

end Run

theorem Txn.Fresh.entering (fresh : t.Fresh) (cell : Latch) :
    (Run.admitted t cell).Entering t where
  typing := fresh.typing cell
  entry := by
    refine ⟨?_, Nat.zero_le 1, ?_, ?_, everywhere_nil _⟩
    · intro _ job present
      cases present
    · rintro _ _ ⟨record, present, _⟩
      cases present
    · simp [Run.admitted, fresh.phase]

/-- In every run of an admitted transaction the Enter is enqueued at most once, and then guarded. -/
theorem enter_guarded {admission : Admission} {generation after : Generation} {draw : ℕ → UInt8}
    {id : MessageId} {caps : Caps} {now : Instant}
    (admits : admitTxn admission generation draw id caps now = (.ok t, after))
    (rounds : List Round) :
    (jobsOf ((Run.admitted t after.cell).after rounds).log).count .cr ≤ 1 ∧
      Everywhere (fun earlier record => Job.cr ∈ record.jobs → record.Enters t earlier)
        ((Run.admitted t after.cell).after rounds).log := by
  have entering := Run.after_keeps (fun run => run.Entering t)
    ((admit_fresh admits).1.entering after.cell) (fun _ round holds => holds.turn round) rounds
  exact ⟨entering.entry.once, entering.entry.guarded⟩

/-- The line is typed, shown and entered after its delay. -/
def enteredRounds : List Round :=
  [.feed ⟨.tick, [some bareFrame.read], 0⟩, .answer 0 false, .feed ⟨.jobStarted, [], 1⟩,
    .feed ⟨.jobEnded bareLine.length true, [], 2⟩,
    .feed ⟨.frame (bareFrame.showing bareLine), [], 3⟩,
    .feed ⟨.tick, [some (bareFrame.showing bareLine).read], submitDelay + 2⟩]

theorem enter_guarded_enteredRounds :
    (jobsOf ((Run.admitted (bareTxn fullCaps) (.opened 1)).after enteredRounds).log).count .cr = 1 ∧
      Everywhere
        (fun earlier record => Job.cr ∈ record.jobs → record.Enters (bareTxn fullCaps) earlier)
        ((Run.admitted (bareTxn fullCaps) (.opened 1)).after enteredRounds).log :=
  ⟨by decide +kernel, (enter_guarded (bare_admits fullCaps) enteredRounds).2⟩

end AgentDeck.Doorbell
