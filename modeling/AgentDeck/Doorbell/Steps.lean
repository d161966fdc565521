import AgentDeck.Doorbell.Txn

/-!
# What one step of the transaction can do

A handler of the transaction changes its state a few times and then either waits, queues one job,
pauses or releases. `Shift` lists the changes on the way and `Leaf` the ends, each with the guards
the code has passed when it gets there; every step is some shifts and one leaf. The safety results
are then proved for the shifts and the leaves, and not handler by handler.

Three ends rest on the transaction's own view alone, and the results about the latch and the jobs
say when that view is wrong. A step may take them only with the power to: `ends` for an ending with
nothing written, `confirms` for a confirmed withdrawal, `leaves` for a release that leaves a queued
job behind. The powers are read off the state before the step.
-/

namespace AgentDeck.Doorbell

/-- One event with the seam's answers and the time of its step. -/
structure Input where
  event : Event
  seam : Seam
  now : Instant
  deriving DecidableEq

structure Powers where
  ends : Bool
  confirms : Bool
  leaves : Bool

namespace Phase

def early : Phase → Bool
  | typing _ | lineJob _ | headEcho | echo | preCr => true
  | _ => false

def sound : Phase → Bool
  | crJob | confirm => true
  | phase => phase.early

def jobless : Phase → Bool
  | typing _ | headEcho | echo | preCr | confirm | withdrawing | confirmWithdrawn => true
  | _ => false

def withdraws : Phase → Bool
  | withdrawing | deleteJob | confirmWithdrawn => true
  | _ => false

def isJob : Phase → Bool
  | lineJob _ | crJob | deleteJob => true
  | _ => false

def isDone : Phase → Bool
  | done _ => true
  | _ => false

def isPause : Phase → Bool
  | pause _ => true
  | _ => false

theorem sound_of_early {phase : Phase} (early : phase.early) : phase.sound := by
  cases phase <;> first | rfl | cases early

theorem sound_of_isDone {phase : Phase} (isDone : phase.isDone) : phase.sound = false := by
  cases phase <;> first | rfl | cases isDone

end Phase

def Owned.IsFor (owned : Owned) (kind : JobKind) : Prop :=
  owned = .idle ∨ owned = .queued kind ∨ owned = .running kind

namespace Txn

variable (t : Txn)

/-- The transaction with the event observed and its job tracked. -/
def tracked (input : Input) : Txn :=
  (t.observe input.event).trackJob input.event input.now

def noted (event : Event) : Txn :=
  { t with admissionLost := t.admissionLost || decide (event = .admissionLost) }

/-- The transaction owns a job that the writer may still come to. -/
def isQueued : Bool :=
  match t.job with
  | .queued _ => true
  | _ => false

/-- The hook arm has moved the cell on this exact evidence: the step is over. -/
def heardEvidence (world : World) : Event → Bool
  | .evidence token exact =>
    decide (token = t.token) && exact && t.wrote &&
      (decide (world.cell = .resolved t.attempt .submitted) ||
        decide (world.cell = .resolved t.attempt .lateExact))
  | _ => false

/-- The event gets to the step of the phase. -/
def reaches (world : World) (input : Input) : Bool :=
  decide (input.now < t.deadline) && decide (input.event ≠ .retired) &&
    (decide (input.event ≠ .admissionLost) || t.wrote) && !t.heardEvidence world input.event

/-- The first line's seam is refused. -/
def refusesLine (input : Input) : Bool :=
  match (t.readSeam input.seam true input.now).1 with
  | .contended _ => false
  | .pass frame => !frame.emptyAndReady
  | _ => true

/-- The first line stage's job ends without a byte. -/
def failsLine (event : Event) : Bool :=
  match event with
  | .jobEnded accepted _ => decide (accepted = 0)
  | .jobNotStarted => !t.wrote
  | _ => false

/-- The step of a tracked transaction ends it with nothing written. -/
def endsUnwritten (world : World) (input : Input) : Bool :=
  if input.event = .admissionLost ∨ t.deadline ≤ input.now then
    decide (input.event ≠ .retired) && !(t.takeBack world).1.wrote
  else
    decide (input.event ≠ .retired) &&
      match t.phase with
      | .typing 0 => t.refusesLine input
      | .lineJob 0 => t.failsLine input.event
      | _ => false

def hasDeleted (event : Event) : Bool :=
  match t.phase, t.withdrawal, event with
  | .confirmWithdrawn, _, _ => true
  | .deleteJob, some (deletes, _), .jobEnded accepted ok => ok && decide (accepted = deletes)
  | _, _, _ => false

/-- The step of a tracked transaction confirms its withdrawal. -/
def confirmsWithdrawal (world : World) (input : Input) : Bool :=
  t.reaches world input && t.hasDeleted input.event && t.frame.clean && t.frame.placeholderEmpty

/-- A stalled job finds the attempt resolved without its user. -/
def stallsResolved (cell : Latch) : Bool :=
  match cell with
  | .resolved a .submitted | .resolved a .lateExact | .resolved a .withdrawn =>
    decide (a = t.attempt)
  | _ => false

/-- The pause finds the attempt resolved, or resolves it by the transcript. -/
def pausesResolved (cell : Latch) : Bool :=
  match cell with
  | .resolved a _ => decide (a = t.attempt)
  | .opened a | .suspended a _ => decide (a = t.attempt) && t.transcriptEcho
  | .retired => false

/-- The step of a tracked transaction releases it with its job still queued. -/
def leavesQueued (world : World) (input : Input) : Bool :=
  t.reaches world input && t.isQueued &&
    match t.phase with
    | .lineJob _ | .crJob | .deleteJob =>
      decide (input.event = .jobStalled) && t.stallsResolved world.cell
    | .pause _ => t.pausesResolved world.cell
    | _ => false

def powers (world : World) (input : Input) : Powers where
  ends := (t.tracked input).endsUnwritten world input
  confirms := (t.tracked input).confirmsWithdrawal world input
  leaves := (t.tracked input).leavesQueued world input

/-- What the cell has to hold for this outcome to be read off it. -/
def Settles (cell : Latch) : Outcome → Prop
  | .submitted => ∃ how, cell = .resolved t.attempt how ∧ how ≠ .withdrawn ∧ how ≠ .user
  | .withdrawn => cell = .resolved t.attempt .withdrawn
  | .unresolved cause => cell = .suspended t.attempt cause ∨ cell = .resolved t.attempt .user
  | .nothingWritten _ | .retired => False

/-- The phase is one with its job on the writer, or one without a job. -/
def Busy : Prop :=
  t.phase.jobless = true ∨ t.phase.isPause = true ∨ t.phase.isDone = true ∨ t.job ≠ .idle

/-- Between two steps, and after its events within one: what the phase says of the job and of the
withdrawal. -/
structure Steady (t : Txn) : Prop where
  jobless : t.phase.jobless = true → t.job = .idle
  line : ∀ stage, t.phase = .lineJob stage → t.job.IsFor .line
  cr : t.phase = .crJob → t.job.IsFor .cr
  deletes : t.phase = .deleteJob → t.job.IsFor .deletes
  fresh : t.phase = .typing 0 → t.wrote = false
  running : t.job = .running .line → t.wrote = true
  early : t.phase.early = true → t.crEndedAt = none
  sound : t.phase.sound = true → t.withdrawal = none
  withdrawing : t.phase.withdraws = true → t.withdrawal ≠ none

/-- A failure here comes after the first possible byte, but for a stall before the start. -/
def Fallible (input : Input) : Prop :=
  t.phase ≠ .typing 0 ∧
    (t.phase = .lineJob 0 → t.wrote = false → input.event = .jobStalled ∧ t.isQueued = true)

/-- The seam's read passed, for a job other than the line's first. -/
structure Passes (t : Txn) (input : Input) (read : SeamRead) : Prop where
  mem : some read ∈ input.seam
  isOpen : read.isOpen = true
  jobMark : read.jobMark = t.j0
  mode : read.mode = none
  frame : t.frame = read.frame
  clean : read.frame.clean = true
  epoch : read.frame.epoch = t.epoch
  before : input.now < t.deadline

end Txn

/-- A change on the way to the end of a step. -/
inductive Shift (input : Input) (t : Txn) (world : World) : Txn → World → Prop
  | look (frame : Frame) : Shift input t world { t with frame := frame } world
  | epoch (clean : t.frame.clean = true) :
      Shift input t world { t with epoch := t.frame.epoch } world
  | note (entry : Option (String × Option ℕ)) :
      Shift input t world { t with unresolvedAt := entry } world
  | typeRest (phase : t.phase = .headEcho) :
      Shift input t world (t.enter (.typing 1) input.now) world
  | echoed (phase : t.phase = .echo) : Shift input t world (t.enter .preCr input.now) world
  | cancelled (phase : t.phase = .echo ∨ t.phase = .preCr) (keyless : t.caps.deleteKey = false) :
      Shift input t world ({ t with admissionLost := false }.enter .preCr input.now) world
  | headTaken (stage accepted : ℕ) (phase : t.phase = .lineJob stage)
      (event : input.event = .jobEnded accepted true)
      (full : (t.stages.getD stage []).length ≤ accepted) (more : stage + 1 < t.stages.length)
      (taken : ¬(accepted = 0 ∧ stage = 0)) :
      Shift input t world
        ({ t.takeLine stage accepted with wrote := true }.enter .headEcho input.now) world
  | lineTaken (stage accepted : ℕ) (phase : t.phase = .lineJob stage)
      (event : input.event = .jobEnded accepted true)
      (full : (t.stages.getD stage []).length ≤ accepted) (last : t.stages.length ≤ stage + 1)
      (taken : ¬(accepted = 0 ∧ stage = 0)) :
      Shift input t world
        ({ t.takeLine stage accepted with wrote := true, lineDoneAt := some input.now }.enter .echo
          input.now) world
  | partTaken (stage accepted : ℕ) (ok : Bool) (phase : t.phase = .lineJob stage)
      (event : input.event = .jobEnded accepted ok) (taken : ¬(accepted = 0 ∧ stage = 0)) :
      Shift input t world { t.takeLine stage accepted with wrote := true } world
  | noneTaken (ok : Bool) (phase : t.phase = .lineJob 0) (event : input.event = .jobEnded 0 ok) :
      Shift input t world { t.takeLine 0 0 with wrote := false } world
  | confirming (phase : t.phase = .crJob) (event : input.event = .jobEnded 1 true) :
      Shift input t world (t.enter .confirm input.now) world
  | withdraw (deletes : ℕ) (cause : Cause) (lost : Bool)
      (phase : t.phase.sound = true ∨ t.phase.isPause = true ∧ t.withdrawal = none)
      (fallible : t.Fallible input)
      (free : t.mayWithdraw input.now = true ∨ t.phase = .echo ∨ t.phase = .preCr) :
      Shift input t world
        ({ t with admissionLost := lost, withdrawal := some (deletes, cause) }.enter .withdrawing
          input.now) world
  | deleted (deletes : ℕ) (cause : Cause) (phase : t.phase = .deleteJob)
      (withdrawal : t.withdrawal = some (deletes, cause))
      (event : input.event = .jobEnded deletes true) :
      Shift input t world (t.enter .confirmWithdrawn input.now) world
  | takeBack : Shift input t world (t.takeBack world).1 (t.takeBack world).2
  | retire : Shift input t world t { world with cell := .retired }

inductive Leaf (input : Input) (powers : Powers) (t : Txn) (world : World) : Reply → Prop
  | rest (actions : List Action) (quiet : ∀ action ∈ actions, ∃ time, action = .wakeAt time)
      (busy : t.Busy) : Leaf input powers t world ⟨actions, t, world⟩
  | lose (time : Instant) (wrote : t.wrote = true) (running : t.job = .running .line) :
      Leaf input powers t world ⟨[.wakeAt time], { t with admissionLost := true }, world⟩
  | line (stage : ℕ) (phase : t.phase = .typing stage) :
      Leaf input powers t world
        (t.enqueue world .line (.line (t.stages.getD stage [])) (.lineJob stage) input.now)
  | cr (read : SeamRead) (phase : t.phase = .preCr) (passes : t.Passes input read)
      (dialog : read.frame.dialog = none) (exact : read.frame.holdsExactly t.line = true)
      (floor : t.lineDoneAt.getD input.now + submitDelay ≤ input.now)
      (kept : t.admissionLost = true → t.caps.deleteKey = false) :
      Leaf input powers t world (t.enqueue world .cr .cr .crJob input.now)
  | deletes (read : SeamRead) (count : ℕ) (cause : Cause) (phase : t.phase = .withdrawing)
      (withdrawal : t.withdrawal = some (count, cause)) (passes : t.Passes input read)
      (strict : t.strict = some count) :
      Leaf input powers t world
        (t.enqueue world .deletes (.deletes count) .deleteJob input.now)
  | suspended (cause : Cause) (time : Instant) (alive : t.phase.isDone = false)
      (fallible : t.Fallible input) (opened : world.cell = .opened t.attempt) :
      Leaf input powers t world
        ⟨[.reproject, .wakeAt time], t.enter (.pause cause) input.now,
          { world with cell := .suspended t.attempt cause }⟩
  | paused (cause : Cause) (time : Instant) (alive : t.phase.isDone = false)
      (fallible : t.Fallible input) :
      Leaf input powers t world ⟨[.wakeAt time], t.enter (.pause cause) input.now, world⟩
  | settled (outcome : Outcome) (settles : t.Settles world.cell outcome)
      (unqueued : t.isQueued = true → powers.leaves = true) :
      Leaf input powers t world (t.release world outcome)
  | expired (wrote : t.wrote = true) (unqueued : t.isQueued = false)
      (unsettled : t.settledOutcome world.cell = none) :
      Leaf input powers t world
        (t.release { world with cell := (world.cell.suspend t.attempt t.expireCause).2 }
          (.unresolved t.expireCause))
  | submitted (unqueued : t.isQueued = true → powers.leaves = true)
      (moves : t.phase = .confirm ∨ (world.cell.resolve t.attempt .submitted).1.isOk = true) :
      Leaf input powers t world
        (t.release { world with cell := (world.cell.resolve t.attempt .submitted).2 } .submitted)
  | withdrawn (phase : t.phase = .confirmWithdrawn) (allowed : powers.confirms = true) :
      Leaf input powers t world
        (t.release { world with cell := (world.cell.resolve t.attempt .withdrawn).2 } .withdrawn)
  | notTyped (why : NotTyped) (unwritten : t.wrote = false)
      (unqueued : t.isQueued = false) (allowed : powers.ends = true ∨ world.cell = .retired) :
      Leaf input powers t world
        (t.release { world with cell := (world.cell.notTyped t.attempt).2 } (.nothingWritten why))
  | retired (isRetired : world.cell = .retired) (wrote : t.wrote = true)
      (unqueued : t.isQueued = false) : Leaf input powers t world (t.release world .retired)

inductive Shifts (input : Input) : Txn → World → Txn → World → Prop
  | refl (t : Txn) (world : World) : Shifts input t world t world
  | head {t middle after : Txn} {world between later : World}
      (shift : Shift input t world middle between)
        (rest : Shifts input middle between after later) :
      Shifts input t world after later

/-- Some shifts, and one leaf. A cancellation is forgotten only on the way to a pause or an end. -/
def Stepped (input : Input) (powers : Powers) (t : Txn) (world : World) (reply : Reply) : Prop :=
  ∃ last lastWorld lost, Shifts input t world last lastWorld ∧
    Leaf input powers { last with admissionLost := lost } lastWorld reply ∧
    (reply.txn.phase.sound = true → lost = last.admissionLost)

end AgentDeck.Doorbell
