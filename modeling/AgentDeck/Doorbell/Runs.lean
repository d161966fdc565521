import AgentDeck.Lib.History
import AgentDeck.Doorbell.LatchRace
import AgentDeck.Doorbell.Steady

/-!
# Runs of a transaction

A run of an admitted transaction feeds it any events, with any answers of its seam, while others
move its cell and the writer answers its claims, in any order. The log keeps what each step was fed,
what it started from and what it replied, newest first.
-/

namespace AgentDeck.Doorbell

open History

structure Record where
  input : Input
  before : Txn
  world : World
  reply : Reply
  deriving DecidableEq

/-- The writer comes to a job: `start`, or `start_if` with its condition's answer. -/
def ClaimState.answered (refuses : Bool) : ClaimState → ClaimState
  | queued => if refuses then refused else started
  | state => state

inductive Round
  | feed (input : Input)
  | move (op : LatchOp)
  | answer (claim : ℕ) (refuses : Bool)
  deriving DecidableEq

structure Run where
  txn : Txn
  world : World
  log : List Record
  deriving DecidableEq

namespace Run

def record (run : Run) (input : Input) : Record :=
  ⟨input, run.txn, run.world, run.txn.on run.world input.event input.seam input.now⟩

def feed (run : Run) (input : Input) : Run :=
  ⟨(run.record input).reply.txn, (run.record input).reply.world, run.record input :: run.log⟩

def turn (run : Run) : Round → Run
  | .feed input => run.feed input
  | .move op => { run with world := { run.world with cell := (op.perform run.world.cell).2 } }
  | .answer claim refuses =>
    { run with
      world := { run.world with claims := run.world.claims.modify claim (.answered refuses) } }

def after (run : Run) (rounds : List Round) : Run := rounds.foldl turn run

def admitted (t : Txn) (cell : Latch) : Run := ⟨t, ⟨cell, []⟩, []⟩

theorem after_keeps (kept : Run → Prop) {run : Run} (start : kept run)
    (turn : ∀ run round, kept run → kept (run.turn round)) (rounds : List Round) :
    kept (run.after rounds) := by
  induction rounds generalizing run with
  | nil => exact start
  | cons round rest ih => exact ih (turn run round start)

end Run

/-! ## What a log says -/

def Action.job? : Action → Option Job
  | .enqueue job _ => some job
  | _ => none

def Record.jobs (record : Record) : List Job := record.reply.actions.filterMap Action.job?

/-- The jobs enqueued, oldest first; a job's place is its claim's. -/
def jobsOf : List Record → List Job
  | [] => []
  | record :: earlier => jobsOf earlier ++ record.jobs

def Job.text? : Job → Option Text
  | .line text => some text
  | _ => none

/-- The texts of the line jobs enqueued, oldest first. -/
def linesOf (log : List Record) : List Text := (jobsOf log).filterMap Job.text?

def Record.Ends (record : Record) (kind : JobKind) (accepted : ℕ) (ok : Bool) : Prop :=
  record.input.event = .jobEnded accepted ok ∧
    (record.before.job = .queued kind ∨ record.before.job = .running kind)

@[simp]
theorem jobsOf_cons (record : Record) (log : List Record) :
    jobsOf (record :: log) = jobsOf log ++ record.jobs := rfl

@[simp]
theorem linesOf_cons (record : Record) (log : List Record) :
    linesOf (record :: log) = linesOf log ++ record.jobs.filterMap Job.text? := by
  simp [linesOf]

/-! ## What no step changes -/

structure Txn.Same (t after : Txn) : Prop where
  attempt : after.attempt = t.attempt
  line : after.line = t.line
  caps : after.caps = t.caps
  deadline : after.deadline = t.deadline
  j0 : after.j0 = t.j0

variable {input : Input} {powers : Powers} {t : Txn} {world : World}

theorem Txn.Same.refl (t : Txn) : t.Same t := ⟨rfl, rfl, rfl, rfl, rfl⟩

theorem Txn.Same.trans {middle after : Txn} (first : t.Same middle) (second : middle.Same after) :
    t.Same after :=
  ⟨second.attempt.trans first.attempt, second.line.trans first.line, second.caps.trans first.caps,
    second.deadline.trans first.deadline, second.j0.trans first.j0⟩

theorem Txn.Same.stages {after : Txn} (same : t.Same after) : after.stages = t.stages := by
  simp only [Txn.stages, same.line, same.caps]

theorem Txn.takeBack_same (t : Txn) (world : World) : t.Same (t.takeBack world).1 := by
  rcases takeBack_frame t world with ⟨_, _, _, same⟩
  rw [same]
  exact ⟨rfl, rfl, rfl, rfl, rfl⟩

theorem Txn.tracked_same (t : Txn) (input : Input) : t.Same (t.tracked input) := by
  rcases tracked_frame t input with ⟨_, _, _, _, _, _, same⟩
  rw [same]
  exact ⟨rfl, rfl, rfl, rfl, rfl⟩

theorem Shift.same {after : Txn} {later : World} (shift : Shift input t world after later) :
    t.Same after := by
  cases shift with
  | takeBack => exact t.takeBack_same world
  | _ => exact ⟨rfl, rfl, rfl, rfl, rfl⟩

theorem Leaf.same {reply : Reply} (leaf : Leaf input powers t world reply) : t.Same reply.txn := by
  cases leaf <;> exact ⟨rfl, rfl, rfl, rfl, rfl⟩

structure Reached (input : Input) (t : Txn) (world : World) (last : Txn) (lastWorld : World)
    (lost : Bool) (reply : Reply) : Prop where
  shifts : Shifts input ((t.tracked input).noted input.event) world last lastWorld
  leaf : Leaf input (t.powers world input) { last with admissionLost := lost } lastWorld reply
  held : Held input last
  same : t.Same last
  kept : reply.txn.phase.sound = true → lost = last.admissionLost

theorem Reached.keeps {last : Txn} {lastWorld : World} {lost : Bool} {reply : Reply}
    (reached : Reached input t world last lastWorld lost reply) (kept : Txn → World → Prop)
    (step : ∀ {t after : Txn} {world later : World}, Held input t → kept t world →
      Shift input t world after later → kept after later)
    (steady : t.Steady) (busy : t.Busy)
    (holds : kept ((t.tracked input).noted input.event) world) : kept last lastWorld := by
  have held : Held input ((t.tracked input).noted input.event) :=
    ⟨(steady.tracked input).noted input.event, (Txn.tracked_told input busy).ended⟩
  have both := reached.shifts.keeps (fun t world => Held input t ∧ kept t world)
    (fun before shift => ⟨before.1.shift shift, step before.1 before.2 shift⟩) ⟨held, holds⟩
  exact both.2

theorem Txn.on_reached (input : Input) (world : World) (alive : t.phase.isDone = false)
    (steady : t.Steady) (busy : t.Busy) :
    ∃ last lastWorld lost, Reached input t world last lastWorld lost
      (t.on world input.event input.seam input.now) := by
  rcases on_leaf input world alive steady busy with ⟨last, lastWorld, lost, shifts,
    leaf, held, kept⟩
  have same : t.Same last := by
    apply shifts.keeps (fun after _ => t.Same after) (fun before shift => before.trans shift.same)
    exact (t.tracked_same input).trans ⟨rfl, rfl, rfl, rfl, rfl⟩
  exact ⟨last, lastWorld, lost, shifts, leaf, held, same, kept⟩

namespace Run

/-- A run whose transaction is steady and still the one admitted. -/
structure Good (t : Txn) (run : Run) : Prop where
  steady : run.txn.Steady
  busy : run.txn.Busy
  same : t.Same run.txn

theorem feed_cases {run : Run} (good : run.Good t) (input : Input) :
    run.txn.phase.isDone = true ∧
        run.txn.on run.world input.event input.seam input.now = ⟨[], run.txn, run.world⟩ ∨
      run.txn.phase.isDone = false ∧ ∃ last lastWorld lost,
        Reached input run.txn run.world last lastWorld lost
          (run.txn.on run.world input.event input.seam input.now) := by
  cases isDone : run.txn.phase.isDone with
  | true => exact .inl ⟨rfl, Txn.on_done isDone _ _ _⟩
  | false => exact .inr ⟨rfl, Txn.on_reached input run.world isDone good.steady good.busy⟩

theorem good_feed {run : Run} (good : run.Good t) (input : Input) : (run.feed input).Good t := by
  have steady := Txn.on_steady input run.world good.steady good.busy
  refine ⟨steady.1, steady.2, good.same.trans ?_⟩
  rcases feed_cases good input with ⟨_, unmoved⟩ | ⟨_, last, lastWorld, lost, reached⟩
  · simp only [feed, record, unmoved]
    exact Txn.Same.refl _
  · have forgotten : last.Same { last with admissionLost := lost } := ⟨rfl, rfl, rfl, rfl, rfl⟩
    exact reached.same.trans (forgotten.trans reached.leaf.same)

theorem good_turn {run : Run} (good : run.Good t) (round : Round) : (run.turn round).Good t := by
  cases round with
  | feed input => exact good_feed good input
  | move | answer => exact ⟨good.steady, good.busy, good.same⟩

end Run

/-! ## Admission -/

structure Txn.Fresh (t : Txn) : Prop where
  phase : t.phase = .typing 0
  job : t.job = .idle
  claim : t.claim = none
  crEndedAt : t.crEndedAt = none
  wrote : t.wrote = false
  accepted : t.accepted = 0
  withdrawal : t.withdrawal = none
  afterCr : t.afterCr = false

theorem admit_fresh {admission : Admission} {generation after : Generation} {draw : ℕ → UInt8}
    {id : MessageId} {caps : Caps} {now : Instant}
    (admits : admitTxn admission generation draw id caps now = (.ok t, after)) :
    t.Fresh ∧ after.cell = .opened t.attempt := by
  simp only [admitTxn] at admits
  split at admits
  · cases admits
  split at admits
  · cases admits
  split at admits
  · cases admits
  split at admits
  · cases admits
  rename_i attempt _ _ _ cell opened
  cases admits
  refine ⟨⟨rfl, rfl, rfl, rfl, rfl, rfl, rfl, rfl⟩, ?_⟩
  simp only [Latch.admitAttempt, Latch.advance_eq] at opened
  split at opened
  · cases opened
    rfl
  · cases opened

theorem Txn.Fresh.good (fresh : t.Fresh) (cell : Latch) : (Run.admitted t cell).Good t where
  steady := by
    apply steady_of_idle fresh.job
    · exact fun _ => fresh.wrote
    · exact fun _ => fresh.crEndedAt
    · exact fun _ => fresh.withdrawal
    · simp [fresh.phase, Phase.withdraws]
  busy := .inl (by simp [Run.admitted, fresh.phase, Phase.jobless])
  same := .refl t

/-! ## A bare pane -/

/-- An empty composer with its placeholder. -/
def bareFrame : Frame where
  epoch := 0
  clean := true
  dialog := none
  composer := some ⟨[], true, true, false, false⟩
  userCells := []
  text := []
  touched := false

/-- The same pane with this text in its composer. -/
def Frame.showing (frame : Frame) (text : Text) : Frame :=
  { frame with composer := some ⟨text, true, false, false, false⟩ }

def Frame.read (frame : Frame) : SeamRead := ⟨0, 0, frame, none, true⟩

def bareAdmission : Admission where
  activation := none
  mode := none
  ledgerIdle := true
  watermark := 0
  jobMark := 0
  frame := bareFrame
  nudgeInFlight := false
  settling := false
  submitRoute := true
  stillAdmitted := true

def bareGeneration : Generation := ⟨⟨1⟩, .default, .resolved 0 .notTyped⟩

def fullCaps : Caps := ⟨true, true, true, true, none⟩

def shortId : MessageId := ⟨"m1".toList, by simp⟩

def bareToken : RingToken := .fromDraws (fun _ => 0) 0

def bareLine : Text := bareToken.line shortId

/-- The transaction that the bare pane admits for these capabilities. -/
def bareTxn (caps : Caps) : Txn where
  attempt := 1
  token := bareToken
  line := bareLine
  caps := caps
  deadline := txnMax
  w0 := 0
  j0 := 0
  epoch := 0
  phase := .typing 0
  frame := bareFrame
  job := .idle
  claim := none
  crEndedAt := none
  wrote := false
  accepted := 0
  lineDoneAt := none
  phaseSince := 0
  withdrawal := none
  afterCr := false
  admissionLost := false
  unresolvedAt := none

def bareAfter : Generation := ⟨⟨2⟩, AttemptRing.default.record 1 bareToken, .opened 1⟩

theorem bare_admits (caps : Caps) :
    admitTxn bareAdmission bareGeneration (fun _ => 0) shortId caps 0 =
      (.ok (bareTxn caps), bareAfter) := rfl

end AgentDeck.Doorbell
