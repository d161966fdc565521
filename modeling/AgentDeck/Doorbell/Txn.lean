import AgentDeck.Time
import AgentDeck.Doorbell.Token

/-!
# The doorbell's transaction

`Txn` of `src/doorbell_txn.rs`: from admission to release. A handler of the source that takes
`&mut self` and returns actions is a function from the transaction and the world outside it (the
latch cell and the claims of the jobs it queued) to a `Reply`. The seam's answers of one step come
as a list, taken from its head; past its end every lock is contended. A claim is named by its place
in the order of the enqueues.

Where the source would panic on an `expect` (a withdrawal without its deletes, a queued job without
its claim), the model has a default that no run reaches.
-/

namespace AgentDeck.Doorbell

def txnMax : Duration := fromSecs 3

def echoWait : Duration := fromMillis 1500

def submitConfirmWait : Duration := fromSecs 1

def submitDelay : Duration := fromMillis 150

def seamRetry : Duration := fromMillis 1

def tokenHeadChars : ℕ := 8

structure ComposerView where
  text : Text
  cursorAtEnd : Bool
  placeholder : Bool
  selection : Bool
  hidden : Bool
  deriving DecidableEq

structure Frame where
  epoch : ℕ
  clean : Bool
  dialog : Option String
  composer : Option ComposerView
  userCells : List Text
  text : Text
  touched : Bool
  deriving DecidableEq

namespace Frame

def emptyAndReady (frame : Frame) : Bool :=
  !frame.touched && frame.dialog.isNone && frame.composer.any fun c =>
    c.placeholder || (!c.hidden && c.text.isEmpty && c.cursorAtEnd)

/-- The composer holds exactly `text`, the cursor right after it. -/
def holdsExactly (frame : Frame) (text : Text) : Bool :=
  frame.composer.any fun c =>
    !c.placeholder && !c.hidden && decide (c.text = text) && c.cursorAtEnd

/-- The composer holds the first `chars` characters of the line. -/
def holdsPrefix (frame : Frame) (line : Text) (chars : ℕ) : Bool :=
  frame.composer.any fun c =>
    !c.placeholder && !c.hidden && c.cursorAtEnd && decide (c.text.length = chars) &&
      c.text.isPrefixOf line

def placeholderEmpty (frame : Frame) : Bool :=
  frame.dialog.isNone && frame.composer.any ComposerView.placeholder

end Frame

structure Caps where
  deleteKey : Bool
  placeholder : Bool
  hookRoute : Bool
  transcriptRoute : Bool
  stagedHead : Option ℕ
  deriving DecidableEq

/-- What the final seam reads under its locks; `mode` is the clause against typing, if any. -/
structure SeamRead where
  watermark : ℕ
  jobMark : ℕ
  frame : Frame
  mode : Option String
  isOpen : Bool
  deriving DecidableEq

/-- The seam's answers within one step; `none` for a contended lock. -/
abbrev Seam := List (Option SeamRead)

inductive NotTyped
  | cannotType (clause : String)
  | awaitingPrompt
  | dialog (name : String)
  | humanInput
  | layout
  | settling
  | notAdmitted
  | retired
  | exhausted
  | noToken
  | deadline
  | writeFailed
  | offGround
  deriving DecidableEq

inductive Outcome
  | nothingWritten (why : NotTyped)
  | submitted
  | withdrawn
  | unresolved (cause : Cause)
  | retired
  deriving DecidableEq

inductive Job
  | line (text : Text)
  | cr
  | deletes (count : ℕ)
  deriving DecidableEq

inductive ClaimState
  | queued
  | started
  | withdrawn
  | refused
  deriving DecidableEq

/-- What the transaction asks of the daemon; `claim` is the place of the job's claim. -/
inductive Action
  | enqueue (job : Job) (claim : ℕ)
  | wakeAt (time : Instant)
  | reproject
  | release (outcome : Outcome)
  deriving DecidableEq

inductive Event
  | frame (frame : Frame)
  | jobStarted
  | jobEnded (accepted : ℕ) (ok : Bool)
  | jobStalled
  | jobNotStarted
  | evidence (token : RingToken) (exact : Bool)
  | tick
  | modeChanged
  | admissionLost
  | retired
  deriving DecidableEq

inductive Phase
  | typing (stage : ℕ)
  | lineJob (stage : ℕ)
  | headEcho
  | echo
  | preCr
  | crJob
  | confirm
  | withdrawing
  | deleteJob
  | confirmWithdrawn
  | pause (cause : Cause)
  | done (outcome : Outcome)
  deriving DecidableEq

inductive JobKind
  | line
  | cr
  | deletes
  deriving DecidableEq

inductive Owned
  | idle
  | queued (kind : JobKind)
  | running (kind : JobKind)
  deriving DecidableEq

inductive Ending
  | notTyped (why : NotTyped)
  | expire
  | submitted
  | retired
  deriving DecidableEq

structure Txn where
  attempt : UInt32
  token : RingToken
  line : Text
  caps : Caps
  deadline : Instant
  w0 : ℕ
  j0 : ℕ
  epoch : ℕ
  phase : Phase
  frame : Frame
  job : Owned
  claim : Option ℕ
  crEndedAt : Option Instant
  wrote : Bool
  accepted : ℕ
  lineDoneAt : Option Instant
  phaseSince : Instant
  withdrawal : Option (ℕ × Cause)
  afterCr : Bool
  admissionLost : Bool
  /-- Diagnosis: the check that last unresolved the attempt, and the composer's length then. -/
  unresolvedAt : Option (String × Option ℕ)
  deriving DecidableEq

/-- What the transaction shares with the daemon: its cell and its jobs' claims. -/
structure World where
  cell : Latch
  claims : List ClaimState
  deriving DecidableEq

structure Reply where
  actions : List Action
  txn : Txn
  world : World
  deriving DecidableEq

inductive SeamVerdict
  | contended (time : Instant)
  | pass (frame : Frame)
  | human
  | jobMark
  | mode (clause : String)
  | layout
  | closed
  | expired
  deriving DecidableEq

namespace Txn

/-! ## The state of a transaction -/

variable (t : Txn) (world : World)

def noteUnresolved (what : String) : Txn :=
  { t with unresolvedAt := some (what, t.frame.composer.map fun c => c.text.length) }

def stages : List Text :=
  match t.caps.stagedHead with
  | some head =>
    if 0 < head ∧ head < t.line.length then [t.line.take head, t.line.drop head] else [t.line]
  | none => [t.line]

/-- The text the deck owns in the composer: the accepted part of the line. -/
def owned : Text := t.line.take t.accepted

def enter (phase : Phase) (now : Instant) : Txn :=
  { t with phase := phase, phaseSince := now }

def nextWake (now : Instant) : Instant := min (now + fromMillis 10) t.deadline

def wait (now : Instant) : Reply :=
  ⟨[.wakeAt (t.nextWake now)], t, world⟩

def release (t : Txn) (world : World) (outcome : Outcome) : Reply :=
  ⟨[.reproject, .release outcome], { t with phase := .done outcome }, world⟩

/-- The owned job started: a line's first byte may be in the pane. -/
def started (kind : JobKind) : Txn :=
  { t with job := .running kind, claim := none, wrote := t.wrote || decide (kind = .line) }

/-- An ended job took its bytes, whatever order its reports came in. -/
def ended (kind : JobKind) (accepted : ℕ) (now : Instant) : Txn :=
  { t with
    job := .idle
    claim := none
    wrote := t.wrote || (decide (kind = .line) && decide (0 < accepted))
    crEndedAt := if kind = .cr then some now else t.crEndedAt
    afterCr := t.afterCr || (decide (kind = .cr) && decide (0 < accepted)) }

def trackJob (event : Event) (now : Instant) : Txn :=
  match event, t.job with
  | .jobStarted, .queued kind => t.started kind
  | .jobNotStarted, .queued _ => { t with job := .idle, claim := none }
  | .jobEnded accepted _, .queued kind | .jobEnded accepted _, .running kind =>
    t.ended kind accepted now
  | _, _ => t

def enqueue (t : Txn) (world : World) (kind : JobKind) (job : Job) (phase : Phase) (now : Instant) :
    Reply :=
  let claim := world.claims.length
  ⟨[.enqueue job claim], { t with job := .queued kind, claim := some claim }.enter phase now,
    { world with claims := world.claims ++ [.queued] }⟩

/-- Take back the queued job, unless the writer claimed it first. -/
def takeBack : Txn × World :=
  match t.job with
  | .queued kind =>
    match t.claim.bind fun claim => world.claims[claim]? with
    | some .queued =>
      ({ t with job := .idle, claim := none },
        { world with claims := world.claims.set (t.claim.getD 0) .withdrawn })
    | some .refused => ({ t with job := .idle, claim := none }, world)
    | some .started | some .withdrawn | none => (t.started kind, world)
  | .idle | .running _ => (t, world)

/-! ## Endings -/

def notTyped (t : Txn) (world : World) (why : NotTyped) : Reply :=
  t.release { world with cell := (world.cell.notTyped t.attempt).2 } (.nothingWritten why)

def expireCause : Cause :=
  if !t.frame.clean || decide (t.frame.epoch ≠ t.epoch) then .layout else .deadline

/-- The outcome the deadline finds in a cell that is no longer open. -/
def settledOutcome : Latch → Option Outcome
  | .suspended a cause => if a = t.attempt then some (.unresolved cause) else none
  | .resolved a .withdrawn => if a = t.attempt then some .withdrawn else none
  | .resolved a .submitted | .resolved a .lateExact =>
    if a = t.attempt then some .submitted else none
  | _ => none

def expire : Reply :=
  if !t.wrote then t.notTyped world .deadline
  else
    match t.settledOutcome world.cell with
    | some outcome => t.release world outcome
    | none =>
      let suspended := world.cell.suspend t.attempt t.expireCause
      let world := { world with cell := suspended.2 }
      match suspended.1 with
      | .error (.resolved a .submitted) | .error (.resolved a .lateExact) =>
        if a = t.attempt then t.release world .submitted
        else t.release world (.unresolved t.expireCause)
      | _ => t.release world (.unresolved t.expireCause)

def finish (ending : Ending) (now : Instant) : Reply :=
  match ending with
  | .notTyped why =>
    if t.wrote && decide (t.deadline ≤ now) then t.expire world
    else if t.wrote then { t with admissionLost := true }.wait world now
    else t.notTyped world why
  | .expire => t.expire world
  | .submitted => t.release world .submitted
  | .retired => if t.wrote then t.release world .retired else t.notTyped world .retired

/-- `Txn::end`: a queued job is taken back first, and the ending decided on the result. -/
def conclude (ending : Ending) (now : Instant) : Reply :=
  let taken := t.takeBack world
  taken.1.finish taken.2 ending now

def nothingWritten (why : NotTyped) (now : Instant) : Reply :=
  t.conclude world (.notTyped why) now

def retired (t : Txn) (world : World) (now : Instant) : Reply :=
  t.conclude { world with cell := world.cell.retire } .retired now

/-- Evidence forwarded by the hook arm, which has already moved the cell. -/
def evidence (token : RingToken) (exact : Bool) (now : Instant) : Option Reply :=
  if token ≠ t.token ∨ exact = false ∨ t.wrote = false then none
  else
    match world.cell with
    | .resolved a .submitted | .resolved a .lateExact =>
      if a = t.attempt then some (t.conclude world .submitted now) else none
    | _ => none

/-! ## The seam -/

def verdict (read : SeamRead) (firstByte : Bool) (now : Instant) : SeamVerdict :=
  if read.isOpen = false then .closed
  else if t.deadline ≤ now then .expired
  else if firstByte = true ∧ read.watermark ≠ t.w0 then .human
  else if firstByte = false ∧ read.jobMark ≠ t.j0 then .jobMark
  else
    match read.mode with
    | some clause => .mode clause
    | none =>
      if read.frame.clean = false ∨ read.frame.epoch ≠ t.epoch then .layout
      else .pass read.frame

/-- `Txn::seam`: one synchronous read, then every check. -/
def readSeam (seam : Seam) (firstByte : Bool) (now : Instant) : SeamVerdict × Txn :=
  match seam with
  | some read :: _ =>
    ({ t with frame := read.frame }.verdict read firstByte now, { t with frame := read.frame })
  | none :: _ | [] => (.contended (min (now + seamRetry) t.deadline), t)

/-! ## Withdrawals -/

def wholeToken (owned : Text) : Bool :=
  let head := owned.take tokenHeadChars
  decide (head.length = tokenHeadChars) && decide (head[0]? = some '(') &&
    decide (head[7]? = some ')') && ((head.drop 1).take 6).all isAsciiLowercase

/-- The strict recogniser on the current frame: the deletes to send. -/
def strict : Option ℕ :=
  let owned := t.owned
  if !wholeToken owned || !t.frame.clean || decide (t.frame.epoch ≠ t.epoch) ||
      t.frame.dialog.isSome then none
  else
    t.frame.composer.bind fun composer =>
      if composer.selection || composer.placeholder || !composer.cursorAtEnd then none
      else
        let newline := decide (composer.text = owned ++ ['\n'])
        if (!decide (composer.text = owned) && !newline) || (newline && !t.afterCr) then none
        else some (owned.length + if newline then 1 else 0)

def mayWithdraw (now : Instant) : Bool :=
  t.caps.deleteKey && t.caps.placeholder && decide (t.job = .idle) &&
    t.crEndedAt.all fun ended => decide (ended + submitConfirmWait ≤ now)

/-- Suspend the cell, unless exact evidence resolved the attempt first. -/
def suspendAndPause (cause : Cause) (now : Instant) : Reply :=
  let suspended := world.cell.suspend t.attempt cause
  let world := { world with cell := suspended.2 }
  let paused := t.enter (.pause cause) now
  match suspended.1 with
  | .ok _ => ⟨[.reproject, .wakeAt (paused.nextWake now)], paused, world⟩
  | .error state =>
    match state with
    | .resolved a .submitted | .resolved a .lateExact =>
      if a = t.attempt then t.release world .submitted else paused.wait world now
    | .resolved a .withdrawn =>
      if a = t.attempt then t.release world .withdrawn else paused.wait world now
    | _ => paused.wait world now

/-- A layout edge after the first byte: wait for a clean frame, then take its epoch. -/
def edge (now : Instant) : Reply :=
  if t.frame.clean then ⟨[.wakeAt now], { t with epoch := t.frame.epoch }, world⟩
  else t.wait world now

def tryDeletes (seam : Seam) (now : Instant) : Reply :=
  match t.withdrawal with
  | none => ⟨[], t, world⟩
  | some (deletes, cause) =>
    let read := t.readSeam seam false now
    let t := read.2
    match read.1 with
    | .contended time => ⟨[.wakeAt time], t, world⟩
    | .pass _ =>
      if t.strict ≠ some deletes then t.suspendAndPause world cause now
      else t.enqueue world .deletes (.deletes deletes) .deleteJob now
    | .layout => t.edge world now
    | .closed => t.retired world now
    | .expired => t.conclude world .expire now
    | .mode _ => t.suspendAndPause world .modeChanged now
    | .human | .jobMark => t.suspendAndPause world cause now

def withdraw (deletes : ℕ) (cause : Cause) (seam : Seam) (now : Instant) : Reply :=
  ({ t with withdrawal := some (deletes, cause) }.enter .withdrawing now).tryDeletes world seam now

/-- A failure after the first byte: withdraw strictly when it applies, else unresolved. -/
def unresolve (cause : Cause) (seam : Seam) (now : Instant) : Reply :=
  match if t.mayWithdraw now then t.strict else none with
  | some deletes => t.withdraw world deletes cause seam now
  | none => t.suspendAndPause world cause now

/-! ## Typing the line -/

def cancelsAtHead : Bool :=
  t.admissionLost && t.caps.deleteKey && t.caps.placeholder

def tryFirstLine (seam : Seam) (now : Instant) : Reply :=
  let read := t.readSeam seam true now
  let t := read.2
  match read.1 with
  | .contended time => ⟨[.wakeAt time], t, world⟩
  | .pass frame =>
    if frame.emptyAndReady then
      t.enqueue world .line (.line (t.stages.getD 0 [])) (.lineJob 0) now
    else
      match frame.dialog with
      | some dialog => t.nothingWritten world (.dialog dialog) now
      | none => t.nothingWritten world .awaitingPrompt now
  | .human => t.nothingWritten world .humanInput now
  | .layout => t.nothingWritten world .layout now
  | .mode clause => t.nothingWritten world (.cannotType clause) now
  | .closed => t.nothingWritten world .retired now
  | .expired => t.nothingWritten world .deadline now
  | .jobMark =>
    (t.noteUnresolved "try_line: later stage's seam").unresolve world .echoMismatch seam.tail now

def tryLaterLine (stage : ℕ) (seam : Seam) (now : Instant) : Reply :=
  let read := t.readSeam seam false now
  let t := read.2
  match read.1 with
  | .contended time => ⟨[.wakeAt time], t, world⟩
  | .pass frame =>
    if frame.dialog.isNone && frame.holdsPrefix t.line t.accepted then
      t.enqueue world .line (.line (t.stages.getD stage [])) (.lineJob stage) now
    else t.unresolve world .dialogAfterTyping seam.tail now
  | .layout => t.wait world now
  | .mode _ => t.unresolve world .modeChanged seam.tail now
  | .closed => t.retired world now
  | .human | .jobMark | .expired =>
    (t.noteUnresolved "try_line: later stage's seam").unresolve world .echoMismatch seam.tail now

def tryLine (stage : ℕ) (seam : Seam) (now : Instant) : Reply :=
  if stage = 0 then t.tryFirstLine world seam now else t.tryLaterLine world stage seam now

def headEcho (seam : Seam) (now : Instant) : Reply :=
  if !t.frame.clean || decide (t.frame.epoch ≠ t.epoch) then t.edge world now
  else if t.frame.dialog.isSome then t.unresolve world .dialogAfterTyping seam now
  else if t.frame.holdsPrefix t.line t.accepted then
    (t.enter (.typing 1) now).tryLine world 1 seam now
  else if t.phaseSince + echoWait ≤ now then
    (t.noteUnresolved "head_echo: wait ended").unresolve world .echoMismatch seam now
  else t.wait world now

/-- The head's echo after a cancellation: the head is withdrawn instead of the rest typed. -/
def cancelAfterHead (seam : Seam) (now : Instant) : Reply :=
  if !t.frame.clean || decide (t.frame.epoch ≠ t.epoch) then t.edge world now
  else if t.frame.dialog.isSome then t.unresolve world .dialogAfterTyping seam now
  else if t.frame.holdsPrefix t.line t.accepted then
    ({ t with admissionLost := false }.noteUnresolved
      "cancel_after_head: admission lost").unresolve world .echoMismatch seam now
  else if t.phaseSince + echoWait ≤ now then t.unresolve world .echoMismatch seam now
  else t.wait world now

def afterHead (seam : Seam) (now : Instant) : Reply :=
  if t.cancelsAtHead then t.cancelAfterHead world seam now else t.headEcho world seam now

/-! ## The Enter -/

/-- The final seam for the Enter, no sooner than `submitDelay` after the line. -/
def preCr (seam : Seam) (now : Instant) : Reply :=
  let floor := t.lineDoneAt.getD now + submitDelay
  if now < floor then ⟨[.wakeAt (min floor t.deadline)], t, world⟩
  else
    let read := t.readSeam seam false now
    let t := read.2
    match read.1 with
    | .contended time => ⟨[.wakeAt time], t, world⟩
    | .pass frame =>
      if frame.dialog.isSome then t.unresolve world .dialogBeforeSubmit seam.tail now
      else if frame.holdsExactly t.line = false then
        (t.noteUnresolved "pre_cr: the frame does not hold exactly the line").unresolve world
          .echoMismatch seam.tail now
      else t.enqueue world .cr .cr .crJob now
    | .layout => t.edge world now
    | .mode _ => t.unresolve world .modeChanged seam.tail now
    | .closed => t.retired world now
    | .expired => t.conclude world .expire now
    | .human =>
      (t.noteUnresolved "pre_cr: seam watermark moved").unresolve world .echoMismatch seam.tail now
    | .jobMark =>
      (t.noteUnresolved "pre_cr: seam job mark moved").unresolve world .echoMismatch seam.tail now

def echo (t : Txn) (world : World) (seam : Seam) (now : Instant) : Reply :=
  if !t.frame.clean || decide (t.frame.epoch ≠ t.epoch) then t.edge world now
  else if t.frame.dialog.isSome then t.unresolve world .dialogAfterTyping seam now
  else if t.frame.holdsExactly t.line then (t.enter .preCr now).preCr world seam now
  else if t.lineDoneAt.getD t.phaseSince + echoWait ≤ now then
    (t.noteUnresolved "echo: wait ended").unresolve world .echoMismatch seam now
  else t.wait world now

def takeLine (stage accepted : ℕ) : Txn :=
  let before := ((t.stages.take stage).map List.length).sum
  { t with accepted := before + min accepted (t.stages.getD stage []).length }

def lineEnded (stage accepted : ℕ) (ok : Bool) (seam : Seam) (now : Instant) : Reply :=
  let wanted := (t.stages.getD stage []).length
  let last := t.stages.length ≤ stage + 1
  let t := t.takeLine stage accepted
  if accepted = 0 ∧ stage = 0 then
    -- Nothing reached the pane.
    { t with wrote := false }.nothingWritten world .writeFailed now
  else
    let t := { t with wrote := true }
    if ok = false ∨ accepted < wanted then t.unresolve world .partialWrite seam now
    else if last then
      ({ t with lineDoneAt := some now }.enter .echo now).echo world seam now
    else (t.enter .headEcho now).afterHead world seam now

/-- A cancellation after the line: withdraw it, or submit where there is no delete key. -/
def cancelAfterLine (seam : Seam) (now : Instant) : Reply :=
  if t.frame.clean && decide (t.frame.epoch = t.epoch) && t.frame.holdsExactly t.line then
    if t.caps.deleteKey && t.caps.placeholder then
      match t.strict with
      | some deletes =>
        (t.noteUnresolved "cancel_after_line: admission lost").withdraw world deletes
          .echoMismatch seam now
      | none => t.unresolve world .echoMismatch seam now
    else if t.caps.deleteKey = false then (t.enter .preCr now).preCr world seam now
    else t.unresolve world .echoMismatch seam now
  else t.unresolve world .echoMismatch seam now

/-! ## After the Enter -/

/-- The transcript shows the line as a user message and the composer no longer holds it. -/
def transcriptEcho : Bool :=
  t.caps.transcriptRoute && t.frame.clean && t.frame.userCells.contains t.line &&
    !t.frame.composer.any fun c => t.line.isPrefixOf c.text

/-- The epoch of a clean frame is the current one from here on. -/
def takeEpoch : Txn := if t.frame.clean then { t with epoch := t.frame.epoch } else t

def confirm (seam : Seam) (now : Instant) : Reply :=
  let t := t.takeEpoch
  if t.frame.clean && t.frame.dialog.isSome then t.unresolve world .dialogAfterSubmit seam now
  else if t.frame.clean && t.transcriptEcho then
    t.release { world with cell := (world.cell.resolve t.attempt .submitted).2 } .submitted
  else if now < t.phaseSince + submitConfirmWait then
    ⟨[.wakeAt (min (t.phaseSince + submitConfirmWait) (t.nextWake now))], t, world⟩
  else if t.strict.isSome && !t.caps.placeholder then
    t.suspendAndPause world .withdrawalRefused now
  else t.unresolve world .noSubmitEvidence seam now

/-- `Withdrawn` needs the deletes done in full and then a clean frame with the placeholder. -/
def confirmWithdrawn (now : Instant) : Reply :=
  let t := t.takeEpoch
  if t.frame.clean && t.frame.placeholderEmpty then
    t.release { world with cell := (world.cell.resolve t.attempt .withdrawn).2 } .withdrawn
  else t.wait world now

/-- The rest of the deadline: late evidence or a strict withdrawal still resolves the attempt. -/
def pause (cause : Cause) (seam : Seam) (now : Instant) : Reply :=
  let t := t.takeEpoch
  let rest :=
    let resolved := world.cell.resolve t.attempt .submitted
    if t.transcriptEcho && resolved.1.isOk then
      t.release { world with cell := resolved.2 } .submitted
    else
      match if t.withdrawal.isNone && t.mayWithdraw now then t.strict else none with
      | some deletes => t.withdraw world deletes cause seam now
      | none => t.wait world now
  match world.cell with
  | .resolved a how =>
    if a = t.attempt then
      match how with
      | .withdrawn => t.release world .withdrawn
      | .user => t.release world (.unresolved cause)
      | _ => t.release world .submitted
    else rest
  | _ => rest

/-! ## One event -/

def observe : Event → Txn
  | .frame frame => { t with frame := frame }
  | _ => t

def dispatch (event : Event) (seam : Seam) (now : Instant) : Reply :=
  match t.phase with
  | .typing stage =>
    if decide (0 < stage) && t.cancelsAtHead then t.cancelAfterHead world seam now
    else t.tryLine world stage seam now
  | .lineJob stage =>
    match event with
    | .jobEnded accepted ok => t.lineEnded world stage accepted ok seam now
    | .jobNotStarted =>
      if stage = 0 ∧ t.wrote = false then t.nothingWritten world .offGround now
      else t.unresolve world .writeStalled seam now
    | .jobStalled => t.unresolve world .writeStalled seam now
    | _ => t.wait world now
  | .headEcho =>
    if event = .modeChanged ∧ t.wrote = true then t.unresolve world .modeChanged seam now
    else t.afterHead world seam now
  | .echo =>
    if event = .modeChanged ∧ t.wrote = true then t.unresolve world .modeChanged seam now
    else if t.admissionLost then
      { t with admissionLost := false }.cancelAfterLine world seam now
    else t.echo world seam now
  | .preCr =>
    if t.admissionLost then { t with admissionLost := false }.cancelAfterLine world seam now
    else if event = .modeChanged then t.unresolve world .modeChanged seam now
    else t.preCr world seam now
  | .crJob =>
    match event with
    | .jobEnded accepted ok =>
      if ok && decide (accepted = 1) then (t.enter .confirm now).confirm world seam now
      else t.unresolve world .writeStalled seam now
    | .jobNotStarted | .jobStalled => t.unresolve world .writeStalled seam now
    | _ => t.wait world now
  | .confirm => t.confirm world seam now
  | .withdrawing => t.tryDeletes world seam now
  | .deleteJob =>
    match event with
    | .jobEnded accepted ok =>
      match t.withdrawal with
      | none => ⟨[], t, world⟩
      | some (deletes, _) =>
        if ok && decide (accepted = deletes) then
          (t.enter .confirmWithdrawn now).confirmWithdrawn world now
        else t.suspendAndPause world .withdrawalStalled now
    | .jobNotStarted | .jobStalled => t.suspendAndPause world .withdrawalStalled now
    | _ => t.wait world now
  | .confirmWithdrawn => t.confirmWithdrawn world now
  | .pause cause => t.pause world cause seam now
  | .done _ => ⟨[], t, world⟩

/-- The deadline, then the step of the phase. -/
def proceed (event : Event) (seam : Seam) (now : Instant) : Reply :=
  if t.deadline ≤ now then t.conclude world .expire now else t.dispatch world event seam now

/-- What an event asks for before the deadline is looked at, once its job is tracked. -/
def receive (event : Event) (seam : Seam) (now : Instant) : Reply :=
  match event with
  | .retired => t.retired world now
  | .evidence token exact =>
    match t.evidence world token exact now with
    | some reply => reply
    | none => t.proceed world event seam now
  | .admissionLost =>
    if t.wrote = false then t.nothingWritten world .notAdmitted now
    else { t with admissionLost := true }.proceed world event seam now
  | _ => t.proceed world event seam now

def on (event : Event) (seam : Seam) (now : Instant) : Reply :=
  match t.phase with
  | .done _ => ⟨[], t, world⟩
  | _ => ((t.observe event).trackJob event now).receive world event seam now

end Txn

/-! ## Admission -/

/-- What the admission is decided from; `activation` and `mode` are the clauses against it. -/
structure Admission where
  activation : Option String
  mode : Option String
  ledgerIdle : Bool
  watermark : ℕ
  jobMark : ℕ
  frame : Frame
  nudgeInFlight : Bool
  settling : Bool
  submitRoute : Bool
  stillAdmitted : Bool

/-- What an admission reads and moves: the generation's counter, ring and cell. -/
structure Generation where
  counter : AttemptCounter
  ring : AttemptRing
  cell : Latch

def Admission.refusal (admission : Admission) (cell : Latch) : Option NotTyped :=
  match admission.activation, admission.mode with
  | some clause, _ => some (.cannotType clause)
  | none, some clause => some (.cannotType clause)
  | none, none =>
    if admission.submitRoute = false then some (.cannotType "no_submit_route")
    else if admission.ledgerIdle = false then some .humanInput
    else if admission.frame.clean = false ∨ admission.nudgeInFlight = true then some .layout
    else if admission.settling then some .settling
    else if admission.stillAdmitted = false then some .notAdmitted
    else
      match admission.frame.dialog with
      | some dialog => some (.dialog dialog)
      | none =>
        if admission.frame.emptyAndReady = false then some .awaitingPrompt
        else if cell = .retired then some .retired
        else none

/-- Admit an attempt, or say why not. -/
def admitTxn (admission : Admission) (generation : Generation) (draw : ℕ → UInt8) (id : MessageId)
    (caps : Caps) (now : Instant) : Except NotTyped Txn × Generation :=
  match admission.refusal generation.cell with
  | some why => (.error why, generation)
  | none =>
    match pickToken draw admission.frame.text generation.ring with
    | none => (.error .noToken, generation)
    | some token =>
      match generation.counter.allocate with
      | (none, _) => (.error .exhausted, generation)
      | (some attempt, counter) =>
        let ring := generation.ring.record attempt token
        match generation.cell.admitAttempt attempt with
        | (.error _, cell) => (.error .retired, ⟨counter, ring, cell⟩)
        | (.ok _, cell) =>
          (.ok {
            attempt := attempt
            token := token
            line := token.line id
            caps := caps
            deadline := now + txnMax
            w0 := admission.watermark
            j0 := admission.jobMark
            epoch := admission.frame.epoch
            phase := .typing 0
            frame := admission.frame
            job := .idle
            claim := none
            crEndedAt := none
            wrote := false
            accepted := 0
            lineDoneAt := none
            phaseSince := now
            withdrawal := none
            afterCr := false
            admissionLost := false
            unresolvedAt := none }, ⟨counter, ring, cell⟩)

end AgentDeck.Doorbell
