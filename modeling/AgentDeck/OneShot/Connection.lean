import Mathlib.Data.Finset.Basic
import AgentDeck.Lib.SortedMap
import AgentDeck.OneShot.Batch
import AgentDeck.Time

/-!
# A one-shot's connection and its fence

A one-shot asks `may` for every attempt of its batch, reads the answers until they are all in, the
approval runs out or the connection ends, and then fences each block right before its first byte.
A thread of its own reads the connection and queues each line; whatever the one-shot's reads leave
behind is for the fence. From `src/inbox_oneshot.rs`.
-/

namespace AgentDeck.OneShot

open Inbox (InboxAttemptRef)

abbrev Key := Text × UInt32 × UInt32

def key (ref : InboxAttemptRef) : Key := (ref.id, ref.a, ref.e)

theorem key_injective : Function.Injective key := by
  rintro ⟨id, a, e⟩ ⟨otherId, otherA, otherE⟩ same
  simp only [key, Prod.mk.injEq] at same
  rcases same with ⟨sameId, sameA, sameE⟩
  subst sameId sameA sameE
  rfl

structure InboxGrant where
  q : ℕ
  ok : Bool
  refusal : Option Text

/-- A line the daemon sends, with the fields a one-shot acts on once it asks. A keepalive says
nothing else (`InboxWaitReply::keepalive`: exactly one field of a line is set). -/
structure InboxWaitReply where
  superseded : Bool
  notInDeck : Bool
  refused : Option Text
  keepalive : Bool
  grant : Option InboxGrant
  revoke : List InboxAttemptRef
  alone : keepalive = true →
    superseded = false ∧ notInDeck = false ∧ refused = none ∧ grant = none ∧ revoke = []

structure InboxMayHandOver where
  q : ℕ
  id : Text
  a : UInt32
  e : UInt32

/-! ## The approval -/

/-- The `may` answers a one-shot holds, and until when they hold. -/
structure Approval where
  validUntil : Instant
  asked : SortedMap ℕ Key
  granted : Finset Key

namespace Approval

def answer (approval : Approval) (grant : InboxGrant) (now : Instant) : Approval :=
  if grant.ok ∧ now < approval.validUntil then
    match approval.asked.get? grant.q with
    | some asked => { approval with granted := insert asked approval.granted }
    | none => approval
  else approval

def isGranted (approval : Approval) (ref : InboxAttemptRef) : Bool :=
  decide (key ref ∈ approval.granted)

end Approval

/-- The questions for these blocks, numbered from `firstQ`. -/
def questions : ℕ → List Block → List InboxMayHandOver
  | _, [] => []
  | q, block :: rest =>
    { q := q, id := block.at_.id, a := block.at_.a, e := block.at_.e } :: questions (q + 1) rest

def askedOf : ℕ → List Block → SortedMap ℕ Key → SortedMap ℕ Key
  | _, [], asked => asked
  | q, block :: rest, asked => askedOf (q + 1) rest (asked.insert q (key block.at_))

def OneShotBatch.ask (batch : OneShotBatch) (firstQ : ℕ) (sentAt : Instant) (grantTtl : Duration) :
    Approval × List InboxMayHandOver :=
  ({ validUntil := sentAt + grantTtl, asked := askedOf firstQ batch.blocks .empty, granted := ∅ },
    questions firstQ batch.blocks)

/-! ## The connection -/

/-- `lines` is the channel's queue, with a `None` for the end of the connection; `readerDone` says
that the reading thread has returned. -/
structure Connection where
  lines : List (Option InboxWaitReply)
  readerDone : Bool
  held : List InboxWaitReply
  unread : Option InboxWaitReply
  ended : Bool
  nextQ : ℕ

namespace Connection

variable (connection : Connection)

/-- The reading thread queues a line, or the end, after which it returns. -/
def reads (line : Option InboxWaitReply) : Connection :=
  if connection.readerDone then connection
  else
    { connection with lines := connection.lines ++ [line], readerDone := line.isNone }

/-- `Connection::next` with a deadline, the clock read at `before` and again at `after` a line is
received. `recv_timeout` finds the queue as it is: where it is empty the wait runs out. -/
def nextBy (deadline before after : Instant) : Option InboxWaitReply × Connection :=
  match connection.unread with
  | some reply =>
    if deadline ≤ before then (none, connection)
    else (some reply, { connection with unread := none })
  | none =>
    if connection.ended then (none, connection)
    else if deadline - before = 0 then (none, connection)
    else
      match connection.lines with
      | [] =>
        if connection.readerDone then (none, { connection with ended := true })
        else (none, connection)
      | none :: rest => (none, { connection with lines := rest, ended := true })
      | some reply :: rest =>
        if deadline ≤ after then
          (none, { connection with lines := rest, unread := some reply })
        else (some reply, { connection with lines := rest })

def hold (reply : InboxWaitReply) : Connection :=
  { connection with held := connection.held ++ [reply] }

def kept : List InboxWaitReply :=
  connection.held ++ connection.unread.toList

def takeKept : Connection :=
  { connection with held := [], unread := none }

/-- One turn of the loop of `Arrivals::arrived`: the lines it has now, and whether the loop is
over. -/
def tryRecv (lines : List InboxWaitReply) : Connection × List InboxWaitReply × Bool :=
  if connection.ended then (connection, lines, true)
  else
    match connection.lines with
    | some reply :: rest => ({ connection with lines := rest }, lines ++ [reply], false)
    | none :: rest => ({ connection with lines := rest, ended := true }, lines, false)
    | [] =>
      if connection.readerDone then ({ connection with ended := true }, lines, false)
      else (connection, lines, true)

end Connection

/-! ## The fence -/

inductive FenceRefusal where
  | notGranted
  | expired
  | closed
  | superseded
  | refused (code : Text)
  | revoked
  | revokeMarker
  | markerUnreadable (error : Text)
  deriving DecidableEq

inductive RevokeState where
  | notRevoked
  | revoked
  | unreadable (error : Text)

def notInDeckCode : Text := "not_in_deck".toList

def terminal (line : InboxWaitReply) : Option FenceRefusal :=
  if line.superseded then some .superseded
  else if line.notInDeck then some (.refused notInDeckCode)
  else line.refused.map .refused

structure Arrived where
  lines : List InboxWaitReply
  eof : Bool

structure Fence where
  ended : Option FenceRefusal
  revoked : Finset Key

namespace Fence

def new : Fence := { ended := none, revoked := ∅ }

def seeLine (fence : Fence) (line : InboxWaitReply) : Fence :=
  { revoked := fence.revoked ∪ (line.revoke.map key).toFinset
    ended := if fence.ended.isNone then terminal line else fence.ended }

def see (fence : Fence) (arrived : Arrived) : Fence :=
  let fence := arrived.lines.foldl seeLine fence
  if arrived.eof ∧ fence.ended.isNone then { fence with ended := some .closed } else fence

/-- The refusals of `Fence::check` for which it does not look at the connection. -/
def unapproved (approval : Approval) (ref : InboxAttemptRef) (now : Instant) :
    Option FenceRefusal :=
  if approval.isGranted ref = false then some .notGranted
  else if approval.validUntil ≤ now then some .expired
  else none

/-- The rest of `Fence::check`, with what the pinned spool says of the attempt; `none` where no
spool is pinned. -/
def settle (fence : Fence) (ref : InboxAttemptRef) (marker : Option RevokeState) :
    Except FenceRefusal Unit :=
  match fence.ended with
  | some ended => .error ended
  | none =>
    if key ref ∈ fence.revoked then .error .revoked
    else
      match marker with
      | none => .ok ()
      | some .notRevoked => .ok ()
      | some .revoked => .error .revokeMarker
      | some (.unreadable error) => .error (.markerUnreadable error)

end Fence

/-! ## The one-shot and its connection -/

/-- Where the one-shot is: with so many questions left to send, so many answers left to wait for,
between two checks, or in a check that is taking in what has arrived. -/
inductive Phase where
  | sending (left : ℕ) (questions : ℕ)
  | reading (unanswered : ℕ)
  | fencing
  | draining (ref : InboxAttemptRef) (now : Instant) (lines : List InboxWaitReply)

/-- What has happened since the approval was begun. -/
inductive Happened where
  | queued (line : Option InboxWaitReply)
  | answered (grant : InboxGrant) (now : Instant)
  | checked (ref : InboxAttemptRef) (now : Instant) (result : Except FenceRefusal Unit)

structure Asker where
  connection : Connection
  approval : Approval
  fence : Fence
  phase : Phase
  past : List Happened

/-- One move of the reading thread or of the one-shot. A check is a `check` and then a `recv` for
each look at the queue, the last one with what the revoke marker reads. -/
inductive Move where
  | arrive (line : Option InboxWaitReply)
  | sent (ok : Bool)
  | read (before after now : Instant)
  | check (ref : InboxAttemptRef) (now : Instant)
  | recv (marker : Option RevokeState)

namespace Asker

/-- `Connection::approve` as far as its first write. -/
def begins (connection : Connection) (batch : OneShotBatch) (sentAt : Instant)
    (grantTtl : Duration) : Asker :=
  let (approval, lines) := batch.ask connection.nextQ sentAt grantTtl
  { connection := { connection with nextQ := connection.nextQ + lines.length }
    approval := approval
    fence := .new
    phase := .sending lines.length lines.length
    past := [] }

variable (s : Asker)

/-- One line sent, or given up on, which gives up the approval's reads too. -/
def send (left questions : ℕ) (ok : Bool) : Asker :=
  if left = 0 then { s with phase := .reading questions }
  else if ok then { s with phase := .sending (left - 1) questions }
  else { s with phase := .fencing }

def answer (s : Asker) (grant : InboxGrant) (now : Instant) (unanswered : ℕ) : Asker :=
  { s with
    approval := s.approval.answer grant now
    phase := .reading (unanswered - 1)
    past := .answered grant now :: s.past }

def isForTheFence (reply : InboxWaitReply) : Bool :=
  !reply.revoke.isEmpty || reply.superseded || reply.notInDeck || reply.refused.isSome

def holdForTheFence (reply : InboxWaitReply) : Asker :=
  if isForTheFence reply then { s with connection := s.connection.hold reply } else s

/-- One turn of the loop of `Connection::approve`. -/
def readTurn (unanswered : ℕ) (before after now : Instant) : Asker :=
  if unanswered = 0 then { s with phase := .fencing }
  else
    match s.connection.nextBy s.approval.validUntil before after with
    | (none, connection) => { s with connection := connection, phase := .fencing }
    | (some reply, connection) =>
      let s := { s with connection := connection }
      if reply.keepalive then s
      else
        match reply.grant with
        | some grant => (s.answer grant now unanswered).holdForTheFence reply
        | none => s.holdForTheFence reply

def checks (ref : InboxAttemptRef) (now : Instant) (result : Except FenceRefusal Unit) : Asker :=
  { s with phase := .fencing, past := .checked ref now result :: s.past }

/-- `Fence::check` as far as its first look at the queue. -/
def beginCheck (ref : InboxAttemptRef) (now : Instant) : Asker :=
  match Fence.unapproved s.approval ref now with
  | some refusal => s.checks ref now (.error refusal)
  | none =>
    { s with
      connection := s.connection.takeKept
      phase := .draining ref now s.connection.kept }

/-- The rest of `Fence::check`, once everything that has arrived is taken in. -/
def endCheck (ref : InboxAttemptRef) (now : Instant) (lines : List InboxWaitReply)
    (marker : Option RevokeState) : Asker :=
  let fence := s.fence.see { lines := lines, eof := s.connection.ended }
  { s with fence := fence }.checks ref now (fence.settle ref marker)

def drain (ref : InboxAttemptRef) (now : Instant) (lines : List InboxWaitReply)
    (marker : Option RevokeState) : Asker :=
  match s.connection.tryRecv lines with
  | (connection, lines, false) =>
    { s with connection := connection, phase := .draining ref now lines }
  | (connection, lines, true) => { s with connection := connection }.endCheck ref now lines marker

/-- A line the reading thread queues; it queues nothing once it has returned. -/
def arrive (line : Option InboxWaitReply) : Asker :=
  if s.connection.readerDone then s
  else { s with connection := s.connection.reads line, past := .queued line :: s.past }

/-- A move that is not the one-shot's next one changes nothing. -/
def step : Move → Asker
  | .arrive line => s.arrive line
  | .sent ok =>
    match s.phase with
    | .sending left questions => s.send left questions ok
    | _ => s
  | .read before after now =>
    match s.phase with
    | .reading unanswered => s.readTurn unanswered before after now
    | _ => s
  | .check ref now =>
    match s.phase with
    | .fencing => s.beginCheck ref now
    | _ => s
  | .recv marker =>
    match s.phase with
    | .draining ref now lines => s.drain ref now lines marker
    | _ => s

end Asker

end AgentDeck.OneShot
