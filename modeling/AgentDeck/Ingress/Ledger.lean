import AgentDeck.Text
import AgentDeck.Lib.SortedMap
import Mathlib.Data.Finset.Card
import Mathlib.Logic.Function.Basic

/-!
# The ingress ledger

`IngressLedger` of `src/ingress_ledger.rs`: every human operation on an agent's input takes a
ticket, and the ticket is settled once, by its guard, by the hold that could not queue its job, or
by the job.

A step is one hold of the ledger's lock or one operation on a job's flag. Only `queue_with` reads or
writes a flag under the lock, so it is the only hold that is several steps; the other holds are one.
-/

namespace AgentDeck.Ingress

inductive ErrorKind where
  | brokenPipe
  | other (code : ℕ)
  deriving DecidableEq

inductive Settlement where
  | written (bytes : ℕ)
  | inPart (accepted : ℕ)
  | failed (kind : ErrorKind)
  | cancelled
  | refused (reason : Text)
  | retired
  deriving DecidableEq

/-- A physical outcome: `Retired` is the generation's event, and no call reports it. -/
abbrev Outcome := { how : Settlement // how ≠ .retired }

namespace Outcome

def written (bytes : ℕ) : Outcome := ⟨.written bytes, Settlement.noConfusion⟩

def inPart (accepted : ℕ) : Outcome := ⟨.inPart accepted, Settlement.noConfusion⟩

def failed (kind : ErrorKind) : Outcome := ⟨.failed kind, Settlement.noConfusion⟩

def cancelled : Outcome := ⟨.cancelled, Settlement.noConfusion⟩

def refused (reason : Text) : Outcome := ⟨.refused reason, Settlement.noConfusion⟩

end Outcome

structure LedgerInner where
  watermark : ℕ
  jobMark : ℕ
  nextTicket : ℕ
  outstanding : SortedMap ℕ Bool
  unreported : Finset ℕ
  closed : Bool
  settled : List (ℕ × Settlement)

def settledKept : ℕ := 64

namespace LedgerInner

def new : LedgerInner := ⟨0, 0, 0, SortedMap.empty, ∅, false, []⟩

variable (inner : LedgerInner)

def pushSettled (ticket : ℕ) (how : Settlement) : LedgerInner :=
  let settled := inner.settled ++ [(ticket, how)]
  { inner with settled := settled.drop (settled.length - settledKept) }

/-- `IngressLedger::admit`, but for the guard it answers. -/
def admitTicket : LedgerInner :=
  let ticket := inner.nextTicket + 1
  { inner with
    nextTicket := ticket
    watermark := inner.watermark + 1
    outstanding := if inner.closed then inner.outstanding else inner.outstanding.insert
      ticket false }

def close : LedgerInner :=
  if inner.closed then inner
  else
    inner.outstanding.keys.foldl (fun inner ticket => inner.pushSettled ticket .retired)
      { inner with closed := true, outstanding := SortedMap.empty }

/-- The end of a hold that ends `ticket`: the log takes what was outstanding, and everything once
the ledger is closed. -/
def finish (ticket : ℕ) (how : Settlement) : LedgerInner :=
  let removed := { inner with outstanding := inner.outstanding.erase ticket }
  if (inner.outstanding.get? ticket).isSome || inner.closed then removed.pushSettled ticket how
  else removed

def settle (ticket : ℕ) (how : Settlement) : LedgerInner :=
  { inner with unreported := inner.unreported.erase ticket }.finish ticket how

def arm (ticket : ℕ) : LedgerInner :=
  { inner with
    jobMark := inner.jobMark + 1
    unreported := insert ticket inner.unreported
    outstanding := inner.outstanding.modify ticket fun _ => true }

end LedgerInner

/-- `failed_after`, `prior` being what it read: 0 for an operation that was not cut. -/
def failedAfter : ℕ → Outcome
  | 0 => .failed .brokenPipe
  | accepted => .inPart accepted

inductive Flag where
  | unqueued
  | queued
  | reported
  | disposed
  deriving DecidableEq

/-- How a caller ends its guard without a job. -/
inductive GuardEnd where
  | refuse (reason : Text)
  | refuseAfter (accepted : ℕ) (reason : Text)
  | settleEmpty
  | drop
  deriving DecidableEq

def GuardEnd.how : GuardEnd → Outcome
  | .refuse reason => .refused reason
  | .refuseAfter accepted reason => if accepted > 0 then .inPart accepted else .refused reason
  | .settleEmpty => .written 0
  | .drop => .cancelled

inductive JobEnd where
  | settleWritten (len accepted : ℕ) (error : Option ErrorKind)
  | settleCancelled
  | settleRefused (reason : Text)
  deriving DecidableEq

def JobEnd.how : JobEnd → Outcome
  | .settleWritten len accepted error =>
    match error with
    | none => if accepted = len then .written accepted else .inPart accepted
    | some kind => if accepted = 0 then .failed kind else .inPart accepted
  | .settleCancelled => .cancelled
  | .settleRefused reason => .refused reason

/-- What the operation's caller is at: its guard, then `into_job_after`. -/
inductive Caller where
  | absent
  | guard
  /-- The guard is disarmed and `settle` waits for the ledger. -/
  | settling (how : Outcome)
  /-- `queue_with` waits for the ledger. -/
  | entering
  | enqueueing
  | enqueued
  /-- The job is not armed: the flag's store comes next. -/
  | unarmed
  | decided (armedNow : Bool)
  | done
  deriving DecidableEq

inductive Job where
  | absent
  | held
  /-- A report moved the flag, and its `settle` waits for the ledger. -/
  | reporting (how : Outcome)
  /-- A report is over, and the value is dropped next. -/
  | leaving
  /-- The drop looked at the flag, and moves it next. -/
  | looked (seen : Flag)
  /-- The drop moved the flag, and its `settle` waits for the ledger. -/
  | dropping (how : Outcome)
  | gone
  deriving DecidableEq

/-- One ticket: where its owners are, its job's flag, and what was done for it. -/
structure Ticket where
  caller : Caller
  flag : Flag
  job : Job
  /-- The job left `enqueue` for the writer's queue: others may run it or drop it. -/
  sent : Bool
  /-- The take-backs that moved the flag and whose `settle` waits for the ledger. -/
  taking : ℕ
  /-- It was admitted before the close. -/
  early : Bool
  /-- Its job was dropped before it was armed. -/
  disposed : Bool
  /-- The calls of `settle` for it and its hold's own settlement, oldest first. -/
  reports : List Outcome

namespace Ticket

def absent : Ticket := ⟨.absent, .unqueued, .absent, false, 0, false, false, []⟩

def admitted (early : Bool) : Ticket := ⟨.guard, .unqueued, .absent, false, 0, early, false, []⟩

def report (x : Ticket) (how : Outcome) : Ticket := { x with reports := x.reports ++ [how] }

end Ticket

/-- A ledger, the hold of `queue_with` that is under way, and the tickets. -/
structure System where
  inner : LedgerInner
  hold : Option ℕ
  tickets : ℕ → Ticket

inductive IngressOp where
  | admitTicket
  | close
  | endGuard (ticket : ℕ) (cause : GuardEnd)
  | settleGuard (ticket : ℕ)
  | intoJob (ticket : ℕ)
  | lock (ticket : ℕ)
  | send (ticket : ℕ)
  | enqueueReturns (ticket : ℕ)
  | exchange (ticket : ℕ)
  | store (ticket : ℕ)
  | book (ticket prior : ℕ)
  | endJob (ticket : ℕ) (cause : JobEnd)
  | settleJob (ticket : ℕ)
  | look (ticket : ℕ)
  | move (ticket prior : ℕ)
  | settleDrop (ticket : ℕ)
  | takeBack (ticket : ℕ)
  | settleTakeBack (ticket : ℕ)
  deriving DecidableEq

/-- The compare-exchange of `queue_with`, which is made for a queued job only. -/
def Ticket.exchange (x : Ticket) : Ticket :=
  match x.sent, x.flag with
  | true, .unqueued => { x with flag := .queued, caller := .decided true }
  | true, .reported => { x with caller := .decided true }
  | _, _ => { x with caller := .unarmed }

/-- One turn of the loop of `JobTicket::drop`, which saw `seen`. -/
def Ticket.move (x : Ticket) (seen : Flag) (prior : ℕ) : Ticket :=
  match seen with
  | .queued =>
    if x.flag = .queued then { x with flag := .reported, job := .dropping (failedAfter prior) }
    else { x with job := .looked x.flag }
  | .unqueued =>
    if x.flag = .unqueued then { x with flag := .disposed, job := .gone, disposed := true }
    else { x with job := .looked x.flag }
  | _ => { x with job := .gone }

namespace System

def new : System := ⟨LedgerInner.new, none, fun _ => Ticket.absent⟩

def put (s : System) (ticket : ℕ) (x : Ticket) : System :=
  { s with tickets := Function.update s.tickets ticket x }

/-- A call of `settle` for a ticket left as `x`. -/
def settle (s : System) (ticket : ℕ) (x : Ticket) (how : Outcome) : System :=
  { s with
    inner := s.inner.settle ticket how
    tickets := Function.update s.tickets ticket (x.report how) }

def book (s : System) (ticket prior : ℕ) (armedNow : Bool) : System :=
  let x := { s.tickets ticket with caller := .done }
  match armedNow with
  | true =>
    { inner := s.inner.arm ticket
      hold := none
      tickets := Function.update s.tickets ticket x }
  | false =>
    { inner := s.inner.finish ticket (failedAfter prior)
      hold := none
      tickets := Function.update s.tickets ticket (x.report (failedAfter prior)) }

/-- One step. A step that waits for the ledger, or that does not apply, leaves everything as it
is. -/
def step (s : System) : IngressOp → System
  | .admitTicket =>
    if s.hold = none then
      { s with
        inner := s.inner.admitTicket
        tickets :=
          Function.update s.tickets (s.inner.nextTicket + 1) (Ticket.admitted !s.inner.closed) }
    else s
  | .close => if s.hold = none then { s with inner := s.inner.close } else s
  | .endGuard t cause =>
    match (s.tickets t).caller with
    | .guard => s.put t { s.tickets t with caller := .settling cause.how }
    | _ => s
  | .settleGuard t =>
    match (s.tickets t).caller, s.hold with
    | .settling how, none => s.settle t { s.tickets t with caller := .done } how
    | _, _ => s
  | .intoJob t =>
    match (s.tickets t).caller with
    | .guard => s.put t { s.tickets t with caller := .entering }
    | _ => s
  | .lock t =>
    match (s.tickets t).caller, s.hold with
    | .entering, none =>
      { s.put t { s.tickets t with caller := .enqueueing, job := .held } with hold := some t }
    | _, _ => s
  | .send t =>
    match (s.tickets t).caller, (s.tickets t).job with
    | .enqueueing, .held => s.put t { s.tickets t with sent := true }
    | _, _ => s
  -- A job that was not sent is dropped before `enqueue` returns.
  | .enqueueReturns t =>
    match (s.tickets t).caller with
    | .enqueueing =>
      if (s.tickets t).sent ∨ (s.tickets t).job = .gone then
        s.put t { s.tickets t with caller := .enqueued }
      else s
    | _ => s
  | .exchange t =>
    match (s.tickets t).caller with
    | .enqueued => s.put t (s.tickets t).exchange
    | _ => s
  | .store t =>
    match (s.tickets t).caller with
    | .unarmed => s.put t { s.tickets t with flag := .reported, caller := .decided false }
    | _ => s
  | .book t prior =>
    match (s.tickets t).caller with
    | .decided armedNow => s.book t prior armedNow
    | _ => s
  -- Inside `enqueue` a report would wait for the hold it is in.
  | .endJob t cause =>
    match (s.tickets t).job, (s.tickets t).sent with
    | .held, true =>
      s.put t { s.tickets t with
        flag := .reported
        job := if (s.tickets t).flag = .reported then .leaving else .reporting cause.how }
    | _, _ => s
  | .settleJob t =>
    match (s.tickets t).job, s.hold with
    | .reporting how, none => s.settle t { s.tickets t with job := .leaving } how
    | _, _ => s
  | .look t =>
    match (s.tickets t).job with
    | .held | .leaving => s.put t { s.tickets t with job := .looked (s.tickets t).flag }
    | _ => s
  | .move t prior =>
    match (s.tickets t).job with
    | .looked seen => s.put t ((s.tickets t).move seen prior)
    | _ => s
  | .settleDrop t =>
    match (s.tickets t).job, s.hold with
    | .dropping how, none => s.settle t { s.tickets t with job := .gone } how
    | _, _ => s
  -- A handle is there as soon as the job is, also inside `enqueue`.
  | .takeBack t =>
    if (s.tickets t).job ≠ .absent ∧ (s.tickets t).flag ≠ .reported then
      s.put t { s.tickets t with flag := .reported, taking := (s.tickets t).taking + 1 }
    else s
  | .settleTakeBack t =>
    match (s.tickets t).taking, s.hold with
    | taking + 1, none => s.settle t { s.tickets t with taking := taking } .cancelled
    | _, _ => s

def run (s : System) (ops : List IngressOp) : System := ops.foldl step s

end System

end AgentDeck.Ingress
