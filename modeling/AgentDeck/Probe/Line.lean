import AgentDeck.Doorbell.Txn
import AgentDeck.Probe.GateBytes

/-!
# The line at the gate

The callers that wait at the gate: each op that was answered full has a place, with the waiter that
was handed back. A caller waits in `Waiter::changed`, which reads the gate's version under its lock
and sleeps when it has not changed; every change of the version wakes those who sleep. Then the
caller offers its op again. Beside the gate stands the claim of one probe's job.
-/

namespace AgentDeck.Probe

variable {T : Type}

/-- Where the holder of a waiter stands. -/
inductive Stand
  /-- In `changed`, before its next read of the version. -/
  | checking
  /-- In `changed`, awaiting a change. -/
  | asleep
  /-- `changed` returned: the op is to be offered again. -/
  | woken
  /-- The op was answered, and the waiter is being dropped. -/
  | answered
  deriving DecidableEq

inductive Verdict
  | opened
  | passAhead
  | held
  | settled
  | full
  | retired
  | refused
  deriving DecidableEq

def Admission.verdict : Admission T → Verdict
  | .opened _ => .opened
  | .passAhead _ => .passAhead
  | .held => .held
  | .settled _ => .settled
  | .full _ _ => .full
  | .retired _ => .retired
  | .refused _ => .refused

def Verdict.taken (v : Verdict) : Bool :=
  decide (v = .opened) || decide (v = .held) || decide (v = .refused)

/-- A full op's place, with the closure it was last offered with and the gate's version then. -/
structure Place (T : Type) where
  waiter : Waiter
  op : T
  len : ℕ
  passes : T → ℕ → Bool
  answeredAt : ℕ
  stand : Stand

def Place.id (p : Place T) : ℕ := p.waiter.id

structure Line (T : Type) where
  gate : Gate T
  /-- The waiters not yet dropped, in the order they were made. -/
  live : List (Place T)
  /-- The waiters dropped before their op was answered. -/
  cancelled : List ℕ
  /-- The answers other than full that ops with a waiter got. -/
  answers : List (ℕ × Verdict)
  /-- The claim of the probe's job. -/
  claim : Doorbell.ClaimState

inductive LineOp (T : Type)
  /-- An op is offered for the first time. -/
  | offer (op : T) (len : ℕ) (passes : T → ℕ → Bool) (hold : T → Bool × T)
  /-- The holder of a waiter offers its op again. -/
  | again (id : ℕ) (passes : T → ℕ → Bool) (hold : T → Bool × T)
  /-- One turn of the loop of `changed`. -/
  | check (id : ℕ)
  | drop (id : ℕ)
  | probeQueued
  | armSection (armed : GateStatus → Except ArmRefusal Unit) (trigger : ℕ)
  /-- The claim leaves the queue by another hand than the gate's. -/
  | claimEnds (state : Doorbell.ClaimState)
  | other (op : GateOp T)

/-- The operations of the gate that concern neither a waiter nor the probe. -/
def GateOp.plain : GateOp T → Bool
  | .admitUnless .. => false
  | .dropWaiter _ => false
  | .armSection .. => false
  | .probeQueued _ => false
  | _ => true

/-- The probe whose claim stands beside the gate. -/
def probeClaim : ClaimId := 0

namespace Line

def start : Line T where
  gate := .start
  live := []
  cancelled := []
  answers := []
  claim := .queued

def withdraw : Doorbell.ClaimState → Doorbell.ClaimState
  | .queued => .withdrawn
  | state => state

variable (l : Line T)

def wake (gate : Gate T) : List (Place T) :=
  if gate.version ≠ l.gate.version then
    l.live.map fun p => if p.stand = .asleep then { p with stand := .checking } else p
  else l.live

/-- The gate moved: the sleepers are woken if its version changed. -/
def moves (gate : Gate T) : Line T :=
  { l with gate := gate, live := l.wake gate }

/-- The claim after an admission that took back the probe it names. -/
def takeBack (taken : Option ClaimId) : Doorbell.ClaimState :=
  if taken = some probeClaim then withdraw l.claim else l.claim

def find (l : Line T) (id : ℕ) : Option (Place T) := l.live.find? fun p => decide (p.id = id)

def update (id : ℕ) (f : Place T → Place T) : Line T :=
  { l with live := l.live.map fun p => if p.id = id then f p else p }

def offered (op : T) (len : ℕ) (passes : T → ℕ → Bool) (hold : T → Bool × T) :
    Admission T × Option ClaimId × Gate T :=
  l.gate.admitUnless op len none passes hold

def offer (op : T) (len : ℕ) (passes : T → ℕ → Bool) (hold : T → Bool × T) : Line T :=
  let (answer, taken, gate) := l.offered op len passes hold
  let claim := l.takeBack taken
  let l := { l with gate := gate, claim := claim }
  match answer with
  | .full op waiter =>
    { l with live := l.live ++ [⟨waiter, op, len, passes, gate.version, .checking⟩] }
  | _ => l

def offeredAgain (p : Place T) (passes : T → ℕ → Bool) (hold : T → Bool × T) :
    Admission T × Option ClaimId × Gate T :=
  l.gate.admitUnless p.op p.len (some p.waiter) passes hold

def again (p : Place T) (passes : T → ℕ → Bool) (hold : T → Bool × T) : Line T :=
  let (answer, taken, gate) := l.offeredAgain p passes hold
  let claim := l.takeBack taken
  let l := { l with gate := gate, claim := claim }
  match answer with
  | .full op waiter =>
    l.update p.id fun p => { p with
      waiter := waiter, op := op, passes := passes, answeredAt := gate.version, stand := .checking }
  | answer =>
    { l.update p.id fun p => { p with stand := .answered } with
      answers := l.answers ++ [(p.id, answer.verdict)] }

/-- `changed`: the version is read, and it returns or the caller sleeps. -/
def check (p : Place T) : Line T :=
  if l.gate.version ≠ p.waiter.seen then
    l.update p.id fun p => { p with
      waiter := { p.waiter with seen := l.gate.version }, stand := .woken }
  else l.update p.id fun p => { p with stand := .asleep }

def drop (p : Place T) : Line T :=
  let l := if p.stand = .answered then l else { l with cancelled := l.cancelled ++ [p.id] }
  let l := { l with live := l.live.filter fun other => decide (other.id ≠ p.id) }
  l.moves (l.gate.dropWaiter p.id)

def armed (l : Line T) (armed : GateStatus → Except ArmRefusal Unit) (trigger : ℕ) :
    Except ArmRefusal Unit × Gate T :=
  l.gate.armSection probeClaim (decide (l.claim = .queued)) ArmRefusal.retired .takenBack armed
    trigger

/-- One step. A step of a waiter that is not there, or not at that point, is none; `none` is an
underflow. -/
def step (l : Line T) : LineOp T → Option (Line T)
  | .offer op len passes hold => some (l.offer op len passes hold)
  | .again id passes hold =>
    match l.find id with
    | some p => some (if p.stand = .answered then l else l.again p passes hold)
    | none => some l
  | .check id =>
    match l.find id with
    | some p => some (if p.stand = .checking then l.check p else l)
    | none => some l
  | .drop id =>
    match l.find id with
    | some p => some (l.drop p)
    | none => some l
  | .probeQueued => some { l with gate := l.gate.probeQueued probeClaim }
  | .armSection armed trigger => some (l.moves (l.armed armed trigger).2)
  | .claimEnds state =>
    some { l with claim := if l.claim = .queued then state else l.claim }
  | .other op =>
    if op.plain then (l.gate.step op).map fun (_, gate) => l.moves gate else some l

end Line

end AgentDeck.Probe
