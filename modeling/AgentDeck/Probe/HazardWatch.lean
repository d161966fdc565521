import AgentDeck.Probe.Hazard

/-!
# The hazard FIFO, watched

`Watch` is the FIFO together with what an onlooker writes down: which candidates entered, how long
each was quiet while no record was pending, and why each that left did so. The FIFO keeps a number
and an instant for the candidates past the sixteenth; the onlooker keeps all of them. The invariant
`Watched` ties the two.
-/

namespace AgentDeck.Probe

structure Candidate where
  seq : ℕ
  accepted : Instant
  latched : Bool
  /-- The time since it entered during which no record was pending. -/
  quiet : Duration
  deriving DecidableEq

inductive Reason
  | lapsed
  | reported (receipt nativeSeen : ℕ)
  | drained (receipt : ℕ) (birthFloor : Instant)
  deriving DecidableEq

def Reason.receipt? : Reason → Option ℕ
  | .lapsed => none
  | .reported receipt _ => some receipt
  | .drained receipt _ => some receipt

structure Departure where
  candidate : Candidate
  /-- For a counted candidate, all that were counted when it left. -/
  counted : List Candidate
  reason : Reason
  deriving DecidableEq

/-- The reasons for which a candidate may leave. -/
def Departure.Allowed (departure : Departure) : Prop :=
  match departure.reason with
  | .lapsed => departure.candidate.latched = false ∧ tTrigger < departure.candidate.quiet
  | .reported _ nativeSeen => departure.candidate.seq ≤ nativeSeen
  | .drained _ birthFloor =>
    departure.candidate.accepted < birthFloor ∧
      ∀ other ∈ departure.counted, other.accepted < birthFloor

/-- The FIFO, the receipts of the records, and what an onlooker wrote down. -/
structure Watch where
  fifo : HazardFifo
  receipts : ℕ → HazardPop
  /-- Whether a record is pending, and the time of the last operation. -/
  pending : Bool
  clock : Option Instant
  handed : List ℕ
  entered : List ℕ
  /-- The candidates that have not left: kept one by one, counted, or not even counted. -/
  kept : List Candidate
  counted : List Candidate
  uncounted : List Candidate
  left : List Departure

namespace Watch

def start : Watch where
  fifo := .default
  receipts := fun _ => .unspent
  pending := false
  clock := none
  handed := []
  entered := []
  kept := []
  counted := []
  uncounted := []
  left := []

/-- The time since the last operation, if no record was pending in it. -/
def gap (w : Watch) (now : Instant) : Duration :=
  match w.pending, w.clock with
  | false, some clock => now - clock
  | _, _ => 0

end Watch

def Candidate.later (gap : Duration) (candidate : Candidate) : Candidate :=
  { candidate with quiet := candidate.quiet + gap }

/-- Neither unlatched for too long nor gone otherwise. -/
def Candidate.stays (candidate : Candidate) : Bool :=
  candidate.latched || decide (candidate.quiet ≤ tTrigger)

namespace Watch

/-- Time passes: every kept candidate grows older, and those past the quiet period leave. -/
def tick (w : Watch) (now : Instant) : Watch :=
  let older := w.kept.map (Candidate.later (w.gap now))
  { w with
    fifo := w.fifo.advance now
    clock := some now
    kept := older.filter Candidate.stays
    left := w.left ++ (older.filter fun candidate => !candidate.stays).map (⟨·, [], .lapsed⟩) }

/-- A candidate is filed by where the FIFO took it, if anywhere. -/
def file (w : Watch) (candidate : Candidate) (fifo : HazardFifo) : Watch :=
  let w := { w with entered := w.entered ++ [candidate.seq] }
  if candidate.seq ∈ fifo.entries.map Entry.seq then
    { w with fifo := fifo, kept := w.kept ++ [candidate] }
  else if w.fifo.extra < fifo.extra then
    { w with fifo := fifo, counted := w.counted ++ [candidate] }
  else { w with fifo := fifo, uncounted := w.uncounted ++ [candidate] }

/-- What a pop took leaves: a kept candidate, or the oldest of the counted. -/
def take (w : Watch) (pop : Pop) (reason : Reason) : Watch :=
  match pop, w.kept, w.counted with
  | .entry _, candidate :: rest, _ =>
    { w with kept := rest, left := w.left ++ [⟨candidate, [], reason⟩] }
  | .extra, _, candidate :: rest =>
    { w with counted := rest, left := w.left ++ [⟨candidate, candidate :: rest, reason⟩] }
  | _, _, _ => w

def popped (w : Watch) (receipt : ℕ) (reason : Reason) (popped : Pop × HazardPop × HazardFifo) :
    Watch :=
  { w.take popped.1 reason with
    fifo := popped.2.2
    receipts := Function.update w.receipts receipt popped.2.1 }

def number (w : Watch) : Watch :=
  { w with fifo := w.fifo.number.2, handed := w.handed ++ w.fifo.number.1.toList }

def enter (w : Watch) (seq : ℕ) (now : Instant) (backlog : Bool) : Watch :=
  (w.tick now).file ⟨seq, now, backlog, 0⟩ (w.fifo.enter seq now backlog)

end Watch

inductive HazardOp
  | number
  | enter (seq : ℕ) (now : Instant) (backlog : Bool)
  | accept (now : Instant) (backlog : Bool)
  | latch (now : Instant)
  | recordsPending (now : Instant) (pending : Bool)
  | popReported (receipt nativeSeen : ℕ) (now : Instant)
  | popAtDrain (receipt : ℕ) (birthFloor now : Instant)
  | clear (now : Instant)
  | entries (now : Instant)

namespace Watch

def step (w : Watch) : HazardOp → Watch
  | .number => w.number
  | .enter seq now backlog => w.enter seq now backlog
  | .accept now backlog =>
    match w.fifo.accept now backlog with
    | (some seq, fifo) => (w.number.tick now).file ⟨seq, now, backlog, 0⟩ fifo
    | (none, fifo) => { w.number with fifo := fifo }
  | .latch now =>
    { w.tick now with
      fifo := w.fifo.latch now
      kept := (w.tick now).kept.map fun candidate => { candidate with latched := true } }
  | .recordsPending now pending =>
    { w.tick now with fifo := w.fifo.recordsPending now pending, pending := pending }
  | .popReported receipt nativeSeen now =>
    (w.tick now).popped receipt (.reported receipt nativeSeen)
      (w.fifo.popReported (w.receipts receipt) nativeSeen now)
  | .popAtDrain receipt birthFloor now =>
    (w.tick now).popped receipt (.drained receipt birthFloor)
      (w.fifo.popAtDrain (w.receipts receipt) birthFloor now)
  | .clear now => { w.tick now with fifo := (w.fifo.clear now).2 }
  | .entries now => w.tick now

def after (ops : List HazardOp) : Watch := ops.foldl step start

end Watch

def HazardOp.now? : HazardOp → Option Instant
  | .number => none
  | .enter _ now _ => some now
  | .accept now _ => some now
  | .latch now => some now
  | .recordsPending now _ => some now
  | .popReported _ _ now => some now
  | .popAtDrain _ _ now => some now
  | .clear now => some now
  | .entries now => some now

/-- Time does not run back, and candidates enter in the order they were numbered. -/
def HazardOp.inOrder (w : Watch) (op : HazardOp) : Bool :=
  (op.now?.all fun now => w.clock.all fun clock => decide (clock ≤ now)) &&
    match op with
    | .enter seq _ _ =>
      decide (seq ∈ w.handed) && w.entered.all fun earlier => decide (earlier < seq)
    | _ => true

/-- A kept entry of the FIFO stands for a candidate. -/
structure Tracks (run : Duration) (entry : Entry) (candidate : Candidate) : Prop where
  seq : entry.seq = candidate.seq
  accepted : entry.accepted = candidate.accepted
  latched : entry.state = .latched → candidate.latched = true
  quiet : ∀ runAtEntry, entry.state = .quiet runAtEntry →
    candidate.latched = false ∧ runAtEntry + candidate.quiet = run

theorem Tracks.later {run : Duration} {entry : Entry} {candidate : Candidate} (gap : Duration)
    (tracks : Tracks run entry candidate) : Tracks (run + gap) entry (candidate.later gap) where
  seq := tracks.seq
  accepted := tracks.accepted
  latched := tracks.latched
  quiet runAtEntry state := by
    rcases tracks.quiet runAtEntry state with ⟨unlatched, sum⟩
    refine ⟨unlatched, ?_⟩
    rw [Candidate.later, ← Nat.add_assoc, sum]

theorem Tracks.live_iff {run : Duration} {entry : Entry} {candidate : Candidate}
    (tracks : Tracks run entry candidate) : entry.live run = true ↔ candidate.stays = true := by
  cases state : entry.state with
  | latched =>
    simp only [Entry.live, state, Candidate.stays, tracks.latched state, Bool.true_or]
  | quiet runAtEntry =>
    rcases tracks.quiet runAtEntry state with ⟨unlatched, sum⟩
    have age : run - runAtEntry = candidate.quiet := by
      rw [← sum]
      exact Nat.add_sub_cancel_left _ _
    simp only [Entry.live, state, Candidate.stays, unlatched, age, Bool.false_or]

structure Watched (w : Watch) : Prop where
  tracks : List.Forall₂ (Tracks w.fifo.run) w.fifo.entries w.kept
  few : w.kept.length ≤ hazardSlots
  pending : w.fifo.paused = w.pending
  latest : w.fifo.latest = w.clock
  mark : w.pending = false → w.fifo.mark = w.clock
  extra : w.fifo.extra = w.counted.length
  newest : ∀ candidate ∈ w.counted, candidate.seq ≤ w.fifo.newestExtra
  newestAccept : ∀ candidate ∈ w.counted,
    ∃ accepted ∈ w.fifo.newestExtraAccept, candidate.accepted ≤ accepted
  past : ∀ accepted ∈ w.fifo.newestExtraAccept, ∃ clock ∈ w.clock, accepted ≤ clock
  rising : ((w.kept ++ w.counted).map Candidate.seq).Pairwise (· < ·)
  enteredRising : w.entered.Pairwise (· < ·)
  numbered : ∀ seq ∈ w.entered, seq ≤ w.fifo.nativeSeq
  parts : w.entered.Perm
    ((w.kept ++ w.counted ++ w.uncounted ++ w.left.map Departure.candidate).map Candidate.seq)
  uncounted : w.uncounted ≠ [] → w.fifo.exhausted = true
  handed : w.handed = List.range' 1 w.fifo.nativeSeq
  allowed : ∀ departure ∈ w.left, departure.Allowed
  once : (w.left.filterMap fun departure => departure.reason.receipt?).Nodup
  spent : ∀ departure ∈ w.left, ∀ receipt ∈ departure.reason.receipt?,
    w.receipts receipt = .spent (.entry departure.candidate.seq) ∨
      w.receipts receipt = .spent .extra

theorem watched_start : Watched Watch.start where
  tracks := .nil
  few := Nat.zero_le _
  pending := rfl
  latest := rfl
  mark _ := rfl
  extra := rfl
  newest _ mem := absurd mem List.not_mem_nil
  newestAccept _ mem := absurd mem List.not_mem_nil
  past _ mem := absurd mem (Option.not_mem_none _)
  rising := .nil
  enteredRising := .nil
  numbered _ mem := absurd mem List.not_mem_nil
  parts := .nil
  uncounted some := absurd rfl some
  handed := rfl
  allowed _ mem := absurd mem List.not_mem_nil
  once := .nil
  spent _ mem := absurd mem List.not_mem_nil

end AgentDeck.Probe
