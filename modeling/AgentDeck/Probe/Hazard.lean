import AgentDeck.Lib.Runs
import AgentDeck.Time
import Mathlib.Data.List.Forall2
import Mathlib.Data.List.Pairwise
import Mathlib.Tactic.Ring

/-!
# The hazard FIFO

`HazardFifo` of `src/composer_probe/query_ledger.rs`: the Ctrl+G presses the agent may not have read
yet. The first sixteen are kept one by one, the rest are counted. A press leaves when it was quiet
for long enough while no invocation record was pending, or when a record pops it, once.
-/

namespace AgentDeck.Probe

def hazardSlots : ℕ := 16

def tTrigger : Duration := fromSecs 10

inductive EntryState
  | latched
  | quiet (runAtEntry : Duration)
  deriving DecidableEq

structure Entry where
  seq : ℕ
  accepted : Instant
  state : EntryState
  deriving DecidableEq

inductive Pop
  | entry (seq : ℕ)
  | extra
  | nothing
  deriving DecidableEq

inductive HazardPop
  | unspent
  | spent (pop : Pop)
  deriving DecidableEq

structure HazardFifo where
  entries : List Entry
  /-- How many candidates are counted past the kept ones, a `u32`. -/
  extra : ℕ
  newestExtra : ℕ
  newestExtraAccept : Option Instant
  /-- The last number handed out, a `u64`. -/
  nativeSeq : ℕ
  exhausted : Bool
  /-- The time accrued while no record was pending. -/
  run : Duration
  mark : Option Instant
  latest : Option Instant
  paused : Bool

def Entry.live (run : Duration) (entry : Entry) : Bool :=
  match entry.state with
  | .latched => true
  | .quiet runAtEntry => decide (run - runAtEntry ≤ tTrigger)

namespace HazardFifo

def default : HazardFifo where
  entries := []
  extra := 0
  newestExtra := 0
  newestExtraAccept := none
  nativeSeq := 0
  exhausted := false
  run := 0
  mark := none
  latest := none
  paused := false

variable (f : HazardFifo) (now : Instant)

/-- The time the clock is brought to: never earlier than one already seen. -/
def reach : Instant :=
  match f.latest with
  | some latest => max latest now
  | none => now

def runAt : Duration :=
  match f.paused, f.mark with
  | false, some mark => f.run + (now - mark)
  | _, _ => f.run

/-- `advance`: bring the clock up to date and let what lapsed leave. -/
def advance : HazardFifo :=
  let reached := f.reach now
  let run := f.runAt reached
  { f with
    latest := some reached
    run := run
    mark := if f.paused then f.mark else some reached
    entries := f.entries.filter (Entry.live run) }

def number : Option ℕ × HazardFifo :=
  if f.exhausted then (none, f)
  else if f.nativeSeq + 1 < 2 ^ 64 then
    (some (f.nativeSeq + 1), { f with nativeSeq := f.nativeSeq + 1 })
  else (none, { f with exhausted := true })

def enter (seq : ℕ) (now : Instant) (backlog : Bool) : HazardFifo :=
  let f := f.advance now
  if 0 < f.extra ∨ f.entries.length = hazardSlots then
    -- While anything is counted, every new one is counted too.
    let f := if f.extra + 1 < 2 ^ 32 then { f with extra := f.extra + 1 }
      else { f with exhausted := true }
    { f with newestExtra := seq, newestExtraAccept := some now }
  else
    { f with
      entries := f.entries ++ [⟨seq, now, if backlog then .latched else .quiet f.run⟩] }

def accept (backlog : Bool) : Option ℕ × HazardFifo :=
  match f.number with
  | (some seq, f) => (some seq, f.enter seq now backlog)
  | (none, f) => (none, f)

def latch : HazardFifo :=
  let f := f.advance now
  { f with entries := f.entries.map fun entry => { entry with state := .latched } }

/-- `records_pending`: the quiet clock stops while a record is incomplete. -/
def recordsPending (pending : Bool) : HazardFifo :=
  let reached := f.reach now
  let f := f.advance now
  if pending ≠ f.paused then
    { f with paused := pending, mark := if pending then none else some reached }
  else f

def popExtra : HazardFifo :=
  if f.extra - 1 = 0 then
    { f with extra := f.extra - 1, newestExtra := 0, newestExtraAccept := none }
  else { f with extra := f.extra - 1 }

/-- The one pop of a receipt: the oldest kept candidate, or with none kept one of the counted. -/
def popIf (receipt : HazardPop) (now : Instant) (kept : Entry → Bool)
    (counted : HazardFifo → Bool) : Pop × HazardPop × HazardFifo :=
  let f := f.advance now
  if receipt ≠ .unspent then (.nothing, receipt, f)
  else
    match f.entries with
    | entry :: rest =>
      if kept entry then
        (.entry entry.seq, .spent (.entry entry.seq), { f with entries := rest })
      else (.nothing, .spent .nothing, f)
    | [] =>
      if 0 < f.extra ∧ counted f = true then (.extra, .spent .extra, f.popExtra)
      else (.nothing, .spent .nothing, f)

def popReported (receipt : HazardPop) (nativeSeen : ℕ) (now : Instant) :
    Pop × HazardPop × HazardFifo :=
  f.popIf receipt now (fun entry => decide (entry.seq ≤ nativeSeen))
    fun f => decide (f.newestExtra ≤ nativeSeen)

def popAtDrain (receipt : HazardPop) (birthFloor now : Instant) : Pop × HazardPop × HazardFifo :=
  f.popIf receipt now (fun entry => decide (entry.accepted < birthFloor))
    fun f => f.newestExtraAccept.any fun accepted => decide (accepted < birthFloor)

def clear : Bool × HazardFifo :=
  let f := f.advance now
  (!f.exhausted && f.entries.isEmpty && decide (f.extra = 0), f)

/-- `clear_at`: the answer of `clear`, read without moving anything. -/
def clearAt : Bool :=
  if f.exhausted ∨ 0 < f.extra then false
  else f.entries.all fun entry => !entry.live (f.runAt (f.reach now))

theorem clearAt_eq_clear : f.clearAt now = (f.clear now).1 := by
  simp only [clearAt, clear, advance]
  by_cases exhausted : f.exhausted = true
  · simp only [exhausted, true_or, ↓reduceIte, Bool.not_true, Bool.false_and]
  · by_cases counted : 0 < f.extra
    · have nonempty : f.extra ≠ 0 := by omega
      simp only [counted, or_true, ↓reduceIte, nonempty, decide_false, Bool.and_false]
    · have absent : f.extra = 0 := by omega
      simp only [exhausted, absent, lt_self_iff_false, or_self, ↓reduceIte, Bool.not_false,
        Bool.true_and, decide_true, Bool.and_true, Bool.false_eq_true]
      rw [Bool.eq_iff_iff]
      simp only [List.all_eq_true, Bool.not_eq_true', List.isEmpty_iff, List.filter_eq_nil_iff,
        Bool.not_eq_true]

end HazardFifo

end AgentDeck.Probe
