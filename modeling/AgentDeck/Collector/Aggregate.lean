import AgentDeck.Text
import Mathlib.Data.List.Sort
import Mathlib.Data.Prod.Lex

/-!
# Attribution and accounting

`src/telemetry/collector/aggregate.rs`: which run each process belongs to, and how much CPU and
memory each run used, sample by sample. Tick counters are natural numbers; the figures are kept in
ticks, and not divided by `clk_tck`.

A `HashMap` is a `SortedMap` here. Where the source iterates over one, an `Order` rearranges its
entries, another one for every loop of every sample.
-/

namespace AgentDeck.Collector

/-- How far a vanished process's last-known ancestry is followed. -/
def maxAncestry : ℕ := 64

def u64Max : ℕ := 2 ^ 64 - 1

/-! ## One sample -/

structure ProcStat where
  ppid : ℕ
  utime : ℕ
  stime : ℕ
  cutime : ℕ
  cstime : ℕ
  starttime : ℕ
  deriving DecidableEq

namespace ProcStat

def totalTicks (stat : ProcStat) : ℕ := stat.utime + stat.stime + stat.cutime + stat.cstime

def childrenTicks (stat : ProcStat) : ℕ := stat.cutime + stat.cstime

end ProcStat

structure Pss where
  anon : ℕ
  file : ℕ
  shmem : ℕ
  deriving DecidableEq

namespace Pss

def zero : Pss := ⟨0, 0, 0⟩

def add (pss other : Pss) : Pss :=
  ⟨pss.anon + other.anon, pss.file + other.file, pss.shmem + other.shmem⟩

end Pss

structure RunIdentity where
  runId : Text
  attributes : List (Text × Text)
  deriving DecidableEq

inductive Environ where
  | read (identity : Option RunIdentity)
  | unreadable
  deriving DecidableEq

/-- `(pid, starttime)`: a reused pid is a different process. -/
structure Key where
  pid : ℕ
  starttime : ℕ
  deriving DecidableEq

def Key.rank (key : Key) : ℕ ×ₗ ℕ := toLex (key.pid, key.starttime)

theorem Key.rank_injective : Function.Injective Key.rank := by
  intro left right same
  cases left
  cases right
  simpa [Key.rank] using same

instance : LinearOrder Key := LinearOrder.lift' Key.rank Key.rank_injective

structure ProcessSample where
  pid : ℕ
  uid : ℕ
  stat : ProcStat
  environ : Environ
  pss : Option Pss
  deriving DecidableEq

namespace ProcessSample

def key (p : ProcessSample) : Key := ⟨p.pid, p.stat.starttime⟩

/-- The order of `sort_by_key(|p| (p.stat.starttime, p.pid))`. -/
def Older (p q : ProcessSample) : Prop :=
  p.stat.starttime < q.stat.starttime ∨ p.stat.starttime = q.stat.starttime ∧ p.pid ≤ q.pid

instance : DecidableRel Older := fun p q =>
  inferInstanceAs (Decidable (p.stat.starttime < q.stat.starttime ∨
    p.stat.starttime = q.stat.starttime ∧ p.pid ≤ q.pid))

end ProcessSample

/-- What a run is aggregated under: its id and its processes' user. -/
structure RunKey where
  runId : Text
  uid : ℕ
  deriving DecidableEq

def RunKey.rank (key : RunKey) : Text ×ₗ ℕ := toLex (key.runId, key.uid)

theorem RunKey.rank_injective : Function.Injective RunKey.rank := by
  intro left right same
  cases left
  cases right
  simpa [RunKey.rank] using same

instance : LinearOrder RunKey := LinearOrder.lift' RunKey.rank RunKey.rank_injective

/-! ## What is produced -/

/-- What one run, or the unattributed bucket, used: in all, and in this sample alone. -/
structure Figures where
  cpuTicks : ℕ
  cpuTicksDelta : ℕ
  startUnixNanos : ℕ
  previousUnixNanos : Option ℕ
  pss : Pss
  processes : ℕ
  deriving DecidableEq

structure RunFigures where
  identity : RunIdentity
  uid : ℕ
  figures : Figures
  ended : Bool
  members : List ℕ
  deriving DecidableEq

structure Sample where
  timeUnixNanos : ℕ
  runs : List RunFigures
  unattributed : Figures
  deriving DecidableEq

/-! ## The state between samples -/

inductive Attribution where
  | run (key : RunKey)
  | unattributed
  deriving DecidableEq

structure Tracked where
  ppid : ℕ
  uid : ℕ
  total : ℕ
  children : ℕ
  attribution : Attribution
  own : Bool
  deriving DecidableEq

structure Series where
  ticks : ℕ
  startUnixNanos : ℕ
  lastUnixNanos : Option ℕ
  deriving DecidableEq

def Series.new (startUnixNanos : ℕ) : Series := ⟨0, startUnixNanos, none⟩

structure RunState where
  identity : RunIdentity
  series : Series
  deriving DecidableEq

structure Aggregator where
  clkTck : ℕ
  bootUnixSecs : ℕ
  tracked : SortedMap Key Tracked
  runs : SortedMap RunKey RunState
  unattributed : Series

namespace Aggregator

def new (clkTck bootUnixSecs startedUnixNanos : ℕ) : Aggregator where
  clkTck := max clkTck 1
  bootUnixSecs := bootUnixSecs
  tracked := SortedMap.empty
  runs := SortedMap.empty
  unattributed := Series.new startedUnixNanos

/-- When a process that started `starttime` ticks after boot started. -/
def startUnixNanos (agg : Aggregator) (starttime : ℕ) : ℕ :=
  min (agg.bootUnixSecs * 1000000000 + starttime * 1000000000 / agg.clkTck) u64Max

end Aggregator

/-! ## The orders of the loops -/

/-- The order in which a loop goes through the entries of a `HashMap`. -/
structure Order (α : Type) where
  arrange : List α → List α
  perm : ∀ entries, (arrange entries).Perm entries

def Order.same (α : Type) : Order α := ⟨id, fun entries => List.Perm.refl entries⟩

/-- The orders of one sample's loops. -/
structure Iteration where
  newRuns : Order (RunKey × ℕ)
  current : Order (Key × Tracked)
  prevByPid : Order (Key × Tracked)
  tracked : Order (Key × Tracked)
  credit : Order (Key × ℤ)

def Iteration.same : Iteration := ⟨.same _, .same _, .same _, .same _, .same _⟩

/-! ## Attribution -/

structure Attributing where
  current : SortedMap Key Tracked
  byPid : SortedMap ℕ Key
  newRuns : SortedMap RunKey ℕ
  runs : SortedMap RunKey RunState

namespace Attributing

/-- A run seen first opens its series, the start of which is set once every process is
attributed. -/
def noteRun (state : Attributing) (run : RunKey) (identity : RunIdentity) : Attributing :=
  if (state.runs.get? run).isSome then state
  else
    { state with
      runs := state.runs.insert run ⟨identity, .new 0⟩
      newRuns := state.newRuns.insert run u64Max }

/-- The parent's attribution, where the parent is no younger and of the same user. -/
def inherited (state : Attributing) (p : ProcessSample) : Attribution :=
  let parent := (((state.byPid.get? p.stat.ppid).filter
    fun pk => pk.starttime ≤ p.stat.starttime).bind state.current.get?).filter
      fun parent => parent.uid = p.uid
  (parent.map Tracked.attribution).getD .unattributed

/-- What `p` is attributed to, and whether by its own environment. -/
def decided (tracked : SortedMap Key Tracked) (state : Attributing) (p : ProcessSample) :
    Attribution × Bool :=
  -- What it was attributed to stays only while it runs as the same user.
  let prev := (tracked.get? p.key).filter fun t => t.uid = p.uid
  match prev, p.environ with
  | _, .read (some identity) => (.run ⟨identity.runId, p.uid⟩, true)
  | some t, _ =>
    if t.own then (t.attribution, true)
    else
      match t.attribution with
      | .run run => (.run run, false)
      | .unattributed => (state.inherited p, false)
  | none, _ => (state.inherited p, false)

/-- One process of the loop over the sorted sample. -/
def attributeProcess (tracked : SortedMap Key Tracked) (state : Attributing) (p : ProcessSample) :
    Attributing :=
  let verdict := state.decided tracked p
  let noted :=
    match p.environ with
    | .read (some identity) => state.noteRun ⟨identity.runId, p.uid⟩ identity
    | _ => state
  { noted with
    newRuns :=
      match verdict.1 with
      | .run run => noted.newRuns.modify run (min · p.stat.starttime)
      | .unattributed => noted.newRuns
    current := noted.current.insert p.key
      { ppid := p.stat.ppid
        uid := p.uid
        total := p.stat.totalTicks
        children := p.stat.childrenTicks
        attribution := verdict.1
        own := verdict.2 }
    byPid := noted.byPid.insert p.pid p.key }

end Attributing

/-- The sample, oldest first, so a parent is attributed before its children. -/
def sorted (processes : List ProcessSample) : List ProcessSample :=
  processes.insertionSort ProcessSample.Older

namespace Aggregator

def attributed (agg : Aggregator) (processes : List ProcessSample) : Attributing :=
  (sorted processes).foldl (Attributing.attributeProcess agg.tracked)
    ⟨SortedMap.empty, SortedMap.empty, SortedMap.empty, agg.runs⟩

/-- The new runs' series start where their oldest process did, and never after the sample. -/
def startRuns (agg : Aggregator) (timeUnixNanos : ℕ) (runs : SortedMap RunKey RunState)
    (newRuns : List (RunKey × ℕ)) : SortedMap RunKey RunState :=
  newRuns.foldl (fun runs fresh =>
    runs.modify fresh.1 fun run =>
      { run with series := { run.series with
        startUnixNanos := min (agg.startUnixNanos fresh.2) timeUnixNanos } }) runs

end Aggregator

/-! ## Credit -/

structure Accounts where
  credit : SortedMap Key ℤ
  budget : SortedMap Key ℕ

/-- Credit each process its increase, or its whole total when new. -/
def credited (tracked : SortedMap Key Tracked) (current : List (Key × Tracked)) : Accounts :=
  current.foldl (fun accounts entry =>
    match tracked.get? entry.1 with
    | some prev =>
      { credit := accounts.credit.insert entry.1 ↑(entry.2.total - prev.total)
        budget := accounts.budget.insert entry.1 (entry.2.children - prev.children) }
    | none =>
      { credit := accounts.credit.insert entry.1 ↑entry.2.total
        budget := accounts.budget.insert entry.1 0 })
    ⟨SortedMap.empty, SortedMap.empty⟩

def prevByPid (tracked : List (Key × Tracked)) : SortedMap ℕ Key :=
  tracked.foldl (fun keys entry => keys.insert entry.1.pid entry.1) SortedMap.empty

/-- The maps the walk up a vanished process's ancestry looks into. -/
structure Ancestry where
  tracked : SortedMap Key Tracked
  current : SortedMap Key Tracked
  byPid : SortedMap ℕ Key
  prevByPid : SortedMap ℕ Key

namespace Ancestry

/-- The nearest ancestor that survived, looked for in as many parents as there are `tries`. -/
def reaper (ancestry : Ancestry) : ℕ → Tracked → Option Key
  | 0, _ => none
  | tries + 1, node =>
    match (ancestry.byPid.get? node.ppid).filter fun pk =>
        (ancestry.tracked.get? pk).isSome with
    | some pk => some pk
    | none =>
      match ancestry.prevByPid.get? node.ppid with
      | none => none
      | some vk =>
        if (ancestry.current.get? vk).isSome then none
        else (ancestry.tracked.get? vk).bind (ancestry.reaper tries)

/-- Take back what a vanished process was already credited from the ancestor that reaped it. -/
def takeBack (ancestry : Ancestry) (accounts : Accounts) (gone : Key × Tracked) : Accounts :=
  if (ancestry.current.get? gone.1).isSome then accounts
  else
    match ancestry.reaper maxAncestry gone.2 with
    | none => accounts
    | some pk =>
      match accounts.budget.get? pk with
      | none => accounts
      | some left =>
        let taken := min gone.2.total left
        { credit := accounts.credit.modify pk (· - (taken : ℤ))
          budget := accounts.budget.insert pk (left - taken) }

end Ancestry

/-! ## Sums -/

structure Ticks where
  runs : SortedMap RunKey ℕ
  unattributed : ℕ

variable (current : SortedMap Key Tracked)

/-- One process's credit, never below zero, goes to what it is attributed to. -/
def Ticks.give (ticks : Ticks) (entry : Key × ℤ) : Ticks :=
  match (current.get? entry.1).map Tracked.attribution with
  | some (.run run) =>
    { ticks with
      runs := ticks.runs.insert run ((ticks.runs.get? run).getD 0 + entry.2.toNat) }
  | some .unattributed => { ticks with unattributed := ticks.unattributed + entry.2.toNat }
  | none => ticks

def ticksOf (credit : List (Key × ℤ)) : Ticks :=
  credit.foldl (Ticks.give current) ⟨SortedMap.empty, 0⟩

structure Memory where
  runs : SortedMap RunKey (Pss × List ℕ)
  unattributed : Pss
  processes : ℕ

def Memory.give (memory : Memory) (p : ProcessSample) : Memory :=
  let pss := p.pss.getD .zero
  match (current.get? p.key).map Tracked.attribution with
  | some (.run run) =>
    let entry := (memory.runs.get? run).getD (.zero, [])
    { memory with runs := memory.runs.insert run (entry.1.add pss, entry.2 ++ [p.pid]) }
  | some .unattributed =>
    { memory with
      unattributed := memory.unattributed.add pss
      processes := memory.processes + 1 }
  | none => memory

def memoryOf (processes : List ProcessSample) : Memory :=
  processes.foldl (Memory.give current) ⟨SortedMap.empty, .zero, 0⟩

/-! ## The step -/

def Series.grow (series : Series) (ticks timeUnixNanos : ℕ) : Series :=
  { series with ticks := series.ticks + ticks, lastUnixNanos := some timeUnixNanos }

def Series.figures (series : Series) (ticks : ℕ) (pss : Pss) (processes : ℕ) : Figures where
  cpuTicks := series.ticks + ticks
  cpuTicksDelta := ticks
  startUnixNanos := series.startUnixNanos
  previousUnixNanos := series.lastUnixNanos
  pss := pss
  processes := processes

def membersOf (memory : Memory) (key : RunKey) : Pss × List ℕ :=
  (memory.runs.get? key).getD (.zero, [])

def runFigures (ticks : Ticks) (memory : Memory) (key : RunKey) (run : RunState) : RunFigures :=
  let used := membersOf memory key
  { identity := run.identity
    uid := key.uid
    figures := run.series.figures ((ticks.runs.get? key).getD 0) used.1 used.2.length
    ended := used.2.isEmpty
    members := used.2 }

namespace Aggregator

/-- The accounts once every vanished process's time is taken back. -/
def settled (agg : Aggregator) (order : Iteration) (processes : List ProcessSample) : Accounts :=
  let state := agg.attributed processes
  let ancestry : Ancestry :=
    ⟨agg.tracked, state.current, state.byPid,
      prevByPid (order.prevByPid.arrange agg.tracked.entries)⟩
  (order.tracked.arrange agg.tracked.entries).foldl ancestry.takeBack
    (credited agg.tracked (order.current.arrange state.current.entries))

def step (agg : Aggregator) (order : Iteration) (timeUnixNanos : ℕ)
    (processes : List ProcessSample) : Aggregator × Sample :=
  let state := agg.attributed processes
  let runs := agg.startRuns timeUnixNanos state.runs (order.newRuns.arrange state.newRuns.entries)
  let accounts := agg.settled order processes
  let ticks := ticksOf state.current (order.credit.arrange accounts.credit.entries)
  let memory := memoryOf state.current (sorted processes)
  ({ agg with
      tracked := state.current
      runs := (runs.map fun key run =>
        { run with series :=
          run.series.grow ((ticks.runs.get? key).getD 0) timeUnixNanos }).filter
            fun key _ => !(membersOf memory key).2.isEmpty
      unattributed := agg.unattributed.grow ticks.unattributed timeUnixNanos },
    { timeUnixNanos := timeUnixNanos
      runs := runs.entries.map fun entry => runFigures ticks memory entry.1 entry.2
      unattributed := agg.unattributed.figures ticks.unattributed memory.unattributed
        memory.processes })

end Aggregator

/-- A call of `step`: its arguments, and the orders its loops happen to go in. -/
structure Call where
  order : Iteration
  timeUnixNanos : ℕ
  processes : List ProcessSample

namespace Aggregator

def call (agg : Aggregator) (call : Call) : Aggregator × Sample :=
  agg.step call.order call.timeUnixNanos call.processes

def after (agg : Aggregator) (calls : List Call) : Aggregator :=
  calls.foldl (fun agg call => (agg.call call).1) agg

def produced (agg : Aggregator) : List Call → List Sample
  | [] => []
  | call :: calls => (agg.call call).2 :: (agg.call call).1.produced calls

end Aggregator

end AgentDeck.Collector
