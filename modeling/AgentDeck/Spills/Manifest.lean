import AgentDeck.Spills.Ledger
import Mathlib.Logic.Function.Basic

/-!
# Inventories across the runs of a daemon

`SpillManifest` and `TakenSources` of `src/inbox_spills.rs`. An inventory is a file that is replaced
whole; a run's lock is free exactly when the run has ended. A run may end between any two steps: of
its takeover, where the bodies are examined one by one, of the release of the inventories it took,
and of what it does after. A path is minted for one body only.
-/

namespace AgentDeck.Spills

/-- How far a run has come. `opening` is inside `SpillManifest::open`, with the entries it has not
looked at yet and the bodies it will answer; `releasing` has the taken inventories left to remove,
and whether the list of the first of them is gone. -/
inductive Phase (P : Type) where
  | opening (rest : List (ManifestEntry P)) (spills : List (OwnedSpill P))
  | recording
  | releasing (sources : List ℕ) (listGone : Bool)

/-- One daemon run. `answered` are the bodies `reclaim` answered for removal, `failed` those whose
removal failed. `taken`, the entries the takeover read, is history: no operation reads it. -/
structure Run (P : Type) where
  unique : ℕ
  now : Instant
  wall : SystemTime
  ledger : SpillLedger P
  sources : List ℕ
  phase : Phase P
  answered : List (OwnedSpill P)
  failed : List (OwnedSpill P)
  taken : List (ManifestEntry P)

/-- The state directory and the saved bodies. `files` holds the paths at which a saved body is;
`minted` those that ever were. -/
structure System (P : Type) where
  files : P → Bool
  minted : P → Bool
  lists : ℕ → Option (List (ManifestEntry P))
  locks : ℕ → Bool
  current : Option (Run P)

inductive SpillOp (P : Type) where
  | start (unique : ℕ) (order : List ℕ) (now : Instant) (wall : SystemTime)
      (retention protectedGrace : Duration) (maxSettledBytes : ℕ)
  | examine (fails : Bool)
  | adopt
  | write (written : Bool)
  | dropList (removed : Bool)
  | dropLock (removed : Bool)
  | own (path : P) (message : Text) (bytes : ℕ)
  | ownTask (path : P) (message : Text) (bytes : ℕ) (worker : TaskHold)
  | releaseTasks (paneId : Text) (retired : Text → Option Text → Bool)
  | reclaim (now : Instant) (wall : SystemTime) (live : Text → Bool)
  | remove (fails : Bool)
  | restore
  | vanish (path : P)
  | finish

variable {P : Type} [DecidableEq P]

/-- The body an entry stands for, as the takeover at `now` and `wall` tracks it. -/
def takenSpill (now : Instant) (wall : SystemTime) (entry : ManifestEntry P) : OwnedSpill P :=
  let settledWall := (entry.settledUnixMs.map unixMillis).getD wall
  let age := wall - settledWall
  { path := entry.path
    message := none
    bytes := entry.bytes
    task := none
    settledAt := some (if age ≤ now then now - age else now)
    settledWall := some settledWall
    failedRemovals := 0 }

/-- How long ago the entry settled: an entry without a settlement settles now. -/
def entryAge (wall : SystemTime) (entry : ManifestEntry P) : Duration :=
  wall - (entry.settledUnixMs.map unixMillis).getD wall

/-- The entries the takeover of these inventories reads: of each, those whose file is there. -/
def takeOver (files : P → Bool) (lists : ℕ → Option (List (ManifestEntry P))) (order : List ℕ) :
    List (ManifestEntry P) :=
  order.flatMap fun unique => ((lists unique).getD []).filter fun entry => files entry.path

namespace System

variable (s : System P)

def put (run : Run P) : System P := { s with current := some run }

/-- `SpillManifest::open` up to its loop: the run's lock, and the inventories of ended runs it could
read, in the order in which it met them. -/
def start (unique : ℕ) (order : List ℕ) (now : Instant) (wall : SystemTime)
    (retention protectedGrace : Duration) (maxSettledBytes : ℕ) : System P :=
  if s.current.isNone ∧ s.locks unique = false ∧ s.lists unique = none ∧ order.Nodup ∧
      ∀ source ∈ order, s.locks source = true then
    { s with
      locks := Function.update s.locks unique true
      current := some
        { unique := unique
          now := now
          wall := wall
          ledger := ⟨[], retention, protectedGrace, maxSettledBytes⟩
          sources := order
          phase := .opening (takeOver s.files s.lists order) []
          answered := []
          failed := []
          taken := takeOver s.files s.lists order } }
  else s

/-- One round of the loop of `SpillManifest::open`. -/
def examine (run : Run P) (fails : Bool) : System P :=
  match run.phase with
  | .opening (entry :: rest) spills =>
    let spill := takenSpill run.now run.wall entry
    if run.ledger.retention ≤ entryAge run.wall entry then
      if s.files entry.path && fails then
        s.put { run with
          phase := .opening rest (spills ++ [{ spill with failedRemovals := 1 }]) }
      else
        { s with
          files := Function.update s.files entry.path false
          current := some { run with phase := .opening rest spills } }
    else s.put { run with phase := .opening rest (spills ++ [spill]) }
  | _ => s

def adopt (s : System P) (run : Run P) : System P :=
  match run.phase with
  | .opening [] spills => s.put { run with ledger := run.ledger.adopt spills, phase := .recording }
  | _ => s

/-- `SpillManifest::write` of `manifest_text`. The taken inventories are released only after the
first write has succeeded; after a failed one they are left in place. -/
def write (run : Run P) (written : Bool) : System P :=
  let lists := if written then
      Function.update s.lists run.unique (some run.ledger.manifestText) else s.lists
  match run.phase with
  | .recording =>
    { s with
      lists := lists
      current := some { run with
        phase := .releasing (if written then run.sources else []) false } }
  | .releasing [] _ => { s with lists := lists }
  | _ => s

/-- `TakenSources::release` removes a list, then its lock; a list that stays keeps its lock. -/
def dropList (run : Run P) (removed : Bool) : System P :=
  match run.phase with
  | .releasing (source :: rest) false =>
    if removed then
      { s with
        lists := Function.update s.lists source none
        current := some { run with phase := .releasing (source :: rest) true } }
    else s.put { run with phase := .releasing rest false }
  | _ => s

def dropLock (run : Run P) (removed : Bool) : System P :=
  match run.phase with
  | .releasing (source :: rest) true =>
    { s with
      locks := if removed then Function.update s.locks source false else s.locks
      current := some { run with phase := .releasing rest false } }
  | _ => s

/-- A step of a run that has its inventories released. -/
def served (run : Run P) (next : System P) : System P :=
  match run.phase with
  | .releasing [] _ => next
  | _ => s

/-- Save a body under a name that was never used, and track it. -/
def own (run : Run P) (path : P) (ledger : SpillLedger P) : System P :=
  s.served run (if s.minted path then s
    else
      { s with
        files := Function.update s.files path true
        minted := Function.update s.minted path true
        current := some { run with ledger := ledger } })

def remove (run : Run P) (fails : Bool) : System P :=
  match run.answered with
  | [] => s
  | spill :: rest =>
    if s.files spill.path && fails then
      s.put { run with
        answered := rest
        failed := run.failed ++ [{ spill with failedRemovals := spill.failedRemovals + 1 }] }
    else
      { s with
        files := Function.update s.files spill.path false
        current := some { run with answered := rest } }

def runStep (run : Run P) : SpillOp P → System P
  | .start .. => s
  | .examine fails => s.examine run fails
  | .adopt => s.adopt run
  | .write written => s.write run written
  | .dropList removed => s.dropList run removed
  | .dropLock removed => s.dropLock run removed
  | .own path message bytes => s.own run path (run.ledger.own path message bytes)
  | .ownTask path message bytes worker =>
    s.own run path (run.ledger.ownTask path message bytes worker)
  | .releaseTasks paneId retired =>
    s.served run (s.put { run with ledger := run.ledger.releaseTasks paneId retired })
  | .reclaim now wall live =>
    s.served run (s.put { run with
      ledger := (run.ledger.reclaim now wall live).1
      answered := run.answered ++ (run.ledger.reclaim now wall live).2.removed })
  | .remove fails => s.remove run fails
  | .restore =>
    s.served run (s.put { run with ledger := run.ledger.restore run.failed, failed := [] })
  | .vanish path => { s with files := Function.update s.files path false }
  | .finish => { s with current := none }

/-- One step. An operation that does not apply leaves the system as it is. -/
def step (op : SpillOp P) : System P :=
  match s.current with
  | some run => s.runStep run op
  | none =>
    match op with
    | .start unique order now wall retention protectedGrace maxSettledBytes =>
      s.start unique order now wall retention protectedGrace maxSettledBytes
    | .vanish path => { s with files := Function.update s.files path false }
    | _ => s

def run (ops : List (SpillOp P)) : System P := ops.foldl step s

end System

def System.empty : System P := ⟨fun _ => false, fun _ => false, fun _ => none, fun _ => false, none⟩

end AgentDeck.Spills
