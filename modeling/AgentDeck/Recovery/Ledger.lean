import AgentDeck.Inbox.Types
import AgentDeck.Lib.SortedMap
import Mathlib.Data.Prod.Lex

/-!
# Report recovery: the task ledger

`TaskLedger` of `src/report_recovery.rs`: every delegated task the deck still knows. A task is bound
once, open until it is settled, and leaves a tombstone; tombstones are bounded for each
orchestration instance and across the daemon. Hash maps are sorted maps, the queues are lists with
the oldest first.
-/

namespace AgentDeck.Recovery

open AgentDeck.Inbox (Recipient)

inductive Destination
  | inbox
  | recovery
  | none_
  | unknown
  deriving DecidableEq

structure TaskBinding where
  workerPane : Text
  workerAgent : Text
  instance_ : Option Text
  role : Text
  orchestrator : Option Recipient
  armId : Option ℕ
  seq : Option ℕ
  deriving DecidableEq

inductive TaskDelivery
  | live
  | acknowledged
  | ended
  deriving DecidableEq

inductive TaskState
  | open_ (revision : ℕ)
  | reporting (claimId : ℕ)
  deriving DecidableEq

inductive Tombstone
  | reported (reportId : Option Text) (digest : Option (List UInt8)) (destination : Destination)
  | closed
  | superseded (replacement : Option Text)
  deriving DecidableEq

structure Task where
  binding : TaskBinding
  delivery : TaskDelivery
  state : TaskState
  exitWalked : Bool
  deriving DecidableEq

structure SettledTask where
  tombstone : Tombstone
  workerPane : Text
  workerAgent : Text
  instance_ : Text
  deriving DecidableEq

/-- The tombstone key for a task with no orchestration instance. -/
def noInstance : Text := []

/-- `usize::MAX`. -/
@[irreducible] def usizeMax : ℕ := 18446744073709551615

structure TaskLedger where
  open_ : SortedMap Text Task
  settled : SortedMap Text SettledTask
  byInstance : SortedMap Text (List Text)
  order : List Text
  perInstance : ℕ
  global : ℕ

def TaskBinding.queue (binding : TaskBinding) : Text := binding.instance_.getD noInstance

namespace TaskLedger

def new (perInstance : ℕ) : TaskLedger where
  open_ := .empty
  settled := .empty
  byInstance := .empty
  order := []
  perInstance := max perInstance 1
  global := min (max perInstance 1 * 16) usizeMax

variable (ledger : TaskLedger)

def bind (taskId : Text) (binding : TaskBinding) : Option TaskLedger :=
  if (ledger.open_.get? taskId).isSome || (ledger.settled.get? taskId).isSome then none
  else some { ledger with
    open_ := ledger.open_.insert taskId
      { binding, delivery := .live, state := .open_ 0, exitWalked := false } }

/-- What a caller does with the task `open_task_mut` hands out. -/
def openTaskMut (taskId : Text) (change : Task → Task) : TaskLedger :=
  { ledger with open_ := ledger.open_.modify taskId change }

def forget (taskId : Text) : TaskLedger :=
  { ledger with
    settled := ledger.settled.erase taskId
    order := ledger.order.filter fun id => decide (id ≠ taskId) }

/-- The first loop of `evict`, in at most `rounds` rounds. -/
def evictInstance (key : Text) : ℕ → TaskLedger → TaskLedger
  | 0, ledger => ledger
  | rounds + 1, ledger =>
    match ledger.byInstance.get? key with
    | some (oldest :: ids) =>
      if ledger.perInstance < (oldest :: ids).length then
        evictInstance key rounds
          ({ ledger with byInstance := ledger.byInstance.insert key ids }.forget oldest)
      else ledger
    | _ => ledger

/-- A round of the second loop takes `oldest` off its queue. -/
def unqueue (oldest : Text) : TaskLedger :=
  match ledger.settled.get? oldest with
  | some task =>
    let unsettled := { ledger with settled := ledger.settled.erase oldest }
    match unsettled.byInstance.get? task.instance_ with
    | some ids =>
      let ids := ids.filter fun id => decide (id ≠ oldest)
      { unsettled with
        byInstance :=
          if ids.isEmpty then (unsettled.byInstance.insert task.instance_ ids).erase task.instance_
          else unsettled.byInstance.insert task.instance_ ids }
    | none => unsettled
  | none => ledger

def evictGlobal : ℕ → TaskLedger → TaskLedger
  | 0, ledger => ledger
  | rounds + 1, ledger =>
    match ledger.order with
    | oldest :: rest =>
      if ledger.global < (oldest :: rest).length then
        evictGlobal rounds ({ ledger with order := rest }.unqueue oldest)
      else ledger
    | [] => ledger

/-- Each round takes an entry off a queue, so a loop has no more rounds than it has entries. -/
def evict (key : Text) : TaskLedger :=
  let first := evictInstance key ((ledger.byInstance.get? key).getD []).length ledger
  evictGlobal first.order.length first

def entomb (taskId : Text) (task : Task) (tombstone : Tombstone) : TaskLedger :=
  let key := task.binding.queue
  { ledger with
    open_ := ledger.open_.erase taskId
    settled := ledger.settled.insert taskId
      { tombstone, workerPane := task.binding.workerPane, workerAgent := task.binding.workerAgent,
        instance_ := key }
    byInstance :=
      ledger.byInstance.insert key (((ledger.byInstance.get? key).getD []) ++ [taskId])
    order := ledger.order ++ [taskId] }

def settle (taskId : Text) (tombstone : Tombstone) : Option (Task × TaskLedger) :=
  match ledger.open_.get? taskId with
  | some task => some (task, (ledger.entomb taskId task tombstone).evict task.binding.queue)
  | none => none

end TaskLedger

/-! ## Units -/

inductive UnitMark
  | marked
  | unitEndedFirst
  deriving DecidableEq

inductive EndedHow
  | exited
  | closed
  | respawnFailed
  deriving DecidableEq

inductive UnitEntry
  | claimed (claimId : ℕ)
  | completed (reportId : Option Text) (digest : List UInt8) (destination : Destination)
      (unitMark : UnitMark)
  | ended (how : EndedHow)
  deriving DecidableEq

abbrev Generation := Text ×ₗ Text

/-- Units' results and the index of their terminal generations. A unit is listed once. -/
structure UnitTable where
  units : SortedMap Text UnitEntry
  byGeneration : SortedMap Generation Text
  order : List Text
  cap : ℕ
  listedOnce : order.Nodup

namespace UnitTable

def new (cap : ℕ) : UnitTable where
  units := .empty
  byGeneration := .empty
  order := []
  cap := max cap 1
  listedOnce := List.nodup_nil

def touched (order : List Text) (unitId : Text) : List Text :=
  if unitId ∈ order then order else order ++ [unitId]

theorem nodup_touched {order : List Text} (listedOnce : order.Nodup) (unitId : Text) :
    (touched order unitId).Nodup := by
  simp only [touched]
  split
  · exact listedOnce
  · rename_i unlisted
    exact List.nodup_append.mpr ⟨listedOnce, List.nodup_singleton unitId, fun id mem other single =>
      fun equal => unlisted (List.mem_singleton.mp single ▸ equal ▸ mem)⟩

def index (table : UnitTable) (pane agent unitId : Text) : UnitTable :=
  { table with
    byGeneration := table.byGeneration.insert (toLex (pane, agent)) unitId
    order := touched table.order unitId
    listedOnce := nodup_touched table.listedOnce unitId }

def set (table : UnitTable) (unitId : Text) (entry : UnitEntry) : UnitTable :=
  { table with
    units := table.units.insert unitId entry
    order := touched table.order unitId
    listedOnce := nodup_touched table.listedOnce unitId }

def remove (table : UnitTable) (unitId : Text) : UnitTable :=
  { table with units := table.units.erase unitId }

def generationsOf (byGeneration : SortedMap Generation Text) (unitId : Text) : List Generation :=
  (byGeneration.entries.filter fun entry => decide (entry.2 = unitId)).map Prod.fst

/-- What `evict` works on: the units still listed, those it kept and those it evicted. -/
structure Sweep where
  units : SortedMap Text UnitEntry
  byGeneration : SortedMap Generation Text
  order : List Text
  kept : List Text
  evicted : List Text

def isClaimed (units : SortedMap Text UnitEntry) (unitId : Text) : Bool :=
  match units.get? unitId with
  | some (.claimed _) => true
  | _ => false

def sweep (cap : ℕ) (guarded : Text → List Generation → Bool) (units : SortedMap Text UnitEntry)
    (byGeneration : SortedMap Generation Text) (kept evicted : List Text) : List Text → Sweep
  | [] => ⟨units, byGeneration, [], kept, evicted⟩
  | unit :: order =>
    if cap < (unit :: order).length + kept.length then
      let generations := generationsOf byGeneration unit
      if isClaimed units unit || guarded unit generations then
        sweep cap guarded units byGeneration (kept ++ [unit]) evicted order
      else
        sweep cap guarded (units.erase unit)
          (generations.foldl (fun map generation => map.erase generation) byGeneration) kept
          (evicted ++ [unit]) order
    else ⟨units, byGeneration, unit :: order, kept, evicted⟩

end UnitTable

end AgentDeck.Recovery
