import AgentDeck.Time
import AgentDeck.Text
import Mathlib.Logic.Function.Basic

/-!
# The order of hook events

`HookEventOrder` of `src/hook_event_order.rs`: connections take tickets in accept order, and an
event waits for its turn behind the earlier connections that carry, or may yet carry, an event it is
ordered behind. A line is known by its kind, as `line_kind` reads it. A change of the table and the
notification after it are steps of their own, and so are the registration of a waiter, its reading
of the clock and its check.
-/

namespace AgentDeck.HookOrder

/-- Whether the provenance gate attests a line or admits it unproven. -/
inductive Standing where
  | attested
  | unproven
  deriving DecidableEq

def Standing.holdsBack (self waiter : Standing) : Bool :=
  decide (self = .attested) || decide (waiter = .unproven)

structure Keys where
  session : Text
  pane : Option Text
  deriving DecidableEq

def Keys.overlaps (self other : Keys) : Bool :=
  decide (self.session = other.session) ||
    match self.pane, other.pane with
    | some a, some b => decide (a = b)
    | _, _ => false

inductive Slot where
  | silent
  | announced (pane : Text) (standing : Standing)
  | event (keys : Keys) (standing : Standing)
  deriving DecidableEq

structure Connection where
  acceptedAt : Instant
  slot : Slot
  deriving DecidableEq

/-- How the hook loop will read a line; a refused line has no standing. -/
inductive LineKind where
  | event (keys : Keys) (standing : Option Standing)
  | announce (pane : Text) (standing : Option Standing)
  | other
  deriving DecidableEq

structure Verdict where
  sameKeysAhead : Bool
  silentUntil : Option Instant
  gaveUpOnSilent : Bool
  deriving DecidableEq

/-- Whether this connection may yet turn out to carry an event the waiter is ordered behind. -/
def Slot.pending (keys : Keys) (standing : Standing) : Slot → Bool
  | .event _ _ => false
  | .silent => true
  | .announced pane .attested => decide (keys.pane = some pane)
  | .announced _ .unproven => decide (standing = .unproven)

/-- Whether the connection carries an event the waiter is ordered behind. -/
def Slot.blocks (keys : Keys) (standing : Standing) : Slot → Bool
  | .event theirs theirStanding => theirStanding.holdsBack standing && theirs.overlaps keys
  | _ => false

/-- One connection of the loop in `turn_for_kind`. -/
def Verdict.look (predecessorWait : Duration) (now : Instant) (keys : Keys) (standing : Standing)
    (v : Verdict) (connection : Connection) : Verdict :=
  let v := if connection.slot.blocks keys standing then { v with sameKeysAhead := true } else v
  if connection.slot.pending keys standing then
    let wakeBy := connection.acceptedAt + predecessorWait
    if now < wakeBy then
      { v with silentUntil := some ((v.silentUntil.map fun u => min u wakeBy).getD wakeBy) }
    else { v with gaveUpOnSilent := true }
  else v

def examine (predecessorWait : Duration) (now : Instant) (keys : Keys) (standing : Standing)
    (ahead : List Connection) : Verdict :=
  ahead.foldl (Verdict.look predecessorWait now keys standing) ⟨false, none, false⟩

def Verdict.clear (v : Verdict) : Bool := !v.sameKeysAhead && v.silentUntil.isNone

/-- Where the loop of `turn_for_kind` stands. A waiter is registered for the notifications issued
from then on; `woken` says whether one was. -/
inductive Wait where
  | entering
  | looping
  | registered (woken : Bool)
  | clocked (woken : Bool) (now : Instant)
  | sleeping (woken : Bool) (wakeBy : Option Instant)
  deriving DecidableEq

/-- A connection's task. `announcing`, `entering` and `leaving` have changed the table and have yet
to notify. -/
inductive Task where
  | absent
  | reading
  | announcing
  | waiting (keys : Keys) (standing : Standing) (wait : Wait)
  | holding
  | leaving
  deriving DecidableEq

/-- A registered waiter hears the notification. -/
def Task.notified : Task → Task
  | .waiting keys standing (.registered _) => .waiting keys standing (.registered true)
  | .waiting keys standing (.clocked _ now) => .waiting keys standing (.clocked true now)
  | .waiting keys standing (.sleeping _ wakeBy) => .waiting keys standing (.sleeping true wakeBy)
  | task => task

/-- The open connections, by accept order, and the tasks. -/
structure Order where
  clock : Instant
  next : ℕ
  connections : ℕ → Option Connection
  tasks : ℕ → Task
  predecessorWait : Duration

inductive OrderOp where
  | pass (elapsed : Duration)
  | accept
  | line (seq : ℕ) (kind : LineKind)
  | notify (seq : ℕ)
  | register (seq : ℕ)
  | readClock (seq : ℕ)
  | check (seq : ℕ)
  | wake (seq : ℕ)
  | drop (seq : ℕ)
  deriving DecidableEq

namespace Order

def new (predecessorWait : Duration) : Order :=
  ⟨0, 0, fun _ => none, fun _ => .absent, predecessorWait⟩

def ahead (s : Order) (seq : ℕ) : List Connection := (List.range seq).filterMap s.connections

def setTask (s : Order) (seq : ℕ) (task : Task) : Order :=
  { s with tasks := Function.update s.tasks seq task }

def setSlot (s : Order) (seq : ℕ) (slot : Slot) (task : Task) : Order :=
  { s with
    connections := Function.update s.connections seq
      ((s.connections seq).map fun connection => { connection with slot := slot })
    tasks := Function.update s.tasks seq task }

def leave (s : Order) (seq : ℕ) : Order :=
  { s with
    connections := Function.update s.connections seq none
    tasks := Function.update s.tasks seq .leaving }

/-- `notify_waiters`, by a task that goes on as `task`. -/
def notifyWaiters (s : Order) (seq : ℕ) (task : Task) : Order :=
  { s with tasks := Function.update (fun other => (s.tasks other).notified) seq task }

def line (s : Order) (seq : ℕ) : LineKind → Order
  | .event keys (some standing) =>
    s.setSlot seq (.event keys standing) (.waiting keys standing .entering)
  | .announce pane (some standing) => s.setSlot seq (.announced pane standing) .announcing
  | _ => s.leave seq

/-- One step. An operation that does not apply leaves the order as it is. -/
def step (s : Order) : OrderOp → Order
  | .pass elapsed => { s with clock := s.clock + elapsed }
  | .accept =>
    { s with
      next := s.next + 1
      connections := Function.update s.connections s.next (some ⟨s.clock, .silent⟩)
      tasks := Function.update s.tasks s.next .reading }
  | .line seq kind =>
    match s.tasks seq with
    | .reading => s.line seq kind
    | _ => s
  | .notify seq =>
    match s.tasks seq with
    | .announcing => s.notifyWaiters seq .reading
    | .waiting keys standing .entering => s.notifyWaiters seq (.waiting keys standing .looping)
    | .leaving => s.notifyWaiters seq .absent
    | _ => s
  | .register seq =>
    match s.tasks seq with
    | .waiting keys standing .looping => s.setTask seq (.waiting keys standing (.registered false))
    | _ => s
  | .readClock seq =>
    match s.tasks seq with
    | .waiting keys standing (.registered woken) =>
      s.setTask seq (.waiting keys standing (.clocked woken s.clock))
    | _ => s
  | .check seq =>
    match s.tasks seq with
    | .waiting keys standing (.clocked woken now) =>
      let v := examine s.predecessorWait now keys standing (s.ahead seq)
      if v.clear then s.setTask seq .holding
      else s.setTask seq (.waiting keys standing (.sleeping woken v.silentUntil))
    | _ => s
  | .wake seq =>
    match s.tasks seq with
    | .waiting keys standing (.sleeping woken wakeBy) =>
      if woken || wakeBy.any fun u => decide (u ≤ s.clock) then
        s.setTask seq (.waiting keys standing .looping)
      else s
    | _ => s
  | .drop seq =>
    match s.tasks seq with
    | .reading => s.leave seq
    | .waiting _ _ _ => s.leave seq
    | .holding => s.leave seq
    | _ => s

def run (s : Order) (ops : List OrderOp) : Order := ops.foldl step s

end Order

/-! ## What a check says -/

variable (predecessorWait : Duration) (now : Instant) (keys : Keys) (standing : Standing)
  (v : Verdict)

theorem look_sameKeysAhead (connection : Connection) :
    (v.look predecessorWait now keys standing connection).sameKeysAhead =
      (v.sameKeysAhead || connection.slot.blocks keys standing) := by
  have inner : (if connection.slot.blocks keys standing then
      { v with sameKeysAhead := true } else v).sameKeysAhead =
        (v.sameKeysAhead || connection.slot.blocks keys standing) := by
    split
    · rename_i blocks
      rw [blocks, Bool.or_true]
    · rename_i apart
      rw [Bool.not_eq_true] at apart
      rw [apart, Bool.or_false]
  simp only [Verdict.look]
  split
  · split
    · exact inner
    · exact inner
  · exact inner

theorem foldl_sameKeysAhead (ahead : List Connection) :
    (ahead.foldl (Verdict.look predecessorWait now keys standing) v).sameKeysAhead =
      (v.sameKeysAhead || ahead.any fun connection => connection.slot.blocks keys standing) := by
  induction ahead generalizing v with
  | nil => simp only [List.foldl_nil, List.any_nil, Bool.or_false]
  | cons connection rest ih =>
    simp only [List.foldl_cons, ih, look_sameKeysAhead, List.any_cons, Bool.or_assoc]

/-- The connection may still turn out to carry an event the waiter is ordered behind. -/
def Fresh (predecessorWait : Duration) (now : Instant) (keys : Keys) (standing : Standing)
    (connection : Connection) : Prop :=
  connection.slot.pending keys standing = true ∧ now < connection.acceptedAt + predecessorWait

theorem look_silentUntil (connection : Connection) :
    (Fresh predecessorWait now keys standing connection →
        ∃ u, (v.look predecessorWait now keys standing connection).silentUntil = some u ∧
          (v.silentUntil = some u ∨ u = connection.acceptedAt + predecessorWait)) ∧
      (¬ Fresh predecessorWait now keys standing connection →
        (v.look predecessorWait now keys standing connection).silentUntil = v.silentUntil) := by
  have same : (if connection.slot.blocks keys standing then
      { v with sameKeysAhead := true } else v).silentUntil = v.silentUntil := by
    split <;> rfl
  refine ⟨?_, ?_⟩
  · intro fresh
    simp only [Verdict.look, fresh.1, if_pos fresh.2, same]
    cases v.silentUntil with
    | none => exact ⟨_, rfl, Or.inr rfl⟩
    | some u =>
      refine ⟨_, rfl, ?_⟩
      rcases min_choice u (connection.acceptedAt + predecessorWait) with first | second
      · exact Or.inl (congrArg some first.symm)
      · exact Or.inr second
  · intro stale
    simp only [Verdict.look]
    split
    · rename_i pending
      split
      · rename_i early
        exact absurd ⟨pending, early⟩ stale
      · exact same
    · exact same

theorem foldl_silentUntil (ahead : List Connection) :
    match (ahead.foldl (Verdict.look predecessorWait now keys standing) v).silentUntil with
    | some u => v.silentUntil = some u ∨ ∃ connection ∈ ahead,
        Fresh predecessorWait now keys standing connection ∧
          u = connection.acceptedAt + predecessorWait
    | none => v.silentUntil = none ∧ ∀ connection ∈ ahead,
        ¬ Fresh predecessorWait now keys standing connection := by
  induction ahead generalizing v with
  | nil =>
    rw [List.foldl_nil]
    cases v.silentUntil with
    | none => exact ⟨rfl, fun _ impossible => absurd impossible List.not_mem_nil⟩
    | some u => exact Or.inl rfl
  | cons connection rest ih =>
    have later := ih (v.look predecessorWait now keys standing connection)
    rw [List.foldl_cons]
    have looked := look_silentUntil predecessorWait now keys standing v connection
    generalize (rest.foldl (Verdict.look predecessorWait now keys standing)
      (v.look predecessorWait now keys standing connection)).silentUntil = found at later
    by_cases fresh : Fresh predecessorWait now keys standing connection
    · rcases looked.1 fresh with ⟨u, sees, source⟩
      cases found with
      | none => exact absurd (later.1.symm.trans sees).symm (Option.some_ne_none u)
      | some earliest =>
        rcases later with here | ⟨other, inside, otherFresh, place⟩
        · have same := Option.some.inj (sees.symm.trans here)
          subst same
          rcases source with before | new
          · exact Or.inl before
          · exact Or.inr ⟨connection, List.mem_cons_self, fresh, new⟩
        · exact Or.inr ⟨other, List.mem_cons_of_mem connection inside, otherFresh, place⟩
    · have sees := looked.2 fresh
      cases found with
      | none =>
        refine ⟨sees.symm.trans later.1, ?_⟩
        intro other inside
        rcases List.mem_cons.mp inside with same | rest
        · exact same ▸ fresh
        · exact later.2 other rest
      | some earliest =>
        rcases later with here | ⟨other, inside, otherFresh, place⟩
        · exact Or.inl (sees.symm.trans here)
        · exact Or.inr ⟨other, List.mem_cons_of_mem connection inside, otherFresh, place⟩

theorem examine_clear_iff {predecessorWait : Duration} {now : Instant} {keys : Keys}
    {standing : Standing} {ahead : List Connection} :
    (examine predecessorWait now keys standing ahead).clear = true ↔
      ∀ connection ∈ ahead, connection.slot.blocks keys standing = false ∧
        ¬ Fresh predecessorWait now keys standing connection := by
  have silent := foldl_silentUntil predecessorWait now keys standing ⟨false, none, false⟩ ahead
  simp only [Verdict.clear, examine, foldl_sameKeysAhead, Bool.false_or, Bool.and_eq_true,
    Bool.not_eq_true', List.any_eq_false, Option.isNone_iff_eq_none, Bool.not_eq_true]
  generalize (ahead.foldl (Verdict.look predecessorWait now keys standing)
    ⟨false, none, false⟩).silentUntil = found at silent ⊢
  cases found with
  | none =>
    refine ⟨?_, ?_⟩
    · intro clear connection inside
      exact ⟨clear.1 connection inside, silent.2 connection inside⟩
    · intro clear
      exact ⟨fun connection inside => (clear connection inside).1, rfl⟩
  | some u =>
    rcases silent with impossible | ⟨connection, inside, fresh, _⟩
    · cases impossible
    · refine ⟨fun clear => absurd clear.2 (Option.some_ne_none u), ?_⟩
      intro clear
      exact absurd fresh (clear connection inside).2

/-- When the check of a waiter that was not granted its turn would grant it over the same
connections now, the waiter's timer is due. -/
theorem examine_due {predecessorWait : Duration} {now later : Instant} {keys : Keys}
    {standing : Standing} {ahead : List Connection}
    (refused : (examine predecessorWait now keys standing ahead).clear = false)
    (clear : (examine predecessorWait later keys standing ahead).clear) :
    ∃ u, (examine predecessorWait now keys standing ahead).silentUntil = some u ∧ u ≤ later := by
  rw [examine_clear_iff] at clear
  have silent := foldl_silentUntil predecessorWait now keys standing ⟨false, none, false⟩ ahead
  have unblocked : (examine predecessorWait now keys standing ahead).sameKeysAhead = false := by
    simp only [examine, foldl_sameKeysAhead, Bool.false_or, List.any_eq_false]
    intro connection inside
    rw [(clear connection inside).1]
    exact Bool.false_ne_true
  rw [Verdict.clear, unblocked] at refused
  simp only [examine] at refused ⊢
  generalize (ahead.foldl (Verdict.look predecessorWait now keys standing)
    ⟨false, none, false⟩).silentUntil = found at silent refused ⊢
  cases found with
  | none => exact absurd refused (Ne.symm Bool.false_ne_true)
  | some u =>
    rcases silent with impossible | ⟨connection, inside, fresh, same⟩
    · cases impossible
    · refine ⟨u, rfl, ?_⟩
      rw [same]
      exact not_lt.mp fun early => (clear connection inside).2 ⟨fresh.1, early⟩

end AgentDeck.HookOrder
