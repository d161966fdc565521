import AgentDeck.HookOrder.Order
import AgentDeck.Lib.Runs

/-!
# Turns

What a step of the order changes, and what holds in every state: a connection's slot says what its
task is at, and a waiter that sleeps unwoken checked the connections that are ahead of it now,
unless a notification is owed.
-/

namespace AgentDeck.HookOrder

def Slot.unread : Slot → Prop
  | .event _ _ => False
  | _ => True

/-- A task has changed the table and has yet to notify. -/
def Task.owes : Task → Prop
  | .announcing => True
  | .waiting _ _ .entering => True
  | .leaving => True
  | _ => False

def Task.present : Task → Bool
  | .absent => false
  | _ => true

variable {s : Order} {seq : ℕ} {task : Task}

theorem ne_absent (is : s.tasks seq = task) (present : task.present) : s.tasks seq ≠ .absent := by
  intro absent
  rw [← is, absent] at present
  exact Bool.false_ne_true present

/-- What each operation does where it is taken. -/
inductive Moved (s : Order) : OrderOp → Order → Prop where
  | pass {elapsed : Duration} : Moved s (.pass elapsed) { s with clock := s.clock + elapsed }
  | accept : Moved s .accept
      { s with
        next := s.next + 1
        connections := Function.update s.connections s.next (some ⟨s.clock, .silent⟩)
        tasks := Function.update s.tasks s.next .reading }
  | enter {seq : ℕ} {keys : Keys} {standing : Standing} (reading : s.tasks seq = .reading) :
      Moved s (.line seq (.event keys (some standing)))
        (s.setSlot seq (.event keys standing) (.waiting keys standing .entering))
  | announce {seq : ℕ} {pane : Text} {standing : Standing} (reading : s.tasks seq = .reading) :
      Moved s (.line seq (.announce pane (some standing)))
        (s.setSlot seq (.announced pane standing) .announcing)
  | leave {op : OrderOp} {seq : ℕ} (present : s.tasks seq ≠ .absent) : Moved s op (s.leave seq)
  | announced {seq : ℕ} (task : s.tasks seq = .announcing) :
      Moved s (.notify seq) (s.notifyWaiters seq .reading)
  | entered {seq : ℕ} {keys : Keys} {standing : Standing}
      (task : s.tasks seq = .waiting keys standing .entering) :
      Moved s (.notify seq) (s.notifyWaiters seq (.waiting keys standing .looping))
  | left {seq : ℕ} (task : s.tasks seq = .leaving) :
      Moved s (.notify seq) (s.notifyWaiters seq .absent)
  | register {seq : ℕ} {keys : Keys} {standing : Standing}
      (task : s.tasks seq = .waiting keys standing .looping) :
      Moved s (.register seq) (s.setTask seq (.waiting keys standing (.registered false)))
  | readClock {seq : ℕ} {keys : Keys} {standing : Standing} {woken : Bool}
      (task : s.tasks seq = .waiting keys standing (.registered woken)) :
      Moved s (.readClock seq) (s.setTask seq (.waiting keys standing (.clocked woken s.clock)))
  | grant {seq : ℕ} {keys : Keys} {standing : Standing} {woken : Bool} {now : Instant}
      (task : s.tasks seq = .waiting keys standing (.clocked woken now))
      (clear : (examine s.predecessorWait now keys standing (s.ahead seq)).clear = true) :
      Moved s (.check seq) (s.setTask seq .holding)
  | sleep {seq : ℕ} {keys : Keys} {standing : Standing} {woken : Bool} {now : Instant}
      (task : s.tasks seq = .waiting keys standing (.clocked woken now))
      (refused : (examine s.predecessorWait now keys standing (s.ahead seq)).clear = false) :
      Moved s (.check seq) (s.setTask seq (.waiting keys standing (.sleeping woken
        (examine s.predecessorWait now keys standing (s.ahead seq)).silentUntil)))
  | wake {seq : ℕ} {keys : Keys} {standing : Standing} {woken : Bool}
      {wakeBy : Option Instant} (task : s.tasks seq =
        .waiting keys standing (.sleeping woken wakeBy)) :
      Moved s (.wake seq) (s.setTask seq (.waiting keys standing .looping))

theorem Order.line_cases (reading : s.tasks seq = .reading) (kind : LineKind) :
    Moved s (.line seq kind) (s.line seq kind) := by
  have leave : ∀ op, Moved s op (s.leave seq) := fun _ => Moved.leave (ne_absent reading rfl)
  cases kind with
  | event keys standing =>
    cases standing with
    | none => exact leave _
    | some standing => exact Moved.enter reading
  | announce pane standing =>
    cases standing with
    | none => exact leave _
    | some standing => exact Moved.announce reading
  | other => exact leave _

variable {keys : Keys} {standing : Standing}

theorem Order.check_cases {woken : Bool} {now : Instant}
    (task : s.tasks seq = .waiting keys standing (.clocked woken now)) :
    Moved s (.check seq) (s.step (.check seq)) := by
  simp only [Order.step, task]
  split
  · rename_i clear
    exact Moved.grant task clear
  · rename_i refused
    rw [Bool.not_eq_true] at refused
    exact Moved.sleep task refused

theorem Order.step_cases (s : Order) (op : OrderOp) : s.step op = s ∨ Moved s op (s.step op) := by
  cases op with
  | pass elapsed => exact Or.inr Moved.pass
  | accept => exact Or.inr Moved.accept
  | line seq kind =>
    simp only [Order.step]
    split
    · rename_i reading
      exact Or.inr (Order.line_cases reading kind)
    · exact Or.inl rfl
  | notify seq =>
    simp only [Order.step]
    split
    · rename_i task
      exact Or.inr (Moved.announced task)
    · rename_i task
      exact Or.inr (Moved.entered task)
    · rename_i task
      exact Or.inr (Moved.left task)
    · exact Or.inl rfl
  | register seq =>
    simp only [Order.step]
    split
    · rename_i task
      exact Or.inr (Moved.register task)
    · exact Or.inl rfl
  | readClock seq =>
    simp only [Order.step]
    split
    · rename_i task
      exact Or.inr (Moved.readClock task)
    · exact Or.inl rfl
  | check seq =>
    cases task : s.tasks seq with
    | waiting keys standing wait =>
      cases wait with
      | clocked woken now => exact Or.inr (Order.check_cases task)
      | entering | looping | registered | sleeping => simp only [Order.step, task, true_or]
    | absent | reading | announcing | holding | leaving =>
      simp only [Order.step, task, true_or]
  | wake seq =>
    simp only [Order.step]
    split
    · rename_i task
      split
      · exact Or.inr (Moved.wake task)
      · exact Or.inl rfl
    · exact Or.inl rfl
  | drop seq =>
    simp only [Order.step]
    split
    · rename_i task
      exact Or.inr (Moved.leave (ne_absent task rfl))
    · rename_i task
      exact Or.inr (Moved.leave (ne_absent task rfl))
    · rename_i task
      exact Or.inr (Moved.leave (ne_absent task rfl))
    · exact Or.inl rfl

/-! ## Slots and tasks -/

def Fits : Task → Option Connection → Prop
  | .absent, found => found = none
  | .leaving, found => found = none
  | .reading, found => ∃ connection, found = some connection ∧ connection.slot.unread
  | .announcing, found => ∃ connection, found = some connection ∧ connection.slot.unread
  | .waiting keys standing _, found =>
    ∃ connection, found = some connection ∧ connection.slot = .event keys standing
  | .holding, found =>
    ∃ connection keys standing, found = some connection ∧ connection.slot = .event keys standing

theorem Fits.notified {found : Option Connection} (fits : Fits task found) :
    Fits task.notified found := by
  cases task with
  | waiting keys standing wait => cases wait <;> exact fits
  | absent | reading | announcing | holding | leaving => exact fits

/-- A waiter that sleeps unwoken has checked the connections that are ahead of it now. -/
def Asleep (s : Order) (seq : ℕ) (keys : Keys) (standing : Standing) (wakeBy : Option Instant) :
    Prop :=
  ∃ now, (examine s.predecessorWait now keys standing (s.ahead seq)).clear = false ∧
    wakeBy = (examine s.predecessorWait now keys standing (s.ahead seq)).silentUntil

/-- The invariant of the order: every task fits its connection. -/
structure Kept (s : Order) : Prop where
  fits : ∀ seq, Fits (s.tasks seq) (s.connections seq)
  unused : ∀ seq, s.next ≤ seq → s.tasks seq = .absent
  clocked : ∀ seq keys standing woken now,
    s.tasks seq = .waiting keys standing (.clocked woken now) → now ≤ s.clock
  asleep : ∀ seq keys standing wakeBy,
    s.tasks seq = .waiting keys standing (.sleeping false wakeBy) →
      (∃ other, (s.tasks other).owes) ∨ Asleep s seq keys standing wakeBy

theorem Kept.fits_of (kept : Kept s) (is : s.tasks seq = task) : Fits task (s.connections seq) :=
  is ▸ kept.fits seq

theorem Kept.lt_next (kept : Kept s) (present : s.tasks seq ≠ .absent) : seq < s.next :=
  not_le.mp fun beyond => present (kept.unused seq beyond)

theorem ahead_update {other : ℕ} (found : Option Connection) (later : seq ≤ other) :
    (List.range seq).filterMap (Function.update s.connections other found) = s.ahead seq := by
  apply List.filterMap_congr
  intro i inside
  have earlier := List.mem_range.mp inside
  exact Function.update_of_ne (ne_of_lt (lt_of_lt_of_le earlier later)) _ _

/-- A waiter past its first notification owes none. -/
def Wait.past : Wait → Bool
  | .entering => false
  | _ => true

theorem not_owes {wait : Wait} (is : s.tasks seq = .waiting keys standing wait) (past : wait.past) :
    ¬ (s.tasks seq).owes := by
  rw [is]
  cases wait with
  | entering => exact absurd past Bool.false_ne_true
  | looping | registered | clocked | sleeping => exact id

theorem Kept.setTask (kept : Kept s) (present : s.tasks seq ≠ .absent)
    (silent : ¬ (s.tasks seq).owes) (fits : Fits task (s.connections seq))
    (clocked : ∀ keys standing woken now,
      task = .waiting keys standing (.clocked woken now) → now ≤ s.clock)
    (asleep : ∀ keys standing wakeBy, task = .waiting keys standing (.sleeping false wakeBy) →
      Asleep s seq keys standing wakeBy) : Kept (s.setTask seq task) := by
  refine ⟨?_, ?_, ?_, ?_⟩
  · intro other
    by_cases same : other = seq
    · subst same
      simp only [Order.setTask, Function.update_self]
      exact fits
    · simp only [Order.setTask, Function.update_of_ne same]
      exact kept.fits other
  · intro other beyond
    have apart : other ≠ seq := ne_of_gt (lt_of_lt_of_le (kept.lt_next present) beyond)
    simp only [Order.setTask, Function.update_of_ne apart]
    exact kept.unused other beyond
  · intro other keys standing woken now is
    by_cases same : other = seq
    · subst same
      simp only [Order.setTask, Function.update_self] at is
      exact clocked keys standing woken now is
    · simp only [Order.setTask, Function.update_of_ne same] at is
      exact kept.clocked other keys standing woken now is
  · intro other keys standing wakeBy is
    by_cases same : other = seq
    · subst same
      simp only [Order.setTask, Function.update_self] at is
      exact Or.inr (asleep keys standing wakeBy is)
    · simp only [Order.setTask, Function.update_of_ne same] at is
      rcases kept.asleep other keys standing wakeBy is with ⟨third, owes⟩ | still
      · left
        refine ⟨third, ?_⟩
        have apart : third ≠ seq := fun same => silent (same ▸ owes)
        simp only [Order.setTask, Function.update_of_ne apart]
        exact owes
      · exact Or.inr still

theorem not_asleep_notified {wakeBy : Option Instant}
    (is : task.notified = .waiting keys standing (.sleeping false wakeBy)) : False := by
  cases task with
  | waiting k st wait =>
    cases wait with
    | sleeping woken u =>
      simp only [Task.notified, Task.waiting.injEq, Wait.sleeping.injEq, Bool.true_eq_false,
        false_and, and_false] at is
    | entering | looping | registered | clocked =>
      simp only [Task.notified, Task.waiting.injEq, reduceCtorEq, and_false] at is
  | absent | reading | announcing | holding | leaving =>
    simp only [Task.notified, reduceCtorEq] at is

theorem clocked_notified {woken : Bool} {now : Instant}
    (is : task.notified = .waiting keys standing (.clocked woken now)) :
    ∃ before, task = .waiting keys standing (.clocked before now) := by
  cases task with
  | waiting k st wait =>
    cases wait with
    | clocked before place =>
      rcases is with ⟨rfl, rfl, _, rfl⟩
      exact ⟨before, rfl⟩
    | entering | looping | registered | sleeping =>
      simp only [Task.notified, Task.waiting.injEq, reduceCtorEq, and_false] at is
  | absent | reading | announcing | holding | leaving =>
    simp only [Task.notified, reduceCtorEq] at is

theorem Kept.notifyWaiters (kept : Kept s) (present : s.tasks seq ≠ .absent)
    (fits : Fits task (s.connections seq))
    (clocked : ∀ keys standing woken now, task ≠ .waiting keys standing (.clocked woken now))
    (asleep : ∀ keys standing wakeBy, task ≠ .waiting keys standing (.sleeping false wakeBy)) :
    Kept (s.notifyWaiters seq task) := by
  refine ⟨?_, ?_, ?_, ?_⟩
  · intro other
    by_cases same : other = seq
    · subst same
      simp only [Order.notifyWaiters, Function.update_self]
      exact fits
    · simp only [Order.notifyWaiters, Function.update_of_ne same]
      exact (kept.fits other).notified
  · intro other beyond
    have apart : other ≠ seq := ne_of_gt (lt_of_lt_of_le (kept.lt_next present) beyond)
    simp only [Order.notifyWaiters, Function.update_of_ne apart]
    rw [kept.unused other beyond]
    rfl
  · intro other keys standing woken now is
    by_cases same : other = seq
    · subst same
      simp only [Order.notifyWaiters, Function.update_self] at is
      exact absurd is (clocked keys standing woken now)
    · simp only [Order.notifyWaiters, Function.update_of_ne same] at is
      rcases clocked_notified is with ⟨before, was⟩
      exact kept.clocked other keys standing before now was
  · intro other keys standing wakeBy is
    by_cases same : other = seq
    · subst same
      simp only [Order.notifyWaiters, Function.update_self] at is
      exact absurd is (asleep keys standing wakeBy)
    · simp only [Order.notifyWaiters, Function.update_of_ne same] at is
      exact (not_asleep_notified is).elim

theorem Kept.change (kept : Kept s) {found : Option Connection} (present : s.tasks seq ≠ .absent)
    (owes : task.owes) (fits : Fits task found) :
    Kept { s with
      connections := Function.update s.connections seq found
      tasks := Function.update s.tasks seq task } := by
  refine ⟨?_, ?_, ?_, ?_⟩
  · intro other
    by_cases same : other = seq
    · subst same
      simp only [Function.update_self]
      exact fits
    · simp only [Function.update_of_ne same]
      exact kept.fits other
  · intro other beyond
    have apart : other ≠ seq := ne_of_gt (lt_of_lt_of_le (kept.lt_next present) beyond)
    simp only [Function.update_of_ne apart]
    exact kept.unused other beyond
  · intro other keys standing woken now is
    by_cases same : other = seq
    · subst same
      simp only [Function.update_self] at is
      rw [is] at owes
      exact owes.elim
    · simp only [Function.update_of_ne same] at is
      exact kept.clocked other keys standing woken now is
  · intro other keys standing wakeBy _
    left
    refine ⟨seq, ?_⟩
    simp only [Function.update_self]
    exact owes

/-- One case per operation. -/
theorem Kept.moved {after : Order} {op : OrderOp} (kept : Kept s) (moved : Moved s op after) :
    Kept after := by
  cases moved with
  | @pass elapsed =>
    refine ⟨kept.fits, kept.unused, ?_, kept.asleep⟩
    intro seq keys standing woken now is
    exact le_trans (kept.clocked seq keys standing woken now is) (Nat.le_add_right _ _)
  | accept =>
    refine ⟨?_, ?_, ?_, ?_⟩
    · intro other
      by_cases same : other = s.next
      · subst same
        simp only [Function.update_self]
        exact ⟨_, rfl, trivial⟩
      · simp only [Function.update_of_ne same]
        exact kept.fits other
    · intro other beyond
      have apart : other ≠ s.next := ne_of_gt beyond
      simp only [Function.update_of_ne apart]
      exact kept.unused other (Nat.le_of_succ_le beyond)
    · intro other keys standing woken now is
      by_cases same : other = s.next
      · subst same
        simp only [Function.update_self, reduceCtorEq] at is
      · simp only [Function.update_of_ne same] at is
        exact kept.clocked other keys standing woken now is
    · intro other keys standing wakeBy is
      by_cases same : other = s.next
      · subst same
        simp only [Function.update_self, reduceCtorEq] at is
      · simp only [Function.update_of_ne same] at is
        have earlier : other < s.next := by
          exact kept.lt_next (ne_absent is rfl)
        rcases kept.asleep other keys standing wakeBy is with ⟨third, owes⟩ | ⟨now, refused, due⟩
        · left
          refine ⟨third, ?_⟩
          have apart : third ≠ s.next := by
            intro same
            rw [same, kept.unused s.next le_rfl] at owes
            exact owes
          simp only [Function.update_of_ne apart]
          exact owes
        · right
          refine ⟨now, ?_, ?_⟩
          · simp only [Order.ahead, ahead_update _ (le_of_lt earlier)]
            exact refused
          · simp only [Order.ahead, ahead_update _ (le_of_lt earlier)]
            exact due
  | @enter seq keys standing reading =>
    rcases (kept.fits_of reading : Fits .reading (s.connections seq)) with
      ⟨connection, found, _⟩
    refine kept.change (ne_absent reading rfl) trivial ?_
    rw [found]
    exact ⟨_, rfl, rfl⟩
  | @announce seq pane standing reading =>
    rcases (kept.fits_of reading : Fits .reading (s.connections seq)) with
      ⟨connection, found, _⟩
    refine kept.change (ne_absent reading rfl) trivial ?_
    rw [found]
    exact ⟨_, rfl, trivial⟩
  | @leave _ seq present => exact kept.change present trivial rfl
  | @announced seq task | @left seq task =>
    have fits := kept.fits_of task
    refine kept.notifyWaiters (ne_absent task rfl) fits ?_ ?_
    · simp only [ne_eq, reduceCtorEq, not_false_eq_true, implies_true]
    · simp only [ne_eq, reduceCtorEq, not_false_eq_true, implies_true]
  | @entered seq keys standing task =>
    have fits := kept.fits_of task
    refine kept.notifyWaiters (ne_absent task rfl) fits ?_ ?_
    · simp only [ne_eq, Task.waiting.injEq, reduceCtorEq, and_false, not_false_eq_true,
        implies_true]
    · simp only [ne_eq, Task.waiting.injEq, reduceCtorEq, and_false, not_false_eq_true,
        implies_true]
  | @register seq keys standing task =>
    have fits := kept.fits_of task
    refine kept.setTask (ne_absent task rfl) (not_owes task rfl) fits ?_ ?_
    · intro _ _ _ _ is
      simp only [Task.waiting.injEq, reduceCtorEq, and_false] at is
    · intro _ _ _ is
      simp only [Task.waiting.injEq, reduceCtorEq, and_false] at is
  | @readClock seq keys standing woken task =>
    have fits := kept.fits_of task
    refine kept.setTask (ne_absent task rfl) (not_owes task rfl) fits ?_ ?_
    · intro _ _ _ now is
      simp only [Task.waiting.injEq, Wait.clocked.injEq] at is
      exact le_of_eq is.2.2.2.symm
    · intro _ _ _ is
      simp only [Task.waiting.injEq, reduceCtorEq, and_false] at is
  | @grant seq keys standing woken now task clear =>
    have waits : Fits (.waiting keys standing (.clocked woken now)) (s.connections seq) :=
      kept.fits_of task
    rcases waits with ⟨connection, found, slot⟩
    refine kept.setTask (ne_absent task rfl) (not_owes task rfl)
      ⟨connection, keys, standing, found, slot⟩
      ?_ ?_
    · intro _ _ _ _ is
      simp only [reduceCtorEq] at is
    · intro _ _ _ is
      simp only [reduceCtorEq] at is
  | @sleep seq keys standing woken now task refused =>
    refine kept.setTask (ne_absent task rfl) (not_owes task rfl) ?_ ?_ ?_
    · exact (kept.fits_of task : Fits (.waiting keys standing (.clocked woken now)) _)
    · intro _ _ _ _ is
      simp only [Task.waiting.injEq, reduceCtorEq, and_false] at is
    · intro _ _ _ is
      simp only [Task.waiting.injEq, Wait.sleeping.injEq] at is
      rcases is with ⟨rfl, rfl, _, due⟩
      exact ⟨now, refused, due.symm⟩
  | @wake seq keys standing woken wakeBy task =>
    refine kept.setTask (ne_absent task rfl) (not_owes task rfl) ?_ ?_ ?_
    · exact (kept.fits_of task : Fits (.waiting keys standing (.sleeping woken wakeBy)) _)
    · intro _ _ _ _ is
      simp only [Task.waiting.injEq, reduceCtorEq, and_false] at is
    · intro _ _ _ is
      simp only [Task.waiting.injEq, reduceCtorEq, and_false] at is

theorem Kept.step (kept : Kept s) (op : OrderOp) : Kept (s.step op) := by
  rcases s.step_cases op with same | moved
  · rw [same]
    exact kept
  · exact kept.moved moved

theorem kept_new (predecessorWait : Duration) : Kept (Order.new predecessorWait) := by
  refine ⟨fun _ => rfl, fun _ _ => rfl, ?_, ?_⟩
  · intro _ _ _ _ _ is
    simp only [Order.new, reduceCtorEq] at is
  · intro _ _ _ _ is
    simp only [Order.new, reduceCtorEq] at is

theorem Kept.run (kept : Kept s) (ops : List OrderOp) : Kept (s.run ops) :=
  Runs.run_keeps_always Kept (fun _ op kept => kept.step op) kept

theorem kept_run (predecessorWait : Duration) (ops : List OrderOp) :
    Kept ((Order.new predecessorWait).run ops) := (kept_new predecessorWait).run ops

end AgentDeck.HookOrder
