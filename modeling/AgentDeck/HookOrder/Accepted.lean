import AgentDeck.HookOrder.Turns

/-!
# Events in accept order

A turn is not granted over an earlier event it is ordered behind; what an earlier connection carries
once its event is read does not change; no waiter looks past its own place; and a waiter that could
be granted its turn is woken.
-/

namespace AgentDeck.HookOrder

namespace Order

def Turn (s : Order) (seq : ℕ) (keys : Keys) (standing : Standing) : Prop :=
  s.tasks seq = .holding ∧
    ∃ connection, s.connections seq = some connection ∧ connection.slot = .event keys standing

/-- The next check of connection `seq`, with the clock read at `now`, grants the turn. -/
def Grants (s : Order) (seq : ℕ) (keys : Keys) (standing : Standing) (now : Instant) : Prop :=
  (∃ woken, s.tasks seq = .waiting keys standing (.clocked woken now)) ∧
    (examine s.predecessorWait now keys standing (s.ahead seq)).clear = true

/-- Why a connection ahead, whose event is not read, does not hold the turn back. -/
inductive Overtaken (s : Order) (connection : Connection) (keys : Keys) (standing : Standing)
    (now : Instant) : Prop where
  | waited (unread : connection.slot.unread)
      (past : connection.acceptedAt + s.predecessorWait ≤ now)
  | otherPane {pane : Text} (slot : connection.slot = .announced pane .attested)
      (other : keys.pane ≠ some pane)
  | unproven {pane : Text} (slot : connection.slot = .announced pane .unproven)
      (attested : standing = .attested)

end Order

variable {s : Order}

theorem mem_ahead {seq : ℕ} {connection : Connection} :
    connection ∈ s.ahead seq ↔ ∃ i < seq, s.connections i = some connection := by
  simp only [Order.ahead, List.mem_filterMap, List.mem_range]

variable {j : ℕ} {keys : Keys} {standing : Standing} {now : Instant}

theorem Order.Grants.ahead (grants : s.Grants j keys standing now) {i : ℕ} (earlier : i < j)
    {connection : Connection} (found : s.connections i = some connection) :
    connection.slot.blocks keys standing = false ∧
      (connection.slot.unread → s.Overtaken connection keys standing now) := by
  rcases examine_clear_iff.mp grants.2 connection (mem_ahead.mpr ⟨i, earlier, found⟩) with
    ⟨unblocked, stale⟩
  refine ⟨unblocked, ?_⟩
  intro unread
  have past : connection.slot.pending keys standing = true →
      s.Overtaken connection keys standing now := by
    intro pending
    exact .waited unread (not_lt.mp fun early => stale ⟨pending, early⟩)
  cases slot : connection.slot with
  | silent => exact past (slot ▸ rfl)
  | event theirs theirStanding =>
    rw [slot] at unread
    exact unread.elim
  | announced pane theirStanding =>
    cases theirStanding with
    | attested =>
      by_cases same : keys.pane = some pane
      · apply past
        rw [slot]
        exact decide_eq_true same
      · exact .otherPane slot same
    | unproven =>
      by_cases same : standing = .unproven
      · apply past
        rw [slot]
        exact decide_eq_true same
      · cases standing with
        | attested => exact .unproven slot rfl
        | unproven => exact absurd rfl same

/-! ## What later steps keep -/

def Settled (i : ℕ) (keys : Keys) (standing : Standing) (s : Order) : Prop :=
  i < s.next ∧ (∀ connection, s.connections i = some connection →
    connection.slot = .event keys standing) ∧ s.tasks i ≠ .reading

theorem notified_ne_reading {task : Task} (other : task ≠ .reading) : task.notified ≠ .reading := by
  cases task with
  | waiting keys standing wait =>
    cases wait <;> exact fun impossible => Task.noConfusion impossible
  | reading => exact absurd rfl other
  | absent | announcing | holding | leaving => exact fun impossible => Task.noConfusion impossible

theorem Settled.setTask {i : ℕ} (settled : Settled i keys standing s) (seq : ℕ) {task : Task}
    (other : task ≠ .reading) : Settled i keys standing (s.setTask seq task) := by
  refine ⟨settled.1, settled.2.1, ?_⟩
  by_cases same : i = seq
  · subst same
    simp only [Order.setTask, Function.update_self]
    exact other
  · simp only [Order.setTask, Function.update_of_ne same]
    exact settled.2.2

theorem Settled.moved {after : Order} {op : OrderOp} {i : ℕ} (kept : Kept s)
    (settled : Settled i keys standing s) (moved : Moved s op after) :
    Settled i keys standing after := by
  have notified : ∀ seq task, (i = seq → task ≠ .reading) →
      Settled i keys standing (s.notifyWaiters seq task) := by
    intro seq task other
    refine ⟨settled.1, settled.2.1, ?_⟩
    by_cases same : i = seq
    · subst same
      simp only [Order.notifyWaiters, Function.update_self]
      exact other rfl
    · simp only [Order.notifyWaiters, Function.update_of_ne same]
      exact notified_ne_reading settled.2.2
  cases moved with
  | pass => exact settled
  | accept =>
    have apart : i ≠ s.next := ne_of_lt settled.1
    simp only [Settled, Function.update_of_ne apart]
    exact ⟨Nat.lt_succ_of_lt settled.1, settled.2⟩
  | @enter seq _ _ reading | @announce seq _ _ reading =>
    have apart : i ≠ seq := fun same => settled.2.2 (same ▸ reading)
    simp only [Settled, Order.setSlot, Function.update_of_ne apart]
    exact settled
  | @leave _ seq present =>
    refine ⟨settled.1, ?_, ?_⟩
    · intro connection found
      by_cases same : i = seq
      · subst same
        simp only [Order.leave, Function.update_self] at found
        cases found
      · simp only [Order.leave, Function.update_of_ne same] at found
        exact settled.2.1 connection found
    · by_cases same : i = seq
      · subst same
        simp only [Order.leave, Function.update_self]
        exact fun impossible => Task.noConfusion impossible
      · simp only [Order.leave, Function.update_of_ne same]
        exact settled.2.2
  | @announced seq task =>
    apply notified
    intro same
    subst same
    rcases kept.fits_of task with ⟨connection, found, unread⟩
    rw [settled.2.1 connection found] at unread
    exact unread.elim
  | entered => exact notified _ _ fun _ impossible => Task.noConfusion impossible
  | left => exact notified _ _ fun _ impossible => Task.noConfusion impossible
  | register | readClock | grant | sleep | wake =>
    exact settled.setTask _ fun impossible => Task.noConfusion impossible

theorem Settled.run {i : ℕ} (kept : Kept s) (settled : Settled i keys standing s)
    (ops : List OrderOp) : Settled i keys standing (s.run ops) := by
  have both : Kept (s.run ops) ∧ Settled i keys standing (s.run ops) := by
    refine Runs.run_keeps_always (fun s => Kept s ∧ Settled i keys standing s) ?_ ⟨kept, settled⟩
    intro s op held
    refine ⟨held.1.step op, ?_⟩
    rcases s.step_cases op with same | moved
    · rw [same]
      exact held.2
    · exact held.2.moved held.1 moved
  exact both.2

/-- An event that is read when the turn is granted holds no turn it would have held back, then or
later. -/
theorem Order.Grants.no_turn (kept : Kept s) {i : ℕ} {theirs : Keys} {theirStanding : Standing}
    (grants : s.Grants j keys standing now) (earlier : i < j)
    (read : ∀ connection, s.connections i = some connection → ¬ connection.slot.unread)
    (overlap : theirs.overlaps keys) (holdsBack : theirStanding.holdsBack standing)
    (ops : List OrderOp) : ¬ (s.run ops).Turn i theirs theirStanding := by
  intro turn
  rcases grants.1 with ⟨woken, waiting⟩
  have known : i < s.next := lt_trans earlier (kept.lt_next (ne_absent waiting rfl))
  have reading : s.tasks i ≠ .reading := by
    intro task
    rcases kept.fits_of task with ⟨connection, found, unread⟩
    exact read connection found unread
  rcases turn.2 with ⟨last, lastFound, lastSlot⟩
  cases found : s.connections i with
  | none =>
    have gone : ∀ keys' standing', Settled i keys' standing' s := by
      intro keys' standing'
      refine ⟨known, ?_, reading⟩
      intro connection is
      rw [found] at is
      cases is
    have once := (gone ⟨[], none⟩ .attested).run kept ops
    have twice := (gone ⟨[], none⟩ .unproven).run kept ops
    have one := once.2.1 last lastFound
    have other := twice.2.1 last lastFound
    rw [one] at other
    simp only [Slot.event.injEq, reduceCtorEq, and_false] at other
  | some connection =>
    have event : ∃ k st, connection.slot = .event k st := by
      cases slot : connection.slot with
      | event k st => exact ⟨k, st, rfl⟩
      | silent | announced pane st =>
        exact absurd (slot ▸ trivial : connection.slot.unread) (read _ found)
    rcases event with ⟨k, st, slot⟩
    have settled : Settled i k st s := by
      refine ⟨known, ?_, reading⟩
      intro other is
      rw [found] at is
      rw [← Option.some.inj is]
      exact slot
    have still := (settled.run kept ops).2.1 last lastFound
    rw [lastSlot] at still
    rcases still with ⟨rfl, rfl⟩
    have unblocked := (grants.ahead earlier found).1
    simp only [slot, Slot.blocks, overlap, holdsBack] at unblocked
    exact Bool.false_ne_true unblocked.symm

theorem attested_waits
    (refused : (examine s.predecessorWait now keys .attested (s.ahead j)).clear = false) :
    ∃ i < j, ∃ connection, s.connections i = some connection ∧
      (connection.slot = .silent ∧ now < connection.acceptedAt + s.predecessorWait ∨
        (∃ pane, connection.slot = .announced pane .attested ∧
          now < connection.acceptedAt + s.predecessorWait) ∨
        ∃ theirs, connection.slot = .event theirs .attested) := by
  by_contra nobody
  apply Bool.false_ne_true
  rw [← refused, examine_clear_iff]
  intro connection inside
  rcases mem_ahead.mp inside with ⟨i, earlier, found⟩
  have absent : ¬ (connection.slot = .silent ∧ now < connection.acceptedAt + s.predecessorWait ∨
      (∃ pane, connection.slot = .announced pane .attested ∧
        now < connection.acceptedAt + s.predecessorWait) ∨
      ∃ theirs, connection.slot = .event theirs .attested) :=
    fun held => nobody ⟨i, earlier, connection, found, held⟩
  cases slot : connection.slot with
  | silent =>
    refine ⟨rfl, ?_⟩
    intro fresh
    exact absent (Or.inl ⟨slot, fresh.2⟩)
  | announced pane theirs =>
    refine ⟨rfl, ?_⟩
    intro fresh
    cases theirs with
    | attested => exact absent (Or.inr (Or.inl ⟨pane, slot, fresh.2⟩))
    | unproven =>
      have pending := fresh.1
      rw [slot] at pending
      exact Bool.false_ne_true pending
  | event theirs theirStanding =>
    cases theirStanding with
    | attested => exact absurd (Or.inr (Or.inr ⟨theirs, slot⟩)) absent
    | unproven =>
      refine ⟨rfl, ?_⟩
      intro fresh
      have pending := fresh.1
      rw [slot] at pending
      exact Bool.false_ne_true pending

theorem refused_leaves {i : ℕ} (reading : s.tasks i = .reading) {kind : LineKind}
    (refused : kind = .other ∨ (∃ keys, kind = .event keys none) ∨
      ∃ pane, kind = .announce pane none) : (s.step (.line i kind)).connections i = none := by
  rcases refused with rfl | ⟨keys, rfl⟩ | ⟨pane, rfl⟩
  · simp only [Order.step, reading, Order.line, Order.leave, Function.update_self]
  · simp only [Order.step, reading, Order.line, Order.leave, Function.update_self]
  · simp only [Order.step, reading, Order.line, Order.leave, Function.update_self]

theorem ahead_congr {t : Order} (same : ∀ i < j, t.connections i = s.connections i) :
    t.ahead j = s.ahead j := by
  apply List.filterMap_congr
  intro i inside
  exact same i (List.mem_range.mp inside)

/-- The earliest waiting event is granted its turn once the waits of the unread connections ahead
are over and no turn held ahead holds it back. -/
theorem first_waiting_clear (kept : Kept s)
    (first : ∀ i < j, ∀ theirs theirStanding wait, s.tasks i ≠ .waiting theirs theirStanding wait)
    (ended : ∀ i < j, ∀ connection, s.connections i = some connection → connection.slot.unread →
      connection.acceptedAt + s.predecessorWait ≤ now)
    (free : ∀ i < j, ∀ theirs theirStanding, s.Turn i theirs theirStanding →
      (theirStanding.holdsBack standing && theirs.overlaps keys) = false) :
    (examine s.predecessorWait now keys standing (s.ahead j)).clear := by
  rw [examine_clear_iff]
  intro connection inside
  rcases mem_ahead.mp inside with ⟨i, earlier, found⟩
  have unreadCase : connection.slot.unread → connection.slot.blocks keys standing = false →
      connection.slot.blocks keys standing = false ∧
        ¬ Fresh s.predecessorWait now keys standing connection := by
    intro unread unblocked
    refine ⟨unblocked, ?_⟩
    intro fresh
    exact absurd fresh.2 (not_lt.mpr (ended i earlier connection found unread))
  cases slot : connection.slot with
  | silent => exact slot ▸ unreadCase (slot ▸ trivial) (slot ▸ rfl)
  | announced pane theirs => exact slot ▸ unreadCase (slot ▸ trivial) (slot ▸ rfl)
  | event theirs theirStanding =>
    have turn : s.Turn i theirs theirStanding := by
      refine ⟨?_, connection, found, slot⟩
      have fits := kept.fits i
      rw [found] at fits
      cases task : s.tasks i with
      | holding => rfl
      | waiting k st wait => exact absurd task (first i earlier k st wait)
      | absent =>
        rw [task] at fits
        cases fits
      | leaving =>
        rw [task] at fits
        cases fits
      | reading | announcing =>
        rw [task] at fits
        rcases fits with ⟨other, same, unread⟩
        rw [← Option.some.inj same, slot] at unread
        exact unread.elim
    refine ⟨free i earlier theirs theirStanding turn, ?_⟩
    intro fresh
    have pending := fresh.1
    rw [slot] at pending
    exact Bool.false_ne_true pending

/-- A sleeping waiter that would be granted its turn has been woken, or its timer is due, or a
notification is owed. -/
theorem waiter_hears (kept : Kept s) {woken : Bool} {wakeBy : Option Instant}
    (sleeping : s.tasks j = .waiting keys standing (.sleeping woken wakeBy))
    (clear : (examine s.predecessorWait s.clock keys standing (s.ahead j)).clear) :
    woken = true ∨ (∃ u, wakeBy = some u ∧ u ≤ s.clock) ∨ ∃ other, (s.tasks other).owes := by
  cases woken with
  | true => exact Or.inl rfl
  | false =>
    right
    rcases kept.asleep j keys standing wakeBy sleeping with owed | ⟨now, refused, due⟩
    · exact Or.inr owed
    · rcases examine_due refused clear with ⟨u, timer, past⟩
      exact Or.inl ⟨u, due.trans timer, past⟩

theorem owed_wakes {other : ℕ} (owes : (s.tasks other).owes) {woken : Bool}
    {wakeBy : Option Instant}
    (sleeping : s.tasks j = .waiting keys standing (.sleeping woken wakeBy)) :
    (s.step (.notify other)).tasks j = .waiting keys standing (.sleeping true wakeBy) := by
  have apart : j ≠ other := by
    intro same
    rw [← same, sleeping] at owes
    exact owes
  have wakes : ∀ task, (s.notifyWaiters other task).tasks j =
      .waiting keys standing (.sleeping true wakeBy) := by
    intro task
    simp only [Order.notifyWaiters, Function.update_of_ne apart, sleeping, Task.notified]
  cases task : s.tasks other with
  | announcing =>
    simp only [Order.step, task]
    exact wakes _
  | leaving =>
    simp only [Order.step, task]
    exact wakes _
  | waiting k st wait =>
    rw [task] at owes
    cases wait with
    | entering =>
      simp only [Order.step, task]
      exact wakes _
    | looping | registered | clocked | sleeping => exact owes.elim
  | absent | reading | holding =>
    rw [task] at owes
    exact owes.elim

theorem Moved.predecessorWait {after : Order} {op : OrderOp} (moved : Moved s op after) :
    after.predecessorWait = s.predecessorWait := by
  cases moved with
  | _ => rfl

theorem run_predecessorWait (predecessorWait : Duration) (ops : List OrderOp) :
    ((Order.new predecessorWait).run ops).predecessorWait = predecessorWait := by
  refine Runs.run_keeps_always (fun s : Order => s.predecessorWait = predecessorWait) ?_ rfl
  intro s op held
  rcases s.step_cases op with same | moved
  · rw [same]
    exact held
  · exact moved.predecessorWait.trans held

/-! ## Where a turn comes from -/

theorem notified_eq_holding {task : Task} (holding : task.notified = .holding) :
    task = .holding := by
  cases task with
  | holding => rfl
  | waiting keys standing wait => cases wait <;> exact Task.noConfusion holding
  | absent | reading | announcing | leaving => exact Task.noConfusion holding

/-- A turn that comes of a step was held before, or is granted by its check. -/
theorem turn_of_step (kept : Kept s) {op : OrderOp} (turn : (s.step op).Turn j keys standing) :
    s.Turn j keys standing ∨ (op = .check j ∧ ∃ now, s.Grants j keys standing now) := by
  rcases s.step_cases op with same | moved
  · rw [same] at turn
    exact Or.inl turn
  · generalize s.step op = after at moved turn
    rcases turn with ⟨holding, connection, found, slot⟩
    have elsewhere : ∀ seq task, (j = seq → task ≠ .holding) →
        (s.setTask seq task).tasks j = .holding → s.tasks j = .holding := by
      intro seq task other held
      by_cases same : j = seq
      · subst same
        simp only [Order.setTask, Function.update_self] at held
        exact absurd held (other rfl)
      · simp only [Order.setTask, Function.update_of_ne same] at held
        exact held
    have notified : ∀ seq task, task ≠ .holding →
        (s.notifyWaiters seq task).tasks j = .holding → s.tasks j = .holding := by
      intro seq task other held
      by_cases same : j = seq
      · subst same
        simp only [Order.notifyWaiters, Function.update_self] at held
        exact absurd held other
      · simp only [Order.notifyWaiters, Function.update_of_ne same] at held
        exact notified_eq_holding held
    have others : ∀ {seq} task, task ≠ .holding →
        Function.update s.tasks seq task j = .holding → j ≠ seq := by
      rintro seq task other held rfl
      rw [Function.update_self] at held
      exact other held
    cases moved with
    | pass => exact Or.inl ⟨holding, connection, found, slot⟩
    | accept =>
      have apart := others _ (fun is => Task.noConfusion is) holding
      simp only [Function.update_of_ne apart] at holding found
      exact Or.inl ⟨holding, connection, found, slot⟩
    | @enter seq keys' standing' reading | @announce seq pane standing' reading =>
      have apart := others _ (fun is => Task.noConfusion is) holding
      simp only [Order.setSlot, Function.update_of_ne apart] at holding found
      exact Or.inl ⟨holding, connection, found, slot⟩
    | @leave _ seq present =>
      have apart := others _ (fun is => Task.noConfusion is) holding
      simp only [Order.leave, Function.update_of_ne apart] at holding found
      exact Or.inl ⟨holding, connection, found, slot⟩
    | @announced seq task | @entered seq _ _ task | @left seq task =>
      exact Or.inl ⟨notified seq _ (fun is => Task.noConfusion is) holding, connection, found, slot⟩
    | @register seq _ _ task | @readClock seq _ _ _ task | @sleep seq _ _ _ _ task refused
    | @wake seq _ _ _ _ task =>
      exact Or.inl ⟨elsewhere seq _ (fun _ is => Task.noConfusion is) holding, connection, found,
        slot⟩
    | @grant seq keys' standing' woken now task clear =>
      by_cases same : j = seq
      · subst same
        rcases kept.fits_of task with ⟨there, foundThere, event⟩
        have is := Option.some.inj (foundThere.symm.trans found)
        rw [is, slot] at event
        rcases event with ⟨rfl, rfl⟩
        exact Or.inr ⟨rfl, now, ⟨woken, task⟩, clear⟩
      · simp only [Order.setTask, Function.update_of_ne same] at holding
        exact Or.inl ⟨holding, connection, found, slot⟩

theorem turn_granted (predecessorWait : Duration) (ops : List OrderOp)
    (turn : ((Order.new predecessorWait).run ops).Turn j keys standing) :
    ∃ past rest now, ops = past ++ OrderOp.check j :: rest ∧
      ((Order.new predecessorWait).run past).Grants j keys standing now := by
  induction ops using List.reverseRecOn with
  | nil => exact Task.noConfusion turn.1
  | append_singleton ops op ih =>
    have stepped : (Order.new predecessorWait).run (ops ++ [op]) =
        ((Order.new predecessorWait).run ops).step op := by
      simp only [Order.run, List.foldl_append, List.foldl_cons, List.foldl_nil]
    rw [stepped] at turn
    rcases turn_of_step (kept_run predecessorWait ops) turn with held | ⟨rfl, now, grants⟩
    · rcases ih held with ⟨past, rest, now, same, grants⟩
      refine ⟨past, rest ++ [op], now, ?_, grants⟩
      rw [same, List.append_assoc, List.cons_append]
    · exact ⟨ops, [], now, rfl, grants⟩

/-- In every run: a turn is granted by a check, never over an earlier turn that holds it back, then
or later, unless that connection's event was not read at the grant and did not hold it back; an
attested event waits only for connections not yet read and for attested lines, and a line that is
refused or no event gives up its place; a check reads nothing of later connections, and the earliest
waiting event is granted its turn once the waits of the unread connections ahead are over and no
turn held ahead holds it back; and a waiter that would be granted its turn is woken. -/
theorem events_in_accept_order (predecessorWait : Duration) (ops : List OrderOp) :
    (∀ j keys standing, ((Order.new predecessorWait).run ops).Turn j keys standing →
      ∃ past rest now, ops = past ++ OrderOp.check j :: rest ∧
        ((Order.new predecessorWait).run past).Grants j keys standing now) ∧
    (∀ past rest j keys standing now, ops = past ++ rest →
      ((Order.new predecessorWait).run past).Grants j keys standing now →
      ∀ i < j, ∀ theirs theirStanding, theirs.overlaps keys = true →
        theirStanding.holdsBack standing = true →
        ((Order.new predecessorWait).run ops).Turn i theirs theirStanding →
        now ≤ ((Order.new predecessorWait).run past).clock ∧
          ∃ connection, ((Order.new predecessorWait).run past).connections i = some connection ∧
            ((Order.new predecessorWait).run past).Overtaken connection keys standing now) ∧
    (∀ j keys now, (examine predecessorWait now keys .attested
        (((Order.new predecessorWait).run ops).ahead j)).clear = false →
      ∃ i < j, ∃ connection,
        ((Order.new predecessorWait).run ops).connections i = some connection ∧
        (connection.slot = .silent ∧ now < connection.acceptedAt + predecessorWait ∨
          (∃ pane, connection.slot = .announced pane .attested ∧
            now < connection.acceptedAt + predecessorWait) ∨
          ∃ theirs, connection.slot = .event theirs .attested)) ∧
    (∀ i kind, ((Order.new predecessorWait).run ops).tasks i = .reading →
      (kind = .other ∨ (∃ keys, kind = .event keys none) ∨ ∃ pane, kind = .announce pane none) →
      (((Order.new predecessorWait).run ops).step (.line i kind)).connections i = none) ∧
    (∀ j keys standing now (t : Order),
      (∀ i < j, t.connections i = ((Order.new predecessorWait).run ops).connections i) →
      examine predecessorWait now keys standing (t.ahead j) =
        examine predecessorWait now keys standing
          (((Order.new predecessorWait).run ops).ahead j)) ∧
    (∀ j keys standing now,
      (∀ i < j, ∀ theirs theirStanding wait,
        ((Order.new predecessorWait).run ops).tasks i ≠ .waiting theirs theirStanding wait) →
      (∀ i < j, ∀ connection,
        ((Order.new predecessorWait).run ops).connections i = some connection →
        connection.slot.unread → connection.acceptedAt + predecessorWait ≤ now) →
      (∀ i < j, ∀ theirs theirStanding,
        ((Order.new predecessorWait).run ops).Turn i theirs theirStanding →
        (theirStanding.holdsBack standing && theirs.overlaps keys) = false) →
      (examine predecessorWait now keys standing
        (((Order.new predecessorWait).run ops).ahead j)).clear = true) ∧
    ∀ j keys standing woken wakeBy, ((Order.new predecessorWait).run ops).tasks j =
        .waiting keys standing (.sleeping woken wakeBy) →
      (examine predecessorWait ((Order.new predecessorWait).run ops).clock keys standing
        (((Order.new predecessorWait).run ops).ahead j)).clear = true →
      woken = true ∨ (∃ u, wakeBy = some u ∧ u ≤ ((Order.new predecessorWait).run ops).clock) ∨
        ∃ other, (((Order.new predecessorWait).run ops).tasks other).owes ∧
          (((Order.new predecessorWait).run ops).step (.notify other)).tasks j =
            .waiting keys standing (.sleeping true wakeBy) := by
  have waits : ∀ ops, ((Order.new predecessorWait).run ops).predecessorWait = predecessorWait :=
    run_predecessorWait predecessorWait
  have kept := kept_run predecessorWait ops
  refine ⟨?_, ?_, ?_, ?_, ?_, ?_, ?_⟩
  · intro j keys standing turn
    exact turn_granted predecessorWait ops turn
  · intro past rest j keys standing now same grants i earlier theirs theirStanding overlap
      holdsBack turn
    have keptPast := kept_run predecessorWait past
    rcases grants.1 with ⟨woken, task⟩
    refine ⟨keptPast.clocked j keys standing woken now task, ?_⟩
    by_contra nobody
    have read : ∀ connection,
        ((Order.new predecessorWait).run past).connections i = some connection →
        ¬ connection.slot.unread := by
      intro connection found unread
      exact nobody ⟨connection, found, (grants.ahead earlier found).2 unread⟩
    apply grants.no_turn keptPast earlier read overlap holdsBack rest
    have joined : ((Order.new predecessorWait).run past).run rest =
        (Order.new predecessorWait).run (past ++ rest) := by
      simp only [Order.run, List.foldl_append]
    rw [joined, ← same]
    exact turn
  · intro j keys now refused
    have attested := @attested_waits ((Order.new predecessorWait).run ops) j keys now
    rw [waits ops] at attested
    exact attested refused
  · intro i kind reading refused
    exact refused_leaves reading refused
  · intro j keys standing now t same
    rw [ahead_congr same]
  · intro j keys standing now first ended free
    have clear := @first_waiting_clear _ j keys standing now kept first
    rw [waits ops] at clear
    exact clear ended free
  · intro j keys standing woken wakeBy sleeping clear
    have hears := waiter_hears kept sleeping
    rw [waits ops] at hears
    rcases hears clear with awake | due | ⟨other, owes⟩
    · exact Or.inl awake
    · exact Or.inr (Or.inl due)
    · exact Or.inr (Or.inr ⟨other, owes, owed_wakes owes sleeping⟩)

/-- The steps of an event from its line to the check. -/
def taking (seq : ℕ) : List OrderOp :=
  [.line seq (.event ⟨['s'], none⟩ (some .attested)), .notify seq, .register seq, .readClock seq,
    .check seq]

/-- The first connection stays silent past its wait, and the second sends an event. -/
def silentFirst : List OrderOp := [OrderOp.accept, .accept, .pass 5] ++ (taking 1).take 4

/-- A connection that stays silent past its wait is overtaken. -/
theorem events_in_accept_order_overtaken :
    ∃ connection, ((Order.new 5).run silentFirst).connections 0 = some connection ∧
      ((Order.new 5).run silentFirst).Overtaken connection ⟨['s'], none⟩ .attested 5 := by
  have granted := (events_in_accept_order 5 (silentFirst ++ (OrderOp.check 1 :: taking 0))).2.1
    silentFirst (.check 1 :: taking 0) 1 ⟨['s'], none⟩ .attested 5 rfl ⟨⟨false, rfl⟩, by decide⟩ 0
    (by decide) ⟨['s'], none⟩ .attested (by decide) (by decide)
    ⟨by decide, ⟨0, .event ⟨['s'], none⟩ .attested⟩, by decide, rfl⟩
  exact granted.2

/-- The first connection announces itself by an unproven line. -/
def announced : List OrderOp :=
  [OrderOp.accept, .accept, .line 0 (.announce ['p'] (some .unproven)), .notify 0]

/-- The first event holds its turn while the second waits. -/
def heldTurn : Order :=
  (Order.new 5).run ([OrderOp.accept, .accept] ++ taking 0 ++ (taking 1).take 4)

/-- Where more does not hold. A connection announced by an unproven line is overtaken at once by an
attested event, and its own event may then be attested: both turns are held together, before the
wait of the first is over. And an event with no waiting event ahead and no unread connection still
waits for a turn that is held. -/
theorem accept_order_limits :
    (((Order.new 5).run (announced ++ (taking 1).take 4)).connections 0 =
        some ⟨0, .announced ['p'] .unproven⟩ ∧
      ((Order.new 5).run (announced ++ taking 1 ++ taking 0)).Turn 1 ⟨['s'], none⟩ .attested ∧
      ((Order.new 5).run (announced ++ taking 1 ++ taking 0)).Turn 0 ⟨['s'], none⟩ .attested ∧
      ((Order.new 5).run (announced ++ taking 1 ++ taking 0)).clock < 0 + 5) ∧
    (heldTurn.tasks 0 = .holding ∧
      heldTurn.tasks 1 = .waiting ⟨['s'], none⟩ .attested (.clocked false 0) ∧
      (examine 5 100 ⟨['s'], none⟩ .attested (heldTurn.ahead 1)).clear = false) := by
  refine ⟨⟨by decide, ⟨by decide, ⟨0, .event ⟨['s'], none⟩ .attested⟩, by decide, rfl⟩,
    ⟨by decide, ⟨0, .event ⟨['s'], none⟩ .attested⟩, by decide, rfl⟩, by decide⟩,
    by decide, by decide, by decide⟩

end AgentDeck.HookOrder
