import AgentDeck.Handoff.Beside

/-!
# The replay, and the changes applied after the post

A change about the task replayed by its post does what it does applied after it, whenever it was
seen before the post.
-/

namespace AgentDeck.Handoff

open SortedMap

theorem handoffAge_pos : 0 < maxHandoffAgeNanos := by decide

/-- The books after the post of `task` at `start`, while the changes about it are applied. -/
structure Phase (task : Text) (reports : List Text) (start : ℕ) (books : Books) : Prop where
  starts : ∀ handoff, books.opened.get? task = some handoff → handoff.start = start
  notTasks : ∀ id ∈ reports, books.opened.get? id = none ∧ id ∉ books.endedIds
  taskUnread : books.unread.get? task = none
  owned : ∀ id unread, books.unread.get? id = some unread →
    (unread.task = task → id ∈ reports ∧ start ≤ unread.arrived) ∧
      (id ∈ reports → unread.task = task)
  calm : ∀ id handoff, books.opened.get? id = some handoff →
    start < Books.bound handoff.start ∨ handoff.start = start
  calmUnread : ∀ id unread, books.unread.get? id = some unread →
    start - unread.arrived < maxHandoffAgeNanos

section Phase

variable {task : Text} {reports : List Text} {start : ℕ} {books : Books}

/-- Nothing expires before the task's bound. -/
theorem Phase.expire {tasks : List Text} {named : List (Text × Text)}
    (phase : Phase task reports start books) (sound : Sound tasks named books) {now : ℕ}
    (early : now ≤ start) (young : now < Books.bound start) : books.expire now = books := by
  have absent : books.expired now = [] := by
    rw [List.eq_nil_iff_forall_not_mem]
    rintro ⟨id, time⟩ mem
    rcases (sound.mem_expired now id time).mp mem with ⟨handoff, here, aged, _⟩
    rcases phase.calm id handoff here with later | same
    · omega
    · rw [same] at aged
      omega
  have unread : books.unread.filter (fun _ report =>
      decide (now - report.arrived < maxHandoffAgeNanos)) = books.unread := by
    refine ext_get? fun id => ?_
    rw [get?_filter]
    cases here : books.unread.get? id with
    | none => rfl
    | some report =>
      have calm := phase.calmUnread id report here
      rw [Option.filter_some, if_pos]
      exact decide_eq_true (lt_of_le_of_lt (Nat.sub_le_sub_right early _) calm)
  have order : books.unreadOrder.filter (fun id => (books.unread.get? id).isSome) =
      books.unreadOrder := by
    rw [List.filter_eq_self]
    intro id mem
    exact (sound.unreadOrder id).mp mem
  unfold Books.expire
  rw [absent]
  simp only [List.foldl_nil, unread, order]

variable {change : Change}

variable (phase : Phase task reports start books)

include phase

theorem Phase.not_concerns (about : change.about task reports = false) :
    books.concerns task change = false := by
  have away : ∀ id, id ∉ task :: reports → ¬ (decide (id = task) ||
      (books.unread.get? id).any fun report => decide (report.task = task)) = true := by
    intro id other either
    rw [Bool.or_eq_true, decide_eq_true_eq, Option.any_eq_true] at either
    rcases either with same | ⟨unread, here, same⟩
    · exact other (same ▸ List.mem_cons_self)
    · exact other (List.mem_cons_of_mem _ ((phase.owned id unread here).1
        (of_decide_eq_true same)).1)
  cases change with
  | report report named producer => exact about
  | taken id | acknowledged id | undeliverable id reason =>
    exact Bool.eq_false_iff.mpr (away id (of_decide_eq_false about))
  | uncorrelated pane agent => rfl

theorem Phase.own {id : Text} {handoff : OpenHandoff} (mem : id ∈ task :: reports)
    (here : books.opened.get? id = some handoff) : id = task ∧ handoff.start = start := by
  rcases List.mem_cons.mp mem with rfl | report
  · exact ⟨rfl, phase.starts handoff here⟩
  · rw [(phase.notTasks id report).1] at here
    cases here

/-- A change taken before the start is applied as at the start. -/
theorem Phase.timeless (about : change.about task reports) {now : ℕ} (early : now ≤ start)
    (runOf : Text → Text → Option RunRef) :
    books.applyKnown change now runOf = books.applyKnown change start runOf := by
  have taken : ∀ id handoff, id ∈ task :: reports → books.opened.get? id = some handoff →
      books.noteTaken id handoff now = books.noteTaken id handoff start := by
    intro id handoff mem here
    have same := (phase.own mem here).2
    unfold Books.noteTaken
    rw [same, max_eq_right early, max_self]
  unfold Books.applyKnown
  split
  · rfl
  · cases change with
    | taken id =>
      have mem : id ∈ task :: reports := of_decide_eq_true about
      simp only
      split
      · rfl
      · cases here : books.opened.get? id with
        | none => rfl
        | some handoff => simp only [taken id handoff mem here]
    | acknowledged id =>
      have mem : id ∈ task :: reports := of_decide_eq_true about
      simp only
      cases waits : books.unread.get? id with
      | some unread =>
        have arrived : start ≤ unread.arrived := by
          rcases List.mem_cons.mp mem with rfl | report
          · rw [phase.taskUnread] at waits
            cases waits
          · have own := phase.owned id unread waits
            exact (own.1 (own.2 report)).2
        simp only [Books.noteRead, readSpan, max_eq_right arrived,
          max_eq_right (early.trans arrived)]
      | none =>
        cases here : books.opened.get? id with
        | none => rfl
        | some handoff => simp only [taken id handoff mem here]
    | undeliverable id reason =>
      have mem : id ∈ task :: reports := of_decide_eq_true about
      simp only
      cases here : books.opened.get? id with
      | none => rfl
      | some handoff =>
        have latest : start ≤ latestEvent handoff := by
          rw [latestEvent_eq, (phase.own mem here).2]
          omega
        simp only [Books.endTask, here, span, max_eq_right latest,
          max_eq_right (early.trans latest)]
    | report report named producer =>
      have same : named = task := of_decide_eq_true about
      simp only
      cases here : books.opened.get? named with
      | none => rfl
      | some handoff =>
        have arrival : Books.arrival handoff now = Books.arrival handoff start := by
          unfold Books.arrival
          rw [phase.starts handoff (same ▸ here), max_eq_right early, max_self]
        simp only [Books.noteReport, Books.reportedBy, Books.unreadOf, arrival]
    | uncorrelated pane agent => rfl

/-- A change that does not concern the task changes nothing. -/
theorem Phase.passed (about : change.about task reports)
    (concerns : books.concerns task change = false) (now : ℕ)
    (runOf : Text → Text → Option RunRef) : (books.applyKnown change now runOf).1 = books := by
  have unknown : ∀ id ∈ task :: reports, (decide (id = task) ||
      (books.unread.get? id).any fun report => decide (report.task = task)) = false →
      id ∈ reports ∧ books.unread.get? id = none ∧ books.opened.get? id = none := by
    intro id mem neither
    rw [Bool.or_eq_false_iff, decide_eq_false_iff_not] at neither
    have report := (List.mem_cons.mp mem).resolve_left neither.1
    refine ⟨report, ?_, (phase.notTasks id report).1⟩
    cases waits : books.unread.get? id with
    | none => rfl
    | some unread =>
      rw [waits, Option.any_some, decide_eq_false_iff_not] at neither
      exact absurd ((phase.owned id unread waits).2 report) neither.2
  unfold Books.applyKnown
  split
  · rfl
  · cases change with
    | taken id | acknowledged id =>
      rcases unknown id (of_decide_eq_true about) concerns with ⟨_, notUnread, notOpen⟩
      simp [notUnread, notOpen]
    | undeliverable id reason =>
      rcases unknown id (of_decide_eq_true about) concerns with ⟨_, _, notOpen⟩
      simp [notOpen]
    | report report named producer => cases about.symm.trans concerns
    | uncorrelated pane agent => rfl

/-! ## One change after another -/

theorem Phase.endTask (id : Text) (outcome : Outcome) (now : ℕ) :
    Phase task reports start (books.endTask id outcome now) := by
  unfold Books.endTask
  cases here : books.opened.get? id with
  | none =>
    exact ⟨phase.starts, phase.notTasks, phase.taskUnread, phase.owned, phase.calm,
      phase.calmUnread⟩
  | some handoff =>
    have kept : ∀ {other : Text} {state : OpenHandoff},
        (books.opened.erase id).get? other = some state → books.opened.get? other = some state := by
      intro other state found
      rw [get?_erase] at found
      split at found
      · cases found
      · exact found
    refine ⟨fun state found => phase.starts state (kept found), ?_, phase.taskUnread, phase.owned,
      fun other state found => phase.calm other state (kept found), phase.calmUnread⟩
    intro other mem
    rcases phase.notTasks other mem with ⟨notOpen, notEnded⟩
    refine ⟨?_, ?_⟩
    · simp only [get?_erase]
      split
      · rfl
      · exact notOpen
    · intro ended
      rcases mem_noteEnded ended with old | same
      · exact notEnded old
      · rw [same, here] at notOpen
        cases notOpen

theorem Phase.evict (now fuel : ℕ) : Phase task reports start (Books.evict now fuel books) := by
  induction fuel generalizing books with
  | zero => exact phase
  | succ fuel ih =>
    unfold Books.evict
    split
    · split
      · exact phase
      · exact ih (phase.endTask _ _ _)
    · exact phase

theorem Phase.modify {id : Text} {handoff changed : OpenHandoff}
    (here : books.opened.get? id = some handoff) (same : changed.start = handoff.start) :
    Phase task reports start { books with opened := books.opened.insert id changed } := by
  have kept : ∀ {other : Text} {state : OpenHandoff},
      (books.opened.insert id changed).get? other = some state →
      ∃ before, books.opened.get? other = some before ∧ state.start = before.start := by
    intro other state found
    rw [get?_insert] at found
    split at found
    · rename_i own
      cases found
      exact ⟨handoff, own ▸ here, same⟩
    · exact ⟨state, found, rfl⟩
  refine ⟨?_, ?_, phase.taskUnread, phase.owned, ?_, phase.calmUnread⟩
  · intro state found
    rcases kept found with ⟨before, was, start⟩
    rw [start]
    exact phase.starts before was
  · intro other mem
    rcases phase.notTasks other mem with ⟨notOpen, notEnded⟩
    refine ⟨?_, notEnded⟩
    have differ : other ≠ id := by
      intro own
      rw [own, here] at notOpen
      cases notOpen
    simp only [get?_insert, if_neg differ, notOpen]
  · intro other state found
    rcases kept found with ⟨before, was, start⟩
    rw [start]
    exact phase.calm other before was

theorem Phase.arrive {report : Text} {unread : UnreadReport} (own : unread.task = task)
    (isReport : report ∈ reports) (notTask : report ≠ task) (arrived : start ≤ unread.arrived)
    (count : ℕ) :
    Phase task reports start ((books.addUnread report unread).forgetUnread count) := by
  have kept : ∀ {id : Text} {waits : UnreadReport},
      (((books.addUnread report unread).forgetUnread count).unread).get? id = some waits →
      (id = report ∧ waits = unread) ∨ books.unread.get? id = some waits := by
    intro id waits found
    simp only [Books.forgetUnread] at found
    rcases erased_get? ((books.addUnread report unread).unreadOrder.take count)
      (books.addUnread report unread).unread id with gone | same
    · rw [gone] at found
      cases found
    · rw [same] at found
      simp only [Books.addUnread, get?_insert] at found
      split at found
      · rename_i is
        cases found
        exact .inl ⟨is, rfl⟩
      · exact .inr found
  refine ⟨phase.starts, phase.notTasks, ?_, ?_, phase.calm, ?_⟩
  · cases found : ((books.addUnread report unread).forgetUnread count).unread.get? task with
    | none => rfl
    | some waits =>
      rcases kept found with ⟨same, _⟩ | was
      · exact absurd same.symm notTask
      · rw [phase.taskUnread] at was
        cases was
  · intro id waits found
    rcases kept found with ⟨rfl, rfl⟩ | was
    · exact ⟨fun _ => ⟨isReport, arrived⟩, fun _ => own⟩
    · exact phase.owned id waits was
  · intro id waits found
    rcases kept found with ⟨rfl, rfl⟩ | was
    · rw [Nat.sub_eq_zero_of_le arrived]
      exact handoffAge_pos
    · exact phase.calmUnread id waits was

/-- What is replayed keeps to the task and its reports. -/
theorem Phase.applyKnown (about : change.about task reports)
    (arrives : ∀ report named producer, change = .report report named producer →
      report ∈ reports ∧ report ≠ task) (runOf : Text → Text → Option RunRef) :
    Phase task reports start (books.applyKnown change start runOf).1 := by
  have applies := applyKnown_applies books change start runOf
  revert applies
  generalize books.applyKnown change start runOf = result
  intro applies
  cases applies with
  | ended about gone => exact phase
  | idle nothing => exact phase
  | unknown about notOpen => exact phase
  | taken is notReport here => exact phase.modify here rfl
  | read waits =>
    rename_i id unread
    have kept : ∀ {other : Text} {state : UnreadReport},
        (books.unread.erase id).get? other = some state →
        books.unread.get? other = some state := by
      intro other state found
      rw [get?_erase] at found
      split at found
      · cases found
      · exact found
    refine ⟨phase.starts, phase.notTasks, ?_, fun other state found =>
      phase.owned other state (kept found), phase.calm, fun other state found =>
      phase.calmUnread other state (kept found)⟩
    simp only [Books.noteRead, get?_erase, phase.taskUnread]
    split <;> rfl
  | undelivered outcome => exact phase.endTask _ _ _
  | reported here =>
    rename_i report named producer handoff
    have same : named = task := of_decide_eq_true about
    rcases arrives report named producer rfl with ⟨isReport, notTask⟩
    rcases noteReport_eq books report named handoff start (runOf producer.1 producer.2)
      with ⟨count, shape⟩
    rw [shape]
    have reported : Phase task reports start { books with
        opened := books.opened.insert named
          (Books.reportedBy handoff start (runOf producer.1 producer.2)) } :=
      phase.modify here rfl
    refine (reported.endTask _ _ _).arrive ?_ isReport notTask ?_ count
    · exact same
    · simp only [Books.unreadOf, Books.arrival]
      omega

end Phase

end AgentDeck.Handoff
