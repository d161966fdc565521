import AgentDeck.Handoff.Posts

/-!
# Before the post

Until a task is posted the books know nothing of it and its reports, so every change about them is
held. All other calls do to the books, and to the other held changes, what they do without it.
-/

namespace AgentDeck.Handoff

open SortedMap

/-- The change is about the task or one of its reports. -/
def Change.about (task : Text) (reports : List Text) : Change → Bool
  | .report _ named _ => decide (named = task)
  | other => other.messageId.any fun id => decide (id ∈ task :: reports)

/-- The books know nothing of the messages `ids`. -/
def Aside (ids : List Text) (books : Books) : Prop :=
  ∀ id ∈ ids, books.opened.get? id = none ∧ books.unread.get? id = none ∧ id ∉ books.endedIds

section Aside

variable {ids : List Text} {books : Books}

theorem mem_noteEnded {ended endedIds : List Text} {id other : Text}
    (mem : other ∈ (Books.noteEnded ended endedIds id).2) : other ∈ endedIds ∨ other = id := by
  have noted := (List.mem_filter.mp mem).1
  split at noted
  · exact .inl noted
  · rcases List.mem_append.mp noted with old | new
    · exact .inl old
    · exact .inr (List.mem_singleton.mp new)

section

variable (aside : Aside ids books)

include aside

theorem Aside.endTask (id : Text) (outcome : Outcome) (now : ℕ) :
    Aside ids (books.endTask id outcome now) := by
  intro other mem
  rcases aside other mem with ⟨notOpen, notUnread, notEnded⟩
  unfold Books.endTask
  cases here : books.opened.get? id with
  | none => exact ⟨notOpen, notUnread, notEnded⟩
  | some handoff =>
    refine ⟨?_, notUnread, ?_⟩
    · simp only [get?_erase]
      split
      · rfl
      · exact notOpen
    · intro ended
      rcases mem_noteEnded ended with old | same
      · exact notEnded old
      · rw [same, here] at notOpen
        cases notOpen

theorem Aside.endMany (outcome : Outcome) (times : List (Text × ℕ)) :
    Aside ids (times.foldl (fun books aged => books.endTask aged.1 outcome aged.2) books) := by
  induction times generalizing books with
  | nil => exact aside
  | cons aged rest ih => exact ih (aside.endTask _ _ _)

theorem Aside.endAll (outcome : Outcome) (now : ℕ) (tasks : List Text) :
    Aside ids (books.endAll outcome now tasks) := by
  induction tasks generalizing books with
  | nil => exact aside
  | cons id rest ih => exact ih (aside.endTask _ _ _)

theorem Aside.forget (keep : Text → UnreadReport → Bool) (kept : Text → Bool) :
    Aside ids { books with
      unread := books.unread.filter keep, unreadOrder := books.unreadOrder.filter kept } := by
  intro id mem
  rcases aside id mem with ⟨notOpen, notUnread, notEnded⟩
  refine ⟨notOpen, ?_, notEnded⟩
  simp only [get?_filter, notUnread, Option.filter_none]

theorem Aside.expire (now : ℕ) : Aside ids (books.expire now) :=
  (aside.endMany .unknown (books.expired now)).forget _ _

theorem Aside.evict (now fuel : ℕ) : Aside ids (Books.evict now fuel books) := by
  induction fuel generalizing books with
  | zero => exact aside
  | succ fuel ih =>
    unfold Books.evict
    split
    · split
      · exact aside
      · exact ih (aside.endTask _ _ _)
    · exact aside

/-- A post of another task. -/
theorem Aside.open_ {posted : Posted} (other : posted.messageId ∉ ids)
    (orchestrator : Option RunRef) (workerRunId : Option Text) :
    Aside ids (books.open_ posted orchestrator workerRunId) := by
  intro id mem
  rcases aside id mem with ⟨notOpen, notUnread, notEnded⟩
  refine ⟨?_, notUnread, notEnded⟩
  have differ : id ≠ posted.messageId := fun same => other (same ▸ mem)
  simp only [Books.open_, get?_insert, if_neg differ, notOpen]

omit aside in
theorem noteReport_eq (books : Books) (report task : Text) (handoff : OpenHandoff) (now : ℕ)
    (producer : Option RunRef) :
    ∃ count, books.noteReport report task handoff now producer =
      ((({ books with opened := books.opened.insert task (Books.reportedBy handoff now producer) } :
        Books).endTask task .reported (Books.arrival handoff now)).addUnread report
          (Books.unreadOf task handoff now)).forgetUnread count :=
  ⟨_, rfl⟩

/-- A change brings none of the ids into the books, unless it is a report under one of them. -/
theorem Aside.applyKnown {change : Change} (now : ℕ) (runOf : Text → Text → Option RunRef)
    (other : ∀ report task producer, change = .report report task producer → report ∉ ids) :
    Aside ids (books.applyKnown change now runOf).1 := by
  have applies := applyKnown_applies books change now runOf
  revert applies
  generalize books.applyKnown change now runOf = result
  intro applies
  have differs : ∀ {key id : Text} {handoff : OpenHandoff}, id ∈ ids →
      books.opened.get? key = some handoff → id ≠ key := by
    intro key id handoff mem here same
    rw [← same, (aside id mem).1] at here
    cases here
  cases applies with
  | ended about gone => exact aside
  | idle nothing => exact aside
  | unknown about notOpen => exact aside
  | taken is notReport here =>
    intro id mem
    refine ⟨?_, (aside id mem).2⟩
    simp only [Books.noteTaken, get?_insert, if_neg (differs mem here), (aside id mem).1]
  | read waits =>
    intro id mem
    refine ⟨(aside id mem).1, ?_, (aside id mem).2.2⟩
    simp only [Books.noteRead, get?_erase, (aside id mem).2.1]
    split <;> rfl
  | undelivered outcome => exact aside.endTask _ _ _
  | reported here =>
    rename_i report task producer handoff
    have inserted : Aside ids { books with
        opened := books.opened.insert task
          (Books.reportedBy handoff now (runOf producer.1 producer.2)) } := by
      intro id mem
      refine ⟨?_, (aside id mem).2⟩
      simp only [get?_insert, if_neg (differs mem here), (aside id mem).1]
    have closed := inserted.endTask task .reported (Books.arrival handoff now)
    intro id mem
    rcases closed id mem with ⟨notOpen, notUnread, notEnded⟩
    have differ : id ≠ report := fun same => other report task producer rfl (same ▸ mem)
    rcases noteReport_eq books report task handoff now (runOf producer.1 producer.2)
      with ⟨count, shape⟩
    rw [shape]
    refine ⟨notOpen, ?_, notEnded⟩
    simp only [Books.forgetUnread]
    rcases erased_get? _ _ id with gone | kept
    · exact gone
    · rw [kept]
      simp only [Books.addUnread, get?_insert, if_neg differ]
      exact notUnread

end

/-- A change about the task finds nothing to do. -/
theorem Aside.unknown {task : Text} {reports : List Text} (aside : Aside (task :: reports) books)
    {change : Change} (about : change.about task reports) (now : ℕ)
    (runOf : Text → Text → Option RunRef) : books.applyKnown change now runOf = (books, false) := by
  have away : ∀ id, change.subject = some id → id ∈ task :: reports →
      ¬ change.subject.any (fun id => decide (id ∈ books.endedIds)) = true := by
    intro id subject mem gone
    rw [subject, Option.any_some, decide_eq_true_eq] at gone
    exact (aside id mem).2.2 gone
  unfold Books.applyKnown
  cases change with
  | taken id | acknowledged id =>
    have mem : id ∈ task :: reports := by simpa [Change.about, Change.messageId] using about
    rw [if_neg (away id rfl mem)]
    simp [(aside id mem).1, (aside id mem).2.1]
  | undeliverable id reason =>
    have mem : id ∈ task :: reports := by simpa [Change.about, Change.messageId] using about
    rw [if_neg (away id rfl mem)]
    simp [(aside id mem).1]
  | report report named producer =>
    have same : named = task := by simpa [Change.about] using about
    subst same
    rw [if_neg (away named rfl List.mem_cons_self)]
    simp [(aside named List.mem_cons_self).1]
  | uncorrelated pane agent => cases about

end Aside

end AgentDeck.Handoff
