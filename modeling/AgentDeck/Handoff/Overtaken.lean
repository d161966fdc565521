import AgentDeck.Handoff.Aside

/-!
# Changes that overtake a post

The calls before a post, beside the same calls in which the changes about its task only tell the
time: the books are the same after both, and the changes are held.
-/

namespace AgentDeck.Handoff

open SortedMap

/-! ## The changes about a task -/

def reportsOf (calls : List Call) (task : Text) : List Text :=
  ((namedIn calls).filter fun named => named.2 = task).map Prod.fst

def Call.about? (task : Text) (reports : List Text) : Call → Option (Change × ℕ)
  | .apply change now _ => if change.about task reports then some (change, now) else none
  | _ => none

/-- The changes about the task and its reports, as they were seen. -/
def seenAbout (task : Text) (reports : List Text) (calls : List Call) : List (Change × ℕ) :=
  calls.filterMap (Call.about? task reports)

/-- The call, without the change where it is about the task. -/
def Call.ticked (task : Text) (reports : List Text) : Call → Call
  | .apply change now runOf =>
    if change.about task reports then .expire now else .apply change now runOf
  | call => call

def Handoffs.lost (handoffs : Handoffs) : Call → List (Change × ℕ)
  | .apply change now runOf =>
    if (((handoffs.expire now).books).applyKnown change now runOf).2 = true then []
    else
      let early := (handoffs.expire now).early ++ [(change, now)]
      early.take (early.length - maxEarlyNotices)
  | _ => []

/-- The changes about a task and its reports came before its post: each less than the age of an
early notice before it, none was dropped because too many were held, and no other while a post could
still find it. Messages are tasks or reports. -/
structure Overtaken (calls : List Call) (task : Text) (start : ℕ) : Prop where
  ordered : Ordered calls
  unposted : task ∉ tasksOf calls
  apart : ∀ id ∈ task :: tasksOf calls, id ∉ reportsIn calls
  waits : ∀ past change seen runOf future, calls = past ++ Call.apply change seen runOf :: future →
    change.about task (reportsOf calls task) = true →
    seen ≤ start ∧ start - seen < earlyNoticeAgeNanos ∧
      ∀ call ∈ future, call.now - seen < earlyNoticeAgeNanos ∧ ∀ now, call ≠ .endAll now
  kept : ∀ past call future, calls = past ++ call :: future →
    ∀ held ∈ (Handoffs.run past).lost call,
      held.1.about task (reportsOf calls task) = false ∧ ∀ later ∈ future, later.task? = none

section Overtaken

variable {calls : List Call} {task : Text} {start : ℕ}

theorem Overtaken.foreign (overtaken : Overtaken calls task start) {report named : Text}
    {producer : Text × Text} {now : ℕ} {runOf : Text → Text → Option RunRef}
    (called : .apply (.report report named producer) now runOf ∈ calls) (other : named ≠ task) :
    report ∉ task :: reportsOf calls task := by
  have names := mem_namedIn called
  intro mem
  rcases List.mem_cons.mp mem with rfl | own
  · exact overtaken.apart report List.mem_cons_self (List.mem_map_of_mem names)
  · rcases List.mem_map.mp own with ⟨⟨again, same⟩, both, is⟩
    rcases List.mem_filter.mp both with ⟨ofTask, isTask⟩
    subst is
    have unique := List.inj_on_of_nodup_map overtaken.ordered.reports ofTask names rfl
    cases unique
    exact other (of_decide_eq_true isTask)

theorem Overtaken.otherTask (overtaken : Overtaken calls task start) {id : Text}
    (posted : id ∈ tasksOf calls) : id ∉ task :: reportsOf calls task := by
  intro mem
  rcases List.mem_cons.mp mem with rfl | own
  · exact overtaken.unposted posted
  · rcases List.mem_map.mp own with ⟨named, both, rfl⟩
    exact overtaken.apart named.1 (List.mem_cons_of_mem _ posted)
      (List.mem_map_of_mem (List.mem_filter.mp both).1)

variable {reports : List Text}

theorem mem_seenAbout {past : List Call} {held : Change × ℕ}
    (mem : held ∈ seenAbout task reports past) :
    held.1.about task reports = true ∧
      ∃ before runOf after, past = before ++ Call.apply held.1 held.2 runOf :: after := by
  rcases List.mem_filterMap.mp mem with ⟨call, called, gives⟩
  rcases List.append_of_mem called with ⟨before, after, split⟩
  cases call with
  | apply change now runOf =>
    simp only [Call.about?] at gives
    split at gives
    · rename_i about
      cases gives
      exact ⟨about, before, runOf, after, split⟩
    · cases gives
  | posted _ _ _ _ => cases gives
  | runEnded _ _ _ => cases gives
  | expire _ => cases gives
  | endAll _ => cases gives

/-! ## A replay for another task -/

theorem not_concerns {books : Books} {other : Text} {change : Change}
    (aside : Aside (task :: reports) books) (about : change.about task reports)
    (differ : other ∉ task :: reports) : books.concerns other change = false := by
  have away : ∀ id ∈ task :: reports, ¬ (decide (id = other) ||
      (books.unread.get? id).any fun report => decide (report.task = other)) = true := by
    intro id mem
    rw [(aside id mem).2.1, Option.any_none, Bool.or_false, decide_eq_true_eq]
    exact fun same => differ (same ▸ mem)
  cases change with
  | report report named producer =>
    have same : named = task := of_decide_eq_true about
    subst same
    exact decide_eq_false fun is => differ (is ▸ List.mem_cons_self)
  | taken id | acknowledged id | undeliverable id reason =>
    exact Bool.eq_false_iff.mpr (away id (of_decide_eq_true about))
  | uncorrelated pane agent => cases about

theorem replay_without {other : Text} (differ : other ∉ task :: reports) (now : ℕ)
    (runOf : Text → Text → Option RunRef) (held : List (Change × ℕ)) :
    ∀ handoffs : Handoffs, Aside (task :: reports) handoffs.books →
    (∀ entry ∈ held, entry.1.about task reports = false → ∀ report named producer,
      entry.1 = .report report named producer → report ∉ task :: reports) →
    Aside (task :: reports) (held.foldl (Handoffs.replay other now runOf) handoffs).books ∧
    (held.foldl (Handoffs.replay other now runOf) handoffs).early.filter
        (fun entry => entry.1.about task reports) =
      (handoffs.early ++ held).filter (fun entry => entry.1.about task reports) ∧
    (held.filter fun entry => !entry.1.about task reports).foldl (Handoffs.replay other now runOf)
        ⟨handoffs.books, handoffs.early.filter fun entry => !entry.1.about task reports⟩ =
      ⟨(held.foldl (Handoffs.replay other now runOf) handoffs).books,
        (held.foldl (Handoffs.replay other now runOf) handoffs).early.filter
          fun entry => !entry.1.about task reports⟩ := by
  induction held with
  | nil =>
    intro handoffs aside foreign
    exact ⟨aside, by simp, rfl⟩
  | cons entry rest ih =>
    intro handoffs aside foreign
    have foreignRest := fun later mem => foreign later (List.mem_cons_of_mem _ mem)
    cases about : entry.1.about task reports with
    | true =>
      have passed : Handoffs.replay other now runOf handoffs entry =
          ⟨handoffs.books, handoffs.early ++ [entry]⟩ := by
        unfold Handoffs.replay
        rw [not_concerns aside about differ]
        rfl
      rcases ih ⟨handoffs.books, handoffs.early ++ [entry]⟩ aside foreignRest
        with ⟨after, same, without⟩
      rw [List.foldl_cons, passed]
      refine ⟨after, ?_, ?_⟩
      · rw [same]
        simp
      · rw [← without]
        simp [about]
    | false =>
      rw [List.foldl_cons, List.filter_cons_of_pos (by simp [about]), List.foldl_cons]
      by_cases concerns : handoffs.books.concerns other entry.1 = true
      · have applied := aside.applyKnown (max entry.2 now) runOf
          (foreign entry List.mem_cons_self about)
        have step : ∀ early, Handoffs.replay other now runOf ⟨handoffs.books, early⟩ entry =
            ⟨(handoffs.books.applyKnown entry.1 (max entry.2 now) runOf).1, early⟩ := by
          intro early
          unfold Handoffs.replay
          rw [if_pos concerns]
        rcases ih ⟨_, handoffs.early⟩ applied foreignRest with ⟨after, same, without⟩
        rw [step, step]
        refine ⟨after, ?_, without⟩
        rw [same]
        simp [about]
      · have step : ∀ early, Handoffs.replay other now runOf ⟨handoffs.books, early⟩ entry =
            ⟨handoffs.books, early ++ [entry]⟩ := by
          intro early
          unfold Handoffs.replay
          rw [if_neg concerns]
        rcases ih ⟨handoffs.books, handoffs.early ++ [entry]⟩ aside foreignRest
          with ⟨after, same, without⟩
        rw [step, step]
        refine ⟨after, ?_, ?_⟩
        · rw [same]
          simp
        · rw [← without]
          simp [about]

end Overtaken

end AgentDeck.Handoff
