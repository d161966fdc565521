import AgentDeck.Handoff.Calls

/-!
# A post, and the changes it finds held

A post opens its hand-off and replays the held changes that concern it, one after another.
-/

namespace AgentDeck.Handoff

open SortedMap

section Posts

variable {past : List Call} {handoffs : Handoffs}

/-- What holds while the changes held for `task`, posted at `start`, are replayed: `rest` are still
to come. -/
structure Replaying (past : List Call) (task : Text) (start : ℕ) (handoffs : Handoffs)
    (rest : List (Change × ℕ)) : Prop where
  sound : Sound (tasksOf past) (namedIn past) handoffs.books
  room : handoffs.books.order.length ≤ maxOpenHandoffs
  unreadRoom : handoffs.books.unreadOrder.length ≤ maxUnreadReports
  starts : ∀ handoff, handoffs.books.opened.get? task = some handoff → handoff.start = start
  held : ∀ held ∈ handoffs.early ++ rest, ∃ runOf, .apply held.1 held.2 runOf ∈ past
  stage : ∀ report, handoffs.books.stage report + heldFor handoffs.early report +
    heldFor rest report ≤ (reportsIn past).count report

variable {task : Text}

theorem mem_namedIn {report : Text} {producer : Text × Text} {now : ℕ}
    {runOf : Text → Text → Option RunRef}
    (called : .apply (.report report task producer) now runOf ∈ past) :
    (report, task) ∈ namedIn past :=
  List.mem_filterMap.mpr ⟨_, called, rfl⟩

theorem concerns_task {books : Books} {id : Text} {change : Change}
    (is : change = .taken id ∨ change = .acknowledged id) (notReport : books.unread.get? id = none)
    (concerns : books.concerns task change) : id = task := by
  rcases is with rfl | rfl <;>
    simpa [Books.concerns, Change.messageId, notReport] using concerns

theorem Replaying.step {start : ℕ} {held : Change × ℕ} {rest : List (Change × ℕ)}
    (replaying : Replaying past task start handoffs (held :: rest)) (nodup : (reportsIn past).Nodup)
    (timely : ∀ call ∈ past, max call.now start ≤ Books.bound start)
    (runOf : Text → Text → Option RunRef) :
    Replaying past task start (Handoffs.replay task start runOf handoffs held) rest := by
  rcases replaying.held held (List.mem_append_right _ List.mem_cons_self) with ⟨heldRun, called⟩
  have stage : ∀ report, handoffs.books.stage report + heldFor handoffs.early report +
      (held.1.arriving report + heldFor rest report) ≤ (reportsIn past).count report := by
    intro report
    have before := replaying.stage report
    exact before
  unfold Handoffs.replay
  split
  · rename_i concerns
    have follows := follows_applyKnown handoffs.books held.1 (max held.2 start) runOf
    have applied : Sound (tasksOf past) (namedIn past)
        (handoffs.books.applyKnown held.1 (max held.2 start) runOf).1 := by
      refine replaying.sound.applyKnown ?_ ?_ runOf
      · intro id handoff is notReport here
        have own := concerns_task is notReport concerns
        rw [replaying.starts handoff (own ▸ here)]
        exact timely _ called
      · intro report named producer is
        rw [is] at called
        refine ⟨mem_namedIn called, stage_eq_zero ?_⟩
        have once := List.nodup_iff_count_le_one.mp nodup report
        have before := stage report
        rw [is, Change.arriving_report] at before
        omega
    refine ⟨applied, follows.order.trans replaying.room,
      follows.unread.trans (max_le replaying.unreadRoom le_rfl), ?_, ?_, ?_⟩
    · intro handoff here
      rcases follows.open_ task handoff here with ⟨earlier, was, same⟩
      rw [← same]
      exact replaying.starts earlier was
    · intro other mem
      refine replaying.held other ?_
      rcases List.mem_append.mp mem with early | later
      · exact List.mem_append_left _ early
      · exact List.mem_append_right _ (List.mem_cons_of_mem _ later)
    · intro report
      have before := stage report
      have step := follows.stage report
      simp only
      split at step
      · omega
      · simp only [noneArriving] at step
        omega
  · refine ⟨replaying.sound, replaying.room, replaying.unreadRoom, replaying.starts, ?_, ?_⟩
    · intro other mem
      rw [List.append_assoc] at mem
      exact replaying.held other mem
    · intro report
      have before := stage report
      have one : heldFor [held] report = held.1.arriving report := by simp [heldFor]
      simp only [heldFor_append]
      omega

theorem Replaying.all {start : ℕ} {rest : List (Change × ℕ)}
    (replaying : Replaying past task start handoffs rest) (nodup : (reportsIn past).Nodup)
    (timely : ∀ call ∈ past, max call.now start ≤ Books.bound start)
    (runOf : Text → Text → Option RunRef) :
    Replaying past task start (rest.foldl (Handoffs.replay task start runOf) handoffs) [] := by
  induction rest generalizing handoffs with
  | nil => exact replaying
  | cons held rest ih => exact ih (replaying.step nodup timely runOf)

/-- The books once a post is made, before the held changes are replayed. -/
def postedBooks (handoffs : Handoffs) (posted : Posted) (orchestrator : Option RunRef)
    (workerRunId : Option Text) : Books :=
  Books.evict posted.postedAt
    ((handoffs.books.expire posted.postedAt).open_ posted orchestrator workerRunId).order.length
    ((handoffs.books.expire posted.postedAt).open_ posted orchestrator workerRunId)

section Post

variable {posted : Posted} {orchestrator : Option RunRef} {workerRunId : Option Text}
  {runOf : Text → Text → Option RunRef}

section

variable (ordered : Ordered (past ++ [Call.posted posted orchestrator workerRunId runOf]))

include ordered

theorem fresh_of_ordered : posted.messageId ∉ tasksOf past := by
  have nodup := ordered.tasks
  rw [tasksOf_concat, List.nodup_append] at nodup
  exact fun mem => nodup.2.2 _ mem _ List.mem_cons_self rfl

omit ordered in
theorem Kept.notOpen (kept : Kept past handoffs)
    (ordered : Ordered (past ++ [Call.posted posted orchestrator workerRunId runOf])) :
    (handoffs.books.expire posted.postedAt).opened.get? posted.messageId = none := by
  have once := (kept.sound.expire posted.postedAt).once posted.messageId
  rw [List.count_eq_zero_of_not_mem (fresh_of_ordered ordered)] at once
  cases here : (handoffs.books.expire posted.postedAt).opened.get? posted.messageId with
  | none => rfl
  | some handoff => simp [here] at once

theorem Ordered.timely :
    ∀ call ∈ past ++ [Call.posted posted orchestrator workerRunId runOf],
      max call.now posted.postedAt ≤ Books.bound posted.postedAt := by
  intro call mem
  refine max_le ?_ (le_bound (ordered.instants _ (List.mem_append_right _ List.mem_cons_self)))
  unfold Books.bound Usage.saturatingAdd
  refine le_min ?_ (ordered.instants call mem)
  rcases List.mem_append.mp mem with before | same
  · exact le_of_lt (ordered.prompt past posted orchestrator workerRunId runOf [] rfl call before)
  · rw [List.mem_singleton.mp same]
    exact Nat.le_add_right _ _

end

theorem Kept.replaying (kept : Kept past handoffs)
    (ordered : Ordered (past ++ [Call.posted posted orchestrator workerRunId runOf])) :
    Replaying (past ++ [Call.posted posted orchestrator workerRunId runOf]) posted.messageId
      posted.postedAt ⟨postedBooks handoffs posted orchestrator workerRunId, []⟩
      (handoffs.expire posted.postedAt).early := by
  have tasks : tasksOf (past ++ [Call.posted posted orchestrator workerRunId runOf]) =
      tasksOf past ++ [posted.messageId] := tasksOf_concat _ _
  have named : namedIn (past ++ [Call.posted posted orchestrator workerRunId runOf]) =
    namedIn past := by
    rw [namedIn_concat]
    exact List.append_nil _
  have instant : posted.postedAt ≤ Usage.u64Max :=
    ordered.instants _ (List.mem_append_right _ List.mem_cons_self)
  have sound := kept.sound.expire posted.postedAt
  have expired := follows_expire handoffs.books posted.postedAt
  have follows : Follows noneArriving
      ((handoffs.books.expire posted.postedAt).open_ posted orchestrator workerRunId)
      (postedBooks handoffs posted orchestrator workerRunId) := follows_evict _ _ _
  refine ⟨?_, evict_room _ _ (Nat.le_add_left _ _), ?_, ?_, ?_, ?_⟩
  · rw [tasks, named]
    exact (sound.open_ (fresh_of_ordered ordered) instant orchestrator workerRunId).evict _ _
  · exact follows.unread.trans (max_le
      (expired.unread.trans (max_le kept.unreadRoom le_rfl)) le_rfl)
  · intro handoff here
    rcases follows.open_ _ handoff here with ⟨earlier, was, same⟩
    simp only [Books.open_, get?_insert, if_true, Option.some.injEq] at was
    rw [← same, ← was]
  · intro held mem
    rcases kept.held held ((List.filter_sublist).subset mem) with ⟨heldRun, called⟩
    exact ⟨heldRun, List.mem_append_left _ called⟩
  · intro report
    have before := kept.stage report
    have first := expired.stage report
    have second := follows.stage report
    have early : (handoffs.expire posted.postedAt).early.Sublist handoffs.early :=
      List.filter_sublist
    have fewer := heldFor_sublist early report
    have absent : heldFor [] report = 0 := rfl
    unfold reportsIn at before ⊢
    rw [named]
    simp only [noneArriving] at first second
    change _ ≤ (handoffs.books.expire posted.postedAt).stage report + 0 at second
    simp only
    omega

theorem posted_eq
    (notOpen : (handoffs.books.expire posted.postedAt).opened.get? posted.messageId = none) :
    handoffs.posted posted orchestrator workerRunId runOf =
      (handoffs.expire posted.postedAt).early.foldl
        (Handoffs.replay posted.messageId posted.postedAt runOf)
        ⟨postedBooks handoffs posted orchestrator workerRunId, []⟩ := by
  unfold Handoffs.posted
  simp only
  split
  · rename_i already
    have already : ((handoffs.books.expire posted.postedAt).opened.get?
      posted.messageId).isSome = true := already
    rw [notOpen] at already
    cases already
  · rfl

theorem Kept.post (kept : Kept past handoffs)
    (ordered : Ordered (past ++ [Call.posted posted orchestrator workerRunId runOf])) :
    Kept (past ++ [Call.posted posted orchestrator workerRunId runOf])
      (handoffs.posted posted orchestrator workerRunId runOf) := by
  have done := (kept.replaying ordered).all ordered.reports ordered.timely runOf
  rw [posted_eq (kept.notOpen ordered)]
  refine ⟨done.sound, done.room, done.unreadRoom, ?_, ?_⟩
  · intro held mem
    exact done.held held (List.mem_append_left _ mem)
  · intro report
    exact done.stage report

end Post

theorem Kept.step (kept : Kept past handoffs) {call : Call} (ordered : Ordered (past ++ [call])) :
    Kept (past ++ [call]) (handoffs.step call) := by
  cases call with
  | posted posted orchestrator workerRunId runOf => exact kept.post ordered
  | apply change now runOf => exact kept.apply ordered
  | runEnded runId shuttingDown now => exact kept.runEnded runId shuttingDown now
  | expire now => exact kept.expire now
  | endAll now => exact kept.endAll now

theorem kept_run {calls : List Call} (ordered : Ordered calls) :
    Kept calls (Handoffs.run calls) := by
  induction calls using List.reverseRecOn with
  | nil => exact kept_new
  | append_singleton past call ih =>
    rw [run_concat]
    exact (ih ordered.left).step ordered

end Posts

end AgentDeck.Handoff
