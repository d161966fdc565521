import AgentDeck.Handoff.Follows

/-!
# Every sequence of calls

What the books and the held changes keep from call to call, when no task is posted twice, no report
arrives twice, and a post is made within the age bound of what was seen before it.
-/

namespace AgentDeck.Handoff

open SortedMap

/-! ## What was called -/

def Call.task? : Call → Option Text
  | .posted task _ _ _ => some task.messageId
  | _ => none

def Call.named? : Call → Option (Text × Text)
  | .apply (.report report task _) _ _ => some (report, task)
  | _ => none

def tasksOf (calls : List Call) : List Text := calls.filterMap Call.task?

def namedIn (calls : List Call) : List (Text × Text) := calls.filterMap Call.named?

def reportsIn (calls : List Call) : List Text := (namedIn calls).map Prod.fst

/-- No task is posted twice and no report arrives twice, instants are 64-bit numbers, and a post is
stamped less than the age bound before anything already seen. -/
structure Ordered (calls : List Call) : Prop where
  tasks : (tasksOf calls).Nodup
  reports : (reportsIn calls).Nodup
  instants : ∀ call ∈ calls, call.now ≤ Usage.u64Max
  prompt : ∀ past posted orchestrator workerRunId runOf future,
    calls = past ++ Call.posted posted orchestrator workerRunId runOf :: future →
      ∀ call ∈ past, call.now < posted.postedAt + maxHandoffAgeNanos

theorem tasksOf_concat (past : List Call) (call : Call) :
    tasksOf (past ++ [call]) = tasksOf past ++ call.task?.toList := by
  unfold tasksOf
  rw [List.filterMap_append]
  cases call <;> rfl

theorem namedIn_concat (past : List Call) (call : Call) :
    namedIn (past ++ [call]) = namedIn past ++ call.named?.toList := by
  unfold namedIn
  rw [List.filterMap_append]
  cases call with
  | apply change now runOf => cases change <;> rfl
  | _ => rfl

theorem run_concat (past : List Call) (call : Call) :
    Handoffs.run (past ++ [call]) = (Handoffs.run past).step call := by
  unfold Handoffs.run
  rw [List.foldl_append]
  rfl

theorem Ordered.left {past future : List Call} (ordered : Ordered (past ++ future)) :
    Ordered past := by
  refine ⟨?_, ?_, ?_, ?_⟩
  · have tasks := ordered.tasks
    unfold tasksOf at tasks
    rw [List.filterMap_append] at tasks
    exact (List.nodup_append.mp tasks).1
  · have reports := ordered.reports
    unfold reportsIn namedIn at reports
    rw [List.filterMap_append, List.map_append] at reports
    exact (List.nodup_append.mp reports).1
  · intro call mem
    exact ordered.instants call (List.mem_append_left _ mem)
  · intro before posted orchestrator workerRunId runOf after split
    refine ordered.prompt before posted orchestrator workerRunId runOf (after ++ future) ?_
    rw [split, List.append_assoc, List.cons_append]

/-! ## The held changes -/

/-- How often the held changes bring `report`. -/
def heldFor (early : List (Change × ℕ)) (report : Text) : ℕ :=
  (early.map fun held => held.1.arriving report).sum

theorem heldFor_append (left right : List (Change × ℕ)) (report : Text) :
    heldFor (left ++ right) report = heldFor left report + heldFor right report := by
  simp [heldFor]

theorem heldFor_sublist {left right : List (Change × ℕ)} (sublist : left.Sublist right)
    (report : Text) : heldFor left report ≤ heldFor right report :=
  (sublist.map _).sum_le_sum fun _ _ => Nat.zero_le _

/-- What holds of the books and the held changes after the calls `past`. -/
structure Kept (past : List Call) (handoffs : Handoffs) : Prop where
  sound : Sound (tasksOf past) (namedIn past) handoffs.books
  room : handoffs.books.order.length ≤ maxOpenHandoffs
  unreadRoom : handoffs.books.unreadOrder.length ≤ maxUnreadReports
  held : ∀ held ∈ handoffs.early, ∃ runOf, .apply held.1 held.2 runOf ∈ past
  stage : ∀ report, handoffs.books.stage report + heldFor handoffs.early report ≤
    (reportsIn past).count report

theorem kept_new : Kept [] Handoffs.new :=
  ⟨sound_new, Nat.zero_le _, Nat.zero_le _, nofun, fun _ => le_rfl⟩

section Steps

variable {past : List Call} {handoffs : Handoffs}

theorem Change.arriving_count (past : List Call) (change : Change) (now : ℕ)
    (runOf : Text → Text → Option RunRef) (report : Text) :
    (reportsIn (past ++ [Call.apply change now runOf])).count report =
      (reportsIn past).count report + change.arriving report := by
  unfold reportsIn
  rw [namedIn_concat, List.map_append, List.count_append]
  cases change with
  | report other task producer =>
    simp only [Call.named?, Option.toList_some, List.map_cons, List.map_nil, Change.arriving,
      List.count_singleton, beq_iff_eq]
  | _ => rfl

section

variable (kept : Kept past handoffs)

include kept

theorem Kept.quiet {after : Handoffs} (call : Call) (noTask : call.task? = none)
    (noReport : call.named? = none) (sound : Sound (tasksOf past) (namedIn past) after.books)
    (follows : Follows noneArriving handoffs.books after.books)
    (early : after.early.Sublist handoffs.early) : Kept (past ++ [call]) after := by
  refine ⟨?_, follows.order.trans kept.room, ?_, ?_, ?_⟩
  · rw [tasksOf_concat, namedIn_concat, noTask, noReport, Option.toList_none, List.append_nil,
      Option.toList_none, List.append_nil]
    exact sound
  · exact follows.unread.trans (max_le kept.unreadRoom le_rfl)
  · intro held mem
    rcases kept.held held (early.subset mem) with ⟨runOf, called⟩
    exact ⟨runOf, List.mem_append_left _ called⟩
  · intro report
    have before := kept.stage report
    have step := follows.stage report
    have fewer := heldFor_sublist early report
    unfold reportsIn at before ⊢
    rw [namedIn_concat, noReport, Option.toList_none, List.append_nil]
    simp only [noneArriving] at step
    omega

theorem Kept.expire (now : ℕ) : Kept (past ++ [Call.expire now]) (handoffs.expire now) :=
  kept.quiet _ rfl rfl (kept.sound.expire now) (follows_expire _ _) List.filter_sublist

theorem Kept.runEnded (runId : Text) (shuttingDown : Bool) (now : ℕ) :
    Kept (past ++ [Call.runEnded runId shuttingDown now])
      (handoffs.runEnded runId shuttingDown now) := by
  refine kept.quiet _ rfl rfl ?_ ?_ List.filter_sublist
  · exact ((kept.sound.expire now).endAll _ now _).forget _
  · exact ((follows_expire _ now).quiet (follows_endAll _ now _ _)).quiet (follows_forget _ _ _)

theorem Kept.endAll (now : ℕ) : Kept (past ++ [Call.endAll now]) (handoffs.endAll now) := by
  have sound := (kept.sound.expire now).endAll .daemonShutdown now
    (handoffs.expire now).books.order
  have follows := (follows_expire handoffs.books now).quiet
    (follows_endAll .daemonShutdown now (handoffs.expire now).books.order _)
  refine kept.quiet _ rfl rfl ?_ ?_ (List.nil_sublist _)
  · exact ⟨sound.openOrder, sound.posting, sound.once, fun id => by simp [Handoffs.endAll],
      List.nodup_nil, sound.timed, sound.spans, nofun, sound.reads⟩
  · refine ⟨follows.finished, follows.order, Nat.zero_le _, ?_, follows.open_⟩
    intro report
    refine le_trans ?_ (follows.stage report)
    exact Nat.add_le_add_left (Nat.zero_le _) _

end

theorem Sound.within_age {tasks : List Text} {named : List (Text × Text)} {books : Books}
    (sound : Sound tasks named books) (nodup : tasks.Nodup) {now : ℕ} {id : Text}
    {handoff : OpenHandoff} (here : (books.expire now).opened.get? id = some handoff) :
    now < Books.bound handoff.start := by
  rw [(sound.expire_spec nodup now).1] at here
  simpa using (Option.filter_eq_some_iff.mp here).2

theorem stage_eq_zero {books : Books} {report : Text} (zero : books.stage report = 0) :
    books.unread.get? report = none := by
  unfold Books.stage at zero
  cases here : books.unread.get? report with
  | none => rfl
  | some unread =>
    rw [here, Option.elim_some] at zero
    omega

theorem Change.arriving_report (report task : Text) (producer : Text × Text) :
    (Change.report report task producer).arriving report = 1 := if_pos rfl

/-- A change is applied, or held back as an early notice. -/
theorem Kept.apply (kept : Kept past handoffs) {change : Change} {now : ℕ}
    {runOf : Text → Text → Option RunRef}
    (ordered : Ordered (past ++ [Call.apply change now runOf])) :
    Kept (past ++ [Call.apply change now runOf]) (handoffs.apply change now runOf) := by
  have nodup := ordered.left.tasks
  have sameTasks : tasksOf (past ++ [Call.apply change now runOf]) = tasksOf past := by
    rw [tasksOf_concat]
    exact List.append_nil _
  have count := Change.arriving_count past change now runOf
  have expired := follows_expire handoffs.books now
  have sound : Sound (tasksOf (past ++ [Call.apply change now runOf]))
      (namedIn (past ++ [Call.apply change now runOf])) (handoffs.books.expire now) := by
    rw [sameTasks, namedIn_concat]
    exact (kept.sound.expire now).mono
  have early : (handoffs.expire now).early.Sublist handoffs.early := List.filter_sublist
  have stage : ∀ report, (handoffs.books.expire now).stage report +
      heldFor (handoffs.expire now).early report ≤ (reportsIn past).count report := by
    intro report
    have before := kept.stage report
    have step := expired.stage report
    have fewer := heldFor_sublist early report
    simp only [noneArriving] at step
    omega
  have applied : Sound (tasksOf (past ++ [Call.apply change now runOf]))
      (namedIn (past ++ [Call.apply change now runOf]))
      ((handoffs.books.expire now).applyKnown change now runOf).1 := by
    refine sound.applyKnown ?_ ?_ runOf
    · intro id handoff _ _ here
      exact le_of_lt (kept.sound.within_age nodup here)
    · intro report task producer is
      subst is
      refine ⟨?_, stage_eq_zero ?_⟩
      · rw [namedIn_concat]
        exact List.mem_append_right _ List.mem_cons_self
      · have once := List.nodup_iff_count_le_one.mp ordered.reports report
        rw [count, Change.arriving_report] at once
        have before := stage report
        omega
  have follows := follows_applyKnown (handoffs.books.expire now) change now runOf
  have heldBefore : ∀ held ∈ (handoffs.expire now).early,
      ∃ runOf', .apply held.1 held.2 runOf' ∈ past ++ [Call.apply change now runOf] := by
    intro held mem
    rcases kept.held held (early.subset mem) with ⟨runOf', called⟩
    exact ⟨runOf', List.mem_append_left _ called⟩
  have room := follows.order.trans (expired.order.trans kept.room)
  have unreadRoom : ((handoffs.books.expire now).applyKnown change now runOf).1.unreadOrder.length ≤
      maxUnreadReports :=
    follows.unread.trans (max_le (expired.unread.trans (max_le kept.unreadRoom le_rfl)) le_rfl)
  unfold Handoffs.apply
  simp only
  split
  · rename_i known
    have known : ((handoffs.books.expire now).applyKnown change now runOf).2 := known
    rw [if_pos known] at follows
    refine ⟨applied, room, unreadRoom, heldBefore, ?_⟩
    intro report
    have before := stage report
    have step := follows.stage report
    rw [count]
    simp only [Handoffs.expire] at before ⊢
    omega
  · rename_i unknown
    have unknown : ¬ ((handoffs.books.expire now).applyKnown change now runOf).2 = true := unknown
    rw [if_neg unknown] at follows
    refine ⟨applied, room, unreadRoom, ?_, ?_⟩
    · intro held mem
      rcases List.mem_append.mp (List.mem_of_mem_drop mem) with old | new
      · exact heldBefore held old
      · rw [List.mem_singleton.mp new]
        exact ⟨runOf, List.mem_append_right _ List.mem_cons_self⟩
    · intro report
      have before := stage report
      have step := follows.stage report
      have fewer := heldFor_sublist (List.drop_sublist
        (((handoffs.expire now).early ++ [(change, now)]).length - maxEarlyNotices)
        ((handoffs.expire now).early ++ [(change, now)])) report
      rw [heldFor_append] at fewer
      have one : heldFor [(change, now)] report = change.arriving report := by simp [heldFor]
      rw [count]
      simp only [Handoffs.expire, noneArriving] at before step fewer ⊢
      omega

end Steps

end AgentDeck.Handoff
