import AgentDeck.Handoff.Replayed
import AgentDeck.Lib.Runs

/-!
# Each hand-off ends once

Over every sequence of calls each task posted has one span once the daemon has shut down, each
report at most one read under it, and no hand-off outlives its age. A change that overtakes the post
of its task does what it does applied after it.
-/

namespace AgentDeck.Handoff

open SortedMap

/-! ## From call to call -/

theorem replay_follows (task : Text) (start : ℕ) (runOf : Text → Text → Option RunRef)
    (held : List (Change × ℕ)) : ∀ handoffs : Handoffs, ∃ arriving,
      Follows arriving handoffs.books
        (held.foldl (Handoffs.replay task start runOf) handoffs).books := by
  induction held with
  | nil => exact fun handoffs => ⟨_, Follows.refl _⟩
  | cons entry rest ih =>
    intro handoffs
    have first : ∃ arriving, Follows arriving handoffs.books
        (Handoffs.replay task start runOf handoffs entry).books := by
      unfold Handoffs.replay
      split
      · exact ⟨_, follows_applyKnown _ _ _ _⟩
      · exact ⟨_, Follows.refl _⟩
    rcases first with ⟨now, before⟩
    rcases ih (Handoffs.replay task start runOf handoffs entry) with ⟨arriving, later⟩
    exact ⟨_, before.trans later⟩

theorem step_follows (handoffs : Handoffs) (call : Call) :
    (∃ arriving, Follows arriving (handoffs.books.expire call.now) (handoffs.step call).books) ∨
    ∃ posted orchestrator workerRunId runOf arriving,
      call = .posted posted orchestrator workerRunId runOf ∧
      Follows arriving ((handoffs.books.expire call.now).open_ posted orchestrator workerRunId)
        (handoffs.step call).books := by
  cases call with
  | posted posted orchestrator workerRunId runOf =>
    simp only [Handoffs.step, Handoffs.posted]
    split
    · exact .inl ⟨_, Follows.refl _⟩
    · refine .inr ⟨posted, orchestrator, workerRunId, runOf, ?_⟩
      rcases replay_follows posted.messageId posted.postedAt runOf
        (handoffs.expire posted.postedAt).early ⟨_, []⟩ with ⟨arriving, later⟩
      exact ⟨_, rfl, (follows_evict _ _ _).trans later⟩
  | apply change now runOf =>
    have follows := follows_applyKnown (handoffs.books.expire now) change now runOf
    have same : (handoffs.apply change now runOf).books =
        ((handoffs.books.expire now).applyKnown change now runOf).1 := by
      unfold Handoffs.apply
      simp only
      split <;> rfl
    exact .inl ⟨_, same ▸ follows⟩
  | runEnded runId shuttingDown now =>
    exact .inl ⟨_, (follows_endAll _ now _ _).quiet (follows_forget _ _ _)⟩
  | expire now => exact .inl ⟨_, Follows.refl _⟩
  | endAll now =>
    refine .inl ⟨noneArriving, ?_⟩
    have follows := follows_endAll .daemonShutdown now (handoffs.expire now).books.order
      (handoffs.books.expire now)
    refine ⟨follows.finished, follows.order, Nat.zero_le _, ?_, follows.open_⟩
    intro report
    refine le_trans ?_ (follows.stage report)
    exact Nat.add_le_add_left (Nat.zero_le _) _

theorem endAll_opened (outcome : Outcome) (now : ℕ) (ids : List Text) (id : Text) :
    ∀ books : Books, (books.endAll outcome now ids).opened.get? id =
      if id ∈ ids then none else books.opened.get? id := by
  unfold Books.endAll
  induction ids with
  | nil => exact fun books => (if_neg List.not_mem_nil).symm
  | cons first rest ih =>
    intro books
    have step : (books.endTask first outcome now).opened.get? id =
        if id = first then none else books.opened.get? id := by
      unfold Books.endTask
      cases here : books.opened.get? first with
      | none => by_cases same : id = first <;> simp [same, here]
      | some handoff =>
        simp only [get?_erase]
        split <;> rfl
    rw [List.foldl_cons, ih, step]
    by_cases same : id = first
    · simp [same]
    · by_cases inRest : id ∈ rest <;> simp [same, inRest]

section Runs

variable {past : List Call} {handoffs : Handoffs}

theorem Kept.closed (kept : Kept past handoffs) (now : ℕ) (id : Text) :
    (handoffs.endAll now).books.opened.get? id = none := by
  have sound := kept.sound.expire now
  refine (endAll_opened .daemonShutdown now (handoffs.expire now).books.order id _).trans ?_
  split
  · rfl
  · rename_i notOpen
    have closed := mt (sound.openOrder id).mpr notOpen
    rw [Bool.not_eq_true, Option.isSome_eq_false_iff, Option.isNone_iff_eq_none] at closed
    exact closed

theorem bound_le (start : ℕ) : Books.bound start ≤ start + maxHandoffAgeNanos := by
  unfold Books.bound Usage.saturatingAdd
  exact min_le_left _ _

theorem bound_eq {start now : ℕ} (aged : start + maxHandoffAgeNanos ≤ now)
    (instant : now ≤ Usage.u64Max) : Books.bound start = start + maxHandoffAgeNanos := by
  unfold Books.bound Usage.saturatingAdd
  exact min_eq_left (aged.trans instant)

theorem Kept.within_age (kept : Kept past handoffs) (nodup : (tasksOf past).Nodup) (call : Call)
    {id : Text} {handoff : OpenHandoff}
    (here : (handoffs.step call).books.opened.get? id = some handoff) :
    call.now < handoff.start + maxHandoffAgeNanos := by
  have young : ∀ earlier, (handoffs.books.expire call.now).opened.get? id = some earlier →
      call.now < earlier.start + maxHandoffAgeNanos := by
    intro earlier was
    exact (kept.sound.within_age nodup was).trans_le (bound_le _)
  rcases step_follows handoffs call with ⟨arriving, follows⟩ |
    ⟨posted, orchestrator, workerRunId, runOf, arriving, rfl, follows⟩
  · rcases follows.open_ id handoff here with ⟨earlier, was, same⟩
    rw [← same]
    exact young earlier was
  · rcases follows.open_ id handoff here with ⟨earlier, was, same⟩
    rw [← same]
    simp only [Books.open_, get?_insert] at was
    split at was
    · cases was
      exact Nat.lt_add_of_pos_right handoffAge_pos
    · exact young earlier was

theorem Kept.aged (kept : Kept past handoffs) {call : Call} (ordered : Ordered (past ++ [call]))
    {id : Text} {handoff : OpenHandoff} (here : handoffs.books.opened.get? id = some handoff)
    (aged : handoff.start + maxHandoffAgeNanos ≤ call.now) :
    (handoffs.step call).books.opened.get? id = none ∧
      ∃ record, .handoff id .unknown record ∈ (handoffs.step call).books.finished ∧
        record.start = handoff.start ∧ record.finish = handoff.start + maxHandoffAgeNanos := by
  have instant := ordered.instants call (List.mem_append_right _ List.mem_cons_self)
  have bound := bound_eq aged instant
  rcases kept.sound.expire_spec ordered.left.tasks call.now with ⟨opened, spans⟩
  have emitted := spans id handoff here (by rw [bound]; exact aged)
  have gone : (handoffs.books.expire call.now).opened.get? id = none := by
    rw [opened, here, Option.filter_some]
    rw [bound]
    simpa using aged
  have times : (span id handoff .unknown (Books.bound handoff.start)).finish =
      handoff.start + maxHandoffAgeNanos := by
    rw [kept.sound.span_at_bound here, bound]
  rcases step_follows handoffs call with ⟨arriving, follows⟩ |
    ⟨posted, orchestrator, workerRunId, runOf, arriving, rfl, follows⟩
  · refine ⟨?_, _, follows.finished.subset emitted, rfl, times⟩
    cases after : (handoffs.step call).books.opened.get? id with
    | none => rfl
    | some state =>
      rcases follows.open_ id state after with ⟨earlier, was, _⟩
      rw [gone] at was
      cases was
  · refine ⟨?_, _, follows.finished.subset emitted, rfl, times⟩
    have other : id ≠ posted.messageId := by
      -- It was posted before.
      rintro rfl
      have once := kept.sound.once posted.messageId
      have tasks := ordered.tasks
      rw [tasksOf_concat] at tasks
      have fresh : posted.messageId ∉ tasksOf past := fun mem =>
        (List.nodup_append.mp tasks).2.2 _ mem _ List.mem_cons_self rfl
      rw [List.count_eq_zero_of_not_mem fresh, here] at once
      simp at once
    cases after : (handoffs.step (.posted posted orchestrator workerRunId runOf)).books.opened.get?
        id with
    | none => rfl
    | some state =>
      rcases follows.open_ id state after with ⟨earlier, was, _⟩
      simp only [Books.open_, get?_insert, if_neg other] at was
      rw [gone] at was
      cases was

end Runs

/-! ## The post and what overtook it -/

section Post

variable {past : List Call} {handoffs : Handoffs} {posted : Posted} {orchestrator : Option RunRef}
  {workerRunId : Option Text} {runOf : Text → Text → Option RunRef}

theorem expire_unread (books : Books) (now : ℕ) {id : Text} {unread : UnreadReport}
    (here : (books.expire now).unread.get? id = some unread) :
    now - unread.arrived < maxHandoffAgeNanos := by
  simp only [Books.expire, get?_filter] at here
  exact of_decide_eq_true (Option.filter_eq_some_iff.mp here).2

theorem Kept.phase (kept : Kept past handoffs)
    (ordered : Ordered (past ++ [Call.posted posted orchestrator workerRunId runOf]))
    (aside : Aside (posted.messageId :: reportsOf past posted.messageId) handoffs.books)
    (notReport : posted.messageId ∉ reportsOf past posted.messageId) :
    Phase posted.messageId (reportsOf past posted.messageId) posted.postedAt
      (postedBooks handoffs posted orchestrator workerRunId) := by
  have away := aside.expire posted.postedAt
  have sound := kept.sound.expire posted.postedAt
  have nodup := ordered.left.tasks
  refine Phase.evict ?_ _ _
  refine ⟨?_, ?_, (away _ List.mem_cons_self).2.1, ?_, ?_, ?_⟩
  · intro handoff here
    simp only [Books.open_, get?_insert, if_true, Option.some.injEq] at here
    rw [← here]
  · intro id mem
    have known := away id (List.mem_cons_of_mem _ mem)
    refine ⟨?_, known.2.2⟩
    have differ : id ≠ posted.messageId := fun same => notReport (same ▸ mem)
    simp only [Books.open_, get?_insert, if_neg differ]
    exact known.1
  · intro id unread here
    have here : (handoffs.books.expire posted.postedAt).unread.get? id = some unread := here
    have unknown : id ∉ reportsOf past posted.messageId := by
      intro mem
      rw [(away id (List.mem_cons_of_mem _ mem)).2.1] at here
      cases here
    refine ⟨?_, fun mem => absurd mem unknown⟩
    intro own
    have names := (sound.waiting id unread here).1
    rw [own] at names
    refine absurd ?_ unknown
    exact List.mem_map.mpr ⟨_, List.mem_filter.mpr ⟨names, decide_eq_true rfl⟩, rfl⟩
  · intro id handoff here
    simp only [Books.open_, get?_insert] at here
    split at here
    · cases here
      exact .inr rfl
    · exact .inl (kept.sound.within_age nodup here)
  · intro id unread here
    exact expire_unread handoffs.books posted.postedAt here

theorem replay_direct {task : Text} {start : ℕ} {reports : List Text}
    (nodup : (reportsIn past).Nodup)
    (timely : ∀ call ∈ past, max call.now start ≤ Books.bound start)
    (runOf : Text → Text → Option RunRef) (held : List (Change × ℕ)) :
    ∀ (later : List (Change × ℕ)) (replaying direct : Handoffs),
    Replaying past task start replaying held → Phase task reports start replaying.books →
    (∀ entry ∈ held, entry.1.about task reports = true → entry.2 ≤ start ∧
      ∀ report named producer, entry.1 = .report report named producer →
        report ∈ reports ∧ report ≠ task) →
    later.map Prod.fst =
      (held.filter fun entry => entry.1.about task reports).map Prod.fst →
    (∀ entry ∈ later, entry.2 ≤ start ∧ entry.2 < Books.bound start) →
    direct.books = replaying.books →
    (later.foldl (fun handoffs entry => handoffs.apply entry.1 entry.2 runOf) direct).books =
      (held.foldl (Handoffs.replay task start runOf) replaying).books := by
  induction held with
  | nil =>
    intro later replaying direct _ _ _ same _ books
    rw [List.filter_nil, List.map_nil, List.map_eq_nil_iff] at same
    rw [same]
    exact books
  | cons entry rest ih =>
    intro later replaying direct holds phase early same times books
    have stepped := holds.step nodup timely runOf
    have earlyRest := fun other mem => early other (List.mem_cons_of_mem _ mem)
    cases about : entry.1.about task reports with
    | false =>
      have passed : (Handoffs.replay task start runOf replaying entry).books =
          replaying.books := by
        unfold Handoffs.replay
        rw [phase.not_concerns about]
        rfl
      rw [List.filter_cons_of_neg (by simp [about])] at same
      exact ih later _ direct stepped (passed ▸ phase) earlyRest same times
        (books.trans passed.symm)
    | true =>
      rw [List.filter_cons_of_pos (by simp [about]), List.map_cons] at same
      rcases early entry List.mem_cons_self about with ⟨before, arrives⟩
      cases later with
      | nil => cases same
      | cons first others =>
        rw [List.map_cons, List.cons.injEq] at same
        rcases times first List.mem_cons_self with ⟨within, young⟩
        have replayed : (Handoffs.replay task start runOf replaying entry).books =
            (replaying.books.applyKnown entry.1 start runOf).1 := by
          unfold Handoffs.replay
          cases concerns : replaying.books.concerns task entry.1 with
          | true =>
            rw [if_pos rfl, max_eq_right before]
          | false =>
            exact (phase.passed about concerns start runOf).symm
        have applied : (direct.apply first.1 first.2 runOf).books =
            (replaying.books.applyKnown entry.1 start runOf).1 := by
          have calm := phase.expire holds.sound within young
          have expired : (direct.expire first.2).books = replaying.books := by
            unfold Handoffs.expire
            rw [books]
            exact calm
          unfold Handoffs.apply
          simp only [expired, same.1, phase.timeless about within runOf]
          split <;> rfl
        refine ih others _ _ stepped ?_ earlyRest same.2
          (fun other mem => times other (List.mem_cons_of_mem _ mem))
          (applied.trans replayed.symm)
        rw [replayed]
        exact phase.applyKnown about arrives runOf

theorem replay_free {task : Text} {start : ℕ} {reports : List Text}
    (runOf : Text → Text → Option RunRef) (held : List (Change × ℕ)) :
    ∀ handoffs : Handoffs, Phase task reports start handoffs.books →
    (∀ entry ∈ held, entry.1.about task reports = false) →
    (held.foldl (Handoffs.replay task start runOf) handoffs).books = handoffs.books := by
  induction held with
  | nil => exact fun _ _ _ => rfl
  | cons entry rest ih =>
    intro handoffs phase others
    have passed : Handoffs.replay task start runOf handoffs entry =
        ⟨handoffs.books, handoffs.early ++ [entry]⟩ := by
      unfold Handoffs.replay
      rw [phase.not_concerns (others entry List.mem_cons_self)]
      rfl
    rw [List.foldl_cons, passed]
    exact ih _ phase fun other mem => others other (List.mem_cons_of_mem _ mem)

/-- The changes about a task that overtook its post do what they do applied after it. -/
theorem overtaken_applied
    (ordered : Ordered (past ++ [Call.posted posted orchestrator workerRunId runOf]))
    (overtaken : Overtaken past posted.messageId posted.postedAt) {later : List (Change × ℕ)}
    (same : later.map Prod.fst = (seenAbout posted.messageId
      (reportsOf past posted.messageId) past).map Prod.fst)
    (times : ∀ entry ∈ later, entry.2 ≤ posted.postedAt ∧
      entry.2 < Books.bound posted.postedAt) :
    (Handoffs.run (past ++ [Call.posted posted orchestrator workerRunId runOf])).books =
      (Handoffs.run (past.map (Call.ticked posted.messageId (reportsOf past posted.messageId)) ++
        .posted posted orchestrator workerRunId runOf ::
          later.map fun entry => .apply entry.1 entry.2 runOf)).books := by
  have kept := kept_run ordered.left
  have beside := beside_run overtaken past [] (List.append_nil past).symm
  have waits : ∀ entry ∈ seenAbout posted.messageId (reportsOf past posted.messageId) past,
      entry.2 ≤ posted.postedAt ∧ posted.postedAt - entry.2 < earlyNoticeAgeNanos := by
    intro entry mem
    rcases mem_seenAbout mem with ⟨about, before, heldRun, after, split⟩
    have wait := overtaken.waits before entry.1 entry.2 heldRun after split about
    exact ⟨wait.1, wait.2.1⟩
  have aged := beside.expire fun entry mem => (waits entry mem).2
  have notReport : posted.messageId ∉ reportsIn past :=
    overtaken.apart posted.messageId List.mem_cons_self
  have notOwn : posted.messageId ∉ reportsOf past posted.messageId := by
    intro mem
    rcases List.mem_map.mp mem with ⟨named, both, is⟩
    exact notReport (List.mem_map.mpr ⟨named, (List.mem_filter.mp both).1, is⟩)
  have phase : Phase posted.messageId (reportsOf past posted.messageId) posted.postedAt
      (postedBooks (Handoffs.run past) posted orchestrator workerRunId) :=
    kept.phase ordered beside.aside notOwn
  have replaying : Replaying (past ++ [Call.posted posted orchestrator workerRunId runOf])
      posted.messageId posted.postedAt
      ⟨postedBooks (Handoffs.run past) posted orchestrator workerRunId, []⟩
      ((Handoffs.run past).expire posted.postedAt).early := kept.replaying ordered
  have sameBooks : postedBooks (Handoffs.run (past.map (Call.ticked posted.messageId
      (reportsOf past posted.messageId)))) posted orchestrator workerRunId =
      postedBooks (Handoffs.run past) posted orchestrator workerRunId := by
    unfold postedBooks
    rw [beside.books]
  have whole : Handoffs.run (past ++ [Call.posted posted orchestrator workerRunId runOf]) =
      ((Handoffs.run past).expire posted.postedAt).early.foldl
        (Handoffs.replay posted.messageId posted.postedAt runOf)
        ⟨postedBooks (Handoffs.run past) posted orchestrator workerRunId, []⟩ := by
    rw [run_concat]
    exact posted_eq (kept.notOpen ordered)
  have direct : (Handoffs.run (past.map (Call.ticked posted.messageId
      (reportsOf past posted.messageId)) ++
        [.posted posted orchestrator workerRunId runOf])).books =
      postedBooks (Handoffs.run past) posted orchestrator workerRunId := by
    rw [run_concat]
    refine (congrArg Handoffs.books (posted_eq ?_)).trans ?_
    · rw [beside.books]
      exact kept.notOpen ordered
    · rw [sameBooks]
      refine replay_free runOf _ _ phase ?_
      intro entry mem
      have free := aged.free
      rw [List.filter_eq_nil_iff] at free
      exact Bool.eq_false_iff.mpr (free entry mem)
  rw [whole]
  symm
  rw [List.append_cons]
  unfold Handoffs.run at direct ⊢
  rw [List.foldl_append, List.foldl_map]
  refine replay_direct ordered.reports ordered.timely runOf _ later _ _ replaying phase ?_ ?_ times
    direct
  · intro entry mem about
    have seen : entry ∈ seenAbout posted.messageId (reportsOf past posted.messageId) past := by
      rw [← aged.held]
      exact List.mem_filter.mpr ⟨mem, about⟩
    refine ⟨(waits entry seen).1, ?_⟩
    intro report named producer is
    rcases mem_seenAbout seen with ⟨_, before, heldRun, after, split⟩
    rw [is] at split about
    have called : .apply (.report report named producer) entry.2 heldRun ∈ past := by
      rw [split]
      exact List.mem_append_right _ List.mem_cons_self
    have names := mem_namedIn called
    have own : named = posted.messageId := of_decide_eq_true about
    refine ⟨List.mem_map.mpr ⟨_, List.mem_filter.mpr ⟨names, decide_eq_true own⟩, rfl⟩, ?_⟩
    intro isTask
    exact notReport (isTask ▸ List.mem_map_of_mem names)
  · rw [same, ← aged.held]
    rfl

end Post

/-! ## Every sequence of calls -/

/-- The order holds the open tasks as they were posted, and the unread order the unread reports. -/
structure Tidy (tasks : List Text) (books : Books) : Prop where
  openOrder : ∀ id, id ∈ books.order ↔ (books.opened.get? id).isSome
  posting : books.order.Sublist tasks
  nodup : books.order.Nodup
  room : books.order.length ≤ maxOpenHandoffs
  unreadOrder : ∀ id, id ∈ books.unreadOrder ↔ (books.unread.get? id).isSome
  unreadNodup : books.unreadOrder.Nodup
  unreadRoom : books.unreadOrder.length ≤ maxUnreadReports

/-- Whatever is called and in whichever order: the books stay tidy, each task posted has its one
span after the shutdown, each report at most one read under its hand-off from where that ended, no
hand-off outlives its age, and what overtakes a post is not lost. -/
theorem handoffs_end_once {calls : List Call} (ordered : Ordered calls) :
    (∀ (past future : List Call), calls = past ++ future →
      Tidy (tasksOf past) (Handoffs.run past).books) ∧
    (∀ (past : List Call) now future, calls = past ++ Call.endAll now :: future →
      ∀ task ∈ tasksOf past,
      (Handoffs.run (past ++ [Call.endAll now])).books.spansOf task = 1) ∧
    (∀ task outcome record, Emitted.handoff task outcome record ∈
      (Handoffs.run calls).books.finished →
      record.WellTimed) ∧
    (∀ report, (Handoffs.run calls).books.readsOf report ≤ 1) ∧
    (∀ report task record, Emitted.read report task record ∈ (Handoffs.run calls).books.finished →
      (report, task) ∈ namedIn calls ∧ ∃ parent, record.parentSpanId = some parent ∧
        EndedAt (Handoffs.run calls).books.finished task record.traceId parent record.start) ∧
    (∀ (past : List Call) call future, calls = past ++ call :: future →
      (∀ id handoff, (Handoffs.run (past ++ [call])).books.opened.get? id = some handoff →
        call.now < handoff.start + maxHandoffAgeNanos) ∧
      ∀ id handoff, (Handoffs.run past).books.opened.get? id = some handoff →
        handoff.start + maxHandoffAgeNanos ≤ call.now →
        (Handoffs.run (past ++ [call])).books.opened.get? id = none ∧
          ∃ record, Emitted.handoff id .unknown record ∈
            (Handoffs.run (past ++ [call])).books.finished ∧
            record.start = handoff.start ∧ record.finish = handoff.start + maxHandoffAgeNanos) ∧
    ∀ (past : List Call) posted orchestrator workerRunId runOf future (later : List (Change × ℕ)),
      calls = past ++ Call.posted posted orchestrator workerRunId runOf :: future →
      Overtaken past posted.messageId posted.postedAt →
      later.map Prod.fst = (seenAbout posted.messageId
        (reportsOf past posted.messageId) past).map Prod.fst →
      (∀ entry ∈ later, entry.2 ≤ posted.postedAt ∧ entry.2 < Books.bound posted.postedAt) →
      (Handoffs.run (past ++ [Call.posted posted orchestrator workerRunId runOf])).books =
        (Handoffs.run (past.map
          (Call.ticked posted.messageId (reportsOf past posted.messageId)) ++
            Call.posted posted orchestrator workerRunId runOf ::
              later.map fun entry => Call.apply entry.1 entry.2 runOf)).books := by
  have upTo : ∀ {past future}, calls = past ++ future → Ordered past := by
    intro past future split
    rw [split] at ordered
    exact ordered.left
  have upToCall : ∀ {past call future}, calls = past ++ call :: future →
      Ordered (past ++ [call]) := by
    intro past call future split
    exact upTo (split.trans (List.append_cons past call future))
  have kept := kept_run ordered
  refine ⟨?_, ?_, kept.sound.spans, ?_, kept.sound.reads, ?_, ?_⟩
  · intro past future split
    have before := kept_run (upTo split)
    exact ⟨before.sound.openOrder, before.sound.posting,
      (upTo split).tasks.sublist before.sound.posting, before.room, before.sound.unreadOrder,
      before.sound.unreadNodup, before.unreadRoom⟩
  · intro past now future split task mem
    have after := kept_run (upToCall split)
    have once := after.sound.once task
    have tasks := (upToCall split).tasks
    have closed : (Handoffs.run (past ++ [Call.endAll now])).books.opened.get? task = none := by
      rw [run_concat]
      exact (kept_run (upTo split)).closed now task
    rw [closed, List.count_eq_one_of_mem tasks] at once
    · simpa using once
    · rw [tasksOf_concat]
      exact List.mem_append_left _ mem
  · intro report
    have stage := kept.stage report
    have once := List.nodup_iff_count_le_one.mp ordered.reports report
    unfold Books.stage at stage
    omega
  · intro past call future split
    have before := kept_run (upTo split)
    rw [run_concat]
    refine ⟨?_, ?_⟩
    · intro id handoff here
      exact before.within_age (upTo split).tasks call here
    · intro id handoff here aged
      exact before.aged (upToCall split) here aged
  · intro past posted orchestrator workerRunId runOf future later split overtaken same times
    exact overtaken_applied (upToCall split) overtaken same times

/-! ## A fast worker -/

def noRun : Text → Text → Option RunRef := fun _ _ => none

/-- The worker takes its task and reports, and the orchestrator reads the report, before the post is
told. -/
def fastWorker : List Call :=
  [.apply (.taken ['t']) 12 noRun, .apply (.report ['r'] ['t'] (['w'], ['a'])) 13 noRun,
    .apply (.acknowledged ['r']) 14 noRun]

def fastPost : Posted := ⟨['t'], ['o'], ['c', 'o', 'd', 'e', 'r'], 20⟩

def postFirst : List Call :=
  [.expire 12, .expire 13, .expire 14, .posted fastPost none none noRun,
    .apply (.taken ['t']) 20 noRun, .apply (.report ['r'] ['t'] (['w'], ['a'])) 20 noRun,
    .apply (.acknowledged ['r']) 20 noRun]

theorem prompt_of_checks {calls : List Call}
    (checked : Runs.checks (fun past call => past ++ [call])
      (fun past call =>
        match call with
        | .posted posted _ _ _ =>
          past.all fun earlier => decide (earlier.now < posted.postedAt + maxHandoffAgeNanos)
        | _ => true) [] calls = true) :
    ∀ past posted orchestrator workerRunId runOf future,
      calls = past ++ Call.posted posted orchestrator workerRunId runOf :: future →
        ∀ call ∈ past, call.now < posted.postedAt + maxHandoffAgeNanos := by
  intro past posted orchestrator workerRunId runOf future split call mem
  have here := Runs.checked_after _ checked split
  exact of_decide_eq_true (List.all_eq_true.mp here call mem)

/-- A change about the task is seen shortly before its post, and every call after it comes soon. -/
def soon (task : Text) (reports : List Text) (start : ℕ) (past : List Call) (call : Call) : Bool :=
  (call.about? task reports).all (fun held =>
    decide (held.2 ≤ start) && decide (start - held.2 < earlyNoticeAgeNanos)) &&
  (seenAbout task reports past).all fun held =>
    decide (call.now - held.2 < earlyNoticeAgeNanos) &&
      match call with
      | .endAll _ => false
      | _ => true

theorem waits_of_checks {calls : List Call} {task : Text} {reports : List Text} {start : ℕ}
    (checked : Runs.checks (fun past call => past ++ [call]) (soon task reports start) [] calls =
      true) :
    ∀ past change seen runOf future, calls = past ++ Call.apply change seen runOf :: future →
      change.about task reports = true → seen ≤ start ∧ start - seen < earlyNoticeAgeNanos ∧
        ∀ call ∈ future, call.now - seen < earlyNoticeAgeNanos ∧ ∀ now, call ≠ .endAll now := by
  intro past change seen runOf future split about
  have here := Runs.checked_after _ checked split
  simp only [soon, Call.about?, about, if_true, Option.all_some, Bool.and_eq_true,
    decide_eq_true_eq] at here
  refine ⟨here.1.1, here.1.2, ?_⟩
  intro call mem
  rcases List.append_of_mem mem with ⟨between, after, shape⟩
  have splitLater : calls =
      (past ++ Call.apply change seen runOf :: between) ++ call :: after := by
    rw [split, shape]
    simp
  have later := Runs.checked_after _ checked splitLater
  simp only [soon, Bool.and_eq_true, List.all_eq_true, decide_eq_true_eq] at later
  have held : (change, seen) ∈ seenAbout task reports
      (past ++ Call.apply change seen runOf :: between) := by
    refine List.mem_filterMap.mpr ⟨.apply change seen runOf, by simp, ?_⟩
    simp only [Call.about?, about, if_true]
  rcases later.2 _ held with ⟨young, notShutdown⟩
  refine ⟨young, ?_⟩
  rintro now rfl
  cases notShutdown

theorem fast_worker_reads_once :
    (Handoffs.run (fastWorker ++ [Call.posted fastPost none none noRun])).books =
      (Handoffs.run postFirst).books ∧
    (Handoffs.run (fastWorker ++ [Call.posted fastPost none none noRun])).books.spansOf ['t'] = 1 ∧
    (Handoffs.run (fastWorker ++ [Call.posted fastPost none none noRun])).books.readsOf
      ['r'] = 1 := by
  have ordered : Ordered (fastWorker ++ [Call.posted fastPost none none noRun]) :=
    ⟨by decide, by decide, by decide +kernel, prompt_of_checks (by decide +kernel)⟩
  have overtaken : Overtaken fastWorker fastPost.messageId fastPost.postedAt := by
    refine ⟨ordered.left, by decide, by decide, waits_of_checks (by decide +kernel), ?_⟩
    intro past call future split held lost
    have absent := Runs.checked_after
      (fun past call => decide ((Handoffs.run past).lost call = [])) (by decide +kernel) split
    rw [of_decide_eq_true absent] at lost
    cases lost
  have once := handoffs_end_once ordered
  refine ⟨?_, by decide +kernel, by decide +kernel⟩
  exact once.2.2.2.2.2.2 fastWorker fastPost none none noRun [] [(.taken ['t'], 20),
    (.report ['r'] ['t'] (['w'], ['a']), 20), (.acknowledged ['r'], 20)] rfl overtaken
    (by decide) (by decide +kernel)

/-- When the task in the hand-off that these calls leave open was taken. -/
def takenAt (task : Text) (calls : List Call) : Option (Option ℕ) :=
  ((Handoffs.run calls).books.opened.get? task).map OpenHandoff.taken

/-- The daemon's clock is past the notice's age before the post, stamped earlier, is told. -/
def toldLate : List Call :=
  [.apply (.taken ['t']) 12 noRun, .expire (12 + earlyNoticeAgeNanos)]

/-- Another task's notice, and more of this task's than may wait. -/
def crowdedOut : List Call :=
  .apply (.taken ['u']) 12 noRun ::
    (List.replicate maxEarlyNotices (.apply (.taken ['t']) 12 noRun) ++
      [.posted { fastPost with messageId := ['u'] } none none noRun])

/-- A notice that came just before the stamp of its post is lost when the calls between them go past
its age or shut the hand-offs down; and one of another task is lost to the notices of this one. -/
theorem notice_lost_between :
    (Ordered (toldLate ++ [.posted fastPost none none noRun]) ∧
      fastPost.postedAt - 12 < earlyNoticeAgeNanos ∧
        takenAt ['t'] (toldLate ++ [.posted fastPost none none noRun]) = some none ∧
          takenAt ['t'] (toldLate.map (Call.ticked ['t'] []) ++
            [.posted fastPost none none noRun, .apply (.taken ['t']) 20 noRun]) =
              some (some 20)) ∧
      takenAt ['t'] [.apply (.taken ['t']) 12 noRun, .endAll 13,
        .posted fastPost none none noRun] = some none ∧
        takenAt ['u'] (crowdedOut ++ [.posted fastPost none none noRun]) = some none ∧
          takenAt ['u'] (crowdedOut.map (Call.ticked ['t'] []) ++
            [.posted fastPost none none noRun]) = some (some 20) := by
  refine ⟨⟨⟨by decide, by decide, by decide +kernel, prompt_of_checks (by decide +kernel)⟩, ?_⟩, ?_⟩
  · decide +kernel
  · decide +kernel

end AgentDeck.Handoff
