import AgentDeck.Handoff.Overtaken

/-!
# The calls, with and without the changes about a task

Before the post of a task, taking the changes about it out of the calls leaves the books, and the
other held changes as long as another post may find them.
-/

namespace AgentDeck.Handoff

open SortedMap

/-- The state after the calls, beside that after the same calls without the changes about the task,
which are `seen`. -/
structure Beside (task : Text) (reports : List Text) (seen : List (Change × ℕ)) (more : Prop)
    (whole without : Handoffs) : Prop where
  aside : Aside (task :: reports) whole.books
  books : without.books = whole.books
  held : whole.early.filter (fun entry => entry.1.about task reports) = seen
  free : without.early.filter (fun entry => entry.1.about task reports) = []
  rest : more → without.early = whole.early.filter fun entry => !entry.1.about task reports

/-- A handoff is posted among the calls. -/
def Posts (calls : List Call) : Prop := ∃ later ∈ calls, later.task? ≠ none

section Beside

variable {task : Text} {reports : List Text} {seen : List (Change × ℕ)} {more : Prop}
  {whole without : Handoffs}

theorem filter_comm {α : Type*} (keep other : α → Bool) (list : List α) :
    (list.filter keep).filter other = (list.filter other).filter keep := by
  rw [List.filter_filter, List.filter_filter]
  exact List.filter_congr fun _ _ => Bool.and_comm _ _

section

variable (beside : Beside task reports seen more whole without)

include beside

/-- An expiry drops no notice that is still young. -/
theorem Beside.expire {now : ℕ} (young : ∀ entry ∈ seen, now - entry.2 < earlyNoticeAgeNanos) :
    Beside task reports seen more (whole.expire now) (without.expire now) := by
  refine ⟨beside.aside.expire now, ?_, ?_, ?_, ?_⟩
  · simp only [Handoffs.expire, beside.books]
  · simp only [Handoffs.expire]
    rw [filter_comm, beside.held, List.filter_eq_self]
    intro entry mem
    exact decide_eq_true (young entry mem)
  · simp only [Handoffs.expire]
    rw [filter_comm, beside.free, List.filter_nil]
  · intro later
    simp only [Handoffs.expire]
    rw [beside.rest later, filter_comm]

theorem Beside.imp {fewer : Prop} (implies : fewer → more) :
    Beside task reports seen fewer whole without :=
  { beside with rest := fun holds => beside.rest (implies holds) }

omit beside in
theorem filter_drop {keep : Change × ℕ → Bool} {list : List (Change × ℕ)} {count : ℕ}
    (lost : ∀ entry ∈ list.take count, keep entry = false) :
    (list.drop count).filter keep = list.filter keep := by
  have split := List.take_append_drop count list
  have absent : (list.take count).filter keep = [] := by
    rw [List.filter_eq_nil_iff]
    intro entry mem
    rw [lost entry mem]
    exact Bool.false_ne_true
  calc (list.drop count).filter keep
      = (list.take count).filter keep ++ (list.drop count).filter keep := by rw [absent]; rfl
    _ = (list.take count ++ list.drop count).filter keep := (List.filter_append _ _).symm
    _ = list.filter keep := by rw [split]

omit beside in
theorem drop_nothing {list : List (Change × ℕ)} {entry : Change × ℕ} {count : ℕ}
    (absent : ∀ other ∈ (list ++ [entry]).take count, False) : count = 0 := by
  have empty := List.eq_nil_iff_forall_not_mem.mpr absent
  rw [List.take_eq_nil_iff] at empty
  refine empty.resolve_right ?_
  simp

/-- A change about the task is held back on one side and not applied on the other. -/
theorem Beside.hold {change : Change} {now : ℕ} {runOf : Text → Text → Option RunRef} {fewer : Prop}
    (about : change.about task reports)
    (young : ∀ entry ∈ seen, now - entry.2 < earlyNoticeAgeNanos)
    (lost : ∀ entry ∈ whole.lost (.apply change now runOf),
      entry.1.about task reports = false ∧ ¬ fewer) (implies : fewer → more) :
    Beside task reports (seen ++ [(change, now)]) fewer (whole.apply change now runOf)
      (without.expire now) := by
  have aged := beside.expire young
  have held := aged.aside.unknown about now runOf
  have shape : whole.apply change now runOf = ⟨(whole.expire now).books,
      ((whole.expire now).early ++ [(change, now)]).drop
        (((whole.expire now).early ++ [(change, now)]).length - maxEarlyNotices)⟩ := by
    unfold Handoffs.apply
    simp only [held]
    rfl
  have dropped : ∀ entry ∈ ((whole.expire now).early ++ [(change, now)]).take
      (((whole.expire now).early ++ [(change, now)]).length - maxEarlyNotices),
      entry.1.about task reports = false ∧ ¬ fewer := by
    intro entry mem
    refine lost entry ?_
    unfold Handoffs.lost
    simp only [held]
    exact mem
  rw [shape]
  refine ⟨aged.aside, aged.books, ?_, aged.free, ?_⟩
  · rw [filter_drop fun entry mem => (dropped entry mem).1, List.filter_append, aged.held]
    simp [about]
  · intro later
    have absent : ((whole.expire now).early ++ [(change, now)]).length - maxEarlyNotices = 0 :=
      drop_nothing fun entry mem => (dropped entry mem).2 later
    rw [absent, List.drop_zero, List.filter_append, ← aged.rest (implies later)]
    simp [about]

/-- A change about another task does the same on both sides. -/
theorem Beside.apply {change : Change}
    {now : ℕ} {runOf : Text → Text → Option RunRef} {fewer : Prop}
    (about : change.about task reports = false)
    (foreign : ∀ report named producer, change = .report report named producer →
      report ∉ task :: reports)
    (young : ∀ entry ∈ seen, now - entry.2 < earlyNoticeAgeNanos)
    (lost : ∀ entry ∈ whole.lost (.apply change now runOf),
      entry.1.about task reports = false ∧ ¬ fewer) (implies : fewer → more) :
    Beside task reports seen fewer (whole.apply change now runOf)
      (without.apply change now runOf) := by
  have aged := beside.expire young
  have applied := aged.aside.applyKnown now runOf foreign
  unfold Handoffs.apply
  simp only [aged.books]
  by_cases known : ((whole.expire now).books.applyKnown change now runOf).2 = true
  · rw [if_pos known, if_pos known]
    exact ⟨applied, rfl, aged.held, aged.free, fun later => aged.rest (implies later)⟩
  · have dropped : ∀ entry ∈ ((whole.expire now).early ++ [(change, now)]).take
        (((whole.expire now).early ++ [(change, now)]).length - maxEarlyNotices),
        entry.1.about task reports = false ∧ ¬ fewer := by
      intro entry mem
      refine lost entry ?_
      unfold Handoffs.lost
      simp only [if_neg known]
      exact mem
    rw [if_neg known, if_neg known]
    refine ⟨applied, rfl, ?_, ?_, ?_⟩
    · rw [filter_drop fun entry mem => (dropped entry mem).1, List.filter_append, aged.held]
      simp [about]
    · have absent := aged.free
      rw [List.filter_eq_nil_iff] at absent ⊢
      intro entry mem
      rcases List.mem_append.mp (List.mem_of_mem_drop mem) with old | new
      · exact absent entry old
      · rw [List.mem_singleton.mp new, about]
        exact Bool.false_ne_true
    · intro later
      have absent : ((whole.expire now).early ++ [(change, now)]).length - maxEarlyNotices = 0 :=
        drop_nothing fun entry mem => (dropped entry mem).2 later
      have fewerHeld := List.length_filter_le (fun entry : Change × ℕ =>
        !entry.1.about task reports) (whole.expire now).early
      have alsoNone : ((without.expire now).early ++ [(change, now)]).length - maxEarlyNotices =
          0 := by
        rw [List.length_append] at absent ⊢
        rw [aged.rest (implies later)]
        omega
      rw [absent, alsoNone, aged.rest (implies later)]
      simp [about]

/-- A post of another task leaves what is held for this one. -/
theorem Beside.post (holds : more) {posted : Posted} (differ : posted.messageId ∉ task :: reports)
    (orchestrator : Option RunRef) (workerRunId : Option Text) (runOf : Text → Text → Option RunRef)
    (young : ∀ entry ∈ seen, posted.postedAt - entry.2 < earlyNoticeAgeNanos)
    (foreign : ∀ entry ∈ whole.early, entry.1.about task reports = false →
      ∀ report named producer, entry.1 = .report report named producer →
        report ∉ task :: reports) :
    Beside task reports seen more (whole.posted posted orchestrator workerRunId runOf)
      (without.posted posted orchestrator workerRunId runOf) := by
  have aged := beside.expire young
  unfold Handoffs.posted
  simp only [aged.books]
  by_cases already : ((whole.expire posted.postedAt).books.opened.get? posted.messageId).isSome =
    true
  · rw [if_pos already, if_pos already]
    exact aged
  · rw [if_neg already, if_neg already, aged.rest holds]
    have opened := (aged.aside.open_ differ orchestrator workerRunId).evict posted.postedAt
      ((whole.expire posted.postedAt).books.open_ posted orchestrator workerRunId).order.length
    rcases replay_without differ posted.postedAt runOf (whole.expire posted.postedAt).early
        ⟨_, []⟩ opened (fun entry mem => foreign entry (List.filter_sublist.subset mem))
      with ⟨after, same, together⟩
    rw [List.filter_nil] at together
    simp only [together]
    refine ⟨after, rfl, ?_, ?_, fun _ => rfl⟩
    · rw [same]
      exact aged.held
    · simp

theorem Beside.runEnded {now : ℕ} (runId : Text) (shuttingDown : Bool)
    (young : ∀ entry ∈ seen, now - entry.2 < earlyNoticeAgeNanos) :
    Beside task reports seen more (whole.runEnded runId shuttingDown now)
      (without.runEnded runId shuttingDown now) := by
  have aged := beside.expire young
  unfold Handoffs.runEnded
  simp only [aged.books]
  exact ⟨(aged.aside.endAll _ _ _).forget _ _, rfl, aged.held, aged.free, aged.rest⟩

end

theorem Beside.endAll (beside : Beside task reports [] more whole without) (now : ℕ) :
    Beside task reports [] more (whole.endAll now) (without.endAll now) := by
  have aged : Beside task reports [] more (whole.expire now) (without.expire now) :=
    beside.expire nofun
  unfold Handoffs.endAll
  simp only [aged.books]
  refine ⟨?_, rfl, rfl, rfl, fun _ => rfl⟩
  intro id mem
  exact ⟨((aged.aside.endAll .daemonShutdown now _) id mem).1, rfl, List.not_mem_nil⟩

end Beside

/-! ## All of them -/

theorem seenAbout_concat (task : Text) (reports : List Text) (past : List Call) (call : Call) :
    seenAbout task reports (past ++ [call]) =
      seenAbout task reports past ++ (call.about? task reports).toList := by
  unfold seenAbout
  rw [List.filterMap_append]
  cases here : call.about? task reports with
  | none => rw [List.filterMap_cons_none here]; rfl
  | some entry => rw [List.filterMap_cons_some here]; rfl

theorem beside_run {calls : List Call} {task : Text} {start : ℕ}
    (overtaken : Overtaken calls task start) :
    ∀ past future, calls = past ++ future →
      Beside task (reportsOf calls task) (seenAbout task (reportsOf calls task) past) (Posts future)
        (Handoffs.run past)
        (Handoffs.run (past.map (Call.ticked task (reportsOf calls task)))) := by
  intro past
  induction past using List.reverseRecOn with
  | nil =>
    intro future split
    refine ⟨?_, rfl, rfl, rfl, fun _ => rfl⟩
    intro id mem
    exact ⟨rfl, rfl, List.not_mem_nil⟩
  | append_singleton past call ih =>
    intro future split
    rw [List.append_assoc, List.singleton_append] at split
    have before := ih (call :: future) split
    have called : call ∈ calls := by
      rw [split]
      exact List.mem_append_right _ List.mem_cons_self
    have implies : Posts future → Posts (call :: future) := by
      rintro ⟨later, mem, posts⟩
      exact ⟨later, List.mem_cons_of_mem _ mem, posts⟩
    have later : ∀ entry ∈ seenAbout task (reportsOf calls task) past,
        call.now - entry.2 < earlyNoticeAgeNanos ∧ ∀ now, call ≠ .endAll now := by
      intro entry mem
      rcases mem_seenAbout mem with ⟨about, first, runOf, rest, shape⟩
      refine (overtaken.waits first entry.1 entry.2 runOf (rest ++ call :: future) ?_
        about).2.2 call (List.mem_append_right _ List.mem_cons_self)
      rw [split, shape, List.append_assoc, List.cons_append]
    have young := fun entry mem => (later entry mem).1
    have lost : ∀ entry ∈ (Handoffs.run past).lost call,
        entry.1.about task (reportsOf calls task) = false ∧ ¬ Posts future := by
      intro entry mem
      rcases overtaken.kept past call future split entry mem with ⟨other, noPost⟩
      refine ⟨other, ?_⟩
      rintro ⟨next, nextMem, posts⟩
      exact posts (noPost next nextMem)
    rw [List.map_append, List.map_cons, List.map_nil, run_concat, run_concat, seenAbout_concat]
    cases call with
    | apply change now runOf =>
      cases about : change.about task (reportsOf calls task) with
      | true =>
        simp only [Call.about?, Call.ticked, about]
        exact before.hold about young lost implies
      | false =>
        simp only [Call.about?, Call.ticked, about, Bool.false_eq_true, if_false,
          Option.toList_none, List.append_nil]
        refine before.apply about ?_ young lost implies
        intro report named producer is
        subst is
        exact overtaken.foreign called (of_decide_eq_false about)
    | posted posted orchestrator workerRunId runOf =>
      simp only [Call.about?, Option.toList_none, List.append_nil]
      have posts : Posts (.posted posted orchestrator workerRunId runOf :: future) :=
        ⟨_, List.mem_cons_self, Option.some_ne_none _⟩
      have isTask : posted.messageId ∈ tasksOf calls :=
        List.mem_filterMap.mpr ⟨_, called, rfl⟩
      have ordered : Ordered past := by
        have all := overtaken.ordered
        rw [split] at all
        exact all.left
      refine (before.post posts (overtaken.otherTask isTask) orchestrator workerRunId runOf young
        ?_).imp implies
      intro entry mem about report named producer is
      rcases (kept_run ordered).held entry mem with ⟨heldRun, was⟩
      rw [is] at was about
      have calledToo : .apply (.report report named producer) entry.2 heldRun ∈ calls := by
        rw [split]
        exact List.mem_append_left _ was
      exact overtaken.foreign calledToo (of_decide_eq_false about)
    | runEnded runId shuttingDown now =>
      simp only [Call.about?, Option.toList_none, List.append_nil]
      exact (before.runEnded runId shuttingDown young).imp implies
    | expire now =>
      simp only [Call.about?, Option.toList_none, List.append_nil]
      exact (before.expire young).imp implies
    | endAll now =>
      have absent : seenAbout task (reportsOf calls task) past = [] := by
        rw [List.eq_nil_iff_forall_not_mem]
        intro entry mem
        exact (later entry mem).2 now rfl
      rw [absent] at before ⊢
      exact (before.endAll now).imp implies

end AgentDeck.Handoff
