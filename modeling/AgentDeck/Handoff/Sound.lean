import AgentDeck.Handoff.Handoffs

/-!
# What the books hold

The tasks in the order are the open ones, in the order they were posted, and each task posted is
open or has its one span. A report waits to be read, or was read, under the span of the task it
named, from where that ended. Ending a hand-off keeps all of this.
-/

namespace AgentDeck.Handoff

open SortedMap

/-! ## Spans -/

def Emitted.isSpanOf (task : Text) : Emitted → Bool
  | .handoff other _ _ => decide (other = task)
  | .read _ _ _ => false

def Emitted.isReadOf (report : Text) : Emitted → Bool
  | .handoff _ _ _ => false
  | .read other _ _ => decide (other = report)

def Books.spansOf (books : Books) (task : Text) : ℕ :=
  books.finished.countP (Emitted.isSpanOf task)

def Books.readsOf (books : Books) (report : Text) : ℕ :=
  books.finished.countP (Emitted.isReadOf report)

/-- The span starts before each of its events, and ends after it. -/
def SpanRecord.WellTimed (span : SpanRecord) : Prop :=
  span.start ≤ span.finish ∧ ∀ event ∈ span.events, span.start ≤ event.2 ∧ event.2 ≤ span.finish

/-- The hand-off of `task` ended reported at `time`, with that span. -/
def EndedAt (finished : List Emitted) (task : Text) (traceId spanId time : ℕ) : Prop :=
  ∃ record, .handoff task .reported record ∈ finished ∧ record.traceId = traceId ∧
    record.spanId = spanId ∧ record.finish = time

theorem EndedAt.mono {finished more : List Emitted} {task : Text} {traceId spanId time : ℕ}
    (ended : EndedAt finished task traceId spanId time) : EndedAt (finished ++ more) task traceId
      spanId time := by
  rcases ended with ⟨record, mem, rest⟩
  exact ⟨record, List.mem_append_left _ mem, rest⟩

def OpenHandoff.Timed (handoff : OpenHandoff) : Prop :=
  (∀ time, handoff.taken = some time → handoff.start ≤ time) ∧
    ∀ time, handoff.reported = some time → handoff.start ≤ time

theorem latestEvent_eq (handoff : OpenHandoff) :
    latestEvent handoff =
      max (max handoff.start (handoff.taken.getD 0)) (handoff.reported.getD 0) := by
  rcases handoff with ⟨_, _, _, start, _, _, _, _, _, taken, reported⟩
  cases taken <;> cases reported <;> simp [latestEvent, handoffEvents]

theorem span_wellTimed {handoff : OpenHandoff} (timed : handoff.Timed) (id : Text)
    (outcome : Outcome) (now : ℕ) : (span id handoff outcome now).WellTimed := by
  have latest := latestEvent_eq handoff
  refine ⟨?_, ?_⟩
  · simp only [span]
    omega
  · intro event mem
    simp only [span, handoffEvents, List.mem_append, Option.mem_toList,
      Option.map_eq_some_iff] at mem
    rcases mem with ⟨time, here, rfl⟩ | ⟨time, here, rfl⟩
    · rw [here, Option.getD_some] at latest
      have later := timed.1 time here
      simp only [span]
      omega
    · rw [here, Option.getD_some] at latest
      have later := timed.2 time here
      simp only [span]
      omega

/-! ## The books -/

/-- What holds of the books when `tasks` were posted, and reports arrived as `named`: each with the
task it names. -/
structure Sound (tasks : List Text) (named : List (Text × Text)) (books : Books) : Prop where
  openOrder : ∀ id, id ∈ books.order ↔ (books.opened.get? id).isSome
  posting : books.order.Sublist tasks
  once : ∀ id, books.spansOf id + (if (books.opened.get? id).isSome then 1 else 0) = tasks.count id
  unreadOrder : ∀ id, id ∈ books.unreadOrder ↔ (books.unread.get? id).isSome
  unreadNodup : books.unreadOrder.Nodup
  timed : ∀ id handoff, books.opened.get? id = some handoff → handoff.Timed ∧
    handoff.reported = none ∧ latestEvent handoff ≤ Books.bound handoff.start
  spans : ∀ task outcome record, .handoff task outcome record ∈ books.finished → record.WellTimed
  waiting : ∀ id unread, books.unread.get? id = some unread →
    (id, unread.task) ∈ named ∧
      EndedAt books.finished unread.task unread.traceId unread.handoffSpan unread.arrived
  reads : ∀ report task record, .read report task record ∈ books.finished →
    (report, task) ∈ named ∧ ∃ parent, record.parentSpanId = some parent ∧
      EndedAt books.finished task record.traceId parent record.start

variable {tasks : List Text} {named : List (Text × Text)} {books : Books}

theorem sound_new : Sound [] [] Handoffs.new.books := by
  refine ⟨?_, List.Sublist.refl _, ?_, ?_, List.nodup_nil, nofun, nofun, nofun, nofun⟩
  · simp [Handoffs.new]
  · simp [Handoffs.new, Books.spansOf]
  · simp [Handoffs.new]

variable (sound : Sound tasks named books)

include sound

theorem Sound.mono {more : List (Text × Text)} : Sound tasks (named ++ more) books :=
  { sound with
    waiting := fun id unread here =>
      ⟨List.mem_append_left _ (sound.waiting id unread here).1, (sound.waiting id unread here).2⟩
    reads := fun report task record mem =>
      ⟨List.mem_append_left _ (sound.reads report task record mem).1,
        (sound.reads report task record mem).2⟩ }

theorem Sound.close {id : Text} {handoff closing : OpenHandoff}
    (here : books.opened.get? id = some handoff) (timed : closing.Timed)
    {opened : SortedMap Text OpenHandoff}
    (removed : ∀ other, opened.get? other = if other = id then none else books.opened.get? other)
    (outcome : Outcome) (now : ℕ) (ended endedIds : List Text) :
    Sound tasks named { books with
      opened := opened
      order := books.order.filter fun other => other ≠ id
      finished := books.finished ++ [.handoff id outcome (span id closing outcome now)]
      ended := ended
      endedIds := endedIds } := by
  refine ⟨?_, (List.filter_sublist).trans sound.posting, ?_, sound.unreadOrder, sound.unreadNodup,
    ?_, ?_, ?_, ?_⟩
  · intro other
    rw [List.mem_filter, removed, sound.openOrder]
    by_cases same : other = id <;> simp [same]
  · intro other
    have before := sound.once other
    simp only [Books.spansOf, List.countP_append, List.countP_singleton, removed,
      Emitted.isSpanOf] at before ⊢
    by_cases same : other = id
    · subst same
      simp only [here, Option.isSome_some, if_true] at before
      simp only [decide_true, if_true, Option.isSome_none, Bool.false_eq_true, if_false]
      omega
    · simp only [if_neg same, decide_eq_true_eq, if_neg (Ne.symm same)]
      omega
  · intro other state stands
    simp only [removed] at stands
    split at stands
    · cases stands
    · exact sound.timed other state stands
  · intro task ending record mem
    rcases List.mem_append.mp mem with old | new
    · exact sound.spans task ending record old
    · cases List.mem_singleton.mp new
      exact span_wellTimed timed id outcome now
  · intro report unread waits
    have before := sound.waiting report unread waits
    exact ⟨before.1, before.2.mono⟩
  · intro report task record mem
    rcases List.mem_append.mp mem with old | new
    · rcases sound.reads report task record old with ⟨names, parent, is, ended⟩
      exact ⟨names, parent, is, ended.mono⟩
    · cases List.mem_singleton.mp new

theorem Sound.order_absent {id : Text} (absent : books.opened.get? id = none) :
    books.order.filter (fun other => decide (other ≠ id)) = books.order := by
  rw [List.filter_eq_self]
  intro other mem
  rw [decide_eq_true_eq]
  rintro rfl
  rw [sound.openOrder, absent] at mem
  cases mem

theorem Sound.endTask (id : Text) (outcome : Outcome) (now : ℕ) :
    Sound tasks named (books.endTask id outcome now) := by
  unfold Books.endTask
  cases here : books.opened.get? id with
  | none =>
    rw [sound.order_absent here]
    exact sound
  | some handoff =>
    refine sound.close here (sound.timed id handoff here).1 ?_ _ _ _ _
    intro other
    rw [get?_erase]
    split <;> rfl

theorem Sound.endMany (outcome : Outcome) (times : List (Text × ℕ)) :
    Sound tasks named
      (times.foldl (fun books aged => books.endTask aged.1 outcome aged.2) books) := by
  induction times generalizing books with
  | nil => exact sound
  | cons aged rest ih => exact ih (sound.endTask aged.1 outcome aged.2)

theorem Sound.endAll (outcome : Outcome) (now : ℕ) (ids : List Text) :
    Sound tasks named (books.endAll outcome now ids) := by
  induction ids generalizing books with
  | nil => exact sound
  | cons id rest ih => exact ih (sound.endTask id outcome now)

theorem Sound.forget (keep : Text → UnreadReport → Bool) :
    Sound tasks named { books with
      unread := books.unread.filter keep
      unreadOrder := books.unreadOrder.filter fun id =>
        ((books.unread.filter keep).get? id).isSome } := by
  refine ⟨sound.openOrder, sound.posting, sound.once, ?_, sound.unreadNodup.filter _, sound.timed,
    sound.spans, ?_, sound.reads⟩
  · intro id
    rw [List.mem_filter, sound.unreadOrder]
    constructor
    · exact fun both => both.2
    · intro kept
      refine ⟨?_, kept⟩
      rw [get?_filter] at kept
      rcases Option.isSome_iff_exists.mp kept with ⟨unread, here⟩
      exact Option.isSome_iff_exists.mpr ⟨unread, (Option.filter_eq_some_iff.mp here).1⟩
  · intro id unread here
    simp only [get?_filter] at here
    exact sound.waiting id unread (Option.filter_eq_some_iff.mp here).1

theorem Sound.expire (now : ℕ) : Sound tasks named (books.expire now) :=
  (sound.endMany .unknown (books.expired now)).forget _

end AgentDeck.Handoff
