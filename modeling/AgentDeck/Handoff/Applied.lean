import AgentDeck.Handoff.Sound

/-!
# A post and a change

A post adds its task to the books, and what a change does to the hand-off it concerns keeps them
sound.
-/

namespace AgentDeck.Handoff

open SortedMap

section Applied

variable {tasks : List Text} {named : List (Text × Text)} {books : Books}

/-! ## A post -/

variable {handoff : OpenHandoff}

theorem latestEvent_start (taken : handoff.taken = none) (reported : handoff.reported = none) :
    latestEvent handoff = handoff.start := by
  rw [latestEvent_eq, taken, reported]
  simp

theorem le_bound {start : ℕ} (instant : start ≤ Usage.u64Max) : start ≤ Books.bound start := by
  unfold Books.bound Usage.saturatingAdd
  exact le_min (Nat.le_add_right start _) instant

section

variable (sound : Sound tasks named books)

include sound

/-- A post opens a handoff of its own, after it has made room for it. -/
theorem Sound.open_ {posted : Posted} (fresh : posted.messageId ∉ tasks)
    (instant : posted.postedAt ≤ Usage.u64Max) (orchestrator : Option RunRef)
    (workerRunId : Option Text) :
    Sound (tasks ++ [posted.messageId]) named (books.open_ posted orchestrator workerRunId) := by
  have before := sound.once posted.messageId
  rw [List.count_eq_zero_of_not_mem fresh] at before
  have inserted : ∀ handoff other, (books.opened.insert posted.messageId handoff).get? other =
      if other = posted.messageId then some handoff else books.opened.get? other := by
    intro handoff other
    rw [get?_insert]
    split <;> rfl
  refine ⟨?_, sound.posting.append (List.Sublist.refl _), ?_, sound.unreadOrder, sound.unreadNodup,
    ?_, sound.spans, sound.waiting, sound.reads⟩
  · intro id
    simp only [Books.open_, List.mem_append, sound.openOrder]
    by_cases same : id = posted.messageId <;> simp [same]
  · intro id
    have kept := sound.once id
    simp only [Books.open_, Books.spansOf, inserted, List.count_append] at before kept ⊢
    by_cases same : id = posted.messageId
    · subst same
      simp only [if_true, Option.isSome_some, List.count_singleton_self]
      omega
    · have away : List.count id [posted.messageId] = 0 :=
        List.count_eq_zero_of_not_mem (by simpa using same)
      simp only [if_neg same]
      omega
  · intro id handoff here
    simp only [Books.open_, inserted] at here
    split at here
    · cases here
      refine ⟨⟨nofun, nofun⟩, rfl, ?_⟩
      rw [latestEvent_start rfl rfl]
      exact le_bound instant
    · exact sound.timed id handoff here

omit sound in
theorem order_endTask (id : Text) (outcome : Outcome) (now : ℕ) :
    (books.endTask id outcome now).order = books.order.filter fun other => other ≠ id := by
  unfold Books.endTask
  split <;> rfl

theorem Sound.evict (now fuel : ℕ) : Sound tasks named (Books.evict now fuel books) := by
  induction fuel generalizing books with
  | zero => exact sound
  | succ fuel ih =>
    unfold Books.evict
    split
    · split
      · exact sound
      · exact ih (sound.endTask _ _ _)
    · exact sound

omit sound in
/-- Eviction ends the oldest handoffs until at most `maxOpenHandoffs` are left; each round ends one,
so the excess is fuel enough. -/
theorem evict_room (now fuel : ℕ) {books : Books}
    (within : books.order.length ≤ maxOpenHandoffs + fuel) :
    (Books.evict now fuel books).order.length ≤ maxOpenHandoffs := by
  induction fuel generalizing books with
  | zero => exact within
  | succ fuel ih =>
    unfold Books.evict
    split
    · split
      · rename_i empty
        rw [empty]
        exact Nat.zero_le _
      · rename_i oldest rest shape
        refine ih ?_
        rw [order_endTask, shape, List.filter_cons_of_neg (by simp)]
        have shorter := List.length_filter_le (fun other => decide (other ≠ oldest)) rest
        rw [shape, List.length_cons] at within
        omega
    · omega

/-! ## A change -/

theorem Sound.take {id : Text} (here : books.opened.get? id = some handoff) {now : ℕ}
    (timely : now ≤ Books.bound handoff.start)
    (instant : handoff.start ≤ Books.bound handoff.start) :
    Sound tasks named (books.noteTaken id handoff now) := by
  unfold Books.noteTaken
  have inserted : ∀ state other, (books.opened.insert id state).get? other =
      if other = id then some state else books.opened.get? other := by
    intro state other
    rw [get?_insert]
    split <;> rfl
  rcases sound.timed id handoff here with ⟨timed, unreported, latest⟩
  refine ⟨?_, sound.posting, ?_, sound.unreadOrder, sound.unreadNodup, ?_, sound.spans,
    sound.waiting, sound.reads⟩
  · intro other
    rw [sound.openOrder]
    by_cases same : other = id <;> simp [same, here]
  · intro other
    have before := sound.once other
    simp only [inserted, Books.spansOf] at before ⊢
    by_cases same : other = id
    · subst same
      simpa only [if_true, here, Option.isSome_some] using before
    · simpa only [if_neg same] using before
  · intro other state stands
    simp only [inserted] at stands
    split at stands
    · cases stands
      rw [latestEvent_eq, unreported] at latest ⊢
      simp only [Option.getD_some] at latest ⊢
      cases taken : handoff.taken with
      | none =>
        refine ⟨⟨?_, ?_⟩, trivial, ?_⟩
        · intro time same
          cases same
          exact le_max_right _ _
        · intro reports same
          cases same
        · simp only [Option.getD_none]
          omega
      | some time =>
        rw [taken] at latest
        refine ⟨⟨?_, ?_⟩, trivial, latest⟩
        · intro other same
          cases same
          exact timed.1 time taken
        · intro reports same
          cases same
    · exact sound.timed other state stands

/-- A report that is read leaves the unread ones and emits its span. -/
theorem Sound.read {id : Text} {unread : UnreadReport} (here : books.unread.get? id = some unread)
    (now : ℕ) : Sound tasks named (books.noteRead id unread now) := by
  unfold Books.noteRead
  have erased : ∀ other, (books.unread.erase id).get? other =
      if other = id then none else books.unread.get? other := by
    intro other
    rw [get?_erase]
    split <;> rfl
  refine ⟨sound.openOrder, sound.posting, ?_, ?_, sound.unreadNodup.filter _,
    sound.timed, ?_, ?_, ?_⟩
  · intro task
    have before := sound.once task
    simp only [Books.spansOf, List.countP_append] at before ⊢
    exact before
  · intro other
    rw [List.mem_filter, sound.unreadOrder]
    by_cases same : other = id <;> simp [same]
  · intro task outcome record mem
    rcases List.mem_append.mp mem with old | new
    · exact sound.spans task outcome record old
    · cases List.mem_singleton.mp new
  · intro other waits stands
    simp only [erased] at stands
    split at stands
    · cases stands
    · have before := sound.waiting other waits stands
      exact ⟨before.1, before.2.mono⟩
  · intro report task record mem
    rcases List.mem_append.mp mem with old | new
    · rcases sound.reads report task record old with ⟨names, parent, is, ended⟩
      exact ⟨names, parent, is, ended.mono⟩
    · cases List.mem_singleton.mp new
      have before := sound.waiting id unread here
      exact ⟨before.1, unread.handoffSpan, rfl, before.2.mono⟩

theorem Sound.dropUnread (count : ℕ) : Sound tasks named (books.forgetUnread count) := by
  unfold Books.forgetUnread
  have erased : ∀ (ids : List Text) (unread : SortedMap Text UnreadReport) (other : Text),
      (ids.foldl SortedMap.erase unread).get? other =
        if other ∈ ids then none else unread.get? other := by
    intro ids
    induction ids with
    | nil =>
      intro unread other
      rfl
    | cons id rest ih =>
      intro unread other
      rw [List.foldl_cons, ih]
      by_cases same : other = id
      · simp [same]
      · by_cases inRest : other ∈ rest <;> simp [same, inRest]
  have split := List.take_append_drop count books.unreadOrder
  have nodup := sound.unreadNodup
  rw [← split, List.nodup_append] at nodup
  refine ⟨sound.openOrder, sound.posting, sound.once, ?_, nodup.2.1, sound.timed, sound.spans, ?_,
    sound.reads⟩
  · intro id
    simp only [erased]
    have either := sound.unreadOrder id
    rw [← split, List.mem_append] at either
    by_cases forgotten : id ∈ books.unreadOrder.take count
    · rw [if_pos forgotten]
      constructor
      · intro kept
        exact absurd rfl (nodup.2.2 id forgotten id kept)
      · exact nofun
    · rw [if_neg forgotten, ← either]
      constructor
      · exact .inr
      · exact fun both => both.resolve_left forgotten
  · intro id unread here
    simp only [erased] at here
    split at here
    · cases here
    · exact sound.waiting id unread here

/-- A report arrives for a task that has ended, under an id that no unread report has. -/
theorem Sound.arrive {report : Text} {unread : UnreadReport}
    (fresh : books.unread.get? report = none) (names : (report, unread.task) ∈ named)
    (ended : EndedAt books.finished unread.task unread.traceId unread.handoffSpan unread.arrived) :
    Sound tasks named (books.addUnread report unread) := by
  unfold Books.addUnread
  have inserted : ∀ other, (books.unread.insert report unread).get? other =
      if other = report then some unread else books.unread.get? other := by
    intro other
    rw [get?_insert]
    split <;> rfl
  refine ⟨sound.openOrder, sound.posting, sound.once, ?_, ?_, sound.timed, sound.spans, ?_,
    sound.reads⟩
  · intro id
    rw [List.mem_append, sound.unreadOrder]
    by_cases same : id = report <;> simp [same]
  · rw [List.nodup_append]
    refine ⟨sound.unreadNodup, List.nodup_singleton _, ?_⟩
    intro id mem other otherMem same
    rw [List.mem_singleton.mp otherMem] at same
    rw [same, sound.unreadOrder, fresh] at mem
    cases mem
  · intro id waits here
    simp only [inserted] at here
    split at here
    · rename_i same
      cases here
      rw [same]
      exact ⟨names, ended⟩
    · exact sound.waiting id waits here

end

/-- The cases of `applyKnown`: the change is about an ended handoff, has nothing to do, or moves one
handoff or one report. -/
inductive Applies (books : Books) (now : ℕ) (runOf : Text → Text → Option RunRef) :
    Change → Books × Bool → Prop where
  | ended {change : Change} {id : Text} (about : change.subject = some id)
      (gone : id ∈ books.endedIds) : Applies books now runOf change (books, true)
  | idle {change : Change} (nothing : (∃ id, change = .taken id ∧ (books.unread.get? id).isSome) ∨
      change.subject = none) : Applies books now runOf change (books, true)
  | unknown {change : Change} {id : Text} (about : change.subject = some id)
      (notOpen : books.opened.get? id = none) : Applies books now runOf change (books, false)
  | taken {change : Change} {id : Text} (is : change = .taken id ∨ change = .acknowledged id)
      (notReport : books.unread.get? id = none) {handoff : OpenHandoff}
      (here : books.opened.get? id = some handoff) :
      Applies books now runOf change (books.noteTaken id handoff now, true)
  | read {id : Text} {unread : UnreadReport} (waits : books.unread.get? id = some unread) :
      Applies books now runOf (.acknowledged id) (books.noteRead id unread now, true)
  | undelivered {id : Text} {reason : Option UndeliverableReason} (outcome : Outcome) :
      Applies books now runOf (.undeliverable id reason) (books.endTask id outcome now, true)
  | reported {report task : Text} {producer : Text × Text} {handoff : OpenHandoff}
      (here : books.opened.get? task = some handoff) :
      Applies books now runOf (.report report task producer)
        (books.noteReport report task handoff now (runOf producer.1 producer.2), true)

theorem applyKnown_applies (books : Books) (change : Change) (now : ℕ)
    (runOf : Text → Text → Option RunRef) :
    Applies books now runOf change (books.applyKnown change now runOf) := by
  unfold Books.applyKnown
  split
  · rename_i gone
    rcases (Option.any_eq_true _ _).mp gone with ⟨id, about, mem⟩
    exact .ended about (of_decide_eq_true mem)
  · cases change with
    | taken id =>
      simp only
      split
      · rename_i waits
        exact .idle (.inl ⟨id, rfl, waits⟩)
      · rename_i notReport
        have absent : books.unread.get? id = none := by simpa using notReport
        cases here : books.opened.get? id with
        | none => exact .unknown rfl here
        | some handoff => exact .taken (.inl rfl) absent here
    | acknowledged id =>
      simp only
      cases waits : books.unread.get? id with
      | some unread => exact .read waits
      | none =>
        cases here : books.opened.get? id with
        | none => exact .unknown rfl here
        | some handoff => exact .taken (.inr rfl) waits here
    | undeliverable id reason =>
      simp only
      cases here : books.opened.get? id with
      | none => exact .unknown rfl here
      | some handoff => exact .undelivered _
    | report report task producer =>
      simp only
      cases here : books.opened.get? task with
      | none => exact .unknown rfl here
      | some handoff => exact .reported here
    | uncorrelated pane agent => exact .idle (.inr rfl)

theorem Sound.noteReport (sound : Sound tasks named books) {report task : Text}
    (here : books.opened.get? task = some handoff) (names : (report, task) ∈ named)
    (fresh : books.unread.get? report = none) (now : ℕ) (producer : Option RunRef) :
    Sound tasks named (books.noteReport report task handoff now producer) := by
  rcases sound.timed task handoff here with ⟨timed, _, _⟩
  have closing : (Books.reportedBy handoff now producer).Timed := by
    refine ⟨timed.1, ?_⟩
    intro time same
    cases same
    exact le_max_of_le_left (le_max_right _ _)
  unfold Books.noteReport
  simp only [Books.endTask, get?_insert]
  refine Sound.dropUnread (Sound.arrive ?_ ?_ names ?_) _
  · refine sound.close here closing ?_ _ _ _ _
    intro other
    by_cases same : other = task <;> simp [same]
  · exact fresh
  · refine ⟨_, List.mem_append_right _ List.mem_cons_self, rfl, rfl, ?_⟩
    simp only [span, latestEvent_eq, Books.reportedBy, Books.unreadOf, Books.arrival,
      Option.getD_some]
    omega

/-- Every change keeps the books sound: one case per constructor of `Applies`. -/
theorem Sound.applyKnown (sound : Sound tasks named books) {change : Change} {now : ℕ}
    (timely : ∀ id handoff, change = .taken id ∨ change = .acknowledged id →
      books.unread.get? id = none → books.opened.get? id = some handoff →
      now ≤ Books.bound handoff.start)
    (arrives : ∀ report task producer, change = .report report task producer →
      (report, task) ∈ named ∧ books.unread.get? report = none)
    (runOf : Text → Text → Option RunRef) :
    Sound tasks named (books.applyKnown change now runOf).1 := by
  have applies := applyKnown_applies books change now runOf
  revert applies
  generalize books.applyKnown change now runOf = result
  intro applies
  cases applies with
  | ended about gone => exact sound
  | idle nothing => exact sound
  | unknown about notOpen => exact sound
  | taken is notReport here =>
    rename_i id handoff
    have latest := (sound.timed id handoff here).2.2
    rw [latestEvent_eq] at latest
    exact sound.take here (timely id handoff is notReport here) (by omega)
  | read waits => exact sound.read waits now
  | undelivered outcome => exact sound.endTask _ outcome now
  | reported here =>
    rcases arrives _ _ _ rfl with ⟨names, fresh⟩
    exact sound.noteReport here names fresh now _

end Applied

end AgentDeck.Handoff
