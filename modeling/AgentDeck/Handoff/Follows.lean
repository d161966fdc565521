import AgentDeck.Handoff.Applied

/-!
# What calls leave of the books

No call takes back a span, opens a hand-off but the one posted, or brings a report back. Past its
age a hand-off ends unknown, at the moment it reached it.
-/

namespace AgentDeck.Handoff

open SortedMap

/-- How often a report has been read, and once more while it is unread. -/
def Books.stage (books : Books) (report : Text) : ℕ :=
  books.readsOf report + (books.unread.get? report).elim 0 fun _ => 1

/-- `after` follows `before`, with the reports counted by `arriving`. -/
structure Follows (arriving : Text → ℕ) (before after : Books) : Prop where
  finished : before.finished <+: after.finished
  order : after.order.length ≤ before.order.length
  unread : after.unreadOrder.length ≤ max before.unreadOrder.length maxUnreadReports
  stage : ∀ report, after.stage report ≤ before.stage report + arriving report
  open_ : ∀ id handoff, after.opened.get? id = some handoff →
    ∃ earlier, before.opened.get? id = some earlier ∧ earlier.start = handoff.start

def noneArriving : Text → ℕ := fun _ => 0

/-- What a change adds to a report's stage. -/
def Change.arriving (change : Change) (report : Text) : ℕ :=
  match change with
  | .report other _ _ => if other = report then 1 else 0
  | _ => 0

section Follows

variable {books before middle after : Books} {arriving more : Text → ℕ}

theorem Follows.refl (books : Books) : Follows noneArriving books books :=
  ⟨List.prefix_refl _, le_rfl, le_max_left _ _, fun _ => le_rfl, fun _ handoff here =>
    ⟨handoff, here, rfl⟩⟩

theorem Follows.trans (first : Follows arriving before middle)
    (second : Follows more middle after) :
    Follows (fun report => arriving report + more report) before after := by
  refine ⟨first.finished.trans second.finished, second.order.trans first.order, ?_, ?_, ?_⟩
  · have removed := first.unread
    have remaining := second.unread
    omega
  · intro report
    have removed := first.stage report
    have remaining := second.stage report
    omega
  · intro id handoff here
    rcases second.open_ id handoff here with ⟨between, was, sameStart⟩
    rcases first.open_ id between was with ⟨earlier, former, start⟩
    exact ⟨earlier, former, start.trans sameStart⟩

theorem Follows.weaken (follows : Follows arriving before after)
    (le : ∀ report, arriving report ≤ more report) : Follows more before after :=
  ⟨follows.finished, follows.order, follows.unread,
    fun report => (follows.stage report).trans (Nat.add_le_add_left (le report) _), follows.open_⟩

theorem Follows.quiet (first : Follows noneArriving before middle)
    (second : Follows noneArriving middle after) : Follows noneArriving before after :=
  (first.trans second).weaken fun _ => le_rfl

theorem readsOf_append_handoff (finished : List Emitted) (report task : Text) (outcome : Outcome)
    (record : SpanRecord) :
    (finished ++ [Emitted.handoff task outcome record]).countP (Emitted.isReadOf report) =
      finished.countP (Emitted.isReadOf report) := by
  simp [Emitted.isReadOf]

theorem follows_endTask (books : Books) (id : Text) (outcome : Outcome) (now : ℕ) :
    Follows noneArriving books (books.endTask id outcome now) := by
  unfold Books.endTask
  cases books.opened.get? id with
  | none =>
    exact ⟨List.prefix_refl _, List.length_filter_le _ _, le_max_left _ _, fun _ => le_rfl,
      fun _ handoff here => ⟨handoff, here, rfl⟩⟩
  | some handoff =>
    refine ⟨List.prefix_append _ _, List.length_filter_le _ _, le_max_left _ _, ?_, ?_⟩
    · intro report
      simp only [Books.stage, Books.readsOf, readsOf_append_handoff, noneArriving, Nat.add_zero,
        le_refl]
    · intro other state here
      simp only [get?_erase] at here
      split at here
      · cases here
      · exact ⟨state, here, rfl⟩

theorem follows_endMany (outcome : Outcome) (times : List (Text × ℕ)) (books : Books) :
    Follows noneArriving books
      (times.foldl (fun books aged => books.endTask aged.1 outcome aged.2) books) := by
  induction times generalizing books with
  | nil => exact Follows.refl books
  | cons aged rest ih => exact (follows_endTask books _ _ _).quiet (ih _)

theorem follows_endAll (outcome : Outcome) (now : ℕ) (ids : List Text) (books : Books) :
    Follows noneArriving books (books.endAll outcome now ids) := by
  induction ids generalizing books with
  | nil => exact Follows.refl books
  | cons id rest ih => exact (follows_endTask books _ _ _).quiet (ih _)

theorem follows_forget (keep : Text → UnreadReport → Bool) (kept : Text → Bool) (books : Books) :
    Follows noneArriving books
      { books with
        unread := books.unread.filter keep
        unreadOrder := books.unreadOrder.filter kept } := by
  refine ⟨List.prefix_refl _, le_rfl, (List.length_filter_le _ _).trans (le_max_left _ _), ?_,
    fun _ handoff here => ⟨handoff, here, rfl⟩⟩
  intro report
  simp only [Books.stage, get?_filter]
  cases books.unread.get? report with
  | none => exact le_rfl
  | some unread =>
    simp only [Option.filter_some]
    split
    · exact le_rfl
    · exact Nat.add_le_add_left (Nat.zero_le 1) _

theorem follows_expire (books : Books) (now : ℕ) : Follows noneArriving books (books.expire now) :=
  (follows_endMany .unknown (books.expired now) books).quiet (follows_forget _ _ _)

theorem follows_evict (now fuel : ℕ) (books : Books) :
    Follows noneArriving books (Books.evict now fuel books) := by
  induction fuel generalizing books with
  | zero => exact Follows.refl books
  | succ fuel ih =>
    unfold Books.evict
    split
    · split
      · exact Follows.refl books
      · exact (follows_endTask books _ _ _).quiet (ih _)
    · exact Follows.refl books

theorem erased_get? (ids : List Text) (unread : SortedMap Text UnreadReport) (report : Text) :
    (ids.foldl SortedMap.erase unread).get? report = none ∨
      (ids.foldl SortedMap.erase unread).get? report = unread.get? report := by
  induction ids generalizing unread with
  | nil => exact .inr rfl
  | cons id rest ih =>
    rcases ih (unread.erase id) with gone | kept
    · exact .inl gone
    · rw [get?_erase] at kept
      split at kept
      · exact .inl kept
      · exact .inr kept

/-- A report that arrives may push out the oldest unread ones. -/
theorem follows_arrive (books : Books) (report : Text) (unread : UnreadReport) {count : ℕ}
    (room : books.unreadOrder.length + 1 ≤ maxUnreadReports + count) :
    Follows (fun other => if report = other then 1 else 0) books
      ((books.addUnread report unread).forgetUnread count) := by
  refine ⟨List.prefix_refl _, le_rfl, ?_, ?_, fun _ handoff here => ⟨handoff, here, rfl⟩⟩
  · simp only [Books.forgetUnread, Books.addUnread, List.length_drop, List.length_append,
      List.length_singleton]
    omega
  · intro other
    simp only [Books.stage, Books.readsOf, Books.forgetUnread, Books.addUnread]
    rcases erased_get? ((books.unreadOrder ++ [report]).take count)
        (books.unread.insert report unread) other with gone | kept
    · rw [gone]
      simp only [Option.elim_none]
      omega
    · rw [kept, get?_insert]
      by_cases same : other = report
      · subst same
        simp only [if_true, Option.elim_some]
        omega
      · simp only [if_neg same]
        omega

/-- A change adds to its report's stage only where it is applied. -/
theorem follows_applyKnown (books : Books) (change : Change) (now : ℕ)
    (runOf : Text → Text → Option RunRef) :
    Follows (if (books.applyKnown change now runOf).2 = true then change.arriving else noneArriving)
      books (books.applyKnown change now runOf).1 := by
  have applies := applyKnown_applies books change now runOf
  revert applies
  generalize books.applyKnown change now runOf = result
  intro applies
  cases applies with
  | ended about gone | idle nothing | unknown about notOpen =>
    exact (Follows.refl books).weaken fun _ => Nat.zero_le _
  | taken is notReport here =>
    rename_i id handoff
    refine ⟨List.prefix_refl _, le_rfl, le_max_left _ _, fun _ => Nat.le_add_right _ _, ?_⟩
    intro other state stands
    simp only [Books.noteTaken, get?_insert] at stands
    split at stands
    · rename_i same
      cases stands
      exact ⟨handoff, same ▸ here, rfl⟩
    · exact ⟨state, stands, rfl⟩
  | read waits =>
    rename_i id unread
    refine ⟨List.prefix_append _ _, le_rfl, (List.length_filter_le _ _).trans (le_max_left _ _), ?_,
      fun _ handoff here => ⟨handoff, here, rfl⟩⟩
    intro report
    simp only [Books.stage, Books.readsOf, Books.noteRead, List.countP_append,
      List.countP_singleton, Emitted.isReadOf]
    by_cases same : report = id
    · subst same
      simp [waits]
    · simp [same, Ne.symm same]
  | undelivered outcome =>
    exact (follows_endTask books _ outcome now).weaken fun _ => Nat.zero_le _
  | reported here =>
    rename_i report task producer handoff
    have closed := follows_endTask ({ books with
      opened := books.opened.insert task
        (Books.reportedBy handoff now (runOf producer.1 producer.2)) } : Books) task .reported
      (Books.arrival handoff now)
    have room : ∀ closed : Books, closed.unreadOrder.length + 1 ≤ maxUnreadReports +
        ((closed.addUnread report (Books.unreadOf task handoff now)).unreadOrder.length -
          maxUnreadReports) := by
      simp only [Books.addUnread, List.length_append, List.length_singleton]
      omega
    have arrived := closed.trans
      (follows_arrive _ report (Books.unreadOf task handoff now) (room _))
    refine ⟨arrived.finished, arrived.order, arrived.unread, fun other =>
      (arrived.stage other).trans (by simp [noneArriving, Change.arriving, Books.stage,
        Books.readsOf]), ?_⟩
    intro other state stands
    rcases arrived.open_ other state stands with ⟨earlier, was, start⟩
    simp only [get?_insert] at was
    split at was
    · rename_i same
      cases was
      exact ⟨handoff, same ▸ here, start⟩
    · exact ⟨earlier, was, start⟩

end Follows

/-! ## Past its age -/

section Ages

variable {tasks : List Text} {named : List (Text × Text)} {books : Books}

/-- Handoffs with distinct ids end independently of one another. -/
theorem endMany_spec (outcome : Outcome) {times : List (Text × ℕ)}
    (nodup : (times.map Prod.fst).Nodup) (books : Books) :
    (∀ id, (times.foldl (fun books aged => books.endTask aged.1 outcome aged.2) books).opened.get?
      id =
      if id ∈ times.map Prod.fst then none else books.opened.get? id) ∧
    ∀ id time handoff, (id, time) ∈ times → books.opened.get? id = some handoff →
      .handoff id outcome (span id handoff outcome time) ∈
        (times.foldl (fun books aged => books.endTask aged.1 outcome aged.2) books).finished := by
  induction times generalizing books with
  | nil => exact ⟨fun id => by simp, nofun⟩
  | cons aged rest ih =>
    rw [List.map_cons, List.nodup_cons] at nodup
    have step : ∀ id, (books.endTask aged.1 outcome aged.2).opened.get? id =
        if id = aged.1 then none else books.opened.get? id := by
      intro id
      unfold Books.endTask
      cases here : books.opened.get? aged.1 with
      | none =>
        by_cases same : id = aged.1 <;> simp [same, here]
      | some handoff =>
        simp only [get?_erase]
        split <;> rfl
    rcases ih nodup.2 (books.endTask aged.1 outcome aged.2) with ⟨opened, spans⟩
    refine ⟨?_, ?_⟩
    · intro id
      rw [List.foldl_cons, opened, step]
      by_cases same : id = aged.1
      · subst same
        simp
      · by_cases inRest : id ∈ rest.map Prod.fst <;> simp [same, inRest]
    · intro id time handoff mem here
      rw [List.foldl_cons]
      rcases List.mem_cons.mp mem with rfl | later
      · refine (follows_endMany outcome rest _).finished.subset ?_
        unfold Books.endTask
        rw [here]
        exact List.mem_append_right _ List.mem_cons_self
      · refine spans id time handoff later ?_
        rw [step, if_neg ?_]
        · exact here
        · rintro rfl
          exact nodup.1 (List.mem_map.mpr ⟨_, later, rfl⟩)

/-- What expires is what stands open at its bound. -/
theorem Sound.mem_expired (sound : Sound tasks named books) (now : ℕ) (id : Text) (time : ℕ) :
    (id, time) ∈ books.expired now ↔ ∃ handoff, books.opened.get? id = some handoff ∧
      Books.bound handoff.start ≤ now ∧ time = Books.bound handoff.start := by
  unfold Books.expired
  rw [List.mem_filterMap]
  constructor
  · rintro ⟨other, mem, gives⟩
    rcases Option.bind_eq_some_iff.mp gives with ⟨handoff, here, aged⟩
    split at aged
    · rename_i past
      cases aged
      exact ⟨handoff, here, past, rfl⟩
    · cases aged
  · rintro ⟨handoff, here, past, rfl⟩
    refine ⟨id, ?_, ?_⟩
    · rw [sound.openOrder, here]
      rfl
    · rw [here, Option.bind_some, if_pos past]

theorem picked_sublist {pick : Text → Option (Text × ℕ)}
    (own : ∀ id entry, pick id = some entry → entry.1 = id) (ids : List Text) :
    ((ids.filterMap pick).map Prod.fst).Sublist ids := by
  induction ids with
  | nil => exact List.Sublist.refl _
  | cons id rest ih =>
    cases here : pick id with
    | none =>
      rw [List.filterMap_cons_none here]
      exact ih.cons id
    | some entry =>
      rw [List.filterMap_cons_some here, List.map_cons, own id entry here]
      exact ih.cons_cons id

theorem expired_nodup (books : Books) (now : ℕ) (nodup : books.order.Nodup) :
    ((books.expired now).map Prod.fst).Nodup := by
  refine nodup.sublist (picked_sublist ?_ _)
  intro id entry picked
  rcases Option.bind_eq_some_iff.mp picked with ⟨handoff, here, aged⟩
  split at aged
  · cases aged
    rfl
  · cases aged

/-- An expiry ends exactly the handoffs whose bound has passed, at that bound. -/
theorem Sound.expire_spec (sound : Sound tasks named books) (nodup : tasks.Nodup) (now : ℕ) :
    (∀ id, (books.expire now).opened.get? id = (books.opened.get? id).filter fun handoff =>
      decide (now < Books.bound handoff.start)) ∧
    ∀ id handoff, books.opened.get? id = some handoff → Books.bound handoff.start ≤ now →
      .handoff id .unknown (span id handoff .unknown (Books.bound handoff.start)) ∈
        (books.expire now).finished := by
  rcases endMany_spec .unknown (expired_nodup books now (nodup.sublist sound.posting)) books
    with ⟨opened, spans⟩
  refine ⟨?_, ?_⟩
  · intro id
    refine (opened id).trans ?_
    cases here : books.opened.get? id with
    | none => simp
    | some handoff =>
      by_cases past : Books.bound handoff.start ≤ now
      · have aged : id ∈ (books.expired now).map Prod.fst :=
          List.mem_map_of_mem ((sound.mem_expired now id _).mpr ⟨handoff, here, past, rfl⟩)
        rw [if_pos aged, Option.filter_some, if_neg (by simpa using past)]
      · have young : id ∉ (books.expired now).map Prod.fst := by
          intro mem
          rcases List.mem_map.mp mem with ⟨⟨other, time⟩, aged, rfl⟩
          rcases (sound.mem_expired now other time).mp aged with ⟨state, is, was, _⟩
          rw [here] at is
          cases is
          exact past was
        rw [if_neg young, Option.filter_some, if_pos (by simpa using past)]
  · intro id handoff here past
    exact spans id _ handoff ((sound.mem_expired now id _).mpr ⟨handoff, here, past, rfl⟩) here

theorem Sound.span_at_bound (sound : Sound tasks named books) {id : Text} {handoff : OpenHandoff}
    (here : books.opened.get? id = some handoff) :
    (span id handoff .unknown (Books.bound handoff.start)).finish = Books.bound handoff.start := by
  have latest := (sound.timed id handoff here).2.2
  exact max_eq_left latest

end Ages

end AgentDeck.Handoff
