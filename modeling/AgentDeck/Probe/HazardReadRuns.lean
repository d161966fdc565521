import AgentDeck.Probe.HazardReads

/-!
# Readings between the calls of a run

Two readers stand at one instant together when, brought up to it, no call can tell them apart
(`Together`). A call at a later instant answers both alike and leaves them together, and a reading
leaves its reader together with the other one. So readings put between the calls of a run change no
later answer.
-/

namespace AgentDeck.Probe

namespace HazardFifo

variable {f g : HazardFifo} {now clock : Instant}

section

variable (sane : Sane f)

include sane

theorem Sane.enter (seq : ℕ) (now : Instant) (backlog : Bool) : Sane (f.enter seq now backlog) := by
  have advanced := sane.advance now
  have marks : (f.advance now).mark = none → (f.advance now).paused = false → False := by
    intro unmarked running
    simp only [HazardFifo.advance] at unmarked running
    rw [running] at unmarked
    cases unmarked
  simp only [HazardFifo.enter]
  split
  · split <;> exact ⟨advanced.within, advanced.marked, advanced.unmarked⟩
  · refine ⟨?_, advanced.marked, fun unmarked running => (marks unmarked running).elim⟩
    intro entry mem since quiet
    rcases List.mem_append.mp mem with old | new
    · exact advanced.within entry old since quiet
    · rw [List.mem_singleton] at new
      subst new
      cases backlog with
      | true => cases quiet
      | false =>
        cases quiet
        exact le_refl _

theorem Sane.latch (now : Instant) : Sane (f.latch now) := by
  have advanced := sane.advance now
  refine ⟨?_, advanced.marked, ?_⟩
  · intro entry mem since quiet
    rcases List.mem_map.mp mem with ⟨before, _, rfl⟩
    cases quiet
  · intro unmarked running
    exact List.map_eq_nil_iff.mpr (advanced.unmarked unmarked running)

theorem Sane.recordsPending (now : Instant) (pending : Bool) :
    Sane (f.recordsPending now pending) := by
  have advanced := sane.advance now
  simp only [HazardFifo.recordsPending]
  split
  · refine ⟨advanced.within, ?_, ?_⟩
    · intro mark marked
      cases pending with
      | true => cases marked
      | false =>
        cases marked
        exact ⟨_, rfl, le_refl _⟩
    · intro unmarked running
      simp only at running
      rw [running] at unmarked
      cases unmarked
  · exact advanced

theorem Sane.popExtra : Sane f.popExtra := by
  simp only [HazardFifo.popExtra]
  split <;> exact ⟨sane.within, sane.marked, sane.unmarked⟩

theorem Sane.popIf (receipt : HazardPop) (now : Instant) (kept : Entry → Bool)
    (counted : HazardFifo → Bool) : Sane (f.popIf receipt now kept counted).2.2 := by
  have advanced := sane.advance now
  simp only [HazardFifo.popIf]
  split
  · exact advanced
  · split
    · rename_i entry rest entries
      split
      · refine ⟨?_, advanced.marked, ?_⟩
        · intro other mem
          exact advanced.within other (entries ▸ List.mem_cons_of_mem entry mem)
        · intro unmarked running
          have absent := advanced.unmarked unmarked running
          rw [entries] at absent
          cases absent
      · exact advanced
    · split
      · exact advanced.popExtra
      · exact advanced

end

/-- Both were brought at most to `clock`, and brought to it nothing tells them apart. -/
structure Together (clock : Instant) (f g : HazardFifo) : Prop where
  left : Sane f
  right : Sane g
  leftReached : ∀ latest, f.latest = some latest → latest ≤ clock
  rightReached : ∀ latest, g.latest = some latest → latest ≤ clock
  same : Same (f.advance clock) (g.advance clock)

variable (together : Together clock f g)

include together

variable (onward : clock ≤ now)

include onward

theorem Together.at_now : Same (f.advance now) (g.advance now) := by
  have left := advance_advance together.left onward together.leftReached
  have right := advance_advance together.right onward together.rightReached
  exact left.symm.trans ((together.same.advance now).trans right)

theorem Together.later : Together now f g :=
  ⟨together.left, together.right, fun latest found =>
    (together.leftReached latest found).trans onward,
    fun latest found => (together.rightReached latest found).trans onward,
    together.at_now onward⟩

omit onward in
omit together in
theorem together_of_same (left : Sane f) (right : Sane g) (reached : f.latest = some now)
    (same : Same f g) : Together now f g := by
  refine ⟨left, right, ?_, ?_, same.advance now⟩
  · intro latest found
    rw [reached] at found
    exact le_of_eq (Option.some.inj found).symm
  · intro latest found
    rw [← same.latest, reached] at found
    exact le_of_eq (Option.some.inj found).symm

omit onward in
omit together in
theorem reach_of_le (reached : ∀ latest, f.latest = some latest → latest ≤ now) :
    f.reach now = now := by
  simp only [reach]
  split
  · rename_i latest found
    exact max_eq_right (reached latest found)
  · rfl

theorem Together.read : Together now (f.advance now) g := by
  have later := together.later onward
  have again := advance_advance later.left (le_refl now) later.leftReached
  refine ⟨later.left.advance now, later.right, ?_, later.rightReached, again.trans later.same⟩
  intro latest found
  have reached := reach_of_le later.leftReached
  rw [← Option.some.inj found]
  exact le_of_eq reached

omit onward in
theorem Together.number : f.number.1 = g.number.1 ∧ Together clock f.number.2 g.number.2 := by
  have exhausted : f.exhausted = g.exhausted := together.same.exhausted
  have seq : f.nativeSeq = g.nativeSeq := together.same.nativeSeq
  have same := together.same
  simp only [HazardFifo.number, exhausted, seq]
  split
  · exact ⟨rfl, together⟩
  · split
    · exact ⟨rfl, ⟨⟨together.left.within, together.left.marked, together.left.unmarked⟩,
        ⟨together.right.within, together.right.marked, together.right.unmarked⟩,
        together.leftReached, together.rightReached,
        ⟨same.entries, same.extra, same.newestExtra, same.newestExtraAccept, rfl, rfl, same.mark,
          same.latest, same.paused⟩⟩⟩
    · exact ⟨rfl, ⟨⟨together.left.within, together.left.marked, together.left.unmarked⟩,
        ⟨together.right.within, together.right.marked, together.right.unmarked⟩,
        together.leftReached, together.rightReached,
        ⟨same.entries, same.extra, same.newestExtra, same.newestExtraAccept, rfl, rfl, same.mark,
          same.latest, same.paused⟩⟩⟩

omit onward in
omit together in
theorem latest_enter (seq : ℕ) (backlog : Bool)
    (reached : ∀ latest, f.latest = some latest → latest ≤ now) :
    (f.enter seq now backlog).latest = some now := by
  have latest : (f.advance now).latest = some now := congrArg some (reach_of_le reached)
  simp only [HazardFifo.enter]
  split
  · split <;> exact latest
  · exact latest

theorem Together.enter (seq : ℕ) (backlog : Bool) :
    Together now (f.enter seq now backlog) (g.enter seq now backlog) := by
  have later := together.later onward
  exact together_of_same (later.left.enter seq now backlog) (later.right.enter seq now backlog)
    (latest_enter seq backlog later.leftReached) (later.same.enter seq backlog)

theorem Together.accept (backlog : Bool) :
    (f.accept now backlog).1 = (g.accept now backlog).1 ∧
      Together now (f.accept now backlog).2 (g.accept now backlog).2 := by
  rcases together.number with ⟨same, numbered⟩
  simp only [HazardFifo.accept]
  generalize f.number = leftResult at same numbered ⊢
  generalize g.number = rightResult at same numbered ⊢
  rcases leftResult with ⟨seq, left⟩
  rcases rightResult with ⟨other, right⟩
  have equal : seq = other := same
  subst equal
  cases seq with
  | none => exact ⟨rfl, numbered.later onward⟩
  | some seq => exact ⟨rfl, numbered.enter onward seq backlog⟩

theorem Together.latch : Together now (f.latch now) (g.latch now) := by
  have later := together.later onward
  exact together_of_same (later.left.latch now) (later.right.latch now)
    (congrArg some (reach_of_le later.leftReached)) later.same.latch

theorem Together.recordsPending (pending : Bool) :
    Together now (f.recordsPending now pending) (g.recordsPending now pending) := by
  have later := together.later onward
  refine together_of_same (later.left.recordsPending now pending)
    (later.right.recordsPending now pending) ?_ (later.same.recordsPending pending)
  have latest : (f.advance now).latest = some now :=
    congrArg some (reach_of_le later.leftReached)
  simp only [HazardFifo.recordsPending]
  split <;> exact latest

theorem Together.popIf (receipt : HazardPop) {kept : Entry → Bool} {counted : HazardFifo → Bool}
    (keptSame : ∀ run other left right, SameEntry run other left right → kept left = kept right)
    (countedSame : ∀ f g, Same f g → counted f = counted g) :
    (f.popIf receipt now kept counted).1 = (g.popIf receipt now kept counted).1 ∧
      (f.popIf receipt now kept counted).2.1 = (g.popIf receipt now kept counted).2.1 ∧
      Together now (f.popIf receipt now kept counted).2.2
        (g.popIf receipt now kept counted).2.2 := by
  have later := together.later onward
  rcases later.same.popIf receipt keptSame countedSame with ⟨pop, spent, same⟩
  refine ⟨pop, spent, together_of_same (later.left.popIf receipt now kept counted)
    (later.right.popIf receipt now kept counted) ?_ same⟩
  have latest : (f.advance now).latest = some now :=
    congrArg some (reach_of_le later.leftReached)
  simp only [HazardFifo.popIf]
  split
  · exact latest
  · split
    · split <;> exact latest
    · split
      · simp only [HazardFifo.popExtra]
        split <;> exact latest
      · exact latest

theorem Together.popReported (receipt : HazardPop) (nativeSeen : ℕ) :
    (f.popReported receipt nativeSeen now).1 = (g.popReported receipt nativeSeen now).1 ∧
      (f.popReported receipt nativeSeen now).2.1 = (g.popReported receipt nativeSeen now).2.1 ∧
      Together now (f.popReported receipt nativeSeen now).2.2
        (g.popReported receipt nativeSeen now).2.2 := by
  apply together.popIf onward receipt
  · intro run other left right same
    cases same <;> rfl
  · intro f g same
    rw [same.newestExtra]

theorem Together.popAtDrain (receipt : HazardPop) (birthFloor : Instant) :
    (f.popAtDrain receipt birthFloor now).1 = (g.popAtDrain receipt birthFloor now).1 ∧
      (f.popAtDrain receipt birthFloor now).2.1 = (g.popAtDrain receipt birthFloor now).2.1 ∧
      Together now (f.popAtDrain receipt birthFloor now).2.2
        (g.popAtDrain receipt birthFloor now).2.2 := by
  apply together.popIf onward receipt
  · intro run other left right same
    cases same <;> rfl
  · intro f g same
    rw [same.newestExtraAccept]

theorem Together.clear :
    (f.clear now).1 = (g.clear now).1 ∧ Together now (f.clear now).2 (g.clear now).2 := by
  have later := together.later onward
  exact ⟨later.same.clear, together_of_same (later.left.advance now) (later.right.advance now)
    (congrArg some (reach_of_le later.leftReached)) later.same⟩

theorem Together.entriesAt :
    (f.entriesAt now).1 = (g.entriesAt now).1 ∧
      Together now (f.entriesAt now).2 (g.entriesAt now).2 := by
  have later := together.later onward
  exact ⟨later.same.entriesAt, together_of_same (later.left.advance now) (later.right.advance now)
    (congrArg some (reach_of_le later.leftReached)) later.same⟩

end HazardFifo

/-! ## Readers -/

namespace Reader

variable {r s : Reader} {now clock : Instant}

/-- The FIFOs are together, and the callers hold the same receipts. -/
structure Together (clock : Instant) (r s : Reader) : Prop where
  fifo : HazardFifo.Together clock r.fifo s.fifo
  receipts : r.receipts = s.receipts

theorem start_together (clock : Instant) : Together clock start start where
  fifo := by
    refine ⟨HazardFifo.default_sane, HazardFifo.default_sane, ?_, ?_,
      (HazardFifo.default_sane.advance clock).same⟩ <;>
    · intro latest found
      cases found
  receipts := rfl

def clockAfter (clock : Instant) (call : HazardCall) : Instant := call.now?.getD clock

theorem Together.popped (together : Together clock r s) (receipt : ℕ)
    {left right : Pop × HazardPop × HazardFifo} (pop : left.1 = right.1)
    (spent : left.2.1 = right.2.1) (fifo : HazardFifo.Together now left.2.2 right.2.2) :
    (r.popped receipt left).1 = (s.popped receipt right).1 ∧
      Together now (r.popped receipt left).2 (s.popped receipt right).2 := by
  simp only [Reader.popped, pop, spent, together.receipts]
  exact ⟨trivial, fifo, rfl⟩

theorem Together.call (together : Together clock r s) (call : HazardCall)
    (onward : ∀ now, call.now? = some now → clock ≤ now) :
    (r.call call).1 = (s.call call).1 ∧
      Together (clockAfter clock call) (r.call call).2 (s.call call).2 := by
  have fifo := together.fifo
  have receipts := together.receipts
  cases call with
  | op made =>
    cases made with
    | number =>
      have same := fifo.number
      exact ⟨congrArg HazardAnswer.number same.1, same.2, receipts⟩
    | enter seq now backlog => exact ⟨rfl, fifo.enter (onward now rfl) seq backlog, receipts⟩
    | accept now backlog =>
      have same := fifo.accept (onward now rfl) backlog
      exact ⟨congrArg HazardAnswer.number same.1, same.2, receipts⟩
    | latch now => exact ⟨rfl, fifo.latch (onward now rfl), receipts⟩
    | recordsPending now pending =>
      exact ⟨rfl, fifo.recordsPending (onward now rfl) pending, receipts⟩
    | popReported receipt nativeSeen now =>
      have same := fifo.popReported (onward now rfl) (r.receipts receipt) nativeSeen
      simp only [Reader.call]
      rw [← receipts]
      exact together.popped receipt same.1 same.2.1 same.2.2
    | popAtDrain receipt birthFloor now =>
      have same := fifo.popAtDrain (onward now rfl) (r.receipts receipt) birthFloor
      simp only [Reader.call]
      rw [← receipts]
      exact together.popped receipt same.1 same.2.1 same.2.2
    | clear now =>
      have same := fifo.clear (onward now rfl)
      exact ⟨congrArg HazardAnswer.verdict same.1, same.2, receipts⟩
    | entries now =>
      have same := fifo.entriesAt (onward now rfl)
      exact ⟨congrArg HazardAnswer.views same.1, same.2, receipts⟩
  | clearAt now =>
    have same := (fifo.clear (onward now rfl)).1
    simp only [Reader.call, HazardFifo.clearAt_eq_clear, same]
    exact ⟨trivial, fifo.later (onward now rfl), receipts⟩
  | extra => exact ⟨congrArg HazardAnswer.count fifo.same.extra, fifo, receipts⟩
  | exhausted => exact ⟨congrArg HazardAnswer.verdict fifo.same.exhausted, fifo, receipts⟩

theorem Together.read (together : Together clock r s) {call : HazardCall}
    (reads : call.reads) (onward : ∀ now, call.now? = some now → clock ≤ now) :
    Together (clockAfter clock call) (r.call call).2 s := by
  cases call with
  | op made =>
    cases made with
    | clear now => exact ⟨together.fifo.read (onward now rfl), together.receipts⟩
    | entries now => exact ⟨together.fifo.read (onward now rfl), together.receipts⟩
    | _ => cases reads
  | _ => cases reads

/-- The answers of a run to the calls that are not marked as put in. -/
def answers (r : Reader) : List (HazardCall × Bool) → List HazardAnswer
  | [] => []
  | (call, putIn) :: rest =>
    if putIn then (r.call call).2.answers rest
    else (r.call call).1 :: (r.call call).2.answers rest

def InOrder (clock : Instant) : List (HazardCall × Bool) → Prop
  | [] => True
  | (call, _) :: rest =>
    (∀ now, call.now? = some now → clock ≤ now) ∧ InOrder (clockAfter clock call) rest

theorem Together.answers_eq {calls : List (HazardCall × Bool)} (together : Together clock r s)
    (inOrder : InOrder clock calls) (putIn : ∀ call, (call, true) ∈ calls → call.reads) :
    r.answers calls = s.answers (calls.filter fun call => !call.2) := by
  induction calls generalizing r s clock with
  | nil => rfl
  | cons head rest ih =>
    rcases head with ⟨call, marked⟩
    have later : ∀ other, (other, true) ∈ rest → other.reads :=
      fun other mem => putIn other (List.mem_cons_of_mem _ mem)
    cases marked with
    | true =>
      have read := together.read (putIn call List.mem_cons_self) inOrder.1
      exact ih read inOrder.2 later
    | false =>
      rcases together.call call inOrder.1 with ⟨same, after⟩
      have rest := ih after inOrder.2 later
      simp only [List.filter_cons, Bool.not_false, if_true, Reader.answers, same, rest]

end Reader

/-- `clear_at` reads what `clear` would answer, from whatever calls at whatever instants; and
readings put between the calls of a run in order change no answer to the others. -/
theorem reading_changes_nothing :
    (∀ (calls : List HazardCall) (now : Instant),
      (Reader.start.run calls).fifo.clearAt now = ((Reader.start.run calls).fifo.clear now).1) ∧
      ∀ (clock : Instant) (calls : List (HazardCall × Bool)), Reader.InOrder clock calls →
        (∀ call, (call, true) ∈ calls → call.reads = true) →
        Reader.start.answers calls = Reader.start.answers (calls.filter fun call => !call.2) :=
  ⟨fun _ now => HazardFifo.clearAt_eq_clear _ now, fun clock _ inOrder putIn =>
    (Reader.start_together clock).answers_eq inOrder putIn⟩

/-- A reading before the first candidate starts the clock, and one while it is quiet moves it. -/
def readBetween : List (HazardCall × Bool) :=
  [(HazardCall.op (.clear 0), true), (.op (.accept (fromSecs 5) false), false),
    (.op (.entries (fromSecs 10)), true), (.op (.clear (fromSecs 20)), false)]

theorem reading_changes_nothing_between :
    Reader.start.answers readBetween =
      Reader.start.answers (readBetween.filter fun call => !call.2) := by
  apply reading_changes_nothing.2 0 readBetween
  · refine ⟨?_, ?_, ?_, ?_, trivial⟩ <;>
    · intro now made
      cases made
      decide
  · intro call mem
    simp only [readBetween, List.mem_cons, Prod.mk.injEq, List.not_mem_nil, or_false] at mem
    rcases mem with ⟨rfl, _⟩ | ⟨_, marked⟩ | ⟨rfl, _⟩ | ⟨_, marked⟩
    · rfl
    · cases marked
    · rfl
    · cases marked

end AgentDeck.Probe
