import AgentDeck.Doorbell.Steps

/-!
# Every handler takes a listed step

Each handler of the transaction is some shifts and one leaf, under what its caller has established:
which phase it runs in, whether the job can still be queued, and which powers the step has.
-/

namespace AgentDeck.Doorbell

variable {input : Input} {powers : Powers} {t : Txn} {world : World}

namespace Stepped

/-- A reply that ends the step. -/
theorem leaf {reply : Reply} (leaf : Leaf input powers t world reply) :
    Stepped input powers t world reply :=
  ⟨t, world, t.admissionLost, .refl t world, leaf, fun _ => rfl⟩

/-- A handler that forgets the lost admission before it ends the step. -/
theorem forget {reply : Reply} (lost : Bool)
    (leaf : Leaf input powers { t with admissionLost := lost } world reply)
    (failed : reply.txn.phase.sound = false) : Stepped input powers t world reply :=
  ⟨t, world, lost, .refl t world, leaf, by simp [failed]⟩

/-- A change that stays in the step, before the rest of it. -/
theorem shift {middle : Txn} {between : World} {reply : Reply}
    (shift : Shift input t world middle between)
    (stepped : Stepped input powers middle between reply) : Stepped input powers t world reply := by
  rcases stepped with ⟨last, lastWorld, lost, rest, leaf, kept⟩
  exact ⟨last, lastWorld, lost, .head shift rest, leaf, kept⟩

end Stepped

namespace Txn

/-! ## The seam -/

theorem readSeam_cases (t : Txn) (seam : Seam) (firstByte : Bool) (now : Instant) :
    (∃ time, t.readSeam seam firstByte now = (.contended time, t)) ∨
      ∃ read, some read ∈ seam ∧ t.readSeam seam firstByte now =
        ({ t with frame := read.frame }.verdict read firstByte now,
          { t with frame := read.frame }) := by
  cases seam with
  | nil => exact .inl ⟨_, rfl⟩
  | cons answer rest =>
    cases answer with
    | none => exact .inl ⟨_, rfl⟩
    | some read => exact .inr ⟨read, List.mem_cons_self, rfl⟩

variable {read : SeamRead} {firstByte : Bool} {now : Instant}

/-- Only a seam that gives no answer is contended. -/
theorem verdict_ne_contended {t : Txn} {time : Instant} :
    t.verdict read firstByte now ≠ .contended time := by
  intro same
  simp only [verdict] at same
  repeat' split at same
  all_goals cases same

theorem deadline_le_of_verdict {t : Txn} (expired : t.verdict read firstByte now = .expired) :
    t.deadline ≤ now := by
  simp only [verdict] at expired
  repeat' split at expired
  all_goals first | assumption | cases expired

theorem firstByte_of_jobMark {t : Txn} (jobMark : t.verdict read firstByte now = .jobMark) :
    firstByte = false := by
  simp only [verdict] at jobMark
  repeat' split at jobMark
  all_goals first | cases jobMark; done | skip
  rename_i moved
  exact moved.1

/-- A verdict that passes has checked the frame, the job's mark and the input mode. -/
theorem passes_of_verdict {frame : Frame} (within : some read ∈ input.seam)
    (passed : { t with frame := read.frame }.verdict read false input.now = .pass frame) :
    frame = read.frame ∧ { t with frame := read.frame }.Passes input read := by
  simp only [verdict] at passed
  repeat' split at passed
  all_goals first | cases passed; done | skip
  rename_i isOpen before _ mark _ mode layout
  simp only [Bool.not_eq_false, not_and, not_not, not_or, Nat.not_le, true_implies]
    at isOpen before mark layout
  cases passed
  exact ⟨rfl, within, isOpen, mark, mode, rfl, layout.1, layout.2, before⟩

/-! ## Waiting and pausing -/

theorem wait_stepped (busy : t.Busy) : Stepped input powers t world (t.wait world input.now) := by
  apply Stepped.leaf
  apply Leaf.rest
  · intro action present
    exact ⟨_, List.mem_singleton.mp present⟩
  · exact busy

theorem wake_stepped (busy : t.Busy) (time : Instant) :
    Stepped input powers t world ⟨[.wakeAt time], t, world⟩ := by
  apply Stepped.leaf
  apply Leaf.rest
  · intro action present
    exact ⟨_, List.mem_singleton.mp present⟩
  · exact busy

theorem edge_stepped (busy : t.Busy) : Stepped input powers t world (t.edge world input.now) := by
  simp only [edge]
  split
  · rename_i clean
    exact Stepped.shift (.epoch clean) (wake_stepped (by exact busy) input.now)
  · exact wait_stepped busy

variable (cause : Cause)

/-- It ends the step in a pause, or in a release where the latch is resolved already. -/
theorem suspendAndPause_leaf (alive : t.phase.isDone = false) (fallible : t.Fallible input)
    (leaves : t.isQueued = true → t.stallsResolved world.cell = true → powers.leaves) :
    Leaf input powers t world (t.suspendAndPause world cause input.now) := by
  by_cases opened : world.cell = .opened t.attempt
  · have moved : world.cell.suspend t.attempt cause =
        (.ok world.cell, .suspended t.attempt cause) := by
      simp [Latch.suspend, Latch.advance_eq, Transition.accepts, Transition.target, opened]
    simp only [suspendAndPause, moved]
    exact .suspended cause _ alive fallible opened
  · have refused : world.cell.suspend t.attempt cause = (.error world.cell, world.cell) := by
      simp [Latch.suspend, Latch.advance_eq, Transition.accepts, opened]
    have paused : Leaf input powers t world
        ((t.enter (.pause cause) input.now).wait world input.now) := .paused cause _ alive fallible
    have settled : ∀ outcome, t.Settles world.cell outcome → t.stallsResolved world.cell = true →
        Leaf input powers t world (t.release world outcome) :=
      fun outcome settles resolved => .settled outcome settles fun queued => leaves queued resolved
    simp only [suspendAndPause, refused]
    split
    case h_1 a cell | h_2 a cell =>
      split
      · rename_i same
        subst same
        exact settled _ ⟨_, cell, by decide, by decide⟩ (by simp [stallsResolved, cell])
      · exact paused
    case h_3 a cell =>
      split
      · rename_i same
        subst same
        exact settled _ cell (by simp [stallsResolved, cell])
      · exact paused
    case h_4 => exact paused

theorem suspendAndPause_phase (t : Txn) (world : World) (cause : Cause) (now : Instant) :
    (t.suspendAndPause world cause now).txn.phase.sound = false := by
  simp only [suspendAndPause]
  repeat' split
  all_goals rfl

/-! ## Endings -/

theorem takeBack_cases (t : Txn) (world : World) :
    t.isQueued = false ∧ t.takeBack world = (t, world) ∨
      (∃ kind claim, t.job = .queued kind ∧ t.claim = some claim ∧
        world.claims[claim]? = some .queued ∧
        t.takeBack world = ({ t with job := .idle, claim := none },
          { world with claims := world.claims.set claim .withdrawn })) ∨
      (∃ kind claim, t.job = .queued kind ∧ t.claim = some claim ∧
        world.claims[claim]? = some .refused ∧
        t.takeBack world = ({ t with job := .idle, claim := none }, world)) ∨
      ∃ kind, t.job = .queued kind ∧ t.takeBack world = (t.started kind, world) := by
  cases job : t.job with
  | idle | running kind => exact .inl (by simp [isQueued, takeBack, job])
  | queued kind =>
    refine .inr ?_
    cases claim : t.claim with
    | none => exact .inr (.inr ⟨kind, rfl, by simp [takeBack, job, claim]⟩)
    | some place =>
      cases found : world.claims[place]? with
      | none => exact .inr (.inr ⟨kind, rfl, by simp [takeBack, *]⟩)
      | some state =>
        cases state with
        | queued => exact .inl ⟨kind, place, rfl, rfl, found, by simp [takeBack, *]⟩
        | refused => exact .inr (.inl ⟨kind, place, rfl, rfl, found, by simp [takeBack, *]⟩)
        | started | withdrawn => exact .inr (.inr ⟨kind, rfl, by simp [takeBack, *]⟩)

/-- After it nothing of the doorbell's is queued. -/
theorem takeBack_isQueued (t : Txn) (world : World) : (t.takeBack world).1.isQueued = false := by
  rcases takeBack_cases t world with ⟨unqueued, same⟩ | ⟨_, _, _, _, _, same⟩ |
    ⟨_, _, _, _, _, same⟩ | ⟨_, _, same⟩
  · rw [same]
    exact unqueued
  all_goals
    rw [same]
    rfl

theorem takeBack_running (unwritten : t.wrote = false) (wrote : (t.takeBack world).1.wrote) :
    (t.takeBack world).1.job = .running .line := by
  rcases takeBack_cases t world with ⟨_, same⟩ | ⟨_, _, _, _, _, same⟩ | ⟨_, _, _, _, _, same⟩ |
    ⟨kind, _, same⟩
  · simp [same, unwritten] at wrote
  · simp [same, unwritten] at wrote
  · simp [same, unwritten] at wrote
  · simp only [same, started, unwritten, Bool.false_or, decide_eq_true_eq] at wrote
    simp only [same, started, wrote]

/-- Taking a job back may set `wrote` and never clears it. -/
theorem takeBack_unwritten (unwritten : (t.takeBack world).1.wrote = false) : t.wrote = false := by
  rcases takeBack_cases t world with ⟨_, same⟩ | ⟨_, _, _, _, _, same⟩ | ⟨_, _, _, _, _, same⟩ |
    ⟨kind, _, same⟩
  · rw [same] at unwritten
    exact unwritten
  · rw [same] at unwritten
    exact unwritten
  · rw [same] at unwritten
    exact unwritten
  · simp only [same, started, Bool.or_eq_false_iff] at unwritten
    exact unwritten.1

/-- It changes the job, its claim and `wrote`, and no other field. -/
theorem takeBack_frame (t : Txn) (world : World) : ∃ job claim wrote,
    (t.takeBack world).1 = { t with job := job, claim := claim, wrote := wrote } := by
  rcases takeBack_cases t world with ⟨_, same⟩ | ⟨_, _, _, _, _, same⟩ | ⟨_, _, _, _, _, same⟩ |
    ⟨_, _, same⟩ <;> exact ⟨_, _, _, congrArg Prod.fst same⟩

theorem takeBack_attempt (t : Txn) (world : World) : (t.takeBack world).1.attempt = t.attempt := by
  rcases takeBack_frame t world with ⟨_, _, _, same⟩
  rw [same]

theorem takeBack_phase (t : Txn) (world : World) : (t.takeBack world).1.phase = t.phase := by
  rcases takeBack_frame t world with ⟨_, _, _, same⟩
  rw [same]

theorem takeBack_cell (t : Txn) (world : World) : (t.takeBack world).2.cell = world.cell := by
  rcases takeBack_cases t world with ⟨_, same⟩ | ⟨_, _, _, _, _, same⟩ | ⟨_, _, _, _, _, same⟩ |
    ⟨_, _, same⟩ <;> rw [same]

theorem takeBack_lost (t : Txn) (world : World) (lost : Bool) :
    { t with admissionLost := lost }.takeBack world =
      ({ (t.takeBack world).1 with admissionLost := lost }, (t.takeBack world).2) := by
  simp only [takeBack]
  split
  · split <;> rfl
  · rfl
  · rfl

/-- The latch says how the attempt was settled. -/
theorem settles_of_settledOutcome {cell : Latch} {outcome : Outcome}
    (found : t.settledOutcome cell = some outcome) : t.Settles cell outcome := by
  simp only [settledOutcome] at found
  repeat' split at found
  all_goals
    first
    | cases found
      done
    | rename_i same
      subst same
      cases found
      simp [Settles]

/-- The deadline ends the doorbell, as not typed where it wrote nothing. -/
theorem expire_leaf (unqueued : t.isQueued = false) (ends : t.wrote = false → powers.ends) :
    Leaf input powers t world (t.expire world) := by
  cases wrote : t.wrote with
  | false =>
    simp only [expire, wrote]
    exact .notTyped .deadline wrote unqueued (.inl (ends wrote))
  | true =>
    have settled : ∀ outcome, t.Settles world.cell outcome →
        Leaf input powers t world (t.release world outcome) :=
      fun outcome settles => .settled outcome settles (by simp [unqueued])
    simp only [expire, wrote, Bool.not_true, Bool.false_eq_true, if_false]
    cases found : t.settledOutcome world.cell with
    | some outcome =>
      apply settled
      exact settles_of_settledOutcome found
    | none =>
      have late : ∀ a how, (world.cell.suspend t.attempt t.expireCause).1 =
          .error (.resolved a how) → how = .submitted ∨ how = .lateExact → a ≠ t.attempt := by
        intro a how refused exact same
        have cell : world.cell = .resolved a how := by
          simp only [Latch.suspend, Latch.advance_eq] at refused
          split at refused
          · cases refused
          · exact Except.error.inj refused
        rcases exact with rfl | rfl <;> simp [settledOutcome, cell, same] at found
      have expired : Leaf input powers t world
          (t.release { world with cell := (world.cell.suspend t.attempt t.expireCause).2 }
            (.unresolved t.expireCause)) := .expired wrote unqueued found
      simp only []
      split
      case h_1 a refused =>
        rw [if_neg (late a _ refused (.inl rfl))]
        exact expired
      case h_2 a refused =>
        rw [if_neg (late a _ refused (.inr rfl))]
        exact expired
      case h_3 => exact expired

theorem expire_phase (t : Txn) (world : World) : (t.expire world).txn.phase.isDone := by
  simp only [expire]
  repeat' split
  all_goals rfl

theorem finish_retired_leaf (isRetired : world.cell = .retired) (unqueued : t.isQueued = false) :
    Leaf input powers t world (t.finish world .retired input.now) := by
  cases wrote : t.wrote with
  | true =>
    simp only [finish, wrote]
    exact .retired isRetired wrote unqueued
  | false =>
    simp only [finish, wrote]
    exact .notTyped .retired wrote unqueued (.inr isRetired)

theorem conclude_expire_stepped (ends : (t.takeBack world).1.wrote = false → powers.ends) :
    Stepped input powers t world (t.conclude world .expire input.now) :=
  Stepped.shift .takeBack (Stepped.leaf (expire_leaf (takeBack_isQueued t world) ends))

/-- While the line's job runs, an ending that says nothing was typed waits for it. -/
theorem finish_notTyped_stepped (why : NotTyped) (lost : Bool) (unqueued : t.isQueued = false)
    (running : t.wrote = true → t.job = .running .line) (ends : t.wrote = false → powers.ends) :
    Stepped input powers { t with admissionLost := lost } world
      (t.finish world (.notTyped why) input.now) := by
  by_cases wrote : t.wrote = true
  · by_cases expired : t.deadline ≤ input.now
    · have finished : t.finish world (.notTyped why) input.now = t.expire world := by
        simp [finish, wrote, expired]
      rw [finished]
      apply Stepped.forget t.admissionLost
      · exact expire_leaf unqueued ends
      · exact Phase.sound_of_isDone (expire_phase t world)
    · have waits : t.finish world (.notTyped why) input.now =
          { t with admissionLost := true }.wait world input.now := by
        simp [finish, wrote, expired]
      rw [waits]
      exact Stepped.leaf (.lose _ wrote (running wrote))
  · have unwritten : t.wrote = false := Bool.eq_false_iff.mpr wrote
    have released : t.finish world (.notTyped why) input.now = t.notTyped world why := by
      simp [finish, unwritten]
    rw [released]
    apply Stepped.forget t.admissionLost
    · exact .notTyped why unwritten unqueued (.inl (ends unwritten))
    · rfl

theorem nothingWritten_stepped (why : NotTyped) (lost : Bool) (unwritten : t.wrote = false)
    (ends : (t.takeBack world).1.wrote = false → powers.ends) :
    Stepped input powers { t with admissionLost := lost } world
      (t.nothingWritten world why input.now) := by
  apply Stepped.shift .takeBack
  rw [takeBack_lost]
  exact finish_notTyped_stepped why lost (takeBack_isQueued t world) (takeBack_running unwritten)
    ends

theorem retired_stepped : Stepped input powers t world (t.retired world input.now) := by
  apply Stepped.shift .retire
  apply Stepped.shift .takeBack
  apply Stepped.leaf
  apply finish_retired_leaf
  · exact takeBack_cell t _
  · exact takeBack_isQueued t _

/-- Exact evidence for a line that was written ends the doorbell in any phase. -/
theorem evidence_stepped {reply : Reply} {token : RingToken} {exact : Bool}
    (answered : t.evidence world token exact input.now = some reply) :
    Stepped input powers t world reply := by
  have settled : ∀ how, world.cell = .resolved t.attempt how → how = .submitted ∨ how = .lateExact →
      Stepped input powers t world (t.conclude world .submitted input.now) := by
    intro how cell exact
    apply Stepped.shift .takeBack
    apply Stepped.leaf
    apply Leaf.settled
    · refine ⟨how, ?_, ?_, ?_⟩
      · rw [takeBack_cell, takeBack_attempt]
        exact cell
      all_goals rcases exact with rfl | rfl <;> decide
    · simp [takeBack_isQueued]
  simp only [evidence] at answered
  split at answered
  · cases answered
  · split at answered
    case h_1 a cell | h_2 a cell =>
      split at answered
      · rename_i same
        subst same
        cases answered
        exact settled _ cell (by simp)
      · cases answered
    case h_3 => cases answered

/-! ## Withdrawals -/

theorem suspendAndPause_stepped (cause : Cause) (lost : Bool) (alive : t.phase.isDone = false)
    (fallible : t.Fallible input)
    (leaves : t.isQueued = true → t.stallsResolved world.cell = true → powers.leaves) :
    Stepped input powers t world
      ({ t with admissionLost := lost }.suspendAndPause world cause input.now) := by
  apply Stepped.forget lost
  · exact suspendAndPause_leaf cause alive fallible leaves
  · exact suspendAndPause_phase _ world cause input.now

variable {seam : Seam}

/-- The deletes are sent only while the frame still shows what they are to remove. -/
theorem tryDeletes_stepped {deletes : ℕ} {cause : Cause}
    (within : ∀ answer ∈ seam, answer ∈ input.seam) (before : input.now < t.deadline)
    (phase : t.phase = .withdrawing) (withdrawal : t.withdrawal = some (deletes, cause))
    (idle : t.job = .idle) : Stepped input powers t world (t.tryDeletes world seam input.now) := by
  have busy : t.Busy := .inl (by rw [phase]; rfl)
  simp only [tryDeletes, withdrawal]
  rcases readSeam_cases t seam false input.now with ⟨time, contended⟩ | ⟨read, present, answered⟩
  · simp only [contended]
    exact wake_stepped busy time
  · have pauses : ∀ cause, Stepped input powers { t with frame := read.frame } world
        ({ t with frame := read.frame }.suspendAndPause world cause input.now) := by
      intro cause
      apply suspendAndPause_stepped
      · simp only [phase]
        rfl
      · simp [Fallible, phase]
      · simp [isQueued, idle]
    simp only [answered]
    apply Stepped.shift (.look read.frame)
    split
    case h_1 time verdict => exact absurd verdict verdict_ne_contended
    case h_2 frame verdict =>
      rcases passes_of_verdict (within _ present) verdict with ⟨_, passes⟩
      split
      · exact pauses cause
      · rename_i strict
        exact Stepped.leaf (.deletes read deletes cause phase withdrawal passes (not_not.mp strict))
    case h_3 => exact edge_stepped busy
    case h_4 => exact retired_stepped
    case h_5 verdict => exact absurd (deadline_le_of_verdict verdict) (Nat.not_le.mpr before)
    case h_6 => exact pauses .modeChanged
    case h_7 | h_8 => exact pauses cause

/-- A withdrawal is entered where the deletes may still be sent. -/
theorem withdraw_stepped (deletes : ℕ) (cause : Cause) (lost : Bool)
    (within : ∀ answer ∈ seam, answer ∈ input.seam) (before : input.now < t.deadline)
    (phase : t.phase.sound = true ∨ t.phase.isPause = true ∧ t.withdrawal = none)
    (fallible : t.Fallible input) (idle : t.job = .idle)
    (free : t.mayWithdraw input.now = true ∨ t.phase = .echo ∨ t.phase = .preCr) :
    Stepped input powers t world
      ({ t with admissionLost := lost }.withdraw world deletes cause seam input.now) := by
  apply Stepped.shift (.withdraw deletes cause lost phase fallible free)
  exact tryDeletes_stepped within before rfl rfl idle

theorem idle_of_mayWithdraw (free : t.mayWithdraw now) : t.job = .idle := by
  simp only [mayWithdraw, Bool.and_eq_true, decide_eq_true_eq] at free
  exact free.1.2

/-- A doorbell that cannot be resolved withdraws, or pauses if it may not. -/
theorem unresolve_stepped (cause : Cause) (lost : Bool)
    (within : ∀ answer ∈ seam, answer ∈ input.seam) (before : input.now < t.deadline)
    (sound : t.phase.sound) (fallible : t.Fallible input)
    (leaves : t.isQueued = true → t.stallsResolved world.cell = true → powers.leaves) :
    Stepped input powers t world
      ({ t with admissionLost := lost }.unresolve world cause seam input.now) := by
  have alive : t.phase.isDone = false := by
    revert sound
    cases t.phase <;> simp [Phase.sound, Phase.early, Phase.isDone]
  simp only [unresolve]
  split
  · rename_i deletes found
    have free : t.mayWithdraw input.now := by
      by_contra refused
      have never : { t with admissionLost := lost }.mayWithdraw input.now = false :=
        Bool.eq_false_iff.mpr refused
      simp [never] at found
    exact withdraw_stepped deletes cause lost within before (.inl sound) fallible
      (idle_of_mayWithdraw free) (.inl free)
  · exact suspendAndPause_stepped cause lost alive fallible leaves

theorem unresolve_idle_stepped (within : ∀ answer ∈ seam, answer ∈ input.seam)
    (before : input.now < t.deadline) (sound : t.phase.sound) (fallible : t.Fallible input)
    (idle : t.job = .idle) :
    Stepped input powers t world (t.unresolve world cause seam input.now) :=
  unresolve_stepped cause t.admissionLost within before sound fallible (by simp [isQueued, idle])

theorem note_stepped {reply : Reply} (what : String)
    (stepped : Stepped input powers (t.noteUnresolved what) world reply) :
    Stepped input powers t world reply :=
  Stepped.shift (.note _) stepped

theorem unresolve_noted_stepped (what : String) (cause : Cause)
    (within : ∀ answer ∈ seam, answer ∈ input.seam) (before : input.now < t.deadline)
    (sound : t.phase.sound) (fallible : t.Fallible input) (idle : t.job = .idle) :
    Stepped input powers t world
      ((t.noteUnresolved what).unresolve world cause seam input.now) := by
  apply note_stepped what
  exact unresolve_idle_stepped cause within before sound fallible idle

/-! ## Typing the line -/

theorem takeBack_idle (idle : t.job = .idle) : t.takeBack world = (t, world) := by
  simp [takeBack, idle]

/-- The first line is typed only where nothing was written; a refusal may end the doorbell
unwritten. -/
theorem tryFirstLine_stepped (phase : t.phase = .typing 0) (unwritten : t.wrote = false)
    (ends : t.refusesLine input = true → powers.ends) :
    Stepped input powers t world (t.tryFirstLine world input.seam input.now) := by
  have busy : t.Busy := .inl (by rw [phase]; rfl)
  simp only [tryFirstLine]
  rcases readSeam_cases t input.seam true input.now with ⟨time, contended⟩ | ⟨read, _, answered⟩
  · simp only [contended]
    exact wake_stepped busy time
  · have refused : ∀ why, t.refusesLine input = true →
        Stepped input powers { t with frame := read.frame } world
          ({ t with frame := read.frame }.nothingWritten world why input.now) := by
      intro why refuses
      exact nothingWritten_stepped (t := { t with frame := read.frame }) why t.admissionLost
        unwritten fun _ => ends refuses
    simp only [answered]
    apply Stepped.shift (.look read.frame)
    split
    case h_1 time verdict => exact absurd verdict verdict_ne_contended
    case h_2 frame verdict =>
      split
      · exact Stepped.leaf (.line 0 phase)
      · rename_i notReady
        have refuses : t.refusesLine input := by
          simp only [refusesLine, answered, verdict]
          simpa using notReady
        split
        · exact refused _ refuses
        · exact refused _ refuses
    case h_8 verdict => cases firstByte_of_jobMark verdict
    case h_3 verdict | h_4 verdict | h_5 verdict | h_6 verdict | h_7 verdict =>
      apply refused
      simp only [refusesLine, answered, verdict]

variable {stage : ℕ}

/-- A later part is typed only while the frame holds the part before it. -/
theorem tryLaterLine_stepped (within : ∀ answer ∈ seam, answer ∈ input.seam)
    (before : input.now < t.deadline) (phase : t.phase = .typing stage) (later : stage ≠ 0)
    (idle : t.job = .idle) :
    Stepped input powers t world (t.tryLaterLine world stage seam input.now) := by
  have busy : t.Busy := .inl (by rw [phase]; rfl)
  have sound : t.phase.sound := by rw [phase]; rfl
  have fallible : t.Fallible input := by simp [Fallible, phase, later]
  have rest : ∀ answer ∈ seam.tail, answer ∈ input.seam :=
    fun answer present => within answer (List.mem_of_mem_tail present)
  simp only [tryLaterLine]
  rcases readSeam_cases t seam false input.now with ⟨time, contended⟩ | ⟨read, present, answered⟩
  · simp only [contended]
    exact wake_stepped busy time
  · simp only [answered]
    apply Stepped.shift (.look read.frame)
    split
    case h_1 time verdict => exact absurd verdict verdict_ne_contended
    case h_2 frame verdict =>
      split
      · exact Stepped.leaf (.line stage phase)
      · exact unresolve_idle_stepped _ rest before sound fallible idle
    case h_3 => exact wait_stepped busy
    case h_4 => exact unresolve_idle_stepped _ rest before sound fallible idle
    case h_5 => exact retired_stepped
    case h_6 | h_7 | h_8 =>
      exact unresolve_noted_stepped _ _ rest before sound fallible idle

section

variable (before : input.now < t.deadline)

include before

theorem tryLine_stepped (phase : t.phase = .typing stage) (idle : t.job = .idle)
    (fresh : stage = 0 → t.wrote = false)
    (ends : stage = 0 → t.refusesLine input = true → powers.ends) :
    Stepped input powers t world (t.tryLine world stage input.seam input.now) := by
  simp only [tryLine]
  split
  · rename_i first
    subst first
    exact tryFirstLine_stepped phase (fresh rfl) (ends rfl)
  · rename_i later
    exact tryLaterLine_stepped (fun _ => id) before phase later idle

/-- The rest of the line follows the echo of its head. -/
theorem headEcho_stepped (phase : t.phase = .headEcho) (idle : t.job = .idle) :
    Stepped input powers t world (t.headEcho world input.seam input.now) := by
  have busy : t.Busy := .inl (by rw [phase]; rfl)
  have sound : t.phase.sound := by rw [phase]; rfl
  have fallible : t.Fallible input := by simp [Fallible, phase]
  simp only [headEcho]
  split
  · exact edge_stepped busy
  split
  · exact unresolve_idle_stepped _ (fun _ => id) before sound fallible idle
  split
  · apply Stepped.shift (.typeRest phase)
    exact tryLine_stepped before rfl idle (by simp) (by simp)
  split
  · exact unresolve_noted_stepped _ _ (fun _ => id) before sound fallible idle
  · exact wait_stepped busy

theorem cancelAfterHead_stepped
    (phase : t.phase = .headEcho ∨ ∃ stage, stage ≠ 0 ∧ t.phase = .typing stage)
    (idle : t.job = .idle) :
    Stepped input powers t world (t.cancelAfterHead world input.seam input.now) := by
  have facts : t.phase.jobless = true ∧ t.phase.sound = true ∧ t.Fallible input := by
    rcases phase with phase | ⟨stage, later, phase⟩
    · simp [phase, Fallible, Phase.jobless, Phase.sound, Phase.early]
    · simp [phase, later, Fallible, Phase.jobless, Phase.sound, Phase.early]
  rcases facts with ⟨jobless, sound, fallible⟩
  have busy : t.Busy := .inl jobless
  simp only [cancelAfterHead]
  split
  · exact edge_stepped busy
  split
  · exact unresolve_idle_stepped _ (fun _ => id) before sound fallible idle
  split
  · apply note_stepped "cancel_after_head: admission lost"
    exact unresolve_stepped _ false (fun _ => id) before sound fallible
      (by simp [isQueued, noteUnresolved, idle])
  split
  · exact unresolve_idle_stepped _ (fun _ => id) before sound fallible idle
  · exact wait_stepped busy

theorem afterHead_stepped (phase : t.phase = .headEcho) (idle : t.job = .idle) :
    Stepped input powers t world (t.afterHead world input.seam input.now) := by
  simp only [afterHead]
  split
  · exact cancelAfterHead_stepped before (.inl phase) idle
  · exact headEcho_stepped before phase idle

/-! ## The Enter -/

theorem preCr_stepped (phase : t.phase = .preCr) (idle : t.job = .idle)
    (kept : t.admissionLost = true → t.caps.deleteKey = false ∨ t.lineDoneAt = some input.now) :
    Stepped input powers t world (t.preCr world input.seam input.now) := by
  have busy : t.Busy := .inl (by rw [phase]; rfl)
  have sound : t.phase.sound := by rw [phase]; rfl
  have fallible : t.Fallible input := by simp [Fallible, phase]
  have rest : ∀ answer ∈ input.seam.tail, answer ∈ input.seam := fun _ => List.mem_of_mem_tail
  simp only [preCr]
  split
  · exact wake_stepped busy _
  rename_i floor
  rcases readSeam_cases t input.seam false input.now with
    ⟨time, contended⟩ | ⟨read, present, answered⟩
  · simp only [contended]
    exact wake_stepped busy time
  · simp only [answered]
    apply Stepped.shift (.look read.frame)
    split
    case h_1 time verdict => exact absurd verdict verdict_ne_contended
    case h_2 frame verdict =>
      rcases passes_of_verdict present verdict with ⟨rfl, passes⟩
      split
      · exact unresolve_idle_stepped _ rest before sound fallible idle
      rename_i dialog
      split
      · exact unresolve_noted_stepped _ _ rest before sound fallible idle
      rename_i exact
      have late : t.lineDoneAt.getD input.now + submitDelay ≤ input.now := Nat.not_lt.mp floor
      apply Stepped.leaf
      refine .cr read phase passes ?_ (by simpa using exact) late ?_
      · simpa using dialog
      · intro lost
        rcases kept lost with keyless | justDone
        · exact keyless
        · have positive : 0 < submitDelay := by decide
          rw [justDone] at late
          exact absurd late (Nat.not_le.mpr (Nat.lt_add_of_pos_right positive))
    case h_3 => exact edge_stepped busy
    case h_4 => exact unresolve_idle_stepped _ rest before sound fallible idle
    case h_5 => exact retired_stepped
    case h_6 verdict => exact absurd (deadline_le_of_verdict verdict) (Nat.not_le.mpr before)
    case h_7 | h_8 => exact unresolve_noted_stepped _ _ rest before sound fallible idle

theorem echo_stepped (phase : t.phase = .echo) (idle : t.job = .idle)
    (kept : t.admissionLost = true → t.caps.deleteKey = false ∨ t.lineDoneAt = some input.now) :
    Stepped input powers t world (t.echo world input.seam input.now) := by
  have busy : t.Busy := .inl (by rw [phase]; rfl)
  have sound : t.phase.sound := by rw [phase]; rfl
  have fallible : t.Fallible input := by simp [Fallible, phase]
  simp only [echo]
  split
  · exact edge_stepped busy
  split
  · exact unresolve_idle_stepped _ (fun _ => id) before sound fallible idle
  split
  · apply Stepped.shift (.echoed phase)
    exact preCr_stepped before rfl idle kept
  split
  · exact unresolve_noted_stepped _ _ (fun _ => id) before sound fallible idle
  · exact wait_stepped busy

/-- How a line's job ended decides between its echo, its next part and a withdrawal. -/
theorem lineEnded_stepped {accepted : ℕ} {ok : Bool} (phase : t.phase = .lineJob stage)
    (event : input.event = .jobEnded accepted ok) (idle : t.job = .idle)
    (ends : stage = 0 → accepted = 0 → powers.ends) :
    Stepped input powers t world
      (t.lineEnded world stage accepted ok input.seam input.now) := by
  simp only [lineEnded]
  split
  · rename_i nothing
    rcases nothing with ⟨rfl, rfl⟩
    apply Stepped.shift (.noneTaken ok phase event)
    exact nothingWritten_stepped (t := { t.takeLine 0 0 with wrote := false }) .writeFailed
      t.admissionLost rfl fun _ => ends rfl rfl
  rename_i taken
  split
  · apply Stepped.shift (.partTaken stage accepted ok phase event taken)
    refine unresolve_idle_stepped _ (fun _ => id) ?_ ?_ ?_ ?_
    · exact before
    · change t.phase.sound = true
      rw [phase]
      rfl
    · simp [Fallible, takeLine, phase]
    · exact idle
  rename_i full
  simp only [not_or, Bool.not_eq_false, Nat.not_lt] at full
  rcases full with ⟨rfl, full⟩
  split
  · rename_i last
    apply Stepped.shift (.lineTaken stage accepted phase event full last taken)
    exact echo_stepped before rfl idle fun _ => .inr rfl
  · rename_i more
    apply Stepped.shift (.headTaken stage accepted phase event full (Nat.not_le.mp more) taken)
    exact afterHead_stepped before rfl idle

theorem cancelAfterLine_stepped (phase : t.phase = .echo ∨ t.phase = .preCr)
    (idle : t.job = .idle) :
    Stepped input powers t world
      ({ t with admissionLost := false }.cancelAfterLine world input.seam input.now) := by
  have facts : t.phase.sound = true ∧ t.Fallible input := by
    rcases phase with phase | phase <;> simp [phase, Fallible, Phase.sound, Phase.early]
  have unresolves : Stepped input powers t world
      ({ t with admissionLost := false }.unresolve world .echoMismatch input.seam input.now) :=
    unresolve_stepped _ false (fun _ => id) before facts.1 facts.2 (by simp [isQueued, idle])
  simp only [cancelAfterLine]
  split
  · split
    · split
      · rename_i deletes _
        apply note_stepped "cancel_after_line: admission lost"
        exact withdraw_stepped deletes .echoMismatch false (fun _ => id) before
          (.inl facts.1) facts.2
          idle (.inr phase)
      · exact unresolves
    · split
      · rename_i keyless
        apply Stepped.shift (.cancelled phase keyless)
        exact preCr_stepped before rfl idle (by simp [enter])
      · exact unresolves
  · exact unresolves

end

/-! ## After the Enter -/

theorem takeEpoch_stepped {reply : Reply} (stepped : Stepped input powers t.takeEpoch world reply) :
    Stepped input powers t world reply := by
  simp only [takeEpoch] at stepped
  split at stepped
  · rename_i clean
    exact Stepped.shift (.epoch clean) stepped
  · exact stepped

@[simp]
theorem takeEpoch_phase (t : Txn) : t.takeEpoch.phase = t.phase := by
  simp only [takeEpoch]
  split <;> rfl

@[simp]
theorem takeEpoch_job (t : Txn) : t.takeEpoch.job = t.job := by
  simp only [takeEpoch]
  split <;> rfl

@[simp]
theorem takeEpoch_deadline (t : Txn) : t.takeEpoch.deadline = t.deadline := by
  simp only [takeEpoch]
  split <;> rfl

@[simp]
theorem takeEpoch_frame (t : Txn) : t.takeEpoch.frame = t.frame := by
  simp only [takeEpoch]
  split <;> rfl

@[simp]
theorem takeEpoch_attempt (t : Txn) : t.takeEpoch.attempt = t.attempt := by
  simp only [takeEpoch]
  split <;> rfl

theorem takeEpoch_pausesResolved (t : Txn) (cell : Latch) :
    t.takeEpoch.pausesResolved cell = t.pausesResolved cell := by
  simp only [takeEpoch]
  split <;> rfl

/-- After the return, the transcript's echo resolves the attempt; a wait without it ends in a
withdrawal or a pause. -/
theorem confirm_stepped (before : input.now < t.deadline) (phase : t.phase = .confirm)
    (idle : t.job = .idle) :
    Stepped input powers t world (t.confirm world input.seam input.now) := by
  apply takeEpoch_stepped
  have busy : t.takeEpoch.Busy := .inl (by rw [takeEpoch_phase, phase]; rfl)
  have sound : t.takeEpoch.phase.sound := by rw [takeEpoch_phase, phase]; rfl
  have fallible : t.takeEpoch.Fallible input := by simp [Fallible, phase]
  have unqueued : t.takeEpoch.isQueued = false := by simp [isQueued, idle]
  have unresolves : ∀ cause, Stepped input powers t.takeEpoch world
      (t.takeEpoch.unresolve world cause input.seam input.now) := fun cause =>
    unresolve_idle_stepped cause (fun _ => id) (by simpa using before) sound fallible
      (by simpa using idle)
  simp only [confirm]
  split
  · exact unresolves _
  split
  · exact Stepped.leaf (.submitted (by simp [unqueued]) (.inl (by simpa using phase)))
  split
  · exact wake_stepped busy _
  split
  · apply Stepped.leaf
    exact suspendAndPause_leaf _ (by simp [phase, Phase.isDone]) fallible (by simp [unqueued])
  · exact unresolves _

/-- A withdrawal is confirmed by an empty composer. -/
theorem confirmWithdrawn_stepped (phase : t.phase = .confirmWithdrawn)
    (confirms : t.frame.clean = true → t.frame.placeholderEmpty = true → powers.confirms) :
    Stepped input powers t world (t.confirmWithdrawn world input.now) := by
  apply takeEpoch_stepped
  rw [← takeEpoch_phase] at phase
  simp only [confirmWithdrawn]
  split
  · rename_i shown
    simp only [takeEpoch_frame, Bool.and_eq_true] at shown
    exact Stepped.leaf (.withdrawn phase (confirms shown.1 shown.2))
  · exact wait_stepped (.inl (by rw [phase]; rfl))

theorem pausesResolved_of_echo {cell : Latch} (echoed : t.transcriptEcho)
    (moved : (cell.resolve t.attempt .submitted).1.isOk) : t.pausesResolved cell := by
  simp only [Latch.resolve, Latch.advance_eq] at moved
  split at moved
  · cases cell <;> simp_all [Transition.accepts, pausesResolved]
  · cases moved

/-- Late evidence or a strict withdrawal still resolves a paused attempt. -/
theorem pause_stepped {cause : Cause} (before : input.now < t.deadline)
    (phase : t.phase = .pause cause)
    (leaves : t.isQueued = true → t.pausesResolved world.cell = true → powers.leaves) :
    Stepped input powers t world (t.pause world cause input.seam input.now) := by
  apply takeEpoch_stepped
  have leaves : t.takeEpoch.isQueued = true → t.takeEpoch.pausesResolved world.cell = true →
      powers.leaves = true := by
    simpa only [isQueued, takeEpoch_job, takeEpoch_pausesResolved] using leaves
  have fallible : t.takeEpoch.Fallible input := by simp [Fallible, phase]
  rw [← takeEpoch_phase] at phase
  rw [← takeEpoch_deadline] at before
  have resolved : ∀ how, world.cell = .resolved t.takeEpoch.attempt how →
      t.takeEpoch.pausesResolved world.cell = true := by
    intro how cell
    simp [pausesResolved, cell]
  have released : ∀ outcome, t.takeEpoch.Settles world.cell outcome →
      t.takeEpoch.pausesResolved world.cell = true →
      Stepped input powers t.takeEpoch world (t.takeEpoch.release world outcome) :=
    fun outcome settles resolved =>
      Stepped.leaf (.settled outcome settles fun queued => leaves queued resolved)
  have isPause : t.takeEpoch.phase.isPause := by
    rw [phase]
    rfl
  simp only [pause]
  split
  case' h_1 a how cell =>
    split
    case isTrue same =>
      subst same
      cases how with
      | withdrawn => exact released _ cell (resolved _ cell)
      | user => exact released _ (.inr cell) (resolved _ cell)
      | notTyped | submitted | lateExact =>
        exact released _ ⟨_, cell, by decide, by decide⟩ (resolved _ cell)
  -- The cell has not resolved this attempt: an echo, a withdrawal or another wait.
  all_goals
    split
    · rename_i echoed
      simp only [Bool.and_eq_true] at echoed
      exact Stepped.leaf
        (.submitted (fun queued => leaves queued (pausesResolved_of_echo echoed.1 echoed.2))
          (.inr echoed.2))
    split
    · rename_i deletes found
      split at found
      · rename_i free
        simp only [Bool.and_eq_true, Option.isNone_iff_eq_none] at free
        exact withdraw_stepped deletes cause t.takeEpoch.admissionLost (fun _ => id) before
          (.inr ⟨isPause, free.1⟩) fallible (idle_of_mayWithdraw free.2)
          (.inl free.2)
      · cases found
    · exact wait_stepped (.inr (.inl isPause))

/-! ## One event -/

structure Granted (t : Txn) (world : World) (input : Input) (powers : Powers) : Prop where
  refuses : t.phase = .typing 0 → t.refusesLine input = true → powers.ends = true
  fails : t.phase = .lineJob 0 → t.failsLine input.event = true → powers.ends = true
  confirms : t.hasDeleted input.event = true → t.frame.clean = true →
    t.frame.placeholderEmpty = true → powers.confirms = true
  stalls : t.phase.isJob = true → input.event = .jobStalled → t.isQueued = true →
    t.stallsResolved world.cell = true → powers.leaves = true
  pauses : t.phase.isPause = true → t.isQueued = true → t.pausesResolved world.cell = true →
    powers.leaves = true

/-- What an event tells of the job that the doorbell follows. -/
structure Told (t : Txn) (event : Event) : Prop where
  ended : ∀ accepted ok, event = .jobEnded accepted ok → t.job = .idle
  refused : event = .jobNotStarted → t.isQueued = false
  awaits : t.Busy ∨ event = .jobNotStarted ∨ ∃ accepted ok, event = .jobEnded accepted ok

theorem Told.busy {event : Event} (told : t.Told event) (notRefused : event ≠ .jobNotStarted)
    (notEnded : ∀ accepted ok, event ≠ .jobEnded accepted ok) : t.Busy := by
  rcases told.awaits with busy | refused | ⟨accepted, ok, ended⟩
  · exact busy
  · exact absurd refused notRefused
  · exact absurd ended (notEnded accepted ok)

theorem Told.owns {event : Event} (told : t.Told event) (isJob : t.phase.isJob)
    (notRefused : event ≠ .jobNotStarted)
    (notEnded : ∀ accepted ok, event ≠ .jobEnded accepted ok) : t.job ≠ .idle := by
  rcases told.busy notRefused notEnded with jobless | isPause | isDone | owned
  · revert isJob jobless
    cases t.phase <;> simp [Phase.isJob, Phase.jobless]
  · revert isJob isPause
    cases t.phase <;> simp [Phase.isJob, Phase.isPause]
  · revert isJob isDone
    cases t.phase <;> simp [Phase.isJob, Phase.isDone]
  · exact owned

/-- Events while a line's job is followed. -/
theorem lineJob_stepped (before : input.now < t.deadline) (phase : t.phase = .lineJob stage)
    (steady : t.Steady) (told : t.Told input.event) (granted : t.Granted world input powers) :
    Stepped input powers t world (t.dispatch world input.event input.seam input.now) := by
  have isJob : t.phase.isJob := by rw [phase]; rfl
  have sound : t.phase.sound := by rw [phase]; rfl
  simp only [dispatch, phase]
  split
  case h_1 accepted ok event =>
    apply lineEnded_stepped before phase event (told.ended accepted ok event)
    intro first nothing
    subst first
    exact granted.fails phase (by simp [failsLine, event, nothing])
  case h_2 event =>
    split
    · rename_i first
      apply nothingWritten_stepped .offGround t.admissionLost first.2
      intro _
      exact granted.fails (by rw [phase, first.1]) (by simp [failsLine, event, first.2])
    · rename_i later
      apply unresolve_stepped _ t.admissionLost (fun _ => id) before sound
      · refine ⟨by simp [phase], ?_⟩
        intro first unwritten
        rw [phase] at first
        exact absurd ⟨Phase.lineJob.inj first, unwritten⟩ later
      · simp [told.refused event]
  case h_3 event =>
    apply unresolve_stepped _ t.admissionLost (fun _ => id) before sound
    · refine ⟨by simp [phase], ?_⟩
      intro _ unwritten
      refine ⟨event, ?_⟩
      -- A job that runs has counted its line as written.
      rcases steady.line stage phase with idle | queued | running
      · exact absurd idle (told.owns isJob (by simp [event]) (by simp [event]))
      · simp [isQueued, queued]
      · rw [steady.running running] at unwritten
        cases unwritten
    · intro queued resolved
      exact granted.stalls isJob event queued resolved
  case h_4 notEnded notRefused _ => exact wait_stepped (told.busy notRefused notEnded)

theorem crJob_stepped (before : input.now < t.deadline) (phase : t.phase = .crJob)
    (told : t.Told input.event) (granted : t.Granted world input powers) :
    Stepped input powers t world (t.dispatch world input.event input.seam input.now) := by
  have isJob : t.phase.isJob := by rw [phase]; rfl
  have sound : t.phase.sound := by rw [phase]; rfl
  have fallible : t.Fallible input := by simp [Fallible, phase]
  simp only [dispatch, phase]
  split
  case h_1 accepted ok event =>
    have idle := told.ended accepted ok event
    split
    · rename_i full
      simp only [Bool.and_eq_true, decide_eq_true_eq] at full
      rw [full.1, full.2] at event
      apply Stepped.shift (.confirming phase event)
      exact confirm_stepped before rfl idle
    · exact unresolve_idle_stepped _ (fun _ => id) before sound fallible idle
  case h_2 event =>
    exact unresolve_stepped _ t.admissionLost (fun _ => id) before sound fallible
      (by simp [told.refused event])
  case h_3 event =>
    apply unresolve_stepped _ t.admissionLost (fun _ => id) before sound fallible
    intro queued resolved
    exact granted.stalls isJob event queued resolved
  case h_4 notEnded notRefused _ => exact wait_stepped (told.busy notRefused notEnded)

theorem deleteJob_stepped (phase : t.phase = .deleteJob) (steady : t.Steady)
    (told : t.Told input.event) (granted : t.Granted world input powers) :
    Stepped input powers t world (t.dispatch world input.event input.seam input.now) := by
  have isJob : t.phase.isJob := by rw [phase]; rfl
  have alive : t.phase.isDone = false := by rw [phase]; rfl
  have fallible : t.Fallible input := by simp [Fallible, phase]
  simp only [dispatch, phase]
  split
  case h_1 accepted ok event =>
    split
    case h_1 withdrawal => exact absurd withdrawal (steady.withdrawing (by rw [phase]; rfl))
    case h_2 deletes cause withdrawal =>
      split
      · rename_i full
        simp only [Bool.and_eq_true, decide_eq_true_eq] at full
        rcases full with ⟨rfl, rfl⟩
        apply Stepped.shift (.deleted accepted cause phase withdrawal event)
        apply confirmWithdrawn_stepped rfl
        exact granted.confirms (by simp [hasDeleted, phase, withdrawal, event])
      · apply Stepped.leaf
        exact suspendAndPause_leaf _ alive fallible
          (by simp [isQueued, told.ended accepted ok event])
  case h_2 event =>
    apply Stepped.leaf
    exact suspendAndPause_leaf _ alive fallible (by simp [told.refused event])
  case h_3 event =>
    apply Stepped.leaf
    apply suspendAndPause_leaf _ alive fallible
    intro queued resolved
    exact granted.stalls isJob event queued resolved
  case h_4 notEnded notRefused _ => exact wait_stepped (told.busy notRefused notEnded)

/-- The step of the phase, before the deadline. -/
theorem dispatch_stepped (before : input.now < t.deadline) (alive : t.phase.isDone = false)
    (steady : t.Steady) (told : t.Told input.event) (granted : t.Granted world input powers) :
    Stepped input powers t world (t.dispatch world input.event input.seam input.now) := by
  have idle : ∀ phase, t.phase = phase → phase.jobless = true → t.job = .idle := by
    intro phase same jobless
    exact steady.jobless (same ▸ jobless)
  have unresolves : ∀ cause phase, t.phase = phase → phase.sound = true → phase.jobless = true →
      phase ≠ .typing 0 →
      Stepped input powers t world (t.unresolve world cause input.seam input.now) := by
    intro cause phase same sound jobless later
    apply unresolve_idle_stepped cause (fun _ => id) before (same ▸ sound) ?_
      (idle phase same jobless)
    refine ⟨same ▸ later, ?_⟩
    intro first
    rw [← same, first] at jobless
    cases jobless
  cases phase : t.phase with
  | typing stage =>
    simp only [dispatch, phase]
    split
    · rename_i cancels
      simp only [Bool.and_eq_true, decide_eq_true_eq] at cancels
      have later : stage ≠ 0 := by
        omega
      exact cancelAfterHead_stepped before (.inr ⟨stage, later, phase⟩) (idle _ phase rfl)
    · apply tryLine_stepped before phase (idle _ phase rfl)
      · rintro rfl
        exact steady.fresh phase
      · rintro rfl
        exact granted.refuses phase
  | lineJob stage => exact lineJob_stepped before phase steady told granted
  | headEcho =>
    simp only [dispatch, phase]
    split
    · exact unresolves _ _ phase rfl rfl (by simp)
    · exact afterHead_stepped before phase (idle _ phase rfl)
  | echo =>
    simp only [dispatch, phase]
    split
    · exact unresolves _ _ phase rfl rfl (by simp)
    split
    · exact cancelAfterLine_stepped before (.inl phase) (idle _ phase rfl)
    · rename_i kept
      exact echo_stepped before phase (idle _ phase rfl) fun lost => absurd lost kept
  | preCr =>
    simp only [dispatch, phase]
    split
    · exact cancelAfterLine_stepped before (.inr phase) (idle _ phase rfl)
    rename_i kept
    split
    · exact unresolves _ _ phase rfl rfl (by simp)
    · exact preCr_stepped before phase (idle _ phase rfl) fun lost => absurd lost kept
  | crJob => exact crJob_stepped before phase told granted
  | confirm =>
    simp only [dispatch, phase]
    exact confirm_stepped before phase (idle _ phase rfl)
  | withdrawing =>
    have started := steady.withdrawing (by rw [phase]; rfl)
    rcases withdrawal : t.withdrawal with _ | ⟨deletes, cause⟩
    · exact absurd withdrawal started
    · simp only [dispatch, phase]
      exact tryDeletes_stepped (fun _ => id) before phase withdrawal (idle _ phase rfl)
  | deleteJob => exact deleteJob_stepped phase steady told granted
  | confirmWithdrawn =>
    simp only [dispatch, phase]
    apply confirmWithdrawn_stepped phase
    exact granted.confirms (by simp [hasDeleted, phase])
  | pause cause =>
    simp only [dispatch, phase]
    apply pause_stepped before phase
    exact granted.pauses (by rw [phase]; rfl)
  | done outcome =>
    rw [phase] at alive
    cases alive

/-- The deadline is looked at before the phase. -/
theorem proceed_stepped (alive : t.phase.isDone = false) (steady : t.Steady)
    (told : t.Told input.event)
    (ends : t.deadline ≤ input.now → (t.takeBack world).1.wrote = false → powers.ends)
    (granted : input.now < t.deadline → t.Granted world input powers) :
    Stepped input powers t world (t.proceed world input.event input.seam input.now) := by
  simp only [proceed]
  split
  · rename_i expired
    exact conclude_expire_stepped (ends expired)
  · rename_i before
    exact dispatch_stepped (Nat.not_le.mp before) alive steady told (granted (Nat.not_le.mp before))

theorem Steady.congr {after : Txn} (steady : t.Steady) (phase : after.phase = t.phase)
    (job : after.job = t.job) (wrote : after.wrote = t.wrote)
    (crEndedAt : after.crEndedAt = t.crEndedAt) (withdrawal : after.withdrawal = t.withdrawal) :
    after.Steady := by
  constructor
  · rw [phase, job]
    exact steady.jobless
  · rw [phase, job]
    exact steady.line
  · rw [phase, job]
    exact steady.cr
  · rw [phase, job]
    exact steady.deletes
  · rw [phase, wrote]
    exact steady.fresh
  · rw [job, wrote]
    exact steady.running
  · rw [phase, crEndedAt]
    exact steady.early
  · rw [phase, withdrawal]
    exact steady.sound
  · rw [phase, withdrawal]
    exact steady.withdrawing

theorem noted_of_ne {event : Event} (other : event ≠ .admissionLost) : t.noted event = t := by
  simp [noted, other]

/-- The powers of a step are granted where its handlers ask for them. -/
theorem granted_of_reaches (reaches : t.reaches world input)
    (ends : t.endsUnwritten world input = true → powers.ends)
    (confirms : t.confirmsWithdrawal world input = true → powers.confirms)
    (leaves : t.leavesQueued world input = true → powers.leaves)
    (written : input.event = .admissionLost → t.phase ≠ .typing 0) :
    t.Granted world input powers := by
  have passed := reaches
  simp only [Txn.reaches, Bool.and_eq_true, decide_eq_true_eq] at passed
  rcases passed with ⟨⟨⟨before, notRetired⟩, _⟩, _⟩
  have inTime : ¬t.deadline ≤ input.now := Nat.not_le.mpr before
  constructor
  · intro phase refuses
    have notLost : input.event ≠ .admissionLost := fun lost => written lost phase
    exact ends (by simp [endsUnwritten, notLost, inTime, notRetired, phase, refuses])
  · intro phase fails
    have notLost : input.event ≠ .admissionLost := by
      intro lost
      simp [failsLine, lost] at fails
    exact ends (by simp [endsUnwritten, notLost, inTime, notRetired, phase, fails])
  · intro deleted clean empty
    exact confirms (by simp [confirmsWithdrawal, reaches, deleted, clean, empty])
  · intro isJob stalled queued resolved
    apply leaves
    revert isJob
    cases phase : t.phase <;>
      simp [Phase.isJob, leavesQueued, reaches, queued, phase, stalled, resolved]
  · intro isPause queued resolved
    apply leaves
    revert isPause
    cases phase : t.phase <;> simp [Phase.isPause, leavesQueued, reaches, queued, phase, resolved]

theorem heardEvidence_of_none {token : RingToken} {exact : Bool}
    (unheard : t.evidence world token exact now = none) :
    t.heardEvidence world (.evidence token exact) = false := by
  by_contra heard
  simp only [heardEvidence, Bool.not_eq_false, Bool.and_eq_true, decide_eq_true_eq,
    Bool.or_eq_true] at heard
  rcases heard with ⟨⟨⟨rfl, rfl⟩, wrote⟩, cell | cell⟩
  · simp [evidence, wrote, cell] at unheard
  · simp [evidence, wrote, cell] at unheard

/-- A retirement, evidence and a lost admission are heard before the deadline is looked at, the
other events after. -/
theorem receive_stepped (alive : t.phase.isDone = false) (steady : t.Steady)
    (told : t.Told input.event) (ends : t.endsUnwritten world input = true → powers.ends)
    (confirms : t.confirmsWithdrawal world input = true → powers.confirms)
    (leaves : t.leavesQueued world input = true → powers.leaves) :
    Stepped input powers (t.noted input.event) world
      (t.receive world input.event input.seam input.now) := by
  by_cases isRetired : input.event = .retired
  · rw [noted_of_ne (by simp [isRetired])]
    simp only [isRetired]
    exact retired_stepped
  have expired : t.deadline ≤ input.now → (t.takeBack world).1.wrote = false →
      powers.ends = true := by
    intro late unwritten
    exact ends (by simp [endsUnwritten, late, isRetired, unwritten])
  by_cases isLost : input.event = .admissionLost
  · by_cases wrote : t.wrote = true
    · have lateToo : t.deadline ≤ input.now →
          ({ t with admissionLost := true }.takeBack world).1.wrote = false →
          powers.ends = true := by
        rw [takeBack_lost]
        exact expired
      have notFresh : t.phase ≠ .typing 0 := by
        intro phase
        rw [steady.fresh phase] at wrote
        cases wrote
      have received : t.receive world input.event input.seam input.now =
          { t with admissionLost := true }.proceed world input.event input.seam input.now := by
        simp [receive, isLost, wrote]
      have lost : t.noted input.event = { t with admissionLost := true } := by
        simp [noted, isLost]
      rw [received, lost]
      refine proceed_stepped alive (steady.congr rfl rfl rfl rfl rfl) ?_ lateToo ?_
      · exact ⟨told.ended, told.refused, told.awaits⟩
      · intro before
        have reaches : t.reaches world input := by
          simp [Txn.reaches, isLost, wrote, heardEvidence, show input.now < t.deadline from before]
        have granted := granted_of_reaches reaches ends confirms leaves fun _ => notFresh
        exact ⟨fun phase => absurd phase notFresh, granted.fails, granted.confirms, granted.stalls,
          granted.pauses⟩
    · have unwritten : t.wrote = false := Bool.eq_false_iff.mpr wrote
      have received : t.receive world input.event input.seam input.now =
          t.nothingWritten world .notAdmitted input.now := by
        simp [receive, isLost, unwritten]
      rw [received]
      apply nothingWritten_stepped _ _ unwritten
      intro stillUnwritten
      exact ends (by simp [endsUnwritten, isLost, stillUnwritten])
  rw [noted_of_ne isLost]
  have proceeds : t.heardEvidence world input.event = false →
      Stepped input powers t world (t.proceed world input.event input.seam input.now) := by
    intro unheard
    apply proceed_stepped alive steady told expired
    intro before
    have reaches : t.reaches world input := by
      simp [Txn.reaches, isRetired, isLost, unheard, before]
    exact granted_of_reaches reaches ends confirms leaves fun lost => absurd lost isLost
  cases event : input.event with
  | retired => exact absurd event isRetired
  | admissionLost => exact absurd event isLost
  | evidence token exact =>
    rw [event] at proceeds
    simp only [receive]
    split
    · rename_i reply answered
      exact evidence_stepped answered
    · rename_i unheard
      exact proceeds (heardEvidence_of_none unheard)
  | frame | jobStarted | jobEnded | jobStalled | jobNotStarted | tick | modeChanged =>
    rw [event] at proceeds
    exact proceeds rfl

end Txn

end AgentDeck.Doorbell
