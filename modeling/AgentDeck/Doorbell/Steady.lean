import AgentDeck.Doorbell.Handlers

/-!
# What every step keeps

Tracking the event's job, the shifts and the leaves keep the transaction steady: the phase says
which job is on the writer, and whether a withdrawal was started. With that, every call of `on` is
a listed step.
-/

namespace AgentDeck.Doorbell

variable {input : Input} {powers : Powers} {t : Txn} {world : World}

/-- Induction on the changes of one step. -/
theorem Shifts.keeps (kept : Txn → World → Prop)
    (step : ∀ {t after : Txn} {world later : World}, kept t world →
      Shift input t world after later → kept after later)
    {last : Txn} {lastWorld : World} (shifts : Shifts input t world last lastWorld)
    (holds : kept t world) : kept last lastWorld := by
  induction shifts with
  | refl => exact holds
  | head shift _ ih => exact ih (step holds shift)

namespace Txn

/-- What `tracked` does with an event of the doorbell's own job. -/
theorem tracked_cases (t : Txn) (input : Input) :
    (∃ kind, input.event = .jobStarted ∧ t.job = .queued kind ∧
      t.tracked input = t.started kind) ∨
    (∃ kind, input.event = .jobNotStarted ∧ t.job = .queued kind ∧
      t.tracked input = { t with job := .idle, claim := none }) ∨
    (∃ kind accepted ok, input.event = .jobEnded accepted ok ∧
      (t.job = .queued kind ∨ t.job = .running kind) ∧
      t.tracked input = t.ended kind accepted input.now) ∨
    ∃ frame, t.tracked input = { t with frame := frame } ∧
      (∀ accepted ok, input.event = .jobEnded accepted ok → t.job = .idle) ∧
      (input.event = .jobNotStarted → t.isQueued = false) := by
  have unmoved : ∀ event, (t.observe event).trackJob event input.now = t → input.event = event →
      t.tracked input = { t with frame := t.frame } := by
    intro event same found
    rw [tracked, found]
    exact same
  cases event : input.event with
  | frame frame => exact .inr (.inr (.inr ⟨frame, by rw [tracked, event]; rfl, by simp, by simp⟩))
  | jobStalled | evidence _ _ | tick | modeChanged | admissionLost | retired =>
    exact .inr (.inr (.inr ⟨t.frame, unmoved _ rfl event, by simp, by simp⟩))
  | jobStarted =>
    by_cases queued : ∃ kind, t.job = .queued kind
    · rcases queued with ⟨kind, job⟩
      exact .inl ⟨kind, rfl, job, by simp [tracked, event, observe, trackJob, job]⟩
    · refine .inr (.inr (.inr ⟨t.frame, unmoved _ ?_ event, by simp, by simp⟩))
      cases job : t.job <;> simp_all [observe, trackJob]
  | jobNotStarted =>
    by_cases queued : ∃ kind, t.job = .queued kind
    · rcases queued with ⟨kind, job⟩
      exact .inr (.inl ⟨kind, rfl, job, by simp [tracked, event, observe, trackJob, job]⟩)
    · refine .inr (.inr (.inr ⟨t.frame, unmoved _ ?_ event, by simp, ?_⟩))
      · cases job : t.job <;> simp_all [observe, trackJob]
      · cases job : t.job <;> simp_all [isQueued]
  | jobEnded accepted ok =>
    by_cases idle : t.job = .idle
    · refine .inr (.inr (.inr ⟨t.frame, unmoved _ ?_ event, fun _ _ _ => idle, by simp⟩))
      simp [observe, trackJob, idle]
    · refine .inr (.inr (.inl ?_))
      cases job : t.job with
      | idle => exact absurd job idle
      | queued kind =>
        exact ⟨kind, accepted, ok, rfl, .inl rfl, by simp [tracked, event, observe, trackJob, job]⟩
      | running kind =>
        exact ⟨kind, accepted, ok, rfl, .inr rfl, by simp [tracked, event, observe, trackJob, job]⟩

theorem tracked_told (input : Input) (busy : t.Busy) : (t.tracked input).Told input.event := by
  rcases tracked_cases t input with ⟨kind, event, _, same⟩ | ⟨kind, event, _, same⟩ |
    ⟨kind, accepted, ok, event, _, same⟩ | ⟨frame, same, ended, refused⟩
  · rw [same]
    exact ⟨by simp [event], by simp [event], .inl (.inr (.inr (.inr (by simp [started]))))⟩
  · rw [same]
    exact ⟨by simp [event], fun _ => rfl, .inr (.inl event)⟩
  · rw [same]
    exact ⟨fun _ _ _ => rfl, by simp [event], .inr (.inr ⟨accepted, ok, event⟩)⟩
  · rw [same]
    exact ⟨ended, refused, .inl busy⟩

variable {kind : JobKind}

/-- A job that is followed is the one its phase asked for, or one that a pause or an end left
behind. -/
theorem Steady.isFor (steady : t.Steady) (owned : t.job = .queued kind ∨ t.job = .running kind) :
    (∃ stage, t.phase = .lineJob stage ∧ kind = .line) ∨ t.phase = .crJob ∧ kind = .cr ∨
      t.phase = .deleteJob ∧ kind = .deletes ∨ t.phase.isPause = true ∨ t.phase.isDone := by
  have jobbed : t.job ≠ .idle := by
    rcases owned with owned | owned <;> simp [owned]
  have kinds : ∀ wanted, t.job.IsFor wanted → kind = wanted := by
    intro wanted isFor
    rcases owned with owned | owned <;> rcases isFor with idle | queued | running <;> simp_all
  cases phase : t.phase with
  | typing _ | headEcho | echo | preCr | confirm | withdrawing | confirmWithdrawn =>
    exact absurd (steady.jobless (by rw [phase]; rfl)) jobbed
  | lineJob stage => exact .inl ⟨stage, rfl, kinds _ (steady.line stage phase)⟩
  | crJob => exact .inr (.inl ⟨rfl, kinds _ (steady.cr phase)⟩)
  | deleteJob => exact .inr (.inr (.inl ⟨rfl, kinds _ (steady.deletes phase)⟩))
  | pause cause => exact .inr (.inr (.inr (.inl rfl)))
  | done outcome => exact .inr (.inr (.inr (.inr rfl)))

section

variable (steady : t.Steady)

include steady

/-- A step that only moves the job keeps the rest. -/
theorem Steady.reown {after : Txn} (phase : after.phase = t.phase)
    (withdrawal : after.withdrawal = t.withdrawal)
    (owned : after.job = .idle ∨ ∃ kind, t.job = .queued kind ∧ after.job = .running kind)
    (fresh : t.phase = .typing 0 → after.wrote = false)
    (running : after.job = .running .line → after.wrote)
    (early : t.phase.early = true → after.crEndedAt = none) : after.Steady := by
  have jobbed : ∀ wanted, t.job.IsFor wanted → after.job.IsFor wanted := by
    intro wanted isFor
    rcases owned with idle | ⟨kind, queued, running⟩
    · exact .inl idle
    · rcases isFor with idle | same | same
      · rw [queued] at idle
        cases idle
      · rw [queued] at same
        cases same
        exact .inr (.inr running)
      · rw [queued] at same
        cases same
  constructor
  · intro jobless
    rw [phase] at jobless
    rcases owned with idle | ⟨kind, queued, _⟩
    · exact idle
    · rw [steady.jobless jobless] at queued
      cases queued
  · intro stage inPhase
    exact jobbed _ (steady.line stage (phase ▸ inPhase))
  · intro inPhase
    exact jobbed _ (steady.cr (phase ▸ inPhase))
  · intro inPhase
    exact jobbed _ (steady.deletes (phase ▸ inPhase))
  · intro inPhase
    exact fresh (phase ▸ inPhase)
  · exact running
  · intro isEarly
    exact early (phase ▸ isEarly)
  · rw [phase, withdrawal]
    exact steady.sound
  · rw [phase, withdrawal]
    exact steady.withdrawing

theorem Steady.notFresh (owned : t.job = .queued kind ∨ t.job = .running kind) :
    t.phase ≠ .typing 0 := by
  intro phase
  have idle := steady.jobless (by rw [phase]; rfl)
  rcases owned with owned | owned <;> simp [owned] at idle

theorem Steady.started (queued : t.job = .queued kind) : (t.started kind).Steady := by
  apply steady.reown
  · rfl
  · rfl
  · exact .inr ⟨kind, queued, rfl⟩
  · intro phase
    exact absurd phase (steady.notFresh (.inl queued))
  · intro running
    cases running
    simp [Txn.started]
  · exact steady.early

theorem Steady.dropped : { t with job := .idle, claim := none }.Steady := by
  apply steady.reown
  · rfl
  · rfl
  · exact .inl rfl
  · exact steady.fresh
  · intro running
    cases running
  · exact steady.early

theorem Steady.ended (owned : t.job = .queued kind ∨ t.job = .running kind) (accepted : ℕ)
    (now : Instant) : (t.ended kind accepted now).Steady := by
  apply steady.reown
  · rfl
  · rfl
  · exact .inl rfl
  · intro phase
    exact absurd phase (steady.notFresh owned)
  · intro running
    cases running
  · intro early
    rcases steady.isFor owned with ⟨_, _, line⟩ | ⟨phase, _⟩ | ⟨phase, _⟩ | isPause | isDone
    · simp [Txn.ended, line, steady.early early]
    all_goals
      revert early
      cases inPhase : t.phase <;> simp_all [Phase.early, Phase.isPause, Phase.isDone]

theorem Steady.tracked (input : Input) : (t.tracked input).Steady := by
  rcases tracked_cases t input with ⟨kind, _, queued, same⟩ | ⟨kind, _, queued, same⟩ |
    ⟨kind, accepted, ok, _, owned, same⟩ | ⟨frame, same, _, _⟩
  · rw [same]
    exact steady.started queued
  · rw [same]
    exact steady.dropped
  · rw [same]
    exact steady.ended owned accepted input.now
  · rw [same]
    exact steady.congr rfl rfl rfl rfl rfl

theorem Steady.noted (event : Event) : (t.noted event).Steady :=
  steady.congr rfl rfl rfl rfl rfl

theorem Steady.takeBack (world : World) : (t.takeBack world).1.Steady := by
  rcases takeBack_cases t world with ⟨_, same⟩ | ⟨_, _, _, _, _, same⟩ | ⟨_, _, _, _, _, same⟩ |
    ⟨kind, queued, same⟩
  · rw [same]
    exact steady
  · rw [same]
    exact steady.dropped
  · rw [same]
    exact steady.dropped
  · rw [same]
    exact steady.started queued

end

theorem tracked_frame (t : Txn) (input : Input) : ∃ frame job claim wrote crEndedAt afterCr,
    t.tracked input =
      { t with
        frame := frame
        job := job
        claim := claim
        wrote := wrote
        crEndedAt := crEndedAt
        afterCr := afterCr } := by
  rcases tracked_cases t input with ⟨_, _, _, same⟩ | ⟨_, _, _, same⟩ | ⟨_, _, _, _, _, same⟩ |
    ⟨_, same, _, _⟩ <;> exact ⟨_, _, _, _, _, _, same⟩

theorem tracked_phase (t : Txn) (input : Input) : (t.tracked input).phase = t.phase := by
  rcases tracked_frame t input with ⟨_, _, _, _, _, _, same⟩
  rw [same]

theorem Steady.ownsLine {stage : ℕ} (steady : t.Steady) (busy : t.Busy)
    (phase : t.phase = .lineJob stage) : t.job = .queued .line ∨ t.job = .running .line := by
  rcases steady.line stage phase with idle | owned
  · simp [Busy, phase, idle, Phase.jobless, Phase.isPause, Phase.isDone] at busy
  · exact owned

theorem on_receive (input : Input) (world : World) (alive : t.phase.isDone = false) :
    t.on world input.event input.seam input.now =
      (t.tracked input).receive world input.event input.seam input.now := by
  revert alive
  simp only [on]
  cases t.phase <;> simp [Phase.isDone, tracked]

theorem on_stepped (input : Input) (world : World) (alive : t.phase.isDone = false)
    (steady : t.Steady) (busy : t.Busy) :
    Stepped input (t.powers world input) ((t.tracked input).noted input.event) world
      (t.on world input.event input.seam input.now) := by
  rw [on_receive input world alive]
  exact receive_stepped (by rw [tracked_phase]; exact alive) (steady.tracked input)
    (tracked_told input busy) id id id

end Txn

/-- What the shifts keep of a step: the transaction is steady, and a reported end leaves no job. -/
structure Held (input : Input) (t : Txn) : Prop where
  steady : t.Steady
  ended : ∀ accepted ok, input.event = .jobEnded accepted ok → t.job = .idle

namespace Txn

theorem steady_of_idle (idle : t.job = .idle) (fresh : t.phase = .typing 0 → t.wrote = false)
    (early : t.phase.early = true → t.crEndedAt = none)
    (sound : t.phase.sound = true → t.withdrawal = none)
    (withdrawing : t.phase.withdraws = true → t.withdrawal ≠ none) : t.Steady where
  jobless _ := idle
  line _ _ := .inl idle
  cr _ := .inl idle
  deletes _ := .inl idle
  fresh := fresh
  running := by simp [idle]
  early := early
  sound := sound
  withdrawing := withdrawing

/-- A phase entered with no job under way. -/
theorem Steady.goOn {after : Txn} (steady : t.Steady) (early : t.phase.early)
    (idle : after.job = .idle) (notFresh : after.phase ≠ .typing 0)
    (stays : after.phase.withdraws = false) (crEndedAt : after.crEndedAt = t.crEndedAt)
    (withdrawal : after.withdrawal = t.withdrawal) : after.Steady := by
  apply steady_of_idle idle
  · intro fresh
    exact absurd fresh notFresh
  · intro _
    rw [crEndedAt]
    exact steady.early early
  · intro _
    rw [withdrawal]
    exact steady.sound (Phase.sound_of_early early)
  · simp [stays]

/-- A pause and an end may leave a job behind. -/
theorem Steady.halt {after : Txn} (steady : t.Steady)
    (phase : after.phase.isPause = true ∨ after.phase.isDone) (job : after.job = t.job)
    (wrote : after.wrote = t.wrote) : after.Steady := by
  have running : after.job = .running .line → after.wrote := by
    rw [job, wrote]
    exact steady.running
  revert phase
  cases inPhase : after.phase with
  | pause cause | done outcome =>
    intro _
    constructor <;> first | exact running | simp [inPhase, Phase.jobless, Phase.early,
      Phase.sound, Phase.withdraws]
  | _ => simp [Phase.isPause, Phase.isDone]

end Txn

theorem Held.forgotten (held : Held input t) (lost : Bool) :
    Held input { t with admissionLost := lost } :=
  ⟨held.steady.congr rfl rfl rfl rfl rfl, held.ended⟩

/-- Every change within a step keeps the fields of `Steady`: one case per change. -/
theorem Held.shift {after : Txn} {later : World} (held : Held input t)
    (shift : Shift input t world after later) : Held input after := by
  have steady := held.steady
  cases shift with
  | look | epoch | note => exact ⟨steady.congr rfl rfl rfl rfl rfl, held.ended⟩
  | typeRest phase | echoed phase =>
    have idle := steady.jobless (by rw [phase]; rfl)
    exact ⟨steady.goOn (by rw [phase]; rfl) idle (by simp [Txn.enter]) rfl rfl rfl, held.ended⟩
  | cancelled phase keyless =>
    have facts : t.phase.jobless = true ∧ t.phase.early := by
      rcases phase with phase | phase <;> simp [phase, Phase.jobless, Phase.early]
    have idle := steady.jobless facts.1
    exact ⟨steady.goOn facts.2 idle (by simp [Txn.enter]) rfl rfl rfl, held.ended⟩
  | headTaken stage accepted phase event | lineTaken stage accepted phase event =>
    have idle := held.ended _ _ event
    exact ⟨steady.goOn (by rw [phase]; rfl) idle (by simp [Txn.enter]) rfl rfl rfl, held.ended⟩
  | partTaken stage accepted ok phase event | noneTaken ok phase event =>
    have idle := held.ended _ _ event
    refine ⟨steady.goOn (by rw [phase]; rfl) idle ?_ ?_ rfl rfl, held.ended⟩
    all_goals simp [Txn.takeLine, phase, Phase.withdraws]
  | confirming phase event =>
    have idle := held.ended _ _ event
    refine ⟨Txn.steady_of_idle idle ?_ ?_ ?_ ?_, held.ended⟩
    · simp [Txn.enter]
    · simp [Txn.enter, Phase.early]
    · exact fun _ => steady.sound (by rw [phase]; rfl)
    · simp [Txn.enter, Phase.withdraws]
  | withdraw deletes cause lost phase fallible free =>
    have idle : t.job = .idle := by
      rcases free with free | inPhase | inPhase
      · exact Txn.idle_of_mayWithdraw free
      · exact steady.jobless (by rw [inPhase]; rfl)
      · exact steady.jobless (by rw [inPhase]; rfl)
    refine ⟨Txn.steady_of_idle idle ?_ ?_ ?_ ?_, held.ended⟩
    all_goals simp [Txn.enter, Phase.early, Phase.sound]
  | deleted deletes cause phase withdrawal event =>
    have idle := held.ended _ _ event
    refine ⟨Txn.steady_of_idle idle ?_ ?_ ?_ ?_, held.ended⟩
    all_goals simp [Txn.enter, Phase.early, Phase.sound, withdrawal]
  | takeBack =>
    refine ⟨steady.takeBack world, ?_⟩
    intro accepted ok event
    rw [Txn.takeBack_idle (held.ended accepted ok event)]
    exact held.ended accepted ok event
  | retire => exact held

theorem Leaf.steady {reply : Reply} (leaf : Leaf input powers t world reply) (steady : t.Steady) :
    reply.txn.Steady ∧ reply.txn.Busy := by
  cases leaf with
  | rest actions quiet busy => exact ⟨steady, busy⟩
  | lose time wrote running =>
    exact ⟨steady.congr rfl rfl rfl rfl rfl, .inr (.inr (.inr (by simp [running])))⟩
  | line stage phase =>
    have early : t.phase.early := by rw [phase]; rfl
    refine ⟨?_, .inr (.inr (.inr (by simp [Txn.enqueue, Txn.enter])))⟩
    constructor <;> simp [Txn.enqueue, Txn.enter, Phase.jobless, Owned.IsFor, Phase.withdraws,
      steady.early early, steady.sound (Phase.sound_of_early early)]
  | cr read phase =>
    have sound : t.phase.sound := by rw [phase]; rfl
    refine ⟨?_, .inr (.inr (.inr (by simp [Txn.enqueue, Txn.enter])))⟩
    constructor <;> simp [Txn.enqueue, Txn.enter, Phase.jobless, Phase.early, Owned.IsFor,
      Phase.withdraws, steady.sound sound]
  | deletes read count cause phase withdrawal =>
    refine ⟨?_, .inr (.inr (.inr (by simp [Txn.enqueue, Txn.enter])))⟩
    constructor <;> simp [Txn.enqueue, Txn.enter, Phase.jobless, Phase.early, Phase.sound,
      Owned.IsFor, withdrawal]
  | suspended | paused => exact ⟨steady.halt (.inl rfl) rfl rfl, .inr (.inl rfl)⟩
  | settled | expired | submitted | withdrawn | notTyped | retired =>
    exact ⟨steady.halt (.inr rfl) rfl rfl, .inr (.inr (.inl rfl))⟩

/-- A step is changes, then one leaf. -/
theorem Txn.on_leaf (input : Input) (world : World) (alive : t.phase.isDone = false)
    (steady : t.Steady) (busy : t.Busy) :
    ∃ last lastWorld lost,
      Shifts input ((t.tracked input).noted input.event) world last lastWorld ∧
      Leaf input (t.powers world input) { last with admissionLost := lost } lastWorld
        (t.on world input.event input.seam input.now) ∧
      Held input last ∧
      ((t.on world input.event input.seam input.now).txn.phase.sound = true →
        lost = last.admissionLost) := by
  rcases on_stepped input world alive steady busy with ⟨last, lastWorld, lost, shifts, leaf, kept⟩
  have held : Held input ((t.tracked input).noted input.event) :=
    ⟨(steady.tracked input).noted input.event, (tracked_told input busy).ended⟩
  exact ⟨last, lastWorld, lost, shifts, leaf,
    shifts.keeps (fun t _ => Held input t) Held.shift held, kept⟩

theorem Txn.on_done (isDone : t.phase.isDone) (event : Event) (seam : Seam) (now : Instant) :
    t.on world event seam now = ⟨[], t, world⟩ := by
  revert isDone
  simp only [on]
  cases t.phase <;> simp [Phase.isDone]

/-- The invariant of one step, for the runs. -/
theorem Txn.on_steady (input : Input) (world : World) (steady : t.Steady) (busy : t.Busy) :
    (t.on world input.event input.seam input.now).txn.Steady ∧
      (t.on world input.event input.seam input.now).txn.Busy := by
  cases alive : t.phase.isDone with
  | true =>
    rw [on_done alive]
    exact ⟨steady, busy⟩
  | false =>
    rcases on_leaf input world alive steady busy with
      ⟨last, lastWorld, lost, _, leaf, held, _⟩
    exact leaf.steady (held.forgotten lost).steady

end AgentDeck.Doorbell
