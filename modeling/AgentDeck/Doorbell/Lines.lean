import AgentDeck.Doorbell.Runs

/-!
# The line, stage by stage

The line jobs of a run are the line's stages in order. The phase says how many were enqueued.
-/

namespace AgentDeck.Doorbell

open History

variable {input : Input} {powers : Powers} {t : Txn} {world : World} {texts : List Text}

namespace Txn

theorem stages_cases (t : Txn) :
    t.stages = [t.line] ∨ ∃ head, t.stages = [t.line.take head, t.line.drop head] := by
  simp only [stages]
  split
  · split
    · exact .inr ⟨_, rfl⟩
    · exact .inl rfl
  · exact .inl rfl

theorem stages_flatten (t : Txn) : t.stages.flatten = t.line := by
  rcases stages_cases t with same | ⟨head, same⟩
  · simp [same]
  · simp [same]

theorem stages_length (t : Txn) : 0 < t.stages.length ∧ t.stages.length ≤ 2 := by
  rcases stages_cases t with same | ⟨head, same⟩ <;> simp [same]

/-- `texts` are the parts of the line sent so far, by the phase. -/
structure Typed (t : Txn) (texts : List Text) : Prop where
  typing : ∀ stage, t.phase = .typing stage →
    stage < t.stages.length ∧ texts = t.stages.take stage
  lineJob : ∀ stage, t.phase = .lineJob stage →
    stage < t.stages.length ∧ texts = t.stages.take (stage + 1)
  headEcho : t.phase = .headEcho → t.stages.length = 2 ∧ texts = t.stages.take 1
  echo : t.phase = .echo ∨ t.phase = .preCr → texts = t.stages
  begun : ∃ count, texts = t.stages.take count

theorem Typed.congr {after : Txn} (holds : t.Typed texts) (phase : after.phase = t.phase)
    (stages : after.stages = t.stages) : after.Typed texts := by
  constructor
  · rw [phase, stages]
    exact holds.typing
  · rw [phase, stages]
    exact holds.lineJob
  · rw [phase, stages]
    exact holds.headEcho
  · rw [phase, stages]
    exact holds.echo
  · rw [stages]
    exact holds.begun

/-- The phases after the line only keep what was typed. -/
theorem Typed.leave {after : Txn} (holds : t.Typed texts) (late : after.phase.early = false)
    (stages : after.stages = t.stages) : after.Typed texts := by
  have begun : ∃ count, texts = after.stages.take count := by
    rw [stages]
    exact holds.begun
  cases phase : after.phase with
  | typing | lineJob | headEcho | echo | preCr => simp [phase, Phase.early] at late
  | crJob | confirm | withdrawing | deleteJob | confirmWithdrawn | pause | done =>
    exact ⟨by simp [phase], by simp [phase], by simp [phase], by simp [phase], begun⟩

end Txn

variable {after : Txn} {later : World}

section

variable (shift : Shift input t world after later)

include shift

/-- Every change within a step keeps it: one case per change. -/
theorem Shift.typed (holds : t.Typed texts) : after.Typed texts := by
  have stages := shift.same.stages
  have bounds := t.stages_length
  cases shift with
  | look | epoch | note | retire => exact holds.congr rfl stages
  | partTaken | noneTaken => exact holds.congr rfl stages
  | takeBack =>
    exact holds.congr (t.takeBack_phase world) stages
  | typeRest phase =>
    have found := holds.headEcho phase
    refine ⟨?_, by simp [Txn.enter], by simp [Txn.enter], by simp [Txn.enter], ?_⟩
    · rintro stage inPhase
      cases inPhase
      rw [stages]
      exact ⟨by omega, found.2⟩
    · exact ⟨1, stages ▸ found.2⟩
  | echoed phase | cancelled phase =>
    have found : texts = t.stages := holds.echo (by simp [phase])
    refine ⟨by simp [Txn.enter], by simp [Txn.enter], by simp [Txn.enter], ?_, ?_⟩
    · intro _
      exact found
    · exact holds.begun
  | headTaken stage accepted phase event full more =>
    have found := holds.lineJob stage phase
    have first : stage = 0 := by omega
    subst first
    refine ⟨by simp [Txn.enter], by simp [Txn.enter], ?_, by simp [Txn.enter], ?_⟩
    · intro _
      rw [stages]
      exact ⟨by omega, found.2⟩
    · exact ⟨1, stages ▸ found.2⟩
  | lineTaken stage accepted phase event full last =>
    have found := holds.lineJob stage phase
    have all : texts = t.stages := by
      rw [found.2, List.take_of_length_le last]
    refine ⟨by simp [Txn.enter], by simp [Txn.enter], by simp [Txn.enter], ?_, ?_⟩
    · intro _
      exact all
    · exact holds.begun
  | confirming | withdraw | deleted => exact holds.leave rfl stages

/-- No change within a step enters one of these phases. -/
theorem Shift.phase_back {early : Phase}
    (first : early = .typing 0 ∨ ∃ stage, early = .lineJob stage) (phase : after.phase = early) :
    t.phase = early := by
  cases shift with
  | look | epoch | note | partTaken | noneTaken | retire => exact phase
  | takeBack =>
    rw [Txn.takeBack_phase] at phase
    exact phase
  | typeRest | echoed | cancelled | headTaken | lineTaken | confirming | withdraw | deleted =>
    rcases first with rfl | ⟨stage, rfl⟩
    · cases phase
    · cases phase

end

theorem Shift.alive (shift : Shift input t world after later) (alive : t.phase.isDone = false) :
    after.phase.isDone = false := by
  cases shift with
  | look | epoch | note | partTaken | noneTaken | retire => exact alive
  | takeBack =>
    rw [Txn.takeBack_phase]
    exact alive
  | typeRest | echoed | cancelled | headTaken | lineTaken | confirming | withdraw | deleted => rfl

/-- Where a step that is still on the first stages, or not over, began. -/
structure Began (before t : Txn) : Prop where
  typing : t.phase = .typing 0 → before.phase = .typing 0
  lineJob : ∀ stage, t.phase = .lineJob stage → before.phase = .lineJob stage
  alive : t.phase.isDone = false

theorem Began.shift {before : Txn} (began : Began before t)
    (shift : Shift input t world after later) : Began before after :=
  ⟨fun phase => began.typing (shift.phase_back (.inl rfl) phase),
    fun stage phase => began.lineJob stage (shift.phase_back (.inr ⟨stage, rfl⟩) phase),
    shift.alive began.alive⟩

theorem began_tracked (alive : t.phase.isDone = false) :
    Began t ((t.tracked input).noted input.event) := by
  have phase : ((t.tracked input).noted input.event).phase = t.phase := t.tracked_phase input
  refine ⟨?_, ?_, ?_⟩
  · rw [phase]
    exact id
  · rw [phase]
    exact fun _ => id
  · rw [phase]
    exact alive

theorem Reached.began {last : Txn} {lastWorld : World} {lost : Bool} {reply : Reply}
    (reached : Reached input t world last lastWorld lost reply) (alive : t.phase.isDone = false) :
    Began t last :=
  reached.shifts.keeps (fun after _ => Began t after) Began.shift (began_tracked alive)

theorem filterMap_job_quiet {actions : List Action}
    (quiet : ∀ action ∈ actions, ∃ time, action = .wakeAt time) :
    actions.filterMap Action.job? = [] := by
  rw [List.filterMap_eq_nil_iff]
  intro action present
  rcases quiet action present with ⟨time, rfl⟩
  rfl

/-- A leaf sends the next part or none. -/
theorem Leaf.typed {reply : Reply} (leaf : Leaf input powers t world reply)
    (holds : t.Typed texts) :
    reply.txn.Typed (texts ++ (reply.actions.filterMap Action.job?).filterMap Job.text?) := by
  have stages := leaf.same.stages
  cases leaf with
  | rest actions quiet =>
    rw [filterMap_job_quiet quiet]
    simpa using holds
  | lose =>
    have kept : { t with admissionLost := true }.Typed texts := holds.congr rfl stages
    simpa [List.filterMap_cons, Action.job?] using kept
  | line stage phase =>
    have found := holds.typing stage phase
    have next : texts ++ [t.stages.getD stage []] = t.stages.take (stage + 1) := by
      rw [found.2, List.take_add_one, List.getD_eq_getElem?_getD,
        List.getElem?_eq_getElem found.1]
      rfl
    refine ⟨by simp [Txn.enqueue, Txn.enter], ?_, by simp [Txn.enqueue, Txn.enter],
      by simp [Txn.enqueue, Txn.enter], ?_⟩
    · intro other inPhase
      cases inPhase
      exact ⟨found.1, next⟩
    · exact ⟨stage + 1, next⟩
  | cr | deletes | suspended | paused | settled | expired | submitted | withdrawn | notTyped
  | retired =>
    have kept := holds.leave rfl stages
    simpa [Txn.enqueue, Txn.release, List.filterMap_cons, Action.job?, Job.text?] using kept

namespace Run

theorem linesOf_feed (run : Run) (input : Input) :
    linesOf (run.feed input).log = linesOf run.log ++
      ((run.txn.on run.world input.event input.seam input.now).actions.filterMap
        Action.job?).filterMap Job.text? := by
  simp only [feed, record, linesOf_cons, Record.jobs]

/-- The invariant of a run: its log holds the parts of the line, each once and in order. -/
structure Typing (t : Txn) (run : Run) : Prop where
  good : run.Good t
  typed : run.txn.Typed (linesOf run.log)

theorem Typing.last {run : Run} {input : Input} {last : Txn} {lastWorld : World} {lost : Bool}
    {reply : Reply} (typing : run.Typing t)
    (reached : Reached input run.txn run.world last lastWorld lost reply) :
    last.Typed (linesOf run.log) := by
  apply reached.keeps (fun after _ => after.Typed (linesOf run.log))
    (fun _ holds shift => shift.typed holds) typing.good.steady typing.good.busy
  have same := run.txn.tracked_same input
  exact typing.typed.congr (Txn.tracked_phase run.txn input) same.stages

theorem Typing.feed {run : Run} (typing : run.Typing t) (input : Input) :
    (run.feed input).Typing t := by
  refine ⟨good_feed typing.good input, ?_⟩
  rw [linesOf_feed]
  rcases feed_cases typing.good input with ⟨_, unmoved⟩ | ⟨_, last, lastWorld, lost, reached⟩
  · simpa [Run.feed, record, unmoved] using typing.typed
  · have forgotten : { last with admissionLost := lost }.Typed (linesOf run.log) :=
      (typing.last reached).congr rfl rfl
    exact reached.leaf.typed forgotten

theorem Typing.turn {run : Run} (typing : run.Typing t) (round : Round) :
    (run.turn round).Typing t := by
  cases round with
  | feed input => exact typing.feed input
  | move | answer => exact ⟨good_turn typing.good _, typing.typed⟩

end Run

theorem Txn.Fresh.typing (fresh : t.Fresh) (cell : Latch) : (Run.admitted t cell).Typing t where
  good := fresh.good cell
  typed := by
    have bounds := t.stages_length
    constructor
    · intro stage phase
      cases fresh.phase.symm.trans phase
      exact ⟨bounds.1, rfl⟩
    · simp [Run.admitted, fresh.phase]
    · simp [Run.admitted, fresh.phase]
    · simp [Run.admitted, fresh.phase]
    · exact ⟨0, rfl⟩

end AgentDeck.Doorbell
