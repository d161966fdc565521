import AgentDeck.Doorbell.Lines

/-!
# One job at a time, and truthful endings

A run's jobs are named by their places in the order of the enqueues, which are also their claims'. A
job is open until its end or its refusal is reported, its claim is withdrawn or its writer refuses
it. The transaction owns the only open job, and one that it lets go of is open no longer.
-/

namespace AgentDeck.Doorbell

open History

variable {input : Input} {powers : Powers} {t : Txn} {world : World} {log : List Record}
  {enqueued : List Job}

def Job.kind : Job → JobKind
  | .line _ => .line
  | .cr => .cr
  | .deletes _ => .deletes

/-- The record reports the end or the refusal of the job at this place, the newest one then. -/
structure Record.Closes (record : Record) (place : ℕ) : Prop where
  newest : record.world.claims.length = place + 1
  live : record.before.phase.isDone = false
  reports : (∃ kind accepted ok, record.Ends kind accepted ok) ∨
    record.input.event = .jobNotStarted ∧ record.before.isQueued = true

/-- The job at this place is neither ended, refused nor withdrawn. -/
structure Open (log : List Record) (world : World) (place : ℕ) : Prop where
  claim : world.claims[place]? = some .queued ∨ world.claims[place]? = some .started
  unclosed : ∀ record ∈ log, ¬record.Closes place

structure Owns (enqueued : List Job) (log : List Record) (t : Txn) (world : World) : Prop where
  count : world.claims.length = enqueued.length
  placed : t.isQueued = true → ∃ place, t.claim = some place ∧ place + 1 = world.claims.length
  kind : ∀ kind, t.job = .queued kind ∨ t.job = .running kind →
    ∃ job, enqueued.getLast? = some job ∧ job.kind = kind
  opened : ∀ place, Open log world place → t.job ≠ .idle ∧ place + 1 = world.claims.length

variable {after : Txn} {later : World}

section

variable (owns : Owns enqueued log t world)

include owns

theorem Owns.congr (job : after.job = t.job) (claim : after.claim = t.claim)
    (claims : later.claims = world.claims) : Owns enqueued log after later := by
  refine ⟨?_, ?_, ?_, ?_⟩
  · rw [claims]
    exact owns.count
  · rw [claims, claim, Txn.isQueued, job]
    exact owns.placed
  · rw [job]
    exact owns.kind
  · rw [job, claims]
    intro place opened
    exact owns.opened place ⟨claims ▸ opened.claim, opened.unclosed⟩

theorem Owns.last {place other : ℕ} (last : place + 1 = enqueued.length)
    (newest : other + 1 = world.claims.length) : place = other := by
  have count := owns.count
  omega

theorem Owns.started {kind : JobKind} (queued : t.job = .queued kind) :
    Owns enqueued log (t.started kind) world := by
  refine ⟨owns.count, ?_, ?_, ?_⟩
  · intro isQueued
    cases isQueued
  · rintro other (same | same)
    · cases same
    · cases same
      exact owns.kind kind (.inl queued)
  · intro place opened
    exact ⟨by simp [Txn.started], (owns.opened place opened).2⟩

theorem Owns.dropped (idle : after.job = .idle) (count : later.claims.length = world.claims.length)
    (closed : ∀ place, place + 1 = later.claims.length → ¬Open log later place)
    (others : ∀ place, place + 1 ≠ world.claims.length → later.claims[place]? =
      world.claims[place]?) : Owns enqueued log after later := by
  refine ⟨count.trans owns.count, ?_, ?_, ?_⟩
  · simp [Txn.isQueued, idle]
  · simp [idle]
  · intro place opened
    by_cases newest : place + 1 = world.claims.length
    · exact absurd opened (closed place (newest.trans count.symm))
    · have older : Open log world place := ⟨others place newest ▸ opened.claim, opened.unclosed⟩
      exact absurd (owns.opened place older).2 newest

theorem Owns.takeBack : Owns enqueued log (t.takeBack world).1 (t.takeBack world).2 := by
  rcases t.takeBack_cases world with ⟨_, same⟩ | ⟨kind, claim, job, found, state, same⟩ |
    ⟨kind, claim, job, found, state, same⟩ | ⟨kind, job, same⟩
  · rw [same]
    exact owns
  · rcases owns.placed (by simp [Txn.isQueued, job]) with ⟨place, held, newest⟩
    cases found.symm.trans held
    rw [same]
    apply owns.dropped rfl
    · simp
    · intro other last opened
      have same : other = claim := by
        simp only [List.length_set] at last
        omega
      subst same
      have claims := opened.claim
      have inside : other < world.claims.length := by omega
      simp [inside] at claims
    · intro other older
      have differs : claim ≠ other := by omega
      simp [differs]
  · rcases owns.placed (by simp [Txn.isQueued, job]) with ⟨place, held, newest⟩
    cases found.symm.trans held
    rw [same]
    apply owns.dropped rfl rfl
    · intro other last opened
      have same : other = claim := by omega
      subst same
      have claims := opened.claim
      simp [state] at claims
    · intro other _
      rfl
  · rw [same]
    exact owns.started job

end

theorem Owns.shift (owns : Owns enqueued log t world) (shift : Shift input t world after later) :
    Owns enqueued log after later := by
  cases shift with
  | takeBack => exact owns.takeBack
  | _ => exact owns.congr rfl rfl rfl

variable {record : Record}

theorem Open.older {place : ℕ} (opened : Open (record :: log) world place) : Open log world place :=
  ⟨opened.claim, fun other present => opened.unclosed other (List.mem_cons_of_mem _ present)⟩

variable {reply : Reply}

theorem Owns.tracked (owns : Owns enqueued log t world) (alive : t.phase.isDone = false) :
    Owns enqueued (⟨input, t, world, reply⟩ :: log) (t.tracked input) world := by
  have older : Owns enqueued (⟨input, t, world, reply⟩ :: log) t world :=
    ⟨owns.count, owns.placed, owns.kind, fun place opened => owns.opened place opened.older⟩
  rcases t.tracked_cases input with ⟨kind, event, queued, same⟩ | ⟨kind, event, queued, same⟩ |
    ⟨kind, accepted, ok, event, owned, same⟩ | ⟨frame, same, _, _⟩
  · rw [same]
    exact older.started queued
  · rw [same]
    apply older.dropped rfl rfl
    · intro place newest opened
      exact opened.unclosed _ List.mem_cons_self
        ⟨newest.symm, alive, .inr ⟨event, by simp [Txn.isQueued, queued]⟩⟩
    · intro place _
      rfl
  · rw [same]
    apply older.dropped rfl rfl
    · intro place newest opened
      exact opened.unclosed _ List.mem_cons_self
        ⟨newest.symm, alive, .inl ⟨kind, accepted, ok, event, owned⟩⟩
    · intro place _
      rfl
  · rw [same]
    exact older.congr rfl rfl rfl

theorem Owns.enqueue {job : Job} {phase : Phase} {now : Instant} (owns : Owns enqueued log t world)
    (idle : t.job = .idle) :
    Owns (enqueued ++ [job]) log (t.enqueue world job.kind job phase now).txn
      (t.enqueue world job.kind job phase now).world := by
  refine ⟨by simp [Txn.enqueue, owns.count], ?_, ?_, ?_⟩
  · intro _
    exact ⟨world.claims.length, rfl, by simp [Txn.enqueue]⟩
  · rintro kind (same | same)
    · cases same
      exact ⟨job, by simp, rfl⟩
    · cases same
  · intro place opened
    refine ⟨by simp [Txn.enqueue, Txn.enter], ?_⟩
    by_cases older : place < world.claims.length
    · have still : Open log world place := by
        refine ⟨?_, opened.unclosed⟩
        have claim := opened.claim
        simpa [Txn.enqueue, List.getElem?_append_left older] using claim
      exact absurd idle (owns.opened place still).1
    · have inside : place < (world.claims ++ [ClaimState.queued]).length := by
        rcases opened.claim with claim | claim
        · exact (List.getElem?_eq_some_iff.mp claim).1
        · exact (List.getElem?_eq_some_iff.mp claim).1
      simp only [Txn.enqueue, List.length_append, List.length_singleton] at inside ⊢
      omega

theorem Owns.leaf (owns : Owns enqueued log t world) (leaf : Leaf input powers t world reply)
    (steady : t.Steady) :
    Owns (enqueued ++ reply.actions.filterMap Action.job?) log reply.txn reply.world := by
  cases leaf with
  | rest actions quiet =>
    rw [filterMap_job_quiet quiet, List.append_nil]
    exact owns
  | lose | suspended | paused | settled | expired | submitted | withdrawn | notTyped | retired =>
    change Owns (enqueued ++ []) log _ _
    rw [List.append_nil]
    exact owns.congr rfl rfl rfl
  | line stage phase | cr read phase | deletes read count cause phase =>
    exact owns.enqueue (steady.jobless (by rw [phase]; rfl))

theorem Owns.answered (owns : Owns enqueued log t world) (claim : ℕ) (refuses : Bool) :
    Owns enqueued log t { world with claims := world.claims.modify claim (.answered refuses) } := by
  refine ⟨by simp [owns.count], ?_, owns.kind, ?_⟩
  · intro queued
    simpa using owns.placed queued
  · intro place opened
    have still : Open log world place := by
      refine ⟨?_, opened.unclosed⟩
      have claims := opened.claim
      simp only [List.getElem?_modify] at claims
      cases found : world.claims[place]? with
      | none => simp [found] at claims
      | some state =>
        rw [found] at claims
        cases state with
        | queued => exact .inl rfl
        | started => exact .inr rfl
        | withdrawn | refused =>
          split at claims <;> simp [ClaimState.answered] at claims
    simpa using owns.opened place still

/-! ## Nothing written -/

/-- The end of the line job at this place was reported with no byte taken. -/
def Record.EndsEmpty (record : Record) (place : ℕ) : Prop :=
  record.world.claims.length = place + 1 ∧ ∃ ok, record.Ends .line 0 ok

/-- No byte of a line job was reported, and none can come but from the queued one. -/
structure Unwritten (enqueued : List Job) (log : List Record) (t : Txn) (world : World) : Prop where
  ended : ∀ record ∈ log, ∀ accepted ok, record.Ends .line accepted ok → accepted = 0
  claims : ∀ place text, enqueued[place]? = some (.line text) →
    t.isQueued = true ∧ place + 1 = enqueued.length ∨ world.claims[place]? = some .withdrawn ∨
      world.claims[place]? = some .refused ∨ ∃ record ∈ log, record.EndsEmpty place

section

variable (unwritten : Unwritten enqueued log t world)

include unwritten

theorem Unwritten.congr (job : after.job = t.job) (claims : later.claims = world.claims) :
    Unwritten enqueued log after later := by
  refine ⟨unwritten.ended, ?_⟩
  rw [claims, Txn.isQueued, job]
  exact unwritten.claims

omit unwritten in
theorem Owns.newest {kind : JobKind} {place : ℕ} {job : Job} (owns : Owns enqueued log t world)
    (owned : t.job = .queued kind ∨ t.job = .running kind) (newest : place + 1 = enqueued.length)
    (found : enqueued[place]? = some job) : job.kind = kind := by
  rcases owns.kind kind owned with ⟨last, same, isKind⟩
  rw [List.getLast?_eq_getElem?] at same
  have here : enqueued.length - 1 = place := by omega
  rw [here, found] at same
  cases same
  exact isKind

theorem Unwritten.dropped
    (newest : ∀ place text, place + 1 = enqueued.length → enqueued[place]? = some (.line text) →
      later.claims[place]? = some .withdrawn ∨ later.claims[place]? = some .refused ∨
        ∃ record ∈ log, record.EndsEmpty place)
    (others : ∀ place : ℕ, world.claims[place]? = some .withdrawn ∨
      world.claims[place]? = some .refused → later.claims[place]? = world.claims[place]?) :
    Unwritten enqueued log after later := by
  refine ⟨unwritten.ended, ?_⟩
  intro place text found
  rcases unwritten.claims place text found with ⟨_, last⟩ | withdrawn | refused | empty
  · exact .inr (newest place text last found)
  · exact .inr (.inl ((others place (.inl withdrawn)).trans withdrawn))
  · exact .inr (.inr (.inl ((others place (.inr refused)).trans refused)))
  · exact .inr (.inr (.inr empty))

theorem Unwritten.takeBack (owns : Owns enqueued log t world)
    (stays : (t.takeBack world).1.wrote = false) :
    Unwritten enqueued log (t.takeBack world).1 (t.takeBack world).2 := by
  rcases t.takeBack_cases world with ⟨_, same⟩ | ⟨kind, claim, job, found, state, same⟩ |
    ⟨kind, claim, job, found, state, same⟩ | ⟨kind, job, same⟩
  · rw [same]
    exact unwritten
  · rcases owns.placed (by simp [Txn.isQueued, job]) with ⟨place, held, newest⟩
    cases found.symm.trans held
    rw [same]
    apply unwritten.dropped
    · intro other text last _
      cases owns.last last newest
      have inside : claim < world.claims.length := by omega
      exact .inl (by simp [inside])
    · intro other closed
      have differs : claim ≠ other := by
        rintro rfl
        rw [state] at closed
        rcases closed with closed | closed <;> cases closed
      simp [differs]
  · rcases owns.placed (by simp [Txn.isQueued, job]) with ⟨place, held, newest⟩
    cases found.symm.trans held
    rw [same]
    apply unwritten.dropped
    · intro other text last _
      cases owns.last last newest
      exact .inr (.inl state)
    · intro other _
      rfl
  · rw [same] at stays ⊢
    apply unwritten.dropped
    · intro place text last line
      have isLine := owns.newest (.inl job) last line
      simp [Txn.started, ← isLine, Job.kind] at stays
    · intro place _
      rfl

end

/-- The refusal of a first line job is reported against its claim. -/
def Record.Misreports (record : Record) : Prop :=
  record.input.event = .jobNotStarted ∧ record.before.job = .queued .line ∧
    record.before.wrote = false ∧
    (record.before.claim.bind fun claim => record.world.claims[claim]?) ≠ some .refused

instance : DecidablePred Record.Misreports :=
  fun _ => inferInstanceAs (Decidable (_ ∧ _ ∧ _ ∧ _))

theorem Unwritten.older (unwritten : Unwritten enqueued log t world)
    (empty : ∀ accepted ok, record.Ends .line accepted ok → accepted = 0) :
    Unwritten enqueued (record :: log) t world := by
  refine ⟨?_, ?_⟩
  · intro other present
    rcases List.mem_cons.mp present with rfl | older
    · exact empty
    · exact unwritten.ended other older
  · intro place text found
    rcases unwritten.claims place text found with queued | withdrawn | refused
      | ⟨other, older, ends⟩
    · exact .inl queued
    · exact .inr (.inl withdrawn)
    · exact .inr (.inr (.inl refused))
    · exact .inr (.inr (.inr ⟨other, List.mem_cons_of_mem _ older, ends⟩))

theorem Unwritten.tracked (unwritten : t.wrote = false → Unwritten enqueued log t world)
    (owns : Owns enqueued log t world) (reported : ¬Record.Misreports ⟨input, t, world, reply⟩)
    (stays : (t.tracked input).wrote = false) :
    Unwritten enqueued (⟨input, t, world, reply⟩ :: log) (t.tracked input) world := by
  have count := owns.count
  rcases t.tracked_cases input with ⟨kind, event, queued, same⟩ | ⟨kind, event, queued, same⟩ |
    ⟨kind, accepted, ok, event, owned, same⟩ | ⟨frame, same, ended, _⟩
  · rw [same] at stays ⊢
    simp only [Txn.started, Bool.or_eq_false_iff, decide_eq_false_iff_not] at stays
    apply ((unwritten stays.1).older (by simp [Record.Ends, event])).dropped
    · intro place text newest line
      exact absurd (owns.newest (.inl queued) newest line).symm stays.2
    · intro place _
      rfl
  · rw [same] at stays ⊢
    apply ((unwritten stays).older (by simp [Record.Ends, event])).dropped
    · intro place text newest line
      have isLine : kind = .line := (owns.newest (.inl queued) newest line).symm
      subst isLine
      rcases owns.placed (by simp [Txn.isQueued, queued]) with ⟨claim, held, last⟩
      have here : claim = place := by omega
      subst here
      refine .inr (.inl ?_)
      by_contra differs
      apply reported
      exact ⟨event, queued, stays, by simpa [held] using differs⟩
    · intro place _
      rfl
  · rw [same] at stays ⊢
    simp only [Txn.ended, Bool.or_eq_false_iff, Bool.and_eq_false_iff, decide_eq_false_iff_not,
      Nat.not_lt, Nat.le_zero] at stays
    have nothing : kind = .line → accepted = 0 := fun isLine =>
      stays.2.resolve_left (not_not.mpr isLine)
    apply ((unwritten stays.1).older ?_).dropped
    · intro place text newest line
      have isLine : kind = .line := (owns.newest owned newest line).symm
      subst isLine
      refine .inr (.inr ⟨_, List.mem_cons_self, ?_, ok, ?_, owned⟩)
      · exact count.trans newest.symm
      · rw [← nothing rfl]
        exact event
    · intro place _
      rfl
    · rintro other ok' ⟨ends, ownsLine⟩
      cases event.symm.trans ends
      rcases owned with owned | owned <;> rcases ownsLine with line | line <;> simp_all
  · rw [same] at stays ⊢
    refine Unwritten.congr ((unwritten stays).older ?_) rfl rfl
    rintro accepted ok ⟨ends, ownsLine⟩
    have idle := ended accepted ok ends
    rcases ownsLine with line | line <;> simp [idle] at line

/-- What a step keeps of it, the event being that of `record`. -/
structure Tells (enqueued : List Job) (log : List Record) (record : Record) (t : Txn)
    (world : World) : Prop where
  owns : Owns enqueued (record :: log) t world
  unwritten : t.wrote = false → Unwritten enqueued (record :: log) t world
  began : Began record.before t

/-- The first line job is the only one so far, and has not ended. -/
structure FirstJob (enqueued : List Job) (log : List Record) (t : Txn) : Prop where
  typing : t.phase = .typing 0 → enqueued = []
  lineJob : t.phase = .lineJob 0 → enqueued.length = 1
  running : t.phase = .typing 0 ∨ t.phase = .lineJob 0 →
    ∀ record ∈ log, ∀ accepted ok, ¬record.Ends .line accepted ok

theorem Tells.shift (tells : Tells enqueued log record t world)
    (first : FirstJob enqueued log record.before)
    (count : record.world.claims.length = enqueued.length) (steady : record.before.Steady)
    (busy : record.before.Busy) (shift : Shift record.input t world after later) :
    Tells enqueued log record after later := by
  refine ⟨tells.owns.shift shift, ?_, tells.began.shift shift⟩
  intro stays
  cases shift with
  | takeBack =>
    exact Unwritten.takeBack (tells.unwritten (Txn.takeBack_unwritten stays)) tells.owns stays
  | headTaken | lineTaken | partTaken => cases stays
  | noneTaken ok phase event =>
    have begun := tells.began.lineJob 0 phase
    have single := first.lineJob begun
    refine ⟨?_, ?_⟩
    · intro other present accepted ok' ends
      rcases List.mem_cons.mp present with rfl | older
      · cases event.symm.trans ends.1
        rfl
      · exact absurd ends (first.running (.inr begun) other older accepted ok')
    · intro place text found
      have inside := (List.getElem?_eq_some_iff.mp found).1
      refine .inr (.inr (.inr ⟨record, List.mem_cons_self, ?_, ok, event, ?_⟩))
      · omega
      · exact steady.ownsLine busy begun
  | look | epoch | note | typeRest | echoed | cancelled | confirming | withdraw | deleted
  | retire => exact (tells.unwritten stays).congr rfl rfl

/-! ## Releases -/

def Action.outcome? : Action → Option Outcome
  | .release outcome => some outcome
  | _ => none

def Record.releases (record : Record) : List Outcome :=
  record.reply.actions.filterMap Action.outcome?

def releasesOf : List Record → List Outcome
  | [] => []
  | record :: earlier => releasesOf earlier ++ record.releases

def Phase.released : Phase → List Outcome
  | .done outcome => [outcome]
  | _ => []

theorem Phase.released_of_alive {phase : Phase} (alive : phase.isDone = false) :
    phase.released = [] := by
  cases phase <;> first | rfl | cases alive

theorem Leaf.released (leaf : Leaf input powers t world reply) (alive : t.phase.isDone = false) :
    reply.actions.filterMap Action.outcome? = reply.txn.phase.released := by
  cases leaf with
  | rest actions quiet =>
    rw [Phase.released_of_alive alive, List.filterMap_eq_nil_iff]
    intro action present
    rcases quiet action present with ⟨time, rfl⟩
    rfl
  | lose =>
    rw [Phase.released_of_alive alive]
    rfl
  | line | cr | deletes | suspended | paused => rfl
  | settled | expired | submitted | withdrawn | notTyped | retired => rfl

theorem Leaf.letsGo (leaf : Leaf input powers t world reply) (steady : t.Steady)
    (alive : t.phase.isDone = false) (isDone : reply.txn.phase.isDone)
    (queued : reply.txn.isQueued) : powers.leaves := by
  cases leaf with
  | rest | lose =>
    rw [alive] at isDone
    cases isDone
  | line | cr | deletes | suspended | paused => cases isDone
  | settled outcome settles unqueued => exact unqueued queued
  | submitted unqueued => exact unqueued queued
  | withdrawn phase =>
    have idle := steady.jobless (by rw [phase]; rfl)
    simp [Txn.release, Txn.isQueued, idle] at queued
  | expired wrote unqueued | notTyped why unwritten unqueued | retired isRetired wrote unqueued =>
    exact absurd queued (Bool.eq_false_iff.mp unqueued)

theorem Leaf.unwritten {why : NotTyped} (leaf : Leaf input powers t world reply)
    (alive : t.phase.isDone = false) (phase : reply.txn.phase = .done (.nothingWritten why)) :
    reply.txn.wrote = false := by
  cases leaf with
  | rest | lose =>
    rw [show t.phase = _ from phase] at alive
    cases alive
  | line | cr | deletes | suspended | paused => cases phase
  | settled outcome settles =>
    cases phase
    cases settles
  | expired | submitted | withdrawn | retired => cases phase
  | notTyped other unwritten => exact unwritten

/-! ## The deadline -/

namespace Txn

theorem conclude_isDone {ending : Ending} {now : Instant} (t : Txn) (world : World)
    (late : t.deadline ≤ now) : (t.conclude world ending now).txn.phase.isDone := by
  have late : (t.takeBack world).1.deadline ≤ now := by
    rcases t.takeBack_frame world with ⟨_, _, _, same⟩
    rw [same]
    exact late
  simp only [conclude, finish]
  cases ending with
  | notTyped why =>
    simp only [late, decide_true, Bool.and_true]
    split
    · exact expire_phase _ _
    · rfl
  | expire => exact expire_phase _ _
  | submitted => rfl
  | retired =>
    simp only []
    split <;> rfl

theorem proceed_isDone {now : Instant} (t : Txn) (world : World) (event : Event) (seam : Seam)
    (late : t.deadline ≤ now) : (t.proceed world event seam now).txn.phase.isDone := by
  rw [proceed, if_pos late]
  exact conclude_isDone t world late

theorem receive_isDone {now : Instant} (t : Txn) (world : World) (event : Event) (seam : Seam)
    (late : t.deadline ≤ now) : (t.receive world event seam now).txn.phase.isDone := by
  cases event with
  | retired => exact conclude_isDone t _ late
  | evidence token exact =>
    simp only [receive]
    split
    · rename_i reply answered
      simp only [evidence] at answered
      repeat' split at answered
      all_goals
        cases answered
        try exact conclude_isDone t world late
    · exact proceed_isDone t world _ seam late
  | admissionLost =>
    simp only [receive]
    split
    · exact conclude_isDone t world late
    · exact proceed_isDone _ world _ seam late
  | frame | jobStarted | jobEnded | jobStalled | jobNotStarted | tick | modeChanged =>
    exact proceed_isDone t world _ seam late

theorem on_isDone {input : Input} (t : Txn) (world : World) (late : t.deadline ≤ input.now) :
    (t.on world input.event input.seam input.now).txn.phase.isDone := by
  cases alive : t.phase.isDone with
  | true =>
    rw [on_done alive]
    exact alive
  | false =>
    rw [on_receive input world alive]
    apply receive_isDone
    rw [(t.tracked_same input).deadline]
    exact late

end Txn

/-! ## Runs -/

theorem Leaf.enqueuesOne (leaf : Leaf input powers t world reply) :
    (reply.actions.filterMap Action.job?).length ≤ 1 := by
  cases leaf with
  | rest actions quiet => simp [filterMap_job_quiet quiet]
  | _ => simp [Txn.enqueue, Txn.release, List.filterMap_cons, Action.job?]

theorem FirstJob.leaf {last : Txn} {lastWorld : World} {lost : Bool}
    (first : FirstJob enqueued log t) (steady : t.Steady) (began : Began t last)
    (held : Held input last)
    (leaf : Leaf input powers { last with admissionLost := lost } lastWorld reply) :
    FirstJob (enqueued ++ reply.actions.filterMap Action.job?) (⟨input, t, world, reply⟩ :: log)
      reply.txn := by
  have older : t.phase = .typing 0 ∨ t.phase = .lineJob 0 → ∀ {after : Reply},
      (∀ accepted ok, ¬Record.Ends ⟨input, t, world, after⟩ .line accepted ok) →
      ∀ record ∈ (⟨input, t, world, after⟩ :: log), ∀ accepted ok,
        ¬record.Ends .line accepted ok := by
    intro phase after newest record present
    rcases List.mem_cons.mp present with rfl | present
    · exact newest
    · exact first.running phase record present
  have atSeam : t.phase = .typing 0 → ∀ {after : Reply} accepted ok,
      ¬Record.Ends ⟨input, t, world, after⟩ .line accepted ok := by
    rintro phase after accepted ok ⟨_, owned⟩
    have idle := steady.jobless (by rw [phase]; rfl)
    rcases owned with owned | owned <;> simp [idle] at owned
  have waits : ∀ {actions after}, after.phase = last.phase → actions.filterMap Action.job? = [] →
      (last.phase = .lineJob 0 → last.job ≠ .idle) →
      FirstJob (enqueued ++ actions.filterMap Action.job?)
        (⟨input, t, world, ⟨actions, after, lastWorld⟩⟩ :: log) after := by
    intro actions after phase quiet owned
    rw [quiet, List.append_nil]
    refine ⟨?_, ?_, ?_⟩
    · rw [phase]
      exact fun inPhase => first.typing (began.typing inPhase)
    · rw [phase]
      exact fun inPhase => first.lineJob (began.lineJob 0 inPhase)
    · rw [phase]
      rintro (inPhase | inPhase)
      · exact older (.inl (began.typing inPhase)) (atSeam (began.typing inPhase))
      · apply older (.inr (began.lineJob 0 inPhase))
        -- The job would have ended, and the step would not wait for it.
        rintro accepted ok ⟨event, _⟩
        exact owned inPhase (held.ended accepted ok event)
  cases leaf with
  | rest actions quiet busy =>
    refine waits rfl (filterMap_job_quiet quiet) ?_
    intro phase
    rcases busy with jobless | isPause | isDone | owned
    · simp [phase, Phase.jobless] at jobless
    · simp [phase, Phase.isPause] at isPause
    · simp [phase, Phase.isDone] at isDone
    · exact owned
  | lose time wrote running =>
    refine waits rfl rfl ?_
    rw [show last.job = _ from running]
    simp
  | line stage phase =>
    refine ⟨by simp [Txn.enqueue, Txn.enter], ?_, ?_⟩
    · intro inPhase
      cases inPhase
      have fresh := first.typing (began.typing phase)
      simp [fresh, Txn.enqueue, Action.job?]
    · rintro (inPhase | inPhase)
      · cases inPhase
      · cases inPhase
        exact older (.inl (began.typing phase)) (atSeam (began.typing phase))
  | cr | deletes | suspended | paused | settled | expired | submitted | withdrawn | notTyped
  | retired => exact ⟨by simp [Txn.enqueue, Txn.enter, Txn.release],
      by simp [Txn.enqueue, Txn.enter, Txn.release], by simp [Txn.enqueue, Txn.enter, Txn.release]⟩

/-- What every record says of the jobs and the release. -/
structure Record.Orderly (t : Txn) (earlier : List Record) (record : Record) : Prop where
  single : record.jobs.length ≤ 1
  alone : record.jobs ≠ [] →
    ∀ place < (jobsOf earlier).length, ¬Open (record :: earlier) record.reply.world place
  quiet : releasesOf earlier ≠ [] → record.reply.actions = []
  deadline : t.deadline ≤ record.input.now → record.reply.txn.phase.isDone = true

/-- The step releases a transaction that leaves its queued job behind. -/
def Record.Abandons (record : Record) : Prop :=
  (record.before.tracked record.input).leavesQueued record.world record.input = true

instance : DecidablePred Record.Abandons := fun _ => inferInstanceAs (Decidable (_ = true))

/-- A released transaction has no queued job, and counts a job that is still open as started. -/
def Record.LetsGo (earlier : List Record) (record : Record) : Prop :=
  record.releases ≠ [] → record.reply.txn.isQueued = false ∧
    ∀ place, Open (record :: earlier) record.reply.world place →
      ∃ kind, record.reply.txn.job = .running kind

namespace Run

structure Owning (t : Txn) (run : Run) : Prop where
  typing : run.Typing t
  owns : Owns (jobsOf run.log) run.log run.txn run.world
  first : FirstJob (jobsOf run.log) run.log run.txn
  released : releasesOf run.log = run.txn.phase.released
  orderly : Everywhere (fun earlier record => record.Orderly t earlier) run.log

theorem owns_last {run : Run} {input : Input} {last : Txn} {lastWorld : World} {lost : Bool}
    (good : run.Good t) (owns : Owns (jobsOf run.log) run.log run.txn run.world)
    (alive : run.txn.phase.isDone = false)
    (reached : Reached input run.txn run.world last lastWorld lost (run.record input).reply) :
    Owns (jobsOf run.log) (run.record input :: run.log) last lastWorld := by
  apply reached.keeps (Owns (jobsOf run.log) (run.record input :: run.log))
    (fun _ holds shift => holds.shift shift) good.steady good.busy
  exact (owns.tracked alive).congr rfl rfl rfl

theorem Owning.ignore {run : Run} (owning : run.Owning t) {input : Input}
    (isDone : run.txn.phase.isDone)
    (unmoved : (run.record input).reply = ⟨[], run.txn, run.world⟩) :
    (run.feed input).Owning t := by
  have late : ∀ stage, run.txn.phase ≠ .typing stage ∧ run.txn.phase ≠ .lineJob stage := by
    intro stage
    constructor <;> (intro phase; simp [phase, Phase.isDone] at isDone)
  have quiet : (run.record input).jobs = [] := by simp [Record.jobs, unmoved]
  refine ⟨owning.typing.feed input, ?_, ?_, ?_, everywhere_cons.mpr
    ⟨⟨?_, ?_, ?_, ?_⟩, owning.orderly⟩⟩
  · simp only [Run.feed, jobsOf_cons, quiet, unmoved, List.append_nil]
    exact ⟨owning.owns.count, owning.owns.placed, owning.owns.kind,
      fun place opened => owning.owns.opened place opened.older⟩
  · simp only [Run.feed, unmoved]
    exact ⟨fun phase => absurd phase (late 0).1, fun phase => absurd phase (late 0).2,
      fun phase => phase.elim (fun phase => absurd phase (late 0).1)
        (fun phase => absurd phase (late 0).2)⟩
  · simp only [Run.feed, releasesOf, Record.releases, unmoved, List.filterMap_nil, List.append_nil]
    exact owning.released
  · simp [quiet]
  · simp [quiet]
  · simp [unmoved]
  · intro _
    rw [unmoved]
    exact isDone

theorem Owning.feed {run : Run} (owning : run.Owning t) (input : Input) :
    (run.feed input).Owning t := by
  have good := owning.typing.good
  rcases feed_cases good input with ⟨isDone, unmoved⟩ | ⟨alive, last, lastWorld, lost, reached⟩
  · exact owning.ignore isDone unmoved
  · have steady := (reached.held.forgotten lost).steady
    have forgotten : Owns (jobsOf run.log) (run.record input :: run.log)
        { last with admissionLost := lost } lastWorld :=
      (owns_last good owning.owns alive reached).congr rfl rfl rfl
    have owns : Owns (jobsOf (run.feed input).log) (run.feed input).log (run.feed input).txn
      (run.feed input).world := forgotten.leaf reached.leaf steady
    have unreleased : releasesOf run.log = [] := by
      rw [owning.released, Phase.released_of_alive alive]
    refine ⟨owning.typing.feed input, owns, ?_, ?_,
      everywhere_cons.mpr ⟨⟨?_, ?_, ?_, ?_⟩, owning.orderly⟩⟩
    · exact owning.first.leaf good.steady (reached.began alive) reached.held reached.leaf
    · simp only [Run.feed, releasesOf, unreleased]
      exact reached.leaf.released (reached.began alive).alive
    · exact reached.leaf.enqueuesOne
    · intro enqueues place older opened
      have newest : place + 1 = (run.feed input).world.claims.length := (owns.opened place opened).2
      have count : (run.feed input).world.claims.length =
          (jobsOf run.log ++ (run.record input).jobs).length := owns.count
      have positive := List.length_pos_of_ne_nil enqueues
      rw [List.length_append] at count
      omega
    · intro released
      exact absurd unreleased released
    · rw [← good.same.deadline]
      exact run.txn.on_isDone run.world

theorem Owning.turn {run : Run} (owning : run.Owning t) (round : Round) :
    (run.turn round).Owning t := by
  cases round with
  | feed input => exact owning.feed input
  | move op =>
    exact ⟨owning.typing.turn _, owning.owns.congr rfl rfl rfl, owning.first, owning.released,
      owning.orderly⟩
  | answer claim refuses =>
    exact ⟨owning.typing.turn _, owning.owns.answered claim refuses, owning.first,
      owning.released, owning.orderly⟩

end Run

theorem Unwritten.enqueue {job : Job} {phase : Phase} {now : Instant}
    (unwritten : Unwritten enqueued log t world) (idle : t.job = .idle)
    (count : world.claims.length = enqueued.length) :
    Unwritten (enqueued ++ [job]) log (t.enqueue world job.kind job phase now).txn
      (t.enqueue world job.kind job phase now).world := by
  refine ⟨unwritten.ended, ?_⟩
  intro place text found
  by_cases older : place < enqueued.length
  · rw [List.getElem?_append_left older] at found
    have inside : place < world.claims.length := by omega
    have same : (t.enqueue world job.kind job phase now).world.claims[place]? =
        world.claims[place]? := by
      simp [Txn.enqueue, List.getElem?_append_left inside]
    rw [same]
    refine .inr ((unwritten.claims place text found).resolve_left ?_)
    simp [Txn.isQueued, idle]
  · have inside := (List.getElem?_eq_some_iff.mp found).1
    simp only [List.length_append, List.length_singleton] at inside
    exact .inl ⟨rfl, by simp only [List.length_append, List.length_singleton]; omega⟩

theorem Unwritten.leaf (unwritten : t.wrote = false → Unwritten enqueued log t world)
    (owns : Owns enqueued log t world) (leaf : Leaf input powers t world reply) (steady : t.Steady)
    (stays : reply.txn.wrote = false) :
    Unwritten (enqueued ++ reply.actions.filterMap Action.job?) log reply.txn reply.world := by
  cases leaf with
  | rest actions quiet =>
    rw [filterMap_job_quiet quiet, List.append_nil]
    exact unwritten stays
  | lose | suspended | paused | settled | expired | submitted | withdrawn | notTyped | retired =>
    change Unwritten (enqueued ++ []) log _ _
    rw [List.append_nil]
    exact (unwritten stays).congr rfl rfl
  | line stage phase | cr read phase | deletes read count cause phase =>
    exact (unwritten stays).enqueue (steady.jobless (by rw [phase]; rfl)) owns.count

namespace Run

/-- What a run keeps while no step abandons a job and no refusal is misreported. -/
structure Telling (run : Run) : Prop where
  unwritten : run.txn.wrote = false → Unwritten (jobsOf run.log) run.log run.txn run.world
  letGo : run.txn.phase.isDone = true → run.txn.isQueued = false
  nothing : ∀ why, run.txn.phase = .done (.nothingWritten why) → run.txn.wrote = false
  letsGo : Everywhere (fun earlier record => record.LetsGo earlier) run.log

variable {run : Run}

theorem Telling.last {input : Input} {last : Txn} {lastWorld : World} {lost : Bool}
    (telling : run.Telling) (owning : run.Owning t) (alive : run.txn.phase.isDone = false)
    (reported : ¬(run.record input).Misreports)
    (reached : Reached input run.txn run.world last lastWorld lost (run.record input).reply) :
    Tells (jobsOf run.log) run.log (run.record input) last lastWorld := by
  have good := owning.typing.good
  apply reached.keeps (Tells (jobsOf run.log) run.log (run.record input))
    (fun _ holds shift => holds.shift owning.first owning.owns.count good.steady good.busy shift)
    good.steady good.busy
  refine ⟨(owning.owns.tracked alive).congr rfl rfl rfl, ?_, began_tracked alive⟩
  intro stays
  exact (Unwritten.tracked telling.unwritten owning.owns reported stays).congr rfl rfl

theorem Telling.ignore {input : Input} (telling : run.Telling) (good : run.Good t)
    (isDone : run.txn.phase.isDone)
    (unmoved : (run.record input).reply = ⟨[], run.txn, run.world⟩) : (run.feed input).Telling := by
  have quiet : (run.record input).jobs = [] := by simp [Record.jobs, unmoved]
  refine ⟨?_, ?_, ?_, everywhere_cons.mpr ⟨?_, telling.letsGo⟩⟩
  · simp only [Run.feed, jobsOf_cons, quiet, unmoved, List.append_nil]
    intro stays
    refine (telling.unwritten stays).older ?_
    rintro accepted ok ⟨_, queued | running⟩
    · have unqueued := telling.letGo isDone
      simp [Txn.isQueued, show run.txn.job = _ from queued] at unqueued
    · rw [good.steady.running running] at stays
      cases stays
  · simp only [Run.feed, unmoved]
    exact telling.letGo
  · simp only [Run.feed, unmoved]
    exact telling.nothing
  · intro released
    simp [Record.releases, unmoved] at released

theorem Telling.feed {input : Input} (telling : run.Telling) (owning : run.Owning t)
    (kept : ¬(run.record input).Abandons) (reported : ¬(run.record input).Misreports) :
    (run.feed input).Telling := by
  have good := owning.typing.good
  have after := owning.feed input
  rcases feed_cases good input with ⟨isDone, unmoved⟩ | ⟨alive, last, lastWorld, lost, reached⟩
  · exact telling.ignore good isDone unmoved
  · have tells := telling.last owning alive reported reached
    have began := reached.began alive
    have steady := (reached.held.forgotten lost).steady
    have letGo : (run.feed input).txn.phase.isDone = true →
        (run.feed input).txn.isQueued = false := by
      intro isDone
      by_contra queued
      exact kept (reached.leaf.letsGo steady began.alive isDone (Bool.not_eq_false _ ▸ queued))
    have owns : Owns (jobsOf run.log) (run.record input :: run.log)
        { last with admissionLost := lost } lastWorld := tells.owns.congr rfl rfl rfl
    refine ⟨?_, letGo, ?_, everywhere_cons.mpr ⟨?_, telling.letsGo⟩⟩
    · intro stays
      have forgotten : last.wrote = false → Unwritten (jobsOf run.log) (run.record input :: run.log)
          { last with admissionLost := lost } lastWorld := fun unwritten =>
        (tells.unwritten unwritten).congr rfl rfl
      exact Unwritten.leaf forgotten owns reached.leaf steady stays
    · intro why phase
      exact reached.leaf.unwritten began.alive phase
    · intro released
      have isDone : (run.feed input).txn.phase.isDone := by
        by_contra notDone
        apply released
        have absent := Phase.released_of_alive (Bool.eq_false_iff.mpr notDone)
        exact (reached.leaf.released began.alive).trans absent
      refine ⟨letGo isDone, ?_⟩
      intro place opened
      have owned : (run.feed input).txn.job ≠ .idle := (after.owns.opened place opened).1
      have unqueued := letGo isDone
      cases job : (run.feed input).txn.job with
      | idle => exact absurd job owned
      | queued kind => simp [Txn.isQueued, job] at unqueued
      | running kind => exact ⟨kind, job⟩

theorem Telling.answered (telling : run.Telling) (claim : ℕ) (refuses : Bool) :
    (run.turn (.answer claim refuses)).Telling := by
  refine ⟨?_, telling.letGo, telling.nothing, telling.letsGo⟩
  intro stays
  refine ⟨(telling.unwritten stays).ended, ?_⟩
  intro place text found
  have closed : ∀ state, run.world.claims[place]? = some state →
      state = .withdrawn ∨ state = .refused →
      (run.turn (.answer claim refuses)).world.claims[place]? = some state := by
    rintro state same (rfl | rfl) <;>
      · simp only [turn, List.getElem?_modify, same]
        split <;> rfl
  rcases (telling.unwritten stays).claims place text found with queued | withdrawn | refused | empty
  · exact .inl queued
  · exact .inr (.inl (closed _ withdrawn (.inl rfl)))
  · exact .inr (.inr (.inl (closed _ refused (.inr rfl))))
  · exact .inr (.inr (.inr empty))

structure Faithful (t : Txn) (run : Run) : Prop where
  single : ∀ place other, Open run.log run.world place →
    Open run.log run.world other → place = other
  orderly : Everywhere (fun earlier record => record.Orderly t earlier) run.log
  lines : (linesOf run.log).flatten <+: t.line
  once : (releasesOf run.log).length = if run.txn.phase.isDone then 1 else 0
  letsGo : Everywhere (fun earlier record => record.LetsGo earlier) run.log
  truthful : ∀ why, .nothingWritten why ∈ releasesOf run.log →
    (∀ record ∈ run.log, ∀ accepted ok, record.Ends .line accepted ok → accepted = 0) ∧
      ∀ place text, (jobsOf run.log)[place]? = some (.line text) →
        run.world.claims[place]? = some .started → ∃ record ∈ run.log, record.EndsEmpty place

theorem Owning.faithful (owning : run.Owning t) (telling : run.Telling) : run.Faithful t := by
  refine ⟨?_, owning.orderly, ?_, ?_, telling.letsGo, ?_⟩
  · intro place other opened otherOpened
    have first := (owning.owns.opened place opened).2
    have second := (owning.owns.opened other otherOpened).2
    omega
  · rcases owning.typing.typed.begun with ⟨count, same⟩
    have whole : run.txn.stages.flatten = t.line :=
      run.txn.stages_flatten.trans owning.typing.good.same.line
    rw [same, ← whole]
    exact ⟨(run.txn.stages.drop count).flatten,
      by rw [← List.flatten_append, List.take_append_drop]⟩
  · rw [owning.released]
    cases run.txn.phase <;> rfl
  · intro why present
    rw [owning.released] at present
    have phase : run.txn.phase = .done (.nothingWritten why) := by
      revert present
      cases run.txn.phase with
      | done outcome =>
        intro present
        simp only [Phase.released, List.mem_singleton] at present
        rw [present]
      | _ =>
        intro present
        simp [Phase.released] at present
    have unqueued := telling.letGo (by rw [phase]; rfl)
    have unwritten := telling.unwritten (telling.nothing why phase)
    refine ⟨unwritten.ended, ?_⟩
    intro place text found started
    rcases unwritten.claims place text found with ⟨queued, _⟩ | withdrawn | refused | empty
    · rw [unqueued] at queued
      cases queued
    · rw [started] at withdrawn
      cases withdrawn
    · rw [started] at refused
      cases refused
    · exact empty

/-- The records of a run in which no step abandons a job and no refusal is misreported. -/
def Plain (run : Run) : Prop := ∀ record ∈ run.log, ¬record.Abandons ∧ ¬record.Misreports

instance (run : Run) : Decidable run.Plain :=
  inferInstanceAs (Decidable (∀ record ∈ run.log, ¬record.Abandons ∧ ¬record.Misreports))

theorem telling_turn (owning : run.Owning t) (telling : run.Plain → run.Telling) (round : Round) :
    (run.turn round).Plain → (run.turn round).Telling := by
  intro plain
  cases round with
  | feed input =>
    have newest := plain (run.record input) List.mem_cons_self
    have older := telling fun record present => plain record (List.mem_cons_of_mem _ present)
    exact older.feed owning newest.1 newest.2
  | move op =>
    have kept := telling plain
    exact ⟨fun stays => (kept.unwritten stays).congr rfl rfl, kept.letGo, kept.nothing,
      kept.letsGo⟩
  | answer claim refuses => exact (telling plain).answered claim refuses

end Run

theorem Txn.Fresh.owning (fresh : t.Fresh) (cell : Latch) : (Run.admitted t cell).Owning t where
  typing := fresh.typing cell
  owns := by
    refine ⟨rfl, ?_, ?_, ?_⟩
    · simp [Run.admitted, Txn.isQueued, fresh.job]
    · simp [Run.admitted, fresh.job]
    · rintro place ⟨claim, _⟩
      simp [Run.admitted] at claim
  first := by
    refine ⟨fun _ => rfl, ?_, ?_⟩
    · simp [Run.admitted, fresh.phase]
    · rintro _ record present
      cases present
  released := by simp [Run.admitted, releasesOf, fresh.phase, Phase.released]
  orderly := everywhere_nil _

theorem Txn.Fresh.telling (fresh : t.Fresh) (cell : Latch) : (Run.admitted t cell).Telling where
  unwritten := by
    intro _
    refine ⟨?_, ?_⟩
    · rintro record present
      cases present
    · rintro place text found
      cases found
  letGo := by simp [Run.admitted, fresh.phase, Phase.isDone]
  nothing := by simp [Run.admitted, fresh.phase]
  letsGo := everywhere_nil _

/-- A run that abandons no queued job and misreports no refusal keeps its jobs and its word. -/
theorem plain_faithful {admission : Admission} {generation after : Generation} {draw : ℕ → UInt8}
    {id : MessageId} {caps : Caps} {now : Instant}
    (admits : admitTxn admission generation draw id caps now = (.ok t, after)) (rounds : List Round)
    (plain : ((Run.admitted t after.cell).after rounds).Plain) :
    ((Run.admitted t after.cell).after rounds).Faithful t := by
  have fresh := (admit_fresh admits).1
  have kept := Run.after_keeps (fun run => run.Owning t ∧ (run.Plain → run.Telling))
    ⟨fresh.owning after.cell, fun _ => fresh.telling after.cell⟩
    (fun _ round holds => ⟨holds.1.turn round, Run.telling_turn holds.1 holds.2 round⟩) rounds
  exact kept.1.faithful (kept.2 plain)

/-- A cancelled line that was taken back before its start. -/
def takenBackRounds : List Round :=
  [.feed ⟨.tick, [some bareFrame.read], 0⟩, .feed ⟨.admissionLost, [], 1⟩, .answer 0 false,
    .feed ⟨.jobStarted, [], 2⟩]

theorem plain_faithful_takenBackRounds :
    releasesOf ((Run.admitted (bareTxn fullCaps) (.opened 1)).after takenBackRounds).log =
        [.nothingWritten .notAdmitted] ∧
      ((Run.admitted (bareTxn fullCaps) (.opened 1)).after takenBackRounds).Faithful
        (bareTxn fullCaps) :=
  ⟨by decide +kernel, plain_faithful (bare_admits fullCaps) takenBackRounds (by decide +kernel)⟩

/-- A job that stalls before its start was reported, an attempt its user clears, and the release. -/
def stalledRounds : List Round :=
  [.feed ⟨.tick, [some bareFrame.read], 0⟩, .feed ⟨.jobStalled, [], 1⟩, .move .userCleared,
    .feed ⟨.tick, [], 2⟩]

theorem stalled_job_left_queued :
    ¬((Run.admitted (bareTxn fullCaps) (.opened 1)).after stalledRounds).Faithful
      (bareTxn fullCaps) := by
  intro faithful
  have unqueued := (faithful.letsGo [] _ _ rfl (by decide +kernel)).1
  revert unqueued
  decide +kernel

end AgentDeck.Doorbell
