import AgentDeck.Retained.Bounds

/-!
# How long a saved report is kept

While nothing is being written, a sweep removes an own file only after a claim that found it due, a
file marked for removal stays so, and a pinned file is left alone. A body held in memory follows
the same rules as a file, so it can become one at any time without its lifetime changing.
-/

namespace AgentDeck.Retained

/-! ## When a lifetime has ended -/

def OwnFile.Ended (file : OwnFile) (now : Now) : Prop :=
  file.state = .orphanUnlink ∨
    (∃ time since, file.state = .acknowledged time ∧ file.since = some since ∧
      since + ackRetention ≤ now.mono) ∨
    ∃ time since, file.state = .recovered time ∧ file.since = some since ∧
      since + recoveryRetention ≤ now.mono

variable {file : OwnFile} {now : Now}

theorem OwnFile.ended_of_due (due : file.due now) : file.Ended now := by
  rcases file with ⟨createdAt, bytes, state, since⟩
  cases state with
  | pinned => cases due
  | orphanUnlink => exact Or.inl rfl
  | acknowledged time =>
    cases since with
    | none => cases due
    | some since => exact Or.inr (Or.inl ⟨time, since, rfl, rfl, of_decide_eq_true due⟩)
  | recovered time =>
    cases since with
    | none => cases due
    | some since => exact Or.inr (Or.inr ⟨time, since, rfl, rfl, of_decide_eq_true due⟩)

/-! ## Calls that write nothing -/

def Event.writes : Event → Bool
  | .write _ _ _ _ _ | .dispatchResult _ _ _ _ _ | .retryHeld _ _ _ _ _ => true
  | _ => false

variable {m : Machine} {call : Call}

theorem Start.job? {event : Event} (starts : Start m event call) (quiet : event.writes = false) :
    call.job? = none := by
  cases starts with
  | write found => cases quiet
  | dispatch found => cases quiet
  | retry found => cases quiet
  | _ => rfl

variable {sh after : Shared}

theorem callStep_eases {next : Next}
    (step : CallStep sh call after next) (quiet : call.job? = none) : Eases ∅ sh.st after.st := by
  cases step with
  | discardSettled => exact .settleDiscard ∅ _ _ _
  | sweep swept => exact .sweep ∅ swept
  | upToDate => exact .refl ∅ _
  | writing | renamed | notRenamed | inventoried | notInventoried | discarded =>
    exact .of_same rfl rfl rfl rfl
  | nothingToDiscard gone => exact .refl ∅ _
  | notDiscarded => exact .refl ∅ _
  | _ => cases quiet

variable {name : Name}

theorem get?_erase_of_none {dir : Dir} (gone : dir.get? name = none) (other : Name) :
    (dir.erase other).get? name = none := by
  rw [SortedMap.get?_erase]
  split
  · rfl
  · exact gone

theorem callStep_gone {next : Next} (step : CallStep sh call after next) (quiet : call.job? = none)
    (gone : sh.dir.get? name = none) : after.dir.get? name = none := by
  cases step with
  | discarded => exact get?_erase_of_none gone _
  | sweep swept =>
    cases swept with
    | ownRemoved => exact get?_erase_of_none gone _
    | strayRemoved taken => exact get?_erase_of_none gone _
    | adoptedRemoved found => exact get?_erase_of_none gone _
    | _ => exact gone
  | discardSettled | upToDate | writing | renamed | notRenamed | inventoried | notInventoried
  | nothingToDiscard absent | notDiscarded => exact gone
  | _ => cases quiet

/-! ## Claims -/

/-- Among the events there is the claim of `name` by this sweep, and it found the file ended. -/
def Claimed (m : Machine) (events : List Event) (now : Now) (start : ℕ) (name : Name)
    (rest : List (Name × OwnFile)) : Prop :=
  ∃ past later which outcome pick before file,
    events = past ++ Event.advance which outcome pick :: later ∧ m.steps past = some before ∧
      before.calls[which]? = some (.sweep now start (.claim name rest)) ∧
      before.shared.st.own.get? name = some file ∧ file.Ended now

variable {events : List Event} {start : ℕ}

theorem Claimed.later {rest : List (Name × OwnFile)}
    (claimed : Claimed m events now start name rest) (event : Event) :
    Claimed m (events ++ [event]) now start name rest := by
  rcases claimed with ⟨past, later, which, outcome, pick, before, file, split, found⟩
  refine ⟨past, later ++ [event], which, outcome, pick, before, file, ?_, found⟩
  rw [split, List.append_assoc, List.cons_append]

/-- Where a sweep stands, seen from the events before. -/
def Call.Follows (m : Machine) (events : List Event) (sh : Shared) : Call → Prop
  | .sweep now start (.unlinkOwn name rest) =>
    Claimed m events now start name rest ∧
      ∀ file, sh.st.own.get? name = some file → file.state = .orphanUnlink
  | .sweep _ _ (.dropOwn name _) => sh.dir.get? name = none
  | _ => True

/-- A run without writes, seen from its start. -/
structure Followed (m : Machine) (events : List Event) (before : Machine) : Prop where
  named : Named before
  unwritten : ∀ call ∈ before.calls, call.job? = none
  follows : ∀ call ∈ before.calls, call.Follows m events before.shared

theorem Call.Follows.later {walls : Set ℤ} (follows : call.Follows m events sh) (event : Event)
    (eases : Eases walls sh.st after.st) (named : call.Named)
    (gone : ∀ name, IsOwn name → sh.dir.get? name = none → after.dir.get? name = none) :
    call.Follows m (events ++ [event]) after := by
  cases call with
  | sweep now start point =>
    cases point with
    | unlinkOwn name rest =>
      refine ⟨follows.1.later event, ?_⟩
      intro file found
      rcases eases.own name file found with ⟨old, before, eased⟩
      exact eased.orphaned (follows.2 old before)
    | dropOwn name rest => exact gone name named.1 follows
    | _ => trivial
  | _ => trivial

variable {st : StoreState}

theorem claim_orphaned (found : st.own.get? name = some file) (due : file.due now) :
    ∀ new, (st.claim name now).2.own.get? name = some new → new.state = .orphanUnlink := by
  intro new got
  simp only [StoreState.claim, found, due, ↓reduceIte, SortedMap.get?_insert] at got
  cases got
  rfl

variable {before : Machine} {past : List Event} {point : SweepPoint} {later : Option SweepPoint}

theorem sweepStep_follows {which : ℕ} {outcome : Outcome} {pick : ℕ}
    (passed : m.steps past = some before)
    (place : before.calls[which]? = some (.sweep now start point))
    (step : SweepStep now start before.shared point after later) :
    ∀ next ∈ later,
      (Call.sweep now start next).Follows m (past ++ [Event.advance which outcome pick]) after := by
  cases step with
  | claimed found due =>
    rintro next ⟨⟩
    exact ⟨⟨past, [], which, outcome, pick, before, _, rfl, passed, place, found,
      OwnFile.ended_of_due due⟩, claim_orphaned found due⟩
  | missing taken gone =>
    rintro next ⟨⟩
    exact gone
  | ownGone gone =>
    rintro next ⟨⟩
    exact gone
  | ownRemoved =>
    rintro next ⟨⟩
    exact (SortedMap.get?_erase ..).trans (if_pos rfl)
  | recounted => rintro next ⟨⟩
  | _ =>
    rintro next ⟨⟩
    trivial

theorem follows_of_not_sweep (other : call.isSweep = false) : call.Follows m events sh := by
  cases call with
  | sweep now start point => cases other
  | _ => trivial

theorem Followed.step {after : Machine} {event : Event} (quiet : event.writes = false)
    (passed : m.steps past = some before) (stepped : before.step event = some after)
    (followed : Followed m past before) : Followed m (past ++ [event]) after := by
  have named := followed.named.step stepped
  by_cases advances : ∃ which outcome pick, event = .advance which outcome pick
  · rcases advances with ⟨which, outcome, pick, rfl⟩
    rcases advance_cases stepped with
      ⟨first, call, rest, shared, next, calls, found, -, step, rfl⟩
    have mem : call ∈ before.calls := calls ▸ List.mem_append_right _ List.mem_cons_self
    have unwritten := followed.unwritten call mem
    have eases := callStep_eases step unwritten
    have others : ∀ other, other ∈ first ∨ other ∈ rest → other ∈ before.calls :=
      fun _ => mem_of_around calls
    have kept : ∀ other ∈ before.calls,
        other.Follows m (past ++ [Event.advance which outcome pick]) shared := by
      intro other inside
      exact (followed.follows other inside).later _ eases (followed.named.calls other inside)
        fun name _ gone => callStep_gone step unwritten gone
    refine ⟨named, ?_, ?_⟩
    · intro other inside
      simp only [List.mem_append] at inside
      rcases inside with inside | inside | inside
      · exact followed.unwritten other (others other (Or.inl inside))
      · rw [Option.eq_none_iff_forall_not_mem]
        intro job found
        have same := callStep_job? step other inside job found
        rw [unwritten] at same
        cases same
      · exact followed.unwritten other (others other (Or.inr inside))
    · intro other inside
      simp only [List.mem_append] at inside
      rcases inside with inside | inside | inside
      · exact kept other (others other (Or.inl inside))
      · cases sweeps : call.isSweep with
        | false => exact follows_of_not_sweep (isSweep_next step sweeps other inside)
        | true =>
          cases step with
          | sweep swept =>
            rename_i later
            cases later with
            | none => cases inside
            | some point =>
              rw [List.mem_singleton.mp inside]
              exact sweepStep_follows passed found swept point rfl
          | _ => cases sweeps
      · exact kept other (others other (Or.inr inside))
  · have started := begins_of stepped fun which outcome pick same =>
      advances ⟨which, outcome, pick, same⟩
    rcases started.calls with ⟨new, calls, -, starts⟩
    have gone : ∀ name, IsOwn name → before.shared.dir.get? name = none →
        after.shared.dir.get? name = none := by
      intro name own absent
      rcases started.files with ⟨same, -⟩ | ⟨adopted, contents, -, adopts⟩
      · rw [same]
        exact absent
      · rw [adopts.dir, SortedMap.get?_insert, if_neg]
        · exact absent
        · rintro rfl
          exact adopts.adopted own.parseAdoptedName
    refine ⟨named, ?_, ?_⟩
    · intro call mem
      rw [calls] at mem
      rcases List.mem_append.mp mem with mem | mem
      · exact (starts call mem).job? quiet
      · exact followed.unwritten call mem
    · intro call mem
      rw [calls] at mem
      rcases List.mem_append.mp mem with mem | mem
      · cases starts call mem with
        | _ => trivial
      · exact (followed.follows call mem).later event started.eases
          (followed.named.calls call mem) gone

theorem followed_start {run : Text} {config : StoreConfig} {prelude : List Event}
    (opened : (Machine.new run config).steps prelude = some m) (idle : m.calls = []) :
    Followed m [] m := by
  have named : Named m := Machine.steps_trace (fun _ m => Named m) (named_new run config)
    (fun _ _ _ _ _ _ _ stepped named => named.step stepped) opened
  refine ⟨named, ?_, ?_⟩
  · intro call mem
    rw [idle] at mem
    cases mem
  · intro call mem
    rw [idle] at mem
    cases mem

/-! ## What a sweep removes -/

theorem sweepStep_removes (step : SweepStep now start sh point after later)
    (named : point.Named now) (own : IsOwn name) {bytes : Bytes}
    (found : sh.dir.get? name = some bytes) (gone : after.dir.get? name = none) :
    ∃ rest, point = .unlinkOwn name rest := by
  have erased : ∀ other, (sh.dir.erase other).get? name = none → name = other := by
    intro other absent
    rw [SortedMap.get?_erase] at absent
    split at absent
    · assumption
    · rw [found] at absent
      cases absent
  cases step with
  | ownRemoved =>
    rename_i removed rest
    have same := erased _ gone
    exact ⟨rest, by rw [same]⟩
  | strayRemoved taken =>
    rename_i temp list rest
    have same := erased _ gone
    exact absurd same (own.ne_temp (named temp taken.mem))
  | adoptedRemoved there =>
    have same := erased _ gone
    rcases named with ⟨id, deadline, state, parsed, -⟩
    rw [← same, own.parseAdoptedName] at parsed
    cases parsed
  | _ =>
    rw [found] at gone
    cases gone

theorem sweepStep_pinned (step : SweepStep now start sh point after later) (named : point.Named now)
    (filed : Filed sh.st) (follows : (Call.sweep now start point).Follows m events sh)
    (found : sh.st.own.get? name = some file) (pinned : file.state = .pinned)
    (there : sh.dir.get? name ≠ none) :
    after.st.own.get? name = some file ∧ after.dir.get? name ≠ none := by
  have own := filed.own name file found
  refine ⟨?_, ?_⟩
  · cases step with
    | claimed other due =>
      rename_i claimed rest nominee
      by_cases same : name = claimed
      · subst same
        rw [found] at other
        cases other
        rcases OwnFile.ended_of_due due with orphan | ⟨_, _, state, _⟩ | ⟨_, _, state, _⟩
        · rw [pinned] at orphan
          cases orphan
        · rw [pinned] at state
          cases state
        · rw [pinned] at state
          cases state
      · simp only [StoreState.claim, other, due, ↓reduceIte, SortedMap.get?_insert, same, found]
    | ownDropped =>
      rename_i dropped rest
      have other : name ≠ dropped := by
        rintro rfl
        exact there follows
      simp only [StoreState.dropOwn]
      split
      · rw [SortedMap.get?_erase, if_neg other]
        exact found
      · exact found
    | recounted =>
      simp only [StoreState.publishRecount]
      split <;> exact found
    | _ => exact found
  · intro gone
    rcases Option.ne_none_iff_exists'.mp there with ⟨bytes, present⟩
    rcases sweepStep_removes step named own present gone with ⟨rest, rfl⟩
    have orphan := follows.2 file found
    rw [pinned] at orphan
    cases orphan

/-! ## A held body's lifetime -/

inductive Mark
  | acknowledge (now : Now)
  | recover (now : Now)

def Lifetime.mark (life : Lifetime) : Mark → Lifetime
  | .acknowledge now => life.acknowledge now
  | .recover now => life.recover now

def StoreState.mark (id : Text) (st : StoreState) : Mark → StoreState
  | .acknowledge now => st.acknowledged id now
  | .recover now => st.recovered id now

/-- The state a lifetime gives a file, and since when. -/
def Lifetime.filed : Lifetime → OwnState × Option Instant
  | .referenced => (.pinned, none)
  | .acknowledged since => (.acknowledged since.wall, some since.mono)
  | .recovered since => (.recovered since.wall, some since.mono)

def OwnFile.live (file : OwnFile) (life : Lifetime) : OwnFile :=
  { file with state := life.filed.1, since := life.filed.2 }

theorem OwnFile.due_live (file : OwnFile) (life : Lifetime) (now : Now) :
    (file.live life).due now = true ↔ ∃ ends, life.ends = some ends ∧ ends ≤ now.mono := by
  cases life with
  | referenced | acknowledged since | recovered since =>
    simp [OwnFile.live, Lifetime.filed, OwnFile.due, Lifetime.ends]

theorem insert_insert {κ : Type*} {ν : Type*} [LinearOrder κ] (map : SortedMap κ ν) (key : κ)
    (first second : ν) : (map.insert key first).insert key second = map.insert key second := by
  apply SortedMap.ext_get?
  intro other
  rw [SortedMap.get?_insert, SortedMap.get?_insert, SortedMap.get?_insert]
  split <;> rfl

theorem insert_self {κ : Type*} {ν : Type*} [LinearOrder κ] {map : SortedMap κ ν} {key : κ}
    {value : ν} (found : map.get? key = some value) : map.insert key value = map := by
  apply SortedMap.ext_get?
  intro other
  rw [SortedMap.get?_insert]
  split
  · rename_i same
    rw [same, found]
  · rfl

theorem mark_own {id : Text} {life : Lifetime}
    (found : st.own.get? (ownName id) = some (file.live life)) (mark : Mark) :
    (st.mark id mark).own = st.own.insert (ownName id) (file.live (life.mark mark)) := by
  cases mark with
  | acknowledge now =>
    cases life with
    | referenced | acknowledged since | recovered since =>
      simp only [StoreState.mark, StoreState.acknowledged, StoreState.transition, found]
      rfl
  | recover now =>
    cases life with
    | referenced =>
      simp only [StoreState.mark, StoreState.recovered, StoreState.transition, found]
      rfl
    | acknowledged since | recovered since =>
      simp only [StoreState.mark, StoreState.recovered, StoreState.transition, found]
      exact (insert_self found).symm

theorem marks_own {id : Text} (marks : List Mark) {life : Lifetime}
    (found : st.own.get? (ownName id) = some (file.live life)) :
    (marks.foldl (StoreState.mark id) st).own =
      st.own.insert (ownName id) (file.live (marks.foldl Lifetime.mark life)) := by
  induction marks generalizing st life with
  | nil => exact (insert_self found).symm
  | cons mark marks ih =>
    have moved := mark_own found mark
    have next : (st.mark id mark).own.get? (ownName id) = some (file.live (life.mark mark)) := by
      rw [moved, SortedMap.get?_insert, if_pos rfl]
    rw [List.foldl_cons, List.foldl_cons, ih next, moved, insert_insert]

theorem continueLifetime_own {id : Text} (found : st.own.get? (ownName id) = some file)
    (pinned : file.state = .pinned) (unset : file.since = none) (life : Lifetime) :
    (st.continueLifetime id life).own = st.own.insert (ownName id) (file.live life) := by
  rcases file with ⟨createdAt, bytes, state, since⟩
  cases pinned
  cases unset
  cases life with
  | referenced => exact (insert_self found).symm
  | acknowledged since | recovered since =>
    simp [StoreState.continueLifetime, found, OwnFile.live, Lifetime.filed]

/-! ## Whole runs -/

structure KeepsReports (m : Machine) (past : List Event) (event : Event)
    (before after : Machine) : Prop where
  /-- A sweep unlinks only what it claimed, and what it claimed had ended. -/
  claimed : ∀ which outcome pick now start point id bytes,
    event = .advance which outcome pick →
    before.calls[which]? = some (.sweep now start point) →
    before.shared.dir.get? (ownName (ReportId.text id)) = some bytes →
    after.shared.dir.get? (ownName (ReportId.text id)) = none →
      ∃ rest, point = .unlinkOwn (ownName id.text) rest ∧
        Claimed m past now start (ownName id.text) rest
  /-- A sweep leaves a pinned file that is there. -/
  pinned : ∀ which outcome pick now start point name file,
    event = .advance which outcome pick →
    before.calls[which]? = some (.sweep now start point) →
    before.shared.st.own.get? name = some file → file.state = .pinned →
    before.shared.dir.get? name ≠ none →
      after.shared.st.own.get? name = some file ∧ after.shared.dir.get? name ≠ none
  /-- A file being removed stays so. -/
  orphaned : ∀ name old new, before.shared.st.own.get? name = some old →
    old.state = .orphanUnlink → after.shared.st.own.get? name = some new →
      new.state = .orphanUnlink
  /-- A recovery changes nothing of a file whose retention has started. -/
  recovered : ∀ id now name file, event = .recovered id now →
    before.shared.st.own.get? name = some file → file.state ≠ .pinned →
      after.shared.st.own.get? name = some file

theorem recovered_keeps (st : StoreState) (id : Text) (now : Now)
    (found : st.own.get? name = some file) (started : file.state ≠ .pinned) :
    (st.recovered id now).own.get? name = some file := by
  simp only [StoreState.recovered, StoreState.transition]
  split
  · rename_i old present
    split
    · rename_i state set
      split at set
      · rename_i pinned
        rw [SortedMap.get?_insert, if_neg]
        · exact found
        · rintro rfl
          rw [found] at present
          cases present
          exact started pinned
      · cases set
    · exact found
  · exact found

theorem Followed.keepsReports {after : Machine} {event : Event} (quiet : event.writes = false)
    (stepped : before.step event = some after) (followed : Followed m past before) :
    KeepsReports m past event before after := by
  -- A step of a sweep, taken apart.
  have sweeps : ∀ which outcome pick now start point, event = .advance which outcome pick →
      before.calls[which]? = some (.sweep now start point) → point.Named now ∧
        (Call.sweep now start point).Follows m past before.shared ∧
          ∃ later, SweepStep now start before.shared point after.shared later := by
    rintro which outcome pick now start point rfl found
    have mem := List.mem_of_getElem? found
    rcases advance_cases stepped with ⟨first, call, rest, shared, next, -, got, -, step, rfl⟩
    rw [found] at got
    cases got
    cases step with
    | sweep swept =>
      exact ⟨followed.named.calls _ mem, followed.follows _ mem, _, swept⟩
  constructor
  · intro which outcome pick now start point id bytes same found there gone
    rcases sweeps which outcome pick now start point same found with
      ⟨named, follows, later, swept⟩
    rcases sweepStep_removes swept named ⟨id, rfl⟩ there gone with ⟨rest, rfl⟩
    exact ⟨rest, rfl, follows.1⟩
  · intro which outcome pick now start point name file same found there pinned present
    rcases sweeps which outcome pick now start point same found with
      ⟨named, follows, later, swept⟩
    exact sweepStep_pinned swept named followed.named.filed follows there pinned present
  · intro name old new found orphan got
    have eases : ∃ walls, Eases walls before.shared.st after.shared.st := by
      by_cases advances : ∃ which outcome pick, event = .advance which outcome pick
      · rcases advances with ⟨which, outcome, pick, rfl⟩
        rcases advance_cases stepped with ⟨first, call, rest, shared, next, -, place, -, step, rfl⟩
        exact ⟨∅, callStep_eases step (followed.unwritten call (List.mem_of_getElem? place))⟩
      · exact ⟨_, (begins_of stepped fun which outcome pick same =>
          advances ⟨which, outcome, pick, same⟩).eases⟩
    rcases eases with ⟨walls, eases⟩
    rcases eases.own name new got with ⟨before, there, eased⟩
    rw [found] at there
    cases there
    exact eased.orphaned orphan
  · rintro id now name file rfl found started
    cases stepped
    exact recovered_keeps _ _ _ found started

/-- In a run without writes, from any state the store can be idle in, every event keeps saved
reports: a sweep removes only files it found ended, pinned files stay, a file being removed stays
so and a recovery renews nothing. A body held in memory takes over, as a file, the lifetime the
file would have had. -/
theorem reports_kept_until_ended (run : Text) (config : StoreConfig) (prelude : List Event)
    (m : Machine) (opened : (Machine.new run config).steps prelude = some m) (idle : m.calls = []) :
    (∀ events : List Event, (∀ event ∈ events, event.writes = false) →
      ∀ past event later before after, events = past ++ event :: later →
        m.steps past = some before → before.step event = some after →
          KeepsReports m past event before after) ∧
      ∀ (marks : List Mark) (st : StoreState) (id : Text) (file : OwnFile),
        st.own.get? (ownName id) = some file → file.state = .pinned → file.since = none →
          (st.continueLifetime id (marks.foldl Lifetime.mark .referenced)).own =
              (marks.foldl (StoreState.mark id) st).own ∧
            ∀ saved, (marks.foldl (StoreState.mark id) st).own.get? (ownName id) = some saved →
              ∀ now, saved.due now = true ↔
                ∃ ends, (marks.foldl Lifetime.mark .referenced).ends = some ends ∧
                  ends ≤ now.mono := by
  constructor
  · intro events quiet past event later before after split passed stepped
    have all : ∀ other ∈ past, other.writes = false := by
      intro other mem
      apply quiet
      rw [split]
      exact List.mem_append_left _ mem
    have followed : Followed m past before := Machine.steps_trace (Followed m)
      (followed_start opened idle)
      (fun earlier now next rest onward split reached taken kept =>
        kept.step (all next (split ▸ List.mem_append_right _ List.mem_cons_self)) reached taken)
      passed
    apply followed.keepsReports _ stepped
    apply quiet
    rw [split]
    exact List.mem_append_right _ List.mem_cons_self
  · intro marks st id file found pinned unset
    have fresh : st.own.get? (ownName id) = some (file.live .referenced) := by
      rcases file with ⟨createdAt, bytes, state, since⟩
      cases pinned
      cases unset
      exact found
    have direct := marks_own marks fresh
    refine ⟨(continueLifetime_own found pinned unset _).trans direct.symm, ?_⟩
    intro saved got now
    rw [direct, SortedMap.get?_insert, if_pos rfl] at got
    cases got
    exact OwnFile.due_live file _ now

def savedOnce : List Event :=
  [Event.reserve 3, .write 0 reportA [1, 2, 3] 7 zeroTag] ++
    goOn 5

/-- Its message is acknowledged, and a sweep a day later claims it. -/
def claimedOnce : List Event :=
  [Event.acknowledged reportA ⟨10, 5⟩, .sweep ⟨10, 5 + ackRetention⟩] ++ goOn 2

/-- A saved report is claimed and removed, and a held body follows its file. -/
theorem reports_kept_until_ended_claimed :
    ∃ m before after, (Machine.new [] ⟨10, 1, 1⟩).steps savedOnce = some m ∧
      m.steps claimedOnce = some before ∧
      before.step (.advance 0 .done 0) = some after ∧
      before.shared.dir.get? (ownName "a".toList) = some [1, 2, 3] ∧
      after.shared.dir.get? (ownName "a".toList) = none ∧
      (∃ rest, Claimed m claimedOnce ⟨10, 5 + ackRetention⟩ 0 (ownName "a".toList) rest) ∧
      (m.shared.st.continueLifetime "a".toList (.acknowledged ⟨12, 9⟩)).own =
        ((m.shared.st.recovered "a".toList ⟨11, 7⟩).acknowledged "a".toList ⟨12, 9⟩).own := by
  have ran : (((Machine.new [] ⟨10, 1, 1⟩).steps savedOnce).any fun m => m.calls.isEmpty &&
      decide (m.shared.st.own.get? (ownName "a".toList) = some ⟨7, 3, .pinned, none⟩) &&
      (m.steps claimedOnce).any fun before => (before.step (.advance 0 .done 0)).any fun after =>
        decide (before.calls[0]? =
          some (.sweep ⟨10, 5 + ackRetention⟩ 0 (.unlinkOwn (ownName "a".toList) []))) &&
        decide (before.shared.dir.get? (ownName "a".toList) = some [1, 2, 3]) &&
        decide (after.shared.dir.get? (ownName "a".toList) = none)) = true := by
    decide +kernel
  simp only [Option.any_eq_true, Bool.and_eq_true, decide_eq_true_eq, List.isEmpty_iff] at ran
  rcases ran with ⟨m, saved, ⟨idle, pinned⟩, before, claimed, after, stepped, ⟨point, there⟩, gone⟩
  rcases reports_kept_until_ended [] ⟨10, 1, 1⟩ savedOnce m saved idle with ⟨runs, held⟩
  have keeps := runs (claimedOnce ++ [Event.advance 0 .done 0]) (by decide) claimedOnce
    (.advance 0 .done 0) [] before after rfl claimed stepped
  rcases keeps.claimed 0 .done 0 _ 0 _ reportA [1, 2, 3] rfl point there gone with
    ⟨rest, -, found⟩
  have body := held [.recover ⟨11, 7⟩, .acknowledge ⟨12, 9⟩] m.shared.st "a".toList _ pinned rfl rfl
  exact ⟨m, before, after, saved, claimed, stepped, there, gone, ⟨rest, found⟩, body.1⟩

end AgentDeck.Retained
