import AgentDeck.Retained.Inventory

/-!
# The store's calls, step by step

Any number of calls of `src/retained_store.rs` run at once. A step of a call is one file operation,
whose outcome the event names, or one section under the store's lock. A call is represented by the
point it has reached, with the values it holds there; the comment beside each point says what it
does next. What a takeover brings in is one event (`Event.adopt`), since it ends before any other
call begins.

A store without its directories refuses every reservation, so it has no calls and is left out, as
are the pass reports, which are only logged.
-/

namespace AgentDeck.Retained

abbrev Bytes := List UInt8

abbrev Dir := SortedMap Name Bytes

/-! ## File operations -/

inductive Outcome
  | done
  | failed
  /-- The filesystem has no no-replace rename. -/
  | unsupported
  /-- Created, but neither made owner-only nor removed. -/
  | leftBehind
  /-- Some of the bytes were written. -/
  | cut (length : ℕ)
  deriving DecidableEq

inductive Removal
  | removed
  | absent
  | kept
  deriving DecidableEq

def unlink (dir : Dir) (name : Name) (outcome : Outcome) : Removal × Dir :=
  match outcome with
  | .done =>
    match dir.get? name with
    | some _ => (.removed, dir.erase name)
    | none => (.absent, dir)
  | _ => (.kept, dir)

inductive Move
  | moved
  | unsupported
  | failed
  deriving DecidableEq

def renameInto (dir : Dir) (source target : Name) (outcome : Outcome) : Move × Dir :=
  match outcome with
  | .done =>
    match dir.get? source, dir.get? target with
    | some bytes, none => (.moved, (dir.erase source).insert target bytes)
    | _, _ => (.failed, dir)
  | .unsupported => (.unsupported, dir)
  | _ => (.failed, dir)

/-- A second name for a file, which never replaces either. -/
def hardLink (dir : Dir) (source target : Name) (outcome : Outcome) : Bool × Dir :=
  match outcome with
  | .done =>
    match dir.get? source, dir.get? target with
    | some bytes, none => (true, dir.insert target bytes)
    | _, _ => (false, dir)
  | _ => (false, dir)

/-! ## Calls -/

/-- Whose save a write is: a worker's report, a dispatch's result or a held result's retry. -/
inductive Purpose
  | report
  | dispatch
  | retry
  deriving DecidableEq

/-- The arguments of a write, and the tag of its temporary name. -/
structure Job where
  room : ℕ
  id : ReportId
  contents : Bytes
  wall : ℤ
  tag : Tag
  purpose : Purpose
  deriving DecidableEq

def Job.name (job : Job) : Name := ownName job.id.text

def Job.temp (job : Job) : Name := tempName job.id.text job.tag

/-- What a write ends with: the names it leaves behind, and whether its own name is gone. -/
inductive Written
  | saved (stray : Option Name)
  | failed (stray : Option Name) (removed : Bool)
  deriving DecidableEq

structure Scan where
  rest : List Name
  recount : ℕ
  ours : ℕ
  complete : Bool
  deriving DecidableEq

inductive SweepPoint
  /-- The next own file of the snapshot is looked at, or the strays are listed. -/
  | own (rest : List (Name × OwnFile))
  | claim (name : Name) (rest : List (Name × OwnFile))
  | unlinkOwn (name : Name) (rest : List (Name × OwnFile))
  | dropOwn (name : Name) (rest : List (Name × OwnFile))
  /-- The next stray is removed, or the directory is streamed. -/
  | unlinkStray (rest : List Name)
  | dropStray (temp : Name) (rest : List Name)
  /-- The next name is read from the stream, or the recount is published. -/
  | scan (scan : Scan)
  | statAdopted (name : Name) (deadline : ℤ) (scan : Scan)
  | unlinkAdopted (name : Name) (length : ℕ) (scan : Scan)
  | unadopt (length : ℕ) (scan : Scan)
  deriving DecidableEq

inductive Call
  | create (job : Job)
  | fill (job : Job)
  | publish (job : Job)
  | link (job : Job)
  | removeAlias (job : Job)
  | syncDir (job : Job) (stray : Option Name)
  /-- The cleanup of a failed write. -/
  | removeTemp (job : Job)
  | removeOwn (job : Job) (stray : Option Name)
  /-- The accounting of a write. -/
  | record (job : Job) (written : Written)
  /-- `save_held` takes a failed write's room back. -/
  | takeBack (job : Job)
  /-- The last section of `dispatch_result` and `retry_held`. -/
  | settle (job : Job) (saved : Bool)
  | discard (id : ReportId)
  | settleDiscard (id : ReportId) (removed : Bool)
  | sweep (now : Now) (start : ℕ) (point : SweepPoint)
  /-- `write_inventory`, with the snapshot it was given. -/
  | writeInventory (revision : ℕ) (text : Text)
  | renameInventory (revision : ℕ) (text : Text)
  | syncRuns (revision : ℕ)
  deriving DecidableEq

structure Shared where
  st : StoreState
  dir : Dir
  /-- The run's inventory file. -/
  inventory : Option Text
  /-- The inventory revision last written, and whether its lock is held. -/
  written : ℕ
  writing : Bool

inductive Next
  | call (call : Call)
  | ended
  /-- It ends and hands a `HeldResult` to its caller, who files it under the report's id. -/
  | held (id : ReportId) (room : ℕ)
  deriving DecidableEq

def Job.after (job : Job) (saved : Bool) : Next :=
  match job.purpose, saved with
  | .report, _ => .ended
  | _, true => .call (.settle job true)
  | _, false => .call (.takeBack job)

def Shared.record (sh : Shared) (job : Job) : Written → Shared × Next
  | .saved stray =>
    ({ sh with
      st := sh.st.recordSaved job.room job.id.text job.contents.length job.wall stray },
      job.after true)
  | .failed stray removed =>
    ({ sh with st := sh.st.recordFailed job.room job.id.text job.wall stray removed },
      job.after false)

/-- One step of a sweep. The maps and the directory are read in any order: `pick` says which
entry is next. -/
def Shared.sweep (sh : Shared) (now : Now) (start : ℕ) (outcome : Outcome) (pick : ℕ)
    (point : SweepPoint) : Option (Shared × Next) :=
  let go (point : SweepPoint) : Next := .call (.sweep now start point)
  match point with
  | .own rest =>
    match rest[pick]? with
    | none =>
      if rest.isEmpty then some (sh, go (.unlinkStray sh.st.stray.keys)) else none
    | some (name, file) =>
      let rest := rest.eraseIdx pick
      match outcome with
      | .done =>
        match sh.dir.get? name with
        | some _ => some (sh, go (if file.due now then .claim name rest else .own rest))
        | none => some (sh, go (.dropOwn name rest))
      | _ => some (sh, go (.own rest))
  | .claim name rest =>
    let (claimed, st) := sh.st.claim name now
    some ({ sh with st := st }, go (if claimed then .unlinkOwn name rest else .own rest))
  | .unlinkOwn name rest =>
    match unlink sh.dir name outcome with
    | (.kept, dir) => some ({ sh with dir := dir }, go (.own rest))
    | (_, dir) => some ({ sh with dir := dir }, go (.dropOwn name rest))
  | .dropOwn name rest => some ({ sh with st := sh.st.dropOwn name }, go (.own rest))
  | .unlinkStray rest =>
    match rest[pick]? with
    | none =>
      if rest.isEmpty then
        match outcome with
        | .done => some (sh, go (.scan ⟨sh.dir.keys, 0, 0, true⟩))
        | _ => some (sh, go (.scan ⟨[], 0, 0, false⟩))
      else none
    | some temp =>
      let rest := rest.eraseIdx pick
      match unlink sh.dir temp outcome with
      | (.kept, dir) => some ({ sh with dir := dir }, go (.unlinkStray rest))
      | (_, dir) => some ({ sh with dir := dir }, go (.dropStray temp rest))
  | .dropStray temp rest => some ({ sh with st := sh.st.dropStray temp }, go (.unlinkStray rest))
  | .scan scan =>
    match scan.rest[pick]? with
    | none =>
      if scan.rest.isEmpty then
        some ({ sh with
          st := sh.st.publishRecount start scan.ours scan.recount scan.complete }, .ended)
      else none
    | some name =>
      match outcome with
      | .done =>
        let scan := { scan with rest := scan.rest.eraseIdx pick }
        match parseAdoptedName name with
        | some (_, deadline, _) => some (sh, go (.statAdopted name deadline scan))
        | none => some (sh, go (.scan scan))
      | _ => some (sh, go (.scan { scan with rest := [], complete := false }))
  | .statAdopted name deadline scan =>
    match outcome with
    | .done =>
      match sh.dir.get? name with
      | some bytes =>
        if deadline ≤ now.wall then some (sh, go (.unlinkAdopted name bytes.length scan))
        else some (sh, go (.scan { scan with recount := scan.recount + bytes.length }))
      | none => some (sh, go (.scan scan))
    | _ => some (sh, go (.scan { scan with complete := false }))
  | .unlinkAdopted name length scan =>
    match unlink sh.dir name outcome with
    | (.removed, dir) => some ({ sh with dir := dir }, go (.unadopt length scan))
    | (.absent, dir) => some ({ sh with dir := dir }, go (.scan scan))
    | (.kept, dir) =>
      some ({ sh with dir := dir }, go (.scan { scan with recount := scan.recount + length }))
  | .unadopt length scan =>
    some ({ sh with st := sh.st.unadopt length }, go (.scan { scan with ours := scan.ours + 1 }))

def Shared.step (sh : Shared) (outcome : Outcome) (pick : ℕ) : Call → Option (Shared × Next)
  | .create job =>
    match outcome, sh.dir.get? job.temp with
    | .done, none => some ({ sh with dir := sh.dir.insert job.temp [] }, .call (.fill job))
    | .leftBehind, none =>
      some ({ sh with dir := sh.dir.insert job.temp [] }, .call (.removeTemp job))
    | _, _ => some (sh, .call (.record job (.failed none true)))
  | .fill job =>
    match outcome with
    | .done =>
      some ({ sh with dir := sh.dir.insert job.temp job.contents }, .call (.publish job))
    | .cut length =>
      some ({ sh with dir := sh.dir.insert job.temp (job.contents.take length) },
        .call (.removeTemp job))
    | _ => some (sh, .call (.removeTemp job))
  | .publish job =>
    match renameInto sh.dir job.temp job.name outcome with
    | (.moved, dir) => some ({ sh with dir := dir }, .call (.syncDir job none))
    | (.unsupported, dir) => some ({ sh with dir := dir }, .call (.link job))
    | (.failed, dir) => some ({ sh with dir := dir }, .call (.removeTemp job))
  | .link job =>
    match hardLink sh.dir job.temp job.name outcome with
    | (true, dir) => some ({ sh with dir := dir }, .call (.removeAlias job))
    | (false, dir) => some ({ sh with dir := dir }, .call (.removeTemp job))
  | .removeAlias job =>
    match unlink sh.dir job.temp outcome with
    | (.removed, dir) => some ({ sh with dir := dir }, .call (.syncDir job none))
    | (_, dir) => some ({ sh with dir := dir }, .call (.syncDir job (some job.temp)))
  | .syncDir job stray =>
    match outcome with
    | .done => some (sh, .call (.record job (.saved stray)))
    | _ => some (sh, .call (.removeOwn job stray))
  | .removeTemp job =>
    match unlink sh.dir job.temp outcome with
    | (.removed, dir) => some ({ sh with dir := dir }, .call (.record job (.failed none true)))
    | (_, dir) =>
      some ({ sh with dir := dir }, .call (.record job (.failed (some job.temp) true)))
  | .removeOwn job stray =>
    match unlink sh.dir job.name outcome with
    | (.removed, dir) => some ({ sh with dir := dir }, .call (.record job (.failed stray true)))
    | (_, dir) => some ({ sh with dir := dir }, .call (.record job (.failed stray false)))
  | .record job written => some (sh.record job written)
  | .takeBack job =>
    let sh := { sh with st := sh.st.charge job.room }
    match job.purpose with
    | .retry => some (sh, .held job.id job.room)
    | _ => some (sh, .call (.settle job false))
  | .settle job saved =>
    match job.purpose with
    | .retry => some ({ sh with st := sh.st.freeSlot }, .ended)
    | _ =>
      some ({ sh with st := sh.st.settleDispatch saved },
        if saved then .ended else .held job.id job.room)
  | .discard id =>
    match unlink sh.dir (ownName id.text) outcome with
    | (.kept, dir) => some ({ sh with dir := dir }, .call (.settleDiscard id false))
    | (_, dir) => some ({ sh with dir := dir }, .call (.settleDiscard id true))
  | .settleDiscard id removed =>
    some ({ sh with st := sh.st.settleDiscard (ownName id.text) removed }, .ended)
  | .sweep now start point => sh.sweep now start outcome pick point
  | .writeInventory revision text =>
    if sh.writing then none
    else if revision ≤ sh.written ∧ sh.written ≠ 0 then some (sh, .ended)
    else some ({ sh with writing := true }, .call (.renameInventory revision text))
  | .renameInventory revision text =>
    match outcome with
    | .done => some ({ sh with inventory := some text }, .call (.syncRuns revision))
    | _ => some ({ sh with writing := false }, .ended)
  | .syncRuns revision =>
    match outcome with
    | .done => some ({ sh with written := revision, writing := false }, .ended)
    | _ => some ({ sh with writing := false }, .ended)

/-! ## The store at work -/

structure Machine where
  run : Text
  shared : Shared
  /-- The `Reservation`s, `DispatchReservation`s and `HeldResult`s its callers hold. -/
  reservations : List ℕ
  dispatches : List ℕ
  held : List (ReportId × ℕ)
  calls : List Call

def Machine.new (run : Text) (config : StoreConfig) : Machine :=
  ⟨run, ⟨.new config, .empty, none, 0, false⟩, [], [], [], []⟩

inductive Event
  | reserve (bytes : ℕ)
  /-- `release` and `release_in_drop`. -/
  | release (which : ℕ)
  | reserveDispatch
  | releaseDispatch (which : ℕ)
  | endHeld (which : ℕ)
  | acknowledged (id : ReportId) (now : Now)
  | recovered (id : ReportId) (now : Now)
  | continueLifetime (id : ReportId) (life : Lifetime)
  | write (which : ℕ) (id : ReportId) (contents : Bytes) (wall : ℤ) (tag : Tag)
  | dispatchResult (which : ℕ) (id : ReportId) (contents : Bytes) (wall : ℤ) (tag : Tag)
  | retryHeld (which : ℕ) (id : ReportId) (contents : Bytes) (wall : ℤ) (tag : Tag)
  | discard (id : ReportId)
  | sweep (now : Now)
  | flush
  /-- A file an ended run left is moved in and charged. -/
  | adopt (name : Name) (contents : Bytes)
  | advance (which : ℕ) (outcome : Outcome) (pick : ℕ)

/-- Two reports and a tag, for concrete runs. -/
def reportA : ReportId := ⟨"a".toList, by decide⟩

def reportB : ReportId := ⟨"b".toList, by decide⟩

def zeroTag : Tag := ⟨List.replicate 16 '0', rfl, rfl⟩

/-- The newest call goes on `count` times, each file operation done. -/
def goOn (count : ℕ) : List Event := List.replicate count (.advance 0 .done 0)

def Call.isSweep : Call → Bool
  | .sweep _ _ _ => true
  | _ => false

namespace Machine

/-- Change the state under its lock. -/
def withState (m : Machine) (st : StoreState) : Machine :=
  { m with shared := { m.shared with st := st } }

/-- `sweep_lock`: a sweep and a takeover wait for the sweep under way. -/
def sweeping (m : Machine) : Bool := m.calls.any Call.isSweep

/-- The call at `which` is at `next` after its step. -/
def resume (m : Machine) (which : ℕ) : Next → Machine
  | .call call => { m with calls := m.calls.take which ++ call :: m.calls.drop (which + 1) }
  | .ended => { m with calls := m.calls.take which ++ m.calls.drop (which + 1) }
  | .held id room =>
    { m with
      calls := m.calls.take which ++ m.calls.drop (which + 1), held := (id, room) :: m.held }

def step (m : Machine) : Event → Option Machine
  | .reserve bytes =>
    match m.shared.st.reserve bytes with
    | .ok (room, st) => some { m.withState st with reservations := room :: m.reservations }
    | .error _ => some m
  | .release which => do
      let room ← m.reservations[which]?
      some { m.withState (m.shared.st.release room) with
        reservations := m.reservations.eraseIdx which }
  | .reserveDispatch =>
    match m.shared.st.reserveDispatch with
    | .ok (room, st) => some { m.withState st with dispatches := room :: m.dispatches }
    | .error _ => some m
  | .releaseDispatch which => do
      let room ← m.dispatches[which]?
      some { m.withState (m.shared.st.releaseDispatch room) with
        dispatches := m.dispatches.eraseIdx which }
  | .endHeld which => do
      let held ← m.held[which]?
      some { m.withState (m.shared.st.endHeld held.2) with held := m.held.eraseIdx which }
  | .acknowledged id now => some (m.withState (m.shared.st.acknowledged id.text now))
  | .recovered id now => some (m.withState (m.shared.st.recovered id.text now))
  | .continueLifetime id life => some (m.withState (m.shared.st.continueLifetime id.text life))
  | .write which id contents wall tag => do
      let room ← m.reservations[which]?
      some { m with
        reservations := m.reservations.eraseIdx which
        calls := .create ⟨room, id, contents, wall, tag, .report⟩ :: m.calls }
  | .dispatchResult which id contents wall tag => do
      let room ← m.dispatches[which]?
      some { m with
        dispatches := m.dispatches.eraseIdx which
        calls := .create ⟨room, id, contents, wall, tag, .dispatch⟩ :: m.calls }
  | .retryHeld which id contents wall tag => do
      let held ← m.held[which]?
      some { m with
        held := m.held.eraseIdx which
        calls := .create ⟨held.2, id, contents, wall, tag, .retry⟩ :: m.calls }
  | .discard id => some { m with calls := .discard id :: m.calls }
  | .sweep now =>
    if m.sweeping then none
    else
      some { m with
        calls := .sweep now m.shared.st.adoptedGeneration (.own m.shared.st.own.entries) ::
          m.calls }
  | .flush =>
    let st := m.shared.st
    some { m with
      calls := .writeInventory st.revision
        (writeInventoryText m.run st.config.maxFiles st.entries) :: m.calls }
  | .adopt name contents =>
    if m.sweeping ∨ parseAdoptedName name = none ∨ m.shared.dir.get? name ≠ none then none
    else
      some { m with
        shared := { m.shared with
          st := m.shared.st.adopt contents.length, dir := m.shared.dir.insert name contents } }
  | .advance which outcome pick => do
      let call ← m.calls[which]?
      let (shared, next) ← m.shared.step outcome pick call
      some ({ m with shared := shared }.resume which next)

/-- Events one after the other; `none` when one of them cannot happen where it stands. -/
def steps (m : Machine) : List Event → Option Machine
  | [] => some m
  | event :: events => (m.step event).bind fun next => next.steps events

theorem steps_append (m : Machine) (events more : List Event) :
    m.steps (events ++ more) = (m.steps events).bind fun next => next.steps more := by
  induction events generalizing m with
  | nil => rfl
  | cons event events ih =>
    simp only [List.cons_append, steps]
    cases m.step event with
    | none => rfl
    | some next => exact ih next

variable {m : Machine} {events : List Event}

theorem steps_trace (holds : List Event → Machine → Prop) {after : Machine} (start : holds [] m)
    (keeps : ∀ past before event rest next, events = past ++ event :: rest →
      m.steps past = some before → before.step event = some next → holds past before →
        holds (past ++ [event]) next)
    (ran : m.steps events = some after) : holds events after := by
  have all : ∀ past rest before, events = past ++ rest → m.steps past = some before →
      holds past before → before.steps rest = some after → holds events after := by
    intro past rest
    induction rest generalizing past with
    | nil =>
      intro before split passed held ran
      cases ran
      rw [split, List.append_nil]
      exact held
    | cons event rest ih =>
      intro before split passed held ran
      simp only [steps, Option.bind_eq_some_iff] at ran
      rcases ran with ⟨next, stepped, ran⟩
      refine ih (past ++ [event]) next ?_ ?_
        (keeps past before event rest next split passed stepped held) ran
      · rw [split, List.append_assoc, List.singleton_append]
      · rw [steps_append, passed, Option.bind_some, steps, stepped]
        rfl
  exact all [] events m rfl rfl start ran

/-- Each event of a run is admissible in the state in which it happens. -/
def Along (admissible : Machine → Event → Prop) (m : Machine) : List Event → Prop
  | [] => True
  | event :: events =>
    admissible m event ∧ ∀ next, m.step event = some next → next.Along admissible events

def checks (admissible : Machine → Event → Bool) (m : Machine) : List Event → Bool
  | [] => true
  | event :: events =>
    admissible m event && (m.step event).all fun next => next.checks admissible events

theorem along_of_checks {admissible : Machine → Event → Bool}
    (checked : m.checks admissible events) :
    m.Along (fun m event => admissible m event = true) events := by
  induction events generalizing m with
  | nil => trivial
  | cons event events ih =>
    simp only [checks, Bool.and_eq_true] at checked
    refine ⟨checked.1, ?_⟩
    intro next stepped
    rw [stepped] at checked
    exact ih checked.2

variable {admissible : Machine → Event → Prop}

theorem Along.here {past rest : List Event} {event : Event} {before : Machine}
    (along : m.Along admissible (past ++ event :: rest)) (passed : m.steps past = some before) :
    admissible before event := by
  induction past generalizing m with
  | nil =>
    cases passed
    exact along.1
  | cons first past ih =>
    simp only [steps, Option.bind_eq_some_iff] at passed
    rcases passed with ⟨next, stepped, passed⟩
    exact ih (along.2 next stepped) passed

theorem Along.left {past rest : List Event} (along : m.Along admissible (past ++ rest)) :
    m.Along admissible past := by
  induction past generalizing m with
  | nil => trivial
  | cons event past ih => exact ⟨along.1, fun next stepped => ih (along.2 next stepped)⟩

theorem Along.and {holds : Event → Prop} (along : m.Along admissible events)
    (all : ∀ event ∈ events, holds event) :
    m.Along (fun m event => admissible m event ∧ holds event) events := by
  induction events generalizing m with
  | nil => trivial
  | cons event events ih =>
    rw [List.forall_mem_cons] at all
    exact ⟨⟨along.1, all.1⟩, fun next stepped => ih (along.2 next stepped) all.2⟩

theorem steps_keep (holds : Machine → Prop)
    (keeps : ∀ m event after, admissible m event → m.step event = some after → holds m →
      holds after) {after : Machine} (along : m.Along admissible events)
    (ran : m.steps events = some after) (start : holds m) : holds after := by
  induction events generalizing m with
  | nil =>
    cases ran
    exact start
  | cons event events ih =>
    simp only [steps, Option.bind_eq_some_iff] at ran
    rcases ran with ⟨next, stepped, ran⟩
    exact ih (along.2 next stepped) ran (keeps m event next along.1 stepped start)

end Machine

end AgentDeck.Retained
