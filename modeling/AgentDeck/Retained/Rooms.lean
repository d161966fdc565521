import AgentDeck.Retained.Steps

/-!
# Every reserved room has one holder

The store counts reserved bytes, reserved slots, dispatches in flight and unsaved results. Each of
the four is the sum of what the outstanding reservations, dispatch reservations and held results
count for, and of what the calls under way still hold. So no section ever takes a count below zero.
-/

namespace AgentDeck.Retained

inductive Count
  | bytes
  | slots
  | inFlight
  | unsaved
  deriving DecidableEq

namespace Count

def of (count : Count) (st : StoreState) : ℕ :=
  match count with
  | bytes => st.reservedBytes
  | slots => st.reservedSlots
  | inFlight => st.inFlight
  | unsaved => st.unsaved

def file (count : Count) (room : ℕ) : ℕ :=
  match count with
  | bytes => room
  | slots => 1
  | inFlight | unsaved => 0

end Count

def Purpose.slot (purpose : Purpose) (count : Count) : ℕ :=
  match purpose, count with
  | .dispatch, .inFlight => 1
  | .retry, .unsaved => 1
  | _, _ => 0

/-- What a call under way holds. -/
def Call.share (count : Count) : Call → ℕ
  | .create job | .fill job | .publish job | .link job | .removeAlias job | .removeTemp job =>
    count.file job.room + job.purpose.slot count
  | .syncDir job _ | .removeOwn job _ | .record job _ =>
    count.file job.room + job.purpose.slot count
  | .takeBack job => job.purpose.slot count
  | .settle job saved => (if saved then 0 else count.file job.room) + job.purpose.slot count
  | _ => 0

def Next.share (count : Count) : Next → ℕ
  | .call next => next.share count
  | .ended => 0
  | .held _ room => count.file room + Purpose.retry.slot count

/-- Only dispatch results are taken back and settled, and only a saved retry is settled. -/
def Call.Proper : Call → Prop
  | .takeBack job => job.purpose ≠ .report
  | .settle job saved => job.purpose ≠ .report ∧ (job.purpose = .retry → saved = true)
  | _ => True

theorem Purpose.eq_dispatch {purpose : Purpose} (notReport : purpose ≠ .report)
    (notRetry : purpose ≠ .retry) : purpose = .dispatch := by
  cases purpose with
  | report => exact absurd rfl notReport
  | dispatch => rfl
  | retry => exact absurd rfl notRetry

/-! ## Sections that move no count -/

structure SameRooms (st after : StoreState) : Prop where
  counts : ∀ count : Count, count.of after = count.of st
  config : after.config = st.config

namespace SameRooms

variable (st : StoreState)

theorem rfl' : SameRooms st st := ⟨fun _ => rfl, rfl⟩

theorem of_fields {st after : StoreState} (config : after.config = st.config)
    (bytes : after.reservedBytes = st.reservedBytes)
    (slots : after.reservedSlots = st.reservedSlots) (inFlight : after.inFlight = st.inFlight)
    (unsaved : after.unsaved = st.unsaved) : SameRooms st after := by
  refine ⟨?_, config⟩
  intro count
  cases count with
  | bytes => exact bytes
  | slots => exact slots
  | inFlight => exact inFlight
  | unsaved => exact unsaved

theorem dropOwn (name : Name) : SameRooms st (st.dropOwn name) := by
  simp only [StoreState.dropOwn]
  split
  · exact of_fields rfl rfl rfl rfl rfl
  · exact rfl' st

theorem settleDiscard (name : Name) (removed : Bool) :
    SameRooms st (st.settleDiscard name removed) := by
  simp only [StoreState.settleDiscard]
  split
  · exact dropOwn st name
  · split
    · exact of_fields rfl rfl rfl rfl rfl
    · exact rfl' st

theorem claim (name : Name) (now : Now) : SameRooms st (st.claim name now).2 := by
  simp only [StoreState.claim]
  split
  · split
    · exact of_fields rfl rfl rfl rfl rfl
    · exact rfl' st
  · exact rfl' st

theorem publishRecount (start ours recount : ℕ) (complete : Bool) :
    SameRooms st (st.publishRecount start ours recount complete) := by
  simp only [StoreState.publishRecount]
  split
  · exact of_fields rfl rfl rfl rfl rfl
  · exact rfl' st

theorem transition (id : Text) (now : Now) (next : OwnState → Option OwnState) :
    SameRooms st (st.transition id now next) := by
  simp only [StoreState.transition]
  split
  · split
    · exact of_fields rfl rfl rfl rfl rfl
    · exact rfl' st
  · exact rfl' st

theorem acknowledged (id : Text) (now : Now) :
    SameRooms st (st.acknowledged id now) := transition st id now _

theorem recovered (id : Text) (now : Now) :
    SameRooms st (st.recovered id now) := transition st id now _

theorem continueLifetime (id : Text) (life : Lifetime) :
    SameRooms st (st.continueLifetime id life) := by
  cases life with
  | referenced => exact rfl' st
  | acknowledged since | recovered since =>
    simp only [StoreState.continueLifetime]
    split
    · split
      · exact rfl' st
      · exact of_fields rfl rfl rfl rfl rfl
    · exact rfl' st

theorem recordSaved (room : ℕ) (id : Text) (bytes : ℕ) (wall : ℤ) (stray : Option Name) :
    SameRooms (st.release room) (st.recordSaved room id bytes wall stray) :=
  of_fields rfl rfl rfl rfl rfl

theorem recordFailed (room : ℕ) (id : Text) (wall : ℤ) (stray : Option Name) (removed : Bool) :
    SameRooms (st.release room) (st.recordFailed room id wall stray removed) := by
  cases stray with
  | none =>
    cases removed with
    | true => exact rfl' _
    | false => exact of_fields rfl rfl rfl rfl rfl
  | some temp =>
    cases removed with
    | true => exact of_fields rfl rfl rfl rfl rfl
    | false => exact of_fields rfl rfl rfl rfl rfl

theorem sweep {sh after : Shared} {now : Now} {start : ℕ} {point : SweepPoint}
    {later : Option SweepPoint} (step : SweepStep now start sh point after later) :
    SameRooms sh.st after.st := by
  cases step with
  | claimed found due => exact claim _ _ _
  | ownDropped => exact dropOwn _ _
  | recounted => exact publishRecount _ _ _ _ _
  | _ => exact of_fields rfl rfl rfl rfl rfl

end SameRooms

/-! ## One step -/

theorem share_sweepNext (count : Count) (now : Now) (start : ℕ) (later : Option SweepPoint) :
    (sweepNext now start later).share count = 0 := by
  cases later <;> rfl

theorem share_after (count : Count) (job : Job) (saved : Bool) :
    (job.after saved).share count = job.purpose.slot count := by
  rcases job with ⟨room, id, contents, wall, tag, purpose⟩
  cases purpose <;> cases saved <;>
    simp [Job.after, Next.share, Call.share, Purpose.slot]

theorem release_share {st : StoreState} {room : ℕ}
    (held : ∀ count : Count, count.file room ≤ count.of st) (count : Count) :
    count.of (st.release room) + count.file room = count.of st := by
  have least := held count
  cases count with
  | bytes => exact Nat.sub_add_cancel least
  | slots => exact Nat.sub_add_cancel least
  | inFlight => rfl
  | unsaved => rfl

theorem charge_share (st : StoreState) (room : ℕ) (count : Count) :
    count.of (st.charge room) = count.of st + count.file room := by
  cases count <;> rfl

/-- What a call holds before its step and what it holds after it differ as the counts do. -/
theorem callStep_share {sh after : Shared} {call : Call} {next : Next}
    (step : CallStep sh call after next) (proper : call.Proper)
    (held : ∀ count : Count, call.share count ≤ count.of sh.st) (count : Count) :
    count.of after.st + call.share count = count.of sh.st + next.share count := by
  cases step with
  | recordedSaved =>
    rename_i job stray
    have room : ∀ count : Count, count.file job.room ≤ count.of sh.st := fun count =>
      (Nat.le_add_right _ _).trans (held count)
    have back := release_share room count
    have same := (SameRooms.recordSaved sh.st job.room job.id.text job.contents.length job.wall
      stray).counts count
    rw [share_after]
    simp only [Call.share]
    omega
  | recordedFailed =>
    rename_i job stray removed
    have room : ∀ count : Count, count.file job.room ≤ count.of sh.st := fun count =>
      (Nat.le_add_right _ _).trans (held count)
    have back := release_share room count
    have same := (SameRooms.recordFailed sh.st job.room job.id.text job.wall stray
      removed).counts count
    rw [share_after]
    simp only [Call.share]
    omega
  | retryTookBack retry =>
    simp only [Call.share, Next.share, charge_share, retry]
    omega
  | tookBack other =>
    simp only [Call.share, Next.share, charge_share, Bool.false_eq_true, ↓reduceIte]
    omega
  | retrySettled retry =>
    have done := proper.2 retry
    have slot := held .unsaved
    subst done
    simp only [Call.share, retry, Purpose.slot, Count.of] at slot
    cases count <;>
      simp only [Call.share, Next.share, retry, Purpose.slot, Count.of, StoreState.freeSlot,
        ↓reduceIte]
    omega
  | settledSaved other =>
    have dispatch := Purpose.eq_dispatch proper.1 other
    have slot := held .inFlight
    simp only [Call.share, dispatch, Purpose.slot, Count.of] at slot
    cases count <;>
      simp only [Call.share, Next.share, dispatch, Purpose.slot, Count.of,
        StoreState.settleDispatch, ↓reduceIte]
    omega
  | settledHeld other =>
    have dispatch := Purpose.eq_dispatch proper.1 other
    have slot := held .inFlight
    simp only [Call.share, dispatch, Purpose.slot, Count.of] at slot
    cases count <;>
      simp only [Call.share, Next.share, dispatch, Purpose.slot, Count.of, Count.file,
        StoreState.settleDispatch, Bool.false_eq_true, ↓reduceIte]
    omega
  | discardSettled =>
    rw [(SameRooms.settleDiscard sh.st _ _).counts count]
    rfl
  | sweep swept =>
    rw [(SameRooms.sweep swept).counts count, share_sweepNext]
    rfl
  | _ => rfl

theorem proper_after {job : Job} {saved : Bool} :
    ∀ call ∈ (job.after saved).calls, call.Proper := by
  rcases job with ⟨room, id, contents, wall, tag, purpose⟩
  cases purpose <;> cases saved <;> simp [Job.after, Next.calls, Call.Proper]

theorem callStep_proper {sh after : Shared} {call : Call} {next : Next}
    (step : CallStep sh call after next) (proper : call.Proper) :
    ∀ later ∈ next.calls, later.Proper := by
  cases step with
  | recordedSaved => exact proper_after
  | recordedFailed => exact proper_after
  | tookBack other =>
    intro later mem
    rw [Next.calls, List.mem_singleton] at mem
    subst mem
    exact ⟨proper, fun retry => absurd retry other⟩
  | sweep swept =>
    rename_i later
    cases later <;> simp [sweepNext, Next.calls, Call.Proper]
  | _ => simp [Next.calls, Call.Proper]

/-! ## Whole runs -/

theorem Taken.sum {α : Type} {entry : α} {list rest : List α} (taken : Taken entry list rest)
    (weight : α → ℕ) : (list.map weight).sum = weight entry + (rest.map weight).sum := by
  rcases taken with ⟨before, after, rfl, rfl⟩
  simp only [List.map_append, List.map_cons, List.sum_append, List.sum_cons]
  omega

namespace Count

/-- What a reservation, a dispatch reservation and a held result count for. -/
def dispatch (count : Count) (room : ℕ) : ℕ := count.file room + Purpose.dispatch.slot count

def held (count : Count) (held : ReportId × ℕ) : ℕ :=
  count.file held.2 + Purpose.retry.slot count

end Count

/-- What the callers and the calls under way hold together. -/
def Machine.share (m : Machine) (count : Count) : ℕ :=
  (m.reservations.map count.file).sum + (m.dispatches.map count.dispatch).sum +
    (m.held.map count.held).sum + (m.calls.map (Call.share count)).sum

/-- Every count is what its holders hold. -/
structure Accounted (m : Machine) : Prop where
  counts : ∀ count : Count, count.of m.shared.st = m.share count
  proper : ∀ call ∈ m.calls, call.Proper

theorem accounted_new (run : Text) (config : StoreConfig) : Accounted (.new run config) := by
  constructor
  · intro count
    cases count <;> rfl
  · intro call mem
    cases mem

namespace Accounted

variable {m : Machine}

variable (accounted : Accounted m)

include accounted

theorem share_le {call : Call} (mem : call ∈ m.calls) (count : Count) :
    call.share count ≤ count.of m.shared.st := by
  rw [accounted.counts count, Machine.share]
  have part : call.share count ≤ (m.calls.map (Call.share count)).sum :=
    List.single_le_sum (fun _ _ => Nat.zero_le _) _ (List.mem_map.mpr ⟨call, mem, rfl⟩)
  omega

theorem file_le {room : ℕ} (mem : room ∈ m.reservations) (count : Count) :
    count.file room ≤ count.of m.shared.st := by
  rw [accounted.counts count, Machine.share]
  have part : count.file room ≤ (m.reservations.map count.file).sum :=
    List.single_le_sum (fun _ _ => Nat.zero_le _) _ (List.mem_map.mpr ⟨room, mem, rfl⟩)
  omega

theorem dispatch_le {room : ℕ} (mem : room ∈ m.dispatches) (count : Count) :
    count.dispatch room ≤ count.of m.shared.st := by
  rw [accounted.counts count, Machine.share]
  have part : count.dispatch room ≤ (m.dispatches.map count.dispatch).sum :=
    List.single_le_sum (fun _ _ => Nat.zero_le _) _ (List.mem_map.mpr ⟨room, mem, rfl⟩)
  omega

theorem held_le {held : ReportId × ℕ} (mem : held ∈ m.held) (count : Count) :
    count.held held ≤ count.of m.shared.st := by
  rw [accounted.counts count, Machine.share]
  have part : count.held held ≤ (m.held.map count.held).sum :=
    List.single_le_sum (fun _ _ => Nat.zero_le _) _ (List.mem_map.mpr ⟨held, mem, rfl⟩)
  omega

theorem withState {st : StoreState} (same : SameRooms m.shared.st st) :
    Accounted (m.withState st) := by
  refine ⟨?_, accounted.proper⟩
  intro count
  exact (same.counts count).trans (accounted.counts count)

end Accounted

theorem reserve_cases {st after : StoreState} {bytes room : ℕ}
    (reserved : st.reserve bytes = .ok (room, after)) :
    room = max bytes 1 ∧ after = st.charge room ∧ st.usedBytes + room ≤ st.config.maxBytes ∧
      st.usedSlots + 1 ≤ st.config.maxFiles := by
  simp only [StoreState.reserve, StoreState.admitted, bind, Except.bind] at reserved
  split at reserved
  · cases reserved
  · rename_i admitted
    split at admitted
    · cases admitted
    · split at admitted
      · cases admitted
      · cases reserved
        exact ⟨rfl, rfl, by omega, by omega⟩

theorem reserveDispatch_cases {st after : StoreState} {room : ℕ}
    (reserved : st.reserveDispatch = .ok (room, after)) :
    room = dispatchResultMaxFile ∧
      after = (st.charge room).enterFlight ∧
      st.usedBytes + room ≤ st.config.maxBytes ∧ st.usedSlots + 1 ≤ st.config.maxFiles ∧
      st.inFlight + st.unsaved < st.config.fallbackSlots := by
  simp only [StoreState.reserveDispatch, StoreState.admitted, bind, Except.bind] at reserved
  split at reserved
  · cases reserved
  · split at reserved
    · cases reserved
    · rename_i admitted
      split at admitted
      · cases admitted
      · split at admitted
        · cases admitted
        · cases reserved
          exact ⟨rfl, rfl, by omega, by omega, by omega⟩

theorem Accounted.advance {m after : Machine} {which : ℕ} {outcome : Outcome} {pick : ℕ}
    (accounted : Accounted m) (stepped : m.step (.advance which outcome pick) = some after) :
    Accounted after := by
  rcases advance_cases stepped with ⟨before, call, later, shared, next, calls, -, -, step, rfl⟩
  have mem : call ∈ m.calls := calls ▸ List.mem_append_right _ List.mem_cons_self
  have proper := accounted.proper call mem
  constructor
  · intro count
    have moved := callStep_share step proper (accounted.share_le mem) count
    have total := accounted.counts count
    have helds : (next.helds.map count.held).sum + (next.calls.map (Call.share count)).sum =
        next.share count := by
      cases next <;> simp [Next.helds, Next.calls, Next.share, Count.held]
    simp only [Machine.share, calls, List.map_append, List.map_cons, List.sum_append,
      List.sum_cons] at total ⊢
    omega
  · intro other inside
    simp only [List.mem_append] at inside
    rcases inside with inside | inside | inside
    · exact accounted.proper other (mem_of_around calls (Or.inl inside))
    · exact callStep_proper step proper other inside
    · exact accounted.proper other (mem_of_around calls (Or.inr inside))

/-- What an event does that takes no step of a call under way. -/
inductive Began (m : Machine) : Event → Machine → Prop
  | refused {event : Event} : Began m event m
  | reserved {bytes room : ℕ} (inBytes : m.shared.st.usedBytes + room ≤ m.shared.st.config.maxBytes)
      (inSlots : m.shared.st.usedSlots + 1 ≤ m.shared.st.config.maxFiles) :
      Began m (.reserve bytes) { m.withState (m.shared.st.charge room) with
        reservations := room :: m.reservations }
  | released {which room : ℕ} (found : m.reservations[which]? = some room) :
      Began m (.release which) { m.withState (m.shared.st.release room) with
        reservations := m.reservations.eraseIdx which }
  | dispatched {room : ℕ} (inBytes : m.shared.st.usedBytes + room ≤ m.shared.st.config.maxBytes)
      (inSlots : m.shared.st.usedSlots + 1 ≤ m.shared.st.config.maxFiles)
      (free : m.shared.st.inFlight + m.shared.st.unsaved < m.shared.st.config.fallbackSlots) :
      Began m .reserveDispatch { m.withState (m.shared.st.charge room).enterFlight with
        dispatches := room :: m.dispatches }
  | dispatchReleased {which room : ℕ} (found : m.dispatches[which]? = some room) :
      Began m (.releaseDispatch which) { m.withState (m.shared.st.releaseDispatch room) with
        dispatches := m.dispatches.eraseIdx which }
  | heldEnded {which : ℕ} {held : ReportId × ℕ} (found : m.held[which]? = some held) :
      Began m (.endHeld which) { m.withState (m.shared.st.endHeld held.2) with
        held := m.held.eraseIdx which }
  | acknowledged (id : ReportId) (now : Now) :
      Began m (.acknowledged id now) (m.withState (m.shared.st.acknowledged id.text now))
  | recovered (id : ReportId) (now : Now) :
      Began m (.recovered id now) (m.withState (m.shared.st.recovered id.text now))
  | continued (id : ReportId) (life : Lifetime) :
      Began m (.continueLifetime id life) (m.withState (m.shared.st.continueLifetime id.text life))
  | written {which room : ℕ} {id contents wall tag}
      (found : m.reservations[which]? = some room) :
      Began m (.write which id contents wall tag) { m with
        reservations := m.reservations.eraseIdx which
        calls := .create ⟨room, id, contents, wall, tag, .report⟩ :: m.calls }
  | resultWritten {which room : ℕ} {id contents wall tag}
      (found : m.dispatches[which]? = some room) :
      Began m (.dispatchResult which id contents wall tag) { m with
        dispatches := m.dispatches.eraseIdx which
        calls := .create ⟨room, id, contents, wall, tag, .dispatch⟩ :: m.calls }
  | heldWritten {which : ℕ} {held : ReportId × ℕ} {id contents wall tag}
      (found : m.held[which]? = some held) :
      Began m (.retryHeld which id contents wall tag) { m with
        held := m.held.eraseIdx which
        calls := .create ⟨held.2, id, contents, wall, tag, .retry⟩ :: m.calls }
  | discards (id : ReportId) : Began m (.discard id) { m with calls := .discard id :: m.calls }
  | sweeps {now : Now} (idle : m.sweeping = false) : Began m (.sweep now) { m with
      calls := .sweep now m.shared.st.adoptedGeneration (.own m.shared.st.own.entries) ::
        m.calls }
  | flushes : Began m .flush { m with
      calls := .writeInventory m.shared.st.revision
        (writeInventoryText m.run m.shared.st.config.maxFiles m.shared.st.entries) :: m.calls }
  | adopts {name contents} (idle : m.sweeping = false) (adopted : parseAdoptedName name ≠ none)
      (free : m.shared.dir.get? name = none) : Began m (.adopt name contents) { m with
        shared := { m.shared with
          st := m.shared.st.adopt contents.length, dir := m.shared.dir.insert name contents } }

theorem began_of {m after : Machine} {event : Event} (stepped : m.step event = some after)
    (begins : ∀ which outcome pick, event ≠ .advance which outcome pick) : Began m event after := by
  cases event with
  | reserve bytes =>
    simp only [Machine.step] at stepped
    split at stepped
    · rename_i room st reserved
      rcases reserve_cases reserved with ⟨-, rfl, inBytes, inSlots⟩
      cases stepped
      exact .reserved inBytes inSlots
    · cases stepped
      exact .refused
  | reserveDispatch =>
    simp only [Machine.step] at stepped
    split at stepped
    · rename_i room st reserved
      rcases reserveDispatch_cases reserved with ⟨-, rfl, inBytes, inSlots, free⟩
      cases stepped
      exact .dispatched inBytes inSlots free
    · cases stepped
      exact .refused
  | release which =>
    rcases Option.bind_eq_some_iff.mp stepped with ⟨room, found, same⟩
    cases same
    exact .released found
  | releaseDispatch which =>
    rcases Option.bind_eq_some_iff.mp stepped with ⟨room, found, same⟩
    cases same
    exact .dispatchReleased found
  | endHeld which =>
    rcases Option.bind_eq_some_iff.mp stepped with ⟨held, found, same⟩
    cases same
    exact .heldEnded found
  | write which id contents wall tag =>
    rcases Option.bind_eq_some_iff.mp stepped with ⟨room, found, same⟩
    cases same
    exact .written found
  | dispatchResult which id contents wall tag =>
    rcases Option.bind_eq_some_iff.mp stepped with ⟨room, found, same⟩
    cases same
    exact .resultWritten found
  | retryHeld which id contents wall tag =>
    rcases Option.bind_eq_some_iff.mp stepped with ⟨held, found, same⟩
    cases same
    exact .heldWritten found
  | acknowledged id now =>
    cases stepped
    exact .acknowledged id now
  | recovered id now =>
    cases stepped
    exact .recovered id now
  | continueLifetime id life =>
    cases stepped
    exact .continued id life
  | discard id =>
    cases stepped
    exact .discards id
  | flush =>
    cases stepped
    exact .flushes
  | sweep now =>
    simp only [Machine.step] at stepped
    split at stepped
    · cases stepped
    · rename_i idle
      cases stepped
      exact .sweeps (Bool.not_eq_true _ ▸ idle)
  | adopt name contents =>
    simp only [Machine.step] at stepped
    split at stepped
    · cases stepped
    · rename_i free
      simp only [not_or, Bool.not_eq_true, not_not] at free
      cases stepped
      exact .adopts free.1 free.2.1 free.2.2
  | advance which outcome pick => exact absurd rfl (begins which outcome pick)

theorem Accounted.started {m : Machine} (accounted : Accounted m) {call : Call}
    (proper : call.Proper) (roomless : ∀ count, call.share count = 0) :
    Accounted { m with calls := call :: m.calls } := by
  refine ⟨?_, List.forall_mem_cons.mpr ⟨proper, accounted.proper⟩⟩
  intro count
  have total := accounted.counts count
  simp only [Machine.share, List.map_cons, List.sum_cons, roomless count] at total ⊢
  omega

theorem Accounted.begins {m after : Machine} {event : Event} (accounted : Accounted m)
    (began : Began m event after) : Accounted after := by
  cases began with
  | refused => exact accounted
  | reserved =>
    refine ⟨?_, accounted.proper⟩
    intro count
    have total := accounted.counts count
    simp only [Machine.withState, Machine.share, List.map_cons, List.sum_cons,
      charge_share] at total ⊢
    omega
  | released found =>
    have taken := taken_of_getElem? found
    refine ⟨?_, accounted.proper⟩
    intro count
    have total := accounted.counts count
    have back := release_share (accounted.file_le taken.mem) count
    have parts := taken.sum count.file
    simp only [Machine.withState, Machine.share] at total ⊢
    omega
  | @dispatched room =>
    refine ⟨?_, accounted.proper⟩
    intro count
    have total := accounted.counts count
    have charged := charge_share m.shared.st room count
    have slot : count.of (m.shared.st.charge room).enterFlight =
        count.of (m.shared.st.charge room) + Purpose.dispatch.slot count := by
      cases count <;> rfl
    simp only [Machine.withState, Machine.share, List.map_cons, List.sum_cons,
      Count.dispatch] at total ⊢
    omega
  | @dispatchReleased which room found =>
    have taken := taken_of_getElem? found
    have least := accounted.dispatch_le taken.mem
    refine ⟨?_, accounted.proper⟩
    intro count
    have total := accounted.counts count
    have file : ∀ count : Count, count.file room ≤ count.of m.shared.st := fun count =>
      (Nat.le_add_right _ _).trans (least count)
    have back := release_share file count
    have slot : count.of (m.shared.st.releaseDispatch room) + Purpose.dispatch.slot count =
        count.of (m.shared.st.release room) := by
      have one := least .inFlight
      cases count with
      | inFlight => exact Nat.sub_add_cancel one
      | _ => rfl
    have parts := taken.sum count.dispatch
    simp only [Machine.withState, Machine.share, Count.dispatch] at total parts ⊢
    omega
  | @heldEnded which held found =>
    have taken := taken_of_getElem? found
    have least := accounted.held_le taken.mem
    refine ⟨?_, accounted.proper⟩
    intro count
    have total := accounted.counts count
    have file : ∀ count : Count, count.file held.2 ≤ count.of m.shared.st := fun count =>
      (Nat.le_add_right _ _).trans (least count)
    have back := release_share file count
    have slot : count.of (m.shared.st.endHeld held.2) + Purpose.retry.slot count =
        count.of (m.shared.st.release held.2) := by
      have one := least .unsaved
      cases count with
      | unsaved => exact Nat.sub_add_cancel one
      | _ => rfl
    have parts := taken.sum count.held
    simp only [Machine.withState, Machine.share, Count.held] at total parts ⊢
    omega
  | acknowledged => exact accounted.withState (.transition _ _ _ _)
  | recovered => exact accounted.withState (.transition _ _ _ _)
  | continued => exact accounted.withState (.continueLifetime _ _ _)
  | written found =>
    refine ⟨?_, List.forall_mem_cons.mpr ⟨trivial, accounted.proper⟩⟩
    intro count
    have total := accounted.counts count
    have parts := (taken_of_getElem? found).sum count.file
    have absent : Purpose.report.slot count = 0 := by cases count <;> rfl
    simp only [Machine.share, List.map_cons, List.sum_cons, Call.share] at total ⊢
    omega
  | resultWritten found =>
    refine ⟨?_, List.forall_mem_cons.mpr ⟨trivial, accounted.proper⟩⟩
    intro count
    have total := accounted.counts count
    have parts := (taken_of_getElem? found).sum count.dispatch
    simp only [Machine.share, List.map_cons, List.sum_cons, Call.share,
      Count.dispatch] at total parts ⊢
    omega
  | heldWritten found =>
    refine ⟨?_, List.forall_mem_cons.mpr ⟨trivial, accounted.proper⟩⟩
    intro count
    have total := accounted.counts count
    have parts := (taken_of_getElem? found).sum count.held
    simp only [Machine.share, List.map_cons, List.sum_cons, Call.share,
      Count.held] at total parts ⊢
    omega
  | discards | sweeps | flushes => exact accounted.started trivial fun _ => rfl
  | adopts =>
    refine ⟨?_, accounted.proper⟩
    intro count
    have total := accounted.counts count
    cases count <;> exact total

theorem Accounted.step {m after : Machine} {event : Event} (accounted : Accounted m)
    (stepped : m.step event = some after) : Accounted after := by
  by_cases advances : ∃ which outcome pick, event = .advance which outcome pick
  · rcases advances with ⟨which, outcome, pick, rfl⟩
    exact accounted.advance stepped
  · exact accounted.begins (began_of stepped fun which outcome pick same =>
      advances ⟨which, outcome, pick, same⟩)

end AgentDeck.Retained
