import AgentDeck.Retained.Recount

/-!
# The store's bounds

Admission keeps the used bytes within the budget, the own files and reserved slots within the file
cap, and the dispatches in flight with the unsaved results within the fallback slots. Two sections
charge without asking: `save_held`, which takes a failed write's room back, and the accounting of a
write that leaves both of its names. In a run where the first finds its room still free and the
second does not happen, every bound holds in every state (`Bounded.step`).
-/

namespace AgentDeck.Retained

/-! ## Jobs of calls -/

def Call.job? : Call → Option Job
  | .create job | .fill job | .publish job | .link job | .removeAlias job | .removeTemp job =>
    some job
  | .syncDir job _ | .removeOwn job _ | .record job _ | .takeBack job | .settle job _ => some job
  | _ => none

theorem job?_after {job : Job} {saved : Bool} :
    ∀ later ∈ (job.after saved).calls, ∀ other ∈ later.job?, other = job := by
  rcases job with ⟨room, id, contents, wall, tag, purpose⟩
  cases purpose <;> cases saved <;> simp [Job.after, Next.calls, Call.job?]

theorem callStep_job? {sh after : Shared} {call : Call} {next : Next}
    (step : CallStep sh call after next) :
    ∀ later ∈ next.calls, ∀ job ∈ later.job?, job ∈ call.job? := by
  cases step with
  | recordedSaved | recordedFailed =>
    intro later mem job found
    rw [job?_after later mem job found]
    rfl
  | sweep swept =>
    rename_i later
    cases later <;> simp [sweepNext, Next.calls, Call.job?]
  | _ => simp [Next.calls, Call.job?]

/-! ## What one step does to the bounds -/

/-- The state of a call in which its next section keeps the bounds: room taken back is still free,
and a write that leaves its temporary name has not left its own name too. -/
def Call.fits (st : StoreState) : Call → Bool
  | .record _ (.saved stray) => stray.isNone
  | .record _ (.failed stray removed) => stray.isNone || removed
  | .takeBack job =>
    decide (st.usedBytes + job.room ≤ st.config.maxBytes) &&
      decide (st.usedSlots + 1 ≤ st.config.maxFiles)
  | _ => true

/-- The used bytes grow only within the budget, and the used slots only within the cap. -/
structure Within (st after : StoreState) : Prop where
  config : after.config = st.config
  bytes : after.usedBytes ≤ max st.usedBytes st.config.maxBytes
  slots : after.usedSlots ≤ max st.usedSlots st.config.maxFiles

theorem Within.of_le {st after : StoreState} (config : after.config = st.config)
    (bytes : after.usedBytes ≤ st.usedBytes) (slots : after.usedSlots ≤ st.usedSlots) :
    Within st after :=
  ⟨config, le_max_of_le_left bytes, le_max_of_le_left slots⟩

theorem Within.of_eases {walls : Set ℤ} {st after : StoreState} (eases : Eases walls st after)
    (reserved : after.reservedBytes ≤ st.reservedBytes)
    (slots : after.reservedSlots ≤ st.reservedSlots)
    (adopted : after.adoptedBytes ≤ st.adoptedBytes) : Within st after := by
  have own := eases.ownBytes
  have stray := eases.strayBytes
  have files := eases.files
  apply Within.of_le eases.config
  · simp only [StoreState.usedBytes]
    omega
  · simp only [StoreState.usedSlots]
    omega

theorem Within.of_same {walls : Set ℤ} {st after : StoreState} (eases : Eases walls st after)
    (rooms : SameRooms st after) (adopted : after.adoptedBytes ≤ st.adoptedBytes) :
    Within st after :=
  .of_eases eases (rooms.counts .bytes).le (rooms.counts .slots).le adopted

theorem Within.charge {st : StoreState} {room : ℕ}
    (bytes : st.usedBytes + room ≤ st.config.maxBytes)
    (slots : st.usedSlots + 1 ≤ st.config.maxFiles) : Within st (st.charge room) := by
  refine ⟨rfl, le_max_of_le_right ?_, le_max_of_le_right ?_⟩
  · simp only [StoreState.usedBytes, StoreState.charge, StoreState.strayBytes] at bytes ⊢
    omega
  · simp only [StoreState.usedSlots, StoreState.charge] at slots ⊢
    omega

theorem Within.recordSaved {st : StoreState} {job : Job} (bytes : job.room ≤ st.reservedBytes)
    (slots : 1 ≤ st.reservedSlots) (fits : job.contents.length ≤ job.room) :
    Within st (st.recordSaved job.room job.id.text job.contents.length job.wall none) := by
  have files := length_insert_le st.own job.name
    ⟨job.wall, job.contents.length, .pinned, Option.none⟩
  refine Within.of_le rfl ?_ ?_
  · simp only [StoreState.usedBytes, StoreState.recordSaved, StoreState.release,
      StoreState.strayBytes]
    omega
  · simp only [StoreState.usedSlots, StoreState.recordSaved, StoreState.release]
    simp only [Job.name] at files
    omega

theorem Within.recordFailed {st : StoreState} {job : Job} {stray : Option Name} {removed : Bool}
    (bytes : job.room ≤ st.reservedBytes) (slots : 1 ≤ st.reservedSlots)
    (single : stray = none ∨ removed) :
    Within st (st.recordFailed job.room job.id.text job.wall stray removed) := by
  have files := length_insert_le st.own job.name ⟨job.wall, job.room, .orphanUnlink, Option.none⟩
  simp only [Job.name] at files
  cases removed with
  | false =>
    have absent : stray = none := by
      rcases single with none | gone
      · exact none
      · cases gone
    subst absent
    refine Within.of_le rfl ?_ ?_
    · simp only [StoreState.usedBytes, StoreState.recordFailed, StoreState.release,
        StoreState.strayBytes, Bool.false_eq_true, ↓reduceIte]
      omega
    · simp only [StoreState.usedSlots, StoreState.recordFailed, StoreState.release,
        Bool.false_eq_true, ↓reduceIte]
      omega
  | true =>
    cases stray with
    | none =>
      refine Within.of_le rfl ?_ ?_
      · simp only [StoreState.usedBytes, StoreState.recordFailed, StoreState.release,
          StoreState.strayBytes, ↓reduceIte]
        omega
      · simp only [StoreState.usedSlots, StoreState.recordFailed, StoreState.release,
          ↓reduceIte]
        omega
    | some temp =>
      have charged := st.stray.total_insert (fun _ bytes => bytes) temp job.room
      refine Within.of_le rfl ?_ ?_
      · simp only [StoreState.usedBytes, StoreState.recordFailed, StoreState.release,
          StoreState.strayBytes, ↓reduceIte]
        omega
      · simp only [StoreState.usedSlots, StoreState.recordFailed, StoreState.release,
          ↓reduceIte]
        omega

theorem callStep_within {sh after : Shared} {call : Call} {next : Next}
    (step : CallStep sh call after next) (held : ∀ count : Count, call.share count ≤ count.of sh.st)
    (adopted : after.st.adoptedBytes ≤ sh.st.adoptedBytes)
    (roomy : ∀ job ∈ call.job?, job.contents.length ≤ job.room) (fits : call.fits sh.st) :
    Within sh.st after.st := by
  cases step with
  | recordedSaved =>
    have bytes : _ ≤ sh.st.reservedBytes := (Nat.le_add_right _ _).trans (held .bytes)
    have slots : 1 ≤ sh.st.reservedSlots := (Nat.le_add_right _ _).trans (held .slots)
    have absent := Option.isNone_iff_eq_none.mp fits
    subst absent
    exact .recordSaved bytes slots (roomy _ rfl)
  | recordedFailed =>
    have bytes : _ ≤ sh.st.reservedBytes := (Nat.le_add_right _ _).trans (held .bytes)
    have slots : 1 ≤ sh.st.reservedSlots := (Nat.le_add_right _ _).trans (held .slots)
    simp only [Call.fits, Bool.or_eq_true, Option.isNone_iff_eq_none] at fits
    exact .recordFailed bytes slots fits
  | retryTookBack retry | tookBack other =>
    simp only [Call.fits, Bool.and_eq_true, decide_eq_true_eq] at fits
    exact .charge fits.1 fits.2
  | discardSettled => exact .of_same (.settleDiscard ∅ _ _ _) (.settleDiscard _ _ _) adopted
  | sweep swept => exact .of_same (.sweep ∅ swept) (.sweep swept) adopted
  | _ => exact .of_le rfl le_rfl le_rfl

theorem share_flights {sh after : Shared} {call : Call} {next : Next}
    (step : CallStep sh call after next) (proper : call.Proper) :
    next.share .inFlight + next.share .unsaved ≤ call.share .inFlight + call.share .unsaved := by
  cases step with
  | recordedSaved =>
    rw [share_after, share_after]
    simp only [Call.share]
    omega
  | recordedFailed =>
    rw [share_after, share_after]
    simp only [Call.share, Count.file]
    omega
  | retryTookBack retry =>
    simp only [Next.share, Call.share, retry, Count.file, Purpose.slot]
    omega
  | tookBack other =>
    simp only [Next.share, Call.share, Count.file, Bool.false_eq_true, ↓reduceIte]
    omega
  | retrySettled retry => exact Nat.zero_le _
  | settledSaved other => exact Nat.zero_le _
  | sweep swept =>
    rw [share_sweepNext, share_sweepNext]
    exact Nat.zero_le _
  | settledHeld other =>
    simp only [Next.share, Call.share, Purpose.eq_dispatch proper.1 other, Count.file, Purpose.slot,
      Bool.false_eq_true]
    omega
  | _ => exact le_rfl

/-- What an event that takes no step of a call does to the counts. -/
inductive Moves (st : StoreState) : StoreState → Prop
  | same {after} (rooms : SameRooms st after) : Moves st after
  | reserved (room : ℕ) (bytes : st.usedBytes + room ≤ st.config.maxBytes)
      (slots : st.usedSlots + 1 ≤ st.config.maxFiles) : Moves st (st.charge room)
  | dispatched (room : ℕ) (bytes : st.usedBytes + room ≤ st.config.maxBytes)
      (slots : st.usedSlots + 1 ≤ st.config.maxFiles)
      (free : st.inFlight + st.unsaved < st.config.fallbackSlots) :
      Moves st (st.charge room).enterFlight
  | released (room : ℕ) : Moves st (st.release room)
  | dispatchReleased (room : ℕ) : Moves st (st.releaseDispatch room)
  | heldEnded (room : ℕ) : Moves st (st.endHeld room)

theorem moves_of {m after : Machine} {event : Event} (stepped : m.step event = some after)
    (begins : ∀ which outcome pick, event ≠ .advance which outcome pick) :
    Moves m.shared.st after.shared.st := by
  cases began_of stepped begins with
  | reserved inBytes inSlots => exact .reserved _ inBytes inSlots
  | released => exact .released _
  | dispatched inBytes inSlots free => exact .dispatched _ inBytes inSlots free
  | dispatchReleased => exact .dispatchReleased _
  | heldEnded => exact .heldEnded _
  | acknowledged => exact .same (.acknowledged _ _ _)
  | recovered => exact .same (.recovered _ _ _)
  | continued => exact .same (.continueLifetime _ _ _)
  | adopts => exact .same (.of_fields rfl rfl rfl rfl rfl)
  | _ => exact .same (.rfl' _)

/-- Slots and fallback slots in use, for the bounds that hold in every state. -/
structure Limited (st : StoreState) : Prop where
  slots : st.usedSlots ≤ st.config.maxFiles
  flights : st.inFlight + st.unsaved ≤ st.config.fallbackSlots

theorem Moves.flights {st after : StoreState} (moves : Moves st after)
    (few : st.inFlight + st.unsaved ≤ st.config.fallbackSlots) :
    after.inFlight + after.unsaved ≤ st.config.fallbackSlots := by
  cases moves with
  | same rooms =>
    have inFlight := rooms.counts .inFlight
    have unsaved := rooms.counts .unsaved
    simp only [Count.of] at inFlight unsaved
    omega
  | reserved room bytes slots => exact few
  | dispatched room bytes slots free =>
    simp only [StoreState.enterFlight, StoreState.charge]
    omega
  | released room => exact few
  | dispatchReleased room =>
    simp only [StoreState.releaseDispatch, StoreState.release]
    omega
  | heldEnded room =>
    simp only [StoreState.endHeld, StoreState.freeSlot, StoreState.release]
    omega

theorem Moves.bytes {walls : Set ℤ} {st after : StoreState} (moves : Moves st after)
    (eases : Eases walls st after) (adopted : after.adoptedBytes ≤ st.adoptedBytes) :
    after.usedBytes ≤ max st.usedBytes st.config.maxBytes := by
  cases moves with
  | same rooms => exact (Within.of_same eases rooms adopted).bytes
  | reserved room bytes slots => exact (Within.charge bytes slots).bytes
  | dispatched room bytes slots free => exact (Within.charge bytes slots).bytes
  | released room | heldEnded room =>
    exact (Within.of_eases eases (Nat.sub_le _ _) (Nat.sub_le _ _) adopted).bytes
  | dispatchReleased room =>
    exact (Within.of_eases eases (Nat.sub_le _ _) (Nat.sub_le _ _) adopted).bytes

theorem Moves.slots {walls : Set ℤ} {st after : StoreState} (moves : Moves st after)
    (eases : Eases walls st after) : after.usedSlots ≤ max st.usedSlots st.config.maxFiles := by
  have files := eases.files
  cases moves with
  | same rooms =>
    have slots := rooms.counts .slots
    simp only [Count.of] at slots
    simp only [StoreState.usedSlots]
    omega
  | reserved room bytes slots =>
    simp only [StoreState.usedSlots, StoreState.charge] at slots ⊢
    omega
  | dispatched room bytes slots free =>
    simp only [StoreState.usedSlots, StoreState.charge, StoreState.enterFlight] at slots ⊢
    omega
  | released room =>
    simp only [StoreState.usedSlots, StoreState.release]
    omega
  | dispatchReleased room =>
    simp only [StoreState.usedSlots, StoreState.releaseDispatch, StoreState.release]
    omega
  | heldEnded room =>
    simp only [StoreState.usedSlots, StoreState.endHeld, StoreState.freeSlot, StoreState.release]
    omega

/-! ## Runs in which every section finds its room -/

/-- The event finds the room it needs: contents fit their reservation, as `write` expects of its
callers, and the section that charges without asking is in order. -/
def Machine.withRoom (m : Machine) : Event → Bool
  | .write which _ contents _ _ =>
    m.reservations[which]?.all fun room => decide (contents.length ≤ room)
  | .dispatchResult which _ contents _ _ =>
    m.dispatches[which]?.all fun room => decide (contents.length ≤ room)
  | .retryHeld which _ contents _ _ =>
    m.held[which]?.all fun held => decide (contents.length ≤ held.2)
  | .advance which _ _ => m.calls[which]?.all fun call => call.fits m.shared.st
  | _ => true

/-- Every event of the run finds the room it needs. -/
def Machine.WithRoom (m : Machine) (event : Event) : Prop := m.withRoom event = true

structure Bounded (config : StoreConfig) (m : Machine) : Prop where
  config : m.shared.st.config = config
  limited : Limited m.shared.st
  accounted : Accounted m
  named : Named m
  recounts : Recounts m
  roomy : ∀ call ∈ m.calls, ∀ job ∈ call.job?, job.contents.length ≤ job.room

theorem bounded_new (run : Text) (config : StoreConfig) : Bounded config (.new run config) :=
  ⟨rfl, ⟨Nat.zero_le _, Nat.zero_le _⟩, accounted_new run config, named_new run config,
    recounts_new run config, fun _ mem => absurd mem List.not_mem_nil⟩

namespace Bounded

variable {config : StoreConfig} {m after : Machine}

theorem advance {which : ℕ} {outcome : Outcome} {pick : ℕ} (bounded : Bounded config m)
    (fits : m.WithRoom (.advance which outcome pick))
    (stepped : m.step (.advance which outcome pick) = some after) :
    Bounded config after ∧
      after.shared.st.usedBytes ≤ max m.shared.st.usedBytes config.maxBytes := by
  have accounted := bounded.accounted.step stepped
  have named := bounded.named.step stepped
  rcases bounded.recounts.advance bounded.named stepped with ⟨recounts, adopted⟩
  rcases advance_cases stepped with ⟨before, call, later, shared, next, calls, found, -, step, rfl⟩
  have mem : call ∈ m.calls := calls ▸ List.mem_append_right _ List.mem_cons_self
  have held := bounded.accounted.share_le mem
  have proper := bounded.accounted.proper call mem
  have fit : call.fits m.shared.st := by
    simp only [Machine.WithRoom, Machine.withRoom, found] at fits
    exact fits
  have within := callStep_within step held adopted (bounded.roomy call mem) fit
  have bounds := within.config.trans bounded.config
  have inFlight := callStep_share step proper held .inFlight
  have unsaved := callStep_share step proper held .unsaved
  have flights := share_flights step proper
  have limited := bounded.limited
  refine ⟨⟨bounds, ⟨?_, ?_⟩, accounted, named, recounts, ?_⟩, bounded.config ▸ within.bytes⟩
  · have slots := within.slots
    rw [max_eq_right limited.slots] at slots
    exact slots.trans_eq (congrArg StoreConfig.maxFiles within.config.symm)
  · have few := limited.flights
    have same : shared.st.config = m.shared.st.config := within.config
    have least := held .inFlight
    have most := held .unsaved
    simp only [Count.of] at inFlight unsaved least most
    simp only [same]
    omega
  · intro other inside job found
    simp only [List.mem_append] at inside
    rcases inside with inside | inside | inside
    · exact bounded.roomy other (mem_of_around calls (Or.inl inside)) job found
    · exact bounded.roomy call mem job (callStep_job? step other inside job found)
    · exact bounded.roomy other (mem_of_around calls (Or.inr inside)) job found

theorem begins {event : Event} (bounded : Bounded config m) (fits : m.WithRoom event)
    (begins : ∀ which outcome pick, event ≠ .advance which outcome pick)
    (stepped : m.step event = some after) :
    Bounded config after ∧ ((∀ name contents, event ≠ .adopt name contents) →
      after.shared.st.usedBytes ≤ max m.shared.st.usedBytes config.maxBytes) := by
  have started := begins_of stepped begins
  have moves := moves_of stepped begins
  have bounds := started.eases.config
  have limited := bounded.limited
  refine ⟨⟨bounds.trans bounded.config, ⟨?_, ?_⟩, bounded.accounted.step stepped,
    bounded.named.step stepped, bounded.recounts.begins started, ?_⟩, ?_⟩
  · have slots := moves.slots started.eases
    rw [max_eq_right limited.slots] at slots
    exact slots.trans_eq (congrArg StoreConfig.maxFiles bounds.symm)
  · exact (moves.flights limited.flights).trans_eq (congrArg StoreConfig.fallbackSlots bounds.symm)
  · rcases started.calls with ⟨new, calls, -, starts⟩
    intro call mem job found
    rw [calls] at mem
    rcases List.mem_append.mp mem with mem | mem
    · cases starts call mem with
      | write taken | dispatch taken | retry taken =>
        cases found
        simpa only [Machine.WithRoom, Machine.withRoom, taken, Option.all_some,
          decide_eq_true_eq] using fits
      | discard id => cases found
      | sweep now idle => cases found
      | flush => cases found
    · exact bounded.roomy call mem job found
  · intro own
    rcases started.files with ⟨-, same⟩ | ⟨name, contents, adopts, -⟩
    · exact bounded.config ▸ moves.bytes started.eases same.le
    · exact absurd adopts (own name contents)

theorem step {event : Event} (bounded : Bounded config m) (fits : m.WithRoom event)
    (stepped : m.step event = some after) :
    Bounded config after ∧ ((∀ name contents, event ≠ .adopt name contents) →
      after.shared.st.usedBytes ≤ max m.shared.st.usedBytes config.maxBytes) := by
  by_cases advances : ∃ which outcome pick, event = .advance which outcome pick
  · rcases advances with ⟨which, outcome, pick, rfl⟩
    rcases bounded.advance fits stepped with ⟨kept, bytes⟩
    exact ⟨kept, fun _ => bytes⟩
  · exact bounded.begins fits
      (fun which outcome pick same => advances ⟨which, outcome, pick, same⟩) stepped

end Bounded

end AgentDeck.Retained
