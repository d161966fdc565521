import AgentDeck.Retained.Covered

/-!
# The store's accounting is exact

In a run where every write has its own report id and its room, a retry has its held result's id, no
sweep runs beside a retry, and a discard never runs beside a write of its report, the store's sums
are the sums of what they count, and whenever no call is under way every file under an own or a
temporary name is charged at least its length. No section takes a count below zero.
-/

namespace AgentDeck.Retained

/-! ## The invariant -/

/-- `own_bytes` is the sum it says it is. -/
def StoreState.Summed (st : StoreState) : Prop :=
  st.ownBytes = st.own.total fun _ file => file.bytes

structure Exact (m : Machine) : Prop where
  accounted : Accounted m
  named : Named m
  roomy : ∀ call ∈ m.calls, ∀ job ∈ call.job?, job.contents.length ≤ job.room
  single : Single m
  apart : ∀ call ∈ m.calls, ∀ other ∈ m.calls, Apart call other
  fresh : ∀ call ∈ m.calls, ∀ job ∈ call.atWork?, job.purpose ≠ .retry →
    ∀ name, job.id.Names name →
      (m.shared.view name).own = none ∧ (m.shared.view name).stray = none
  sees : ∀ call ∈ m.calls, call.Sees m.shared
  covered : ∀ name, Covered m.shared (fun call => call ∈ m.calls) name
  summed : m.shared.st.Summed

variable {st : StoreState}

theorem StoreState.Summed.of_charges {after : StoreState} (summed : st.Summed)
    (charges : SameCharges st after) (bytes : after.ownBytes = st.ownBytes) : after.Summed := by
  rw [StoreState.Summed, bytes, summed]
  exact SortedMap.total_congr fun name => (charges name).symm

theorem StoreState.Summed.dropOwn (summed : st.Summed) (name : Name) :
    (st.dropOwn name).Summed := by
  have parts := st.own.total_erase (fun _ file => file.bytes) name
  simp only [StoreState.Summed] at summed ⊢
  rw [dropOwn_own]
  simp only [StoreState.dropOwn]
  split
  · rename_i file found
    rw [found, Option.map_some, Option.getD_some] at parts
    simp only [summed]
    omega
  · rename_i absent
    rw [absent, Option.map_none, Option.getD_none] at parts
    omega

variable {name : Name}

theorem own_le_of_summed (summed : st.Summed) {file : OwnFile}
    (found : st.own.get? name = some file) : file.bytes ≤ st.ownBytes := by
  have parts := st.own.total_erase (fun _ file => file.bytes) name
  rw [found, Option.map_some, Option.getD_some, ← summed] at parts
  omega

theorem StoreState.Summed.insert (summed : st.Summed) (absent : st.own.get? name = none)
    (file : OwnFile) :
    st.ownBytes + file.bytes = (st.own.insert name file).total fun _ file => file.bytes := by
  have parts := st.own.total_insert (fun _ file => file.bytes) name file
  rw [absent, Option.map_none, Option.getD_none] at parts
  rw [summed]
  omega

variable {call : Call}

theorem callStep_summed {sh after : Shared} {next : Next} (step : CallStep sh call after next)
    (sees : call.Sees sh) (summed : sh.st.Summed) : after.st.Summed := by
  have absent : ∀ job ∈ call.answersOwn?, sh.st.own.get? job.name = none := by
    intro job found
    have unlisted := (sees.own job found).1
    simpa only [Shared.view, Option.map_eq_none_iff] using unlisted
  cases step with
  | recordedSaved =>
    rename_i job stray
    exact StoreState.Summed.insert summed (absent job rfl) ⟨job.wall, job.contents.length,
      .pinned, none⟩
  | recordedFailed =>
    rename_i job stray removed
    cases removed with
    | true =>
      refine summed.of_charges (fun name => by rw [recordFailed_own]; rfl) ?_
      cases stray <;> rfl
    | false =>
      have entered := StoreState.Summed.insert summed (absent job rfl)
        ⟨job.wall, job.room, .orphanUnlink, none⟩
      cases stray <;> exact entered
  | discardSettled =>
    rename_i id removed
    cases removed with
    | true => exact summed.dropOwn _
    | false =>
      refine summed.of_charges (orphaned_charges _ _) ?_
      simp only [StoreState.settleDiscard, Bool.false_eq_true, ↓reduceIte]
      split <;> rfl
  | sweep swept =>
    cases swept with
    | claimed found due =>
      refine summed.of_charges (claim_charges _ _ _) ?_
      simp only [StoreState.claim]
      split
      · split <;> rfl
      · rfl
    | ownDropped => exact summed.dropOwn _
    | recounted =>
      simp only [StoreState.publishRecount]
      split <;> exact summed
    | _ => exact summed
  | _ => exact summed

/-! ## A step of a call -/

section Advance

variable {m : Machine} {before later : List Call} {call : Call} {shared : Shared} {next : Next}

theorem Exact.touchless (precise : Exact m) (calls : m.calls = before ++ call :: later)
    {other : Call} (mem : other ∈ before ∨ other ∈ later) {job : Job} (work : job ∈ other.atWork?)
    {name : Name} (names : job.id.Names name) : ¬ call.Touches name := by
  have inside := mem_of_around calls mem
  have mine : call ∈ m.calls := calls ▸ List.mem_append_right _ List.mem_cons_self
  apply (precise.apart other inside call mine).untouched work _ names
  intro held found same
  exact precise.single.others calls found mem (job?_of_atWork? work) same.symm

theorem Exact.sees_other (precise : Exact m) (calls : m.calls = before ++ call :: later)
    (step : CallStep m.shared call shared next) {other : Call}
    (mem : other ∈ before ∨ other ∈ later) : other.Sees shared := by
  have mine : call ∈ m.calls := calls ▸ List.mem_append_right _ List.mem_cons_self
  have inside := mem_of_around calls mem
  have view : ∀ job ∈ other.atWork?, ∀ name, job.id.Names name →
      shared.view name = m.shared.view name := fun job work name names =>
    callStep_view step (precise.named.calls call mine) (precise.touchless calls mem work names)
  have sees := precise.sees other inside
  constructor
  · intro job found
    rw [view job (atWork?_of_answersOwn? found) _ (job.names (Or.inl rfl))]
    exact sees.own job found
  · intro job found
    rw [view job (atWork?_of_answersTemp? found) _ (job.names (Or.inr rfl))]
    exact sees.temp job found
  · intro name dropped
    rcases callStep_stays_gone step (sees.gone name dropped) with gone | ⟨job, work, same⟩
    · exact gone
    · exact absurd dropped
        ((precise.apart call mine other inside).not_dropped work (job.names same))

theorem Exact.covered_advance (precise : Exact m) (calls : m.calls = before ++ call :: later)
    (step : CallStep m.shared call shared next) (name : Name) :
    Covered shared (Beside next.calls fun other => other ∈ before ∨ other ∈ later) name := by
  have mine : call ∈ m.calls := calls ▸ List.mem_append_right _ List.mem_cons_self
  have named := precise.named.calls call mine
  have sees := precise.sees call mine
  have filed := callStep_filed step precise.named.filed named
  have covered : Covered m.shared (Beside [call] fun other => other ∈ before ∨ other ∈ later)
      name := by
    refine (precise.covered name).mono fun other inside => ?_
    rw [calls] at inside
    rcases List.mem_append.mp inside with inside | inside
    · exact Or.inr (Or.inl inside)
    · rcases List.mem_cons.mp inside with rfl | inside
      · exact Or.inl List.mem_cons_self
      · exact Or.inr (Or.inr inside)
  by_cases touched : call.Touches name
  · rcases touched with ⟨job, work, rfl | rfl⟩ | ⟨id, found, rfl⟩ | listed | ⟨sweeps, adopted⟩
    · exact callStep_covered_own step work named sees
        (precise.roomy call mine job (job?_of_atWork? work)) covered
    · exact callStep_covered_temp step work named sees
        (precise.roomy call mine job (job?_of_atWork? work)) filed covered
    · exact callStep_covered_discard step found sees covered
    · by_cases adopted : parseAdoptedName name = none
      · cases step with
        | sweep swept =>
          exact sweepStep_covered swept named precise.named.filed sees adopted covered
        | _ => cases listed
      · exact covered_adopted filed adopted
    · exact covered_adopted filed adopted
  · apply covered.goes_on (callStep_view step named touched)
    · intro job found same
      exact absurd (Or.inl ⟨job, atWork?_of_answersOwn? found, Or.inl same⟩) touched
    · intro job found same
      exact absurd (Or.inl ⟨job, atWork?_of_answersTemp? found, Or.inr same⟩) touched
    · intro found
      exact absurd (Call.drops_touches found) touched

end Advance

variable {m after : Machine}

theorem Exact.advance {which : ℕ} {outcome : Outcome} {pick : ℕ} (precise : Exact m)
    (stepped : m.step (.advance which outcome pick) = some after) : Exact after := by
  have accounted := precise.accounted.step stepped
  have named := precise.named.step stepped
  have single : Single after := fun id => (Single.advance stepped id).trans (precise.single id)
  rcases advance_cases stepped with ⟨before, call, later, shared, next, calls, -, -, step, rfl⟩
  have mine : call ∈ m.calls := calls ▸ List.mem_append_right _ List.mem_cons_self
  have others : ∀ other, other ∈ before ∨ other ∈ later → other ∈ m.calls :=
    fun _ => mem_of_around calls
  have split : ∀ other, other ∈ before ++ (next.calls ++ later) →
      other ∈ next.calls ∨ (other ∈ before ∨ other ∈ later) := by
    intro other mem
    simp only [List.mem_append] at mem
    rcases mem with mem | mem | mem
    · exact Or.inr (Or.inl mem)
    · exact Or.inl mem
    · exact Or.inr (Or.inr mem)
  have free : ∀ job ∈ call.atWork?, (m.shared.view job.name).file = none →
      (m.shared.view job.name).own = none := by
    intro job work gone
    by_contra listed
    rcases (precise.covered job.name).present listed with there | ⟨other, mem, dropped⟩
    · exact there gone
    · exact (precise.apart call mine other mem).not_dropped work (job.names (Or.inl rfl)) dropped
  refine ⟨accounted, named, ?_, single, ?_, ?_, ?_, ?_, ?_⟩
  · intro other mem job found
    rcases split other mem with mem | mem
    · exact precise.roomy call mine job (callStep_job? step other mem job found)
    · exact precise.roomy other (others other mem) job found
  · -- Calls under way keep apart: the call that moved has the job, the report and the lists it had.
    intro first firstMem second secondMem
    have origin : ∃ old ∈ m.calls, ∀ job ∈ first.atWork?, job ∈ old.atWork? := by
      rcases split first firstMem with mem | mem
      · exact ⟨call, mine, fun job found => (callStep_atWork? step first mem job found).1⟩
      · exact ⟨first, others first mem, fun job found => found⟩
    rcases origin with ⟨old, oldMem, work⟩
    rcases split second secondMem with mem | mem
    · have apart := precise.apart old oldMem call mine
      constructor
      · intro job found id discards
        exact apart.discards job (work job found) id
          (callStep_discards? step second mem id discards)
      · intro job found sweeps
        have sweeping : call.isSweep := by
          by_contra other
          rw [Bool.not_eq_true] at other
          rw [isSweep_next step other second mem] at sweeps
          cases sweeps
        have kept := apart.lists job (work job found) sweeping
        refine ⟨kept.1, fun name listed names => ?_⟩
        rcases callStep_lists step second mem name listed with inside | ⟨-, stray⟩
        · exact kept.2 name inside names
        · exact stray (precise.fresh old oldMem job (work job found) kept.1 name names).2
    · have apart := precise.apart old oldMem second (others second mem)
      exact ⟨fun job found => apart.discards job (work job found),
        fun job found => apart.lists job (work job found)⟩
  · intro other mem job found first name names
    rcases split other mem with mem | mem
    · rcases callStep_atWork? step other mem job found with ⟨work, same⟩
      have old := precise.fresh call mine job work first name names
      simp only [Shared.view, same] at old ⊢
      exact old
    · rw [callStep_view step (precise.named.calls call mine)
        (precise.touchless calls mem found names)]
      exact precise.fresh other (others other mem) job found first name names
  · intro other mem
    rcases split other mem with mem | mem
    · exact callStep_sees step (precise.sees call mine) free other mem
    · exact precise.sees_other calls step mem
  · intro name
    refine (precise.covered_advance calls step name).mono fun other mem => ?_
    simp only [List.mem_append]
    rcases mem with mem | mem | mem
    · exact Or.inr (Or.inl mem)
    · exact Or.inl mem
    · exact Or.inr (Or.inr mem)
  · exact callStep_summed step (precise.sees call mine) precise.summed

/-! ## Orderly runs -/

theorem Call.drops_named (named : call.Named) (dropped : name ∈ call.drops?) :
    parseAdoptedName name = none := by
  cases call with
  | sweep now start point =>
    cases point with
    | dropOwn own rest =>
      cases dropped
      exact named.1.parseAdoptedName
    | dropStray temp rest =>
      cases dropped
      exact named.1.parseAdoptedName
    | _ => cases dropped
  | settleDiscard id removed =>
    cases removed with
    | false => cases dropped
    | true =>
      cases dropped
      exact parseAdoptedName_ownName id
  | _ => cases dropped

def Event.firstOf? : Event → Option ReportId
  | .write _ id _ _ _ | .dispatchResult _ id _ _ _ => some id
  | _ => none

def Call.discards (id : ReportId) (call : Call) : Bool :=
  call.discards?.any fun other => decide (other = id)

def Call.retries (call : Call) : Bool := call.job?.any fun job => decide (job.purpose = .retry)

/-- Contents fit their reservation, and a retry has its held result's id and runs beside no
sweep. -/
def Machine.fits (m : Machine) : Event → Bool
  | .write which _ contents _ _ =>
    m.reservations[which]?.all fun room => decide (contents.length ≤ room)
  | .dispatchResult which _ contents _ _ =>
    m.dispatches[which]?.all fun room => decide (contents.length ≤ room)
  | .retryHeld which id contents _ _ =>
    (m.held[which]?.all fun held => decide (held.1 = id) && decide (contents.length ≤ held.2)) &&
      !m.sweeping
  | .sweep _ => !m.calls.any Call.retries
  | _ => true

/-- A discard is of a report whose write has ended. -/
def Machine.unhurried (m : Machine) : Event → Bool
  | .write _ id _ _ _ | .dispatchResult _ id _ _ _ | .retryHeld _ id _ _ _ =>
    !m.calls.any (Call.discards id)
  | .discard id => !m.calls.any (Call.writes id)
  | _ => true

/-- What the store's callers keep to. -/
def Machine.orderly (m : Machine) (event : Event) : Bool := m.fits event && m.unhurried event

def Machine.Orderly (m : Machine) (event : Event) : Prop := m.orderly event = true

theorem Machine.fits_of_orderly {m : Machine} {event : Event} (orderly : m.Orderly event) :
    m.fits event := Bool.and_elim_left orderly

theorem Machine.unhurried_of_orderly {m : Machine} {event : Event} (orderly : m.Orderly event) :
    m.unhurried event := Bool.and_elim_right orderly

def written (events : List Event) : List ReportId := events.filterMap Event.firstOf?

structure Unused (id : ReportId) (m : Machine) : Prop where
  view : ∀ name, id.Names name → m.shared.view name = ⟨none, none, none⟩
  holders : m.holders id = 0
  lists : ∀ call ∈ m.calls, ∀ name ∈ call.lists, ¬ id.Names name

variable {event : Event}

theorem begins_view (stepped : m.step event = some after)
    (begins : ∀ which outcome pick, event ≠ .advance which outcome pick) :
    SameCharges m.shared.st after.shared.st ∧
      after.shared.st.ownBytes = m.shared.st.ownBytes ∧
        after.shared.st.stray = m.shared.st.stray := by
  cases began_of stepped begins with
  | acknowledged id now =>
    refine ⟨transition_charges _ _ _ _, ?_, ?_⟩
    · simp only [StoreState.acknowledged, StoreState.transition]
      split
      · split <;> rfl
      · rfl
    · simp only [StoreState.acknowledged, StoreState.transition]
      split
      · split <;> rfl
      · rfl
  | recovered id now =>
    refine ⟨transition_charges _ _ _ _, ?_, ?_⟩
    · simp only [StoreState.recovered, StoreState.transition]
      split
      · split <;> rfl
      · rfl
    · simp only [StoreState.recovered, StoreState.transition]
      split
      · split <;> rfl
      · rfl
  | continued id life =>
    refine ⟨continueLifetime_charges _ _ _, ?_⟩
    cases life with
    | referenced => exact ⟨rfl, rfl⟩
    | acknowledged since | recovered since =>
      simp only [StoreState.continueLifetime]
      split
      · split <;> exact ⟨rfl, rfl⟩
      · exact ⟨rfl, rfl⟩
  | _ => exact ⟨fun _ => rfl, rfl, rfl⟩

theorem begins_same_view (stepped : m.step event = some after)
    (begins : ∀ which outcome pick, event ≠ .advance which outcome pick)
    (other : parseAdoptedName name = none) : after.shared.view name = m.shared.view name := by
  rcases begins_view stepped begins with ⟨charges, -, stray⟩
  have started := begins_of stepped begins
  have dir : after.shared.dir.get? name = m.shared.dir.get? name := by
    rcases started.files with ⟨same, -⟩ | ⟨adopted, contents, -, adopts⟩
    · rw [same]
    · rw [adopts.dir]
      apply get?_insert_ne
      rintro rfl
      exact adopts.adopted other
  simp only [Shared.view, dir, charges name, stray]

theorem countP_held_eraseIdx {held : List (ReportId × ℕ)} {which : ℕ} {entry : ReportId × ℕ}
    (found : held[which]? = some entry) (holds : ReportId × ℕ → Bool) :
    (held.eraseIdx which).countP holds + (if holds entry then 1 else 0) = held.countP holds := by
  rcases taken_of_getElem? found with ⟨before, after, list, rest⟩
  rw [rest, list, List.countP_append, List.countP_append, List.countP_cons]
  omega

theorem begins_holders (orderly : m.Orderly event) (stepped : m.step event = some after)
    (begins : ∀ which outcome pick, event ≠ .advance which outcome pick) (id : ReportId) :
    after.holders id ≤ m.holders id + if event.firstOf? = some id then 1 else 0 := by
  cases began_of stepped begins with
  | heldEnded found =>
    have fewer := countP_held_eraseIdx found fun held => decide (held.1 = id)
    simp only [Machine.holders, Machine.withState]
    omega
  | written | resultWritten =>
    simp only [Machine.holders, List.countP_cons, Call.writes, Call.job?, Option.any_some,
      decide_eq_true_eq, Event.firstOf?, Option.some.injEq]
    omega
  | heldWritten found =>
    have fewer := countP_held_eraseIdx found fun held => decide (held.1 = id)
    simp only [Machine.Orderly, Machine.orderly, Machine.fits, Machine.unhurried, found,
      Option.all_some, Bool.and_eq_true, decide_eq_true_eq] at orderly
    simp only [Machine.holders, List.countP_cons, Call.writes, Call.job?, Option.any_some,
      decide_eq_true_eq] at fewer ⊢
    rw [orderly.1.1.1] at fewer
    omega
  | _ => exact Nat.le_add_right _ _

variable {id : ReportId}

theorem callStep_discard_nothing {sh after : Shared} {next : Next}
    (step : CallStep sh call after next) (discards : id ∈ call.discards?)
    (nothing : sh.view (ownName id.text) = ⟨none, none, none⟩) :
    after.view (ownName id.text) = ⟨none, none, none⟩ := by
  simp only [Shared.view, View.mk.injEq, Option.map_eq_none_iff] at nothing ⊢
  rcases nothing with ⟨gone, unlisted, stray⟩
  cases step with
  | discarded =>
    cases discards
    exact ⟨get?_erase_self _ _, unlisted, stray⟩
  | nothingToDiscard absent => exact ⟨gone, unlisted, stray⟩
  | notDiscarded => exact ⟨gone, unlisted, stray⟩
  | discardSettled =>
    cases discards
    rename_i removed
    cases removed with
    | true =>
      refine ⟨gone, ?_, ?_⟩
      · change ((sh.st.dropOwn _).own.get? _) = none
        rw [dropOwn_own, get?_erase_self]
      · change ((sh.st.dropOwn _).stray.get? _) = none
        rw [dropOwn_stray]
        exact stray
    | false =>
      simp only [StoreState.settleDiscard, Bool.false_eq_true, ↓reduceIte, unlisted]
      exact ⟨gone, trivial, stray⟩
  | _ => cases discards

theorem Unused.advance {which : ℕ} {outcome : Outcome} {pick : ℕ} (unused : Unused id m)
    (named : Named m) (stepped : m.step (.advance which outcome pick) = some after) :
    Unused id after := by
  have holders := Single.advance stepped id
  rcases advance_cases stepped with ⟨before, call, later, shared, next, calls, -, -, step, rfl⟩
  have mine : call ∈ m.calls := calls ▸ List.mem_append_right _ List.mem_cons_self
  refine ⟨?_, ?_, ?_⟩
  · intro name names
    by_cases touched : call.Touches name
    · rcases touched with ⟨job, work, same⟩ | ⟨other, found, rfl⟩ | listed | ⟨-, adopted⟩
      · have held : call.writes id := by
          rw [names.eq (job.names same)]
          exact writes_of_job? (job?_of_atWork? work)
        have positive := List.countP_pos_iff.mpr ⟨call, mine, held⟩
        have absent := unused.holders
        simp only [Machine.holders] at absent
        omega
      · exact callStep_discard_nothing step found (unused.view _ names)
      · exact absurd names (unused.lists call mine name listed)
      · exact absurd names.parseAdoptedName adopted
    · exact (callStep_view step (named.calls call mine) touched).trans (unused.view name names)
  · have absent := unused.holders
    omega
  · intro other mem name listed names
    simp only [List.mem_append] at mem
    rcases mem with mem | mem | mem
    · exact unused.lists other (mem_of_around calls (Or.inl mem)) name listed names
    · rcases callStep_lists step other mem name listed with inside | ⟨-, stray⟩
      · exact unused.lists call mine name inside names
      · rw [unused.view name names] at stray
        exact stray rfl
    · exact unused.lists other (mem_of_around calls (Or.inr mem)) name listed names

theorem Start.lists (starts : Start m event call) (listed : name ∈ call.lists) :
    (m.shared.view name).own ≠ none := by
  cases starts with
  | sweep now idle =>
    rcases List.mem_map.mp listed with ⟨⟨own, file⟩, inside, rfl⟩
    have found := (m.shared.st.own.get?_eq_some_iff own file).mpr inside
    simp only [Shared.view, found, Option.map_some, ne_eq, reduceCtorEq, not_false_eq_true]
  | _ => cases listed

theorem Unused.begins (unused : Unused id m) (orderly : m.Orderly event)
    (other : event.firstOf? ≠ some id)
    (begins : ∀ which outcome pick, event ≠ .advance which outcome pick)
    (stepped : m.step event = some after) : Unused id after := by
  have holders := begins_holders orderly stepped begins id
  rcases (begins_of stepped begins).calls with ⟨new, calls, -, starts⟩
  refine ⟨?_, ?_, ?_⟩
  · intro name names
    exact (begins_same_view stepped begins names.parseAdoptedName).trans (unused.view name names)
  · have absent := unused.holders
    rw [if_neg other] at holders
    omega
  · intro call mem name listed names
    rw [calls] at mem
    rcases List.mem_append.mp mem with mem | mem
    · have own := (starts call mem).lists listed
      rw [unused.view name names] at own
      exact own rfl
    · exact unused.lists call mem name listed names

theorem not_any {calls : List Call} {holds : Call → Bool} (absent : (!calls.any holds)) :
    ∀ call ∈ calls, holds call = false := by
  simpa only [Bool.not_eq_true', List.any_eq_false, Bool.not_eq_true] using absent

theorem Start.atWork (starts : Start m event call) (orderly : m.Orderly event) {job : Job}
    (work : job ∈ call.atWork?) :
    job.contents.length ≤ job.room ∧ (∀ other ∈ m.calls, other.discards job.id = false) ∧
      ((event.firstOf? = some job.id ∧ job.purpose ≠ .retry) ∨
        (job.purpose = .retry ∧ m.sweeping = false)) := by
  cases starts with
  | write found | dispatch found =>
    cases work
    simp only [Machine.Orderly, Machine.orderly, Machine.fits, Machine.unhurried, found,
      Option.all_some, Bool.and_eq_true, decide_eq_true_eq] at orderly
    refine ⟨orderly.1, not_any orderly.2, Or.inl ⟨rfl, ?_⟩⟩
    intro same
    cases same
  | retry found =>
    cases work
    simp only [Machine.Orderly, Machine.orderly, Machine.fits, Machine.unhurried, found,
      Option.all_some, Bool.and_eq_true, decide_eq_true_eq, Bool.not_eq_true'] at orderly
    refine ⟨orderly.1.1.2, ?_, Or.inr ⟨rfl, orderly.1.2⟩⟩
    exact not_any (by simpa only [Bool.not_eq_true'] using orderly.2)
  | _ => cases work

theorem Start.sees (starts : Start m event call) (sh : Shared) : call.Sees sh := by
  cases starts with
  | _ => exact .nothing rfl rfl rfl

theorem discards_of_mem (found : id ∈ call.discards?) : call.discards id := by
  rw [Call.discards, Option.mem_def.mp found, Option.any_some, decide_eq_true_eq]

theorem sweeping_of_mem (mem : call ∈ m.calls) (sweeps : call.isSweep) : m.sweeping :=
  List.any_eq_true.mpr ⟨call, mem, sweeps⟩

theorem Exact.apart_started {started : Call} (precise : Exact m) (orderly : m.Orderly event)
    (mem : call ∈ m.calls) (starts : Start m event started) : Apart call started := by
  constructor
  · intro job work id found same
    cases starts with
    | discard other =>
      cases found
      have idle := not_any (Machine.unhurried_of_orderly orderly) call mem
      rw [same, writes_of_job? (job?_of_atWork? work)] at idle
      cases idle
    | _ => cases found
  · intro job work sweeps
    cases starts with
    | sweep now idle =>
      have first : job.purpose ≠ .retry := by
        intro retry
        have absent := not_any (Machine.fits_of_orderly orderly) call mem
        rw [Call.retries, Option.mem_def.mp (job?_of_atWork? work), Option.any_some,
          retry] at absent
        cases absent
      refine ⟨first, fun name listed names => ?_⟩
      exact (Start.sweep now idle).lists listed
        (precise.fresh call mem job work first name names).1
    | _ => cases sweeps

theorem Exact.apart_starting {started : Call} (orderly : m.Orderly event)
    (new : ∀ id, event.firstOf? = some id → Unused id m) (mem : call ∈ m.calls)
    (starts : Start m event started) : Apart started call := by
  constructor
  · intro job work id found same
    have idle := (starts.atWork orderly work).2.1 call mem
    rw [← same, discards_of_mem found] at idle
    cases idle
  · intro job work sweeps
    rcases (starts.atWork orderly work).2.2 with ⟨first, other⟩ | ⟨retry, idle⟩
    · exact ⟨other, (new job.id first).lists call mem⟩
    · rw [sweeping_of_mem mem sweeps] at idle
      cases idle

theorem Exact.begins (precise : Exact m) (orderly : m.Orderly event)
    (new : ∀ id, event.firstOf? = some id → Unused id m)
    (begins : ∀ which outcome pick, event ≠ .advance which outcome pick)
    (stepped : m.step event = some after) : Exact after := by
  have holders := begins_holders orderly stepped begins
  rcases begins_view stepped begins with ⟨charges, bytes, stray⟩
  have view : ∀ {name : Name}, parseAdoptedName name = none →
      after.shared.view name = m.shared.view name := begins_same_view stepped begins
  have accounted := precise.accounted.step stepped
  have named := precise.named.step stepped
  rcases (begins_of stepped begins).calls with ⟨started, calls, few, starts⟩
  have split : ∀ call, call ∈ after.calls → call ∈ started ∨ call ∈ m.calls := by
    intro call mem
    rw [calls] at mem
    exact List.mem_append.mp mem
  -- An event starts one call at most.
  have alone : ∀ first ∈ started, ∀ second ∈ started, second = first := by
    intro first firstMem second secondMem
    cases started with
    | nil => cases firstMem
    | cons head tail =>
      cases tail with
      | nil => rw [List.mem_singleton.mp firstMem, List.mem_singleton.mp secondMem]
      | cons other rest => simp only [List.length_cons] at few; omega
  refine ⟨accounted, named, ?_, ?_, ?_, ?_, ?_, ?_, precise.summed.of_charges charges bytes⟩
  · intro call mem job found
    rcases split call mem with mem | mem
    · cases starts call mem with
      | write taken =>
        cases found
        exact ((Start.write taken).atWork orderly rfl).1
      | dispatch taken =>
        cases found
        exact ((Start.dispatch taken).atWork orderly rfl).1
      | retry taken =>
        cases found
        exact ((Start.retry taken).atWork orderly rfl).1
      | _ => cases found
    · exact precise.roomy call mem job found
  · intro id
    have more := holders id
    by_cases first : event.firstOf? = some id
    · rw [if_pos first, (new id first).holders] at more
      exact more
    · rw [if_neg first] at more
      exact more.trans (precise.single id)
  · intro call callMem other otherMem
    rcases split call callMem with mem | mem
    · rcases split other otherMem with inside | inside
      · rw [alone call mem other inside]
        cases starts call mem with
        | write found | dispatch found | retry found =>
          exact ⟨fun _ _ _ id => (of_none id), fun _ _ sweeps => absurd sweeps Bool.false_ne_true⟩
        | _ => exact ⟨fun _ work => (of_none work), fun _ work => (of_none work)⟩
      · exact Exact.apart_starting orderly new inside (starts call mem)
    · rcases split other otherMem with inside | inside
      · exact precise.apart_started orderly mem (starts other inside)
      · exact precise.apart call mem other inside
  · intro call mem job work first name names
    rw [view names.parseAdoptedName]
    rcases split call mem with mem | mem
    · rcases ((starts call mem).atWork orderly work).2.2 with ⟨written, -⟩ | ⟨retry, -⟩
      · rw [(new job.id written).view name names]
        exact ⟨rfl, rfl⟩
      · exact absurd retry first
    · exact precise.fresh call mem job work first name names
  · intro call mem
    rcases split call mem with mem | mem
    · exact (starts call mem).sees _
    · have sees := precise.sees call mem
      constructor
      · intro job found
        rw [view job.isOwn.parseAdoptedName]
        exact sees.own job found
      · intro job found
        rw [view job.isTemp.parseAdoptedName]
        exact sees.temp job found
      · intro name dropped
        rw [view]
        · exact sees.gone name dropped
        · exact Call.drops_named (precise.named.calls call mem) dropped
  · intro name
    by_cases adopted : parseAdoptedName name = none
    · apply (precise.covered name).same (view adopted)
      · intro call mem job found same
        exact ⟨call, calls ▸ List.mem_append_right _ mem, job, found, same⟩
      · intro call mem job found same
        exact ⟨call, calls ▸ List.mem_append_right _ mem, job, found, same⟩
      · intro call mem found
        exact ⟨call, calls ▸ List.mem_append_right _ mem, found⟩
    · exact covered_adopted named.filed adopted

/-! ## Whole runs -/

/-- No subtraction of the event's section stops at zero. -/
def Machine.Unsaturated (m : Machine) : Event → Prop
  | .release which => ∀ room ∈ m.reservations[which]?,
      room ≤ m.shared.st.reservedBytes ∧ 1 ≤ m.shared.st.reservedSlots
  | .releaseDispatch which => ∀ room ∈ m.dispatches[which]?,
      room ≤ m.shared.st.reservedBytes ∧ 1 ≤ m.shared.st.reservedSlots ∧
        1 ≤ m.shared.st.inFlight
  | .endHeld which => ∀ held ∈ m.held[which]?,
      held.2 ≤ m.shared.st.reservedBytes ∧ 1 ≤ m.shared.st.reservedSlots ∧
        1 ≤ m.shared.st.unsaved
  | .advance which _ _ => ∀ call ∈ m.calls[which]?,
      match call with
      | .record job _ => job.room ≤ m.shared.st.reservedBytes ∧ 1 ≤ m.shared.st.reservedSlots
      | .settle job _ =>
        if job.purpose = .retry then 1 ≤ m.shared.st.unsaved else 1 ≤ m.shared.st.inFlight
      | .settleDiscard id true => ∀ file ∈ m.shared.st.own.get? (ownName id.text),
          file.bytes ≤ m.shared.st.ownBytes
      | .sweep _ _ (.dropOwn name _) => ∀ file ∈ m.shared.st.own.get? name,
          file.bytes ≤ m.shared.st.ownBytes
      | _ => True
  | _ => True

theorem Exact.unsaturated (precise : Exact m) (event : Event) : m.Unsaturated event := by
  cases event with
  | release which =>
    intro room found
    have mem := List.mem_of_getElem? found
    exact ⟨precise.accounted.file_le mem .bytes, precise.accounted.file_le mem .slots⟩
  | releaseDispatch which =>
    intro room found
    have mem := List.mem_of_getElem? found
    exact ⟨precise.accounted.dispatch_le mem .bytes, precise.accounted.dispatch_le mem .slots,
      precise.accounted.dispatch_le mem .inFlight⟩
  | endHeld which =>
    intro held found
    have mem := List.mem_of_getElem? found
    exact ⟨precise.accounted.held_le mem .bytes, precise.accounted.held_le mem .slots,
      precise.accounted.held_le mem .unsaved⟩
  | advance which outcome pick =>
    intro call found
    have mem := List.mem_of_getElem? found
    have share := precise.accounted.share_le mem
    cases call with
    | record job written =>
      exact ⟨(Nat.le_add_right _ _).trans (share .bytes),
        (Nat.le_add_right _ _).trans (share .slots)⟩
    | settle job saved =>
      have proper := precise.accounted.proper _ mem
      by_cases retry : job.purpose = .retry
      · have held := share .unsaved
        simp only [Call.share, retry, Purpose.slot, Count.of] at held
        simp only [retry, ↓reduceIte]
        omega
      · have held := share .inFlight
        simp only [Call.share, Purpose.eq_dispatch proper.1 retry, Purpose.slot,
          Count.of] at held
        simp only [retry, ↓reduceIte]
        omega
    | settleDiscard id removed =>
      cases removed with
      | true => exact fun file found => own_le_of_summed precise.summed found
      | false => trivial
    | sweep now start point =>
      cases point with
      | dropOwn name rest => exact fun file found => own_le_of_summed precise.summed found
      | _ => trivial
    | _ => trivial
  | _ => trivial

/-- What the store's books say while no call is under way. -/
structure Machine.Booked (m : Machine) : Prop where
  bytes : m.shared.st.reservedBytes =
    m.reservations.sum + m.dispatches.sum + (m.held.map Prod.snd).sum
  slots : m.shared.st.reservedSlots =
    m.reservations.length + m.dispatches.length + m.held.length
  inFlight : m.shared.st.inFlight = m.dispatches.length
  unsaved : m.shared.st.unsaved = m.held.length
  summed : m.shared.st.ownBytes = m.shared.st.own.total fun _ file => file.bytes
  own : ∀ name bytes, m.shared.dir.get? name = some bytes → parseOwnName name ≠ none →
    ∃ file, m.shared.st.own.get? name = some file ∧ bytes.length ≤ file.bytes
  temp : ∀ name bytes, m.shared.dir.get? name = some bytes → isTempName name = true →
    ∃ charged, m.shared.st.stray.get? name = some charged ∧ bytes.length ≤ charged

theorem sum_map_const {α : Type} (list : List α) {weight : α → ℕ} {each : ℕ}
    (same : ∀ entry, weight entry = each) : (list.map weight).sum = list.length * each := by
  rw [List.map_congr_left fun entry _ => same entry, List.map_const', List.sum_replicate_nat]

theorem Exact.booked (precise : Exact m) (idle : m.calls = []) : m.Booked := by
  have counts := precise.accounted.counts
  simp only [Machine.share, idle] at counts
  refine ⟨?_, ?_, ?_, ?_, precise.summed, ?_, ?_⟩
  · have bytes := counts .bytes
    have reserved : m.reservations.map Count.bytes.file = m.reservations := List.map_id _
    have dispatched : m.dispatches.map Count.bytes.dispatch = m.dispatches := List.map_id _
    have held : m.held.map Count.bytes.held = m.held.map Prod.snd := rfl
    rwa [reserved, dispatched] at bytes
  · have counted := counts .slots
    have reserved : ∀ room, Count.slots.file room = 1 := fun _ => rfl
    have dispatched : ∀ room, Count.slots.dispatch room = 1 := fun _ => rfl
    have held : ∀ entry, Count.slots.held entry = 1 := fun _ => rfl
    rwa [sum_map_const _ reserved, sum_map_const _ dispatched, sum_map_const _ held, mul_one,
      mul_one, mul_one] at counted
  · have counted := counts .inFlight
    have reserved : ∀ room, Count.inFlight.file room = 0 := fun _ => rfl
    have dispatched : ∀ room, Count.inFlight.dispatch room = 1 := fun _ => rfl
    have held : ∀ entry, Count.inFlight.held entry = 0 := fun _ => rfl
    rwa [sum_map_const _ reserved, sum_map_const _ dispatched, sum_map_const _ held, mul_one,
      mul_zero, zero_add] at counted
  · have counted := counts .unsaved
    have reserved : ∀ room, Count.unsaved.file room = 0 := fun _ => rfl
    have dispatched : ∀ room, Count.unsaved.dispatch room = 0 := fun _ => rfl
    have held : ∀ entry, Count.unsaved.held entry = 1 := fun _ => rfl
    rwa [sum_map_const _ reserved, sum_map_const _ dispatched, sum_map_const _ held, mul_one,
      mul_zero, mul_zero, zero_add, zero_add] at counted
  · intro name bytes found parsed
    rcases (precise.covered name).own parsed bytes found with ⟨room, charged, short⟩
      | ⟨call, mem, -⟩
    · simp only [Shared.view, Option.map_eq_some_iff] at charged
      rcases charged with ⟨file, listed, rfl⟩
      exact ⟨file, listed, short⟩
    · rw [idle] at mem
      cases mem
  · intro name bytes found temp
    rcases (precise.covered name).temp temp bytes found with ⟨room, charged, short⟩ | ⟨call, mem, -⟩
    · exact ⟨room, charged, short⟩
    · rw [idle] at mem
      cases mem

theorem exact_new (run : Text) (config : StoreConfig) : Exact (.new run config) := by
  refine ⟨accounted_new run config, named_new run config, ?_, ?_, ?_, ?_, ?_, ?_, rfl⟩
  · intro call mem
    cases mem
  · intro id
    exact Nat.zero_le 1
  · intro call mem
    cases mem
  · intro call mem
    cases mem
  · intro call mem
    cases mem
  · intro name
    exact .of_gone rfl fun listed => absurd rfl listed

theorem unused_new (run : Text) (config : StoreConfig) (id : ReportId) :
    Unused id (.new run config) :=
  ⟨fun _ _ => rfl, rfl, fun _ mem => absurd mem List.not_mem_nil⟩

/-- The invariant of a run, with the reports not written yet. -/
def ExactAfter (past : List Event) (m : Machine) : Prop :=
  Exact m ∧ ∀ id, id ∉ written past → Unused id m

theorem ExactAfter.step {past : List Event} (kept : ExactAfter past m) (orderly : m.Orderly event)
    (fresh : ∀ id, event.firstOf? = some id → id ∉ written past)
    (stepped : m.step event = some after) : ExactAfter (past ++ [event]) after := by
  rcases kept with ⟨precise, unused⟩
  have split : ∀ id, id ∉ written (past ++ [event]) →
      id ∉ written past ∧ event.firstOf? ≠ some id := by
    intro id absent
    simp only [written, List.filterMap_append, List.mem_append, not_or] at absent ⊢
    refine ⟨absent.1, fun first => absent.2 ?_⟩
    rw [List.filterMap_cons_some first]
    exact List.mem_cons_self
  by_cases advances : ∃ which outcome pick, event = .advance which outcome pick
  · rcases advances with ⟨which, outcome, pick, rfl⟩
    exact ⟨precise.advance stepped, fun id absent =>
      (unused id (split id absent).1).advance precise.named stepped⟩
  · have begins : ∀ which outcome pick, event ≠ .advance which outcome pick :=
      fun which outcome pick same => advances ⟨which, outcome, pick, same⟩
    exact ⟨precise.begins orderly (fun id first => unused id (fresh id first)) begins stepped,
      fun id absent => (unused id (split id absent).1).begins orderly (split id absent).2 begins
        stepped⟩

theorem exactAfter_steps {run : Text} {config : StoreConfig} {events : List Event}
    (distinct : (written events).Nodup)
    (orderly : (Machine.new run config).Along Machine.Orderly events)
    (ran : (Machine.new run config).steps events = some m) : ExactAfter events m := by
  apply Machine.steps_trace ExactAfter ⟨exact_new run config, fun id _ => unused_new run config id⟩
    _ ran
  intro past before event rest next split passed stepped kept
  refine kept.step (Machine.Along.here (split ▸ orderly) passed) ?_ stepped
  intro id first mem
  rw [split, written, List.filterMap_append, List.nodup_append] at distinct
  refine distinct.2.2 id mem id ?_ rfl
  rw [List.filterMap_cons_some first]
  exact List.mem_cons_self

/-- In every orderly run with distinct report ids, no subtraction stops at zero, and whenever no
call is under way the store's books are exact. -/
theorem accounting_exact (run : Text) (config : StoreConfig) (events : List Event)
    (distinct : (written events).Nodup)
    (orderly : (Machine.new run config).Along Machine.Orderly events) :
    (∀ past event rest before, events = past ++ event :: rest →
        (Machine.new run config).steps past = some before → before.Unsaturated event) ∧
      ∀ past rest m, events = past ++ rest → (Machine.new run config).steps past = some m →
        m.calls = [] → m.Booked := by
  have reached : ∀ past rest m, events = past ++ rest →
      (Machine.new run config).steps past = some m → Exact m := by
    intro past rest m split passed
    rw [split] at distinct orderly
    rw [written, List.filterMap_append, List.nodup_append] at distinct
    exact (exactAfter_steps distinct.1 orderly.left passed).1
  constructor
  · intro past event rest before split passed
    exact (reached past (event :: rest) before split passed).unsaturated event
  · intro past rest m split passed idle
    exact (reached past rest m split passed).booked idle

/-- A save whose directory sync and removal fail, and a sweep that removes what it left. -/
def orphanedAndSwept : List Event :=
  [Event.reserveDispatch,
    .dispatchResult 0 reportA [1, 2] 7 zeroTag] ++
    goOn 3 ++ [Event.advance 0 .failed 0, .advance 0 .failed 0] ++ goOn 3 ++
    [Event.sweep ⟨9, 9⟩] ++ goOn 7

/-- The books of a run that leaves an orphan and sweeps it. -/
theorem accounting_exact_orphaned :
    ∃ m, (Machine.new [] ⟨100000, 2, 1⟩).steps orphanedAndSwept = some m ∧ m.calls = [] ∧
      m.Booked ∧ m.held.length = 1 := by
  have checked : (Machine.new [] ⟨100000, 2, 1⟩).checks Machine.orderly orphanedAndSwept =
    true := by
    decide +kernel
  have ran : (((Machine.new [] ⟨100000, 2, 1⟩).steps orphanedAndSwept).any
      fun m => m.calls.isEmpty && decide (m.held.length = 1)) = true := by
    decide +kernel
  simp only [Option.any_eq_true, Bool.and_eq_true, decide_eq_true_eq, List.isEmpty_iff] at ran
  rcases ran with ⟨m, ran, idle, held⟩
  rcases accounting_exact [] ⟨100000, 2, 1⟩ orphanedAndSwept (by decide)
    (Machine.along_of_checks checked) with ⟨-, booked⟩
  exact ⟨m, ran, idle, booked _ [] m (List.append_nil _).symm ran idle, held⟩

/-- A discard finds no file, the report is written and recorded, and the discard then forgets it. -/
def discardedBesideWrite : List Event :=
  [Event.reserve 2, .discard reportA, .advance 0 .done 0, .write 0 reportA [1, 2] 7 zeroTag] ++
    goOn 6

/-- Beside a discard of the same report, a write leaves a file that the books do not list. -/
theorem accounting_lost_beside_discard :
    (Machine.new [] ⟨100000, 2, 1⟩).checks Machine.fits discardedBesideWrite = true ∧
      (written discardedBesideWrite).Nodup ∧
        ∃ m, (Machine.new [] ⟨100000, 2, 1⟩).steps discardedBesideWrite = some m ∧
          m.calls = [] ∧ ¬ m.Booked := by
  refine ⟨by decide +kernel, by decide, ?_⟩
  have ran : (((Machine.new [] ⟨100000, 2, 1⟩).steps discardedBesideWrite).any fun m =>
      m.calls.isEmpty && decide (m.shared.dir.get? (ownName reportA.text) = some [1, 2]) &&
        (m.shared.st.own.get? (ownName reportA.text)).isNone) = true := by
    decide +kernel
  simp only [Option.any_eq_true, Bool.and_eq_true, decide_eq_true_eq, List.isEmpty_iff,
    Option.isNone_iff_eq_none] at ran
  rcases ran with ⟨m, ran, ⟨idle, found⟩, forgotten⟩
  refine ⟨m, ran, idle, fun booked => ?_⟩
  rcases booked.own _ _ found (by decide) with ⟨file, listed, -⟩
  rw [forgotten] at listed
  cases listed

end AgentDeck.Retained
