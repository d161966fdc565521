import AgentDeck.Retained.Sections

/-!
# Which names the store works with

Own files are filed under own names and strays under temporary names, in the store's maps and in
every call under way. A sweep's pass over the adopted files is the only call that touches an
adopted name.
-/

namespace AgentDeck.Retained

/-! ## Names in the maps and in the calls -/

def IsOwn (name : Name) : Prop := ∃ id : ReportId, name = ownName id.text

def IsTemp (name : Name) : Prop := ∃ (id : ReportId) (tag : Tag), name = tempName id.text tag

theorem IsOwn.parseAdoptedName {name : Name} (own : IsOwn name) : parseAdoptedName name = none := by
  rcases own with ⟨id, rfl⟩
  exact parseAdoptedName_ownName id

theorem IsTemp.parseAdoptedName {name : Name} (temp : IsTemp name) :
    parseAdoptedName name = none := by
  rcases temp with ⟨id, tag, rfl⟩
  exact parseAdoptedName_tempName id.text tag

variable (job : Job)

theorem Job.isOwn : IsOwn job.name := ⟨job.id, rfl⟩

theorem Job.isTemp : IsTemp job.temp := ⟨job.id, job.tag, rfl⟩

theorem IsOwn.ne_temp {name temp : Name} (own : IsOwn name) (isTemp : IsTemp temp) :
    name ≠ temp := by
  rcases own with ⟨id, rfl⟩
  rcases isTemp with ⟨other, tag, rfl⟩
  exact ownName_ne_tempName _ _ _

structure Filed (st : StoreState) : Prop where
  own : ∀ name file, st.own.get? name = some file → IsOwn name
  stray : ∀ name bytes, st.stray.get? name = some bytes → IsTemp name

def SweepPoint.Named (now : Now) : SweepPoint → Prop
  | .own rest => ∀ entry ∈ rest, IsOwn entry.1
  | .claim name rest | .unlinkOwn name rest | .dropOwn name rest =>
    IsOwn name ∧ ∀ entry ∈ rest, IsOwn entry.1
  | .unlinkStray rest => ∀ temp ∈ rest, IsTemp temp
  | .dropStray temp rest => IsTemp temp ∧ ∀ temp ∈ rest, IsTemp temp
  | .scan _ | .unadopt _ _ => True
  | .statAdopted name deadline _ => ∃ id state, parseAdoptedName name = some (id, deadline, state)
  | .unlinkAdopted name _ _ =>
    ∃ id deadline state, parseAdoptedName name = some (id, deadline, state) ∧ deadline ≤ now.wall

/-- The name of its alias is the only one a write leaves beside its own. -/
def Job.Leaves (job : Job) (stray : Option Name) : Prop := stray = none ∨ stray = some job.temp

def Call.Named : Call → Prop
  | .syncDir job stray | .removeOwn job stray => job.Leaves stray
  | .record job (.saved stray) | .record job (.failed stray _) => job.Leaves stray
  | .sweep now _ point => point.Named now
  | _ => True

namespace Filed

variable {st : StoreState}

theorem eases {after : StoreState} (filed : Filed st) (walls : Set ℤ)
    (eased : Eases walls st after) : Filed after := by
  constructor
  · intro name file found
    rcases eased.own name file found with ⟨old, before, -⟩
    exact filed.own name old before
  · intro name bytes found
    exact filed.stray name bytes (eased.stray name bytes found)

variable {stray : Option Name}

theorem of_inserted {after : StoreState} (filed : Filed st) {job : Job} (file : OwnFile) {bytes : ℕ}
    (leaves : job.Leaves stray) (own : after.own = st.own.insert job.name file ∨ after.own = st.own)
    (strays : after.stray = chargeStray st.stray stray bytes) : Filed after := by
  constructor
  · intro name other found
    rcases own with inserted | same
    · rw [inserted, SortedMap.get?_insert] at found
      split at found
      · rename_i same
        rw [same]
        exact job.isOwn
      · exact filed.own name other found
    · rw [same] at found
      exact filed.own name other found
  · intro name charged found
    rw [strays] at found
    rcases get?_chargeStray found with before | ⟨named, -⟩
    · exact filed.stray name charged before
    · rcases leaves with none | temp
      · rw [none] at named
        cases named
      · rw [temp] at named
        cases named
        exact job.isTemp

theorem recordSaved (filed : Filed st) {job : Job} (leaves : job.Leaves stray) :
    Filed (st.recordSaved job.room job.id.text job.contents.length job.wall stray) :=
  filed.of_inserted _ leaves (Or.inl (recordSaved_own ..)) (recordSaved_stray ..)

theorem recordFailed (filed : Filed st) {job : Job} (removed : Bool) (leaves : job.Leaves stray) :
    Filed (st.recordFailed job.room job.id.text job.wall stray removed) := by
  refine filed.of_inserted ⟨job.wall, job.room, .orphanUnlink, none⟩ leaves ?_
    (recordFailed_stray ..)
  rw [recordFailed_own]
  cases removed with
  | true => exact Or.inr rfl
  | false => exact Or.inl rfl

end Filed

theorem mem_keys_of_get? {κ : Type*} {ν : Type*} [LinearOrder κ] {map : SortedMap κ ν} {key : κ}
    (mem : key ∈ map.keys) : ∃ value, map.get? key = some value := by
  rcases List.mem_map.mp mem with ⟨⟨other, value⟩, inside, rfl⟩
  exact ⟨value, (map.get?_eq_some_iff _ _).mpr inside⟩

theorem sweepStep_named {sh after : Shared} {now : Now} {start : ℕ} {point : SweepPoint}
    {later : Option SweepPoint} (step : SweepStep now start sh point after later)
    (filed : Filed sh.st) (named : point.Named now) : ∀ next ∈ later, next.Named now := by
  cases step with
  | listed =>
    rintro next ⟨⟩ temp mem
    rcases mem_keys_of_get? mem with ⟨bytes, found⟩
    exact filed.stray temp bytes found
  | nominated taken due | missing taken gone | strayRemoved taken | strayGone taken gone =>
    rintro next ⟨⟩
    exact ⟨named _ taken.mem, fun entry mem => named entry (taken.subset mem)⟩
  | passed taken | strayKept taken =>
    rintro next ⟨⟩ entry mem
    exact named entry (taken.subset mem)
  | claimed found due | ownRemoved | ownGone gone =>
    rintro next ⟨⟩
    exact named
  | renewed | ownKept | ownDropped | strayDropped =>
    rintro next ⟨⟩
    exact named.2
  | read taken parsed =>
    rintro next ⟨⟩
    exact ⟨_, _, parsed⟩
  | expired found past =>
    rintro next ⟨⟩
    rcases named with ⟨id, state, parsed⟩
    exact ⟨id, _, state, parsed, past⟩
  | recounted => rintro next ⟨⟩
  | _ =>
    rintro next ⟨⟩
    trivial

theorem leaves_none : job.Leaves none := Or.inl rfl

theorem leaves_temp : job.Leaves (some job.temp) := Or.inr rfl

variable {call : Call}

theorem callStep_filed {sh after : Shared} {next : Next} (step : CallStep sh call after next)
    (filed : Filed sh.st) (named : call.Named) : Filed after.st := by
  cases step with
  | recordedSaved => exact filed.recordSaved named
  | recordedFailed => exact filed.recordFailed _ named
  | discardSettled => exact filed.eases ∅ (.settleDiscard ∅ _ _ _)
  | sweep swept => exact filed.eases ∅ (.sweep ∅ swept)
  | _ => exact filed.eases ∅ (.of_same rfl rfl rfl rfl)

theorem named_after (saved : Bool) : ∀ call ∈ (job.after saved).calls, call.Named := by
  rcases job with ⟨room, id, contents, wall, tag, purpose⟩
  cases purpose <;> cases saved <;> simp [Job.after, Next.calls, Call.Named]

theorem callStep_named {sh after : Shared} {next : Next} (step : CallStep sh call after next)
    (filed : Filed sh.st) (named : call.Named) : ∀ later ∈ next.calls, later.Named := by
  cases step with
  | recordedSaved => exact named_after _ _
  | recordedFailed => exact named_after _ _
  | notCreated | published found free | aliasRemoved | tempRemoved =>
    exact List.forall_mem_singleton.mpr (leaves_none _)
  | aliasKept => exact List.forall_mem_singleton.mpr (leaves_temp _)
  | synced | notSynced | ownRemoved | ownKept => exact List.forall_mem_singleton.mpr named
  | tempKept => exact List.forall_mem_singleton.mpr (leaves_temp _)
  | sweep swept =>
    rename_i now start point later
    have points := sweepStep_named swept filed named
    cases later with
    | none => exact fun call mem => absurd mem List.not_mem_nil
    | some point => exact List.forall_mem_singleton.mpr (points point rfl)
  | _ => simp [Next.calls, Call.Named]

/-! ## Events that start a call or move no file -/

inductive Start (m : Machine) : Event → Call → Prop
  | write {which id contents wall tag room} (found : m.reservations[which]? = some room) :
      Start m (.write which id contents wall tag) (.create ⟨room, id, contents, wall, tag, .report⟩)
  | dispatch {which id contents wall tag room} (found : m.dispatches[which]? = some room) :
      Start m (.dispatchResult which id contents wall tag)
        (.create ⟨room, id, contents, wall, tag, .dispatch⟩)
  | retry {which id contents wall tag held} (found : m.held[which]? = some held) :
      Start m (.retryHeld which id contents wall tag)
        (.create ⟨held.2, id, contents, wall, tag, .retry⟩)
  | discard (id : ReportId) : Start m (.discard id) (.discard id)
  | sweep (now : Now) (idle : m.sweeping = false) :
      Start m (.sweep now)
        (.sweep now m.shared.st.adoptedGeneration (.own m.shared.st.own.entries))
  | flush :
      Start m .flush (.writeInventory m.shared.st.revision
        (writeInventoryText m.run m.shared.st.config.maxFiles m.shared.st.entries))

/-- The wall times an event brings into the states of files. -/
def Event.walls : Event → Set ℤ
  | .acknowledged _ now | .recovered _ now => {now.wall}
  | .continueLifetime _ life => Eases.lifetimeWalls life
  | _ => ∅

/-- A file moved in from an ended run. -/
structure Adopts (m after : Machine) (name : Name) (contents : Bytes) : Prop where
  idle : m.sweeping = false
  adopted : parseAdoptedName name ≠ none
  free : m.shared.dir.get? name = none
  dir : after.shared.dir = m.shared.dir.insert name contents
  bytes : after.shared.st.adoptedBytes = m.shared.st.adoptedBytes + contents.length
  calls : after.calls = m.calls

/-- What an event does that takes no step of a call under way. -/
structure Begins (m after : Machine) (event : Event) : Prop where
  run : after.run = m.run
  eases : Eases event.walls m.shared.st after.shared.st
  inventory : after.shared.inventory = m.shared.inventory
  calls : ∃ started : List Call, after.calls = started ++ m.calls ∧ started.length ≤ 1 ∧
    ∀ call ∈ started, Start m event call
  files : (after.shared.dir = m.shared.dir ∧
      after.shared.st.adoptedBytes = m.shared.st.adoptedBytes) ∨
    ∃ name contents, event = .adopt name contents ∧ Adopts m after name contents

variable {after m : Machine} {event : Event}

theorem Begins.quiet (run : after.run = m.run)
    (eases : Eases event.walls m.shared.st after.shared.st)
    (inventory : after.shared.inventory = m.shared.inventory)
    (dir : after.shared.dir = m.shared.dir)
    (adopted : after.shared.st.adoptedBytes = m.shared.st.adoptedBytes)
    (calls : after.calls = m.calls) : Begins m after event :=
  ⟨run, eases, inventory, ⟨[], calls, Nat.zero_le 1, fun _ mem => absurd mem List.not_mem_nil⟩,
    Or.inl ⟨dir, adopted⟩⟩

theorem Begins.start (run : after.run = m.run) (shared : after.shared = m.shared)
    (calls : after.calls = call :: m.calls) (starts : Start m event call) :
    Begins m after event := by
  refine ⟨run, ?_, by rw [shared], ⟨[call], calls, le_rfl, List.forall_mem_singleton.mpr starts⟩,
    Or.inl ⟨by rw [shared], by rw [shared]⟩⟩
  rw [shared]
  exact .refl _ _

theorem transition_adoptedBytes (st : StoreState) (id : Text) (now : Now)
    (next : OwnState → Option OwnState) :
    (st.transition id now next).adoptedBytes = st.adoptedBytes := by
  simp only [StoreState.transition]
  split
  · split <;> rfl
  · rfl

theorem continueLifetime_adoptedBytes (st : StoreState) (id : Text) (life : Lifetime) :
    (st.continueLifetime id life).adoptedBytes = st.adoptedBytes := by
  cases life with
  | referenced => rfl
  | acknowledged since | recovered since =>
    simp only [StoreState.continueLifetime]
    split
    · split <;> rfl
    · rfl

theorem begins_of (stepped : m.step event = some after)
    (begins : ∀ which outcome pick, event ≠ .advance which outcome pick) :
    Begins m after event := by
  cases began_of stepped begins with
  | refused => exact .quiet rfl (.refl _ _) rfl rfl rfl rfl
  | acknowledged => exact .quiet rfl (.acknowledged _ _ _) rfl rfl (transition_adoptedBytes ..) rfl
  | recovered => exact .quiet rfl (.recovered _ _ _) rfl rfl (transition_adoptedBytes ..) rfl
  | continued =>
    exact .quiet rfl (.continueLifetime _ _ _) rfl rfl (continueLifetime_adoptedBytes ..) rfl
  | written found => exact .start rfl rfl rfl (.write found)
  | resultWritten found => exact .start rfl rfl rfl (.dispatch found)
  | heldWritten found => exact .start rfl rfl rfl (.retry found)
  | discards => exact .start rfl rfl rfl (.discard _)
  | sweeps idle => exact .start rfl rfl rfl (.sweep _ idle)
  | flushes => exact .start rfl rfl rfl .flush
  | @adopts name contents idle adopted free =>
    refine ⟨rfl, .of_same rfl rfl rfl rfl, rfl,
      ⟨[], rfl, Nat.zero_le 1, fun _ mem => absurd mem List.not_mem_nil⟩,
      Or.inr ⟨name, contents, rfl, idle, adopted, free, rfl, rfl, rfl⟩⟩
  | _ => exact .quiet rfl (.of_same rfl rfl rfl rfl) rfl rfl rfl rfl

/-! ## Whole runs -/

structure Named (m : Machine) : Prop where
  filed : Filed m.shared.st
  calls : ∀ call ∈ m.calls, call.Named

theorem named_new (run : Text) (config : StoreConfig) : Named (.new run config) :=
  ⟨⟨fun _ _ found => of_none found, fun _ _ found => of_none found⟩,
    fun _ mem => absurd mem List.not_mem_nil⟩

theorem Start.named (starts : Start m event call) (filed : Filed m.shared.st) : call.Named := by
  cases starts with
  | sweep now idle =>
    rintro ⟨name, file⟩ mem
    exact filed.own name file ((m.shared.st.own.get?_eq_some_iff name file).mpr mem)
  | _ => trivial

theorem Named.step (named : Named m) (stepped : m.step event = some after) : Named after := by
  by_cases advances : ∃ which outcome pick, event = .advance which outcome pick
  · rcases advances with ⟨which, outcome, pick, rfl⟩
    rcases advance_cases stepped with ⟨before, call, later, shared, next, calls, -, -, step, rfl⟩
    have mem : call ∈ m.calls := calls ▸ List.mem_append_right _ List.mem_cons_self
    refine ⟨callStep_filed step named.filed (named.calls call mem), ?_⟩
    intro other inside
    simp only [List.mem_append] at inside
    rcases inside with inside | inside | inside
    · exact named.calls other (mem_of_around calls (Or.inl inside))
    · exact callStep_named step named.filed (named.calls call mem) other inside
    · exact named.calls other (mem_of_around calls (Or.inr inside))
  · have begins := begins_of stepped fun which outcome pick same =>
      advances ⟨which, outcome, pick, same⟩
    refine ⟨named.filed.eases _ begins.eases, ?_⟩
    rcases begins.calls with ⟨started, calls, -, starts⟩
    intro call mem
    rw [calls] at mem
    rcases List.mem_append.mp mem with mem | mem
    · exact (starts call mem).named named.filed
    · exact named.calls call mem

end AgentDeck.Retained
