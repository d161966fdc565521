import AgentDeck.Retained.Machine

/-!
# What a step of the store's calls can do

Each rule of `SweepStep` and `CallStep` is one branch of a call's step, with what the branch found
of the directory. Invariants of the store are proved by cases on these rules.
-/

namespace AgentDeck.Retained

theorem of_none {α : Type*} {a : α} {p : Prop} (found : a ∈ (none : Option α)) : p :=
  absurd found (Option.not_mem_none a)

/-! ## File operations -/

variable {outcome : Outcome}

theorem unlink_eq (dir : Dir) (name : Name) (outcome : Outcome) :
    (∃ bytes, dir.get? name = some bytes ∧
        unlink dir name outcome = (.removed, dir.erase name)) ∨
      (dir.get? name = none ∧ unlink dir name outcome = (.absent, dir)) ∨
      unlink dir name outcome = (.kept, dir) := by
  simp only [unlink]
  split
  · split
    · rename_i bytes found
      exact Or.inl ⟨bytes, found, rfl⟩
    · rename_i missing
      exact Or.inr (Or.inl ⟨missing, rfl⟩)
  · exact Or.inr (Or.inr rfl)

theorem renameInto_eq (dir : Dir) (source target : Name) (outcome : Outcome) :
    (∃ bytes, dir.get? source = some bytes ∧ dir.get? target = none ∧
        renameInto dir source target outcome =
          (.moved, (dir.erase source).insert target bytes)) ∨
      renameInto dir source target outcome = (.unsupported, dir) ∨
      renameInto dir source target outcome = (.failed, dir) := by
  simp only [renameInto]
  split
  · split
    · rename_i bytes found free
      exact Or.inl ⟨bytes, found, free, rfl⟩
    · exact Or.inr (Or.inr rfl)
  · exact Or.inr (Or.inl rfl)
  · exact Or.inr (Or.inr rfl)

theorem hardLink_eq (dir : Dir) (source target : Name) (outcome : Outcome) :
    (∃ bytes, dir.get? source = some bytes ∧ dir.get? target = none ∧
        hardLink dir source target outcome = (true, dir.insert target bytes)) ∨
      hardLink dir source target outcome = (false, dir) := by
  simp only [hardLink]
  split
  · split
    · rename_i bytes found free
      exact Or.inl ⟨bytes, found, free, rfl⟩
    · exact Or.inr rfl
  · exact Or.inr rfl

/-! ## Sweeps -/

def Taken {α : Type} (entry : α) (list rest : List α) : Prop :=
  ∃ before after, list = before ++ entry :: after ∧ rest = before ++ after

theorem taken_of_getElem? {α : Type} {list : List α} {which : ℕ} {entry : α}
    (found : list[which]? = some entry) : Taken entry list (list.eraseIdx which) := by
  rcases List.getElem?_eq_some_iff.mp found with ⟨bound, same⟩
  refine ⟨list.take which, list.drop (which + 1), ?_, ?_⟩
  · rw [← same, ← List.drop_eq_getElem_cons bound, List.take_append_drop]
  · rw [List.eraseIdx_eq_take_drop_succ]

theorem mem_of_around {α : Type} {calls before later : List α} {call other : α}
    (split : calls = before ++ call :: later) (around : other ∈ before ∨ other ∈ later) :
    other ∈ calls := by
  rw [split]
  rcases around with mem | mem
  · exact List.mem_append_left _ mem
  · exact List.mem_append_right _ (List.mem_cons_of_mem call mem)

theorem Taken.mem {α : Type} {entry : α} {list rest : List α} (taken : Taken entry list rest) :
    entry ∈ list := by
  rcases taken with ⟨before, after, rfl, rfl⟩
  exact List.mem_append_right _ List.mem_cons_self

theorem Taken.subset {α : Type} {entry : α} {list rest : List α} (taken : Taken entry list rest)
    {other : α} (mem : other ∈ rest) : other ∈ list := by
  rcases taken with ⟨before, after, rfl, rfl⟩
  exact mem_of_around rfl (List.mem_append.mp mem)

/-- The steps of a sweep, by what they found. -/
inductive SweepStep (now : Now) (start : ℕ) :
    Shared → SweepPoint → Shared → Option SweepPoint → Prop
  | listed (sh) : SweepStep now start sh (.own []) sh (some (.unlinkStray sh.st.stray.keys))
  | nominated (sh) {name file list rest} (taken : Taken (name, file) list rest)
      (due : file.due now = true) : SweepStep now start sh (.own list) sh (some (.claim name rest))
  | passed (sh) {name file list rest} (taken : Taken (name, file) list rest) :
      SweepStep now start sh (.own list) sh (some (.own rest))
  | missing (sh) {name file list rest} (taken : Taken (name, file) list rest)
      (gone : sh.dir.get? name = none) :
      SweepStep now start sh (.own list) sh (some (.dropOwn name rest))
  | claimed (sh) {name rest file} (found : sh.st.own.get? name = some file)
      (due : file.due now = true) :
      SweepStep now start sh (.claim name rest)
        { sh with st := (sh.st.claim name now).2 } (some (.unlinkOwn name rest))
  | renewed (sh) {name rest} : SweepStep now start sh (.claim name rest) sh (some (.own rest))
  | ownRemoved (sh) {name rest} :
      SweepStep now start sh (.unlinkOwn name rest)
        { sh with dir := sh.dir.erase name } (some (.dropOwn name rest))
  | ownGone (sh) {name rest} (gone : sh.dir.get? name = none) :
      SweepStep now start sh (.unlinkOwn name rest) sh (some (.dropOwn name rest))
  | ownKept (sh) {name rest} :
      SweepStep now start sh (.unlinkOwn name rest) sh (some (.own rest))
  | ownDropped (sh) {name rest} :
      SweepStep now start sh (.dropOwn name rest)
        { sh with st := sh.st.dropOwn name } (some (.own rest))
  | streamed (sh) :
      SweepStep now start sh (.unlinkStray []) sh (some (.scan ⟨sh.dir.keys, 0, 0, true⟩))
  | unstreamed (sh) : SweepStep now start sh (.unlinkStray []) sh (some (.scan ⟨[], 0, 0, false⟩))
  | strayRemoved (sh) {temp list rest} (taken : Taken temp list rest) :
      SweepStep now start sh (.unlinkStray list)
        { sh with dir := sh.dir.erase temp } (some (.dropStray temp rest))
  | strayGone (sh) {temp list rest} (taken : Taken temp list rest)
      (gone : sh.dir.get? temp = none) :
      SweepStep now start sh (.unlinkStray list) sh (some (.dropStray temp rest))
  | strayKept (sh) {temp list rest} (taken : Taken temp list rest) :
      SweepStep now start sh (.unlinkStray list) sh (some (.unlinkStray rest))
  | strayDropped (sh) {temp rest} :
      SweepStep now start sh (.dropStray temp rest)
        { sh with st := sh.st.dropStray temp } (some (.unlinkStray rest))
  | recounted (sh) {recount ours complete} :
      SweepStep now start sh (.scan ⟨[], recount, ours, complete⟩)
        { sh with st := sh.st.publishRecount start ours recount complete } none
  | read (sh) {name id deadline state list rest recount ours complete}
      (taken : Taken name list rest) (parsed : parseAdoptedName name = some (id, deadline, state)) :
      SweepStep now start sh (.scan ⟨list, recount, ours, complete⟩) sh
        (some (.statAdopted name deadline ⟨rest, recount, ours, complete⟩))
  | skipped (sh) {name list rest recount ours complete} (taken : Taken name list rest)
      (other : parseAdoptedName name = none) :
      SweepStep now start sh (.scan ⟨list, recount, ours, complete⟩) sh
        (some (.scan ⟨rest, recount, ours, complete⟩))
  | broken (sh) {list recount ours complete} :
      SweepStep now start sh (.scan ⟨list, recount, ours, complete⟩) sh
        (some (.scan ⟨[], recount, ours, false⟩))
  | expired (sh) {name deadline scan bytes} (found : sh.dir.get? name = some bytes)
      (past : deadline ≤ now.wall) :
      SweepStep now start sh (.statAdopted name deadline scan) sh
        (some (.unlinkAdopted name bytes.length scan))
  | counted (sh) {name deadline bytes rest recount ours complete}
      (found : sh.dir.get? name = some bytes) :
      SweepStep now start sh (.statAdopted name deadline ⟨rest, recount, ours, complete⟩) sh
        (some (.scan ⟨rest, recount + bytes.length, ours, complete⟩))
  | lost (sh) {name deadline scan} (gone : sh.dir.get? name = none) :
      SweepStep now start sh (.statAdopted name deadline scan) sh (some (.scan scan))
  | uncertain (sh) {name deadline rest recount ours complete} :
      SweepStep now start sh (.statAdopted name deadline ⟨rest, recount, ours, complete⟩) sh
        (some (.scan ⟨rest, recount, ours, false⟩))
  | adoptedRemoved (sh) {name length scan bytes} (found : sh.dir.get? name = some bytes) :
      SweepStep now start sh (.unlinkAdopted name length scan)
        { sh with dir := sh.dir.erase name } (some (.unadopt length scan))
  | adoptedGone (sh) {name length scan} (gone : sh.dir.get? name = none) :
      SweepStep now start sh (.unlinkAdopted name length scan) sh (some (.scan scan))
  | adoptedKept (sh) {name length rest recount ours complete} :
      SweepStep now start sh (.unlinkAdopted name length ⟨rest, recount, ours, complete⟩) sh
        (some (.scan ⟨rest, recount + length, ours, complete⟩))
  | unadopted (sh) {length rest recount ours complete} :
      SweepStep now start sh (.unadopt length ⟨rest, recount, ours, complete⟩)
        { sh with st := sh.st.unadopt length }
        (some (.scan ⟨rest, recount, ours + 1, complete⟩))

/-- How a sweep goes on after a step. -/
def sweepNext (now : Now) (start : ℕ) : Option SweepPoint → Next
  | some point => .call (.sweep now start point)
  | none => .ended

theorem claim_cases (st : StoreState) (name : Name) (now : Now) :
    ((st.claim name now).1 = true ∧
        ∃ file, st.own.get? name = some file ∧ file.due now = true) ∨
      st.claim name now = (false, st) := by
  simp only [StoreState.claim]
  split
  · rename_i file found
    split
    · rename_i due
      exact Or.inl ⟨rfl, file, found, due⟩
    · exact Or.inr rfl
  · exact Or.inr rfl

/-- Every step of a sweep is one of `SweepStep`. -/
theorem sweepStep_of {sh after : Shared} {now : Now} {start : ℕ} {pick : ℕ} {point : SweepPoint}
    {next : Next} (stepped : sh.sweep now start outcome pick point = some (after, next)) :
    ∃ later, next = sweepNext now start later ∧ SweepStep now start sh point after later := by
  cases point with
  | own rest =>
    simp only [Shared.sweep] at stepped
    split at stepped
    · split at stepped
      · rename_i empty
        rw [List.isEmpty_iff] at empty
        subst empty
        cases stepped
        exact ⟨_, rfl, .listed sh⟩
      · cases stepped
    · rename_i name file found
      have taken := taken_of_getElem? found
      split at stepped
      · split at stepped
        · cases stepped
          split
          · rename_i due
            exact ⟨_, rfl, .nominated sh taken due⟩
          · exact ⟨_, rfl, .passed sh taken⟩
        · rename_i gone
          cases stepped
          exact ⟨_, rfl, .missing sh taken gone⟩
      · cases stepped
        exact ⟨_, rfl, .passed sh taken⟩
  | claim name rest =>
    simp only [Shared.sweep] at stepped
    rcases claim_cases sh.st name now with ⟨claimed, file, found, due⟩ | same
    · rw [claimed] at stepped
      cases stepped
      exact ⟨_, rfl, .claimed sh found due⟩
    · rw [same] at stepped
      cases stepped
      exact ⟨_, rfl, .renewed sh⟩
  | unlinkOwn name rest =>
    simp only [Shared.sweep] at stepped
    rcases unlink_eq sh.dir name outcome with ⟨_, _, is⟩ | ⟨gone, is⟩ | is <;>
      rw [is] at stepped
    · cases stepped
      exact ⟨_, rfl, .ownRemoved sh⟩
    · cases stepped
      exact ⟨_, rfl, .ownGone sh gone⟩
    · cases stepped
      exact ⟨_, rfl, .ownKept sh⟩
  | dropOwn name rest =>
    cases stepped
    exact ⟨_, rfl, .ownDropped sh⟩
  | unlinkStray rest =>
    simp only [Shared.sweep] at stepped
    split at stepped
    · split at stepped
      · rename_i empty
        rw [List.isEmpty_iff] at empty
        subst empty
        split at stepped
        · cases stepped
          exact ⟨_, rfl, .streamed sh⟩
        · cases stepped
          exact ⟨_, rfl, .unstreamed sh⟩
      · cases stepped
    · rename_i temp found
      have taken := taken_of_getElem? found
      rcases unlink_eq sh.dir temp outcome with ⟨_, _, is⟩ | ⟨gone, is⟩ | is <;>
        rw [is] at stepped
      · cases stepped
        exact ⟨_, rfl, .strayRemoved sh taken⟩
      · cases stepped
        exact ⟨_, rfl, .strayGone sh taken gone⟩
      · cases stepped
        exact ⟨_, rfl, .strayKept sh taken⟩
  | dropStray temp rest =>
    cases stepped
    exact ⟨_, rfl, .strayDropped sh⟩
  | scan scan =>
    rcases scan with ⟨list, recount, ours, complete⟩
    simp only [Shared.sweep] at stepped
    split at stepped
    · split at stepped
      · rename_i empty
        rw [List.isEmpty_iff] at empty
        subst empty
        cases stepped
        exact ⟨_, rfl, .recounted sh⟩
      · cases stepped
    · rename_i name found
      have taken := taken_of_getElem? found
      split at stepped
      · split at stepped
        · rename_i id deadline state parsed
          cases stepped
          exact ⟨_, rfl, .read sh taken parsed⟩
        · rename_i other
          cases stepped
          exact ⟨_, rfl, .skipped sh taken other⟩
      · cases stepped
        exact ⟨_, rfl, .broken sh⟩
  | statAdopted name deadline scan =>
    simp only [Shared.sweep] at stepped
    split at stepped
    · split at stepped
      · rename_i bytes found
        split at stepped
        · rename_i past
          cases stepped
          exact ⟨_, rfl, .expired sh found past⟩
        · cases stepped
          exact ⟨_, rfl, .counted sh found⟩
      · rename_i gone
        cases stepped
        exact ⟨_, rfl, .lost sh gone⟩
    · cases stepped
      exact ⟨_, rfl, .uncertain sh⟩
  | unlinkAdopted name length scan =>
    simp only [Shared.sweep] at stepped
    rcases unlink_eq sh.dir name outcome with ⟨bytes, found, is⟩ | ⟨gone, is⟩ | is <;>
      rw [is] at stepped
    · cases stepped
      exact ⟨_, rfl, .adoptedRemoved sh found⟩
    · cases stepped
      exact ⟨_, rfl, .adoptedGone sh gone⟩
    · cases stepped
      exact ⟨_, rfl, .adoptedKept sh⟩
  | unadopt length scan =>
    cases stepped
    exact ⟨_, rfl, .unadopted sh⟩

/-! ## Calls -/

inductive CallStep : Shared → Call → Shared → Next → Prop
  | created (sh) {job : Job} (free : sh.dir.get? job.temp = none) :
      CallStep sh (.create job) { sh with dir := sh.dir.insert job.temp [] } (.call (.fill job))
  | leftBehind (sh) {job : Job} (free : sh.dir.get? job.temp = none) :
      CallStep sh (.create job) { sh with dir := sh.dir.insert job.temp [] }
        (.call (.removeTemp job))
  | notCreated (sh) {job} :
      CallStep sh (.create job) sh (.call (.record job (.failed none true)))
  | filled (sh) {job : Job} :
      CallStep sh (.fill job) { sh with dir := sh.dir.insert job.temp job.contents }
        (.call (.publish job))
  | cutOff (sh) {job : Job} (length : ℕ) :
      CallStep sh (.fill job) { sh with dir := sh.dir.insert job.temp (job.contents.take length) }
        (.call (.removeTemp job))
  | notFilled (sh) {job} : CallStep sh (.fill job) sh (.call (.removeTemp job))
  | published (sh) {job : Job} {bytes : Bytes} (found : sh.dir.get? job.temp = some bytes)
      (free : sh.dir.get? job.name = none) :
      CallStep sh (.publish job)
        { sh with dir := (sh.dir.erase job.temp).insert job.name bytes }
        (.call (.syncDir job none))
  | noRename (sh) {job} : CallStep sh (.publish job) sh (.call (.link job))
  | notPublished (sh) {job} : CallStep sh (.publish job) sh (.call (.removeTemp job))
  | linked (sh) {job : Job} {bytes : Bytes} (found : sh.dir.get? job.temp = some bytes)
      (free : sh.dir.get? job.name = none) :
      CallStep sh (.link job) { sh with dir := sh.dir.insert job.name bytes }
        (.call (.removeAlias job))
  | notLinked (sh) {job} : CallStep sh (.link job) sh (.call (.removeTemp job))
  | aliasRemoved (sh) {job : Job} :
      CallStep sh (.removeAlias job) { sh with dir := sh.dir.erase job.temp }
        (.call (.syncDir job none))
  | aliasKept (sh) {job} :
      CallStep sh (.removeAlias job) sh (.call (.syncDir job (some job.temp)))
  | synced (sh) {job stray} :
      CallStep sh (.syncDir job stray) sh (.call (.record job (.saved stray)))
  | notSynced (sh) {job stray} :
      CallStep sh (.syncDir job stray) sh (.call (.removeOwn job stray))
  | tempRemoved (sh) {job : Job} :
      CallStep sh (.removeTemp job) { sh with dir := sh.dir.erase job.temp }
        (.call (.record job (.failed none true)))
  | tempKept (sh) {job} :
      CallStep sh (.removeTemp job) sh (.call (.record job (.failed (some job.temp) true)))
  | ownRemoved (sh) {job : Job} {stray} :
      CallStep sh (.removeOwn job stray) { sh with dir := sh.dir.erase job.name }
        (.call (.record job (.failed stray true)))
  | ownKept (sh) {job stray} :
      CallStep sh (.removeOwn job stray) sh (.call (.record job (.failed stray false)))
  | recordedSaved (sh) {job : Job} {stray} :
      CallStep sh (.record job (.saved stray))
        { sh with
          st := sh.st.recordSaved job.room job.id.text job.contents.length job.wall stray }
        (job.after true)
  | recordedFailed (sh) {job : Job} {stray removed} :
      CallStep sh (.record job (.failed stray removed))
        { sh with st := sh.st.recordFailed job.room job.id.text job.wall stray removed }
        (job.after false)
  | retryTookBack (sh) {job : Job} (retry : job.purpose = .retry) :
      CallStep sh (.takeBack job) { sh with st := sh.st.charge job.room } (.held job.id job.room)
  | tookBack (sh) {job : Job} (other : job.purpose ≠ .retry) :
      CallStep sh (.takeBack job) { sh with st := sh.st.charge job.room }
        (.call (.settle job false))
  | retrySettled (sh) {job : Job} {saved} (retry : job.purpose = .retry) :
      CallStep sh (.settle job saved) { sh with st := sh.st.freeSlot } .ended
  | settledSaved (sh) {job : Job} (other : job.purpose ≠ .retry) :
      CallStep sh (.settle job true) { sh with st := sh.st.settleDispatch true } .ended
  | settledHeld (sh) {job : Job} (other : job.purpose ≠ .retry) :
      CallStep sh (.settle job false) { sh with st := sh.st.settleDispatch false }
        (.held job.id job.room)
  | discarded (sh) {id : ReportId} :
      CallStep sh (.discard id) { sh with dir := sh.dir.erase (ownName id.text) }
        (.call (.settleDiscard id true))
  | nothingToDiscard (sh) {id : ReportId} (gone : sh.dir.get? (ownName id.text) = none) :
      CallStep sh (.discard id) sh (.call (.settleDiscard id true))
  | notDiscarded (sh) {id} : CallStep sh (.discard id) sh (.call (.settleDiscard id false))
  | discardSettled (sh) {id : ReportId} {removed} :
      CallStep sh (.settleDiscard id removed)
        { sh with st := sh.st.settleDiscard (ownName id.text) removed } .ended
  | sweep {sh after now start point later} (step : SweepStep now start sh point after later) :
      CallStep sh (.sweep now start point) after (sweepNext now start later)
  | upToDate (sh) {revision text} : CallStep sh (.writeInventory revision text) sh .ended
  | writing (sh) {revision text} :
      CallStep sh (.writeInventory revision text) { sh with writing := true }
        (.call (.renameInventory revision text))
  | renamed (sh) {revision text} :
      CallStep sh (.renameInventory revision text) { sh with inventory := some text }
        (.call (.syncRuns revision))
  | notRenamed (sh) {revision text} :
      CallStep sh (.renameInventory revision text) { sh with writing := false } .ended
  | inventoried (sh) {revision} :
      CallStep sh (.syncRuns revision) { sh with written := revision, writing := false } .ended
  | notInventoried (sh) {revision} :
      CallStep sh (.syncRuns revision) { sh with writing := false } .ended

section Call

variable {sh after : Shared} {pick : ℕ} {job : Job} {next : Next}

-- The equations of `Shared.step` are made here, once for the lemmas below.
attribute [local simp] Shared.step in
theorem createStep_of (stepped : sh.step outcome pick (.create job) = some (after, next)) :
    CallStep sh (.create job) after next := by
  simp only [Shared.step] at stepped
  split at stepped
  · rename_i free
    cases stepped
    exact .created sh free
  · rename_i free
    cases stepped
    exact .leftBehind sh free
  · cases stepped
    exact .notCreated sh

theorem publishStep_of (stepped : sh.step outcome pick (.publish job) = some (after, next)) :
    CallStep sh (.publish job) after next := by
  simp only [Shared.step] at stepped
  rcases renameInto_eq sh.dir job.temp job.name outcome with ⟨bytes, found, free, is⟩ | is | is <;>
    rw [is] at stepped
  · cases stepped
    exact .published sh found free
  · cases stepped
    exact .noRename sh
  · cases stepped
    exact .notPublished sh

theorem linkStep_of (stepped : sh.step outcome pick (.link job) = some (after, next)) :
    CallStep sh (.link job) after next := by
  simp only [Shared.step] at stepped
  rcases hardLink_eq sh.dir job.temp job.name outcome with ⟨bytes, found, free, is⟩ | is <;>
    rw [is] at stepped
  · cases stepped
    exact .linked sh found free
  · cases stepped
    exact .notLinked sh

theorem settleStep_of {saved : Bool}
    (stepped : sh.step outcome pick (.settle job saved) = some (after, next)) :
    CallStep sh (.settle job saved) after next := by
  simp only [Shared.step] at stepped
  split at stepped
  · rename_i retry
    cases stepped
    exact .retrySettled sh retry
  · rename_i other
    cases saved with
    | true =>
      cases stepped
      exact .settledSaved sh other
    | false =>
      cases stepped
      exact .settledHeld sh other

theorem discardStep_of {id : ReportId}
    (stepped : sh.step outcome pick (.discard id) = some (after, next)) :
    CallStep sh (.discard id) after next := by
  simp only [Shared.step] at stepped
  rcases unlink_eq sh.dir (ownName id.text) outcome with ⟨_, _, is⟩ | ⟨gone, is⟩ | is <;>
    rw [is] at stepped
  · cases stepped
    exact .discarded sh
  · cases stepped
    exact .nothingToDiscard sh gone
  · cases stepped
    exact .notDiscarded sh

/-- Every step of a call is one of `CallStep`. -/
theorem callStep_of {call : Call} (stepped : sh.step outcome pick call = some (after, next)) :
    CallStep sh call after next := by
  cases call with
  | create job => exact createStep_of stepped
  | fill job =>
    simp only [Shared.step] at stepped
    split at stepped
    · cases stepped
      exact .filled sh
    · cases stepped
      exact .cutOff sh _
    · cases stepped
      exact .notFilled sh
  | publish job => exact publishStep_of stepped
  | link job => exact linkStep_of stepped
  | removeAlias job =>
    simp only [Shared.step] at stepped
    rcases unlink_eq sh.dir job.temp outcome with ⟨_, _, is⟩ | ⟨_, is⟩ | is <;>
      rw [is] at stepped
    · cases stepped
      exact .aliasRemoved sh
    · cases stepped
      exact .aliasKept sh
    · cases stepped
      exact .aliasKept sh
  | syncDir job stray =>
    simp only [Shared.step] at stepped
    split at stepped
    · cases stepped
      exact .synced sh
    · cases stepped
      exact .notSynced sh
  | removeTemp job =>
    simp only [Shared.step] at stepped
    rcases unlink_eq sh.dir job.temp outcome with ⟨_, _, is⟩ | ⟨_, is⟩ | is <;>
      rw [is] at stepped
    · cases stepped
      exact .tempRemoved sh
    · cases stepped
      exact .tempKept sh
    · cases stepped
      exact .tempKept sh
  | removeOwn job stray =>
    simp only [Shared.step] at stepped
    rcases unlink_eq sh.dir job.name outcome with ⟨_, _, is⟩ | ⟨_, is⟩ | is <;>
      rw [is] at stepped
    · cases stepped
      exact .ownRemoved sh
    · cases stepped
      exact .ownKept sh
    · cases stepped
      exact .ownKept sh
  | record job written =>
    cases written with
    | saved stray =>
      cases stepped
      exact .recordedSaved sh
    | failed stray removed =>
      cases stepped
      exact .recordedFailed sh
  | takeBack job =>
    simp only [Shared.step] at stepped
    split at stepped
    · rename_i retry
      cases stepped
      exact .retryTookBack sh retry
    · rename_i other
      cases stepped
      exact .tookBack sh other
  | settle job saved => exact settleStep_of stepped
  | discard id => exact discardStep_of stepped
  | settleDiscard id removed =>
    cases stepped
    exact .discardSettled sh
  | sweep now start point =>
    rcases sweepStep_of stepped with ⟨later, rfl, step⟩
    exact .sweep step
  | writeInventory revision text =>
    simp only [Shared.step] at stepped
    split at stepped
    · cases stepped
    · split at stepped
      · cases stepped
        exact .upToDate sh
      · cases stepped
        exact .writing sh
  | renameInventory revision text =>
    simp only [Shared.step] at stepped
    split at stepped
    · cases stepped
      exact .renamed sh
    · cases stepped
      exact .notRenamed sh
  | syncRuns revision =>
    simp only [Shared.step] at stepped
    split at stepped
    · cases stepped
      exact .inventoried sh
    · cases stepped
      exact .notInventoried sh

end Call

/-! ## The machine -/

def Next.calls : Next → List Call
  | .call next => [next]
  | _ => []

/-- The held results a step hands out. -/
def Next.helds : Next → List (ReportId × ℕ)
  | .held id room => [(id, room)]
  | _ => []

/-- An advance takes one step of one call and puts what follows in its place. -/
theorem advance_cases {m after : Machine} {which : ℕ} {pick : ℕ}
    (stepped : m.step (.advance which outcome pick) = some after) :
    ∃ before call later shared next,
      m.calls = before ++ call :: later ∧ m.calls[which]? = some call ∧
        m.shared.step outcome pick call = some (shared, next) ∧
        CallStep m.shared call shared next ∧
          after = { m with
            shared := shared
            calls := before ++ (next.calls ++ later)
            held := next.helds ++ m.held } := by
  simp only [Machine.step, bind, Option.bind_eq_some_iff] at stepped
  rcases stepped with ⟨call, found, ⟨shared, next⟩, moved, same⟩
  rcases List.getElem?_eq_some_iff.mp found with ⟨bound, got⟩
  have parts : m.calls = m.calls.take which ++ call :: m.calls.drop (which + 1) := by
    rw [← got, ← List.drop_eq_getElem_cons bound, List.take_append_drop]
  refine ⟨_, call, _, shared, next, parts, found, moved, callStep_of moved, ?_⟩
  cases next <;> cases same <;> rfl

end AgentDeck.Retained
