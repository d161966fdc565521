import AgentDeck.Retained.Bounds

/-!
# Which names a call touches

A write touches its own and its temporary name, a discard its report's own name, and a sweep the
names on its lists. At every other name the directory and the store's maps read as before
(`callStep_view`). Which names a call answers for, because a file is there that no map charges yet
or because a map still lists a file that is gone, is said by `Call.answersOwn?`,
`Call.answersTemp?` and `Call.drops?`.
-/

namespace AgentDeck.Retained

/-! ## What calls are about -/

/-- The write a call is at work on, until its accounting. -/
def Call.atWork? : Call → Option Job
  | .create job | .fill job | .publish job | .link job | .removeAlias job | .removeTemp job =>
    some job
  | .syncDir job _ | .removeOwn job _ | .record job _ => some job
  | _ => none

/-- The write whose file is under its own name and in no map. -/
def Call.answersOwn? : Call → Option Job
  | .removeAlias job | .syncDir job _ | .removeOwn job _ => some job
  | .record job (.saved _) | .record job (.failed _ false) => some job
  | _ => none

/-- The write whose file is under its temporary name and in no map. -/
def Call.answersTemp? : Call → Option Job
  | .fill job | .publish job | .link job | .removeAlias job | .removeTemp job => some job
  | .syncDir job (some _) | .removeOwn job (some _) => some job
  | .record job (.saved (some _)) | .record job (.failed (some _) _) => some job
  | _ => none

/-- The name a call is about to drop from its map, its file being gone. -/
def Call.drops? : Call → Option Name
  | .sweep _ _ (.dropOwn name _) => some name
  | .sweep _ _ (.dropStray temp _) => some temp
  | .settleDiscard id true => some (ownName id.text)
  | _ => none

def Call.discards? : Call → Option ReportId
  | .discard id | .settleDiscard id _ => some id
  | _ => none

def SweepPoint.lists : SweepPoint → List Name
  | .own rest => rest.map Prod.fst
  | .claim name rest | .unlinkOwn name rest | .dropOwn name rest => name :: rest.map Prod.fst
  | .unlinkStray rest => rest
  | .dropStray temp rest => temp :: rest
  | _ => []

def Call.lists : Call → List Name
  | .sweep _ _ point => point.lists
  | _ => []

/-- The names a call may touch in its next step. -/
def Call.Touches (call : Call) (name : Name) : Prop :=
  (∃ job ∈ call.atWork?, name = job.name ∨ name = job.temp) ∨
    (∃ id ∈ call.discards?, name = ownName id.text) ∨ name ∈ call.lists ∨
      (call.isSweep = true ∧ parseAdoptedName name ≠ none)

variable {call : Call}

theorem atWork?_of_answersOwn? {job : Job} (found : job ∈ call.answersOwn?) :
    job ∈ call.atWork? := by
  cases call with
  | removeAlias other => exact found
  | syncDir other stray => exact found
  | removeOwn other stray => exact found
  | record other written =>
    cases written with
    | saved stray => exact found
    | failed stray removed =>
      cases removed with
      | false => exact found
      | true => cases found
  | _ => cases found

theorem atWork?_of_answersTemp? {job : Job} (found : job ∈ call.answersTemp?) :
    job ∈ call.atWork? := by
  cases call with
  | fill other => exact found
  | publish other => exact found
  | link other => exact found
  | removeAlias other => exact found
  | removeTemp other => exact found
  | syncDir other stray | removeOwn other stray =>
    cases stray with
    | none => cases found
    | some temp => exact found
  | record other written =>
    cases written with
    | saved stray | failed stray removed =>
      cases stray with
      | none => cases found
      | some temp => exact found
  | _ => cases found

theorem job?_of_atWork? {job : Job} (found : job ∈ call.atWork?) : job ∈ call.job? := by
  cases call with
  | create other | fill other | publish other | link other | removeAlias other | removeTemp other
  | syncDir other stray | removeOwn other stray | record other written => exact found
  | _ => cases found

variable {name : Name}

theorem Call.drops_touches (found : name ∈ call.drops?) : call.Touches name := by
  cases call with
  | sweep now start point =>
    cases point with
    | dropOwn dropped rest | dropStray temp rest =>
      cases found
      exact Or.inr (Or.inr (Or.inl List.mem_cons_self))
    | _ => cases found
  | settleDiscard id removed =>
    cases removed with
    | true =>
      cases found
      exact Or.inr (Or.inl ⟨id, rfl, rfl⟩)
    | false => cases found
  | _ => cases found

/-! ## Views -/

/-- What is filed under a name: the file, what it is charged as an own file, and as a stray. -/
structure View where
  file : Option Bytes
  own : Option ℕ
  stray : Option ℕ
  deriving DecidableEq

def Shared.view (sh : Shared) (name : Name) : View :=
  ⟨sh.dir.get? name, (sh.st.own.get? name).map OwnFile.bytes, sh.st.stray.get? name⟩

/-- The own files have the charges they had. -/
def SameCharges (st after : StoreState) : Prop :=
  ∀ name, (after.own.get? name).map OwnFile.bytes = (st.own.get? name).map OwnFile.bytes

variable {sh : Shared}

theorem view_of_dir {dir : Dir} (same : dir.get? name = sh.dir.get? name) :
    Shared.view { sh with dir := dir } name =
      sh.view name := by
  simp only [Shared.view, same]

theorem view_of_state {st : StoreState}
    (own : (st.own.get? name).map OwnFile.bytes = (sh.st.own.get? name).map OwnFile.bytes)
    (stray : st.stray.get? name = sh.st.stray.get? name) :
    Shared.view { sh with st := st } name = sh.view name := by
  simp only [Shared.view, own, stray]

theorem get?_insert_ne {κ : Type*} {ν : Type*} [LinearOrder κ] (map : SortedMap κ ν) {key other : κ}
    (value : ν) (differ : other ≠ key) : (map.insert key value).get? other = map.get? other := by
  rw [SortedMap.get?_insert, if_neg differ]

theorem get?_erase_ne {κ : Type*} {ν : Type*} [LinearOrder κ] (map : SortedMap κ ν) {key other : κ}
    (differ : other ≠ key) : (map.erase key).get? other = map.get? other := by
  rw [SortedMap.get?_erase, if_neg differ]

theorem sameCharges_insert {st : StoreState} {file new : OwnFile}
    (found : st.own.get? name = some file) (bytes : new.bytes = file.bytes) (other : Name) :
    ((st.own.insert name new).get? other).map OwnFile.bytes =
      (st.own.get? other).map OwnFile.bytes := by
  rw [SortedMap.get?_insert]
  split
  · rename_i same
    rw [same, found, Option.map_some, Option.map_some, bytes]
  · rfl

variable (st : StoreState)

theorem claim_charges (name : Name) (now : Now) : SameCharges st (st.claim name now).2 := by
  intro other
  simp only [StoreState.claim]
  split
  · rename_i file found
    split
    · apply sameCharges_insert found
      rfl
    · rfl
  · rfl

theorem transition_charges (id : Text) (now : Now) (next : OwnState → Option OwnState) :
    SameCharges st (st.transition id now next) := by
  intro other
  simp only [StoreState.transition]
  split
  · rename_i file found
    split
    · apply sameCharges_insert found
      rfl
    · rfl
  · rfl

theorem continueLifetime_charges (id : Text) (life : Lifetime) :
    SameCharges st (st.continueLifetime id life) := by
  intro other
  cases life with
  | referenced => rfl
  | acknowledged since | recovered since =>
    simp only [StoreState.continueLifetime]
    split
    · rename_i file found
      split
      · rfl
      · apply sameCharges_insert found
        rfl
    · rfl

theorem orphaned_charges (name : Name) : SameCharges st (st.settleDiscard name false) := by
  intro other
  simp only [StoreState.settleDiscard, Bool.false_eq_true, ↓reduceIte]
  split
  · rename_i file found
    apply sameCharges_insert found
    rfl
  · rfl

theorem dropOwn_own (name : Name) : (st.dropOwn name).own = st.own.erase name := by
  simp only [StoreState.dropOwn]
  split
  · rfl
  · rename_i absent
    apply SortedMap.ext_get?
    intro other
    rw [SortedMap.get?_erase]
    split
    · rename_i same
      rw [same, absent]
    · rfl

theorem dropOwn_stray (name : Name) : (st.dropOwn name).stray = st.stray := by
  simp only [StoreState.dropOwn]
  split <;> rfl

theorem settleDiscard_stray (name : Name) (removed : Bool) :
    (st.settleDiscard name removed).stray = st.stray := by
  simp only [StoreState.settleDiscard]
  split
  · exact dropOwn_stray st name
  · split <;> rfl

theorem claim_stray (name : Name) (now : Now) : (st.claim name now).2.stray = st.stray := by
  simp only [StoreState.claim]
  split
  · split <;> rfl
  · rfl

theorem publishRecount_view (sh : Shared) (start ours recount : ℕ) (complete : Bool) (name : Name) :
    Shared.view
      { sh with st := sh.st.publishRecount start ours recount complete } name = sh.view name := by
  simp only [StoreState.publishRecount]
  split <;> rfl

theorem sweepStep_view {after : Shared} {now : Now} {start : ℕ} {point : SweepPoint}
    {later : Option SweepPoint} (step : SweepStep now start sh point after later)
    (named : point.Named now) (unlisted : name ∉ point.lists)
    (other : parseAdoptedName name = none) : after.view name = sh.view name := by
  cases step with
  | claimed found due =>
    exact view_of_state (claim_charges _ _ _ _) (by rw [claim_stray])
  | ownRemoved =>
    exact view_of_dir (get?_erase_ne _ (List.ne_of_not_mem_cons unlisted))
  | ownDropped =>
    apply view_of_state
    · rw [dropOwn_own, get?_erase_ne _ (List.ne_of_not_mem_cons unlisted)]
    · rw [dropOwn_stray]
  | strayRemoved taken =>
    apply view_of_dir (get?_erase_ne _ _)
    rintro rfl
    exact unlisted taken.mem
  | strayDropped =>
    exact view_of_state rfl (get?_erase_ne _ (List.ne_of_not_mem_cons unlisted))
  | recounted => exact publishRecount_view sh _ _ _ _ name
  | adoptedRemoved found =>
    apply view_of_dir (get?_erase_ne _ _)
    rintro rfl
    rcases named with ⟨id, deadline, state, parsed, -⟩
    rw [other] at parsed
    cases parsed
  | _ => rfl

theorem chargeStray_ne {stray : SortedMap Name ℕ} {job : Job} {temp : Option Name} {bytes : ℕ}
    (leaves : job.Leaves temp) (differ : name ≠ job.temp) :
    (chargeStray stray temp bytes).get? name = stray.get? name := by
  rcases leaves with rfl | rfl
  · rfl
  · exact get?_insert_ne _ _ differ

theorem callStep_view {after : Shared} {next : Next} (step : CallStep sh call after next)
    (named : call.Named) (untouched : ¬ call.Touches name) : after.view name = sh.view name := by
  have work : ∀ job ∈ call.atWork?, name ≠ job.name ∧ name ≠ job.temp := by
    intro job mem
    constructor
    · rintro rfl
      exact untouched (Or.inl ⟨job, mem, Or.inl rfl⟩)
    · rintro rfl
      exact untouched (Or.inl ⟨job, mem, Or.inr rfl⟩)
  have discards : ∀ id ∈ call.discards?, name ≠ ownName id.text := by
    rintro id mem rfl
    exact untouched (Or.inr (Or.inl ⟨id, mem, rfl⟩))
  cases step with
  | created free | leftBehind free | filled | cutOff length =>
    exact view_of_dir (get?_insert_ne _ _ (work _ rfl).2)
  | published found free =>
    apply view_of_dir
    rw [get?_insert_ne _ _ (work _ rfl).1, get?_erase_ne _ (work _ rfl).2]
  | linked found free => exact view_of_dir (get?_insert_ne _ _ (work _ rfl).1)
  | aliasRemoved => exact view_of_dir (get?_erase_ne _ (work _ rfl).2)
  | tempRemoved => exact view_of_dir (get?_erase_ne _ (work _ rfl).2)
  | ownRemoved => exact view_of_dir (get?_erase_ne _ (work _ rfl).1)
  | recordedSaved =>
    apply view_of_state
    · exact congrArg _ (get?_insert_ne _ _ (work _ rfl).1)
    · exact chargeStray_ne named (work _ rfl).2
  | recordedFailed =>
    apply view_of_state
    · rw [recordFailed_own]
      split
      · rfl
      · exact congrArg _ (get?_insert_ne _ _ (work _ rfl).1)
    · rw [recordFailed_stray]
      exact chargeStray_ne named (work _ rfl).2
  | discarded => exact view_of_dir (get?_erase_ne _ (discards _ rfl))
  | discardSettled =>
    rename_i id removed
    apply view_of_state
    · cases removed with
      | false => exact orphaned_charges _ _ _
      | true =>
        change (((sh.st.dropOwn _).own.get? name).map OwnFile.bytes) = _
        rw [dropOwn_own, get?_erase_ne _ (discards _ rfl)]
    · rw [settleDiscard_stray]
  | sweep swept =>
    apply sweepStep_view swept named
    · intro listed
      exact untouched (Or.inr (Or.inr (Or.inl listed)))
    · by_contra adopted
      exact untouched (Or.inr (Or.inr (Or.inr ⟨rfl, adopted⟩)))
  | _ => rfl

end AgentDeck.Retained
