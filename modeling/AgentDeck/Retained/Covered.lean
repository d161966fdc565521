import AgentDeck.Retained.Touches

/-!
# What is filed is charged

Each file under an own or temporary name is charged at least its length by the store's maps, or a
call under way answers for it; and every own file the store lists is there, or a call is about to
drop it (`Covered`). One step of a call keeps this at the names it touches, given what the call
knows of its files (`Call.Sees`).
-/

namespace AgentDeck.Retained

/-! ## Reports and their names -/

variable {left right : ReportId}

theorem ReportId.eq_of_text (same : left.text = right.text) : left = right := by
  rcases right with ⟨right, rightValid⟩
  cases same
  rfl

theorem eq_of_append_cons {α : Type*} {separator : α} {left right first second : List α}
    (same : left ++ separator :: first = right ++ separator :: second) (outLeft : separator ∉ left)
    (outRight : separator ∉ right) : left = right := by
  induction left generalizing right with
  | nil =>
    cases right with
    | nil => rfl
    | cons head right =>
      cases same
      exact absurd List.mem_cons_self outRight
  | cons head left ih =>
    cases right with
    | nil =>
      cases same
      exact absurd List.mem_cons_self outLeft
    | cons other right =>
      rw [List.cons_append, List.cons_append, List.cons.injEq] at same
      rw [same.1, ih same.2 (fun mem => outLeft (List.mem_cons_of_mem head mem))
        fun mem => outRight (List.mem_cons_of_mem other mem)]

theorem ownName_eq (same : ownName left.text = ownName right.text) : left = right :=
  ReportId.eq_of_text (ownName_injective same)

theorem tempName_eq {tag other : Tag} (same : tempName left.text tag = tempName right.text other) :
    left = right := by
  apply ReportId.eq_of_text
  exact eq_of_append_cons (List.append_cancel_left same) (not_mem_of_valid left.valid (by decide))
    (not_mem_of_valid right.valid (by decide))

def ReportId.Names (id : ReportId) (name : Name) : Prop :=
  name = ownName id.text ∨ ∃ tag, name = tempName id.text tag

variable {name : Name}

theorem Job.names (job : Job) (same : name = job.name ∨ name = job.temp) : job.id.Names name := by
  rcases same with same | same
  · exact Or.inl same
  · exact Or.inr ⟨job.tag, same⟩

theorem ReportId.Names.eq (first : left.Names name) (second : right.Names name) : left = right := by
  rcases first with rfl | ⟨tag, rfl⟩
  · rcases second with same | ⟨other, same⟩
    · exact ownName_eq same
    · exact absurd same (ownName_ne_tempName _ _ _)
  · rcases second with same | ⟨other, same⟩
    · exact absurd same.symm (ownName_ne_tempName _ _ _)
    · exact tempName_eq same

theorem ReportId.Names.parseAdoptedName {id : ReportId} (names : id.Names name) :
    Retained.parseAdoptedName name = none := by
  rcases names with rfl | ⟨tag, rfl⟩
  · exact parseAdoptedName_ownName id
  · exact parseAdoptedName_tempName _ _

/-! ## Each report has one holder -/

def Call.writes (id : ReportId) (call : Call) : Bool := call.job?.any fun job =>
    decide (job.id = id)

def Machine.holders (m : Machine) (id : ReportId) : ℕ :=
  m.calls.countP (Call.writes id) + m.held.countP fun held => decide (held.1 = id)

variable {call : Call} {job : Job}

theorem writes_of_job? (found : job ∈ call.job?) : call.writes job.id := by
  rw [Call.writes, Option.mem_def.mp found, Option.any_some, decide_eq_true_eq]

variable {sh after : Shared} {next : Next}

theorem callStep_holders (step : CallStep sh call after next) (id : ReportId) :
    next.calls.countP (Call.writes id) + next.helds.countP (fun held => decide (held.1 = id)) ≤
      [call].countP (Call.writes id) := by
  cases step with
  | recordedSaved =>
    rename_i job stray
    rcases job with ⟨room, other, contents, wall, tag, purpose⟩
    cases purpose <;> simp [Job.after, Next.calls, Next.helds, Call.writes, Call.job?]
  | recordedFailed =>
    rename_i job stray removed
    rcases job with ⟨room, other, contents, wall, tag, purpose⟩
    cases purpose <;> simp [Job.after, Next.calls, Next.helds, Call.writes, Call.job?]
  | sweep swept =>
    rename_i later
    cases later <;> simp [sweepNext, Next.calls, Next.helds, Call.writes, Call.job?]
  | _ =>
    simp [Next.calls, Next.helds, Call.writes, Call.job?]

def Single (m : Machine) : Prop := ∀ id, m.holders id ≤ 1

theorem Single.advance {m after : Machine} {which : ℕ} {outcome : Outcome} {pick : ℕ}
    (stepped : m.step (.advance which outcome pick) = some after) (id : ReportId) :
    after.holders id ≤ m.holders id := by
  rcases advance_cases stepped with ⟨before, call, later, shared, next, calls, -, -, step, rfl⟩
  have fewer := callStep_holders step id
  simp only [Machine.holders, calls, List.countP_append, List.countP_cons, List.countP_nil]
    at fewer ⊢
  omega

theorem Single.others {m : Machine} (single : Single m) {before later : List Call}
    (calls : m.calls = before ++ call :: later) (found : job ∈ call.job?) {other : Call}
    (mem : other ∈ before ∨ other ∈ later) {held : Job} (place : held ∈ other.job?) :
    held.id ≠ job.id := by
  intro same
  have one := single job.id
  have mine : Call.writes job.id call := writes_of_job? found
  have theirs : Call.writes job.id other := same ▸ writes_of_job? place
  simp only [Machine.holders, calls, List.countP_append, List.countP_cons, mine, ↓reduceIte] at one
  rcases mem with mem | mem
  · have positive := List.countP_pos_iff.mpr ⟨other, mem, theirs⟩
    omega
  · have positive := List.countP_pos_iff.mpr ⟨other, mem, theirs⟩
    omega

/-! ## What a call knows of its files -/

/-- The files a call answers for are there, no longer than its contents, and what it drops is
gone. -/
structure Call.Sees (sh : Shared) (call : Call) : Prop where
  own : ∀ job ∈ call.answersOwn?, (sh.view job.name).own = none ∧
    ∃ bytes, (sh.view job.name).file = some bytes ∧ bytes.length ≤ job.contents.length
  temp : ∀ job ∈ call.answersTemp?,
    ∃ bytes, (sh.view job.temp).file = some bytes ∧ bytes.length ≤ job.contents.length
  gone : ∀ name ∈ call.drops?, (sh.view name).file = none

theorem Call.Sees.nothing (own : call.answersOwn? = none) (temp : call.answersTemp? = none)
    (drops : call.drops? = none) : call.Sees sh := by
  constructor
  · intro job found
    rw [own] at found
    cases found
  · intro job found
    rw [temp] at found
    cases found
  · intro name found
    rw [drops] at found
    cases found

theorem Call.Sees.passes {later : Call} (sees : call.Sees sh)
    (own : ∀ job ∈ later.answersOwn?, job ∈ call.answersOwn?)
    (temp : ∀ job ∈ later.answersTemp?, job ∈ call.answersTemp?) (drops : later.drops? = none) :
    later.Sees sh := by
  refine ⟨fun job found => sees.own job (own job found),
    fun job found => sees.temp job (temp job found), ?_⟩
  intro name found
  rw [drops] at found
  cases found

theorem Call.Sees.of_temp (own : call.answersOwn? = none) (temp : call.answersTemp? = some job)
    (drops : call.drops? = none) {bytes : Bytes} (found : sh.dir.get? job.temp = some bytes)
    (short : bytes.length ≤ job.contents.length) : call.Sees sh := by
  constructor
  · intro job found
    rw [own] at found
    cases found
  · intro other mem
    rw [temp] at mem
    cases mem
    exact ⟨bytes, found, short⟩
  · intro name found
    rw [drops] at found
    cases found

theorem Call.Sees.of_drops (own : call.answersOwn? = none) (temp : call.answersTemp? = none)
    (drops : call.drops? = some name) (gone : sh.dir.get? name = none) : call.Sees sh := by
  constructor
  · intro job found
    rw [own] at found
    cases found
  · intro job found
    rw [temp] at found
    cases found
  · intro other found
    rw [drops] at found
    cases found
    exact gone

theorem Job.name_ne_temp (job : Job) : job.name ≠ job.temp := job.isOwn.ne_temp job.isTemp

theorem get?_insert_self {κ : Type*} {ν : Type*} [LinearOrder κ] (map : SortedMap κ ν) (key : κ)
    (value : ν) : (map.insert key value).get? key = some value := by
  rw [SortedMap.get?_insert, if_pos rfl]

theorem get?_erase_self {κ : Type*} {ν : Type*} [LinearOrder κ] (map : SortedMap κ ν) (key : κ) :
    (map.erase key).get? key = none := by
  rw [SortedMap.get?_erase, if_pos rfl]

theorem sees_after (sh : Shared) (job : Job) (saved : Bool) :
    ∀ call ∈ (job.after saved).calls, call.Sees sh := by
  rcases job with ⟨room, id, contents, wall, tag, purpose⟩
  cases purpose with
  | report => exact fun call mem => absurd mem List.not_mem_nil
  | dispatch | retry =>
    cases saved with
    | true => exact List.forall_mem_singleton.mpr (.nothing rfl rfl rfl)
    | false => exact List.forall_mem_singleton.mpr (.nothing rfl rfl rfl)

variable {point : SweepPoint} {later : Option SweepPoint}

theorem sweepStep_sees {now : Now} {start : ℕ} (step : SweepStep now start sh point after later) :
    ∀ call ∈ (sweepNext now start later).calls, call.Sees after := by
  cases step with
  | missing taken gone | ownGone gone | strayGone taken gone =>
    exact List.forall_mem_singleton.mpr (.of_drops rfl rfl rfl gone)
  | ownRemoved | strayRemoved taken =>
    exact List.forall_mem_singleton.mpr (.of_drops rfl rfl rfl (get?_erase_self _ _))
  | recounted => exact fun call mem => absurd mem List.not_mem_nil
  | _ => exact List.forall_mem_singleton.mpr (.nothing rfl rfl rfl)

/-- What the call that takes the step knows afterwards. -/
theorem callStep_sees (step : CallStep sh call after next) (sees : call.Sees sh)
    (free : ∀ job ∈ call.atWork?, (sh.view job.name).file = none → (sh.view job.name).own = none) :
    ∀ later ∈ next.calls, later.Sees after := by
  cases step with
  | created absent | leftBehind absent =>
    exact List.forall_mem_singleton.mpr
      (.of_temp rfl rfl rfl (get?_insert_self _ _ _) (Nat.zero_le _))
  | filled =>
    exact List.forall_mem_singleton.mpr
      (.of_temp rfl rfl rfl (get?_insert_self _ _ _) le_rfl)
  | cutOff length =>
    refine List.forall_mem_singleton.mpr (.of_temp rfl rfl rfl (get?_insert_self _ _ _) ?_)
    rw [List.length_take]
    exact Nat.min_le_right _ _
  | notCreated | tempRemoved | tookBack other | notDiscarded | writing | renamed =>
    exact List.forall_mem_singleton.mpr (.nothing rfl rfl rfl)
  | notFilled | noRename | notPublished | notLinked | tempKept =>
    exact List.forall_mem_singleton.mpr
      (sees.passes (fun _ found => of_none found) (fun _ found => found) rfl)
  | published found absent =>
    rename_i job bytes
    rcases sees.temp job rfl with ⟨old, there, short⟩
    cases found.symm.trans there
    refine List.forall_mem_singleton.mpr ⟨?_, fun _ mem => of_none mem,
      fun _ mem => of_none mem⟩
    rintro other ⟨⟩
    exact ⟨free job rfl absent, bytes, get?_insert_self _ _ _, short⟩
  | linked found absent =>
    rename_i job bytes
    rcases sees.temp job rfl with ⟨old, there, short⟩
    cases found.symm.trans there
    refine List.forall_mem_singleton.mpr ⟨?_, ?_, fun _ mem => of_none mem⟩
    · rintro other ⟨⟩
      exact ⟨free job rfl absent, bytes, get?_insert_self _ _ _, short⟩
    · rintro other ⟨⟩
      exact ⟨bytes, (get?_insert_ne _ _ job.name_ne_temp.symm).trans found, short⟩
  | aliasRemoved =>
    rename_i job
    rcases sees.own job rfl with ⟨unlisted, bytes, there, short⟩
    refine List.forall_mem_singleton.mpr ⟨?_, fun _ mem => of_none mem,
      fun _ mem => of_none mem⟩
    rintro other ⟨⟩
    exact ⟨unlisted, bytes, (get?_erase_ne _ job.name_ne_temp).trans there, short⟩
  | aliasKept =>
    exact List.forall_mem_singleton.mpr
      (sees.passes (fun _ found => found) (fun _ found => found) rfl)
  | synced | notSynced | ownKept =>
    rename_i job stray
    cases stray <;> exact List.forall_mem_singleton.mpr
      (sees.passes (fun _ found => found) (fun _ found => found) rfl)
  | ownRemoved =>
    rename_i job stray
    cases stray with
    | none => exact List.forall_mem_singleton.mpr (.nothing rfl rfl rfl)
    | some temp =>
      rcases sees.temp job rfl with ⟨bytes, there, short⟩
      exact List.forall_mem_singleton.mpr
        (.of_temp rfl rfl rfl ((get?_erase_ne _ job.name_ne_temp.symm).trans there) short)
  | recordedSaved => exact sees_after _ _ _
  | recordedFailed => exact sees_after _ _ _
  | discarded =>
    exact List.forall_mem_singleton.mpr (.of_drops rfl rfl rfl (get?_erase_self _ _))
  | nothingToDiscard gone => exact List.forall_mem_singleton.mpr (.of_drops rfl rfl rfl gone)
  | sweep swept => exact sweepStep_sees swept
  | _ => exact fun call mem => absurd mem List.not_mem_nil

theorem callStep_stays_gone (step : CallStep sh call after next)
    (gone : (sh.view name).file = none) :
    (after.view name).file = none ∨ ∃ job ∈ call.atWork?, name = job.name ∨ name = job.temp := by
  have erased : ∀ other, (sh.dir.erase other).get? name = none := by
    intro other
    rw [SortedMap.get?_erase]
    split
    · rfl
    · exact gone
  by_cases work : ∃ job ∈ call.atWork?, name = job.name ∨ name = job.temp
  · exact Or.inr work
  · left
    cases step with
    | discarded => exact erased _
    | sweep swept =>
      cases swept with
      | ownRemoved => exact erased _
      | strayRemoved taken => exact erased _
      | adoptedRemoved found => exact erased _
      | _ => exact gone
    | created free | leftBehind free | cutOff length =>
      exact (get?_insert_ne _ _ fun same => work ⟨_, rfl, Or.inr same⟩).trans gone
    | filled => exact (get?_insert_ne _ _ fun same => work ⟨_, rfl, Or.inr same⟩).trans gone
    | published found free =>
      exact (get?_insert_ne _ _ fun same => work ⟨_, rfl, Or.inl same⟩).trans (erased _)
    | linked found free =>
      exact (get?_insert_ne _ _ fun same => work ⟨_, rfl, Or.inl same⟩).trans gone
    | aliasRemoved => exact erased _
    | tempRemoved => exact erased _
    | ownRemoved => exact erased _
    | _ => exact gone

/-! ## What is filed is charged -/

/-- A file under the name is charged at least its length, or one of the calls answers for it; an
own file listed under it is there, or one of the calls drops it. -/
structure Covered (sh : Shared) (calls : Call → Prop) (name : Name) : Prop where
  own : parseOwnName name ≠ none → ∀ bytes, (sh.view name).file = some bytes →
    (∃ room, (sh.view name).own = some room ∧ bytes.length ≤ room) ∨
      ∃ call, calls call ∧ ∃ job ∈ call.answersOwn?, name = job.name
  temp : isTempName name = true → ∀ bytes, (sh.view name).file = some bytes →
    (∃ room, (sh.view name).stray = some room ∧ bytes.length ≤ room) ∨
      ∃ call, calls call ∧ ∃ job ∈ call.answersTemp?, name = job.temp
  present : (sh.view name).own ≠ none →
    (sh.view name).file ≠ none ∨ ∃ call, calls call ∧ name ∈ call.drops?

variable {calls : Call → Prop}

theorem Covered.same {later : Call → Prop} (covered : Covered sh calls name)
    (view : after.view name = sh.view name)
    (own : ∀ call, calls call → ∀ job ∈ call.answersOwn?, name = job.name →
      ∃ next, later next ∧ ∃ job ∈ next.answersOwn?, name = job.name)
    (temp : ∀ call, calls call → ∀ job ∈ call.answersTemp?, name = job.temp →
      ∃ next, later next ∧ ∃ job ∈ next.answersTemp?, name = job.temp)
    (drops : ∀ call, calls call → name ∈ call.drops? → ∃ next, later next ∧ name ∈ next.drops?) :
    Covered after later name := by
  constructor
  · intro parsed bytes found
    rw [view] at found ⊢
    rcases covered.own parsed bytes found with charged | ⟨call, mem, job, answers, same⟩
    · exact Or.inl charged
    · exact Or.inr (own call mem job answers same)
  · intro isTemp bytes found
    rw [view] at found ⊢
    rcases covered.temp isTemp bytes found with charged | ⟨call, mem, job, answers, same⟩
    · exact Or.inl charged
    · exact Or.inr (temp call mem job answers same)
  · intro listed
    rw [view] at listed ⊢
    rcases covered.present listed with there | ⟨call, mem, found⟩
    · exact Or.inl there
    · exact Or.inr (drops call mem found)

theorem Covered.mono {later : Call → Prop} (covered : Covered sh calls name)
    (more : ∀ call, calls call → later call) : Covered sh later name :=
  covered.same rfl (fun call mem job found same => ⟨call, more call mem, job, found, same⟩)
    (fun call mem job found same => ⟨call, more call mem, job, found, same⟩)
    fun call mem found => ⟨call, more call mem, found⟩

def Beside (calls : List Call) (others : Call → Prop) (call : Call) : Prop :=
  call ∈ calls ∨ others call

variable {others : Call → Prop}

theorem Covered.goes_on {next : List Call} (covered : Covered sh (Beside [call] others) name)
    (view : after.view name = sh.view name)
    (own : ∀ job ∈ call.answersOwn?, name = job.name → ∃ later ∈ next, job ∈ later.answersOwn?)
    (temp : ∀ job ∈ call.answersTemp?, name = job.temp → ∃ later ∈ next, job ∈ later.answersTemp?)
    (drops : name ∈ call.drops? → ∃ later ∈ next, name ∈ later.drops?) :
    Covered after (Beside next others) name := by
  apply covered.same view
  · rintro other (mem | mem) job found same
    · rw [List.mem_singleton.mp mem] at found
      rcases own job found same with ⟨later, inside, answers⟩
      exact ⟨later, Or.inl inside, job, answers, same⟩
    · exact ⟨other, Or.inr mem, job, found, same⟩
  · rintro other (mem | mem) job found same
    · rw [List.mem_singleton.mp mem] at found
      rcases temp job found same with ⟨later, inside, answers⟩
      exact ⟨later, Or.inl inside, job, answers, same⟩
    · exact ⟨other, Or.inr mem, job, found, same⟩
  · rintro other (mem | mem) found
    · rw [List.mem_singleton.mp mem] at found
      rcases drops found with ⟨later, inside, dropped⟩
      exact ⟨later, Or.inl inside, dropped⟩
    · exact ⟨other, Or.inr mem, found⟩

theorem Covered.of_gone (gone : (after.view name).file = none)
    (listed : (after.view name).own ≠ none → ∃ call, calls call ∧ name ∈ call.drops?) :
    Covered after calls name := by
  refine ⟨?_, ?_, fun own => Or.inr (listed own)⟩
  · intro parsed bytes found
    rw [gone] at found
    cases found
  · intro isTemp bytes found
    rw [gone] at found
    cases found

theorem Filed.temp_unlisted (filed : Filed sh.st) (temp : IsTemp name) :
    (sh.view name).own = none := by
  simp only [Shared.view, Option.map_eq_none_iff]
  rw [Option.eq_none_iff_forall_ne_some]
  intro file found
  exact (filed.own name file found).ne_temp temp rfl

theorem Covered.of_temp (filed : Filed after.st)
    (temp : ∀ bytes, (after.view job.temp).file = some bytes →
      (∃ room, (after.view job.temp).stray = some room ∧ bytes.length ≤ room) ∨
        ∃ call, calls call ∧ job ∈ call.answersTemp?) : Covered after calls job.temp := by
  refine ⟨?_, ?_, ?_⟩
  · intro parsed
    exact absurd (parseOwnName_tempName _ _) parsed
  · intro _ bytes found
    rcases temp bytes found with charged | ⟨call, mem, answers⟩
    · exact Or.inl charged
    · exact Or.inr ⟨call, mem, job, answers, rfl⟩
  · intro listed
    exact absurd (filed.temp_unlisted job.isTemp) listed

theorem Covered.of_own (own : ∀ bytes, (after.view job.name).file = some bytes →
      (∃ room, (after.view job.name).own = some room ∧ bytes.length ≤ room) ∨
        ∃ call, calls call ∧ job ∈ call.answersOwn?)
    (there : (after.view job.name).own ≠ none → (after.view job.name).file ≠ none) :
    Covered after calls job.name := by
  refine ⟨?_, ?_, fun listed => Or.inl (there listed)⟩
  · intro _ bytes found
    rcases own bytes found with charged | ⟨call, mem, answers⟩
    · exact Or.inl charged
    · exact Or.inr ⟨call, mem, job, answers, rfl⟩
  · intro isTemp
    have other := isTempName_ownName job.id.text
    rw [show ownName job.id.text = job.name from rfl, isTemp] at other
    cases other

theorem drops?_of_atWork? (work : call.atWork? = some job) : call.drops? = none := by
  cases call with
  | sweep now start point => cases work
  | settleDiscard id removed => cases work
  | _ => rfl

section Write

variable {sh after : Shared} {call : Call} {next : List Call} {others : Call → Prop} {job : Job}

theorem Covered.own_goes_on (covered : Covered sh (Beside [call] others) job.name)
    (work : call.atWork? = some job) (view : after.view job.name = sh.view job.name)
    (own : call.answersOwn? = some job → ∃ later ∈ next, later.answersOwn? = some job) :
    Covered after (Beside next others) job.name := by
  apply covered.goes_on view
  · intro other found same
    have mine := atWork?_of_answersOwn? found
    cases work.symm.trans mine
    exact own found
  · intro other found same
    have mine := atWork?_of_answersTemp? found
    cases work.symm.trans mine
    exact absurd same job.name_ne_temp
  · intro found
    rw [drops?_of_atWork? work] at found
    cases found

theorem Covered.temp_goes_on (covered : Covered sh (Beside [call] others) job.temp)
    (work : call.atWork? = some job) (view : after.view job.temp = sh.view job.temp)
    (temp : call.answersTemp? = some job → ∃ later ∈ next, later.answersTemp? = some job) :
    Covered after (Beside next others) job.temp := by
  apply covered.goes_on view
  · intro other found same
    have mine := atWork?_of_answersOwn? found
    cases work.symm.trans mine
    exact absurd same.symm job.name_ne_temp
  · intro other found same
    have mine := atWork?_of_answersTemp? found
    cases work.symm.trans mine
    exact temp found
  · intro found
    rw [drops?_of_atWork? work] at found
    cases found

end Write

section

variable (step : CallStep sh call after next)

include step

/-- The own name of a write, over a step of the write. -/
theorem callStep_covered_own (work : call.atWork? = some job) (named : call.Named)
    (sees : call.Sees sh) (roomy : job.contents.length ≤ job.room)
    (covered : Covered sh (Beside [call] others) job.name) :
    Covered after (Beside next.calls others) job.name := by
  have apart := job.name_ne_temp
  cases step with
  | created free | leftBehind free | filled | cutOff length =>
    cases work
    exact covered.own_goes_on rfl (view_of_dir (get?_insert_ne _ _ apart))
      fun answers => of_none answers
  | notCreated | notFilled | noRename | notPublished | notLinked | tempKept =>
    cases work
    exact covered.own_goes_on rfl rfl fun answers => of_none answers
  | published found free | linked found free =>
    cases work
    refine .of_own (fun bytes _ => Or.inr ⟨_, Or.inl List.mem_cons_self, rfl⟩) fun _ gone => ?_
    exact Option.some_ne_none _ ((get?_insert_self _ _ _).symm.trans gone)
  | aliasRemoved =>
    cases work
    exact covered.own_goes_on rfl (view_of_dir (get?_erase_ne _ apart))
      fun answers => ⟨_, List.mem_cons_self, answers⟩
  | aliasKept | synced | notSynced | ownKept =>
    cases work
    exact covered.own_goes_on rfl rfl fun answers => ⟨_, List.mem_cons_self, answers⟩
  | tempRemoved =>
    cases work
    exact covered.own_goes_on rfl (view_of_dir (get?_erase_ne _ apart))
      fun answers => of_none answers
  | ownRemoved =>
    cases work
    refine .of_gone (get?_erase_self sh.dir job.name) fun listed => ?_
    exact absurd (sees.own job rfl).1 listed
  | recordedSaved =>
    cases work
    rcases sees.own job rfl with ⟨-, bytes, there, short⟩
    have charged : ∀ st : StoreState, ∀ stray, (Shared.view { sh with
        st := st.recordSaved job.room job.id.text job.contents.length job.wall stray }
          job.name).own = some job.contents.length := by
      intro st stray
      simp only [Shared.view]
      exact congrArg _ (get?_insert_self _ _ _)
    refine .of_own (fun other found => Or.inl ⟨_, charged _ _, ?_⟩) fun _ gone => ?_
    · cases there.symm.trans found
      exact short
    · exact Option.some_ne_none _ (there.symm.trans gone)
  | recordedFailed =>
    cases work
    rename_i stray removed
    cases removed with
    | true =>
      refine covered.own_goes_on rfl (view_of_state ?_ ?_) fun answers => of_none answers
      · rw [recordFailed_own]
        rfl
      · rw [recordFailed_stray]
        exact chargeStray_ne named apart
    | false =>
      rcases sees.own job rfl with ⟨-, bytes, there, short⟩
      have charged : (Shared.view { sh with
          st := sh.st.recordFailed job.room job.id.text job.wall stray false }
            job.name).own = some job.room := by
        simp only [Shared.view]
        exact congrArg _ (get?_insert_self _ _ _)
      refine .of_own (fun other found => Or.inl ⟨_, charged, ?_⟩) fun _ gone => ?_
      · cases there.symm.trans found
        exact short.trans roomy
      · exact Option.some_ne_none _ (there.symm.trans gone)
  | _ => cases work

/-- The temporary name of a write, over a step of the write. -/
theorem callStep_covered_temp (work : call.atWork? = some job) (named : call.Named)
    (sees : call.Sees sh) (roomy : job.contents.length ≤ job.room) (filed : Filed after.st)
    (covered : Covered sh (Beside [call] others) job.temp) :
    Covered after (Beside next.calls others) job.temp := by
  have apart := job.name_ne_temp.symm
  have answered : ∀ {call : Call}, call.answersTemp? = some job →
      Covered after (Beside [call] others) job.temp :=
    fun answers => .of_temp filed fun _ _ => Or.inr ⟨_, Or.inl List.mem_cons_self, answers⟩
  have gone : ∀ {calls : List Call}, (after.view job.temp).file = none →
      Covered after (Beside calls others) job.temp := by
    intro calls absent
    apply Covered.of_temp filed
    intro bytes found
    cases absent.symm.trans found
  cases step with
  | created free | leftBehind free | filled | cutOff length | notFilled | noRename | notPublished
  | linked found free | notLinked | aliasKept | tempKept =>
    cases work
    exact answered rfl
  | notCreated =>
    cases work
    exact covered.temp_goes_on rfl rfl fun answers => of_none answers
  | published found free =>
    cases work
    exact gone ((get?_insert_ne _ _ apart).trans (get?_erase_self _ _))
  | aliasRemoved =>
    cases work
    exact gone (get?_erase_self _ _)
  | synced | notSynced | ownKept =>
    cases work
    rename_i stray
    cases stray with
    | none => exact covered.temp_goes_on rfl rfl fun answers => of_none answers
    | some temp => exact answered rfl
  | tempRemoved =>
    cases work
    exact gone (get?_erase_self _ _)
  | ownRemoved =>
    cases work
    rename_i stray
    cases stray with
    | none =>
      exact covered.temp_goes_on rfl (view_of_dir (get?_erase_ne _ apart))
        fun answers => of_none answers
    | some temp => exact answered rfl
  | recordedSaved =>
    cases work
    rcases named with rfl | rfl
    · refine covered.temp_goes_on rfl (view_of_state ?_ rfl) fun answers => of_none answers
      exact congrArg _ (get?_insert_ne _ _ apart)
    · rcases sees.temp job rfl with ⟨bytes, there, short⟩
      refine .of_temp filed fun other found => Or.inl ⟨max job.contents.length 1, ?_, ?_⟩
      · exact get?_insert_self _ _ _
      · cases there.symm.trans found
        exact short.trans (Nat.le_max_left _ _)
  | recordedFailed =>
    cases work
    rcases named with rfl | rfl
    · refine covered.temp_goes_on rfl (view_of_state ?_ ?_) fun answers => of_none answers
      · rw [recordFailed_own]
        split
        · rfl
        · exact congrArg _ (get?_insert_ne _ _ apart)
      · rw [recordFailed_stray]
        rfl
    · rcases sees.temp job rfl with ⟨bytes, there, short⟩
      refine .of_temp filed fun other found => Or.inl ⟨job.room, ?_, ?_⟩
      · simp only [Shared.view, recordFailed_stray]
        exact get?_insert_self _ _ _
      · cases there.symm.trans found
        exact short.trans roomy
  | _ => cases work

theorem callStep_covered_discard {id : ReportId} (discards : call.discards? = some id)
    (sees : call.Sees sh) (covered : Covered sh (Beside [call] others) (ownName id.text)) :
    Covered after (Beside next.calls others) (ownName id.text) := by
  cases step with
  | discarded =>
    cases discards
    exact .of_gone (get?_erase_self sh.dir _)
      fun _ => ⟨_, Or.inl List.mem_cons_self, rfl⟩
  | nothingToDiscard gone =>
    cases discards
    exact .of_gone gone fun _ => ⟨_, Or.inl List.mem_cons_self, rfl⟩
  | notDiscarded =>
    exact covered.goes_on rfl (fun _ answers => of_none answers) (fun _ answers => of_none answers)
      fun drops => of_none drops
  | discardSettled =>
    cases discards
    rename_i removed
    cases removed with
    | true =>
      refine .of_gone (sees.gone _ rfl) fun listed => absurd ?_ listed
      change (((sh.st.dropOwn _).own.get? _).map OwnFile.bytes) = none
      rw [dropOwn_own, get?_erase_self, Option.map_none]
    | false =>
      refine covered.goes_on (view_of_state (orphaned_charges _ _ _) ?_)
        (fun _ answers => of_none answers) (fun _ answers => of_none answers)
        fun drops => of_none drops
      rw [settleDiscard_stray]
  | _ => cases discards

end

theorem sweepStep_covered {now : Now} {start : ℕ} (step : SweepStep now start sh point after later)
    (named : point.Named now) (filed : Filed sh.st) (sees : (Call.sweep now start point).Sees sh)
    (other : parseAdoptedName name = none)
    (covered : Covered sh (Beside [.sweep now start point] others) name) :
    Covered after (Beside (sweepNext now start later).calls others) name := by
  have goes_on : ∀ {after : Shared}, after.view name = sh.view name →
      (name ∈ (Call.sweep now start point).drops? →
        ∃ call ∈ (sweepNext now start later).calls, name ∈ call.drops?) →
      Covered after (Beside (sweepNext now start later).calls others) name :=
    fun view drops => covered.goes_on view (fun _ answers => of_none answers)
      (fun _ answers => of_none answers) drops
  cases step with
  | claimed found due =>
    refine goes_on (view_of_state (claim_charges _ _ _ _) ?_) fun drops => of_none drops
    rw [claim_stray]
  | ownRemoved =>
    rename_i removed rest
    by_cases same : name = removed
    · subst same
      exact .of_gone (get?_erase_self sh.dir _) fun _ => ⟨_, Or.inl List.mem_cons_self, rfl⟩
    · exact goes_on (view_of_dir (get?_erase_ne _ same)) fun drops => of_none drops
  | ownDropped =>
    rename_i dropped rest
    by_cases same : name = dropped
    · subst same
      refine .of_gone (sees.gone _ rfl) fun listed => absurd ?_ listed
      change (((sh.st.dropOwn _).own.get? _).map OwnFile.bytes) = none
      rw [dropOwn_own, get?_erase_self, Option.map_none]
    · refine goes_on (view_of_state ?_ ?_) ?_
      · rw [dropOwn_own, get?_erase_ne _ same]
      · rw [dropOwn_stray]
      · rintro ⟨⟩
        exact absurd rfl same
  | strayRemoved taken =>
    rename_i temp list rest
    by_cases same : name = temp
    · subst same
      refine .of_gone (get?_erase_self sh.dir _) fun listed => absurd ?_ listed
      exact filed.temp_unlisted (named _ taken.mem)
    · exact goes_on (view_of_dir (get?_erase_ne _ same)) fun drops => of_none drops
  | strayDropped =>
    rename_i temp rest
    by_cases same : name = temp
    · subst same
      refine .of_gone (sees.gone _ rfl) fun listed => absurd ?_ listed
      exact filed.temp_unlisted named.1
    · refine goes_on (view_of_state rfl (get?_erase_ne _ same)) ?_
      rintro ⟨⟩
      exact absurd rfl same
  | recounted =>
    exact goes_on (publishRecount_view sh _ _ _ _ name) fun drops => of_none drops
  | adoptedRemoved found =>
    refine goes_on (view_of_dir (get?_erase_ne _ ?_)) fun drops => of_none drops
    rintro rfl
    rcases named with ⟨id, deadline, state, parsed, -⟩
    rw [other] at parsed
    cases parsed
  | _ => exact goes_on rfl fun drops => of_none drops

theorem covered_adopted (filed : Filed sh.st) (adopted : parseAdoptedName name ≠ none) :
    Covered sh calls name := by
  rcases Option.ne_none_iff_exists'.mp adopted with ⟨⟨id, deadline, state⟩, parsed⟩
  refine ⟨?_, ?_, ?_⟩
  · intro own
    exact absurd (parseOwnName_of_adopted parsed) own
  · intro temp
    rw [isTempName_of_adopted parsed] at temp
    cases temp
  · intro listed
    simp only [Shared.view, ne_eq, Option.map_eq_none_iff] at listed
    rcases Option.ne_none_iff_exists'.mp listed with ⟨file, found⟩
    exact absurd (filed.own name file found).parseAdoptedName adopted

/-! ## Calls that keep apart -/

/-- A write at work is not being discarded, no sweep lists its names, and a retry has no sweep
beside it. -/
structure Apart (call other : Call) : Prop where
  discards : ∀ job ∈ call.atWork?, ∀ id ∈ other.discards?, id ≠ job.id
  lists : ∀ job ∈ call.atWork?, other.isSweep = true →
    job.purpose ≠ .retry ∧ ∀ name ∈ other.lists, ¬ job.id.Names name

theorem isSweep_of_lists (mem : name ∈ call.lists) : call.isSweep := by
  cases call with
  | sweep now start point => rfl
  | _ => cases mem

theorem Apart.untouched {other : Call} (apart : Apart call other) (work : job ∈ call.atWork?)
    (differs : ∀ held ∈ other.job?, held.id ≠ job.id) (names : job.id.Names name) :
    ¬ other.Touches name := by
  rintro (⟨held, found, same⟩ | ⟨id, found, rfl⟩ | listed | ⟨-, adopted⟩)
  · exact differs held (job?_of_atWork? found) ((held.names same).eq names)
  · exact apart.discards job work id found (ReportId.Names.eq (Or.inl rfl) names)
  · exact (apart.lists job work (isSweep_of_lists listed)).2 name listed names
  · exact adopted names.parseAdoptedName

theorem Apart.not_dropped {other : Call} (apart : Apart call other) (work : job ∈ call.atWork?)
    (names : job.id.Names name) : name ∉ other.drops? := by
  intro dropped
  cases other with
  | sweep now start point =>
    have unlisted := (apart.lists job work rfl).2
    cases point with
    | dropOwn own rest =>
      cases dropped
      exact unlisted _ List.mem_cons_self names
    | dropStray temp rest =>
      cases dropped
      exact unlisted _ List.mem_cons_self names
    | _ => cases dropped
  | settleDiscard id removed =>
    cases removed with
    | false => cases dropped
    | true =>
      cases dropped
      exact apart.discards job work id rfl (ReportId.Names.eq (Or.inl rfl) names)
  | _ => cases dropped

theorem atWork?_after {saved : Bool} :
    ∀ call ∈ (job.after saved).calls, call.atWork? = none ∧ call.discards? = none := by
  rcases job with ⟨room, id, contents, wall, tag, purpose⟩
  cases purpose <;> cases saved <;> simp [Job.after, Next.calls, Call.atWork?, Call.discards?]

theorem callStep_atWork? (step : CallStep sh call after next) :
    ∀ later ∈ next.calls, ∀ job ∈ later.atWork?, job ∈ call.atWork? ∧ after.st = sh.st := by
  cases step with
  | recordedSaved | recordedFailed =>
    intro later mem job found
    rw [(atWork?_after later mem).1] at found
    cases found
  | sweep swept =>
    rename_i later
    cases later <;> simp [sweepNext, Next.calls, Call.atWork?]
  | _ => simp [Next.calls, Call.atWork?]

theorem callStep_discards? (step : CallStep sh call after next) :
    ∀ later ∈ next.calls, ∀ id ∈ later.discards?, id ∈ call.discards? := by
  cases step with
  | recordedSaved | recordedFailed =>
    intro later mem job found
    rw [(atWork?_after later mem).2] at found
    cases found
  | sweep swept =>
    rename_i later
    cases later <;> simp [sweepNext, Next.calls, Call.discards?]
  | _ => simp [Next.calls, Call.discards?]

theorem Taken.map_subset {entry : Name × OwnFile} {list rest : List (Name × OwnFile)}
    (taken : Taken entry list rest) (mem : name ∈ entry.1 :: rest.map Prod.fst) :
    name ∈ list.map Prod.fst := by
  rcases List.mem_cons.mp mem with rfl | mem
  · exact List.mem_map_of_mem taken.mem
  · rcases List.mem_map.mp mem with ⟨other, inside, rfl⟩
    exact List.mem_map_of_mem (taken.subset inside)

theorem sweepStep_lists {now : Now} {start : ℕ} (step : SweepStep now start sh point after later) :
    ∀ next ∈ later, ∀ name ∈ next.lists, name ∈ point.lists ∨ (sh.view name).stray ≠ none := by
  cases step with
  | listed =>
    rintro next ⟨⟩ name mem
    rcases mem_keys_of_get? mem with ⟨bytes, found⟩
    right
    simp only [Shared.view, found, ne_eq, reduceCtorEq, not_false_eq_true]
  | nominated taken due | missing taken gone =>
    rintro next ⟨⟩ name mem
    exact Or.inl (taken.map_subset mem)
  | passed taken =>
    rintro next ⟨⟩ name mem
    exact Or.inl (taken.map_subset (List.mem_cons_of_mem _ mem))
  | claimed found due | ownRemoved | ownGone gone =>
    rintro next ⟨⟩ name mem
    exact Or.inl mem
  | renewed | ownKept | ownDropped | strayDropped =>
    rintro next ⟨⟩ name mem
    exact Or.inl (List.mem_cons_of_mem _ mem)
  | strayRemoved taken | strayGone taken gone =>
    rintro next ⟨⟩ name mem
    rcases List.mem_cons.mp mem with rfl | mem
    · exact Or.inl taken.mem
    · exact Or.inl (taken.subset mem)
  | strayKept taken =>
    rintro next ⟨⟩ name mem
    exact Or.inl (taken.subset mem)
  | recounted => rintro next ⟨⟩
  | _ =>
    rintro next ⟨⟩ name mem
    cases mem

theorem callStep_lists (step : CallStep sh call after next) :
    ∀ later ∈ next.calls, ∀ name ∈ later.lists,
      name ∈ call.lists ∨ (call.isSweep = true ∧ (sh.view name).stray ≠ none) := by
  intro later mem name listed
  cases sweeps : call.isSweep with
  | false =>
    have other := isSweep_next step sweeps later mem
    rw [isSweep_of_lists listed] at other
    cases other
  | true =>
    cases step with
    | sweep swept =>
      rename_i point
      cases point with
      | none => cases mem
      | some point =>
        rw [List.mem_singleton.mp mem] at listed
        rcases sweepStep_lists swept point rfl name listed with inside | stray
        · exact Or.inl inside
        · exact Or.inr ⟨rfl, stray⟩
    | _ => cases sweeps

end AgentDeck.Retained
