import AgentDeck.Retained.Filed

/-!
# The sum of the adopted files

The store's adopted bytes are the lengths of the adopted files in its directory, but for a file a
sweep removed and has not yet taken off the sum. A sweep that reads every name therefore recounts
what the sum already says: its recount never raises it.
-/

namespace AgentDeck.Retained

/-! ## Adopted files of a directory -/

def adoptedLength (name : Name) (bytes : Bytes) : ℕ :=
  if (parseAdoptedName name).isSome then bytes.length else 0

def adoptedSum (dir : Dir) : ℕ := dir.total adoptedLength

def lengthOf (dir : Dir) (name : Name) : ℕ := ((dir.get? name).map (adoptedLength name)).getD 0

variable {name : Name}

theorem adoptedLength_of_none (other : parseAdoptedName name = none) (bytes : Bytes) :
    adoptedLength name bytes = 0 := by
  rw [adoptedLength, other]
  rfl

theorem adoptedLength_of_some (adopted : parseAdoptedName name ≠ none) (bytes : Bytes) :
    adoptedLength name bytes = bytes.length := by
  rw [adoptedLength, if_pos (Option.isSome_iff_ne_none.mpr adopted)]

theorem lengthOf_of_none (other : parseAdoptedName name = none) (dir : Dir) :
    lengthOf dir name = 0 := by
  rw [lengthOf]
  cases dir.get? name with
  | none => rfl
  | some bytes => exact adoptedLength_of_none other bytes

variable {dir : Dir}

theorem lengthOf_of_absent (gone : dir.get? name = none) : lengthOf dir name = 0 := by
  rw [lengthOf, gone]
  rfl

theorem lengthOf_of_found {bytes : Bytes} (found : dir.get? name = some bytes)
    (adopted : parseAdoptedName name ≠ none) : lengthOf dir name = bytes.length := by
  rw [lengthOf, found]
  exact adoptedLength_of_some adopted bytes

theorem sum_lengthOf_keys (dir : Dir) : (dir.keys.map (lengthOf dir)).sum = adoptedSum dir := by
  rw [SortedMap.keys, List.map_map]
  congr 1
  apply List.map_congr_left
  rintro ⟨name, bytes⟩ mem
  rw [Function.comp_apply, lengthOf, (dir.get?_eq_some_iff name bytes).mpr mem]
  rfl

structure SameAdopted (dir after : Dir) : Prop where
  sum : adoptedSum after = adoptedSum dir
  length : ∀ name, lengthOf after name = lengthOf dir name

theorem SameAdopted.refl (dir : Dir) : SameAdopted dir dir := ⟨rfl, fun _ => rfl⟩

theorem SameAdopted.trans {first second third : Dir} (one : SameAdopted first second)
    (two : SameAdopted second third) : SameAdopted first third :=
  ⟨two.sum.trans one.sum, fun name => (two.length name).trans (one.length name)⟩

theorem SameAdopted.insert (other : parseAdoptedName name = none) (dir : Dir) (bytes : Bytes) :
    SameAdopted dir (dir.insert name bytes) := by
  constructor
  · have parts : adoptedSum (dir.insert name bytes) + lengthOf dir name =
        adoptedSum dir + adoptedLength name bytes := dir.total_insert adoptedLength name bytes
    rw [lengthOf_of_none other, adoptedLength_of_none other] at parts
    exact parts
  · intro key
    by_cases same : key = name
    · rw [same, lengthOf_of_none other, lengthOf_of_none other]
    · rw [lengthOf, lengthOf, SortedMap.get?_insert, if_neg same]

theorem adoptedSum_erase (dir : Dir) (name : Name) :
    adoptedSum (dir.erase name) + lengthOf dir name = adoptedSum dir :=
  dir.total_erase adoptedLength name

theorem lengthOf_erase {key : Name} (other : key ≠ name) :
    lengthOf (dir.erase name) key = lengthOf dir key := by
  rw [lengthOf, lengthOf, SortedMap.get?_erase, if_neg other]

theorem SameAdopted.erase (other : parseAdoptedName name = none) (dir : Dir) :
    SameAdopted dir (dir.erase name) := by
  constructor
  · have parts := adoptedSum_erase dir name
    rw [lengthOf_of_none other] at parts
    exact parts
  · intro key
    by_cases same : key = name
    · rw [same, lengthOf_of_none other, lengthOf_of_none other]
    · exact lengthOf_erase same

/-! ## Steps of calls -/

variable (st : StoreState)

theorem recordFailed_adoptedBytes (room : ℕ) (id : Text) (wall : ℤ) (stray : Option Name)
    (removed : Bool) :
    (st.recordFailed room id wall stray removed).adoptedBytes = st.adoptedBytes := by
  cases stray <;> cases removed <;> rfl

theorem dropOwn_adoptedBytes (name : Name) : (st.dropOwn name).adoptedBytes = st.adoptedBytes := by
  simp only [StoreState.dropOwn]
  split <;> rfl

theorem settleDiscard_adoptedBytes (name : Name) (removed : Bool) :
    (st.settleDiscard name removed).adoptedBytes = st.adoptedBytes := by
  simp only [StoreState.settleDiscard]
  split
  · exact dropOwn_adoptedBytes st name
  · split <;> rfl

theorem claim_adoptedBytes (name : Name) (now : Now) :
    (st.claim name now).2.adoptedBytes = st.adoptedBytes := by
  simp only [StoreState.claim]
  split
  · split <;> rfl
  · rfl

variable {sh after : Shared} {call : Call}

theorem callStep_adopted {next : Next} (step : CallStep sh call after next)
    (other : call.isSweep = false) :
    SameAdopted sh.dir after.dir ∧ after.st.adoptedBytes = sh.st.adoptedBytes := by
  cases step with
  | created free | leftBehind free | filled | cutOff length =>
    exact ⟨.insert (Job.isTemp _).parseAdoptedName _ _, rfl⟩
  | published found free =>
    exact ⟨(SameAdopted.erase (Job.isTemp _).parseAdoptedName _).trans
      (.insert (Job.isOwn _).parseAdoptedName _ _), rfl⟩
  | linked found free => exact ⟨.insert (Job.isOwn _).parseAdoptedName _ _, rfl⟩
  | aliasRemoved => exact ⟨.erase (Job.isTemp _).parseAdoptedName _, rfl⟩
  | tempRemoved => exact ⟨.erase (Job.isTemp _).parseAdoptedName _, rfl⟩
  | ownRemoved => exact ⟨.erase (Job.isOwn _).parseAdoptedName _, rfl⟩
  | recordedFailed => exact ⟨.refl _, recordFailed_adoptedBytes ..⟩
  | discarded => exact ⟨.erase (parseAdoptedName_ownName _) _, rfl⟩
  | discardSettled => exact ⟨.refl _, settleDiscard_adoptedBytes ..⟩
  | sweep swept => cases other
  | _ => exact ⟨.refl _, rfl⟩

def SweepPoint.pending : SweepPoint → ℕ
  | .unadopt length _ => length
  | _ => 0

/-- A scan that has read every name so far: what it counted and what is left make the sum. -/
def Scan.Counts (dir : Dir) (scan : Scan) (more : ℕ) : Prop :=
  scan.complete = true →
    scan.recount + more + (scan.rest.map (lengthOf dir)).sum = adoptedSum dir

def SweepPoint.Counts (dir : Dir) : SweepPoint → Prop
  | .scan pass | .unadopt _ pass => pass.rest.Nodup ∧ pass.Counts dir 0
  | .statAdopted name _ pass => (name :: pass.rest).Nodup ∧ pass.Counts dir (lengthOf dir name)
  | .unlinkAdopted name length pass =>
    (name :: pass.rest).Nodup ∧ lengthOf dir name = length ∧ pass.Counts dir length
  | _ => True

theorem Scan.Counts.same {after : Dir} (same : SameAdopted dir after) {scan : Scan} {more : ℕ}
    (counts : scan.Counts dir more) : scan.Counts after more := by
  intro complete
  rw [same.sum, List.map_congr_left fun name _ => same.length name]
  exact counts complete

variable {point : SweepPoint}

theorem SweepPoint.Counts.same {after : Dir} (same : SameAdopted dir after)
    (counts : point.Counts dir) : point.Counts after := by
  cases point with
  | scan scan => exact ⟨counts.1, counts.2.same same⟩
  | unadopt length scan => exact ⟨counts.1, counts.2.same same⟩
  | statAdopted name deadline scan =>
    refine ⟨counts.1, ?_⟩
    rw [same.length]
    exact counts.2.same same
  | unlinkAdopted name length scan =>
    exact ⟨counts.1, (same.length name).trans counts.2.1, counts.2.2.same same⟩
  | _ => trivial

theorem Taken.nodup {α : Type} {entry : α} {list rest : List α} (taken : Taken entry list rest)
    (distinct : list.Nodup) : (entry :: rest).Nodup := by
  rcases taken with ⟨before, after, rfl, rfl⟩
  exact List.perm_middle.nodup_iff.mp distinct

/-- The sum goes with the directory, and what a sweep has counted with both. -/
structure Sums (dir : Dir) (bytes : ℕ) (point : Option SweepPoint) : Prop where
  bytes : bytes = adoptedSum dir + (point.map SweepPoint.pending).getD 0
  counts : ∀ next ∈ point, next.Counts dir

theorem Sums.next {bytes : ℕ} {next : SweepPoint} (sums : Sums dir bytes (some point))
    (still : point.pending = 0) (quiet : next.pending = 0) (counts : next.Counts dir) :
    Sums dir bytes (some next) := by
  have same := sums.bytes
  rw [Option.map_some, still] at same
  refine ⟨?_, ?_⟩
  · rw [Option.map_some, quiet]
    exact same
  · rintro other ⟨⟩
    exact counts

theorem Sums.same {after : Dir} {bytes : ℕ} {point : Option SweepPoint}
    (same : SameAdopted dir after) (sums : Sums dir bytes point) : Sums after bytes point := by
  refine ⟨?_, fun next mem => (sums.counts next mem).same same⟩
  rw [same.sum]
  exact sums.bytes

/-- The scan read one name more, and told what it holds. -/
theorem Sums.read {bytes : ℕ} (sums : Sums dir bytes (some point)) (still : point.pending = 0)
    {scan : Scan} {name : Name} (distinct : (name :: scan.rest).Nodup)
    (counts : scan.Counts dir 0) : Sums dir bytes (some (.scan scan)) :=
  sums.next still rfl ⟨distinct.of_cons, counts⟩

theorem SweepPoint.Counts.erase {name : Name} {length : ℕ} {scan : Scan}
    (counts : (SweepPoint.unlinkAdopted name length scan).Counts dir) :
    (SweepPoint.unadopt length scan).Counts (dir.erase name) := by
  refine ⟨counts.1.of_cons, ?_⟩
  intro complete
  have total := counts.2.2 complete
  have removed := counts.2.1
  have parts := adoptedSum_erase dir name
  have apart : (scan.rest.map (lengthOf (dir.erase name))).sum =
      (scan.rest.map (lengthOf dir)).sum := by
    congr 1
    apply List.map_congr_left
    intro key mem
    apply lengthOf_erase
    rintro rfl
    exact (List.nodup_cons.mp counts.1).1 mem
  simp only [apart]
  omega

/-- A scan that read every name counted the sum, which publishing it leaves. -/
theorem Sums.publishRecount {st : StoreState} {start recount ours : ℕ} {complete : Bool}
    (sums : Sums dir st.adoptedBytes (some (.scan ⟨[], recount, ours, complete⟩))) :
    (st.publishRecount start ours recount complete).adoptedBytes = st.adoptedBytes := by
  have before := sums.bytes
  have counts := sums.counts _ rfl
  simp only [Option.map_some, Option.getD_some, SweepPoint.pending] at before
  simp only [StoreState.publishRecount]
  split
  · rename_i published
    have total := counts.2 published.1
    simp only [List.map_nil, List.sum_nil] at total
    change recount = _
    omega
  · rfl

theorem sweepStep_sums {now : Now} {start : ℕ} {later : Option SweepPoint}
    (step : SweepStep now start sh point after later) (named : point.Named now)
    (sums : Sums sh.dir sh.st.adoptedBytes (some point)) :
    Sums after.dir after.st.adoptedBytes later ∧
      after.st.adoptedBytes ≤ sh.st.adoptedBytes := by
  have counts := sums.counts point rfl
  cases step with
  | claimed found due =>
    rw [claim_adoptedBytes]
    exact ⟨sums.next rfl rfl trivial, le_rfl⟩
  | ownRemoved =>
    have same := SameAdopted.erase named.1.parseAdoptedName sh.dir
    exact ⟨(sums.same same).next rfl rfl trivial, le_rfl⟩
  | ownDropped =>
    rw [dropOwn_adoptedBytes]
    exact ⟨sums.next rfl rfl trivial, le_rfl⟩
  | streamed =>
    refine ⟨sums.next rfl rfl ⟨(sh.dir.keys_sorted).imp fun below => below.ne, ?_⟩, le_rfl⟩
    intro complete
    rw [sum_lengthOf_keys, Nat.zero_add]
  | unstreamed =>
    exact ⟨sums.next rfl rfl ⟨List.nodup_nil, fun complete => absurd complete Bool.false_ne_true⟩,
      le_rfl⟩
  | strayRemoved taken =>
    have same := SameAdopted.erase (named _ taken.mem).parseAdoptedName sh.dir
    exact ⟨(sums.same same).next rfl rfl trivial, le_rfl⟩
  | recounted =>
    rw [sums.publishRecount]
    exact ⟨⟨sums.bytes, fun next mem => of_none mem⟩, le_rfl⟩
  | read taken parsed =>
    refine ⟨sums.next rfl rfl ⟨taken.nodup counts.1, ?_⟩, le_rfl⟩
    intro complete
    have total := counts.2 complete
    have parts := taken.sum (lengthOf sh.dir)
    simp only at total ⊢
    omega
  | skipped taken other =>
    refine ⟨sums.read rfl (taken.nodup counts.1) ?_, le_rfl⟩
    intro finished
    have total := counts.2 finished
    have parts := taken.sum (lengthOf sh.dir)
    have absent := lengthOf_of_none other sh.dir
    simp only at total ⊢
    omega
  | broken => exact ⟨sums.next rfl rfl ⟨List.nodup_nil, fun complete =>
    absurd complete Bool.false_ne_true⟩, le_rfl⟩
  | expired found past =>
    rcases named with ⟨id, state, parsed⟩
    have length := lengthOf_of_found found (parsed ▸ Option.some_ne_none _)
    refine ⟨sums.next rfl rfl ⟨counts.1, length, ?_⟩, le_rfl⟩
    rw [← length]
    exact counts.2
  | counted found =>
    rcases named with ⟨id, state, parsed⟩
    have length := lengthOf_of_found found (parsed ▸ Option.some_ne_none _)
    refine ⟨sums.read rfl counts.1 ?_, le_rfl⟩
    intro complete
    have total := counts.2 complete
    simp only at total ⊢
    omega
  | lost gone =>
    refine ⟨sums.read rfl counts.1 ?_, le_rfl⟩
    intro complete
    have total := counts.2 complete
    have absent := lengthOf_of_absent gone
    omega
  | uncertain =>
    exact ⟨sums.read rfl counts.1 fun complete => absurd complete Bool.false_ne_true, le_rfl⟩
  | @adoptedRemoved name length scan bytes found =>
    have before := sums.bytes
    have parts := adoptedSum_erase sh.dir name
    have removed := counts.2.1
    simp only [Option.map_some, Option.getD_some, SweepPoint.pending] at before
    refine ⟨⟨?_, ?_⟩, le_rfl⟩
    · simp only [Option.map_some, Option.getD_some, SweepPoint.pending]
      omega
    · rintro next ⟨⟩
      exact counts.erase
  | adoptedGone gone =>
    refine ⟨sums.read rfl counts.1 ?_, le_rfl⟩
    intro complete
    have total := counts.2.2 complete
    have absent := lengthOf_of_absent gone
    have removed := counts.2.1
    omega
  | adoptedKept =>
    refine ⟨sums.read rfl counts.1 ?_, le_rfl⟩
    intro complete
    have total := counts.2.2 complete
    omega
  | unadopted =>
    have before := sums.bytes
    simp only [Option.map_some, Option.getD_some, SweepPoint.pending] at before
    refine ⟨⟨?_, ?_⟩, Nat.sub_le _ _⟩
    · simp only [StoreState.unadopt, Option.map_some, Option.getD_some, SweepPoint.pending]
      omega
    · rintro next ⟨⟩
      exact counts
  -- The other steps leave the directory and the scan's counts alone.
  | _ => exact ⟨sums.next rfl rfl trivial, le_rfl⟩

/-! ## Whole runs -/

def Call.pending : Call → ℕ
  | .sweep _ _ point => point.pending
  | _ => 0

def Call.Counts (dir : Dir) : Call → Prop
  | .sweep _ _ point => point.Counts dir
  | _ => True

/-- The adopted bytes are the adopted files', and one sweep at most is under way. -/
structure Recounts (m : Machine) : Prop where
  bytes : m.shared.st.adoptedBytes =
    adoptedSum m.shared.dir + (m.calls.map Call.pending).sum
  counts : ∀ call ∈ m.calls, call.Counts m.shared.dir
  one : m.calls.countP Call.isSweep ≤ 1

theorem recounts_new (run : Text) (config : StoreConfig) : Recounts (.new run config) :=
  ⟨rfl, fun _ mem => absurd mem List.not_mem_nil, Nat.zero_le 1⟩

theorem pending_of_not_sweep (other : call.isSweep = false) : call.pending = 0 := by
  cases call with
  | sweep now start point => cases other
  | _ => rfl

theorem counts_of_not_sweep (other : call.isSweep = false) (dir : Dir) : call.Counts dir := by
  cases call with
  | sweep now start point => cases other
  | _ => trivial

theorem Call.Counts.same {after : Dir} (same : SameAdopted dir after) (counts : call.Counts dir) :
    call.Counts after := by
  cases call with
  | sweep now start point => exact SweepPoint.Counts.same same counts
  | _ => trivial

theorem sum_pending_of_no_sweep {calls : List Call} (absent : calls.countP Call.isSweep = 0) :
    (calls.map Call.pending).sum = 0 := by
  rw [List.countP_eq_zero] at absent
  apply List.sum_eq_zero
  intro n mem
  rcases List.mem_map.mp mem with ⟨call, inside, rfl⟩
  exact pending_of_not_sweep (Bool.not_eq_true _ ▸ absent call inside)

theorem isSweep_next {next : Next} (step : CallStep sh call after next)
    (other : call.isSweep = false) : ∀ later ∈ next.calls, later.isSweep = false := by
  cases step with
  | recordedSaved =>
    rename_i job stray
    rcases job with ⟨room, id, contents, wall, tag, purpose⟩
    cases purpose <;> simp [Job.after, Next.calls, Call.isSweep]
  | recordedFailed =>
    rename_i job stray removed
    rcases job with ⟨room, id, contents, wall, tag, purpose⟩
    cases purpose <;> simp [Job.after, Next.calls, Call.isSweep]
  | sweep swept => cases other
  | _ => simp [Next.calls, Call.isSweep]

theorem countP_next {next : Next} (step : CallStep sh call after next) :
    next.calls.countP Call.isSweep ≤ [call].countP Call.isSweep := by
  cases sweeps : call.isSweep with
  | false =>
    have absent := isSweep_next step sweeps
    rw [List.countP_eq_zero.mpr fun later mem => by rw [absent later mem]; decide]
    exact Nat.zero_le _
  | true =>
    have one : [call].countP Call.isSweep = 1 := by
      rw [List.countP_singleton, sweeps]
      rfl
    rw [one]
    refine List.countP_le_length.trans ?_
    cases next <;> simp [Next.calls]

theorem Recounts.advance {m after : Machine} {which : ℕ} {outcome : Outcome} {pick : ℕ}
    (recounts : Recounts m) (named : Named m)
    (stepped : m.step (.advance which outcome pick) = some after) :
    Recounts after ∧ after.shared.st.adoptedBytes ≤ m.shared.st.adoptedBytes := by
  rcases advance_cases stepped with ⟨before, call, later, shared, next, calls, -, -, step, rfl⟩
  have mem : call ∈ m.calls := calls ▸ List.mem_append_right _ List.mem_cons_self
  have bytes := recounts.bytes
  have one := recounts.one
  have fewer := countP_next step
  have count : (before ++ (next.calls ++ later)).countP Call.isSweep ≤ 1 := by
    rw [calls] at one
    simp only [List.countP_append, List.countP_cons, List.countP_nil] at one fewer ⊢
    omega
  have others : ∀ other, other ∈ before ∨ other ∈ later → other ∈ m.calls :=
    fun _ => mem_of_around calls
  rw [calls] at bytes
  simp only [List.map_append, List.map_cons, List.sum_append, List.sum_cons] at bytes
  cases sweeps : call.isSweep with
  | false =>
    rcases callStep_adopted step sweeps with ⟨same, sum⟩
    have absent := isSweep_next step sweeps
    have quiet : (next.calls.map Call.pending).sum = 0 := by
      apply sum_pending_of_no_sweep
      exact List.countP_eq_zero.mpr fun later mem => by rw [absent later mem]; decide
    refine ⟨⟨?_, ?_, count⟩, sum.le⟩
    · have still := pending_of_not_sweep sweeps
      simp only [List.map_append, List.sum_append, same.sum]
      omega
    · intro other inside
      simp only [List.mem_append] at inside
      rcases inside with inside | inside | inside
      · exact (recounts.counts other (others other (Or.inl inside))).same same
      · exact counts_of_not_sweep (absent other inside) _
      · exact (recounts.counts other (others other (Or.inr inside))).same same
  | true =>
    -- the only sweep: the other calls hold nothing of the sum
    have alone : before.countP Call.isSweep = 0 ∧ later.countP Call.isSweep = 0 := by
      rw [calls] at one
      simp only [List.countP_append, List.countP_cons, sweeps, ↓reduceIte] at one
      omega
    have first := sum_pending_of_no_sweep alone.1
    have last := sum_pending_of_no_sweep alone.2
    cases step with
    | sweep swept =>
      rename_i now start point after
      have sums : Sums m.shared.dir m.shared.st.adoptedBytes (some point) := by
        refine ⟨?_, ?_⟩
        · simp only [Option.map_some, Option.getD_some]
          simp only [Call.pending] at bytes
          omega
        · rintro other ⟨⟩
          exact recounts.counts _ mem
      rcases sweepStep_sums swept (named.calls _ mem) sums with ⟨moved, below⟩
      have sum := moved.bytes
      refine ⟨⟨?_, ?_, count⟩, below⟩
      · simp only [List.map_append, List.sum_append]
        cases after with
        | none =>
          simp only [Option.map_none, Option.getD_none] at sum
          simp only [sweepNext, Next.calls, List.map_nil, List.sum_nil]
          omega
        | some point =>
          simp only [Option.map_some, Option.getD_some] at sum
          simp only [sweepNext, Next.calls, List.map_cons, List.map_nil, List.sum_cons,
            List.sum_nil, Call.pending]
          omega
      · intro other inside
        simp only [List.mem_append] at inside
        rcases inside with inside | inside | inside
        · apply counts_of_not_sweep
          exact Bool.not_eq_true _ ▸ List.countP_eq_zero.mp alone.1 other inside
        · cases after with
          | none => cases inside
          | some point =>
            rw [sweepNext, Next.calls, List.mem_singleton] at inside
            subst inside
            exact moved.counts point rfl
        · apply counts_of_not_sweep
          exact Bool.not_eq_true _ ▸ List.countP_eq_zero.mp alone.2 other inside
    | _ => cases sweeps

theorem sweeping_eq_false {m : Machine} (idle : m.sweeping = false) :
    m.calls.countP Call.isSweep = 0 := by
  rw [Machine.sweeping, List.any_eq_false] at idle
  exact List.countP_eq_zero.mpr idle

theorem Recounts.begins {m after : Machine} {event : Event} (recounts : Recounts m)
    (begins : Begins m after event) : Recounts after := by
  rcases begins.files with ⟨dir, sum⟩ | ⟨name, contents, -, adopts⟩
  · rcases begins.calls with ⟨started, calls, single, starts⟩
    have bytes := recounts.bytes
    have one := recounts.one
    have still : (started.map Call.pending).sum = 0 := by
      apply List.sum_eq_zero
      intro n mem
      rcases List.mem_map.mp mem with ⟨call, inside, rfl⟩
      cases starts call inside <;> rfl
    refine ⟨?_, ?_, ?_⟩
    · rw [calls, List.map_append, List.sum_append, dir]
      omega
    · intro call mem
      rw [calls] at mem
      rw [dir]
      rcases List.mem_append.mp mem with mem | mem
      · cases starts call mem <;> trivial
      · exact recounts.counts call mem
    · rw [calls, List.countP_append]
      by_cases sweeps : ∃ call ∈ started, call.isSweep = true
      · rcases sweeps with ⟨call, inside, isSweep⟩
        cases starts call inside with
        | sweep now idle =>
          have absent := sweeping_eq_false idle
          have few : started.countP Call.isSweep ≤ started.length := List.countP_le_length
          omega
        | _ => cases isSweep
      · have absent : started.countP Call.isSweep = 0 := by
          rw [List.countP_eq_zero]
          exact fun call mem isSweep => sweeps ⟨call, mem, isSweep⟩
        omega
  · have bytes := recounts.bytes
    have parts : adoptedSum (m.shared.dir.insert name contents) + lengthOf m.shared.dir name =
        adoptedSum m.shared.dir + adoptedLength name contents :=
      m.shared.dir.total_insert adoptedLength name contents
    rw [lengthOf_of_absent adopts.free, adoptedLength_of_some adopts.adopted] at parts
    refine ⟨?_, ?_, ?_⟩
    · rw [adopts.bytes, adopts.dir, adopts.calls]
      omega
    · intro call mem
      rw [adopts.calls] at mem
      apply counts_of_not_sweep
      exact Bool.not_eq_true _ ▸
        List.countP_eq_zero.mp (sweeping_eq_false adopts.idle) call mem
    · rw [adopts.calls]
      exact recounts.one

end AgentDeck.Retained
