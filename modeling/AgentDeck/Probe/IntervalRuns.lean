import AgentDeck.Probe.Intervals
import AgentDeck.Probe.RecordEffects
import AgentDeck.Lib.Runs

/-!
# Interval proofs in the runs of the records

The uncompacted list of a run has one entry for each change of the count. A step of the records
stores at most that entry, compacts the history to the oldest open floor, and leaves every open
record in place with its floor. So the history stays folded from the list, and the boundary stays
before the floor of a record that stays open: only a full history can drop more.
-/

namespace AgentDeck.Probe

open CountHistory (Folds Proven clamped)

/-! ## A history alone -/

inductive HistoryOp
  | set (stamp : Instant) (count : ℕ)
  | compact (keepFrom : Option Instant)

/-- A history beside the uncompacted list of its entries. -/
structure Archive where
  history : CountHistory
  whole : List (Instant × ℕ)

namespace Archive

def empty : Archive := ⟨.default, []⟩

def step (a : Archive) : HistoryOp → Archive
  | .set stamp count =>
    ⟨a.history.set stamp count, a.whole ++ [(clamped a.whole stamp, count)]⟩
  | .compact keepFrom => ⟨a.history.compact keepFrom, a.whole⟩

theorem run_folds (ops : List HistoryOp) :
    ∃ dropped, Folds (ops.foldl step empty).history (ops.foldl step empty).whole dropped := by
  refine Runs.run_keeps_always (fun a : Archive => ∃ dropped, Folds a.history a.whole dropped) ?_
    ⟨[], CountHistory.folds_default⟩
  rintro a op ⟨dropped, folds⟩
  cases op with
  | set stamp count => exact folds.set stamp count
  | compact keepFrom => exact folds.compact keepFrom

end Archive

/-! ## What a step of the records does to the history -/

namespace Records

/-- Where `compact` keeps the history from. -/
def oldestOpen (s : Records) : Option Instant :=
  ((s.records.filter fun r => decide (r.settlement = .opened)).map Record.birthFloor).min?

def tags (s : Records) : List (RecordKey × Instant) :=
  s.records.map fun r => (r.key, r.birthFloor)

def Holds (s s' : Records) : Prop :=
  ∀ key r, s.get key = some r → r.settlement = .opened →
    ∃ r', s'.get key = some r' ∧ r'.birthFloor = r.birthFloor

/-- The history before the compaction: as it was, or with a count that is a new one. -/
inductive Stores (s : Records) (stamp : Instant) : CountHistory → Prop
  | kept : Stores s stamp s.history
  | stored (count : ℕ) (changed : count ≠ s.count) : Stores s stamp (s.history.set stamp count)

/-- What a step does to the history and to the records that are open. -/
structure Weaves (s : Records) (stamp : Instant) (s' : Records) : Prop where
  holds : Holds s s'
  history : s'.history = s.history ∨
    ∃ stored, Stores s stamp stored ∧ s'.history = stored.compact s'.oldestOpen

variable {s t s' : Records} {stamp : Instant}

theorem find?_tags (s : Records) (key : RecordKey) :
    (s.tags.find? fun tag => decide (tag.1 = key)) =
      (s.get key).map fun r => (r.key, r.birthFloor) :=
  List.find?_map

theorem Holds.refl (s : Records) : Holds s s := fun _ r found _ => ⟨r, found, rfl⟩

theorem Holds.tags (holds : Holds s t) (same : s'.tags = t.tags) : Holds s s' := by
  intro key r found opened
  rcases holds key r found opened with ⟨r', found', floor⟩
  have tagged := s'.find?_tags key
  rw [same, find?_tags, found', eq_comm] at tagged
  rcases Option.map_eq_some_iff.mp tagged with ⟨later, there, is⟩
  exact ⟨later, there, (congrArg Prod.snd is).trans floor⟩

theorem Weaves.of_same (history : s'.history = s.history) (tags : s'.tags = s.tags) :
    Weaves s stamp s' :=
  ⟨(Holds.refl s).tags tags, .inl history⟩

theorem tags_of_records (records : s'.records = s.records) : s'.tags = s.tags :=
  congrArg (List.map _) records

variable {r : Record}

theorem tags_change {key : RecordKey} (found : s.get key = some r) (f : Record → Record)
    (sameKey : (f r).key = r.key) (sameFloor : (f r).birthFloor = r.birthFloor) :
    (s.update key f).tags = s.tags := by
  rcases s.get_split found with ⟨_, pre, post, split, _, changed⟩
  simp only [tags, update, changed]
  simp only [split, List.map_append, List.map_cons, sameKey, sameFloor]

theorem tags_finished {among touched later : List Record}
    (all : List.Forall₂ (Finishes among) touched later) :
    later.map (fun r => (r.key, r.birthFloor)) = touched.map fun r => (r.key, r.birthFloor) := by
  induction all with
  | nil => rfl
  | cons finishes _ ih => rw [List.map_cons, List.map_cons, finishes.key, finishes.birthFloor, ih]

theorem weaves_after (stores : Stores s stamp t.history) (holds : Holds s t) (fifo : HazardFifo)
    (now : Instant) : Weaves s stamp (t.after fifo now).1 := by
  have records := (t.after_feeds fifo now).records
  refine ⟨holds.tags (tags_of_records records), .inr ⟨t.history, stores, ?_⟩⟩
  refine t.compact.refreshStop_spec.2.2.2.1.trans ?_
  rw [oldestOpen, records]
  rfl

theorem weaves_finish (stores : Stores s stamp t.history) (holds : Holds s t) {popped : List Record}
    (pops : List.Forall₂ Pops t.records popped) (fifo : HazardFifo) (before : ScopeState)
    (now : Instant) (resolved : Option Resolution) (source : Option StopSource)
    (record : Option RecordKey) :
    Weaves s stamp ((({ t with records := popped }.subsume).transition before now resolved source
      record).2.after fifo now).1 := by
  rcases ({ t with records := popped }.subsume).transition_spec before now resolved source record
    with ⟨_, records, _, history, _, _⟩
  apply weaves_after
  · rw [history]
    exact stores
  · apply holds.tags
    rw [tags, records]
    exact tags_finished (pops_finishes pops)

/-! ## Each operation -/

theorem holds_join {obs : Sighting} {scope : WriterScope} :
    Holds s { s with records := s.records ++ [Record.blank obs], scope := scope } := by
  intro key r found _
  refine ⟨r, ?_, rfl⟩
  unfold get at found ⊢
  rw [List.find?_append, found, Option.some_or]

theorem sighted_counts {obs : Sighting} {count : ℕ} {now : Instant}
    (opened : (r.note obs).settlement = .opened)
    (consumed : (r.sighted obs count now).settlement = .consumed) : 1 ≤ count := by
  unfold Record.sighted at consumed
  split at consumed
  · exact (settleOnDecision_consumed ((if_pos opened).symm.trans consumed)).2.2
  · cases opened.symm.trans consumed

theorem observeKept_weaves {base : Records} {fifo : HazardFifo} {obs : Sighting} {now : Instant}
    (before : ScopeState) (history : base.history = s.history) (holds : Holds s base)
    (found : base.get obs.key = some r) :
    Weaves s now (base.observeKept fifo obs now before r).2.1 := by
  rw [base.observeKept_eq fifo obs now before r rfl rfl]
  rcases (base.sighted obs now r).maybePop_spec fifo obs.key now with ⟨popped, pop, pops⟩
  simp only [pop]
  refine weaves_finish ?_ (holds.tags ?_) pops _ _ _ _ _ _
  · simp only [sighted, history]
    split
    · rename_i consumes
      rw [Bool.and_eq_true, decide_eq_true_eq, decide_eq_true_eq] at consumes
      refine .stored _ ?_
      have counted := sighted_counts consumes.1 consumes.2
      have same : base.count = s.count := congrArg CountHistory.count history
      omega
    · exact .kept
  · refine tags_change found (fun _ => r.sighted obs base.count now) ?_ ?_
    · unfold Record.sighted
      split <;> rfl
    · unfold Record.sighted
      split <;> rfl

theorem observe_weaves (s : Records) (fifo : HazardFifo) (obs : Sighting) (now : Instant) :
    Weaves s now (s.observe fifo obs now).2.1 := by
  unfold observe
  split
  · exact .of_same rfl rfl
  split
  · rename_i r found
    exact observeKept_weaves s.scope.state rfl (Holds.refl s) found
  · rename_i missing
    split
    · rcases dropped_eq (s := s) obs.decision with ⟨scope, drops, _, _⟩
      rw [drops]
      have moved := { s with scope := scope }.transition_spec s.scope.state now none
        (some (.droppedAtCap obs.channel obs.decision obs.attribution obs.claim)) none
      exact .of_same moved.2.2.2.1 (tags_of_records moved.2.1)
    · exact observeKept_weaves s.scope.state rfl holds_join (get_join missing)

theorem refusedIdentity_weaves (s : Records) (generation : ℕ) (channel : Channel)
    (decision : Option Decision) (claim : Option Claim) (now : Instant) :
    Weaves s stamp (s.refusedIdentity generation channel decision claim now).2 := by
  have moves : ∀ scope, Weaves s stamp ({ s with scope := scope }.transition s.scope.state now none
      (some (.refusedIdentity channel decision claim)) none).2 := by
    intro scope
    have moved := { s with scope := scope }.transition_spec s.scope.state now none
      (some (.refusedIdentity channel decision claim)) none
    exact .of_same moved.2.2.2.1 (tags_of_records moved.2.1)
  unfold refusedIdentity
  split
  · exact .of_same rfl rfl
  split
  · split
    · exact moves _
    · exact moves s.scope
  · exact moves s.scope

theorem report_weaves (s : Records) (fifo : HazardFifo) (generation : ℕ) (key : RecordKey)
    (report : Report) (now : Instant) :
    Weaves s now (s.report fifo generation key report now).2.1 := by
  unfold Records.report
  split
  · exact .of_same rfl rfl
  split
  · exact .of_same rfl rfl
  rename_i r found
  split
  · exact .of_same rfl rfl
  · generalize (decide (report = .done .clean) && decide (r.frontier = .notApplicable)) = asks
    refine weaves_finish (s := s) (t := s.reported key report asks) .kept ?_ (pops_same _) _ _ _ _ _
      _
    exact (Holds.refl s).tags (tags_change found (Record.reported report asks) rfl rfl)

theorem frontier_weaves (s : Records) (generation : ℕ) (key : RecordKey)
    (outcome : FrontierOutcome) : Weaves s stamp (s.frontier generation key outcome).2 := by
  unfold frontier
  split
  · exact .of_same rfl rfl
  split
  · exact .of_same rfl rfl
  rename_i found
  split
  · exact .of_same rfl rfl
  · exact .of_same rfl (tags_change found _ rfl rfl)

theorem exit_weaves (s : Records) (fifo : HazardFifo) (generation : ℕ) (key : RecordKey)
    (time now : Instant) : Weaves s stamp (s.exit fifo generation key time now).2.1 := by
  unfold exit
  split
  · exact .of_same rfl rfl
  split
  · exact .of_same rfl rfl
  rename_i found
  apply weaves_after
  · exact .kept
  · refine ((Holds.refl s).tags (tags_change found
      (fun r => { r with exitObserved := r.exitObserved <|> some time }) rfl rfl)).tags ?_
    exact tags_finished (subsume_finishes _)

theorem drain_weaves (s : Records) (fifo : HazardFifo) (generation : ℕ) (key : RecordKey)
    (now : Instant) (complete : Bool) :
    Weaves s now (s.drain fifo generation key now complete).2.1 := by
  by_cases fresh : s.stale generation = true
  · rw [drain, if_pos fresh]
    exact .of_same rfl rfl
  cases found : s.get key with
  | none =>
    rw [drain, if_neg fresh, found]
    exact .of_same rfl rfl
  | some r =>
    cases observed : r.exitObserved with
    | none =>
      rw [drain, if_neg fresh, found]
      simp only [observed]
      exact .of_same rfl rfl
    | some exit =>
      rw [drain_eq fresh found observed rfl rfl rfl]
      rcases popDrained_spec (s := s.drainedOnce key now complete r exit) fifo key now complete r
        with ⟨popped, pop, pops⟩
      rw [pop]
      have woven : Weaves s now _ := weaves_finish (t := s.drainedOnce key now complete r exit)
        (s := s) ?_ ?_ pops
        ((s.drainedOnce key now complete r exit).popDrained fifo key now complete r).2 s.scope.state
        now (if !r.drained && r.undecided then some .exitWithoutDecision else none) (some .drain)
        (some key)
      · split
        · exact woven
        · exact woven
      · simp only [drainedOnce]
        split
        · rename_i consumes
          simp only [proved, Bool.and_eq_true, decide_eq_true_eq] at consumes
          refine .stored _ ?_
          omega
        · exact .kept
      · refine (Holds.refl s).tags (tags_change found _ ?_ ?_)
        · split <;> rfl
        · split <;> rfl

theorem matchSegment_weaves (s : Records) (generation : ℕ) (key : RecordKey) (seg : ℕ) :
    Weaves s stamp (s.matchSegment generation key seg).2 := by
  unfold matchSegment
  split
  · exact .of_same rfl rfl
  split
  · exact .of_same rfl rfl
  rename_i r found
  split
  · exact .of_same rfl rfl
  split
  · exact .of_same rfl rfl
  · rcases (s.update key fun r => { r with matched := some seg }).refreshStop_spec with
      ⟨_, records, _, history, _, _⟩
    refine .of_same history ((tags_of_records records).trans ?_)
    exact tags_change found (fun r => { r with matched := some seg }) rfl rfl

theorem complete_weaves (s : Records) (fifo : HazardFifo) (generation : ℕ) (key : RecordKey)
    (route : Route) (time now : Instant) :
    Weaves s stamp (s.complete fifo generation key route time now).2.1 := by
  unfold complete
  split
  · exact .of_same rfl rfl
  split
  · exact .of_same rfl rfl
  rename_i r found
  split
  · exact .of_same rfl rfl
  split
  · exact .of_same rfl rfl
  split
  · exact .of_same rfl rfl
  · refine weaves_after (s := s) (t := s.update key fun r =>
      { r with completion := .complete time }) .kept ((Holds.refl s).tags ?_) fifo now
    exact tags_change found (fun r => { r with completion := .complete time }) rfl rfl

theorem holds_prune {key : RecordKey} (found : s.get key = some r)
    (settled : r.settlement ≠ .opened) :
    Holds s { s with records := s.records.eraseP fun r => decide (r.key = key) } := by
  intro other kept there opened
  have apart : r.key ≠ other := by
    intro same
    rw [← same, (s.get_split found).1, found] at there
    exact settled (Option.some.inj there ▸ opened)
  rcases s.get_split found with ⟨isKey, pre, post, split, others, _⟩
  have erased : (s.records.eraseP fun r => decide (r.key = key)) = pre ++ post := by
    rw [split, List.eraseP_append_right]
    · exact congrArg (pre ++ ·) (List.eraseP_cons_of_pos (decide_eq_true isKey))
    · intro p mem
      rw [decide_eq_true_eq]
      exact others p mem
  refine ⟨kept, ?_, rfl⟩
  unfold get at there ⊢
  rw [split, List.find?_append, List.find?_cons_of_neg (by simpa using apart)] at there
  rw [erased, List.find?_append]
  exact there

theorem prune_weaves (s : Records) (fifo : HazardFifo) (generation : ℕ) (key : RecordKey)
    (markersDeleted : Bool) (now : Instant) :
    Weaves s stamp (s.prune fifo generation key markersDeleted now).2.1 := by
  unfold prune
  split
  · exact .of_same rfl rfl
  split
  · exact .of_same rfl rfl
  rename_i r found
  split
  · exact .of_same rfl rfl
  · rename_i goes
    simp only [not_or] at goes
    exact weaves_after (s := s)
      (t := { s with records := s.records.eraseP fun r => decide (r.key = key) }) .kept
      (holds_prune found goes.2.1) fifo now

theorem raise_weaves (s : Records) (generation : ℕ) (stamp : Instant) :
    Weaves s stamp (s.raise generation stamp).2 := by
  unfold Records.raise
  split
  · exact .of_same rfl rfl
  split
  · exact ⟨Holds.refl s, .inr ⟨_, .stored _ (Nat.succ_ne_self _), rfl⟩⟩
  · exact .of_same rfl rfl

theorem lower_weaves (s : Records) (generation : ℕ) (stamp : Instant) :
    Weaves s stamp (s.lower generation stamp).2 := by
  unfold lower
  split
  · exact .of_same rfl rfl
  split
  · exact ⟨Holds.refl s, .inr ⟨_, .stored _ (by omega), rfl⟩⟩
  · exact .of_same rfl rfl

end Records

open Records (Weaves)

def RecordsOp.stamp : RecordsOp → Instant
  | .observe _ now | .refusedIdentity _ _ _ _ now | .report _ _ _ now | .exit _ _ _ now
  | .drain _ _ now _ | .complete _ _ _ _ now | .prune _ _ _ now => now
  | .raise _ stamp | .lower _ stamp => stamp
  | .frontier _ _ _ | .matchSegment _ _ _ => 0

/-! ## Runs -/

inductive ChronicleOp
  | operate (op : RecordsOp)
  | retire (now : Instant)

/-- The records beside the uncompacted list: an entry for each change of the count. -/
structure Chronicle where
  records : Records
  fifo : HazardFifo
  whole : List (Instant × ℕ)

namespace Chronicle

def start (generation : ℕ) (policy : EcPolicy) (started : Instant) (cap : ℕ) : Chronicle where
  records := .new generation policy started cap
  fifo := .default
  whole := []

def operate (c : Chronicle) (op : RecordsOp) : Chronicle :=
  let (_, records, fifo) := op.run c.records c.fifo
  { records := records
    fifo := fifo
    whole := if records.count = c.records.count then c.whole
      else c.whole ++ [(clamped c.whole op.stamp, records.count)] }

def step (c : Chronicle) : ChronicleOp → Chronicle
  | .operate op => c.operate op
  | .retire now =>
    if c.records.retired then c else { c with records := c.records.retire now, whole := [] }

/-- The record of the key is open after the step, which drops no entry for want of room. -/
def Spares (key : RecordKey) (c : Chronicle) (op : ChronicleOp) : Prop :=
  ((c.step op).records.get key).any (fun r => decide (r.settlement = .opened)) = true ∧
    ((c.step op).records.count ≠ c.records.count →
      c.records.history.entries.length < historyCap)

variable {c : Chronicle} {floor : Instant}

theorem operate_weaves (c : Chronicle) (op : RecordsOp) :
    Weaves c.records op.stamp (c.operate op).records := by
  cases op with
  | observe obs now => exact c.records.observe_weaves c.fifo obs now
  | refusedIdentity generation channel decision claim now =>
    exact c.records.refusedIdentity_weaves generation channel decision claim now
  | report generation key sent now => exact c.records.report_weaves c.fifo generation key sent now
  | frontier generation key outcome => exact c.records.frontier_weaves generation key outcome
  | exit generation key time now => exact c.records.exit_weaves c.fifo generation key time now
  | drain generation key now whole => exact c.records.drain_weaves c.fifo generation key now whole
  | matchSegment generation key seg => exact c.records.matchSegment_weaves generation key seg
  | complete generation key route time now =>
    exact c.records.complete_weaves c.fifo generation key route time now
  | prune generation key markersDeleted now =>
    exact c.records.prune_weaves c.fifo generation key markersDeleted now
  | raise generation stamp => exact c.records.raise_weaves generation stamp
  | lower generation stamp => exact c.records.lower_weaves generation stamp

theorem stored_folds {dropped : List (Instant × ℕ)}
    (folds : Folds c.records.history c.whole dropped) {op : RecordsOp} {stored : CountHistory}
    (stores : Records.Stores c.records op.stamp stored)
    (count : (c.operate op).records.count = stored.count) :
    ∃ dropped, Folds stored (c.operate op).whole dropped := by
  cases stores with
  | kept =>
    refine ⟨dropped, ?_⟩
    rw [show (c.operate op).whole = c.whole from if_pos count]
    exact folds
  | stored next changed =>
    rw [CountHistory.count_set] at count
    rw [show (c.operate op).whole = c.whole ++ [(clamped c.whole op.stamp, next)] from
      (if_neg (count ▸ changed)).trans (by rw [← count]; rfl)]
    exact folds.set op.stamp next

section

variable (folded : ∃ dropped, Folds c.records.history c.whole dropped)

include folded

theorem operate_folds (op : RecordsOp) :
    ∃ dropped, Folds (c.operate op).records.history (c.operate op).whole dropped := by
  rcases folded with ⟨dropped, folds⟩
  rcases (c.operate_weaves op).history with same | ⟨stored, stores, same⟩
  · have whole : (c.operate op).whole = c.whole := if_pos (congrArg CountHistory.count same)
    rw [same, whole]
    exact ⟨dropped, folds⟩
  · have count : (c.operate op).records.count = stored.count :=
      (congrArg CountHistory.count same).trans (stored.count_compact _)
    rcases stored_folds folds stores count with ⟨_, later⟩
    rw [same]
    exact later.compact _

theorem step_folds (op : ChronicleOp) :
    ∃ dropped, Folds (c.step op).records.history (c.step op).whole dropped := by
  cases op with
  | operate op => exact operate_folds folded op
  | retire now =>
    simp only [step]
    split
    · exact folded
    · rename_i fresh
      rw [Records.retire, if_neg fresh]
      exact ⟨[], CountHistory.folds_default⟩

end

variable {key : RecordKey}

theorem retire_spares {now : Instant} (spares : Spares key c (.retire now)) :
    c.step (.retire now) = c := by
  rw [step]
  split
  · rfl
  · rename_i fresh
    have opened := spares.1
    rw [step, if_neg fresh, Records.retire, if_neg fresh] at opened
    cases opened

variable {r : Record}

theorem oldestOpen_le {s : Records} (found : s.get key = some r) (opened : r.settlement = .opened) :
    ∃ oldest, s.oldestOpen = some oldest ∧
      oldest ≤ r.birthFloor := by
  have mem : r.birthFloor ∈
      (s.records.filter fun r => decide (r.settlement = .opened)).map Record.birthFloor := by
    apply List.mem_map_of_mem
    exact List.mem_filter.mpr ⟨List.mem_of_find?_eq_some found, decide_eq_true opened⟩
  cases oldest : s.oldestOpen with
  | none =>
    rw [List.min?_eq_none_iff.mp oldest] at mem
    cases mem
  | some first => exact ⟨first, rfl, (List.min?_eq_some_iff.mp oldest).2 _ mem⟩

section

variable (folded : ∃ dropped, Folds c.records.history c.whole dropped)

include folded

theorem boundary_operate {op : RecordsOp} (spares : Spares key c (.operate op))
    (found : (c.operate op).records.get key = some r)
    (past : ∀ first ∈ c.records.history.exactFrom, first < r.birthFloor) :
    ∀ first ∈ (c.operate op).records.history.exactFrom, first < r.birthFloor := by
  rcases folded with ⟨dropped, folds⟩
  rcases (c.operate_weaves op).history with same | ⟨stored, stores, same⟩
  · rw [same]
    exact past
  · have count : (c.operate op).records.count = stored.count :=
      (congrArg CountHistory.count same).trans (stored.count_compact _)
    rcases stored_folds folds stores count with ⟨_, later⟩
    have boundary : stored.exactFrom = c.records.history.exactFrom := by
      cases stores with
      | kept => rfl
      | stored next changed =>
        rw [CountHistory.count_set] at count
        have room := spares.2 (count ▸ changed)
        rw [folds.set_eq, if_neg (Nat.not_le.mpr room)]
    have opened := spares.1
    rw [step, found, Option.any_some, decide_eq_true_eq] at opened
    rcases oldestOpen_le found opened with ⟨oldest, is, before⟩
    have ordered := later.ordered
    rw [later.entries, List.pairwise_append] at ordered
    intro first reached
    rw [same, is] at reached
    rcases CountHistory.boundary_compact ordered.2.1 reached with old | earlier
    · exact past first (boundary ▸ old)
    · exact Nat.lt_of_lt_of_le earlier before

theorem boundary_step {op : ChronicleOp} (spares : Spares key c op)
    (found : (c.step op).records.get key = some r)
    (past : ∀ first ∈ c.records.history.exactFrom, first < r.birthFloor) :
    ∀ first ∈ (c.step op).records.history.exactFrom, first < r.birthFloor := by
  cases op with
  | operate op => exact boundary_operate folded spares found past
  | retire now =>
    rw [retire_spares spares]
    exact past

omit folded in
theorem step_holds {op : ChronicleOp} (spares : Spares key c op)
    (found : c.records.get key = some r) (opened : r.settlement = .opened) :
    ∃ next, (c.step op).records.get key = some next ∧ next.birthFloor = r.birthFloor := by
  cases op with
  | operate op => exact (c.operate_weaves op).holds key r found opened
  | retire now =>
    rw [retire_spares spares]
    exact ⟨r, found, rfl⟩

theorem boundary_run {later : List ChronicleOp} (along : Runs.Along step (Spares key) c later)
    (found : c.records.get key = some r) (opened : r.settlement = .opened)
    (past : ∀ first ∈ c.records.history.exactFrom, first < r.birthFloor) :
    ∀ first ∈ (later.foldl step c).records.history.exactFrom, first < r.birthFloor := by
  induction later generalizing c r with
  | nil => exact past
  | cons op later ih =>
    rcases step_holds along.1 found opened with ⟨next, there, floor⟩
    rw [← floor] at past ⊢
    have still := along.1.1
    rw [there, Option.any_some, decide_eq_true_eq] at still
    exact ih (step_folds folded op) along.2 there still (boundary_step folded along.1 there past)

end

theorem run_folds (generation : ℕ) (policy : EcPolicy) (started : Instant) (cap : ℕ)
    (ops : List ChronicleOp) : ∃ dropped,
      Folds (ops.foldl step (start generation policy started cap)).records.history
        (ops.foldl step (start generation policy started cap)).whole dropped :=
  Runs.run_keeps_always
    (fun c : Chronicle => ∃ dropped, Folds c.records.history c.whole dropped)
    (fun _ op folded => step_folds folded op) ⟨[], CountHistory.folds_default⟩

end Chronicle

/-- What a folded history proves, the whole list proves. Where a record is made open with its
floor past the boundary, and stays open while no entry is dropped for want of room, the two prove
the same. -/
theorem intervals_survive_compaction (generation : ℕ) (policy : EcPolicy) (started : Instant)
    (cap : ℕ) (ops : List ChronicleOp) {c : Chronicle}
    (reached : c = ops.foldl Chronicle.step (.start generation policy started cap)) :
    (∀ (given : List HistoryOp) (birthFloor exit : Instant),
      (given.foldl Archive.step .empty).history.proves birthFloor exit = true →
        Proven (given.foldl Archive.step .empty).whole birthFloor exit) ∧
    (∀ birthFloor exit, c.records.history.proves birthFloor exit = true →
      Proven c.whole birthFloor exit) ∧
    ∀ (op : ChronicleOp) (later : List ChronicleOp) (key : RecordKey) (r : Record),
      (c.step op).records.get key = some r →
      (∀ first ∈ c.records.history.exactFrom, first < r.birthFloor) →
      Runs.Along Chronicle.step (Chronicle.Spares key) c (op :: later) →
      ∀ exit,
        ((op :: later).foldl Chronicle.step c).records.history.proves r.birthFloor exit = true ↔
          r.birthFloor ≤ exit ∧
            Proven ((op :: later).foldl Chronicle.step c).whole r.birthFloor exit := by
  have folded := Chronicle.run_folds generation policy started cap ops
  rw [← reached] at folded
  refine ⟨?_, ?_, ?_⟩
  · intro given birthFloor exit proves
    rcases Archive.run_folds given with ⟨_, folds⟩
    exact folds.proven proves
  · intro birthFloor exit proves
    rcases folded with ⟨_, folds⟩
    exact folds.proven proves
  · intro op later key r found past along exit
    have opened := along.1.1
    rw [found, Option.any_some, decide_eq_true_eq] at opened
    have past := Chronicle.boundary_run (Chronicle.step_folds folded op) along.2 found opened
      (Chronicle.boundary_step folded along.1 found past)
    rcases Chronicle.run_folds generation policy started cap (ops ++ op :: later) with ⟨_, folds⟩
    rw [List.foldl_append, ← reached] at folds
    exact folds.proves_iff past

/-- An observation of a record of the agent's, without a decision. -/
def waitingSighting : Sighting where
  generation := 1
  key := 7
  channel := .ipc
  attribution := .owned
  claim := none
  decision := none
  segSeen := none
  nativeSeen := none
  birthFloor := 5

theorem intervals_survive_compaction_waiting :
    let c := [ChronicleOp.operate (.raise 1 3)].foldl Chronicle.step (.start 1 .hold 0 recordCap)
    let l := [ChronicleOp.operate (.observe waitingSighting 9),
      .operate (.raise 1 10), .operate (.lower 1 15)].foldl Chronicle.step c
    l.records.history.proves 5 12 = true ↔ 5 ≤ 12 ∧ Proven l.whole 5 12 :=
  (intervals_survive_compaction 1 .hold 0 recordCap [.operate (.raise 1 3)] rfl).2.2
    (.operate (.observe waitingSighting 9)) [.operate (.raise 1 10), .operate (.lower 1 15)] 7
    ((Record.blank waitingSighting).note waitingSighting) rfl (by decide)
    ⟨⟨by decide, fun _ => by decide⟩, ⟨by decide, fun _ => by decide⟩,
      ⟨by decide, fun _ => by decide⟩, trivial⟩ 12

end AgentDeck.Probe
