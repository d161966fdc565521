import AgentDeck.Collector.Aggregate
import AgentDeck.Lib.KeySets

/-!
# What attribution leaves

After the loop over a sample the tracked processes are those of the sample, each found under its
pid, every run something is attributed to is known, and no run's ticks have moved.
-/

namespace AgentDeck.Collector

open SortedMap

def DistinctPids (processes : List ProcessSample) : Prop :=
  (processes.map ProcessSample.pid).Nodup

/-! ## The sample that is tracked -/

structure Kept where
  key : Key
  ppid : ℕ
  total : ℕ
  children : ℕ

def ProcessSample.kept (p : ProcessSample) : Kept :=
  ⟨p.key, p.stat.ppid, p.stat.totalTicks, p.stat.childrenTicks⟩

def Tracked.kept (entry : Key × Tracked) : Kept :=
  ⟨entry.1, entry.2.ppid, entry.2.total, entry.2.children⟩

/-- What is tracked is what the processes are, one entry for each. -/
def Tracks (tracked : SortedMap Key Tracked) (processes : List ProcessSample) : Prop :=
  (tracked.entries.map Tracked.kept).Perm (processes.map ProcessSample.kept)

namespace Tracks

variable {tracked : SortedMap Key Tracked} {processes : List ProcessSample}

section

variable (tracks : Tracks tracked processes)

include tracks

theorem found {p : ProcessSample} (mem : p ∈ processes) :
    ∃ t, tracked.get? p.key = some t ∧ Tracked.kept (p.key, t) = p.kept := by
  have keptMem := tracks.mem_iff.mpr (List.mem_map_of_mem mem)
  rcases List.mem_map.mp keptMem with ⟨entry, entryMem, same⟩
  have sameKey : entry.1 = p.key := congrArg Kept.key same
  refine ⟨entry.2, ?_, ?_⟩
  · rw [get?_eq_some_iff, ← sameKey]
    exact entryMem
  · rw [← sameKey]
    exact same

theorem only {key : Key} {t : Tracked} (here : tracked.get? key = some t) :
    ∃ p ∈ processes, p.key = key ∧ Tracked.kept (key, t) = p.kept := by
  have entryMem := (get?_eq_some_iff tracked key t).mp here
  have keptMem := tracks.mem_iff.mp (List.mem_map_of_mem entryMem)
  rcases List.mem_map.mp keptMem with ⟨p, mem, same⟩
  exact ⟨p, mem, congrArg Kept.key same, same.symm⟩

theorem isSome_iff (key : Key) : (tracked.get? key).isSome ↔ ∃ p ∈ processes, p.key = key := by
  constructor
  · intro here
    rcases Option.isSome_iff_exists.mp here with ⟨t, here⟩
    rcases tracks.only here with ⟨p, mem, same, _⟩
    exact ⟨p, mem, same⟩
  · rintro ⟨p, mem, rfl⟩
    rcases tracks.found mem with ⟨t, here, _⟩
    rw [here]
    rfl

theorem sum_eq (weight : Kept → ℕ) :
    (tracked.entries.map fun entry => weight (Tracked.kept entry)).sum =
      (processes.map fun p => weight p.kept).sum := by
  have same := (tracks.map weight).sum_eq
  rw [List.map_map, List.map_map] at same
  exact same

end

theorem empty : Tracks SortedMap.empty [] := List.Perm.refl _

end Tracks

variable {processes : List ProcessSample}

theorem DistinctPids.eq_of_pid (distinct : DistinctPids processes) {p q : ProcessSample}
    (pMem : p ∈ processes) (qMem : q ∈ processes) (same : p.pid = q.pid) : p = q :=
  List.inj_on_of_nodup_map distinct pMem qMem same

theorem DistinctPids.perm {other : List ProcessSample} (distinct : DistinctPids processes)
    (perm : processes.Perm other) : DistinctPids other :=
  (perm.map _).nodup_iff.mp distinct

/-! ## The sorted sample -/

theorem sorted_perm (processes : List ProcessSample) : (sorted processes).Perm processes :=
  List.perm_insertionSort _ _

theorem sorted_eq {other : List ProcessSample} (distinct : DistinctPids processes)
    (perm : processes.Perm other) : sorted processes = sorted other := by
  have total : Std.Total ProcessSample.Older := ⟨fun p q => by
    simp only [ProcessSample.Older]
    omega⟩
  have transitive : IsTrans ProcessSample ProcessSample.Older := ⟨fun p q r => by
    simp only [ProcessSample.Older]
    omega⟩
  refine List.Perm.eq_of_pairwise ?_ (List.pairwise_insertionSort ProcessSample.Older processes)
    (List.pairwise_insertionSort ProcessSample.Older other)
    ((sorted_perm processes).trans (perm.trans (sorted_perm other).symm))
  intro p q pMem qMem older younger
  have samePid : p.pid = q.pid := by
    simp only [ProcessSample.Older] at older younger
    omega
  exact distinct.eq_of_pid ((sorted_perm processes).mem_iff.mp pMem)
    (perm.mem_iff.mpr ((sorted_perm other).mem_iff.mp qMem)) samePid

/-! ## What the loop keeps -/

def seriesTicks (runs : SortedMap RunKey RunState) : ℕ :=
  SortedMap.total (fun _ run => run.series.ticks) runs

/-- The invariant of attributing one process after another. -/
structure Attributed (runs : SortedMap RunKey RunState) (done : List ProcessSample)
    (state : Attributing) : Prop where
  tracks : Tracks state.current done
  byPid : ∀ pid key, state.byPid.get? pid = some key ↔
    ∃ p ∈ done, p.pid = pid ∧ p.key = key
  known : ∀ key t run, state.current.get? key = some t → t.attribution = .run run →
    (state.runs.get? run).isSome
  kept : ∀ run, (runs.get? run).isSome → (state.runs.get? run).isSome
  ticks : seriesTicks state.runs = seriesTicks runs

/-- A process attributed to a run has that run on record. -/
def RunsKnown (tracked : SortedMap Key Tracked) (runs : SortedMap RunKey RunState) : Prop :=
  ∀ key t run, tracked.get? key = some t → t.attribution = .run run → (runs.get? run).isSome

namespace Attributing

section

variable (state : Attributing)

include state

theorem noteRun_known (run : RunKey) (identity : RunIdentity) (other : RunKey) :
    ((state.noteRun run identity).runs.get? other).isSome ↔
      other = run ∨ (state.runs.get? other).isSome := by
  unfold noteRun
  split
  · rename_i here
    constructor
    · exact .inr
    · rintro (rfl | known)
      · exact here
      · exact known
  · simp only [get?_insert]
    split
    · rename_i same
      exact ⟨fun _ => .inl same, fun _ => rfl⟩
    · rename_i differ
      exact ⟨.inr, fun known => known.resolve_left differ⟩

theorem noteRun_ticks (run : RunKey) (identity : RunIdentity) :
    seriesTicks (state.noteRun run identity).runs = seriesTicks state.runs := by
  unfold noteRun
  split
  · rfl
  · rename_i fresh
    have absent : state.runs.get? run = none := by simpa using fresh
    have grown := total_insert (fun _ run => run.series.ticks) state.runs run
      ⟨identity, .new 0⟩
    rw [absent] at grown
    simpa [seriesTicks, Series.new] using grown

@[simp]
theorem noteRun_current (run : RunKey) (identity : RunIdentity) :
    (state.noteRun run identity).current = state.current := by
  unfold noteRun
  split <;> rfl

@[simp]
theorem noteRun_byPid (run : RunKey) (identity : RunIdentity) :
    (state.noteRun run identity).byPid = state.byPid := by
  unfold noteRun
  split <;> rfl

end

/-- The state with the run `p` names noted. -/
def noted (state : Attributing) (p : ProcessSample) : Attributing :=
  match p.environ with
  | .read (some identity) => state.noteRun ⟨identity.runId, p.uid⟩ identity
  | _ => state

@[simp]
theorem noted_current (state : Attributing) (p : ProcessSample) :
    (state.noted p).current = state.current := by
  unfold noted
  split
  · exact noteRun_current _ _ _
  · rfl

@[simp]
theorem noted_byPid (state : Attributing) (p : ProcessSample) :
    (state.noted p).byPid = state.byPid := by
  unfold noted
  split
  · exact noteRun_byPid _ _ _
  · rfl

theorem noted_ticks (state : Attributing) (p : ProcessSample) :
    seriesTicks (state.noted p).runs = seriesTicks state.runs := by
  unfold noted
  split
  · exact noteRun_ticks _ _ _
  · rfl

variable {state : Attributing}

theorem noted_known {run : RunKey} (p : ProcessSample) (known : (state.runs.get? run).isSome) :
    ((state.noted p).runs.get? run).isSome := by
  unfold noted
  split
  · exact (noteRun_known state _ _ run).mpr (.inr known)
  · exact known

theorem attributeProcess_eq (tracked : SortedMap Key Tracked) (state : Attributing)
    (p : ProcessSample) :
    state.attributeProcess tracked p =
      { state.noted p with
        newRuns :=
          match (state.decided tracked p).1 with
          | .run run => (state.noted p).newRuns.modify run (min · p.stat.starttime)
          | .unattributed => (state.noted p).newRuns
        current := (state.noted p).current.insert p.key
          { ppid := p.stat.ppid
            uid := p.uid
            total := p.stat.totalTicks
            children := p.stat.childrenTicks
            attribution := (state.decided tracked p).1
            own := (state.decided tracked p).2 }
        byPid := (state.noted p).byPid.insert p.pid p.key } := rfl

variable {runs : SortedMap RunKey RunState} {tracked : SortedMap Key Tracked}

/-- A process is attributed to the run it names, to what it was attributed to, or to what some
process of the sample is. -/
theorem decided_known {done : List ProcessSample} {p : ProcessSample} {run : RunKey}
    (attributed : Attributed runs done state) (before : RunsKnown tracked runs)
    (here : (state.decided tracked p).1 = .run run) : ((state.noted p).runs.get? run).isSome := by
  have inheritedKnown : state.inherited p = .run run → (state.runs.get? run).isSome := by
    intro same
    simp only [inherited] at same
    generalize found : Option.filter _ _ = parent at same
    cases parent with
    | none => cases same
    | some t =>
      rcases Option.filter_eq_some_iff.mp found with ⟨bound, _⟩
      rcases Option.bind_eq_some_iff.mp bound with ⟨pk, _, here⟩
      exact attributed.known pk t run here same
  have trackedKnown : ∀ {t : Tracked},
      ((tracked.get? p.key).filter fun t => t.uid = p.uid) = some t → t.attribution = .run run →
        (state.runs.get? run).isSome := by
    intro t kept same
    exact attributed.kept run (before p.key t run (Option.filter_eq_some_iff.mp kept).1 same)
  simp only [decided] at here
  split at here
  · rename_i identity named
    cases here
    unfold noted
    rw [named]
    exact (noteRun_known state _ _ _).mpr (.inl rfl)
  · rename_i t kept _
    split at here
    · exact noted_known p (trackedKnown kept here)
    · split at here
      · rename_i same
        cases here
        exact noted_known p (trackedKnown kept same)
      · exact noted_known p (inheritedKnown here)
  · exact noted_known p (inheritedKnown here)

/-- One process keeps it, whatever its parent's place in the list. -/
theorem attributed_step {done : List ProcessSample} {p : ProcessSample}
    (before : RunsKnown tracked runs) (distinct : DistinctPids (done ++ [p]))
    (attributed : Attributed runs done state) :
    Attributed runs (done ++ [p]) (state.attributeProcess tracked p) := by
  have fresh : ∀ q ∈ done, q.pid ≠ p.pid := by
    intro q mem same
    rw [DistinctPids, List.map_append, List.nodup_append] at distinct
    exact distinct.2.2 q.pid (List.mem_map_of_mem mem) p.pid (by simp) same
  have freshKey : state.current.get? p.key = none := by
    cases here : state.current.get? p.key with
    | none => rfl
    | some t =>
      rcases attributed.tracks.only here with ⟨q, mem, same, _⟩
      exact absurd (congrArg Key.pid same) (fresh q mem)
  rw [attributeProcess_eq]
  refine ⟨?_, ?_, ?_, ?_, ?_⟩
  · simp only [noted_current]
    refine ((insert_perm _ freshKey).map Tracked.kept).trans ?_
    rw [List.map_append]
    refine List.Perm.trans ?_ List.perm_append_comm
    exact attributed.tracks.cons _
  · intro pid key
    simp only [noted_byPid, get?_insert, List.mem_append, List.mem_singleton]
    split
    · rename_i same
      subst same
      constructor
      · intro eq
        exact ⟨p, .inr rfl, rfl, Option.some.inj eq⟩
      · rintro ⟨q, mem | rfl, samePid, sameKey⟩
        · exact absurd samePid (fresh q mem)
        · rw [sameKey]
    · rename_i differ
      rw [attributed.byPid]
      constructor
      · rintro ⟨q, mem, rest⟩
        exact ⟨q, .inl mem, rest⟩
      · rintro ⟨q, mem | rfl, samePid, sameKey⟩
        · exact ⟨q, mem, samePid, sameKey⟩
        · exact absurd samePid.symm differ
  · intro key t run here same
    simp only [noted_current, get?_insert] at here
    split at here
    · cases here
      exact decided_known attributed before same
    · exact noted_known p (attributed.known key t run here same)
  · intro run known
    exact noted_known p (attributed.kept run known)
  · exact (noted_ticks state p).trans attributed.ticks

/-- Induction on the processes, in the order they are visited. -/
theorem attributed_run {start : Attributing} (before : RunsKnown tracked runs)
    (fresh : Attributed runs [] start) (processes : List ProcessSample)
    (distinct : DistinctPids processes) :
    Attributed runs processes (processes.foldl (attributeProcess tracked) start) := by
  induction processes using List.reverseRecOn with
  | nil => exact fresh
  | append_singleton done p ih =>
    rw [List.foldl_concat]
    refine attributed_step before distinct (ih ?_)
    exact List.Nodup.sublist ((List.sublist_append_left done [p]).map _) distinct

end Attributing

theorem Aggregator.attributed_sample (agg : Aggregator) (before : RunsKnown agg.tracked agg.runs)
    (distinct : DistinctPids processes) :
    Attributed agg.runs (sorted processes) (agg.attributed processes) := by
  have fresh : Attributed agg.runs []
      ⟨SortedMap.empty, SortedMap.empty, SortedMap.empty, agg.runs⟩ :=
    ⟨Tracks.empty, by simp, by simp, fun _ known => known, rfl⟩
  exact Attributing.attributed_run before fresh _
    (distinct.perm (sorted_perm processes).symm)

end AgentDeck.Collector
