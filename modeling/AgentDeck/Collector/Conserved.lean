import AgentDeck.Collector.Balance

/-!
# Each tick is credited once

What the series were credited in all, against the totals of the processes in the last sample.
-/

namespace AgentDeck.Collector

open SortedMap Debts

/-! ## The sums of one sample -/

variable (current : SortedMap Key Tracked) (credit : List (Key × ℤ))

theorem ticksOf_concat (entry : Key × ℤ) :
    ticksOf current (credit ++ [entry]) = (ticksOf current credit).give current entry :=
  List.foldl_concat _ _ _ _

theorem ticksOf_total (known : ∀ entry ∈ credit, (current.get? entry.1).isSome) :
    SortedMap.total (fun _ ticks => ticks) (ticksOf current credit).runs +
        (ticksOf current credit).unattributed =
      (credit.map fun entry => entry.2.toNat).sum := by
  induction credit using List.reverseRecOn with
  | nil => rfl
  | append_singleton credit entry ih =>
    have before := ih fun other mem => known other (List.mem_append_left _ mem)
    rcases Option.isSome_iff_exists.mp (known entry (by simp)) with ⟨t, here⟩
    rw [ticksOf_concat, List.map_append, List.sum_append]
    unfold Ticks.give
    rw [here, Option.map_some]
    cases t.attribution with
    | run run =>
      have grown := total_insert (fun _ ticks => ticks) (ticksOf current credit).runs run
        (((ticksOf current credit).runs.get? run).getD 0 + entry.2.toNat)
      simp only [Option.map_id', List.map_cons, List.map_nil, List.sum_cons,
        List.sum_nil] at grown ⊢
      omega
    | unattributed =>
      simp only [List.map_cons, List.map_nil, List.sum_cons, List.sum_nil]
      omega

theorem ticksOf_attributed {run : RunKey} (here : ((ticksOf current credit).runs.get? run).isSome) :
    ∃ key t, current.get? key = some t ∧ t.attribution = .run run := by
  induction credit using List.reverseRecOn with
  | nil => simp [ticksOf] at here
  | append_singleton credit entry ih =>
    rw [ticksOf_concat] at here
    unfold Ticks.give at here
    split at here
    · rename_i other attribution
      rw [get?_insert] at here
      split at here
      · rename_i same
        rcases Option.map_eq_some_iff.mp attribution with ⟨t, found, toRun⟩
        exact ⟨entry.1, t, found, same ▸ toRun⟩
      · exact ih here
    · exact ih here
    · exact ih here

/-- What a sample credits: to the runs and to the unattributed bucket. -/
def Sample.credited (sample : Sample) : ℕ :=
  (sample.runs.map fun run => run.figures.cpuTicksDelta).sum + sample.unattributed.cpuTicksDelta

/-- What the runs that ended with this sample were credited in all. -/
def Sample.closed (sample : Sample) : ℕ :=
  (sample.runs.map fun run => if run.ended then run.figures.cpuTicks else 0).sum

section Step

variable {agg : Aggregator} {before : List ProcessSample}

/-- The runs of the step, their starts set. -/
def stepRuns (agg : Aggregator) (call : Call) : SortedMap RunKey RunState :=
  agg.startRuns call.timeUnixNanos (agg.attributed call.processes).runs
    (call.order.newRuns.arrange (agg.attributed call.processes).newRuns.entries)

def stepTicks (agg : Aggregator) (call : Call) : Ticks :=
  ticksOf (agg.attributed call.processes).current
    (call.order.credit.arrange (agg.settled call.order call.processes).credit.entries)

def stepMemory (agg : Aggregator) (call : Call) : Memory :=
  memoryOf (agg.attributed call.processes).current (sorted call.processes)

/-- The runs once their series have grown. -/
def grownRuns (agg : Aggregator) (call : Call) : SortedMap RunKey RunState :=
  (stepRuns agg call).map fun key run =>
    { run with
      series :=
        run.series.grow (((stepTicks agg call).runs.get? key).getD 0) call.timeUnixNanos }

theorem call_runs (agg : Aggregator) (call : Call) :
    (agg.call call).2.runs = (stepRuns agg call).entries.map fun entry =>
      runFigures (stepTicks agg call) (stepMemory agg call) entry.1 entry.2 := rfl

theorem call_unattributed (agg : Aggregator) (call : Call) :
    (agg.call call).2.unattributed.cpuTicksDelta = (stepTicks agg call).unattributed := rfl

theorem call_after_runs (agg : Aggregator) (call : Call) :
    (agg.call call).1.runs = (grownRuns agg call).filter fun key _ =>
      !(membersOf (stepMemory agg call) key).2.isEmpty := rfl

theorem call_after_unattributed (agg : Aggregator) (call : Call) :
    (agg.call call).1.unattributed.ticks =
      agg.unattributed.ticks + (stepTicks agg call).unattributed := rfl

variable (follows : agg.Follows before)

include follows

theorem stepTicks_known (call : Call) (distinct : DistinctPids call.processes) :
    (stepTicks agg call).runs.keySet ⊆ (stepRuns agg call).keySet := by
  intro run mem
  rw [mem_keySet] at mem ⊢
  rcases ticksOf_attributed _ _ mem with ⟨key, t, here, toRun⟩
  have known := (agg.attributed_sample follows.known distinct).known key t run here toRun
  rw [stepRuns, startRuns_isSome]
  exact known

theorem call_runs_delta (call : Call) (distinct : DistinctPids call.processes) :
    ((agg.call call).2.runs.map fun run => run.figures.cpuTicksDelta).sum =
      SortedMap.total (fun _ ticks => ticks) (stepTicks agg call).runs := by
  have flat : ∑ key ∈ (stepRuns agg call).keySet,
      weigh (fun _ ticks => ticks) (stepTicks agg call).runs key =
        SortedMap.total (fun key _ => weigh (fun _ ticks => ticks) (stepTicks agg call).runs key)
          (stepRuns agg call) := by
    rw [total_eq_sum]
    refine Finset.sum_congr rfl fun key mem => ?_
    rcases Option.isSome_iff_exists.mp ((mem_keySet _ _).mp mem) with ⟨run, here⟩
    rw [weigh_of_get? here]
  rw [total_eq_sum_of_subset _ _ (stepTicks_known follows call distinct), flat, call_runs,
    List.map_map]
  refine congrArg List.sum (List.map_congr_left fun entry _ => ?_)
  simp only [Function.comp_apply, runFigures, Series.figures, weigh, Option.map_id']

theorem settled_known (order : Iteration) (processes : List ProcessSample) {entry : Key × ℤ}
    (mem : entry ∈ (agg.settled order processes).credit.entries) :
    ((agg.attributed processes).current.get? entry.1).isSome := by
  have here := (get?_eq_some_iff _ entry.1 entry.2).mpr mem
  rw [agg.settled_credit order processes follows.apart, get?_map] at here
  rcases Option.map_eq_some_iff.mp here with ⟨t, found, _⟩
  rw [found]
  rfl

theorem settled_clamped (order : Iteration) (processes : List ProcessSample) :
    ((agg.settled order processes).credit.entries.map fun entry => entry.2.toNat).sum =
      SortedMap.total (fun key t => (agg.creditOf processes key t).toNat)
        (agg.attributed processes).current := by
  rw [agg.settled_credit order processes follows.apart]
  exact total_map (fun _ credit => Int.toNat credit) (agg.creditOf processes)
    (agg.attributed processes).current

theorem call_credited (call : Call) (distinct : DistinctPids call.processes) :
    (agg.call call).2.credited =
      SortedMap.total (fun key t => (agg.creditOf call.processes key t).toNat)
        (agg.attributed call.processes).current := by
  have perm := call.order.credit.perm (agg.settled call.order call.processes).credit.entries
  have all := ticksOf_total (agg.attributed call.processes).current
    (call.order.credit.arrange (agg.settled call.order call.processes).credit.entries)
    fun entry mem => settled_known follows call.order call.processes (perm.mem_iff.mp mem)
  rw [Sample.credited, call_runs_delta follows call distinct, call_unattributed, stepTicks, all,
    (perm.map fun entry => entry.2.toNat).sum_eq, settled_clamped follows call.order call.processes]

omit follows in
theorem modify_ticks (runs : SortedMap RunKey RunState) (key : RunKey) {f : RunState → RunState}
    (same : ∀ run, (f run).series.ticks = run.series.ticks) :
    seriesTicks (runs.modify key f) = seriesTicks runs := by
  refine total_congr fun query => ?_
  rw [get?_modify]
  split
  · rw [Option.map_map]
    exact congrArg (fun g => (runs.get? query).map g) (funext same)
  · rfl

omit follows in
theorem startRuns_ticks (agg : Aggregator) (timeUnixNanos : ℕ) (runs : SortedMap RunKey RunState)
    (newRuns : List (RunKey × ℕ)) :
    seriesTicks (agg.startRuns timeUnixNanos runs newRuns) = seriesTicks runs := by
  unfold Aggregator.startRuns
  induction newRuns generalizing runs with
  | nil => rfl
  | cons fresh newRuns ih =>
    rw [List.foldl_cons, ih]
    refine modify_ticks runs fresh.1 fun run => ?_
    rcases run with ⟨identity, ticks, start, last⟩
    rfl

/-- What all series hold, ended ones and the unattributed bucket included, grows by what the sample
credits. -/
theorem call_series (call : Call) (distinct : DistinctPids call.processes) :
    seriesTicks (agg.call call).1.runs + (agg.call call).1.unattributed.ticks +
        (agg.call call).2.closed =
      seriesTicks agg.runs + agg.unattributed.ticks + (agg.call call).2.credited := by
  have opened : seriesTicks (stepRuns agg call) = seriesTicks agg.runs := by
    rw [stepRuns, startRuns_ticks, (agg.attributed_sample follows.known distinct).ticks]
  have parts := total_filter_add
    (fun key _ => !(membersOf (stepMemory agg call) key).2.isEmpty)
    (fun _ run => run.series.ticks) (grownRuns agg call)
  have closed : (agg.call call).2.closed = SortedMap.total (fun key run =>
      if !(membersOf (stepMemory agg call) key).2.isEmpty then 0 else run.series.ticks)
        (grownRuns agg call) := by
    rw [Sample.closed, call_runs, List.map_map, grownRuns, total_map]
    refine congrArg List.sum (List.map_congr_left fun entry _ => ?_)
    simp only [Function.comp_apply, runFigures]
    cases (membersOf (stepMemory agg call) entry.1).2.isEmpty <;> rfl
  have grown : SortedMap.total (fun _ run => run.series.ticks) (grownRuns agg call) =
      seriesTicks (stepRuns agg call) +
        ((agg.call call).2.runs.map fun run => run.figures.cpuTicksDelta).sum := by
    have deltas : ((agg.call call).2.runs.map fun run => run.figures.cpuTicksDelta).sum =
        SortedMap.total (fun key _ => ((stepTicks agg call).runs.get? key).getD 0)
          (stepRuns agg call) := by
      rw [call_runs, List.map_map]
      rfl
    rw [deltas, seriesTicks, ← total_add, grownRuns, total_map]
    rfl
  rw [call_after_runs, call_after_unattributed, Sample.credited, call_unattributed]
  rw [seriesTicks]
  omega

theorem call_balance (call : Call) (distinct : DistinctPids call.processes)
    (never : NeverDecrease before call.processes) :
    (agg.call call).2.credited + taken agg call.processes + totalOf before =
      totalOf call.processes + goneOf before call.processes := by
  rw [call_credited follows call distinct, clamped_add_taken follows distinct never,
    gain_balance follows distinct never]

end Step

/-! ## Every call -/

def Consecutive (holds : List ProcessSample → List ProcessSample → Prop) (calls : List Call) :
    Prop :=
  ∀ past call next rest, calls = past ++ call :: next :: rest → holds call.processes next.processes

theorem Consecutive.left {holds : List ProcessSample → List ProcessSample → Prop}
    {past rest : List Call} (all : Consecutive holds (past ++ rest)) : Consecutive holds past := by
  intro start call next more split
  refine all start call next (more ++ rest) ?_
  rw [split, List.append_assoc]
  rfl

theorem Consecutive.last {holds : List ProcessSample → List ProcessSample → Prop}
    (first : ∀ now, holds [] now) {calls : List Call} {call : Call}
    (all : Consecutive holds (calls ++ [call])) :
    holds (Aggregator.lastOf calls) call.processes := by
  rcases List.eq_nil_or_concat calls with absent | ⟨past, last, concat⟩
  · rw [absent]
    exact first _
  · rw [List.concat_eq_append] at concat
    rw [concat, Aggregator.lastOf_concat]
    refine all past last call [] ?_
    rw [concat, List.append_assoc]
    rfl

/-- The ticks credited over all series so far: those that go on, those that ended, and the
unattributed bucket. -/
def creditedSoFar (agg : Aggregator) (calls : List Call) : ℕ :=
  seriesTicks (agg.after calls).runs + (agg.after calls).unattributed.ticks +
    ((agg.produced calls).map Sample.closed).sum

theorem produced_concat (agg : Aggregator) (calls : List Call) (call : Call) :
    agg.produced (calls ++ [call]) = agg.produced calls ++ [((agg.after calls).call call).2] := by
  induction calls generalizing agg with
  | nil => rfl
  | cons first calls ih =>
    rw [List.cons_append, Aggregator.produced, ih]
    rfl

section Run

variable (clkTck bootUnixSecs startedUnixNanos : ℕ)

variable {calls : List Call}

theorem creditedSoFar_concat {call : Call}
    (distinct : ∀ other ∈ calls ++ [call], DistinctPids other.processes) :
    creditedSoFar (.new clkTck bootUnixSecs startedUnixNanos) (calls ++ [call]) =
      creditedSoFar (.new clkTck bootUnixSecs startedUnixNanos) calls +
        (((Aggregator.new clkTck bootUnixSecs startedUnixNanos).after calls).call
          call).2.credited := by
  have follows := Aggregator.after_follows clkTck bootUnixSecs startedUnixNanos calls
    fun other mem => distinct other (List.mem_append_left _ mem)
  have series := call_series follows call (distinct call (by simp))
  simp only [creditedSoFar, Aggregator.after_concat, produced_concat, List.map_append,
    List.sum_append, List.map_cons, List.map_nil, List.sum_cons, List.sum_nil]
  omega

theorem never_first (now : List ProcessSample) : NeverDecrease [] now :=
  fun _ mem => absurd mem (by simp)

theorem repaid_first (limit : ℕ) (now : List ProcessSample) : RepaidWithin limit [] now :=
  fun _ mem => absurd mem (by simp)

theorem total_le_credited (distinct : ∀ call ∈ calls, DistinctPids call.processes)
    (never : Consecutive NeverDecrease calls) :
    totalOf (Aggregator.lastOf calls) ≤
      creditedSoFar (.new clkTck bootUnixSecs startedUnixNanos) calls := by
  induction calls using List.reverseRecOn with
  | nil => exact Nat.zero_le _
  | append_singleton calls call ih =>
    have earlier := fun other mem => distinct other (List.mem_append_left [call] mem)
    have follows := Aggregator.after_follows clkTck bootUnixSecs startedUnixNanos calls earlier
    have here := distinct call (by simp)
    have balance := call_balance follows call here (never.last never_first)
    have limit := taken_le follows here
    have before := ih earlier never.left
    rw [creditedSoFar_concat _ _ _ distinct, Aggregator.lastOf_concat]
    omega

theorem credited_eq_total (distinct : ∀ call ∈ calls, DistinctPids call.processes)
    (never : Consecutive NeverDecrease calls)
    (repaid : Consecutive (RepaidWithin maxAncestry) calls) :
    creditedSoFar (.new clkTck bootUnixSecs startedUnixNanos) calls =
      totalOf (Aggregator.lastOf calls) := by
  induction calls using List.reverseRecOn with
  | nil => rfl
  | append_singleton calls call ih =>
    have earlier := fun other mem => distinct other (List.mem_append_left [call] mem)
    have follows := Aggregator.after_follows clkTck bootUnixSecs startedUnixNanos calls earlier
    have here := distinct call (by simp)
    have balance := call_balance follows call here (never.last never_first)
    have all := taken_eq follows here (repaid.last (repaid_first maxAncestry))
    have before := ih earlier never.left repaid.left
    rw [creditedSoFar_concat _ _ _ distinct, Aggregator.lastOf_concat]
    omega

theorem credit_nonneg {past rest : List Call} {call : Call}
    (distinct : ∀ other ∈ past ++ call :: rest, DistinctPids other.processes)
    (never : Consecutive NeverDecrease (past ++ call :: rest)) {key : Key} {credit : ℤ}
    (here : (((Aggregator.new clkTck bootUnixSecs startedUnixNanos).after past).settled call.order
      call.processes).credit.get? key = some credit) : 0 ≤ credit := by
  have follows := Aggregator.after_follows clkTck bootUnixSecs startedUnixNanos past
    fun other mem => distinct other (List.mem_append_left _ mem)
  have apart := distinct call (by simp)
  have split : past ++ call :: rest = (past ++ [call]) ++ rest := by simp
  rw [split] at never
  rw [Aggregator.settled_credit _ call.order call.processes follows.apart, get?_map] at here
  rcases Option.map_eq_some_iff.mp here with ⟨t, is, rfl⟩
  exact creditOf_nonneg follows apart (never.left.last never_first) is

end Run

end AgentDeck.Collector
