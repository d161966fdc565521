import AgentDeck.Collector.Credit

/-!
# No order matters

A sample's figures do not depend on the order of its processes or of any loop over a map.
-/

namespace AgentDeck.Collector

open SortedMap

/-! ## The loops -/

variable (current : SortedMap Key Tracked) (agg : Aggregator)

theorem Ticks.give_comm (ticks : Ticks) (left right : Key × ℤ) :
    (ticks.give current left).give current right =
      (ticks.give current right).give current left := by
  unfold Ticks.give
  generalize (current.get? left.1).map Tracked.attribution = leftTo
  generalize (current.get? right.1).map Tracked.attribution = rightTo
  rcases leftTo with _ | leftRun | _ <;> rcases rightTo with _ | rightRun | _
  all_goals first
    | rfl
    | skip
  · -- Two runs: their entries are apart, or both amounts reach the one entry.
    simp only [Ticks.mk.injEq, and_true]
    refine ext_get? fun query => ?_
    simp only [get?_insert]
    by_cases same : leftRun = rightRun
    · subst same
      by_cases here : query = leftRun
      · simp only [if_pos here, if_true, Option.getD_some, Option.some.injEq]
        omega
      · simp only [if_neg here]
    · rw [if_neg (Ne.symm same), if_neg same]
      by_cases here : query = rightRun
      · rw [if_pos here, if_neg fun there => same (there.symm.trans here), if_pos here]
      · rw [if_neg here, if_neg here]
        congr
  · simp only [Ticks.mk.injEq, true_and]
    omega

theorem ticksOf_perm {credit other : List (Key × ℤ)} (perm : credit.Perm other) :
    ticksOf current credit = ticksOf current other :=
  perm.foldl_eq' (fun left _ right _ ticks => Ticks.give_comm current ticks left right) _

theorem startRuns_perm (timeUnixNanos : ℕ) (runs : SortedMap RunKey RunState)
    {newRuns : SortedMap RunKey ℕ} {entries : List (RunKey × ℕ)}
    (perm : entries.Perm newRuns.entries) :
    agg.startRuns timeUnixNanos runs entries =
      agg.startRuns timeUnixNanos runs newRuns.entries := by
  refine perm.foldl_eq' (fun left leftMem right rightMem runs => ?_) _
  by_cases same : left.1 = right.1
  · rw [entry_eq (perm.mem_iff.mp leftMem) (perm.mem_iff.mp rightMem) same]
  · exact modify_comm runs same _ _

/-! ## The step -/

theorem Aggregator.attributed_perm {processes other : List ProcessSample}
    (distinct : DistinctPids processes) (perm : processes.Perm other) :
    agg.attributed processes = agg.attributed other := by
  unfold Aggregator.attributed
  rw [sorted_eq distinct perm]

theorem Aggregator.step_perm (apart : PidsApart agg.tracked) (order otherOrder : Iteration)
    (timeUnixNanos : ℕ) {processes other : List ProcessSample} (distinct : DistinctPids processes)
    (perm : processes.Perm other) :
    agg.step order timeUnixNanos processes = agg.step otherOrder timeUnixNanos other := by
  have sameSorted := sorted_eq distinct perm
  have sameAttributed := agg.attributed_perm distinct perm
  have sameDebts : agg.debts processes = agg.debts other := by
    unfold Aggregator.debts Aggregator.ancestry
    rw [sameAttributed]
  have sameCredit : (agg.settled order processes).credit =
    (agg.settled otherOrder other).credit := by
    rw [agg.settled_credit order processes apart, agg.settled_credit otherOrder other apart,
      sameAttributed]
    refine congrArg (fun f => SortedMap.map f (agg.attributed other).current) ?_
    funext key now
    simp only [Aggregator.creditOf, sameDebts]
  have sameTicks : ticksOf (agg.attributed processes).current
      (order.credit.arrange (agg.settled order processes).credit.entries) =
      ticksOf (agg.attributed other).current
        (otherOrder.credit.arrange (agg.settled otherOrder other).credit.entries) := by
    rw [sameAttributed, sameCredit]
    exact ticksOf_perm _ ((order.credit.perm _).trans (otherOrder.credit.perm _).symm)
  have sameStart : agg.startRuns timeUnixNanos (agg.attributed processes).runs
      (order.newRuns.arrange (agg.attributed processes).newRuns.entries) =
      agg.startRuns timeUnixNanos (agg.attributed other).runs
        (otherOrder.newRuns.arrange (agg.attributed other).newRuns.entries) := by
    rw [sameAttributed, startRuns_perm agg timeUnixNanos _ (order.newRuns.perm _),
      startRuns_perm agg timeUnixNanos _ (otherOrder.newRuns.perm _)]
  rw [sameAttributed] at sameTicks sameStart
  unfold Aggregator.step
  simp only [sameAttributed, sameTicks, sameStart, sameSorted]

/-! ## Every call -/

namespace Aggregator

/-- What is true between calls: the processes tracked are those of the last sample, and every run
one of them is attributed to is known. -/
structure Follows (agg : Aggregator) (last : List ProcessSample) : Prop where
  tracks : Tracks agg.tracked last
  distinct : DistinctPids last
  known : RunsKnown agg.tracked agg.runs

theorem Follows.apart {agg : Aggregator} {last : List ProcessSample} (follows : agg.Follows last) :
    PidsApart agg.tracked := by
  intro left leftMem right rightMem same
  have leftKept := follows.tracks.mem_iff.mp (List.mem_map_of_mem (f := Tracked.kept) leftMem)
  have rightKept := follows.tracks.mem_iff.mp (List.mem_map_of_mem (f := Tracked.kept) rightMem)
  rcases List.mem_map.mp leftKept with ⟨p, pMem, pSame⟩
  rcases List.mem_map.mp rightKept with ⟨q, qMem, qSame⟩
  have pKey : p.key = left.1 := congrArg Kept.key pSame
  have qKey : q.key = right.1 := congrArg Kept.key qSame
  have samePid : p.pid = q.pid := by
    have both := same
    rw [← pKey, ← qKey] at both
    exact both
  rw [← pKey, ← qKey, follows.distinct.eq_of_pid pMem qMem samePid]

theorem new_follows (clkTck bootUnixSecs startedUnixNanos : ℕ) :
    (new clkTck bootUnixSecs startedUnixNanos).Follows [] :=
  ⟨Tracks.empty, List.nodup_nil, fun _ _ _ here => absurd here (by simp [new])⟩

end Aggregator

theorem memory_members (processes : List ProcessSample) {p : ProcessSample} (mem : p ∈ processes)
    {t : Tracked} {run : RunKey} (here : current.get? p.key = some t)
    (toRun : t.attribution = .run run) : (membersOf (memoryOf current processes) run).2 ≠ [] := by
  unfold memoryOf
  induction processes using List.reverseRecOn with
  | nil => cases mem
  | append_singleton done last ih =>
    rw [List.foldl_concat]
    rcases List.mem_append.mp mem with early | late
    · have before := ih early
      unfold Memory.give
      split
      · simp only [membersOf, get?_insert]
        split
        · simp
        · exact before
      · exact before
      · exact before
    · rw [← List.mem_singleton.mp late]
      unfold Memory.give
      simp only [here, Option.map_some, toRun, membersOf]
      simp

theorem startRuns_isSome (timeUnixNanos : ℕ) (runs : SortedMap RunKey RunState)
    (newRuns : List (RunKey × ℕ)) (run : RunKey) :
    ((agg.startRuns timeUnixNanos runs newRuns).get? run).isSome = (runs.get? run).isSome := by
  unfold Aggregator.startRuns
  induction newRuns generalizing runs with
  | nil => rfl
  | cons fresh newRuns ih =>
    rw [List.foldl_cons, ih, get?_modify]
    split
    · rw [Option.isSome_map]
    · rfl

namespace Aggregator

theorem call_follows {agg : Aggregator} {last : List ProcessSample} (follows : agg.Follows last)
    (call : Call) (distinct : DistinctPids call.processes) :
    (agg.call call).1.Follows call.processes := by
  have attributed := agg.attributed_sample follows.known distinct
  have tracks : Tracks (agg.attributed call.processes).current call.processes :=
    attributed.tracks.trans ((sorted_perm call.processes).map _)
  refine ⟨tracks, distinct, ?_⟩
  intro key t run here toRun
  rcases attributed.tracks.only here with ⟨p, mem, same, _⟩
  have member := memory_members (agg.attributed call.processes).current
    (sorted call.processes) mem (same ▸ here) toRun
  have known := attributed.known key t run here toRun
  simp only [Aggregator.call, Aggregator.step, get?_filter, get?_map]
  rw [← startRuns_isSome agg call.timeUnixNanos _
    (call.order.newRuns.arrange (agg.attributed call.processes).newRuns.entries)] at known
  rcases Option.isSome_iff_exists.mp known with ⟨state, found⟩
  rw [found]
  simpa using member

/-- The sample of the last call; none before the first. -/
def lastOf (calls : List Call) : List ProcessSample :=
  (calls.getLast?.map Call.processes).getD []

theorem lastOf_concat (calls : List Call) (call : Call) :
    lastOf (calls ++ [call]) = call.processes := by
  simp [lastOf]

theorem after_concat (agg : Aggregator) (calls : List Call) (call : Call) :
    agg.after (calls ++ [call]) = ((agg.after calls).call call).1 :=
  List.foldl_concat _ _ _ _

theorem after_follows (clkTck bootUnixSecs startedUnixNanos : ℕ) (calls : List Call)
    (distinct : ∀ call ∈ calls, DistinctPids call.processes) :
    ((new clkTck bootUnixSecs startedUnixNanos).after calls).Follows (lastOf calls) := by
  induction calls using List.reverseRecOn with
  | nil => exact new_follows clkTck bootUnixSecs startedUnixNanos
  | append_singleton calls call ih =>
    rw [after_concat, lastOf_concat]
    exact call_follows (ih fun other mem => distinct other (List.mem_append_left _ mem)) call
      (distinct call (by simp))

end Aggregator

/-- The same call, its processes and its loops in other orders. -/
structure Call.Rearranges (call other : Call) : Prop where
  time : call.timeUnixNanos = other.timeUnixNanos
  perm : call.processes.Perm other.processes

theorem Aggregator.produced_perm {agg : Aggregator} {last : List ProcessSample}
    (follows : agg.Follows last) {calls others : List Call}
    (rearranged : List.Forall₂ Call.Rearranges calls others)
    (distinct : ∀ call ∈ calls, DistinctPids call.processes) :
    agg.produced calls = agg.produced others := by
  induction rearranged generalizing agg last with
  | nil => rfl
  | @cons call other calls others same rest ih =>
    rw [List.forall_mem_cons] at distinct
    have step : agg.call call = agg.call other := by
      unfold Aggregator.call
      rw [same.time]
      exact agg.step_perm follows.apart _ _ _ distinct.1 same.perm
    simp only [Aggregator.produced]
    rw [← step, ih (Aggregator.call_follows follows call distinct.1) distinct.2]

end AgentDeck.Collector
