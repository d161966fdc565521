import AgentDeck.Collector.Conserved

/-!
# The accounting as a whole

No order matters, no credit is negative, no tick of a live process is missed, and none is counted
twice where every process that vanished was reaped by an ancestor in sight.
-/

namespace AgentDeck.Collector

/-- For every sequence of samples with distinct pids: what is produced depends on no order; where no
counter decreases, no credit is negative before clamping and the ticks credited are at least the
totals of the last sample; and where moreover every vanished process led, through fewer than
`maxAncestry` vanished parents, to a survivor whose children time grew by all that leads to it, they
are equal. Every sum of ticks is taken to be below `2 ^ 64`, as the source's counters are. -/
theorem ticks_credited_once (clkTck bootUnixSecs startedUnixNanos : ℕ) (calls : List Call)
    (distinct : ∀ call ∈ calls, DistinctPids call.processes) :
    (∀ others, List.Forall₂ Call.Rearranges calls others →
      (Aggregator.new clkTck bootUnixSecs startedUnixNanos).produced calls =
        (Aggregator.new clkTck bootUnixSecs startedUnixNanos).produced others) ∧
    (Consecutive NeverDecrease calls →
      (∀ past call rest, calls = past ++ call :: rest → ∀ key credit,
        (((Aggregator.new clkTck bootUnixSecs startedUnixNanos).after past).settled call.order
          call.processes).credit.get? key = some credit → 0 ≤ credit) ∧
      (∀ past rest, calls = past ++ rest →
        totalOf (Aggregator.lastOf past) ≤
          creditedSoFar (.new clkTck bootUnixSecs startedUnixNanos) past) ∧
      (Consecutive (RepaidWithin maxAncestry) calls →
        ∀ past rest, calls = past ++ rest →
          creditedSoFar (.new clkTck bootUnixSecs startedUnixNanos) past =
            totalOf (Aggregator.lastOf past))) := by
  refine ⟨?_, ?_⟩
  · intro others rearranged
    exact Aggregator.produced_perm (Aggregator.new_follows _ _ _) rearranged distinct
  · intro never
    refine ⟨?_, ?_, ?_⟩
    · intro past call rest split key credit here
      subst split
      exact credit_nonneg clkTck bootUnixSecs startedUnixNanos distinct never here
    · intro past rest split
      subst split
      exact total_le_credited clkTck bootUnixSecs startedUnixNanos
        (fun call mem => distinct call (List.mem_append_left _ mem)) never.left
    · intro repaid past rest split
      subst split
      exact credited_eq_total clkTck bootUnixSecs startedUnixNanos
        (fun call mem => distinct call (List.mem_append_left _ mem)) never.left repaid.left

/-! ## A child that was reaped -/

theorem consecutive_pair {holds : List ProcessSample → List ProcessSample → Prop}
    {first second : Call} (here : holds first.processes second.processes) :
    Consecutive holds [first, second] := by
  intro past call next rest split
  rcases past with _ | ⟨early, past⟩
  · cases split
    exact here
  · have short := congrArg List.length split
    simp only [List.length_cons, List.length_nil, List.length_append] at short
    omega

theorem ledTo_le_goneOf (before now : List ProcessSample) (ancestor : ProcessSample) :
    ledTo before now ancestor ≤ goneOf before now := by
  refine List.sum_le_sum fun p _ => ?_
  by_cases here : Has now p.key
  · rw [if_pos here, if_neg fun led => led.1 here]
  · split
    · exact le_rfl
    · exact Nat.zero_le _

def plain (pid ppid starttime utime cutime : ℕ) : ProcessSample :=
  ⟨pid, 0, ⟨ppid, utime, 0, cutime, 0, starttime⟩, .read none, none⟩

def reapedCalls : List Call :=
  [⟨.same, 1, [plain 2 1 2 5 0, plain 1 0 1 3 0]⟩, ⟨.same, 2, [plain 1 0 1 4 6]⟩]

theorem reaped_child_credited_once :
    creditedSoFar (.new 100 0 0) reapedCalls = 10 ∧
      ∀ past rest, reapedCalls = past ++ rest →
        creditedSoFar (.new 100 0 0) past = totalOf (Aggregator.lastOf past) := by
  have distinct : ∀ call ∈ reapedCalls, DistinctPids call.processes := by
    unfold DistinctPids
    decide
  have never : Consecutive NeverDecrease reapedCalls := by
    refine consecutive_pair ?_
    unfold NeverDecrease
    decide
  have repaid : Consecutive (RepaidWithin maxAncestry) reapedCalls := by
    refine consecutive_pair ?_
    intro p mem gone
    refine ⟨0, by decide, plain 1 0 1 3 0, .parent (by decide) (by decide) ?_, ?_⟩
    · have only : p = plain 2 1 2 5 0 := by
        revert gone
        revert p
        decide
      rw [only]
      rfl
    · intro q qMem _
      have bound := ledTo_le_goneOf [plain 2 1 2 5 0, plain 1 0 1 3 0] [plain 1 0 1 4 6]
        (plain 1 0 1 3 0)
      have five : goneOf [plain 2 1 2 5 0, plain 1 0 1 3 0] [plain 1 0 1 4 6] = 5 := by decide
      rw [List.mem_singleton.mp qMem]
      simp only [plain, ProcStat.childrenTicks] at bound five ⊢
      omega
  have all := ticks_credited_once 100 0 0 reapedCalls distinct
  have equal := (all.2 never).2.2 repaid
  exact ⟨equal reapedCalls [] (List.append_nil _).symm, equal⟩

/-! ## One parent too many -/

def link (depth : ℕ) : ProcessSample :=
  plain (65 - depth) (66 - depth) depth (if depth = 65 then 1 else 0) 0

def chain : List ProcessSample := (List.range 66).map link

def survivor : ProcessSample := plain 65 66 0 0 1

def chainCalls : List Call := [⟨.same, 1, chain⟩, ⟨.same, 2, [survivor]⟩]

theorem link_mem {depth : ℕ} (small : depth < 66) : link depth ∈ chain :=
  List.mem_map_of_mem (List.mem_range.mpr small)

theorem link_gone {depth : ℕ} (below : 0 < depth) : ¬ Has [survivor] (link depth).key := by
  rintro ⟨p, mem, same⟩
  rw [List.mem_singleton.mp mem] at same
  have start : 0 = depth := congrArg Key.starttime same
  omega

theorem link_leads (depth : ℕ) (small : depth < 65) :
    LeadsTo chain [survivor] (link 0) depth (link (depth + 1)) := by
  induction depth with
  | zero => exact .parent (link_mem (by omega)) ⟨survivor, by simp, rfl⟩ rfl
  | succ depth ih =>
    refine .through (link_mem (by omega)) (link_gone (Nat.succ_pos depth)) ?_ (ih (by omega))
    change 65 - (depth + 1) = 66 - (depth + 1 + 1)
    omega

/-- Through exactly `maxAncestry` vanished parents the walk stops short of the ancestor, and the
tick of the process that vanished is counted twice. -/
theorem sixty_four_vanished_parents :
    (∀ call ∈ chainCalls, DistinctPids call.processes) ∧ Consecutive NeverDecrease chainCalls ∧
      Consecutive (RepaidWithin (maxAncestry + 1)) chainCalls ∧
      creditedSoFar (.new 100 0 0) chainCalls = 2 ∧
      totalOf (Aggregator.lastOf chainCalls) = 1 := by
  refine ⟨?_, consecutive_pair ?_, consecutive_pair ?_, by decide +kernel, by decide⟩
  · unfold DistinctPids
    decide +kernel
  · unfold NeverDecrease
    decide +kernel
  · intro p mem gone
    rcases List.mem_map.mp mem with ⟨depth, depthMem, rfl⟩
    have small := List.mem_range.mp depthMem
    rcases depth with _ | depth
    · exact absurd ⟨survivor, List.mem_singleton_self _, rfl⟩ gone
    · refine ⟨depth, Nat.lt_of_succ_lt_succ small, link 0, link_leads depth (by omega), ?_⟩
      intro q qMem _
      have bound := ledTo_le_goneOf chain [survivor] (link 0)
      have one : goneOf chain [survivor] = 1 := by decide +kernel
      rw [List.mem_singleton.mp qMem]
      refine (Nat.add_le_add_right (bound.trans one.le) _).trans ?_
      decide

end AgentDeck.Collector
