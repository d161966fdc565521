import AgentDeck.Collector.Attribution
import AgentDeck.Lib.Debts

/-!
# The credit of a sample

What each process is credited once the vanished ones are taken back: its increase, less what it owes
for those it reaped, as far as its children time grew. None of it depends on the order of a loop.
-/

namespace AgentDeck.Collector

open SortedMap Debts

/-! ## Opening the accounts -/

variable (tracked : SortedMap Key Tracked)

/-- A process's increase, or its whole total when new. -/
def gain (key : Key) (now : Tracked) : ℕ :=
  match tracked.get? key with
  | some prev => now.total - prev.total
  | none => now.total

/-- What a process's children time grew by, and nothing when it is new. -/
def growth (key : Key) (now : Tracked) : ℕ :=
  match tracked.get? key with
  | some prev => now.children - prev.children
  | none => 0

theorem credited_eq_folds (current : List (Key × Tracked)) :
    credited tracked current =
      ⟨current.foldl (fun built entry =>
          built.insert entry.1 (gain tracked entry.1 entry.2 : ℤ)) SortedMap.empty,
        current.foldl (fun built entry =>
          built.insert entry.1 (growth tracked entry.1 entry.2)) SortedMap.empty⟩ := by
  unfold credited
  induction current using List.reverseRecOn with
  | nil => rfl
  | append_singleton entries last ih =>
    rw [List.foldl_concat, List.foldl_concat, List.foldl_concat, ih]
    unfold gain growth
    cases tracked.get? last.1 <;> rfl

theorem credited_eq {current : SortedMap Key Tracked} {entries : List (Key × Tracked)}
    (perm : entries.Perm current.entries) :
    credited tracked entries =
      ⟨current.map fun key now => (gain tracked key now : ℤ),
        current.map fun key now => growth tracked key now⟩ := by
  rw [credited_eq_folds, foldl_insert_entries (fun key now => (gain tracked key now : ℤ)) perm,
    foldl_insert_entries (fun key now => growth tracked key now) perm]

/-! ## Taking back -/

namespace Ancestry

/-- What a vanished process is owed for, and by which ancestor. -/
def debt (ancestry : Ancestry) (gone : Key × Tracked) : Option (Key × ℕ) :=
  if (ancestry.current.get? gone.1).isSome then none
  else (ancestry.reaper maxAncestry gone.2).map fun pk => (pk, gone.2.total)

def debts (ancestry : Ancestry) (gone : List (Key × Tracked)) : List (Key × ℕ) :=
  gone.filterMap ancestry.debt

end Ancestry

/-- The accounts are the ones opened, less what was paid out of the purses. -/
structure Books (opened accounts : Accounts) (purses : Purses Key) : Prop where
  budget : ∀ key, accounts.budget.get? key = (opened.budget.get? key).map fun _ => purses.left key
  credit : ∀ key, accounts.credit.get? key =
    (opened.credit.get? key).map fun credit => credit - (purses.paid key : ℤ)

/-- Only a process with a budget has a credit. -/
def Accounts.Matched (accounts : Accounts) : Prop :=
  ∀ key, accounts.budget.get? key = none → accounts.credit.get? key = none

theorem books_takeBack {ancestry : Ancestry} {opened accounts : Accounts} {purses : Purses Key}
    (matched : opened.Matched) (books : Books opened accounts purses) (gone : Key × Tracked) :
    Books opened (ancestry.takeBack accounts gone)
      ((ancestry.debt gone).elim purses purses.collect) := by
  unfold Ancestry.takeBack Ancestry.debt
  split
  · exact books
  · cases ancestry.reaper maxAncestry gone.2 with
    | none => exact books
    | some pk =>
      simp only [Option.map_some, Option.elim_some]
      cases here : accounts.budget.get? pk with
      | none =>
        have absent : opened.budget.get? pk = none := by
          have kept := books.budget pk
          rw [here] at kept
          exact Option.map_eq_none_iff.mp kept.symm
        refine ⟨fun key => ?_, fun key => ?_⟩
        · rw [books.budget key]
          by_cases same : key = pk
          · rw [same, absent]
            rfl
          · simp only [Purses.collect, if_neg same]
        · rw [books.credit key]
          by_cases same : key = pk
          · rw [same, matched pk absent]
            rfl
          · simp only [Purses.collect, if_neg same]
      | some left =>
        have kept := books.budget pk
        rw [here] at kept
        rcases Option.map_eq_some_iff.mp kept.symm with ⟨budget, stands, leftEq⟩
        refine ⟨fun key => ?_, fun key => ?_⟩
        · rw [get?_insert]
          simp only [Purses.collect]
          by_cases same : key = pk
          · rw [if_pos same, if_pos same, same, stands, leftEq]
            rfl
          · rw [if_neg same, if_neg same, books.budget key]
        · rw [get?_modify, books.credit key]
          simp only [Purses.collect]
          by_cases same : key = pk
          · rw [if_pos same, if_pos same, same, Option.map_map]
            refine congrArg (fun f => (opened.credit.get? pk).map f) (funext fun credit => ?_)
            simp only [Function.comp_apply]
            omega
          · rw [if_neg same, if_neg same]

theorem books_run {ancestry : Ancestry} {opened accounts : Accounts} {purses : Purses Key}
    (matched : opened.Matched) (books : Books opened accounts purses)
    (gone : List (Key × Tracked)) :
    Books opened (gone.foldl ancestry.takeBack accounts)
      ((ancestry.debts gone).foldl Purses.collect purses) := by
  induction gone generalizing accounts purses with
  | nil => exact books
  | cons first rest ih =>
    have stepped : Books opened (ancestry.takeBack accounts first)
        ((ancestry.debt first).elim purses purses.collect) := books_takeBack matched books first
    rw [Ancestry.debts, List.filterMap_cons]
    cases here : ancestry.debt first with
    | none =>
      rw [here] at stepped
      exact ih stepped
    | some debt =>
      rw [here] at stepped
      exact ih stepped

/-! ## The settled accounts -/

namespace Aggregator

/-- The maps of a sample, with the pids of the processes before it. -/
def ancestry (agg : Aggregator) (processes : List ProcessSample) : Ancestry :=
  ⟨agg.tracked, (agg.attributed processes).current, (agg.attributed processes).byPid,
    Collector.prevByPid agg.tracked.entries⟩

/-- What is to be taken back for the processes that vanished. -/
def debts (agg : Aggregator) (processes : List ProcessSample) : List (Key × ℕ) :=
  (agg.ancestry processes).debts agg.tracked.entries

def creditOf (agg : Aggregator) (processes : List ProcessSample) (key : Key) (now : Tracked) : ℤ :=
  gain agg.tracked key now -
    (min (growth agg.tracked key now) (owed (agg.debts processes) key) : ℕ)

end Aggregator

def PidsApart : Prop :=
  ∀ left ∈ tracked.entries, ∀ right ∈ tracked.entries, left.1.pid = right.1.pid →
    left.1 = right.1

theorem prevByPid_perm {tracked : SortedMap Key Tracked} (apart : PidsApart tracked)
    {entries : List (Key × Tracked)} (perm : entries.Perm tracked.entries) :
    prevByPid entries = prevByPid tracked.entries := by
  refine ext_get? fun pid => Option.ext fun key => ?_
  have here := get?_foldl_insert (fun entry : Key × Tracked => entry.1.pid) (fun entry => entry.1)
    (fun x xMem y yMem => apart x (perm.mem_iff.mp xMem) y (perm.mem_iff.mp yMem)) pid key
  have there := get?_foldl_insert (fun entry : Key × Tracked => entry.1.pid) (fun entry => entry.1)
    apart pid key
  refine here.trans (Iff.trans ?_ there.symm)
  simp only [perm.mem_iff]

theorem Aggregator.settled_credit (agg : Aggregator) (order : Iteration)
    (processes : List ProcessSample) (apart : PidsApart agg.tracked) :
    (agg.settled order processes).credit =
      (agg.attributed processes).current.map (agg.creditOf processes) := by
  have opened := credited_eq agg.tracked
    (order.current.perm (agg.attributed processes).current.entries)
  have matched : (credited agg.tracked
      (order.current.arrange (agg.attributed processes).current.entries)).Matched := by
    intro key absent
    rw [opened] at absent ⊢
    simp only [get?_map, Option.map_eq_none_iff] at absent ⊢
    exact absent
  have start : Books (credited agg.tracked
      (order.current.arrange (agg.attributed processes).current.entries))
      (credited agg.tracked
        (order.current.arrange (agg.attributed processes).current.entries))
      ⟨fun key => (((agg.attributed processes).current.get? key).map
        (growth agg.tracked key)).getD 0, fun _ => 0⟩ := by
    refine ⟨fun key => ?_, fun key => ?_⟩
    · rw [opened]
      simp only [get?_map]
      cases (agg.attributed processes).current.get? key <;> rfl
    · simp
  have books := @books_run (agg.ancestry processes) _ _ _ matched start
    (order.tracked.arrange agg.tracked.entries)
  have permuted : ((agg.ancestry processes).debts
      (order.tracked.arrange agg.tracked.entries)).Perm (agg.debts processes) :=
    (order.tracked.perm agg.tracked.entries).filterMap _
  have shape : agg.settled order processes =
      (order.tracked.arrange agg.tracked.entries).foldl (agg.ancestry processes).takeBack
        (credited agg.tracked
          (order.current.arrange (agg.attributed processes).current.entries)) := by
    unfold Aggregator.settled Aggregator.ancestry
    rw [prevByPid_perm apart (order.prevByPid.perm agg.tracked.entries)]
  refine ext_get? fun key => ?_
  rw [shape, books.credit key, opened, get?_map, get?_map, Purses.paid_collected, owed_perm
    permuted]
  cases here : (agg.attributed processes).current.get? key with
  | none => rfl
  | some now =>
    simp only [here, Option.map_some, Option.getD_some, Nat.zero_add, Aggregator.creditOf]

end AgentDeck.Collector
