import AgentDeck.Lib.Repay
import AgentDeck.Lib.Runs
import AgentDeck.Probe.Epoch
import AgentDeck.Time
import Mathlib.Data.List.Count
import Mathlib.Data.List.Pairwise
import Mathlib.Order.Lattice

/-!
# The accounting of bracketed-paste pairs

`Live` of `src/composer_probe/epoch.rs`, the part that decides which completed pairs the records
account for. A pair no record accounts for moves the epoch. The debts and the credits kept are
capped; the reference keeps all of them.
-/

namespace AgentDeck.Probe

def explainedCap : ℕ := 4

def creditAfterDrain : Duration := fromSecs 5

inductive Marker
  | pasteOff
  | pasteOn
  | frame
  deriving DecidableEq

abbrev RecordKey := ℕ

structure Credit where
  key : RecordKey
  /-- When its record was first seen drained or gone. -/
  drained : Option Instant
  deriving DecidableEq

namespace Credit

/-- A credit once its record was seen drained or gone, by `gone`. -/
def noted (gone : RecordKey → Bool) (now : Instant) (credit : Credit) : Credit :=
  if credit.drained.isNone && gone credit.key then { credit with drained := some now } else credit

def lasts (now : Instant) (credit : Credit) : Bool :=
  credit.drained.all fun drained => decide (now - drained < creditAfterDrain)

end Credit

structure Live where
  /-- A `PasteOff` was read and no `PasteOn` has followed it yet. -/
  pairOpen : Bool
  explained : List Credit
  /-- When each pair ended that no record accounts for, oldest first. -/
  unexplained : List Instant
  /-- The latest ending of a pair `unexplained` had no room for. -/
  forgotten : Option Instant
  epoch : InputEpoch

namespace Live

def start (epoch : InputEpoch) : Live where
  pairOpen := false
  explained := []
  unexplained := []
  forgotten := none
  epoch := epoch

/-- `owe`: the oldest of a full queue is folded into the watermark. -/
def owe (live : Live) (ended : Instant) : Live :=
  match decide (live.unexplained.length = explainedCap), live.unexplained with
  | true, oldest :: rest =>
    { live with
      forgotten := some (match live.forgotten with
        | some forgotten => max forgotten oldest
        | none => oldest)
      unexplained := rest ++ [ended] }
  | _, _ => { live with unexplained := live.unexplained ++ [ended] }

/-- `explain`: a new record fails closed, repays a pair, or banks a credit while there is room. -/
def explain (live : Live) (key : RecordKey) (birthFloor : Instant) : Live :=
  if live.forgotten.any fun forgotten => decide (birthFloor ≤ forgotten) then live
  else if live.unexplained.any fun ended => decide (birthFloor ≤ ended) then
    { live with unexplained := live.unexplained.eraseP fun ended => decide (birthFloor ≤ ended) }
  else if live.explained.length < explainedCap then
    { live with explained := live.explained ++ [⟨key, none⟩] }
  else live

def noteDrained (live : Live) (gone : RecordKey → Bool) (now : Instant) : Live :=
  { live with explained := live.explained.map (Credit.noted gone now) }

def expireCredits (live : Live) (now : Instant) : Live :=
  { live with explained := live.explained.filter (Credit.lasts now) }

def completed (live : Live) (now : Instant) : Bool × Live :=
  let live := live.expireCredits now
  match live.explained with
  | [] => (true, { live with epoch := live.epoch.record none }.owe now)
  | _ :: rest => (false, { live with explained := rest })

/-- `on_return_markers`, for the pairs: whether each pair that completed moved the epoch. -/
def onReturnMarkers (now : Instant) : Live → List Marker → List Bool × Live
  | live, [] => ([], live)
  | live, marker :: seen =>
    match marker, live.pairOpen with
    | .pasteOff, _ => onReturnMarkers now { live with pairOpen := true } seen
    | .pasteOn, true =>
      let pair := { live with pairOpen := false }.completed now
      let rest := onReturnMarkers now pair.2 seen
      (pair.1 :: rest.1, rest.2)
    | _, _ => onReturnMarkers now live seen

/-- `record_observe`, for the pairs: a record that this observation made explains one, unless it is
a tool's. -/
def recordObserve (live : Live) (key : RecordKey) (birthFloor : Instant)
    (tool before after : Bool) : Live :=
  if !tool && !before && after then live.explain key birthFloor else live

end Live

structure Reference where
  pairOpen : Bool
  credits : List Credit
  owed : List Instant

namespace Reference

def start : Reference where
  pairOpen := false
  credits := []
  owed := []

/-- A record repays the oldest pair that ended at or after its floor, or banks a credit. -/
def explain (reference : Reference) (key : RecordKey) (birthFloor : Instant) : Reference :=
  if reference.owed.any fun ended => decide (birthFloor ≤ ended) then
    { reference with owed := reference.owed.eraseP fun ended => decide (birthFloor ≤ ended) }
  else { reference with credits := reference.credits ++ [⟨key, none⟩] }

def noteDrained (reference : Reference) (gone : RecordKey → Bool) (now : Instant) : Reference :=
  { reference with credits := reference.credits.map (Credit.noted gone now) }

def expireCredits (reference : Reference) (now : Instant) : Reference :=
  { reference with credits := reference.credits.filter (Credit.lasts now) }

/-- A completed pair consumes the oldest credit, or moves the epoch and is owed. -/
def completed (reference : Reference) (now : Instant) : Bool × Reference :=
  let reference := reference.expireCredits now
  match reference.credits with
  | [] => (true, { reference with owed := reference.owed ++ [now] })
  | _ :: rest => (false, { reference with credits := rest })

def onReturnMarkers (now : Instant) : Reference → List Marker → List Bool × Reference
  | reference, [] => ([], reference)
  | reference, marker :: seen =>
    match marker, reference.pairOpen with
    | .pasteOff, _ => onReturnMarkers now { reference with pairOpen := true } seen
    | .pasteOn, true =>
      let pair := { reference with pairOpen := false }.completed now
      let rest := onReturnMarkers now pair.2 seen
      (pair.1 :: rest.1, rest.2)
    | _, _ => onReturnMarkers now reference seen

def recordObserve (reference : Reference) (key : RecordKey) (birthFloor : Instant)
    (tool before after : Bool) : Reference :=
  if !tool && !before && after then reference.explain key birthFloor else reference

end Reference

/-- Both accountings, with when the last pair completed. -/
structure Accounts where
  live : Live
  reference : Reference
  last : Option Instant

inductive PairEvent
  | markers (seen : List Marker) (now : Instant)
  | observe (key : RecordKey) (birthFloor : Instant) (tool before after : Bool)
  | drained (gone : RecordKey → Bool) (now : Instant)
  | expired (now : Instant)

namespace Accounts

def start (epoch : InputEpoch) : Accounts where
  live := .start epoch
  reference := .start
  last := none

def step (a : Accounts) : PairEvent → Accounts
  | .markers seen now =>
    { live := (a.live.onReturnMarkers now seen).2
      reference := (a.reference.onReturnMarkers now seen).2
      last := if (a.live.onReturnMarkers now seen).1 = [] then a.last else some now }
  | .observe key birthFloor tool before after =>
    { a with
      live := a.live.recordObserve key birthFloor tool before after
      reference := a.reference.recordObserve key birthFloor tool before after }
  | .drained gone now =>
    { a with
      live := a.live.noteDrained gone now
      reference := a.reference.noteDrained gone now }
  | .expired now =>
    { a with
      live := a.live.expireCredits now
      reference := a.reference.expireCredits now }

/-- Pairs complete at instants that do not run back. -/
def inOrder (a : Accounts) : PairEvent → Bool
  | .markers seen now =>
    (a.live.onReturnMarkers now seen).1.isEmpty || a.last.all fun last => decide (last ≤ now)
  | _ => true

theorem le_of_inOrder {a : Accounts} {seen : List Marker} {now : Instant}
    (order : a.inOrder (.markers seen now))
    (nonempty : (a.live.onReturnMarkers now seen).1 ≠ []) : ∀ last ∈ a.last, last ≤ now := by
  intro last mem
  simp only [inOrder, Bool.or_eq_true, List.isEmpty_iff, nonempty, false_or] at order
  rw [mem] at order
  exact of_decide_eq_true order

end Accounts

/-- How the capped accounting relates to the one that forgets nothing. -/
structure Simulates (live : Live) (reference : Reference) : Prop where
  pairOpen : live.pairOpen = reference.pairOpen
  credits : live.explained.Sublist reference.credits
  owed : ∀ ended, (∀ forgotten ∈ live.forgotten, forgotten < ended) →
    reference.owed.count ended ≤ live.unexplained.count ended
  sorted : live.unexplained.Pairwise (· ≤ ·)
  owedSorted : reference.owed.Pairwise (· ≤ ·)

def Before (now : Instant) (live : Live) (reference : Reference) : Prop :=
  (∀ ended ∈ live.unexplained, ended ≤ now) ∧ ∀ ended ∈ reference.owed, ended ≤ now

theorem simulates_start (epoch : InputEpoch) : Simulates (.start epoch) .start where
  pairOpen := rfl
  credits := .slnil
  owed _ _ := le_rfl
  sorted := .nil
  owedSorted := .nil

theorem sorted_snoc {debts : List Instant} {now : Instant} (sorted : debts.Pairwise (· ≤ ·))
    (before : ∀ ended ∈ debts, ended ≤ now) : (debts ++ [now]).Pairwise (· ≤ ·) := by
  rw [List.pairwise_append]
  refine ⟨sorted, List.pairwise_singleton _ _, ?_⟩
  intro ended mem last lastMem
  rw [List.mem_singleton.mp lastMem]
  exact before ended mem

namespace Live

theorem owe_cases (live : Live) (ended : Instant) :
    (live.owe ended).explained = live.explained ∧ (live.owe ended).pairOpen = live.pairOpen ∧
      ((live.owe ended).forgotten = live.forgotten ∧
          (live.owe ended).unexplained = live.unexplained ++ [ended] ∨
        ∃ oldest rest watermark, live.unexplained = oldest :: rest ∧ oldest ≤ watermark ∧
          (∀ forgotten ∈ live.forgotten, forgotten ≤ watermark) ∧
          (live.owe ended).forgotten = some watermark ∧
          (live.owe ended).unexplained = rest ++ [ended]) := by
  simp only [owe]
  split
  · rename_i oldest rest full is
    refine ⟨rfl, rfl, .inr ⟨oldest, rest, _, is, ?_, ?_, rfl, rfl⟩⟩
    · split
      · exact le_max_right _ _
      · exact le_rfl
    · intro forgotten mem
      rw [mem]
      exact le_max_left _ _
  · exact ⟨rfl, rfl, .inl ⟨rfl, rfl⟩⟩

theorem recordObserve_sublist (live : Live) (key : RecordKey) (birthFloor : Instant)
    (tool before after : Bool) :
    (live.recordObserve key birthFloor tool before after).unexplained.Sublist live.unexplained := by
  simp only [recordObserve, explain]
  split
  · split
    · exact .refl _
    · split
      · exact List.eraseP_sublist
      · split
        · exact .refl _
        · exact .refl _
  · exact .refl _

theorem completed_of_nil {live : Live} {now : Instant}
    (absent : (live.expireCredits now).explained = []) :
    live.completed now = (true, owe { live.expireCredits now with
      epoch := (live.expireCredits now).epoch.record .none } now) := by
  simp only [completed]
  split
  · rfl
  · rename_i is
    cases is.symm.trans absent

theorem completed_of_cons {live : Live} {now : Instant} {credit : Credit} {rest : List Credit}
    (nonempty : (live.expireCredits now).explained = credit :: rest) :
    live.completed now = (false, { live.expireCredits now with explained := rest }) := by
  simp only [completed]
  split
  · rename_i is
    cases nonempty.symm.trans is
  · rename_i is
    rw [(List.cons.inj (is.symm.trans nonempty)).2]

end Live

namespace Reference

theorem recordObserve_sublist (reference : Reference) (key : RecordKey) (birthFloor : Instant)
    (tool before after : Bool) :
    (reference.recordObserve key birthFloor tool before after).owed.Sublist reference.owed := by
  simp only [recordObserve, explain]
  split
  · split
    · exact List.eraseP_sublist
    · exact .refl _
  · exact .refl _

theorem completed_of_nil {reference : Reference} {now : Instant}
    (absent : (reference.expireCredits now).credits = []) :
    reference.completed now = (true, { reference.expireCredits now with
      owed := reference.owed ++ [now] }) := by
  simp only [completed]
  split
  · rfl
  · rename_i is
    cases is.symm.trans absent

theorem completed_of_cons {reference : Reference} {now : Instant} {credit : Credit}
    {rest : List Credit} (nonempty : (reference.expireCredits now).credits = credit :: rest) :
    reference.completed now = (false, { reference.expireCredits now with credits := rest }) := by
  simp only [completed]
  split
  · rename_i is
    cases nonempty.symm.trans is
  · rename_i is
    rw [(List.cons.inj (is.symm.trans nonempty)).2]

end Reference

namespace Simulates

variable {live : Live} {reference : Reference} {now : Instant}

variable (simulates : Simulates live reference)

include simulates

theorem expireCredits : Simulates (live.expireCredits now) (reference.expireCredits now) :=
  { simulates with credits := simulates.credits.filter _ }

theorem noteDrained (gone : RecordKey → Bool) :
    Simulates (live.noteDrained gone now) (reference.noteDrained gone now) :=
  { simulates with credits := simulates.credits.map _ }

theorem owe (before : Before now live reference) {owed : List Instant}
    (grown : owed = reference.owed ∨ owed = reference.owed ++ [now]) :
    Simulates (live.owe now) { reference with owed := owed } ∧
      Before now (live.owe now) { reference with owed := owed } := by
  have owedSorted : owed.Pairwise (· ≤ ·) := by
    rcases grown with rfl | rfl
    · exact simulates.owedSorted
    · exact sorted_snoc simulates.owedSorted before.2
  have owedBefore : ∀ ended ∈ owed, ended ≤ now := by
    rcases grown with rfl | rfl
    · exact before.2
    · exact List.forall_mem_append.mpr ⟨before.2, List.forall_mem_singleton.mpr le_rfl⟩
  have count : ∀ ended, owed.count ended ≤ reference.owed.count ended + [now].count ended := by
    intro ended
    rcases grown with rfl | rfl
    · omega
    · rw [List.count_append]
  rcases live.owe_cases now with
    ⟨explained, pairOpen, ⟨forgotten, unexplained⟩ |
      ⟨oldest, rest, watermark, is, dropped, past, forgotten, unexplained⟩⟩
  · refine ⟨⟨?_, ?_, ?_, ?_, owedSorted⟩, ?_, owedBefore⟩
    · rw [pairOpen]
      exact simulates.pairOpen
    · rw [explained]
      exact simulates.credits
    · intro ended later
      rw [forgotten] at later
      have covered := simulates.owed ended later
      rw [unexplained, List.count_append]
      exact le_trans (count ended) (Nat.add_le_add_right covered _)
    · rw [unexplained]
      exact sorted_snoc simulates.sorted before.1
    · rw [unexplained]
      exact List.forall_mem_append.mpr ⟨before.1, List.forall_mem_singleton.mpr le_rfl⟩
  · have sorted := simulates.sorted
    have earlier := before.1
    rw [is] at sorted earlier
    rw [List.forall_mem_cons] at earlier
    refine ⟨⟨?_, ?_, ?_, ?_, owedSorted⟩, ?_, owedBefore⟩
    · rw [pairOpen]
      exact simulates.pairOpen
    · rw [explained]
      exact simulates.credits
    · intro ended later
      rw [forgotten] at later
      have above : watermark < ended := later watermark rfl
      have covered := simulates.owed ended fun f mem => lt_of_le_of_lt (past f mem) above
      have kept : oldest ≠ ended := ne_of_lt (lt_of_le_of_lt dropped above)
      rw [is, List.count_cons_of_ne kept] at covered
      rw [unexplained, List.count_append]
      exact le_trans (count ended) (Nat.add_le_add_right covered _)
    · rw [unexplained]
      exact sorted_snoc (List.pairwise_cons.mp sorted).2 earlier.2
    · rw [unexplained]
      exact List.forall_mem_append.mpr ⟨earlier.2, List.forall_mem_singleton.mpr le_rfl⟩

theorem completed (before : Before now live reference) :
    ((reference.completed now).1 = true → (live.completed now).1 = true) ∧
      Simulates (live.completed now).2 (reference.completed now).2 ∧
      Before now (live.completed now).2 (reference.completed now).2 := by
  have expired : Simulates (live.expireCredits now) (reference.expireCredits now) :=
    simulates.expireCredits
  have credits := expired.credits
  cases here : (live.expireCredits now).explained with
  | nil =>
    have moved : Simulates
        { live.expireCredits now with epoch := (live.expireCredits now).epoch.record none }
        (reference.expireCredits now) := { expired with }
    rw [Live.completed_of_nil here]
    refine ⟨fun _ => rfl, ?_⟩
    cases there : (reference.expireCredits now).credits with
    | nil =>
      rw [Reference.completed_of_nil there]
      exact moved.owe before (.inr rfl)
    | cons credit rest =>
      rw [Reference.completed_of_cons there]
      have owed := moved.owe before (.inl rfl)
      refine ⟨{ owed.1 with credits := ?_ }, owed.2⟩
      rw [(Live.owe_cases _ now).1, here]
      exact List.nil_sublist _
  | cons credit rest =>
    cases there : (reference.expireCredits now).credits with
    | nil =>
      rw [here, there] at credits
      cases List.sublist_nil.mp credits
    | cons oldest others =>
      rw [Live.completed_of_cons here, Reference.completed_of_cons there]
      rw [here, there] at credits
      exact ⟨fun moves => absurd moves Bool.false_ne_true,
        { expired with credits := credits.tail }, before⟩

theorem explain (key : RecordKey) (birthFloor : Instant) :
    Simulates (live.explain key birthFloor) (reference.explain key birthFloor) := by
  have erase {debts : List Instant} :
    (debts.eraseP fun ended => decide (birthFloor ≤ ended)).Sublist
      debts := List.eraseP_sublist
  simp only [Live.explain, Reference.explain]
  by_cases closed : (live.forgotten.any fun forgotten => decide (birthFloor ≤ forgotten)) = true
  · rw [if_pos closed]
    split
    · refine { simulates with owed := ?_, owedSorted := simulates.owedSorted.sublist erase }
      intro ended later
      exact le_trans (erase.count_le ended) (simulates.owed ended later)
    · exact { simulates with credits := simulates.credits.trans (List.sublist_append_left _ _) }
  · rw [if_neg closed]
    -- The watermark is below the floor, so every debt the reference can repay is remembered here.
    have covered : ∀ ended, birthFloor ≤ ended →
        reference.owed.count ended ≤ live.unexplained.count ended := by
      intro ended above
      apply simulates.owed
      intro forgotten mem
      rw [mem] at closed
      exact lt_of_lt_of_le (not_le.mp fun le => closed (decide_eq_true le)) above
    by_cases repays : (live.unexplained.any fun ended => decide (birthFloor ≤ ended)) = true
    · rw [if_pos repays]
      have repaid {ended : Instant}
          (later : ∀ forgotten ∈ live.forgotten, forgotten < ended) :=
        Repay.count_eraseP_le simulates.sorted simulates.owedSorted covered
          (simulates.owed ended later)
      split
      · exact { simulates with
          owed := fun _ later => repaid later
          sorted := simulates.sorted.sublist erase
          owedSorted := simulates.owedSorted.sublist erase }
      · rename_i unpaid
        refine { simulates with
          credits := simulates.credits.trans (List.sublist_append_left _ _)
          owed := ?_
          sorted := simulates.sorted.sublist erase }
        intro ended later
        have absent : ∀ owed ∈ reference.owed, ¬ birthFloor ≤ owed := by
          intro owed mem above
          exact unpaid (List.any_eq_true.mpr ⟨owed, mem, decide_eq_true above⟩)
        have kept := repaid later
        rw [Repay.eraseP_of_none absent] at kept
        exact kept
    · rw [if_neg repays]
      have unpaid : ¬ (reference.owed.any fun ended => decide (birthFloor ≤ ended)) = true := by
        intro nonempty
        rcases List.any_eq_true.mp nonempty with ⟨ended, mem, above⟩
        have known := lt_of_lt_of_le (List.count_pos_iff.mpr mem)
          (covered ended (of_decide_eq_true above))
        exact repays (List.any_eq_true.mpr ⟨ended, List.count_pos_iff.mp known, above⟩)
      split
      · exact { simulates with credits := simulates.credits.append (List.Sublist.refl _) }
      · exact { simulates with
          credits := simulates.credits.trans (List.sublist_append_left _ _) }

theorem recordObserve (key : RecordKey) (birthFloor : Instant) (tool before after : Bool) :
    Simulates (live.recordObserve key birthFloor tool before after)
      (reference.recordObserve key birthFloor tool before after) := by
  simp only [Live.recordObserve, Reference.recordObserve]
  split
  · exact simulates.explain key birthFloor
  · exact simulates

omit simulates in
theorem onReturnMarkers_none {seen : List Marker} (same : live.pairOpen = reference.pairOpen)
    (absent : (live.onReturnMarkers now seen).1 = []) :
    (live.onReturnMarkers now seen).2.unexplained = live.unexplained ∧
      (reference.onReturnMarkers now seen).2.owed = reference.owed := by
  induction seen generalizing live reference with
  | nil => exact ⟨rfl, rfl⟩
  | cons marker seen ih =>
    unfold Live.onReturnMarkers at absent ⊢
    unfold Reference.onReturnMarkers
    rw [← same]
    cases marker with
    | pasteOff =>
      have opened : ({ live with pairOpen := true } : Live).pairOpen =
          ({ reference with pairOpen := true } : Reference).pairOpen := rfl
      exact ih opened absent
    | frame => exact ih same absent
    | pasteOn =>
      cases pair : live.pairOpen with
      | false =>
        rw [pair] at absent
        exact ih same absent
      | true =>
        rw [pair] at absent
        cases absent

theorem onReturnMarkers {seen : List Marker}
    (before : (live.onReturnMarkers now seen).1 ≠ [] → Before now live reference) :
    List.Forall₂ (fun here there => there = true → here = true)
        (live.onReturnMarkers now seen).1 (reference.onReturnMarkers now seen).1 ∧
      Simulates (live.onReturnMarkers now seen).2 (reference.onReturnMarkers now seen).2 ∧
      (Before now live reference →
        Before now (live.onReturnMarkers now seen).2 (reference.onReturnMarkers now seen).2) := by
  induction seen generalizing live reference with
  | nil => exact ⟨.nil, simulates, fun before => before⟩
  | cons marker seen ih =>
    unfold Live.onReturnMarkers at before ⊢
    unfold Reference.onReturnMarkers
    rw [← simulates.pairOpen]
    cases marker with
    | pasteOff =>
      have opened : Simulates { live with pairOpen := true }
          { reference with pairOpen := true } := { simulates with pairOpen := rfl }
      exact ih opened before
    | frame => exact ih simulates before
    | pasteOn =>
      cases pair : live.pairOpen with
      | false =>
        rw [pair] at before
        exact ih simulates before
      | true =>
        rw [pair] at before
        have closed : Simulates { live with pairOpen := false }
            { reference with pairOpen := false } := { simulates with pairOpen := rfl }
        have earlier := before (List.cons_ne_nil _ _)
        rcases closed.completed earlier with ⟨moves, after, bounded⟩
        rcases ih after fun _ => bounded with ⟨rest, final, bounds⟩
        exact ⟨.cons moves rest, final, fun _ => bounds bounded⟩

end Simulates

namespace Accounts

/-- The accountings simulate each other, and what is owed ended by the last pair. -/
structure Kept (a : Accounts) : Prop where
  simulates : Simulates a.live a.reference
  before : ∀ now, (∀ last ∈ a.last, last ≤ now) → Before now a.live a.reference

theorem kept_start (epoch : InputEpoch) : (start epoch).Kept where
  simulates := simulates_start epoch
  before _ _ := ⟨fun _ mem => absurd mem List.not_mem_nil, fun _ mem => absurd mem List.not_mem_nil⟩

theorem Kept.step {a : Accounts} (kept : a.Kept) {event : PairEvent}
    (order : a.inOrder event) : (a.step event).Kept := by
  cases event with
  | markers seen now =>
    have passed := le_of_inOrder order
    have pushed := kept.simulates.onReturnMarkers fun marked => kept.before now (passed marked)
    refine ⟨pushed.2.1, ?_⟩
    intro later order
    by_cases none : (a.live.onReturnMarkers now seen).1 = []
    · rcases Simulates.onReturnMarkers_none kept.simulates.pairOpen none with ⟨debts, owed⟩
      simp only [Accounts.step, none] at order
      simp only [Accounts.step, Before, debts, owed]
      exact kept.before later order
    · simp only [Accounts.step, none] at order
      have le : now ≤ later := order now rfl
      have bounded := pushed.2.2 (kept.before now (passed none))
      exact ⟨fun ended mem => le_trans (bounded.1 ended mem) le,
        fun ended mem => le_trans (bounded.2 ended mem) le⟩
  | observe key birthFloor tool before after =>
    refine ⟨kept.simulates.recordObserve key birthFloor tool before after, ?_⟩
    intro now order
    have bounded := kept.before now order
    have fewer := a.live.recordObserve_sublist key birthFloor tool before after
    have owed := a.reference.recordObserve_sublist key birthFloor tool before after
    exact ⟨fun ended mem => bounded.1 ended (fewer.subset mem),
      fun ended mem => bounded.2 ended (owed.subset mem)⟩
  | drained gone now => exact ⟨kept.simulates.noteDrained gone, kept.before⟩
  | expired now => exact ⟨kept.simulates.expireCredits, kept.before⟩

theorem Kept.run {a : Accounts} (kept : a.Kept) {events : List PairEvent}
    (inOrder : Runs.Along Accounts.step (fun a event => a.inOrder event = true) a events) :
    (events.foldl Accounts.step a).Kept :=
  Runs.run_keeps Kept (fun _ _ order kept => kept.step order) inOrder kept

end Accounts

namespace Live

theorem owe_epoch (live : Live) (ended : Instant) : (live.owe ended).epoch = live.epoch := by
  simp only [owe]
  split
  · rfl
  · rfl

theorem onReturnMarkers_epoch (live : Live) (seen : List Marker) (now : Instant) :
    (live.onReturnMarkers now seen).2.epoch =
      (live.onReturnMarkers now seen).1.foldl
        (fun epoch moved => if moved then epoch.record none else epoch) live.epoch := by
  induction seen generalizing live with
  | nil => rfl
  | cons marker seen ih =>
    unfold onReturnMarkers
    cases marker with
    | pasteOff => exact ih { live with pairOpen := true }
    | frame => exact ih live
    | pasteOn =>
      cases pair : live.pairOpen with
      | false => exact ih live
      | true =>
        have closed := ih ({ live with pairOpen := false }.completed now).2
        refine closed.trans ?_
        cases credits : ({ live with pairOpen := false }.expireCredits now).explained with
        | nil =>
          rw [completed_of_nil credits, owe_epoch]
          rfl
        | cons credit rest =>
          rw [completed_of_cons credits]
          rfl

end Live

/-- The capped accounting misses no edit that the reference sees. -/
theorem pairs_never_miss_an_edit (epoch : InputEpoch) (events : List PairEvent)
    (inOrder : Runs.Along Accounts.step (fun a event => a.inOrder event = true)
      (.start epoch) events) :
    let a := events.foldl Accounts.step (.start epoch)
    a.live.explained.Sublist a.reference.credits ∧
      (∀ ended, (∀ forgotten ∈ a.live.forgotten, forgotten < ended) →
        a.reference.owed.count ended ≤ a.live.unexplained.count ended) ∧
      ∀ seen now, a.inOrder (.markers seen now) = true →
        List.Forall₂ (fun here there => there = true → here = true)
            (a.live.onReturnMarkers now seen).1 (a.reference.onReturnMarkers now seen).1 ∧
          (a.live.onReturnMarkers now seen).2.epoch =
            (a.live.onReturnMarkers now seen).1.foldl
              (fun epoch moved => if moved then epoch.record none else epoch) a.live.epoch := by
  have kept := (Accounts.kept_start epoch).run inOrder
  refine ⟨kept.simulates.credits, kept.simulates.owed, ?_⟩
  intro seen now order
  refine ⟨?_, Live.onReturnMarkers_epoch _ seen now⟩
  exact (kept.simulates.onReturnMarkers fun marked =>
    kept.before now (Accounts.le_of_inOrder order marked)).1

/-- Five pairs with no record, then a record that may be the forgotten one's. -/
def fiveUnexplained : List PairEvent :=
  [.markers [.pasteOff, .pasteOn] 1, .markers [.pasteOff, .pasteOn, .pasteOff, .pasteOn] 2,
    .markers [.pasteOff, .pasteOn, .frame] 3, .markers [.pasteOff, .pasteOn] 3,
    .observe 7 1 false false true, .drained (fun key => key = 7) 4]

theorem pairs_never_miss_an_edit_after_five :
    let a := fiveUnexplained.foldl Accounts.step (.start .default)
    a.live.forgotten = some 1 ∧ a.live.explained.Sublist a.reference.credits ∧
      (a.reference.onReturnMarkers 5 [.pasteOff, .pasteOn]).1 = [true] ∧
      List.Forall₂ (fun here there => there = true → here = true)
        (a.live.onReturnMarkers 5 [.pasteOff, .pasteOn]).1
        (a.reference.onReturnMarkers 5 [.pasteOff, .pasteOn]).1 :=
  have all := pairs_never_miss_an_edit .default fiveUnexplained
    (Runs.along_of_checks (by decide))
  ⟨by decide, all.1, by decide, (all.2.2 [.pasteOff, .pasteOn] 5 (by decide)).1⟩

end AgentDeck.Probe
