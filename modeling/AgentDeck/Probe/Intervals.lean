import AgentDeck.Probe.RecordSteps

/-!
# The interval proof over a folded history

A history drops entries at its cap and in every compaction, and keeps of them the last count, its
stamp and whether a zero shared that stamp. `Folds` ties it to the whole list of what it was given:
the dropped entries are a first part of the list, none of them later than the boundary. A proof over
the folded history is one over the list, and past the boundary the two prove the same.
-/

namespace AgentDeck.Probe

namespace CountHistory

/-- The stamp of the next entry: a stamp earlier than the last one is read as that one. -/
def clamped (whole : List (Instant × ℕ)) (stamp : Instant) : Instant :=
  match whole.getLast? with
  | some last => max last.1 stamp
  | none => stamp

/-- The count a list of entries shows at an instant, 0 before its first entry. -/
def shownAt (whole : List (Instant × ℕ)) (time : Instant) : ℕ :=
  match whole.reverse.find? fun entry => decide (entry.1 ≤ time) with
  | some entry => entry.2
  | none => 0

/-- What an interval proof says of the whole list. -/
structure Proven (whole : List (Instant × ℕ)) (birthFloor exit : Instant) : Prop where
  counted : 1 ≤ shownAt whole birthFloor
  unbroken : ∀ entry ∈ whole, entry.2 = 0 → ¬(birthFloor ≤ entry.1 ∧ entry.1 ≤ exit)

theorem dropFront_cons {h : CountHistory} {stamp : Instant} {count : ℕ} {rest : List (Instant × ℕ)}
    (is : h.entries = (stamp, count) :: rest) :
    h.dropFront = { h with
      entries := rest
      zeroAtBoundary := decide (count = 0) ||
        (decide (h.exactFrom = some stamp) && h.zeroAtBoundary)
      baseline := count
      exactFrom := some stamp } := by
  rw [dropFront, is]

/-- A history, the list of all it was given, and the part of the list it dropped. -/
structure Folds (h : CountHistory) (whole dropped : List (Instant × ℕ)) : Prop where
  entries : whole = dropped ++ h.entries
  ordered : whole.Pairwise fun before after => before.1 ≤ after.1
  latest : h.latest = whole.getLast?.map Prod.fst
  baseline : h.baseline = (dropped.getLast?.map Prod.snd).getD 0
  exactFrom : h.exactFrom = dropped.getLast?.map Prod.fst
  zero : ∀ entry ∈ dropped, entry.2 = 0 → h.exactFrom = some entry.1 → h.zeroAtBoundary = true

theorem folds_default : Folds default [] [] := by
  refine ⟨rfl, List.Pairwise.nil, rfl, rfl, rfl, ?_⟩
  intro entry mem
  cases mem

theorem le_last {whole : List (Instant × ℕ)}
    (ordered : whole.Pairwise fun before after => before.1 ≤ after.1) {last entry : Instant × ℕ}
    (ends : whole.getLast? = some last) (mem : entry ∈ whole) : entry.1 ≤ last.1 := by
  rcases List.getLast?_eq_some_iff.mp ends with ⟨init, rfl⟩
  rcases List.mem_append.mp mem with before | same
  · exact (List.pairwise_append.mp ordered).2.2 entry before last (List.mem_singleton_self last)
  · rw [List.mem_singleton.mp same]

namespace Folds

variable {h : CountHistory} {whole dropped : List (Instant × ℕ)} {entry : Instant × ℕ}
  {first floor exit : Instant}

variable (folds : Folds h whole dropped)

include folds

theorem le_boundary (boundary : h.exactFrom = some first) (mem : entry ∈ dropped) :
    entry.1 ≤ first := by
  rw [folds.exactFrom, Option.map_eq_some_iff] at boundary
  rcases boundary with ⟨last, ends, rfl⟩
  have ordered := folds.ordered
  rw [folds.entries, List.pairwise_append] at ordered
  exact le_last ordered.1 ends mem

theorem boundary_le (boundary : h.exactFrom = some first) (mem : entry ∈ h.entries) :
    first ≤ entry.1 := by
  rw [folds.exactFrom, Option.map_eq_some_iff] at boundary
  rcases boundary with ⟨last, ends, rfl⟩
  have ordered := folds.ordered
  rw [folds.entries, List.pairwise_append] at ordered
  exact ordered.2.2 last (List.mem_of_getLast? ends) entry mem

theorem boundary (mem : entry ∈ dropped) : ∃ first, h.exactFrom = some first := by
  rw [folds.exactFrom]
  cases ends : dropped.getLast? with
  | none =>
    rw [List.getLast?_eq_none_iff.mp ends] at mem
    cases mem
  | some last => exact ⟨last.1, rfl⟩

/-! ## The proof -/

theorem countAt (past : ∀ first ∈ h.exactFrom, first ≤ floor) :
    h.countAt floor = shownAt whole floor := by
  simp only [CountHistory.countAt, shownAt, folds.entries, List.reverse_append, List.find?_append]
  cases h.entries.reverse.find? fun entry => decide (entry.1 ≤ floor) with
  | some entry => rfl
  | none =>
    rcases List.eq_nil_or_concat dropped with none | ⟨init, last, ends⟩
    · simp only [folds.baseline, none, List.getLast?_nil, Option.map_none, Option.getD_none,
        List.reverse_nil, List.find?_nil, Option.none_or]
    · have boundary := folds.exactFrom
      have baseline := folds.baseline
      rw [ends, List.concat_eq_append, List.getLast?_concat] at boundary baseline
      have reached : last.1 ≤ floor := past last.1 boundary
      simp only [ends, List.concat_eq_append, List.reverse_append, List.reverse_cons,
        List.reverse_nil, List.nil_append, List.singleton_append, reached, decide_true,
        List.find?_cons_of_pos]
      exact baseline

omit folds in
theorem proves_iff_parts : h.proves floor exit = true ↔ floor ≤ exit ∧
    (∀ first ∈ h.exactFrom, first < floor ∨ floor = first ∧ h.zeroAtBoundary = false) ∧
    1 ≤ h.countAt floor ∧
    ∀ entry ∈ h.entries, entry.2 = 0 → ¬(floor ≤ entry.1 ∧ entry.1 ≤ exit) := by
  simp only [proves, Bool.and_eq_true, decide_eq_true_eq, Option.all_eq_true, Bool.or_eq_true,
    Bool.not_eq_true', List.any_eq_false, not_and, and_assoc, Option.mem_def]

theorem proven (proves : h.proves floor exit) : Proven whole floor exit := by
  rcases proves_iff_parts.mp proves with ⟨_, past, counted, unbroken⟩
  refine ⟨?_, ?_⟩
  · rw [← folds.countAt]
    · exact counted
    · intro first boundary
      rcases past first boundary with before | ⟨same, _⟩
      · exact Nat.le_of_lt before
      · exact Nat.le_of_eq same.symm
  · intro entry mem zero meets
    rw [folds.entries] at mem
    rcases List.mem_append.mp mem with gone | kept
    · -- A dropped zero from the floor on is stamped at the boundary, and the flag tells of it.
      rcases folds.boundary gone with ⟨first, boundary⟩
      have within := folds.le_boundary boundary gone
      rcases past first boundary with before | ⟨same, unflagged⟩
      · exact absurd (Nat.le_trans meets.1 within) (Nat.not_le.mpr before)
      · have here : entry.1 = first := Nat.le_antisymm within (same ▸ meets.1)
        rw [folds.zero entry gone zero (here ▸ boundary)] at unflagged
        exact Bool.false_ne_true unflagged.symm
    · exact unbroken entry kept zero meets

theorem proves_iff (past : ∀ first ∈ h.exactFrom, first < floor) :
    h.proves floor exit = true ↔ floor ≤ exit ∧ Proven whole floor exit := by
  constructor
  · intro proves
    exact ⟨(proves_iff_parts.mp proves).1, folds.proven proves⟩
  · rintro ⟨order, shown⟩
    refine proves_iff_parts.mpr ⟨order, fun first is => .inl (past first is), ?_, ?_⟩
    · rw [folds.countAt fun first is => Nat.le_of_lt (past first is)]
      exact shown.counted
    · intro entry mem
      apply shown.unbroken
      rw [folds.entries]
      exact List.mem_append_right dropped mem

/-! ## The steps -/

theorem dropFront : ∃ dropped, Folds h.dropFront whole dropped := by
  rcases is : h.entries with _ | ⟨⟨stamp, count⟩, rest⟩
  · rw [CountHistory.dropFront, is]
    exact ⟨dropped, folds⟩
  · rw [dropFront_cons is]
    refine ⟨dropped ++ [(stamp, count)], ?_, folds.ordered, folds.latest, ?_, ?_, ?_⟩
    · rw [folds.entries, is, List.append_assoc, List.singleton_append]
    · rw [List.getLast?_concat]
      rfl
    · rw [List.getLast?_concat]
      rfl
    · intro entry mem zero same
      rw [Option.some.injEq] at same
      rcases List.mem_append.mp mem with gone | last
      · -- An earlier zero at this stamp was at the boundary already.
        rcases folds.boundary gone with ⟨first, boundary⟩
        have before := folds.boundary_le boundary (is ▸ List.mem_cons_self)
        have within := folds.le_boundary boundary gone
        have here : first = stamp := Nat.le_antisymm before (same ▸ within)
        rw [here] at boundary
        simp only [folds.zero entry gone zero (same ▸ boundary), boundary, decide_true,
          Bool.and_self, Bool.or_true]
      · rw [List.mem_singleton.mp last] at zero
        have zeroed : count = 0 := zero
        simp only [zeroed, decide_true, Bool.true_or]

theorem append (stamp : Instant) (count : ℕ) :
    Folds { h with
        latest := some (clamped whole stamp)
        entries := h.entries ++ [(clamped whole stamp, count)] }
      (whole ++ [(clamped whole stamp, count)]) dropped := by
  refine ⟨?_, ?_, ?_, folds.baseline, folds.exactFrom, folds.zero⟩
  · rw [folds.entries, List.append_assoc]
  · refine List.pairwise_append.mpr ⟨folds.ordered, List.pairwise_singleton _ _, ?_⟩
    intro entry mem next same
    rw [List.mem_singleton.mp same]
    cases ends : whole.getLast? with
    | none =>
      rw [List.getLast?_eq_none_iff.mp ends] at mem
      cases mem
    | some last =>
      simp only [clamped, ends]
      exact Nat.le_trans (le_last folds.ordered ends mem) (Nat.le_max_left last.1 stamp)
  · rw [List.getLast?_concat]
    rfl

theorem set_eq (stamp : Instant) (count : ℕ) :
    h.set stamp count =
      { (if historyCap ≤ h.entries.length then h.dropFront else h) with
        latest := some (clamped whole stamp)
        entries := (if historyCap ≤ h.entries.length then h.dropFront else h).entries ++
          [(clamped whole stamp, count)] } := by
  have latest := folds.latest
  have drops : ∀ next : Option Instant,
      { h with latest := next }.dropFront = { h.dropFront with latest := next } := by
    intro next
    simp only [CountHistory.dropFront]
    split <;> rfl
  cases ends : whole.getLast? with
  | none =>
    rw [ends, Option.map_none] at latest
    simp only [CountHistory.set, latest, clamped, ends]
    split
    · rw [drops]
    · rfl
  | some last =>
    rw [ends, Option.map_some] at latest
    simp only [CountHistory.set, latest, clamped, ends]
    split
    · rw [drops]
    · rfl

theorem set (stamp : Instant) (count : ℕ) :
    ∃ dropped, Folds (h.set stamp count) (whole ++ [(clamped whole stamp, count)]) dropped := by
  rw [folds.set_eq]
  split
  · rcases folds.dropFront with ⟨dropped, later⟩
    exact ⟨dropped, later.append stamp count⟩
  · exact ⟨dropped, folds.append stamp count⟩

omit folds in
theorem dropFronts (fewer : ℕ) (folds : Folds h whole dropped) :
    ∃ dropped, Folds (CountHistory.dropFront^[fewer] h) whole dropped := by
  induction fewer generalizing h dropped with
  | zero => exact ⟨dropped, folds⟩
  | succ fewer ih =>
    rcases folds.dropFront with ⟨_, later⟩
    exact ih later

theorem compact (keepFrom : Option Instant) :
    ∃ dropped, Folds (h.compact keepFrom) whole dropped := by
  cases keepFrom with
  | none => exact folds.dropFronts _
  | some first => exact folds.dropFronts _

end Folds

theorem boundary_compact {h : CountHistory} {keepFrom boundary : Instant}
    (ordered : h.entries.Pairwise fun before after => before.1 ≤ after.1)
    (is : boundary ∈ (h.compact (some keepFrom)).exactFrom) :
    boundary ∈ h.exactFrom ∨ boundary < keepFrom := by
  simp only [compact] at is
  generalize listed : h.entries = entries at is ordered
  induction entries generalizing h with
  | nil => exact .inl is
  | cons entry rest ih =>
    cases rest with
    | nil => exact .inl is
    | cons next rest =>
      rw [passed] at is
      split at is
      · rename_i before
        have dropped : h.dropFront.entries = next :: rest := by
          rw [dropFront_cons listed]
        rcases ih dropped is ordered.of_cons with same | earlier
        · rw [dropFront_cons listed, Option.mem_def, Option.some.injEq] at same
          rw [← same]
          have below := List.rel_of_pairwise_cons ordered List.mem_cons_self
          exact .inr (Nat.lt_of_le_of_lt below before)
        · exact .inr earlier
      · exact .inl is

end CountHistory

end AgentDeck.Probe
