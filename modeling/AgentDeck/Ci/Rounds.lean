import Mathlib.Algebra.Order.Ring.Nat
import Mathlib.Data.List.TakeWhile

/-!
# Recorded rounds

`RecordedRounds` of `src/telemetry/tracker.rs`: the revision intervals of the stretches recorded for
one pull request, the newest of them kept and the older ones counted as covered below a floor.
Against the list of all intervals recorded, it forgets none that a covered round could miss.
-/

namespace AgentDeck.Ci

def maxRecordedRounds : ℕ := 16

structure RecordedRounds where
  rounds : List (ℕ × ℕ)
  floor : ℕ
  deriving DecidableEq

namespace RecordedRounds

def empty : RecordedRounds := ⟨[], 0⟩

/-- The place of a round among those kept: after every one that ended no later. -/
def before (start finish : ℕ) (round : ℕ × ℕ) : Bool :=
  decide (round.2 < finish) || (decide (round.2 = finish) && decide (round.1 ≤ start))

/-- The kept rounds with one more among them. -/
def insertRound (rounds : List (ℕ × ℕ)) (start finish : ℕ) : List (ℕ × ℕ) :=
  rounds.takeWhile (before start finish) ++
    (start, finish) :: rounds.dropWhile (before start finish)

/-- Past the limit the oldest is forgotten, and covered by the floor. -/
def trimmed (rounds : List (ℕ × ℕ)) (floor : ℕ) : RecordedRounds :=
  if maxRecordedRounds < rounds.length then
    match rounds with
    | [] => ⟨rounds, floor⟩
    | oldest :: rest => ⟨rest, max floor oldest.2⟩
  else ⟨rounds, floor⟩

def record (recorded : RecordedRounds) (start finish : ℕ) : RecordedRounds :=
  -- Below the floor it is covered already.
  if finish ≤ recorded.floor then recorded
  else trimmed (insertRound recorded.rounds start finish) recorded.floor

/-- A round seen from `start` to `finish` overlaps one already recorded. -/
def covers (recorded : RecordedRounds) (start finish : ℕ) : Bool :=
  decide (start ≤ recorded.floor) ||
    recorded.rounds.any fun round => decide (round.1 ≤ finish) && decide (start ≤ round.2)

end RecordedRounds

/-! ## Against all intervals -/

/-- The intervals share no revision. -/
def Apart (left right : ℕ × ℕ) : Prop := left.2 < right.1 ∨ right.2 < left.1

instance (left right : ℕ × ℕ) : Decidable (Apart left right) :=
  inferInstanceAs (Decidable (_ ∨ _))

structure StandsFor (recorded : RecordedRounds) (all : List (ℕ × ℕ)) : Prop where
  ordered : ∀ round ∈ all, round.1 ≤ round.2
  apart : all.Pairwise Apart
  kept : ∀ round ∈ all, round ∈ recorded.rounds ∨ round.2 ≤ recorded.floor
  known : ∀ round ∈ recorded.rounds, round ∈ all
  sorted : recorded.rounds.Pairwise fun left right => left.2 < right.2
  above : ∀ round ∈ recorded.rounds, recorded.floor < round.2
  floored : recorded.floor = 0 ∨ ∃ round ∈ all, round.2 = recorded.floor

theorem standsFor_empty : StandsFor .empty [] :=
  ⟨by simp, List.Pairwise.nil, by simp, by simp [RecordedRounds.empty], List.Pairwise.nil,
    by simp [RecordedRounds.empty], .inl rfl⟩

open RecordedRounds in
theorem mem_insertRound {rounds : List (ℕ × ℕ)} {start finish : ℕ} {round : ℕ × ℕ} :
    round ∈ insertRound rounds start finish ↔ round ∈ rounds ∨ round = (start, finish) := by
  have whole : rounds.takeWhile (before start finish) ++ rounds.dropWhile (before start finish) =
      rounds := List.takeWhile_append_dropWhile
  unfold insertRound
  generalize rounds.takeWhile (before start finish) = front at *
  generalize rounds.dropWhile (before start finish) = back at *
  rw [← whole, List.mem_append, List.mem_cons, List.mem_append]
  constructor
  · rintro (inFront | same | inBack)
    · exact .inl (.inl inFront)
    · exact .inr same
    · exact .inl (.inr inBack)
  · rintro ((inFront | inBack) | same)
    · exact .inl inFront
    · exact .inr (.inr inBack)
    · exact .inr (.inl same)

open RecordedRounds in
theorem sorted_insertRound {rounds : List (ℕ × ℕ)} {start finish : ℕ}
    (sorted : rounds.Pairwise fun left right => left.2 < right.2)
    (differ : ∀ round ∈ rounds, round.2 ≠ finish) :
    (insertRound rounds start finish).Pairwise fun left right => left.2 < right.2 := by
  have earlier : ∀ round ∈ rounds.takeWhile (before start finish), round.2 < finish := by
    intro round mem
    have holds := List.mem_takeWhile_imp mem
    simp only [before, Bool.or_eq_true, Bool.and_eq_true, decide_eq_true_eq] at holds
    rcases holds with less | ⟨same, _⟩
    · exact less
    · exact absurd same (differ round (List.takeWhile_subset _ mem))
  have later : ∀ round ∈ rounds.dropWhile (before start finish), finish < round.2 := by
    intro round mem
    -- The first one left is not before it, and the others come after that one.
    cases shape : rounds.dropWhile (before start finish) with
    | nil =>
      rw [shape] at mem
      cases mem
    | cons head rest =>
      have notBefore := List.head?_dropWhile_not (before start finish) rounds
      rw [shape] at notBefore
      simp only [before, Bool.or_eq_false_iff, decide_eq_false_iff_not] at notBefore
      have headKept : head ∈ rounds := by
        refine List.dropWhile_subset (before start finish) ?_
        rw [shape]
        exact List.mem_cons_self
      have headLater : finish < head.2 :=
        lt_of_le_of_ne (not_lt.mp notBefore.1) (Ne.symm (differ head headKept))
      have backSorted := sorted.sublist (List.dropWhile_sublist (before start finish))
      rw [shape, List.pairwise_cons] at backSorted
      rw [shape] at mem
      rcases List.mem_cons.mp mem with rfl | inRest
      · exact headLater
      · exact headLater.trans (backSorted.1 round inRest)
  have whole : rounds.takeWhile (before start finish) ++ rounds.dropWhile (before start finish) =
      rounds := List.takeWhile_append_dropWhile
  rw [← whole, List.pairwise_append] at sorted
  unfold insertRound
  rw [List.pairwise_append, List.pairwise_cons]
  refine ⟨sorted.1, ⟨later, sorted.2.1⟩, ?_⟩
  intro left leftMem right rightMem
  rcases List.mem_cons.mp rightMem with rfl | inBack
  · exact earlier left leftMem
  · exact sorted.2.2 left leftMem right inBack

theorem RecordedRounds.covers_record (recorded : RecordedRounds) {start finish : ℕ}
    (order : start ≤ finish) : (recorded.record start finish).covers start finish := by
  have covered : ∀ (rounds : List (ℕ × ℕ)) (floor : ℕ), (start, finish) ∈ rounds →
      (trimmed rounds floor).covers start finish = true := by
    intro rounds floor mem
    unfold trimmed
    split
    · cases rounds with
      | nil => cases mem
      | cons oldest rest =>
        simp only [covers, Bool.or_eq_true, decide_eq_true_eq, List.any_eq_true,
          Bool.and_eq_true]
        rcases List.mem_cons.mp mem with rfl | inRest
        · exact .inl (le_max_of_le_right order)
        · exact .inr ⟨(start, finish), inRest, order, order⟩
    · simp only [covers, Bool.or_eq_true, decide_eq_true_eq, List.any_eq_true, Bool.and_eq_true]
      exact .inr ⟨(start, finish), mem, order, order⟩
  unfold record
  split
  · rename_i low
    simp only [covers, Bool.or_eq_true, decide_eq_true_eq]
    exact .inl (order.trans low)
  · exact covered _ _ (mem_insertRound.mpr (.inr rfl))

namespace StandsFor

variable {recorded : RecordedRounds} {all : List (ℕ × ℕ)}

theorem trimmed {rounds : List (ℕ × ℕ)} {floor : ℕ} (stands : StandsFor ⟨rounds, floor⟩ all) :
    StandsFor (RecordedRounds.trimmed rounds floor) all := by
  unfold RecordedRounds.trimmed
  split
  · cases rounds with
    | nil => exact stands
    | cons oldest rest =>
      have oldestAbove : floor < oldest.2 := stands.above oldest List.mem_cons_self
      have sorted := List.pairwise_cons.mp stands.sorted
      refine ⟨stands.ordered, stands.apart, ?_, ?_, sorted.2, ?_, .inr ⟨oldest, ?_, ?_⟩⟩
      · intro round mem
        rcases stands.kept round mem with here | low
        · rcases List.mem_cons.mp here with rfl | inRest
          · exact .inr (le_max_right _ _)
          · exact .inl inRest
        · exact .inr (le_trans low (le_max_left _ _))
      · intro round mem
        exact stands.known round (List.mem_cons_of_mem _ mem)
      · intro round mem
        exact max_lt (oldestAbove.trans (sorted.1 round mem)) (sorted.1 round mem)
      · exact stands.known oldest List.mem_cons_self
      · exact (max_eq_right (le_of_lt oldestAbove)).symm
  · exact stands

variable (stands : StandsFor recorded all)

include stands

theorem apart_of_not_covers {start finish : ℕ} (free : recorded.covers start finish = false) :
    recorded.floor < start ∧ ∀ round ∈ all, Apart round (start, finish) := by
  simp only [RecordedRounds.covers, Bool.or_eq_false_iff, decide_eq_false_iff_not,
    List.any_eq_false, Bool.and_eq_true, decide_eq_true_eq] at free
  refine ⟨by omega, ?_⟩
  intro round mem
  rcases stands.kept round mem with here | low
  · have misses := free.2 round here
    by_cases starts : round.1 ≤ finish
    · exact .inl (by omega)
    · exact .inr (by simpa using starts)
  · exact .inl (by omega)

theorem floor_lt {start : ℕ} (later : ∀ round ∈ all, round.2 < start) :
    recorded.floor < start ∨ recorded.floor = 0 := by
  rcases stands.floored with zero | ⟨round, mem, same⟩
  · exact .inr zero
  · have less := later round mem
    exact .inl (by omega)

theorem record {start finish : ℕ} (order : start ≤ finish)
    (apart : ∀ round ∈ all, Apart round (start, finish)) (above : recorded.floor < finish) :
    StandsFor (recorded.record start finish) (all ++ [(start, finish)]) := by
  have differ : ∀ round ∈ recorded.rounds, round.2 ≠ finish := by
    intro round mem same
    have ordered := stands.ordered round (stands.known round mem)
    rcases apart round (stands.known round mem) with less | less
    · omega
    · omega
  unfold RecordedRounds.record
  rw [if_neg (not_le.mpr above)]
  refine StandsFor.trimmed ⟨?_, ?_, ?_, ?_, sorted_insertRound stands.sorted differ, ?_, ?_⟩
  · intro round mem
    rcases List.mem_append.mp mem with old | new
    · exact stands.ordered round old
    · rw [List.mem_singleton.mp new]
      exact order
  · rw [List.pairwise_append]
    refine ⟨stands.apart, List.pairwise_singleton _ _, ?_⟩
    intro round mem other otherMem
    rw [List.mem_singleton.mp otherMem]
    exact apart round mem
  · intro round mem
    rcases List.mem_append.mp mem with old | new
    · rcases stands.kept round old with here | low
      · exact .inl (mem_insertRound.mpr (.inl here))
      · exact .inr low
    · exact .inl (mem_insertRound.mpr (.inr (List.mem_singleton.mp new)))
  · intro round mem
    rcases mem_insertRound.mp mem with old | same
    · exact List.mem_append_left _ (stands.known round old)
    · rw [same]
      exact List.mem_append_right _ List.mem_cons_self
  · intro round mem
    rcases mem_insertRound.mp mem with old | same
    · exact stands.above round old
    · rw [same]
      exact above
  · rcases stands.floored with zero | ⟨round, mem, same⟩
    · exact .inl zero
    · exact .inr ⟨round, List.mem_append_left _ mem, same⟩

end StandsFor

end AgentDeck.Ci
