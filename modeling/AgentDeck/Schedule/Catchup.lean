import AgentDeck.Lib.Runs
import AgentDeck.Schedule.FireGap
import Mathlib.Data.List.Chain
import Mathlib.Data.List.Nodup
import Mathlib.Tactic.Ring

/-!
# Catching up on seconds

The firing loop evaluates the seconds between two readings of the clock, the last sixty at most.
A reading carries its whole second on to the next wake, and the reading itself where the local time
cannot be rounded. What a wake evaluates lies after the second carried to it, so a second comes
again only where the clock climbs a second time past a reading it was set back from.
-/

namespace AgentDeck.Schedule

def maxCatchupSeconds : ℤ := 60

def catchupSeconds (prev : Option ℤ) (now max : ℤ) : List ℤ :=
  match prev with
  | none => [now]
  | some prev =>
    let gap := (now - prev).tdiv second
    if gap ≤ 0 then []
    else (List.range (min gap max).toNat).reverse.map fun back : ℕ => now - back * second

/-- The state of `Scheduler::run`, and the seconds it has evaluated. -/
structure FiringLoop where
  lastEvaluated : Option ℤ
  evaluated : List ℤ

/-- The second an instant is in. -/
def wholeSecond (now : ℤ) : ℤ := now / second

/-- `DateTime::with_nanosecond(0)` is another crate's: where it answers, the fraction is gone. It
answers nothing for a local time that its time zone has twice. -/
def DropsFraction (withNanosecondZero : ℤ → Option ℤ) : Prop :=
  ∀ now whole, withNanosecondZero now = some whole → whole = wholeSecond now * second

namespace FiringLoop

variable (withNanosecondZero : ℤ → Option ℤ)

def wake (l : FiringLoop) (now : ℤ) : FiringLoop :=
  let thisSecond := (withNanosecondZero now).getD now
  ⟨some thisSecond, l.evaluated ++ catchupSeconds l.lastEvaluated thisSecond maxCatchupSeconds⟩

def run (readings : List ℤ) : FiringLoop := readings.foldl (wake withNanosecondZero) ⟨none, []⟩

end FiringLoop

/-- A reading in a later second than the one before it comes when no earlier reading was later than
that one, or when all of them are out of its reach. -/
def FitsAfter (past : List ℤ) (now : ℤ) : Prop :=
  ∀ last ∈ past.getLast?, wholeSecond last < wholeSecond now →
    ∀ earlier ∈ past,
      wholeSecond earlier ≤ max (wholeSecond last) (wholeSecond now - maxCatchupSeconds)

instance (past : List ℤ) (now : ℤ) : Decidable (FitsAfter past now) :=
  inferInstanceAs (Decidable (∀ last ∈ past.getLast?, wholeSecond last < wholeSecond now →
    ∀ earlier ∈ past,
      wholeSecond earlier ≤ max (wholeSecond last) (wholeSecond now - maxCatchupSeconds)))

def Onward (readings : List ℤ) : Prop :=
  ∀ past now later, readings = past ++ now :: later → FitsAfter past now

/-- The seconds after the first end of the span, up to its other end. -/
def secondsIn (span : ℤ × ℤ) : List ℤ :=
  (List.range (span.2 - span.1).toNat).map fun i : ℕ => (span.1 + 1 + i) * second

/-! ## Seconds -/

theorem second_pos : 0 < second := by decide

theorem mem_secondsIn {span : ℤ × ℤ} {time : ℤ} :
    time ∈ secondsIn span ↔ ∃ s, span.1 < s ∧ s ≤ span.2 ∧ time = s * second := by
  simp only [secondsIn, List.mem_map, List.mem_range]
  constructor
  · rintro ⟨i, inside, rfl⟩
    exact ⟨span.1 + 1 + i, by omega, by omega, rfl⟩
  · rintro ⟨s, after, within, rfl⟩
    refine ⟨(s - span.1 - 1).toNat, by omega, ?_⟩
    rw [Int.toNat_of_nonneg (by omega)]
    ring

theorem secondsIn_append {a b c : ℤ} (first : a ≤ b) (later : b ≤ c) :
    secondsIn (a, b) ++ secondsIn (b, c) = secondsIn (a, c) := by
  have split : (c - a).toNat = (b - a).toNat + (c - b).toNat := by omega
  simp only [secondsIn, split, List.range_add, List.map_append, List.map_map]
  refine congrArg _ (List.map_congr_left ?_)
  intro i _
  simp only [Function.comp_apply, Nat.cast_add, Int.toNat_of_nonneg (sub_nonneg.mpr first)]
  ring

theorem wholeSecond_mul (s : ℤ) : wholeSecond (s * second) = s :=
  Int.mul_ediv_cancel _ (ne_of_gt second_pos)

theorem wholeSecond_back (now : ℤ) (back : ℕ) :
    wholeSecond (now - back * second) = wholeSecond now - back := by
  rw [wholeSecond, sub_eq_add_neg, ← neg_mul, Int.add_mul_ediv_right _ _ (ne_of_gt second_pos)]
  rfl

/-! ## One wake -/

theorem catchupSeconds_eq (previous now : ℤ) :
    catchupSeconds (some (previous * second)) (now * second) maxCatchupSeconds =
      if previous < now then secondsIn (max previous (now - maxCatchupSeconds), now) else [] := by
  have gap : (now * second - previous * second).tdiv second = now - previous := by
    rw [← sub_mul]
    exact Int.mul_tdiv_cancel _ (ne_of_gt second_pos)
  simp only [catchupSeconds, gap]
  by_cases forward : previous < now
  · rw [if_neg (by omega), if_pos forward]
    have count : (now - max previous (now - maxCatchupSeconds)).toNat =
        (min (now - previous) maxCatchupSeconds).toNat := by omega
    apply List.ext_getElem
    · simp only [secondsIn, count, List.length_map, List.length_reverse]
    · intro i inside _
      simp only [List.length_map, List.length_reverse, List.length_range] at inside
      simp only [secondsIn, List.getElem_map, List.getElem_reverse, List.getElem_range,
        List.length_range]
      rw [← sub_mul]
      congr 1
      omega
  · rw [if_pos (by omega), if_neg forward]

theorem mem_catchupSeconds {prev now time : ℤ}
    (mem : time ∈ catchupSeconds (some prev) now maxCatchupSeconds) :
    max (wholeSecond prev) (wholeSecond now - maxCatchupSeconds) < wholeSecond time ∧
      wholeSecond time ≤ wholeSecond now := by
  simp only [catchupSeconds] at mem
  split at mem
  · cases mem
  · rename_i forward
    simp only [List.mem_map, List.mem_reverse, List.mem_range] at mem
    rcases mem with ⟨back, inside, rfl⟩
    have ahead : 0 ≤ now - prev := by
      by_contra behind
      have back : 0 ≤ (-(now - prev)).tdiv second :=
        Int.tdiv_nonneg (by omega) second_pos.le
      rw [Int.neg_tdiv] at back
      omega
    rw [Int.tdiv_eq_ediv_of_nonneg ahead] at inside
    rw [wholeSecond_back]
    simp only [wholeSecond, maxCatchupSeconds, second] at *
    omega

theorem nodup_catchupSeconds (prev : Option ℤ) (now : ℤ) :
    ((catchupSeconds prev now maxCatchupSeconds).map wholeSecond).Nodup := by
  cases prev with
  | none => exact List.nodup_singleton _
  | some prev =>
    simp only [catchupSeconds]
    split
    · exact List.nodup_nil
    · rw [List.map_map]
      refine (List.nodup_reverse.mpr List.nodup_range).map ?_
      intro back other same
      simp only [Function.comp_apply, wholeSecond_back] at same
      omega

section Loop

variable {withNanosecondZero : ℤ → Option ℤ}

theorem DropsFraction.carries (lawful : DropsFraction withNanosecondZero) (now : ℤ) :
    wholeSecond ((withNanosecondZero now).getD now) = wholeSecond now := by
  cases answer : withNanosecondZero now with
  | none => rfl
  | some whole => rw [lawful now whole answer, Option.getD_some, wholeSecond_mul]

theorem DropsFraction.rounds (lawful : DropsFraction withNanosecondZero) {now : ℤ}
    (answers : (withNanosecondZero now).isSome) :
    (withNanosecondZero now).getD now = wholeSecond now * second := by
  rcases Option.isSome_iff_exists.mp answers with ⟨whole, answer⟩
  rw [answer, Option.getD_some, lawful now whole answer]

theorem run_concat (past : List ℤ) (now : ℤ) :
    FiringLoop.run withNanosecondZero (past ++ [now]) =
      (FiringLoop.run withNanosecondZero past).wake withNanosecondZero now :=
  List.foldl_concat _ _ _ _

theorem run_lastEvaluated (readings : List ℤ) :
    (FiringLoop.run withNanosecondZero readings).lastEvaluated =
      readings.getLast?.map fun last => (withNanosecondZero last).getD last := by
  rcases List.eq_nil_or_concat readings with rfl | ⟨past, last, rfl⟩
  · rfl
  · rw [List.concat_eq_append, run_concat, List.getLast?_concat]
    rfl

theorem run_catchup (past : List ℤ) (last now : ℤ) :
    (FiringLoop.run withNanosecondZero (past ++ [last] ++ [now])).evaluated =
      (FiringLoop.run withNanosecondZero (past ++ [last])).evaluated ++
        catchupSeconds (some ((withNanosecondZero last).getD last))
          ((withNanosecondZero now).getD now) maxCatchupSeconds := by
  rw [run_concat, FiringLoop.wake, run_lastEvaluated, List.getLast?_concat, Option.map_some]

theorem prefix_evaluated (past later : List ℤ) :
    (FiringLoop.run withNanosecondZero past).evaluated <+:
      (FiringLoop.run withNanosecondZero (past ++ later)).evaluated := by
  induction later using List.reverseRecOn with
  | nil => exact (List.append_nil past).symm ▸ List.prefix_rfl
  | append_singleton later now ih =>
    rw [← List.append_assoc, run_concat]
    exact ih.trans (List.prefix_append _ _)

/-! ## No second twice -/

/-- What was evaluated lies no later than some reading, each second once. -/
structure Once (past : List ℤ) (evaluated : List ℤ) : Prop where
  reached : ∀ time ∈ evaluated, ∃ earlier ∈ past, wholeSecond time ≤ wholeSecond earlier
  nodup : (evaluated.map wholeSecond).Nodup

variable (lawful : DropsFraction withNanosecondZero)

include lawful

theorem Once.wake {past : List ℤ} {now : ℤ}
    (once : Once past (FiringLoop.run withNanosecondZero past).evaluated)
    (fits : FitsAfter past now) :
    Once (past ++ [now]) (FiringLoop.run withNanosecondZero (past ++ [now])).evaluated := by
  have carried := lawful.carries now
  rcases List.eq_nil_or_concat past with rfl | ⟨before, last, rfl⟩
  · refine ⟨?_, List.nodup_singleton _⟩
    intro time mem
    rw [List.mem_singleton.mp mem]
    exact ⟨now, List.mem_singleton_self now, carried.le⟩
  · rw [List.concat_eq_append] at once fits ⊢
    rw [run_catchup]
    have new : ∀ time ∈ catchupSeconds (some ((withNanosecondZero last).getD last))
        ((withNanosecondZero now).getD now) maxCatchupSeconds,
        max (wholeSecond last) (wholeSecond now - maxCatchupSeconds) < wholeSecond time ∧
          wholeSecond time ≤ wholeSecond now := by
      intro time mem
      have between := mem_catchupSeconds mem
      rwa [lawful.carries last, carried] at between
    constructor
    · intro time mem
      rcases List.mem_append.mp mem with mem | mem
      · rcases once.reached time mem with ⟨earlier, inside, later⟩
        exact ⟨earlier, List.mem_append_left _ inside, later⟩
      · exact ⟨now, List.mem_append_right _ (List.mem_singleton_self now), (new time mem).2⟩
    · rw [List.map_append]
      refine once.nodup.append (nodup_catchupSeconds _ _) ?_
      -- What is new lies after all earlier readings, and what was evaluated does not.
      intro s old fresh
      rcases List.mem_map.mp old with ⟨time, mem, rfl⟩
      rcases List.mem_map.mp fresh with ⟨other, inside, same⟩
      rcases once.reached time mem with ⟨earlier, read, before⟩
      have after := new other inside
      have early := fits last List.getLast?_concat (by omega) earlier read
      omega

omit lawful in
theorem Onward.left {past later : List ℤ} (onward : Onward (past ++ later)) : Onward past := by
  intro before now after split
  exact onward before now (after ++ later) (by rw [split, List.append_assoc, List.cons_append])

theorem Onward.once {readings : List ℤ} (onward : Onward readings) :
    Once readings (FiringLoop.run withNanosecondZero readings).evaluated := by
  induction readings using List.reverseRecOn with
  | nil => exact ⟨fun _ mem => absurd mem List.not_mem_nil, List.nodup_nil⟩
  | append_singleton past now ih => exact (ih onward.left).wake lawful (onward past now [] rfl)

/-! ## Every second in order -/

theorem steady_after {last : ℤ} {readings : List ℤ}
    (steady : (last :: readings).IsChain fun a b => a ≤ b ∧ b - a ≤ maxCatchupSeconds * second)
    (answers : ∀ now ∈ readings, (withNanosecondZero now).isSome) (evaluated : List ℤ) :
    (readings.foldl (FiringLoop.wake withNanosecondZero)
        ⟨some (wholeSecond last * second), evaluated⟩).evaluated =
        evaluated ++ secondsIn (wholeSecond last, wholeSecond (readings.getLastD last)) ∧
      wholeSecond last ≤ wholeSecond (readings.getLastD last) := by
  induction readings generalizing last evaluated with
  | nil =>
    refine ⟨?_, le_refl _⟩
    simp only [List.foldl_nil, List.getLastD_nil, secondsIn, sub_self, Int.toNat_zero,
      List.range_zero, List.map_nil, List.append_nil]
  | cons now readings ih =>
    rcases List.isChain_cons_cons.mp steady with ⟨⟨forward, soon⟩, rest⟩
    have step : wholeSecond last ≤ wholeSecond now ∧
        wholeSecond now - maxCatchupSeconds ≤ wholeSecond last := by
      simp only [wholeSecond, maxCatchupSeconds, second] at forward soon ⊢
      omega
    have caught : catchupSeconds (some (wholeSecond last * second)) (wholeSecond now * second)
        maxCatchupSeconds = secondsIn (wholeSecond last, wholeSecond now) := by
      rw [catchupSeconds_eq, max_eq_left step.2]
      split
      · rfl
      · have same := le_antisymm step.1 (by omega)
        simp only [same, secondsIn, sub_self, Int.toNat_zero, List.range_zero, List.map_nil]
    rcases ih rest (fun later mem => answers later (List.mem_cons_of_mem _ mem))
      (evaluated ++ secondsIn (wholeSecond last, wholeSecond now)) with ⟨covers, onward⟩
    rw [List.getLastD_cons]
    refine ⟨?_, le_trans step.1 onward⟩
    rw [List.foldl_cons, FiringLoop.wake, lawful.rounds (answers now List.mem_cons_self), caught,
      covers, List.append_assoc, secondsIn_append step.1 onward]

/-! ## A second time -/

theorem run_catchup_seconds {past : List ℤ} {last now : ℤ}
    (answers : ∀ reading ∈ past ++ [last] ++ [now], (withNanosecondZero reading).isSome = true) :
    (FiringLoop.run withNanosecondZero (past ++ [last] ++ [now])).evaluated =
      (FiringLoop.run withNanosecondZero (past ++ [last])).evaluated ++
        if wholeSecond last < wholeSecond now then
          secondsIn (max (wholeSecond last) (wholeSecond now - maxCatchupSeconds), wholeSecond now)
        else [] := by
  rw [run_catchup, lawful.rounds (answers last (by simp)), lawful.rounds (answers now (by simp)),
    catchupSeconds_eq]

/-- Readings that climb by sixty seconds at most evaluate all that lies above the first. -/
theorem covered {first : ℤ} {rest : List ℤ}
    (answers : ∀ now ∈ first :: rest, (withNanosecondZero now).isSome)
    (near : (first :: rest).IsChain fun a b => wholeSecond b - wholeSecond a ≤ maxCatchupSeconds) :
    ∀ earlier ∈ first :: rest, ∀ s, wholeSecond first ≤ s → s ≤ wholeSecond earlier →
      s * second ∈ (FiringLoop.run withNanosecondZero (first :: rest)).evaluated := by
  induction rest using List.reverseRecOn with
  | nil =>
    intro earlier mem s after before
    rw [List.mem_singleton.mp mem] at before
    rw [le_antisymm before after, ← lawful.rounds (answers first List.mem_cons_self)]
    exact List.mem_singleton_self _
  | append_singleton past now ih =>
    rw [← List.cons_append] at answers near ⊢
    have before := ih (fun reading mem => answers reading (List.mem_append_left _ mem))
      (List.isChain_append.mp near).1
    intro earlier mem s after reached
    by_cases old : ∃ reading ∈ first :: past, s ≤ wholeSecond reading
    · rcases old with ⟨reading, inside, higher⟩
      exact (prefix_evaluated _ _).subset (before reading inside s after higher)
    · -- The last reading is the first to come so far.
      push Not at old
      rcases List.mem_append.mp mem with mem | mem
      · exact absurd reached (not_le.mpr (old earlier mem))
      rw [List.mem_singleton.mp mem] at reached
      rcases List.eq_nil_or_concat (first :: past) with none | ⟨start, last, split⟩
      · cases none
      rw [List.concat_eq_append] at split
      have below := old last (split ▸ List.mem_append_right _ (List.mem_singleton_self last))
      have climb := (List.isChain_append.mp near).2.2 last
        (by rw [split, List.getLast?_concat]; rfl) now rfl
      rw [split] at answers ⊢
      rw [run_catchup_seconds lawful answers, if_pos (by omega)]
      exact List.mem_append_right _ (mem_secondsIn.mpr ⟨s, by omega, reached, rfl⟩)

theorem onward_of_nodup {first : ℤ} {rest : List ℤ}
    (answers : ∀ now ∈ first :: rest, (withNanosecondZero now).isSome)
    (within : ∀ now ∈ rest, wholeSecond first ≤ wholeSecond now)
    (near : (first :: rest).IsChain fun a b => wholeSecond b - wholeSecond a ≤ maxCatchupSeconds)
    (nodup : ((FiringLoop.run withNanosecondZero (first :: rest)).evaluated.map
      wholeSecond).Nodup) : Onward (first :: rest) := by
  intro past now later split last isLast forward earlier mem
  by_contra again
  rw [not_le, max_lt_iff] at again
  have whole : first :: rest = past ++ [now] ++ later := by
    rw [split, List.append_assoc, List.singleton_append]
  rcases past with _ | ⟨head, past⟩
  · cases mem
  obtain rfl : first = head := (List.cons.inj split).1
  rw [whole] at answers near nodup
  have answers := fun reading inside => answers reading (List.mem_append_left later inside)
  have lowest : ∀ reading ∈ first :: past, wholeSecond first ≤ wholeSecond reading := by
    intro reading inside
    rcases List.mem_cons.mp inside with rfl | inside
    · exact le_refl _
    · rw [(List.cons.inj split).2] at within
      exact within reading (List.mem_append_left _ inside)
  -- The second in which the clock meets itself is evaluated here and was before.
  have above := lowest last (List.mem_of_getLast? isLast)
  have before := covered lawful
    (fun reading inside => answers reading (List.mem_append_left _ inside))
    (List.isChain_append.mp (List.isChain_append.mp near).1).1 earlier mem
    (min (wholeSecond earlier) (wholeSecond now)) (by omega) (min_le_left _ _)
  have once := (nodup.sublist ((prefix_evaluated _ later).sublist.map wholeSecond)).of_map
  rcases List.getLast?_eq_some_iff.mp isLast with ⟨start, shape⟩
  rw [shape] at answers before once
  rw [run_catchup_seconds lawful answers, if_pos forward] at once
  refine List.disjoint_of_nodup_append once before
    (mem_secondsIn.mpr ⟨_, ?_, min_le_right _ _, rfl⟩)
  simp only [maxCatchupSeconds] at again ⊢
  omega

end Loop

/-- Whichever answers the rounding gives, no second is evaluated twice while every climb of the
clock starts at its latest reading or ends sixty seconds past it. Where the rounding always answers,
steady readings evaluate every second in order, and the condition is exact for a clock that climbs
by at most sixty seconds and is not set back beyond its first reading. -/
theorem seconds_evaluated_once {withNanosecondZero : ℤ → Option ℤ}
    (lawful : DropsFraction withNanosecondZero) (readings : List ℤ) :
    (Onward readings →
      ((FiringLoop.run withNanosecondZero readings).evaluated.map wholeSecond).Nodup) ∧
    ((∀ now ∈ readings, (withNanosecondZero now).isSome = true) →
      ∀ first rest, readings = first :: rest →
        (readings.IsChain (fun a b => a ≤ b ∧ b - a ≤ maxCatchupSeconds * second) →
          (FiringLoop.run withNanosecondZero readings).evaluated =
            secondsIn (wholeSecond first - 1, wholeSecond (rest.getLastD first))) ∧
        ((∀ now ∈ rest, wholeSecond first ≤ wholeSecond now) →
          readings.IsChain (fun a b => wholeSecond b - wholeSecond a ≤ maxCatchupSeconds) →
            ((FiringLoop.run withNanosecondZero readings).evaluated.map wholeSecond).Nodup →
              Onward readings)) := by
  refine ⟨fun onward => (onward.once lawful).nodup, ?_⟩
  rintro answers first rest rfl
  refine ⟨?_, onward_of_nodup lawful answers⟩
  intro steady
  rcases steady_after lawful steady (fun now mem => answers now (List.mem_cons_of_mem _ mem))
    (secondsIn (wholeSecond first - 1, wholeSecond first)) with ⟨covers, onward⟩
  rw [secondsIn_append (sub_one_lt _).le onward] at covers
  rw [← covers, FiringLoop.run, List.foldl_cons, FiringLoop.wake,
    lawful.rounds (answers first List.mem_cons_self)]
  simp [catchupSeconds, secondsIn]

/-- `with_nanosecond(0)` where every local time is there once. -/
def atNanosecondZero (now : ℤ) : Option ℤ := some (now / second * second)

/-- The clock is set back by half a second, and then jumps ahead of all it has read. -/
def setBackAndAhead : List ℤ := [100000000000, 99500000000, 160250000000]

/-- Three wakes, half a second apart. -/
def halfSeconds : List ℤ := [100200000000, 100700000000, 101200000000]

theorem seconds_evaluated_once_setBack : DropsFraction atNanosecondZero ∧ Onward setBackAndAhead ∧
    ((FiringLoop.run atNanosecondZero setBackAndAhead).evaluated.map wholeSecond).Nodup ∧
      (FiringLoop.run atNanosecondZero halfSeconds).evaluated = secondsIn (99, 101) := by
  have lawful : DropsFraction atNanosecondZero := fun _ _ answer => (Option.some.inj answer).symm
  have onward : Onward setBackAndAhead := fun past now later split => of_decide_eq_true
    (Runs.checked_after (fun past now => decide (FitsAfter past now)) (by decide) split)
  refine ⟨lawful, onward, (seconds_evaluated_once lawful setBackAndAhead).1 onward, ?_⟩
  exact ((seconds_evaluated_once lawful halfSeconds).2 (by decide) _ _ rfl).1 (by decide)

/-- The clock reads the hundredth second, the ninetieth and the hundredth again; and steady readings
in an hour that comes twice, whose local time is not rounded. -/
theorem second_evaluated_again :
    ¬ ((FiringLoop.run atNanosecondZero [100000000000, 90000000000, 100000000000]).evaluated.map
        wholeSecond).Nodup ∧
      (FiringLoop.run (fun _ => none) [100000000000, 100500000000, 101000000000]).evaluated =
        [100000000000] ∧ DropsFraction fun _ => none := by
  refine ⟨by decide, by decide, ?_⟩
  intro now whole answer
  cases answer

end AgentDeck.Schedule
