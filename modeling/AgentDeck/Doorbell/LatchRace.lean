import AgentDeck.Doorbell.Latch

/-!
# Calls that race on one latch

Any number of calls take their loads, compare-and-swaps and stores one at a time, in any order; a
weak compare-and-swap may fail for no reason. The key of the stored word only grows, so a state that
has been passed never comes back. A call that runs alone does what the state-level operation of the
same name says, which is what the transaction's model uses.
-/

namespace AgentDeck.Doorbell

inductive LatchOp
  | admitAttempt (attempt : UInt32)
  | notTyped (attempt : UInt32)
  | suspend (attempt : UInt32) (cause : Cause)
  | exactEvidence (attempt : UInt32)
  | resolve (attempt : UInt32) (how : Resolution)
  | userCleared
  | retire
  deriving DecidableEq

inductive Task
  /-- The first load of an `advance` loop; `next` is the loop to run if this one refuses. -/
  | load (transition : Transition) (next : Option Transition)
  /-- The test of the word last seen, then the compare-and-swap. -/
  | swap (transition : Transition) (next : Option Transition) (current : UInt64)
  /-- The first load of `user_cleared`. -/
  | inspect
  /-- The second load of `user_cleared`, for its error. -/
  | refuse
  | store
  | returned (answer : Option (Except Latch Latch))
  /-- A word that does not decode: the source's `expect` panics. -/
  | panicked

def LatchOp.task : LatchOp → Task
  | admitAttempt attempt => .load (.opens attempt) none
  | notTyped attempt => .load (.notTyped attempt) none
  | suspend attempt cause => .load (.suspends attempt cause) none
  | exactEvidence attempt => .load (.submits attempt) (some (.lateExact attempt))
  | resolve attempt how => .load (.resolves attempt how) none
  | userCleared => .inspect
  | retire => .store

/-- The state-level operation, and what it answers. -/
def LatchOp.perform (latch : Latch) : LatchOp → Option (Except Latch Latch) × Latch
  | admitAttempt attempt => ((latch.admitAttempt attempt).1, (latch.admitAttempt attempt).2)
  | notTyped attempt => ((latch.notTyped attempt).1, (latch.notTyped attempt).2)
  | suspend attempt cause => ((latch.suspend attempt cause).1, (latch.suspend attempt cause).2)
  | exactEvidence attempt => ((latch.exactEvidence attempt).1, (latch.exactEvidence attempt).2)
  | resolve attempt how => ((latch.resolve attempt how).1, (latch.resolve attempt how).2)
  | userCleared => (latch.userCleared.1, latch.userCleared.2)
  | retire => (none, latch.retire)

/-- A loop whose test refused: the next loop, or the call's error. -/
def Task.refused (state : Latch) : Option Transition → Task
  | some transition => .load transition none
  | none => .returned (some (.error state))

/-- One step of a call on the stored word: what it does next, and what it writes. -/
def Task.step (word : UInt64) (spurious : Bool) : Task → Task × Option UInt64
  | .load transition next => (.swap transition next word, none)
  | .swap transition next current =>
    match Latch.decode current with
    | none => (.panicked, none)
    | some state =>
      if Latch.refuses current state transition then (Task.refused state next, none)
      else if word = current ∧ spurious = false then
        (.returned (some (.ok state)), some transition.target.word)
      else (.swap transition next word, none)
  | .inspect =>
    match Latch.decode word with
    | none => (.panicked, none)
    | some (.suspended attempt _) => (.load (.clears attempt) none, none)
    | some _ => (.refuse, none)
  | .refuse =>
    match Latch.decode word with
    | none => (.panicked, none)
    | some state => (.returned (some (.error state)), none)
  | .store => (.returned none, some retiredWord)
  | .returned answer => (.returned answer, none)
  | .panicked => (.panicked, none)

/-- Whether the next step loads the stored word for the first time in its loop. -/
def Task.loads : Task → Bool
  | .load _ _ | .inspect => true
  | _ => false

structure Call where
  op : LatchOp
  seen : Option UInt64
  task : Task

/-- The stored word, the calls made so far, and every write with the word it replaced. -/
structure Race where
  word : UInt64
  calls : List Call
  writes : List (UInt64 × UInt64)

inductive Turn
  | call (op : LatchOp)
  | step (index : ℕ) (spurious : Bool)

namespace Race

def start : Race := ⟨(Latch.resolved 0 .notTyped).word, [], []⟩

def advance (race : Race) (index : ℕ) (spurious : Bool) (call : Call) : Race :=
  let after := call.task.step race.word spurious
  { word := after.2.getD race.word
    calls := race.calls.set index
      { call with
        seen := if call.task.loads then some (call.seen.getD race.word) else call.seen
        task := after.1 }
    writes := race.writes ++ (after.2.map fun new => (race.word, new)).toList }

def step (race : Race) : Turn → Race
  | .call op => { race with calls := race.calls ++ [⟨op, none, op.task⟩] }
  | .step index spurious =>
    match race.calls[index]? with
    | none => race
    | some call => race.advance index spurious call

def run (race : Race) (turns : List Turn) : Race := turns.foldl step race

/-! ## The stored word only rises -/

/-- The words a loop may be about to write: those of states, and never below what is stored. -/
def Stored (word : UInt64) : Prop := ∃ latch : Latch, word = latch.word

theorem Stored.decode {word : UInt64} (stored : Stored word) :
    ∃ latch, Latch.decode word = some latch ∧
    word = latch.word := by
  rcases stored with ⟨latch, rfl⟩
  exact ⟨latch, Latch.decode_word latch, rfl⟩

theorem Stored.key_lt {word : UInt64} (stored : Stored word) (live : word ≠ retiredWord) :
    (key word).toNat < (key retiredWord).toNat := by
  rcases stored with ⟨latch, rfl⟩
  rw [← Latch.word_retired, Latch.key_word, Latch.key_word]
  cases latch with
  | retired => exact absurd Latch.word_retired live
  | opened attempt | suspended attempt _ | resolved attempt _ =>
    have attemptLt := attempt.toNat_lt
    simp only [Latch.rank]
    omega

end Race

namespace Task

open Race (Stored)

/-- A call's word in hand is a state's, and no newer than the stored one. -/
def Sound (word : UInt64) : Task → Prop
  | .swap _ _ current => Stored current ∧ (key current).toNat ≤ (key word).toNat
  | .panicked => False
  | _ => True

variable {task : Task} {word : UInt64}

theorem Sound.raise {raised : UInt64} (sound : task.Sound word)
    (rises : (key word).toNat ≤ (key raised).toNat) : task.Sound raised := by
  cases task with
  | swap transition next current => exact ⟨sound.1, le_trans sound.2 rises⟩
  | panicked => exact sound
  | _ => trivial

theorem refused_sound (word : UInt64) (state : Latch) (next : Option Transition) :
    (refused state next).Sound word := by
  cases next <;> trivial

theorem step_cases (stored : Stored word) (sound : task.Sound word) (spurious : Bool) :
    ((task.step word spurious).2 = none ∧ (task.step word spurious).1.Sound word) ∨
      ∃ new, (task.step word spurious).2 = some new ∧ Stored new ∧
        (task.step word spurious).1.Sound new ∧
        (word = retiredWord → new = retiredWord) ∧
        (word ≠ retiredWord → (key word).toNat < (key new).toNat) := by
  cases task with
  | load transition next => exact Or.inl ⟨rfl, stored, le_rfl⟩
  | swap transition next current =>
    rcases sound.1 with ⟨latch, rfl⟩
    simp only [step, Latch.decode_word, Latch.refuses_word]
    split
    · exact Or.inl ⟨rfl, refused_sound word latch next⟩
    · rename_i accepts
      simp only [Bool.not_eq_true', Bool.not_eq_false] at accepts
      split
      · rename_i swapped
        have raised := Transition.rank_lt accepts
        refine Or.inr ⟨_, rfl, ⟨transition.target, rfl⟩, trivial, ?_, ?_⟩
        · intro isRetired
          have retired := (Latch.word_eq_retired latch).mp (swapped.1.symm.trans isRetired)
          subst retired
          cases transition <;> simp [Transition.accepts] at accepts
        · intro _
          rw [swapped.1, Latch.key_word, Latch.key_word]
          exact raised
      · exact Or.inl ⟨rfl, stored, le_rfl⟩
  | inspect =>
    rcases stored with ⟨latch, rfl⟩
    simp only [step, Latch.decode_word]
    cases latch <;> exact Or.inl ⟨rfl, trivial⟩
  | refuse =>
    rcases stored with ⟨latch, rfl⟩
    simp only [step, Latch.decode_word]
    exact Or.inl ⟨trivial, trivial⟩
  | store =>
    exact Or.inr ⟨retiredWord, rfl, ⟨.retired, Latch.word_retired.symm⟩, trivial, fun _ => rfl,
      stored.key_lt⟩
  | returned answer => exact Or.inl ⟨rfl, trivial⟩
  | panicked => exact sound.elim

/-! ## Exact evidence -/

/-- The call's first load saw the cell at the attempt, or past it. -/
def Arrived (attempt : UInt32) (seen : Option UInt64) : Prop :=
  ∃ word, seen = some word ∧ attempt ≤ attemptOf word

/-- How far the cell has come when a call of `exact_evidence` stands here. -/
def Heeds (attempt : UInt32) (seen : Option UInt64) (word : UInt64) : Task → Prop
  | .load transition next =>
    (transition = .submits attempt ∧ next = some (.lateExact attempt) ∧ seen = none) ∨
      (transition = .lateExact attempt ∧ next = none ∧ seen.isSome = true ∧
        (Arrived attempt seen → attempt.toNat * 2 ^ 24 < (key word).toNat))
  | .swap transition next current =>
    (transition = .submits attempt ∧ next = some (.lateExact attempt) ∧ seen.isSome = true ∧
        (Arrived attempt seen → attempt.toNat * 2 ^ 24 ≤ (key current).toNat)) ∨
      (transition = .lateExact attempt ∧ next = none ∧ seen.isSome = true ∧
        (Arrived attempt seen → attempt.toNat * 2 ^ 24 < (key current).toNat))
  | .returned _ => Arrived attempt seen → attempt.toNat * 2 ^ 24 + 2 ≤ (key word).toNat
  | .inspect | .refuse | .store | .panicked => False

variable {attempt : UInt32}

theorem Heeds.raise {seen : Option UInt64} {raised : UInt64} (heeds : task.Heeds attempt seen word)
    (rises : (key word).toNat ≤ (key raised).toNat) : task.Heeds attempt seen raised := by
  cases task with
  | load transition next =>
    refine heeds.imp_right fun ⟨isLate, last, loaded, above⟩ => ⟨isLate, last, loaded, ?_⟩
    exact fun arrived => lt_of_lt_of_le (above arrived) rises
  | swap transition next current => exact heeds
  | returned answer => exact fun arrived => le_trans (heeds arrived) rises
  | _ => exact heeds

theorem attemptOf_le (reached : attempt ≤ attemptOf word) :
    attempt.toNat * 2 ^ 24 ≤ (key word).toNat := by
  have le : attempt.toNat ≤ (attemptOf word).toNat := reached
  rw [attemptOf, UInt64.toNat_toUInt32, UInt64.toNat_shiftRight, Nat.shiftRight_eq_div_pow] at le
  change attempt.toNat ≤ word.toNat / 2 ^ 32 % 2 ^ 32 at le
  rw [key_toNat]
  omega

theorem past_open {latch : Latch} (refused : Transition.accepts (.submits attempt) latch = false)
    (reached : attempt.toNat * 2 ^ 24 ≤ latch.rank) : attempt.toNat * 2 ^ 24 < latch.rank := by
  cases latch with
  | opened a =>
    simp only [Transition.accepts, decide_eq_false_iff_not, Latch.opened.injEq] at refused
    have different : a.toNat ≠ attempt.toNat := fun same => refused (UInt32.toNat_inj.mp same)
    simp only [Latch.rank] at reached ⊢
    omega
  | suspended a cause | resolved a how =>
    simp only [Latch.rank] at reached ⊢
    omega
  | retired =>
    have attemptLt := attempt.toNat_lt
    simp only [Latch.rank]
    omega

theorem past_suspended {latch : Latch}
    (refused : Transition.accepts (.lateExact attempt) latch = false)
    (reached : attempt.toNat * 2 ^ 24 < latch.rank) : attempt.toNat * 2 ^ 24 + 2 ≤ latch.rank := by
  cases latch with
  | suspended a cause =>
    simp only [Transition.accepts, decide_eq_false_iff_not] at refused
    have different : a.toNat ≠ attempt.toNat := fun same => refused (UInt32.toNat_inj.mp same)
    simp only [Latch.rank] at reached ⊢
    omega
  | opened a | resolved a how =>
    simp only [Latch.rank] at reached ⊢
    omega
  | retired =>
    have attemptLt := attempt.toNat_lt
    simp only [Latch.rank]
    omega

theorem Heeds.step {seen : Option UInt64} (heeds : task.Heeds attempt seen word)
    (sound : task.Sound word) (spurious : Bool) :
    (task.step word spurious).1.Heeds attempt
      (if task.loads then some (seen.getD word) else seen)
      ((task.step word spurious).2.getD word) := by
  cases task with
  | load transition next =>
    rcases heeds with ⟨rfl, rfl, rfl⟩ | ⟨rfl, rfl, loaded, above⟩
    · refine Or.inl ⟨rfl, rfl, rfl, ?_⟩
      rintro ⟨first, isFirst, reached⟩
      cases isFirst
      exact attemptOf_le reached
    · rcases Option.isSome_iff_exists.mp loaded with ⟨before, rfl⟩
      refine Or.inr ⟨rfl, rfl, rfl, ?_⟩
      rintro ⟨first, isFirst, reached⟩
      cases isFirst
      exact above ⟨before, rfl, reached⟩
  | swap transition next current =>
    rcases sound with ⟨⟨latch, rfl⟩, le⟩
    simp only [Task.step, Latch.decode_word, Latch.refuses_word, loads, Bool.false_eq_true,
      if_false]
    rw [Latch.key_word] at le
    rcases heeds with ⟨rfl, rfl, loaded, reached⟩ | ⟨rfl, rfl, loaded, reached⟩
    · rw [Latch.key_word] at reached
      split
      · rename_i refuses
        rw [Bool.not_eq_true'] at refuses
        refine Or.inr ⟨rfl, rfl, loaded, fun arrived => ?_⟩
        have past := past_open refuses (reached arrived)
        simp only [Option.getD_none]
        omega
      · split
        · intro _
          simp only [Option.getD_some, Latch.key_word, Transition.target, Latch.rank]
          omega
        · exact Or.inl ⟨rfl, rfl, loaded, fun arrived => le_trans (reached arrived) le⟩
    · rw [Latch.key_word] at reached
      split
      · rename_i refuses
        rw [Bool.not_eq_true'] at refuses
        intro arrived
        have past := past_suspended refuses (reached arrived)
        simp only [Option.getD_none]
        omega
      · split
        · intro _
          simp only [Option.getD_some, Latch.key_word, Transition.target, Latch.rank]
          omega
        · exact Or.inr ⟨rfl, rfl, loaded, fun arrived => lt_of_lt_of_le (reached arrived) le⟩
  | returned answer => exact heeds
  | inspect | refuse | store | panicked => exact heeds.elim

end Task

namespace Race

variable {race : Race}

def entersSuspended (attempt : UInt32) (write : UInt64 × UInt64) : Bool :=
  match Latch.decode write.2 with
  | some (.suspended a _) => decide (a = attempt)
  | _ => false

def entersResolved (attempt : UInt32) (write : UInt64 × UInt64) : Bool :=
  match Latch.decode write.2 with
  | some (.resolved a _) => decide (a = attempt)
  | _ => false

/-- A write raises the key of the word it replaces; `Retired` is only written over itself. -/
def Raises (write : UInt64 × UInt64) : Prop :=
  (write.1 = retiredWord → write.2 = retiredWord) ∧
    (write.1 ≠ retiredWord → key write.1 < key write.2)

structure Sound (race : Race) : Prop where
  stored : Stored race.word
  tasks : ∀ call ∈ race.calls, call.task.Sound race.word
  heeds : ∀ call ∈ race.calls, ∀ attempt, call.op = .exactEvidence attempt →
    call.task.Heeds attempt call.seen race.word
  written : ∀ write ∈ race.writes, Stored write.2 ∧ Raises write ∧
    (key write.2).toNat ≤ (key race.word).toNat
  ordered : race.writes.Pairwise fun earlier later =>
    (key earlier.2).toNat ≤ (key later.1).toNat

theorem Sound.start : start.Sound :=
  ⟨⟨.resolved 0 .notTyped, rfl⟩, by simp [Race.start], by simp [Race.start], by simp [Race.start],
    by simp [Race.start]⟩

section

variable (sound : race.Sound)

include sound

theorem Sound.advance_word {call : Call} (mem : call ∈ race.calls) (index : ℕ) (spurious : Bool) :
    Stored (race.advance index spurious call).word ∧
      (key race.word).toNat ≤ (key (race.advance index spurious call).word).toNat ∧
      (call.task.step race.word spurious).1.Sound (race.advance index spurious call).word ∧
      ((race.advance index spurious call).writes = race.writes ∨
        (race.advance index spurious call).writes =
            race.writes ++ [(race.word, (race.advance index spurious call).word)] ∧
          Raises (race.word, (race.advance index spurious call).word)) := by
  rcases Task.step_cases sound.stored (sound.tasks call mem) spurious with
    ⟨unwritten, taskSound⟩ | ⟨new, written, stored, taskSound, retired, raised⟩
  · simp only [Race.advance, unwritten]
    exact ⟨sound.stored, le_rfl, taskSound, Or.inl (List.append_nil _)⟩
  · simp only [Race.advance, written]
    refine ⟨stored, ?_, taskSound, Or.inr ⟨rfl, retired, fun live => ?_⟩⟩
    · by_cases isRetired : race.word = retiredWord
      · rw [isRetired, retired isRetired, Option.getD_some]
      · exact le_of_lt (raised isRetired)
    · exact UInt64.lt_iff_toNat_lt.mpr (raised live)

theorem Sound.advance {call : Call} {index : ℕ} (found : race.calls[index]? = some call)
    (spurious : Bool) : (race.advance index spurious call).Sound := by
  have mem : call ∈ race.calls := List.mem_of_getElem? found
  rcases sound.advance_word mem index spurious with ⟨stored, rises, taskSound, writes⟩
  have calls : ∀ other ∈ (race.advance index spurious call).calls, other ∈ race.calls ∨
      other = { call with
        seen := if call.task.loads then some (call.seen.getD race.word) else call.seen
        task := (call.task.step race.word spurious).1 } :=
    fun other otherMem => List.mem_or_eq_of_mem_set otherMem
  refine ⟨stored, ?_, ?_, ?_, ?_⟩
  · intro other otherMem
    rcases calls other otherMem with before | rfl
    · exact (sound.tasks other before).raise rises
    · exact taskSound
  · intro other otherMem attempt isEvidence
    rcases calls other otherMem with before | rfl
    · exact (sound.heeds other before attempt isEvidence).raise rises
    · exact (sound.heeds call mem attempt isEvidence).step (sound.tasks call mem) spurious
  · intro write writeMem
    rcases writes with same | ⟨appended, raises⟩
    · rcases sound.written write (same ▸ writeMem) with ⟨isStored, isRaised, below⟩
      exact ⟨isStored, isRaised, le_trans below rises⟩
    · rw [appended, List.mem_append, List.mem_singleton] at writeMem
      rcases writeMem with before | rfl
      · rcases sound.written write before with ⟨isStored, isRaised, below⟩
        exact ⟨isStored, isRaised, le_trans below rises⟩
      · exact ⟨stored, raises, le_rfl⟩
  · rcases writes with same | ⟨appended, _⟩
    · rw [same]
      exact sound.ordered
    · rw [appended, List.pairwise_append]
      refine ⟨sound.ordered, List.pairwise_singleton _ _, ?_⟩
      intro earlier earlierMem later laterMem
      rw [List.mem_singleton] at laterMem
      subst laterMem
      exact (sound.written earlier earlierMem).2.2

theorem Sound.step (turn : Turn) : (race.step turn).Sound := by
  cases turn with
  | call op =>
    refine ⟨sound.stored, ?_, ?_, sound.written, sound.ordered⟩
    · intro call mem
      rcases List.mem_append.mp mem with before | new
      · exact sound.tasks call before
      · rw [List.mem_singleton] at new
        subst new
        cases op <;> trivial
    · intro call mem attempt isEvidence
      rcases List.mem_append.mp mem with before | new
      · exact sound.heeds call before attempt isEvidence
      · rw [List.mem_singleton] at new
        subst new
        have isOp : op = .exactEvidence attempt := isEvidence
        subst isOp
        exact Or.inl ⟨rfl, rfl, rfl⟩
  | step index spurious =>
    simp only [Race.step]
    split
    · exact sound
    · rename_i call found
      exact sound.advance found spurious

theorem Sound.run (turns : List Turn) : (race.run turns).Sound := by
  induction turns generalizing race with
  | nil => exact sound
  | cons turn rest ih => exact ih (sound.step turn)

theorem Sound.step_le (turn : Turn) :
    (key race.word).toNat ≤ (key (race.step turn).word).toNat := by
  cases turn with
  | call op => exact le_rfl
  | step index spurious =>
    simp only [Race.step]
    split
    · exact le_rfl
    · rename_i call found
      exact (sound.advance_word (List.mem_of_getElem? found) index spurious).2.1

theorem Sound.run_le (turns : List Turn) :
    (key race.word).toNat ≤ (key (race.run turns).word).toNat := by
  induction turns generalizing race with
  | nil => exact le_rfl
  | cons turn rest ih => exact le_trans (sound.step_le turn) (ih (sound.step turn))

theorem Sound.write_once {p : UInt64 × UInt64 → Bool} {rank : ℕ}
    (keyed : ∀ write ∈ race.writes, p write = true → (key write.2).toNat = rank)
    (live : ∀ write ∈ race.writes, p write = true → write.2 ≠ retiredWord) :
    (race.writes.filter p).length ≤ 1 := by
  have apart : (race.writes.filter p).Pairwise fun _ _ => False := by
    rw [List.pairwise_filter]
    refine sound.ordered.imp_of_mem fun {earlier later} earlierMem laterMem le
      isEarlier isLater => ?_
    have raises := (sound.written later laterMem).2.1
    have notRetired : later.1 ≠ retiredWord := fun retired =>
      live later laterMem isLater (raises.1 retired)
    have raised := UInt64.lt_iff_toNat_lt.mp (raises.2 notRetired)
    have earlierKey := keyed earlier earlierMem isEarlier
    have laterKey := keyed later laterMem isLater
    omega
  cases kept : race.writes.filter p with
  | nil => simp
  | cons first rest =>
    rw [kept] at apart
    cases rest with
    | nil => simp
    | cons second others => exact ((List.pairwise_cons.mp apart).1 second List.mem_cons_self).elim

end

theorem entersSuspended_key {attempt : UInt32} {write : UInt64 × UInt64} (stored : Stored write.2)
    (enters : entersSuspended attempt write) :
    (key write.2).toNat = attempt.toNat * 2 ^ 24 + 1 ∧ write.2 ≠ retiredWord := by
  rcases stored with ⟨latch, isLatch⟩
  simp only [entersSuspended] at enters
  rw [isLatch, Latch.key_word, Ne, Latch.word_eq_retired]
  cases latch <;> simp_all [Latch.rank]

theorem entersResolved_key {attempt : UInt32} {write : UInt64 × UInt64} (stored : Stored write.2)
    (enters : entersResolved attempt write) :
    (key write.2).toNat = attempt.toNat * 2 ^ 24 + 2 ∧ write.2 ≠ retiredWord := by
  rcases stored with ⟨latch, isLatch⟩
  simp only [entersResolved] at enters
  rw [isLatch, Latch.key_word, Ne, Latch.word_eq_retired]
  cases latch <;> simp_all [Latch.rank]

/-- The guarantees of the cell, whoever else writes it. -/
structure Monotone (race : Race) : Prop where
  raises : ∀ write ∈ race.writes, Raises write
  suspendedOnce : ∀ attempt, (race.writes.filter (entersSuspended attempt)).length ≤ 1
  resolvedOnce : ∀ attempt, (race.writes.filter (entersResolved attempt)).length ≤ 1
  decodes : (Latch.decode race.word).isSome = true
  unpanicked : ∀ call ∈ race.calls, call.task ≠ .panicked

/-- A call of `exact_evidence` for the attempt has returned, and it began when the cell had reached
the attempt. -/
def Heard (race : Race) (attempt : UInt32) : Prop :=
  ∃ call ∈ race.calls, call.op = .exactEvidence attempt ∧
    (∃ answer, call.task = .returned answer) ∧ Task.Arrived attempt call.seen

/-- Under every interleaving the latch only moves forward, and evidence that was heard is never
followed by its attempt open or suspended. -/
theorem latch_monotone (turns later : List Turn) :
    (start.run turns).Monotone ∧ ∀ attempt, (start.run turns).Heard attempt →
      Latch.decode ((start.run turns).run later).word ≠ some (.opened attempt) ∧
      ∀ cause, Latch.decode ((start.run turns).run later).word ≠
        some (.suspended attempt cause) := by
  have sound := Sound.start.run turns
  refine ⟨⟨fun write mem => (sound.written write mem).2.1, ?_, ?_, ?_, ?_⟩, ?_⟩
  · intro attempt
    exact sound.write_once
      (fun write mem enters => (entersSuspended_key (sound.written write mem).1 enters).1)
      (fun write mem enters => (entersSuspended_key (sound.written write mem).1 enters).2)
  · intro attempt
    exact sound.write_once
      (fun write mem enters => (entersResolved_key (sound.written write mem).1 enters).1)
      (fun write mem enters => (entersResolved_key (sound.written write mem).1 enters).2)
  · rcases sound.stored.decode with ⟨latch, decoded, _⟩
    simp [decoded]
  · intro call mem panicked
    have taskSound := sound.tasks call mem
    rw [panicked] at taskSound
    exact taskSound
  · rintro attempt ⟨call, mem, isEvidence, ⟨answer, returned⟩, arrived⟩
    have heeds := sound.heeds call mem attempt isEvidence
    rw [returned] at heeds
    have reached := le_trans (heeds arrived) (sound.run_le later)
    rcases (sound.run later).stored.decode with ⟨latch, decoded, isLatch⟩
    rw [isLatch, Latch.key_word] at reached
    rw [decoded]
    constructor
    · rintro ⟨⟩
      simp only [Latch.rank] at reached
      omega
    · rintro cause ⟨⟩
      simp only [Latch.rank] at reached
      omega

/-- The attempt opens, its evidence arrives, and the generation retires. -/
def heardTurns : List Turn :=
  [.call (.admitAttempt 1), .step 0 false, .step 0 false, .call (.exactEvidence 1), .step 1 false,
    .step 1 true, .step 1 false]

theorem latch_monotone_heardTurns :
    (start.run heardTurns).Heard 1 ∧
      Latch.decode (start.run heardTurns).word = some (.resolved 1 .submitted) ∧
      Latch.decode ((start.run heardTurns).run [.call (.suspend 1 .deadline), .step 2 false,
        .step 2 false]).word ≠ some (.opened 1) := by
  have heard : (start.run heardTurns).Heard 1 :=
    ⟨_, List.mem_cons_of_mem _ List.mem_cons_self, rfl, ⟨_, rfl⟩, _, rfl, by decide⟩
  exact ⟨heard, by decide, ((latch_monotone heardTurns _).2 1 heard).1⟩

/-- Evidence for an attempt that the cell has not reached is not kept for it. -/
theorem early_evidence_forgotten :
    ¬∀ (turns later : List Turn) (attempt : UInt32), (start.run turns).word ≠ retiredWord →
      (∃ call ∈ (start.run turns).calls, call.op = .exactEvidence attempt ∧
        ∃ answer, call.task = .returned answer) →
      Latch.decode ((start.run turns).run later).word ≠ some (.opened attempt) ∧
      ∀ cause, Latch.decode ((start.run turns).run later).word ≠
        some (.suspended attempt cause) := by
  intro claimed
  have heard := claimed
    [.call (.exactEvidence 1), .step 0 false, .step 0 false, .step 0 false, .step 0 false]
    [.call (.admitAttempt 1), .step 1 false, .step 1 false] 1 (by decide)
    ⟨_, List.mem_singleton.mpr rfl, rfl, _, rfl⟩
  exact heard.1 (by decide)

end Race

end AgentDeck.Doorbell
