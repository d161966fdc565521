import Mathlib.Algebra.Order.Ring.Nat
import Mathlib.Data.List.Infix
import Mathlib.Tactic.Common

/-!
# The doorbell's latch: words, states and moves

The latch of `src/doorbell_txn.rs` is one 64-bit word that packs an attempt number, a phase and a
detail. `decode` may fail where the source's `expect` would panic. `Latch.word` packs a state; the
words it yields are the only ones the cell ever holds (the next module shows this under any
interleaving), so the transaction's model works on the states themselves.
-/

namespace AgentDeck.Doorbell

inductive Cause
  | deadline
  | echoMismatch
  | partialWrite
  | writeStalled
  | modeChanged
  | layout
  | noSubmitEvidence
  | withdrawalRefused
  | withdrawalStalled
  | dialogAfterTyping
  | dialogBeforeSubmit
  | dialogAfterSubmit
  deriving DecidableEq

namespace Cause

def code : Cause → UInt8
  | deadline => 1
  | echoMismatch => 2
  | partialWrite => 3
  | writeStalled => 4
  | modeChanged => 5
  | layout => 6
  | noSubmitEvidence => 7
  | withdrawalRefused => 8
  | withdrawalStalled => 9
  | dialogAfterTyping => 10
  | dialogBeforeSubmit => 11
  | dialogAfterSubmit => 12

def all : List Cause :=
  [deadline, echoMismatch, partialWrite, writeStalled, modeChanged, layout, noSubmitEvidence,
    withdrawalRefused, withdrawalStalled, dialogAfterTyping, dialogBeforeSubmit, dialogAfterSubmit]

def fromCode (code : UInt8) : Option Cause := all.find? fun cause => cause.code = code

@[simp]
theorem fromCode_code (cause : Cause) : fromCode cause.code = some cause := by
  cases cause <;> rfl

end Cause

inductive Resolution
  | notTyped
  | submitted
  | withdrawn
  | lateExact
  | user
  deriving DecidableEq

namespace Resolution

def code : Resolution → UInt8
  | notTyped => 1
  | submitted => 2
  | withdrawn => 3
  | lateExact => 4
  | user => 5

def fromCode (code : UInt8) : Option Resolution :=
  [notTyped, submitted, withdrawn, lateExact, user].find? fun how => how.code = code

@[simp]
theorem fromCode_code (how : Resolution) : fromCode how.code = some how := by
  cases how <;> rfl

end Resolution

inductive Latch
  | opened (attempt : UInt32)
  | suspended (attempt : UInt32) (cause : Cause)
  | resolved (attempt : UInt32) (how : Resolution)
  | retired
  deriving DecidableEq

def phaseOpen : UInt64 := 0

def phaseSuspended : UInt64 := 1

def phaseResolved : UInt64 := 2

def retiredWord : UInt64 := 0xffffffffffffffff

def word (attempt : UInt32) (phase : UInt64) (detail : UInt8) : UInt64 :=
  attempt.toUInt64 <<< 32 ||| phase <<< 8 ||| detail.toUInt64

/-- The `(attempt, phase)` key that writes compare. -/
def key (word : UInt64) : UInt64 := word >>> 8

def attemptOf (word : UInt64) : UInt32 := (word >>> 32).toUInt32

namespace Latch

/-- The state a word stands for; `none` where the source panics. -/
def decode (word : UInt64) : Option Latch :=
  if word = retiredWord then some retired
  else
    let phase := (word >>> 8) &&& 0xffffff
    if phase = phaseOpen then some (opened (attemptOf word))
    else if phase = phaseSuspended then
      (Cause.fromCode word.toUInt8).map (suspended (attemptOf word))
    else (Resolution.fromCode word.toUInt8).map (resolved (attemptOf word))

def word : Latch → UInt64
  | opened attempt => Doorbell.word attempt phaseOpen 0
  | suspended attempt cause => Doorbell.word attempt phaseSuspended cause.code
  | resolved attempt how => Doorbell.word attempt phaseResolved how.code
  | retired => retiredWord

/-- The order of the states: attempts first, then phases, `retired` above all. -/
def rank : Latch → ℕ
  | opened attempt => attempt.toNat * 2 ^ 24
  | suspended attempt _ => attempt.toNat * 2 ^ 24 + 1
  | resolved attempt _ => attempt.toNat * 2 ^ 24 + 2
  | retired => 2 ^ 56 - 1

end Latch

/-! ## Packing -/

variable {phase : UInt64}

variable (attempt : UInt32)

section

variable (small : phase.toNat < 2 ^ 24)

include small

variable (detail : UInt8)

include detail

theorem word_toNat :
    (word attempt phase detail).toNat =
      attempt.toNat * 2 ^ 32 + phase.toNat * 2 ^ 8 + detail.toNat := by
  have attemptLt := attempt.toNat_lt
  have detailLt := detail.toNat_lt
  have high : (attempt.toUInt64 <<< 32).toNat = attempt.toNat <<< 32 := by
    apply Nat.mod_eq_of_lt
    change attempt.toNat <<< 32 < 2 ^ 64
    omega
  have middle : (phase <<< 8).toNat = phase.toNat <<< 8 := by
    apply Nat.mod_eq_of_lt
    change phase.toNat <<< 8 < 2 ^ 64
    omega
  have low : detail.toUInt64.toNat = detail.toNat := UInt8.toNat_toUInt64 detail
  -- The three fields do not overlap, so joining them is adding them.
  have phaseFits : phase.toNat <<< 8 < 2 ^ 32 := by
    omega
  have detailFits : detail.toNat < 2 ^ 8 := detailLt
  rw [word, UInt64.toNat_or, UInt64.toNat_or, high, middle, low,
    ← Nat.shiftLeft_add_eq_or_of_lt phaseFits]
  have apart : attempt.toNat <<< 32 + phase.toNat <<< 8 =
      (attempt.toNat * 2 ^ 24 + phase.toNat) <<< 8 := by
    omega
  rw [apart, ← Nat.shiftLeft_add_eq_or_of_lt detailFits]
  omega

omit detail in
omit small in
theorem key_toNat (word : UInt64) : (key word).toNat = word.toNat / 2 ^ 8 := by
  rw [key, UInt64.toNat_shiftRight, Nat.shiftRight_eq_div_pow]
  rfl

theorem key_word_toNat :
    (key (word attempt phase detail)).toNat =
      attempt.toNat * 2 ^ 24 + phase.toNat := by
  have detailLt := detail.toNat_lt
  rw [key_toNat, word_toNat attempt small]
  omega

theorem attemptOf_word : attemptOf (word attempt phase detail) = attempt := by
  have detailLt := detail.toNat_lt
  have attemptLt := attempt.toNat_lt
  apply UInt32.toNat_inj.mp
  rw [attemptOf, UInt64.toNat_toUInt32, UInt64.toNat_shiftRight, word_toNat attempt small,
    Nat.shiftRight_eq_div_pow]
  change (attempt.toNat * 2 ^ 32 + phase.toNat * 2 ^ 8 + detail.toNat) / 2 ^ 32 % 2 ^ 32 = _
  omega

theorem phase_word : (word attempt phase detail >>> 8) &&& 0xffffff = phase := by
  have keyed := key_word_toNat attempt small detail
  rw [key] at keyed
  apply UInt64.toNat_inj.mp
  rw [UInt64.toNat_and, keyed]
  change (attempt.toNat * 2 ^ 24 + phase.toNat) &&& (2 ^ 24 - 1) = _
  rw [Nat.and_two_pow_sub_one_eq_mod]
  omega

theorem detail_word : (word attempt phase detail).toUInt8 = detail := by
  have detailLt := detail.toNat_lt
  apply UInt8.toNat_inj.mp
  rw [UInt64.toNat_toUInt8, word_toNat attempt small]
  omega

end

theorem word_ne_retired (small : phase.toNat < 2 ^ 24 - 1) (detail : UInt8) :
    word attempt phase detail ≠ retiredWord := by
  intro same
  have keyed := key_word_toNat attempt (by omega : phase.toNat < 2 ^ 24) detail
  rw [same] at keyed
  change 2 ^ 56 - 1 = _ at keyed
  omega

namespace Latch

@[simp]
theorem decode_word (latch : Latch) : decode latch.word = some latch := by
  cases latch with
  | opened attempt =>
    simp [decode, word, word_ne_retired attempt (by decide : phaseOpen.toNat < 2 ^ 24 - 1),
      phase_word attempt (by decide : phaseOpen.toNat < 2 ^ 24),
      attemptOf_word attempt (by decide : phaseOpen.toNat < 2 ^ 24)]
  | suspended attempt cause =>
    simp [decode, word, word_ne_retired attempt (by decide : phaseSuspended.toNat < 2 ^ 24 - 1),
      phase_word attempt (by decide : phaseSuspended.toNat < 2 ^ 24),
      attemptOf_word attempt (by decide : phaseSuspended.toNat < 2 ^ 24),
      detail_word attempt (by decide : phaseSuspended.toNat < 2 ^ 24),
      (by decide : phaseSuspended ≠ phaseOpen)]
  | resolved attempt how =>
    simp [decode, word, word_ne_retired attempt (by decide : phaseResolved.toNat < 2 ^ 24 - 1),
      phase_word attempt (by decide : phaseResolved.toNat < 2 ^ 24),
      attemptOf_word attempt (by decide : phaseResolved.toNat < 2 ^ 24),
      detail_word attempt (by decide : phaseResolved.toNat < 2 ^ 24),
      (by decide : phaseResolved ≠ phaseOpen), (by decide : phaseResolved ≠ phaseSuspended)]
  | retired => simp [decode, word]

theorem word_injective {left right : Latch} (same : left.word = right.word) : left = right :=
  Option.some.inj ((decode_word left).symm.trans (same ▸ decode_word right))

theorem key_word (latch : Latch) : (key latch.word).toNat = latch.rank := by
  cases latch with
  | opened attempt =>
    exact (key_word_toNat attempt (by decide) 0).trans (Nat.add_zero _)
  | suspended attempt cause => exact key_word_toNat attempt (by decide) cause.code
  | resolved attempt how => exact key_word_toNat attempt (by decide) how.code
  | retired => rfl

theorem word_retired : retired.word = retiredWord := by
  simp only [word]

theorem word_eq_retired (latch : Latch) : latch.word = retiredWord ↔ latch = retired := by
  constructor
  · intro same
    exact word_injective (same.trans word_retired.symm)
  · rintro rfl
    exact word_retired

end Latch

/-! ## Moves -/

/-- One `advance` loop: the states it moves from and the one it writes. -/
inductive Transition
  | opens (attempt : UInt32)
  | notTyped (attempt : UInt32)
  | suspends (attempt : UInt32) (cause : Cause)
  | submits (attempt : UInt32)
  | lateExact (attempt : UInt32)
  | resolves (attempt : UInt32) (how : Resolution)
  | clears (attempt : UInt32)
  deriving DecidableEq

namespace Transition

def accepts : Transition → Latch → Bool
  | opens attempt, .opened a | opens attempt, .suspended a _ | opens attempt, .resolved a _ =>
    decide (a < attempt)
  | opens _, .retired => false
  | notTyped attempt, state => decide (state = .opened attempt)
  | suspends attempt _, state => decide (state = .opened attempt)
  | submits attempt, state => decide (state = .opened attempt)
  | lateExact attempt, .suspended a _ => decide (a = attempt)
  | lateExact _, _ => false
  | resolves attempt _, .opened a | resolves attempt _, .suspended a _ => decide (a = attempt)
  | resolves _ _, _ => false
  | clears attempt, .suspended a _ => decide (a = attempt)
  | clears _, _ => false

def target : Transition → Latch
  | opens attempt => .opened attempt
  | notTyped attempt => .resolved attempt .notTyped
  | suspends attempt cause => .suspended attempt cause
  | submits attempt => .resolved attempt .submitted
  | lateExact attempt => .resolved attempt .lateExact
  | resolves attempt how => .resolved attempt how
  | clears attempt => .resolved attempt .user

end Transition

namespace Latch

/-- What `LatchCell::advance` tests before its compare-and-swap. -/
def refuses (current : UInt64) (state : Latch) (transition : Transition) : Bool :=
  decide (current = retiredWord) || !transition.accepts state ||
    decide (key transition.target.word ≤ key current)

/-- `LatchCell::advance` with no other writer: the state moved from, or the state that refused. -/
def advance (latch : Latch) (transition : Transition) : Except Latch Latch × Latch :=
  if refuses latch.word latch transition then (.error latch, latch)
  else (.ok latch, transition.target)

/-- `LatchCell::open`. -/
def admitAttempt (latch : Latch) (attempt : UInt32) : Except Latch Latch × Latch :=
  latch.advance (.opens attempt)

def notTyped (latch : Latch) (attempt : UInt32) : Except Latch Latch × Latch :=
  latch.advance (.notTyped attempt)

def suspend (latch : Latch) (attempt : UInt32) (cause : Cause) : Except Latch Latch × Latch :=
  latch.advance (.suspends attempt cause)

/-- Exact hook evidence: two loops, the second only when the first refused. -/
def exactEvidence (latch : Latch) (attempt : UInt32) : Except Latch Latch × Latch :=
  match latch.advance (.submits attempt) with
  | (.ok state, moved) => (.ok state, moved)
  | (.error _, latch) => latch.advance (.lateExact attempt)

def resolve (latch : Latch) (attempt : UInt32) (how : Resolution) : Except Latch Latch × Latch :=
  latch.advance (.resolves attempt how)

def userCleared (latch : Latch) : Except Latch Latch × Latch :=
  match latch with
  | suspended attempt _ => latch.advance (.clears attempt)
  | _ => (.error latch, latch)

def retire (_latch : Latch) : Latch := .retired

end Latch

theorem Transition.rank_lt {transition : Transition} {latch : Latch}
    (accepts : transition.accepts latch) : latch.rank < transition.target.rank := by
  cases transition with
  | opens attempt =>
    cases latch with
    | retired => cases accepts
    | opened a | suspended a _ | resolved a _ =>
      simp only [Transition.accepts, decide_eq_true_eq] at accepts
      have less : a.toNat < attempt.toNat := accepts
      simp only [target, Latch.rank]
      omega
  | notTyped attempt | suspends attempt cause | submits attempt =>
    simp only [Transition.accepts, decide_eq_true_eq] at accepts
    subst accepts
    simp only [target, Latch.rank]
    omega
  | lateExact attempt | clears attempt | resolves attempt how =>
    cases latch <;> simp only [Transition.accepts, decide_eq_true_eq, Bool.false_eq_true] at accepts
    all_goals
      subst accepts
      simp only [target, Latch.rank]
      omega

theorem Latch.refuses_word (latch : Latch) (transition : Transition) :
    refuses latch.word latch transition = !transition.accepts latch := by
  cases accepted : transition.accepts latch with
  | false => simp [refuses, accepted]
  | true =>
    have live : latch.word ≠ retiredWord := by
      rw [Ne, word_eq_retired]
      rintro rfl
      cases transition <;> simp [Transition.accepts] at accepted
    have raised := Transition.rank_lt accepted
    rw [← key_word, ← key_word] at raised
    have notLe : ¬key transition.target.word ≤ key latch.word := by
      rw [UInt64.le_iff_toNat_le]
      omega
    simp [refuses, accepted, live, notLe]

theorem Latch.advance_eq (latch : Latch) (transition : Transition) :
    latch.advance transition =
      if transition.accepts latch then (.ok latch, transition.target) else
        (.error latch, latch) := by
  rw [advance, refuses_word]
  cases transition.accepts latch <;> rfl

end AgentDeck.Doorbell
