import AgentDeck.Text
import Mathlib.Order.WithBot

/-!
# Token counts

Counts, models and fields with their provenance, and the usage of a run folded per model, from
`src/telemetry/accounting.rs`. A run holds a bounded number of named models; what comes of any
further one is credited to none.
-/

namespace AgentDeck.Usage

def u64Max : ℕ := 2 ^ 64 - 1

/-- `u64::saturating_add`. -/
def saturatingAdd (left right : ℕ) : ℕ := min (left + right) u64Max

/-! ## Identifiers and models -/

namespace Ident

def isIdentChar (c : Char) : Bool :=
  c.isAlphanum || decide (c ∈ ['.', '_', '-', ':', '/', '@', '+'])

def valid (value : Text) : Bool :=
  !value.isEmpty && decide (Text.len value ≤ 128) && value.all isIdentChar

end Ident

/-- A short identifier; nothing else is kept of an agent's own texts. -/
abbrev Ident := { value : Text // Ident.valid value = true }

abbrev Model := WithBot Ident

/-- `Ident::new`, as a model. -/
def Model.new (value : Option Text) : Model :=
  match value with
  | none => ⊥
  | some value => if valid : Ident.valid value = true then ((⟨value, valid⟩ : Ident) : Model) else ⊥

def maxModels : ℕ := 32

/-- The key `model` is counted under: itself, or none once the most named models are there. -/
def capped {ν : Type} (byModel : SortedMap Model ν) (model : Model) : Model :=
  let named := byModel.entries.length - (if (byModel.get? ⊥).isSome then 1 else 0)
  if maxModels ≤ named ∧ (byModel.get? model).isNone then ⊥ else model

/-! ## Counts -/

structure Tokens where
  input : ℕ
  output : ℕ
  cacheRead : ℕ
  cacheWrite : ℕ
  deriving DecidableEq

inductive Count where
  | input
  | output
  | cacheRead
  | cacheWrite

namespace Tokens

def zero : Tokens := { input := 0, output := 0, cacheRead := 0, cacheWrite := 0 }

def count (tokens : Tokens) : Count → ℕ
  | .input => tokens.input
  | .output => tokens.output
  | .cacheRead => tokens.cacheRead
  | .cacheWrite => tokens.cacheWrite

def add (tokens other : Tokens) : Tokens :=
  { input := saturatingAdd tokens.input other.input
    output := saturatingAdd tokens.output other.output
    cacheRead := saturatingAdd tokens.cacheRead other.cacheRead
    cacheWrite := saturatingAdd tokens.cacheWrite other.cacheWrite }

/-- The growth from `earlier`, or `none` when any count went down. -/
def since (tokens earlier : Tokens) : Option Tokens :=
  if earlier.input ≤ tokens.input ∧ earlier.output ≤ tokens.output ∧
      earlier.cacheRead ≤ tokens.cacheRead ∧ earlier.cacheWrite ≤ tokens.cacheWrite then
    some
      { input := tokens.input - earlier.input
        output := tokens.output - earlier.output
        cacheRead := tokens.cacheRead - earlier.cacheRead
        cacheWrite := tokens.cacheWrite - earlier.cacheWrite }
  else none

def isZero (tokens : Tokens) : Bool := decide (tokens = zero)

def isConsistent (tokens : Tokens) : Bool :=
  decide (tokens.cacheRead + tokens.cacheWrite ≤ u64Max ∧
    tokens.cacheRead + tokens.cacheWrite ≤ tokens.input)

def Fits (tokens : Tokens) : Prop := ∀ kind, tokens.count kind ≤ u64Max

/-- The first is at most the second in every count. -/
def Le (tokens other : Tokens) : Prop := ∀ kind, tokens.count kind ≤ other.count kind

@[simp]
theorem count_zero (kind : Count) : zero.count kind = 0 := by cases kind <;> rfl

theorem count_add (tokens other : Tokens) (kind : Count) :
    (tokens.add other).count kind = saturatingAdd (tokens.count kind) (other.count kind) := by
  cases kind <;> rfl

variable {tokens : Tokens}

theorem count_add_of_le {other : Tokens} {kind : Count}
    (fits : tokens.count kind + other.count kind ≤ u64Max) :
    (tokens.add other).count kind = tokens.count kind + other.count kind := by
  rw [count_add]
  exact Nat.min_eq_left fits

theorem since_eq_some {earlier delta : Tokens} (grown : tokens.since earlier = some delta)
    (kind : Count) : earlier.count kind + delta.count kind = tokens.count kind := by
  unfold since at grown
  split at grown
  · rename_i least
    cases grown
    cases kind
    · exact Nat.add_sub_cancel' least.1
    · exact Nat.add_sub_cancel' least.2.1
    · exact Nat.add_sub_cancel' least.2.2.1
    · exact Nat.add_sub_cancel' least.2.2.2
  · cases grown

theorem since_eq_none_iff {earlier : Tokens} :
    tokens.since earlier = none ↔ ¬ earlier.Le tokens := by
  unfold since
  constructor
  · intro absent least
    rw [if_pos ⟨least .input, least .output, least .cacheRead, least .cacheWrite⟩] at absent
    cases absent
  · intro less
    rw [if_neg]
    rintro ⟨input, output, cacheRead, cacheWrite⟩
    refine less fun kind => ?_
    cases kind with
    | input => exact input
    | output => exact output
    | cacheRead => exact cacheRead
    | cacheWrite => exact cacheWrite

end Tokens

/-! ## Fields -/

inductive Unavailable where
  | noChannel
  | subscriptionZero
  | unknownPrice
  | notRecorded
  | incomplete
  | windowReset
  | planChanged
  | quotaDecreased
  | runNotEnded
  | noWorkItem
  | unrecognizedFormat
  deriving DecidableEq

inductive Field (α : Type) where
  | measured (value : α)
  | providerReported (value : α)
  | estimated (value : α)
  | agentAsserted (value : α)
  | unavailable (reason : Unavailable)

abbrev MicroUsd := ℕ

structure ModelUsage where
  model : Model
  tokens : Field Tokens
  cost : Field MicroUsd

def usageUnavailable (reason : Unavailable) : List ModelUsage :=
  [{ model := ⊥, tokens := .unavailable reason, cost := .unavailable reason }]

/-! ## Usage per model -/

def addTokens : Field Tokens → Field Tokens → Field Tokens
  | .providerReported a, .providerReported b => .providerReported (a.add b)
  | .unavailable a, .unavailable b => if a = b then .unavailable a else .unavailable .incomplete
  | _, _ => .unavailable .incomplete

def addCost : Field MicroUsd → Field MicroUsd → Field MicroUsd
  | .estimated 0, other => other
  | other, .estimated 0 => other
  | .estimated a, .estimated b => .estimated (saturatingAdd a b)
  | .providerReported a, .providerReported b => .providerReported (saturatingAdd a b)
  | .unavailable a, .unavailable b => if a = b then .unavailable a else .unavailable .incomplete
  | _, _ => .unavailable .incomplete

structure UsageAcc where
  byModel : SortedMap Model (Field Tokens × Field MicroUsd)

namespace UsageAcc

def new : UsageAcc := ⟨.empty⟩

/-- Folds one entry in; `false` when its model was named but is credited to none. -/
def add (acc : UsageAcc) (model : Model) (tokens : Field Tokens) (cost : Field MicroUsd) :
    UsageAcc × Bool :=
  let key := capped acc.byModel model
  let kept := decide (key ≠ ⊥) || !decide (model ≠ ⊥)
  match acc.byModel.get? key with
  | none => (⟨acc.byModel.insert key (tokens, cost)⟩, kept)
  | some (sum, sumCost) =>
    (⟨acc.byModel.insert key (addTokens sum tokens, addCost sumCost cost)⟩, kept)

def finish (acc : UsageAcc) : List ModelUsage :=
  if acc.byModel.entries.isEmpty then usageUnavailable .notRecorded
  else acc.byModel.entries.map fun entry =>
    { model := entry.1, tokens := entry.2.1, cost := entry.2.2 }

end UsageAcc

def perModel (entries : List (Model × Field Tokens × Field MicroUsd)) : List ModelUsage :=
  (entries.foldl (fun acc entry => (acc.add entry.1 entry.2.1 entry.2.2).1) UsageAcc.new).finish

/-! ## Named models -/

def named {ν : Type} (byModel : SortedMap Model ν) : ℕ :=
  SortedMap.total (fun model _ => if model = ⊥ then 0 else 1) byModel

variable {ν : Type} (byModel : SortedMap Model ν)

theorem length_sub_eq_named :
    byModel.entries.length - (if (byModel.get? ⊥).isSome then 1 else 0) = named byModel := by
  have apart : named byModel = ((byModel.erase ⊥).entries).length := by
    have erased := SortedMap.total_erase (fun model _ => if model = ⊥ then 0 else 1) byModel ⊥
    have rest : SortedMap.total (fun model _ => if model = ⊥ then 0 else 1) (byModel.erase ⊥) =
        (byModel.erase ⊥).entries.length := by
      simp only [SortedMap.total, SortedMap.erase]
      induction byModel.entries with
      | nil => rfl
      | cons entry rest ih =>
        by_cases absent : entry.1 = ⊥
        · rw [List.filter_cons_of_neg (by simpa using absent)]
          exact ih
        · rw [List.filter_cons_of_pos (by simpa using absent), List.map_cons, List.sum_cons, ih,
            if_neg absent, List.length_cons, Nat.add_comm]
    have weightless : ((byModel.get? ⊥).map fun _ => if (⊥ : Model) = ⊥ then 0 else 1).getD 0 =
      0 := by
      cases byModel.get? ⊥ <;> simp
    rw [named, ← erased, weightless, rest, Nat.add_zero]
  have counted := SortedMap.total_erase (fun _ _ => 1) byModel ⊥
  have length : ∀ map : SortedMap Model ν, SortedMap.total (fun _ _ => 1) map =
    map.entries.length := by
    simp [SortedMap.total]
  rw [length, length] at counted
  cases found : byModel.get? ⊥ with
  | none =>
    rw [found] at counted
    simp only [Option.map_none, Option.getD_none] at counted
    simp only [Option.isSome_none, Bool.false_eq_true, if_false]
    omega
  | some value =>
    rw [found] at counted
    simp only [Option.map_some, Option.getD_some] at counted
    simp only [Option.isSome_some, if_true]
    omega

theorem capped_eq (model : Model) :
    capped byModel model =
      if maxModels ≤ named byModel ∧ (byModel.get? model).isNone then ⊥ else model := by
  simp only [capped, length_sub_eq_named]

theorem named_insert (key : Model) (value : ν) :
    named (byModel.insert key value) ≤ named byModel + 1 ∧
      (key = ⊥ ∨ (byModel.get? key).isSome = true →
        named (byModel.insert key value) ≤ named byModel) := by
  have grown := SortedMap.total_insert (fun model _ => if model = ⊥ then 0 else 1) byModel key value
  simp only [named]
  constructor
  · split at grown
    · omega
    · omega
  · intro known
    cases found : byModel.get? key with
    | some old =>
      rw [found] at grown
      simp only [Option.map_some, Option.getD_some] at grown
      omega
    | none =>
      rw [found] at known
      rw [if_pos (known.resolve_right (by simp))] at grown
      omega

theorem named_insert_capped {ν : Type} {byModel : SortedMap Model ν}
    (bounded : named byModel ≤ maxModels) (model : Model) (value : ν) :
    named (byModel.insert (capped byModel model) value) ≤ maxModels := by
  rw [capped_eq]
  by_cases full : maxModels ≤ named byModel ∧ (byModel.get? model).isNone
  · rw [if_pos full]
    exact ((named_insert byModel ⊥ value).2 (.inl rfl)).trans bounded
  · rw [if_neg full]
    by_cases known : (byModel.get? model).isSome = true
    · exact ((named_insert byModel model value).2 (.inr known)).trans bounded
    · have room : named byModel < maxModels := by
        refine Nat.lt_of_not_le fun most => full ⟨most, ?_⟩
        exact Option.isNone_iff_eq_none.mpr (Option.not_isSome_iff_eq_none.mp known)
      exact (named_insert byModel model value).1.trans room

end AgentDeck.Usage
