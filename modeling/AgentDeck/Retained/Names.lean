import AgentDeck.Lib.Split
import AgentDeck.Text
import Mathlib.Data.List.Lex

/-!
# Names of retained files

`src/retained_store.rs` keeps the state of a report it wrote in an earlier run in the name of its
file. There are three families of names: a file the run wrote, `r-<report>.md`; one it adopted from
a run that ended, `r-<report>.d<deadline>.<state>.md`; and a write under way,
`w-<report>.<tag>.part`. The readers of the three families never accept one another's names, and
the reader of adopted names gives back what the name was made from.
-/

namespace AgentDeck.Retained

open Split

/-! ## Report ids -/

def isReportChar (c : Char) : Bool :=
  (decide ('0' ≤ c) && decide (c ≤ '9')) || (decide ('a' ≤ c) && decide (c ≤ 'z')) ||
    decide (c = '-')

/-- `valid_report_id`: 1 to 64 of `[0-9a-z-]`. -/
def validReportId (id : Text) : Bool :=
  decide (1 ≤ Text.len id) && decide (Text.len id ≤ 64) && id.all isReportChar

/-- A report id as `mint_report_id` makes them and `write` expects them. -/
structure ReportId where
  text : Text
  valid : validReportId text = true
  deriving DecidableEq

def isHexDigit (c : Char) : Bool :=
  (decide ('0' ≤ c) && decide (c ≤ '9')) || (decide ('a' ≤ c) && decide (c ≤ 'f')) ||
    (decide ('A' ≤ c) && decide (c ≤ 'F'))

/-- The random part of a temporary name: 16 hexadecimal digits. -/
structure Tag where
  text : Text
  length : Text.len text = 16
  hex : text.all isHexDigit = true
  deriving DecidableEq

def validRunId (id : Text) : Bool :=
  decide (Text.len id = 32) && id.all fun c =>
    (decide ('0' ≤ c) && decide (c ≤ '9')) || (decide ('a' ≤ c) && decide (c ≤ 'f'))

/-! ## The three families -/

abbrev Name := Text

def ownName (id : Text) : Name := "r-".toList ++ (id ++ ".md".toList)

def parseOwnName (name : Name) : Option Text := do
  let id ← stripSuffix ".md".toList (← stripPrefix "r-".toList name)
  if validReportId id then some id else none

def tempName (id : Text) (tag : Tag) : Name :=
  "w-".toList ++ (id ++ (".".toList ++ (tag.text ++ ".part".toList)))

def isTempName (name : Name) : Bool :=
  let parts := do rsplitOnce ".".toList (← stripSuffix ".part".toList
    (← stripPrefix "w-".toList name))
  parts.any fun (id, tag) =>
    validReportId id && decide (Text.len tag = 16) && tag.all isHexDigit

inductive AdoptedState
  | acknowledged
  | pinned
  | recovered
  | unlisted
  | orphaned
  deriving DecidableEq, Repr

namespace AdoptedState

def letter : AdoptedState → Char
  | acknowledged => 'a'
  | pinned => 'p'
  | recovered => 'r'
  | unlisted => 'u'
  | orphaned => 'o'

def fromLetter (letter : Char) : Option AdoptedState :=
  if letter = 'a' then some acknowledged
  else if letter = 'p' then some pinned
  else if letter = 'r' then some recovered
  else if letter = 'u' then some unlisted
  else if letter = 'o' then some orphaned
  else none

end AdoptedState

/-- An `i64` as `format!` writes it. -/
def showInt : ℤ → Text
  | .ofNat n => Nat.toDigits 10 n
  | .negSucc n => '-' :: Nat.toDigits 10 (n + 1)

def isDigit (c : Char) : Bool := decide ('0' ≤ c) && decide (c ≤ '9')

/-- `parse_adopted_name`: a deadline of at most 12 decimal digits, then one state letter. -/
def parseAdoptedName (name : Name) : Option (Text × ℤ × AdoptedState) := do
  let rest ← stripSuffix ".md".toList (← stripPrefix "r-".toList name)
  let (head, letters) ← rsplitOnce ".".toList rest
  let letter ← letters.head?
  let state ← AdoptedState.fromLetter letter
  if letters.tail.isEmpty then
    let (id, deadline) ← rsplitOnce ".d".toList head
    if !deadline.isEmpty && decide (Text.len deadline ≤ 12) && deadline.all isDigit then
      if validReportId id then some (id, (Nat.ofDigitChars 10 deadline 0 : ℤ), state) else none
    else none
  else none

/-! ## Own names -/

variable {id : Text}

theorem not_mem_of_valid (valid : validReportId id) {c : Char}
    (other : isReportChar c = false) : c ∉ id := by
  intro mem
  simp only [validReportId, Bool.and_eq_true, List.all_eq_true] at valid
  rw [valid.2 c mem] at other
  cases other

variable {name : Name}

theorem parseOwnName_eq_some :
    parseOwnName name = some id ↔ name = ownName id ∧ validReportId id = true := by
  simp only [parseOwnName, bind, Option.bind_eq_some_iff, stripPrefix_eq_some, stripSuffix_eq_some]
  constructor
  · rintro ⟨rest, rfl, found, rfl, kept⟩
    split at kept
    · rename_i valid
      cases kept
      exact ⟨rfl, valid⟩
    · cases kept
  · rintro ⟨rfl, valid⟩
    exact ⟨_, rfl, id, rfl, if_pos valid⟩

@[simp]
theorem parseOwnName_ownName (id : ReportId) : parseOwnName (ownName id.text) = some id.text :=
  parseOwnName_eq_some.mpr ⟨rfl, id.valid⟩

theorem ownName_injective {left right : Text} (same : ownName left = ownName right) :
    left = right := by
  exact List.append_cancel_right (List.append_cancel_left same)

/-! ## Adopted names -/

structure AdoptedParts (name : Name) (id digits : Text) (state : AdoptedState) : Prop where
  eq : name = "r-".toList ++ (id ++ (".d".toList ++ (digits ++ (".".toList ++
    ([state.letter] ++ ".md".toList)))))
  valid : validReportId id = true
  nonempty : digits ≠ []
  short : Text.len digits ≤ 12
  digit : digits.all isDigit = true

variable {state : AdoptedState}

theorem AdoptedState.letter_of_fromLetter {letter : Char} (found : fromLetter letter = some state) :
    state.letter = letter := by
  simp only [fromLetter] at found
  split_ifs at found <;> cases found <;> simp only [AdoptedState.letter, *]

theorem parts_of_parseAdoptedName {deadline : ℤ}
    (found : parseAdoptedName name = some (id, deadline, state)) :
    ∃ digits, AdoptedParts name id digits state ∧
      deadline = (Nat.ofDigitChars 10 digits 0 : ℤ) := by
  simp only [parseAdoptedName, bind, Option.bind_eq_some_iff, stripPrefix_eq_some,
    stripSuffix_eq_some] at found
  rcases found with ⟨_, rfl, rest, rfl, ⟨head, letters⟩, split, letter, begins, other, known, kept⟩
  split at kept
  · rename_i one
    rw [Option.bind_eq_some_iff] at kept
    rcases kept with ⟨⟨front, digits⟩, parted, kept⟩
    split at kept
    · rename_i filled
      split at kept
      · rename_i valid
        cases kept
        simp only [Bool.and_eq_true, Bool.not_eq_true', List.isEmpty_eq_false_iff,
          decide_eq_true_eq] at filled
        have only : letters = [state.letter] := by
          cases letters with
          | nil => cases begins
          | cons first more =>
            cases begins
            rw [List.tail_cons, List.isEmpty_iff] at one
            rw [one, AdoptedState.letter_of_fromLetter known]
        refine ⟨digits, ⟨?_, valid, filled.1.1, filled.1.2, filled.2⟩, rfl⟩
        have whole := append_of_rsplitOnce parted
        simp only at whole
        rw [append_of_rsplitOnce split, whole, only]
        simp only [List.append_assoc]
      · cases kept
    · cases kept
  · cases kept

/-! ## The families are apart -/

theorem parseOwnName_of_adopted {deadline : ℤ}
    (found : parseAdoptedName name = some (id, deadline, state)) : parseOwnName name = none := by
  rcases parts_of_parseAdoptedName found with ⟨digits, parts, -⟩
  rw [Option.eq_none_iff_forall_ne_some]
  intro other own
  rcases parseOwnName_eq_some.mp own with ⟨same, valid⟩
  have dot : '.' ∈ other := by
    have inner : other ++ ".md".toList = (id ++ (".d".toList ++ (digits ++ (".".toList ++
        [state.letter])))) ++ ".md".toList := by
      have whole := List.append_cancel_left (parts.eq.symm.trans same)
      simp only [List.append_assoc] at whole ⊢
      exact whole.symm
    rw [List.append_cancel_right inner]
    exact List.mem_append_right _ (List.mem_append_left _ (by decide))
  exact not_mem_of_valid valid (by decide) dot

@[simp]
theorem parseAdoptedName_ownName (id : ReportId) : parseAdoptedName (ownName id.text) = none := by
  rw [Option.eq_none_iff_forall_ne_some]
  rintro ⟨other, deadline, state⟩ found
  have absent := parseOwnName_of_adopted found
  rw [parseOwnName_ownName] at absent
  cases absent

theorem isTempName_w (temp : isTempName name) : ∃ rest, name = "w-".toList ++ rest := by
  simp only [isTempName, bind, Option.any_eq_true, Option.bind_eq_some_iff,
    stripPrefix_eq_some] at temp
  rcases temp with ⟨_, ⟨rest, same, _⟩, _⟩
  exact ⟨rest, same⟩

theorem isTempName_r (rest : Text) : isTempName ("r-".toList ++ rest) = false := by
  by_contra other
  rw [Bool.not_eq_false] at other
  rcases isTempName_w other with ⟨tail, same⟩
  cases same

@[simp]
theorem isTempName_ownName (id : Text) : isTempName (ownName id) = false := isTempName_r _

theorem isTempName_of_adopted {deadline : ℤ}
    (found : parseAdoptedName name = some (id, deadline, state)) : isTempName name = false := by
  rcases parts_of_parseAdoptedName found with ⟨digits, parts, -⟩
  rw [parts.eq]
  exact isTempName_r _

@[simp]
theorem parseOwnName_tempName (id : Text) (tag : Tag) : parseOwnName (tempName id tag) = none := by
  rw [Option.eq_none_iff_forall_ne_some]
  intro other own
  have same := (parseOwnName_eq_some.mp own).1
  cases same

@[simp]
theorem parseAdoptedName_tempName (id : Text) (tag : Tag) :
    parseAdoptedName (tempName id tag) = none := by
  rw [Option.eq_none_iff_forall_ne_some]
  rintro ⟨other, deadline, state⟩ found
  rcases parts_of_parseAdoptedName found with ⟨digits, parts, -⟩
  have same := parts.eq
  cases same

theorem ownName_ne_tempName (id other : Text) (tag : Tag) : ownName id ≠ tempName other tag := by
  intro same
  cases same

end AgentDeck.Retained
