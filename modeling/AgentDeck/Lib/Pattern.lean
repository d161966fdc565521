import Mathlib.Data.List.Infix
import Mathlib.Data.List.TakeWhile
import Mathlib.Tactic.Common

/-!
# Patterns over lists

A pattern is a list of pieces: greedy repetitions of a class of elements and word boundaries.
`matchAt` tries a pattern where a text begins, the longest repetition first and back from there,
and answers the segment each piece took. `search` finds the leftmost match, and `replaceAll`
replaces the leftmost matches that do not overlap.

The second half says when replacing removes a word for good (`word_of_replaceAll`): an occurrence
of the word in the result was in the text already, at a place that the pattern does not match.
-/

universe u

/-- One piece of a pattern. -/
inductive Piece (α : Type u)
  | rep (accepts : α → Bool) (least : ℕ) (most : Option ℕ)
  | boundary (isWord : α → Bool)

namespace Pattern

variable {α : Type u}

/-- One element of a class. -/
def one (accepts : α → Bool) : Piece α := .rep accepts 1 (some 1)

/-- Exactly `count` elements of a class. -/
def exactly (count : ℕ) (accepts : α → Bool) : Piece α := .rep accepts count (some count)

/-- The elements of `word` in any of the spellings `spells` admits. -/
def spelled (spells : α → α → Bool) (word : List α) : List (Piece α) :=
  word.map fun a => one (spells a)

/-- Exactly the elements of `word`. -/
def literal [DecidableEq α] (word : List α) : List (Piece α) :=
  spelled (fun a b => decide (b = a)) word

/-- The longest run of a class where a text begins. -/
def runLength (accepts : α → Bool) (most : Option ℕ) (text : List α) : ℕ :=
  match most with
  | none => (text.takeWhile accepts).length
  | some bound => min bound (text.takeWhile accepts).length

/-- The first success from `count` down to `least`. -/
def longest {β : Type u} (least : ℕ) (attempt : ℕ → Option β) : ℕ → Option β
  | 0 => if least = 0 then attempt 0 else none
  | count + 1 =>
    if count + 1 < least then none else (attempt (count + 1)).or (longest least attempt count)

/-- The element before what follows `text`. -/
def lastOr (before : Option α) (text : List α) : Option α := text.getLast?.or before

/-- Between the two neighbours one is in a word and the other is not. -/
def isBoundary (isWord : α → Bool) (before after : Option α) : Bool :=
  before.any isWord != after.any isWord

/-- The segments the pieces take of a text, where it begins. -/
def matchAt : List (Piece α) → Option α → List α → Option (List (List α))
  | [], _, _ => some []
  | .rep accepts least most :: rest, before, text =>
    longest least (fun count =>
      (matchAt rest (lastOr before (text.take count)) (text.drop count)).map
        (text.take count :: ·)) (runLength accepts most text)
  | .boundary isWord :: rest, before, text =>
    if isBoundary isWord before text.head? then (matchAt rest before text).map ([] :: ·)
    else none

/-- A match of a pattern in a text: what is before it, its segments, and what follows. -/
structure Match (α : Type u) where
  skipped : List α
  segments : List (List α)
  rest : List α

/-- The leftmost match. -/
def search (pieces : List (Piece α)) (before : Option α) (text : List α) : Option (Match α) :=
  match matchAt pieces before text with
  | some segments => some ⟨[], segments, text.drop segments.flatten.length⟩
  | none =>
    match text with
    | [] => none
    | a :: rest =>
      (search pieces (some a) rest).map fun found =>
        { found with skipped := a :: found.skipped }

/-- Replace the leftmost matches that do not overlap, of a pattern that takes at least one element.
`skip` elements are left of the last match. -/
def replaceFrom (pieces : List (Piece α)) (f : List α → List α) :
    Option α → ℕ → List α → List α
  | _, _, [] => []
  | _, skip + 1, a :: rest => replaceFrom pieces f (some a) skip rest
  | before, 0, a :: rest =>
    match matchAt pieces before (a :: rest) with
    | some segments =>
      f segments.flatten ++ replaceFrom pieces f (some a) (segments.flatten.length - 1) rest
    | none => a :: replaceFrom pieces f (some a) 0 rest

/-- Replace every match by `f` of what it matched. -/
def replaceAll (pieces : List (Piece α)) (f : List α → List α) (text : List α) : List α :=
  replaceFrom pieces f none 0 text

/-! ## What a piece takes -/

variable {least count : ℕ}

theorem longest_of_lt {β : Type u} (attempt : ℕ → Option β) (below : count < least) :
    longest least attempt count = none := by
  cases count with
  | zero => simp [longest, Nat.ne_of_gt below]
  | succ count => simp [longest, below]

theorem longest_self {β : Type u} (least : ℕ) (attempt : ℕ → Option β) :
    longest least attempt least = attempt least := by
  cases least with
  | zero => rfl
  | succ least => simp [longest, longest_of_lt attempt (Nat.lt_succ_self least)]

theorem longest_of_some {β : Type u} {attempt : ℕ → Option β} {found : β} (enough : least ≤ count)
    (first : attempt count = some found) : longest least attempt count = some found := by
  cases count with
  | zero => simp [longest, Nat.le_zero.mp enough, first]
  | succ count => simp [longest, Nat.not_lt.mpr enough, first]

theorem exists_of_longest {β : Type u} {attempt : ℕ → Option β} {found : β}
    (holds : longest least attempt count = some found) :
    ∃ n, least ≤ n ∧ n ≤ count ∧ attempt n = some found := by
  induction count with
  | zero =>
    simp only [longest] at holds
    split at holds
    · exact ⟨0, by omega, le_refl _, holds⟩
    · cases holds
  | succ count ih =>
    simp only [longest] at holds
    split at holds
    · cases holds
    · rcases Option.or_eq_some_iff.mp holds with first | ⟨_, later⟩
      · exact ⟨count + 1, by omega, le_refl _, first⟩
      · rcases ih later with ⟨n, least, most, found⟩
        exact ⟨n, least, by omega, found⟩

theorem matchAt_exactly (count : ℕ) (accepts : α → Bool) (rest : List (Piece α)) (before : Option α)
    (text : List α) :
    matchAt (exactly count accepts :: rest) before text =
      if count ≤ (text.takeWhile accepts).length then
        (matchAt rest (lastOr before (text.take count)) (text.drop count)).map
          (text.take count :: ·)
      else none := by
  simp only [matchAt, exactly, runLength]
  split
  · rename_i enough
    rw [Nat.min_eq_left enough, longest_self]
  · exact longest_of_lt _ (by omega)

variable {accepts : α → Bool} {rest : List (Piece α)} {text : List α} {segments : List (List α)}

/-- Exactly as many elements of the class as stand there, when the rest matches after them. -/
theorem matchAt_exactly_append {run : List α} (taken : ∀ a ∈ run, accepts a)
    (length : run.length = count) (found : ∀ before, matchAt rest before text = some segments)
    (before : Option α) :
    matchAt (exactly count accepts :: rest) before (run ++ text) = some (run :: segments) := by
  have enough : count ≤ ((run ++ text).takeWhile accepts).length := by
    rw [List.takeWhile_append_of_pos taken, List.length_append]
    omega
  rw [matchAt_exactly, if_pos enough, ← length, List.take_left, List.drop_left, found,
    Option.map_some]

variable {before : Option α}

/-- What an exact repetition took: that many elements of the class. -/
theorem exists_of_matchAt_exactly
    (found : matchAt (exactly count accepts :: rest) before text = some segments) :
    ∃ run later before' after, segments = run :: later ∧ run.length = count ∧
      (∀ a ∈ run, accepts a = true) ∧ matchAt rest before' after = some later := by
  rw [matchAt_exactly] at found
  split at found
  · rename_i enough
    rcases Option.map_eq_some_iff.mp found with ⟨later, matched, rfl⟩
    have within : text.take count = (text.takeWhile accepts).take count := by
      have begins := List.takeWhile_prefix accepts (l := text)
      rw [List.prefix_iff_eq_take.mp begins, List.take_take, Nat.min_eq_left enough]
    refine ⟨_, later, _, _, rfl, ?_, ?_, matched⟩
    · rw [within, List.length_take, Nat.min_eq_left enough]
    · intro a mem
      rw [within] at mem
      exact List.mem_takeWhile_imp (List.mem_of_mem_take mem)
  · cases found

theorem matchAt_one_cons (accepts : α → Bool) (rest : List (Piece α)) (before : Option α) (a : α)
    (text : List α) :
    matchAt (one accepts :: rest) before (a :: text) =
      if accepts a then (matchAt rest (some a) text).map ([a] :: ·) else none := by
  have exact := matchAt_exactly 1 accepts rest before (a :: text)
  simp only [exactly] at exact
  simp only [one, exact]
  rcases taken : accepts a with _ | _
  · simp [taken]
  · simp [taken, lastOr]

theorem matchAt_one_nil (accepts : α → Bool) (rest : List (Piece α)) (before : Option α) :
    matchAt (one accepts :: rest) before [] = none := by
  simp [one, matchAt, runLength, longest]

theorem lastOr_cons (before : Option α) (a : α) (text : List α) :
    lastOr (some a) text = lastOr before (a :: text) := by
  cases text <;> simp [lastOr, List.getLast?_cons]

/-- A literal is matched exactly where the text begins with it. -/
theorem matchAt_literal [DecidableEq α] (word : List α) (rest : List (Piece α)) (before : Option α)
    (text : List α) :
    matchAt (literal word ++ rest) before text =
      if word <+: text then
        (matchAt rest (lastOr before word) (text.drop word.length)).map
          (word.map (fun a => [a]) ++ ·)
      else none := by
  induction word generalizing before text with
  | nil => simp [literal, spelled, lastOr]
  | cons a word ih =>
    cases text with
    | nil => simp [literal, spelled, matchAt_one_nil]
    | cons b text =>
      have last := lastOr_cons before b word
      simp only [literal, spelled, List.map_cons, List.cons_append] at ih ⊢
      rw [matchAt_one_cons]
      by_cases same : b = a
      · subst same
        simp only [decide_true, ↓reduceIte, ih, List.cons_prefix_cons, true_and, last]
        split <;> simp [Function.comp_def]
      · have differ : ¬ a = b := fun h => same h.symm
        simp [same, differ]

/-- A literal is taken where it stands, when the rest matches after it. -/
theorem matchAt_literal_append [DecidableEq α] (word : List α)
    (found : ∀ before, matchAt rest before text = some segments) (before : Option α) :
    matchAt (literal word ++ rest) before (word ++ text) =
      some (word.map (fun a => [a]) ++ segments) := by
  rw [matchAt_literal, if_pos (List.prefix_append word text), List.drop_left, found,
    Option.map_some]

theorem exists_of_matchAt_literal [DecidableEq α] {word : List α}
    (found : matchAt (literal word ++ rest) before text = some segments) :
    ∃ later before' after, segments = word.map (fun a => [a]) ++ later ∧
      matchAt rest before' after = some later := by
  rw [matchAt_literal] at found
  split at found
  · rcases Option.map_eq_some_iff.mp found with ⟨later, matched, rfl⟩
    exact ⟨later, _, _, rfl, matched⟩
  · cases found

theorem flatten_map_singleton (word : List α) : (word.map fun a => [a]).flatten = word := by
  induction word with
  | nil => rfl
  | cons a word ih => simp [ih]

/-- The matched segments are where the text begins. -/
theorem flatten_prefix {pieces : List (Piece α)}
    (found : matchAt pieces before text = some segments) : segments.flatten <+: text := by
  induction pieces generalizing before text segments with
  | nil =>
    simp only [matchAt, Option.some.injEq] at found
    subst found
    simp
  | cons piece rest ih =>
    cases piece with
    | rep accepts least most =>
      rcases exists_of_longest found with ⟨n, _, _, holds⟩
      rcases Option.map_eq_some_iff.mp holds with ⟨later, matched, rfl⟩
      have here := List.prefix_append_right_inj (text.take n) |>.mpr (ih matched)
      rwa [List.take_append_drop] at here
    | boundary isWord =>
      simp only [matchAt] at found
      split at found
      · rcases Option.map_eq_some_iff.mp found with ⟨later, matched, rfl⟩
        simpa using ih matched
      · cases found

/-- A repetition takes the whole run of its class when the rest matches after it. -/
theorem matchAt_run {most : Option ℕ} {run : List α} (taken : ∀ a ∈ run, accepts a)
    (stops : ∀ a ∈ text.head?, accepts a = false) (enough : least ≤ run.length)
    (fits : ∀ bound ∈ most, run.length ≤ bound)
    (found : matchAt rest (lastOr before run) text = some segments) :
    matchAt (.rep accepts least most :: rest) before (run ++ text) = some (run :: segments) := by
  have stopped : text.takeWhile accepts = [] := by
    cases text with
    | nil => rfl
    | cons a text => simp [stops a (by simp)]
  have runs : (run ++ text).takeWhile accepts = run := by
    rw [List.takeWhile_append_of_pos taken, stopped, List.append_nil]
  have length : runLength accepts most (run ++ text) = run.length := by
    cases most with
    | none => simp [runLength, runs]
    | some bound => simp [runLength, runs, Nat.min_eq_right (fits bound rfl)]
  simp only [matchAt, length]
  apply longest_of_some enough
  simp [found]

/-- A word that spells itself is taken where it stands. -/
theorem isSome_matchAt_spelled {spells : α → α → Bool} (self : ∀ a, spells a a)
    {word : List α} (later : (matchAt rest (lastOr before word) text).isSome) :
    (matchAt (spelled spells word ++ rest) before (word ++ text)).isSome := by
  induction word generalizing before with
  | nil => simpa [spelled, lastOr] using later
  | cons a word ih =>
    simp only [spelled, List.map_cons, List.cons_append, matchAt_one_cons, self, ↓reduceIte,
      Option.isSome_map]
    apply ih
    rwa [lastOr_cons before]

theorem isSome_matchAt_run {run : List α} (taken : ∀ a ∈ run, accepts a)
    (stops : ∀ a ∈ text.head?, accepts a = false) (enough : least ≤ run.length)
    (later : (matchAt rest (lastOr before run) text).isSome) :
    (matchAt (.rep accepts least none :: rest) before (run ++ text)).isSome = true := by
  rcases Option.isSome_iff_exists.mp later with ⟨segments, found⟩
  rw [matchAt_run taken stops enough (by simp) found]
  rfl

/-- What a spelled word took is a spelling of it. -/
theorem spells_of_matchAt {spells : α → α → Bool} {word : List α}
    (found : matchAt (spelled spells word) before text = some segments) :
    List.Forall₂ (fun a b => spells a b = true) word segments.flatten := by
  induction word generalizing before text segments with
  | nil =>
    simp only [spelled, List.map_nil, matchAt, Option.some.injEq] at found
    subst found
    exact .nil
  | cons a word ih =>
    cases text with
    | nil => simp [spelled, matchAt_one_nil] at found
    | cons b text =>
      simp only [spelled, List.map_cons, matchAt_one_cons] at found
      split at found
      · rename_i same
        rcases Option.map_eq_some_iff.mp found with ⟨later, matched, rfl⟩
        exact .cons same (ih matched)
      · cases found

/-! ## Where the leftmost match is -/

theorem search_eq_none {pieces : List (Piece α)}
    (nowhere : ∀ before' front back, text = front ++ back → matchAt pieces before' back = none) :
    search pieces before text = none := by
  induction text generalizing before with
  | nil => simp [search, nowhere before [] [] rfl]
  | cons a text ih =>
    have later : search pieces (some a) text = none := by
      apply ih
      intro before' front back split
      exact nowhere before' (a :: front) back (by simp [split])
    simp [search, nowhere before [] (a :: text) rfl, later]

/-- The leftmost match is the one with none before it. -/
theorem search_eq_some {pieces : List (Piece α)} {front : List α}
    (notBefore : ∀ before' skipped a back, front = skipped ++ a :: back →
      matchAt pieces before' (a :: back ++ text) = none)
    (found : ∀ before', matchAt pieces before' text = some segments) :
    search pieces before (front ++ text) =
      some ⟨front, segments, text.drop segments.flatten.length⟩ := by
  induction front generalizing before with
  | nil =>
    rw [List.nil_append, search.eq_def, found before]
  | cons a front ih =>
    have here := notBefore before [] a front rfl
    rw [List.cons_append] at here ⊢
    rw [search.eq_def, here]
    simp only
    rw [ih]
    · rfl
    · intro before' skipped b back split
      exact notBefore before' (a :: skipped) b back (by simp [split])

/-! ## Words and separators -/

variable {left right : List α}

/-- A beginning of a text does not go past an element it does not hold. -/
theorem prefix_of_not_mem {word : List α} {a : α} (absent : a ∉ word)
    (begins : word <+: left ++ a :: right) : word <+: left := by
  induction word generalizing left with
  | nil => exact List.nil_prefix
  | cons b word ih =>
    simp only [List.mem_cons, not_or] at absent
    cases left with
    | nil =>
      rw [List.nil_append, List.cons_prefix_cons] at begins
      exact absurd begins.1.symm absent.1
    | cons c left =>
      rw [List.cons_append, List.cons_prefix_cons] at begins
      exact List.cons_prefix_cons.mpr ⟨begins.1, ih absent.2 begins.2⟩

/-- A word is on one side of a separator it does not hold. -/
theorem infix_or_of_not_mem {word : List α} {a : α} (absent : a ∉ word)
    (occurs : word <:+: left ++ a :: right) : word <:+: left ∨ word <:+: right := by
  induction left with
  | nil =>
    rw [List.nil_append, List.infix_cons_iff] at occurs
    rcases occurs with here | later
    · have short : word <+: [] := prefix_of_not_mem absent here
      exact Or.inl short.isInfix
    · exact Or.inr later
  | cons b left ih =>
    rw [List.cons_append, List.infix_cons_iff] at occurs
    rcases occurs with here | later
    · have short : word <+: b :: left := prefix_of_not_mem absent here
      exact Or.inl short.isInfix
    · rcases ih later with left | right
      · exact Or.inl (List.infix_cons_iff.mpr (Or.inr left))
      · exact Or.inr right

/-- Two occurrences of words that begin with `first` and hold it nowhere else do not overlap. -/
theorem prefix_of_prefix_first {first : α} {word : List α} {a : α} (once : first ∉ word)
    (begins : first :: word <+: a :: left ++ first :: right) : first :: word <+: a :: left := by
  rw [List.cons_append, List.cons_prefix_cons] at begins
  exact List.cons_prefix_cons.mpr ⟨begins.1, prefix_of_not_mem once begins.2⟩

/-! ## Words that replacing removes -/

/-- What `f` puts in place of a match cannot be part of an occurrence of `word`, whose first
element is `first`. -/
structure Inert (pieces : List (Piece α)) (f : List α → List α) (first : α) (word : List α) :
    Prop where
  replaces : ∀ before text segments, matchAt pieces before text = some segments →
    ∃ head tail, f segments.flatten = head :: tail ∧ head ∉ word ∧ first ∉ tail ∧
      ∀ after, ¬ first :: word <+: head :: tail ++ after

variable {pieces : List (Piece α)} {f : List α → List α} {first : α} {word : List α}

/-- A beginning of the result that holds no first element of a replacement began the text. -/
theorem prefix_of_replaceFrom {start : List α}
    (apart : ∀ before text segments, matchAt pieces before text = some segments →
      ∃ head tail, f segments.flatten = head :: tail ∧ head ∉ start)
    (begins : start <+: replaceFrom pieces f before 0 text) : start <+: text := by
  induction start generalizing before text with
  | nil => exact List.nil_prefix
  | cons a start ih =>
    cases text with
    | nil => simp [replaceFrom] at begins
    | cons b text =>
      simp only [replaceFrom] at begins
      split at begins
      · rename_i segments found
        rcases apart _ _ _ found with ⟨head, tail, replaced, absent⟩
        rw [replaced, List.cons_append, List.cons_prefix_cons] at begins
        exact absurd (begins.1 ▸ List.mem_cons_self) absent
      · rw [List.cons_prefix_cons] at begins ⊢
        refine ⟨begins.1, ih ?_ begins.2⟩
        intro before text segments found
        rcases apart _ _ _ found with ⟨head, tail, replaced, absent⟩
        exact ⟨head, tail, replaced, fun mem => absent (List.mem_cons_of_mem _ mem)⟩

/-- A word whose first element is not in `left` does not begin in `left`. -/
theorem infix_of_infix_append (absent : first ∉ left) (occurs : first :: word <:+: left ++ right) :
    first :: word <:+: right := by
  induction left with
  | nil => exact occurs
  | cons a left ih =>
    rw [List.cons_append, List.infix_cons_iff] at occurs
    rcases occurs with here | later
    · rw [List.cons_prefix_cons] at here
      exact absurd (here.1 ▸ List.mem_cons_self) absent
    · exact ih (fun mem => absent (List.mem_cons_of_mem _ mem)) later

variable (inert : Inert pieces f first word)

include inert

/-- An occurrence of the word in the result was in the text, where the pattern does not match. -/
theorem word_of_replaceFrom {skip : ℕ}
    (occurs : first :: word <:+: replaceFrom pieces f before skip text) :
    ∃ front back, text = front ++ first :: word ++ back ∧
      ∃ before, matchAt pieces before (first :: word ++ back) = none := by
  induction text generalizing before skip with
  | nil => simp [replaceFrom] at occurs
  | cons a text ih =>
    have extend {before : Option α} {skip : ℕ}
        (later : first :: word <:+: replaceFrom pieces f before skip text) :
        ∃ front back, a :: text = front ++ first :: word ++ back ∧
          ∃ before, matchAt pieces before (first :: word ++ back) = none := by
      rcases ih later with ⟨front, back, rfl, unmatched⟩
      exact ⟨a :: front, back, rfl, unmatched⟩
    cases skip with
    | succ skip => exact extend occurs
    | zero =>
      simp only [replaceFrom] at occurs
      split at occurs
      · rename_i segments found
        rcases inert.replaces _ _ _ found with ⟨head, tail, replaced, _, absent, notHere⟩
        rw [replaced, List.cons_append, List.infix_cons_iff] at occurs
        rcases occurs with here | later
        · exact absurd here (notHere _)
        · exact extend (infix_of_infix_append absent later)
      · rename_i unmatched
        rw [List.infix_cons_iff] at occurs
        rcases occurs with here | later
        · rw [List.cons_prefix_cons] at here
          rcases here with ⟨rfl, begins⟩
          have began : word <+: text := by
            refine prefix_of_replaceFrom ?_ begins
            intro before text segments found
            rcases inert.replaces _ _ _ found with ⟨head, tail, replaced, absent, _⟩
            exact ⟨head, tail, replaced, absent⟩
          rcases began with ⟨back, rfl⟩
          exact ⟨[], back, rfl, _, unmatched⟩
        · exact extend later

theorem word_of_replaceAll (occurs : first :: word <:+: replaceAll pieces f text) :
    ∃ front back, text = front ++ first :: word ++ back ∧
      ∃ before, matchAt pieces before (first :: word ++ back) = none :=
  word_of_replaceFrom inert occurs

/-- Replacing what cannot be part of a word brings no occurrence of it in. -/
theorem not_infix_replaceAll (absent : ¬ first :: word <:+: text) :
    ¬ first :: word <:+: replaceAll pieces f text := by
  intro occurs
  rcases word_of_replaceAll inert occurs with ⟨front, back, rfl, _⟩
  exact absent (List.infix_append front (first :: word) back)

/-- Replacing every place the word stands leaves none. -/
theorem not_infix_of_always
    (always : ∀ before back, matchAt pieces before (first :: word ++ back) ≠ none) (text : List α) :
    ¬ first :: word <:+: replaceAll pieces f text := by
  intro occurs
  rcases word_of_replaceAll inert occurs with ⟨front, back, _, before, unmatched⟩
  exact always before back unmatched

end Pattern
