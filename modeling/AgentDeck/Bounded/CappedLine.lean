import AgentDeck.OneShot.Sends

/-!
# Capped lines

`CappedLine::read` assembles a line over the fills of a reader and over calls that are dropped while
they wait for one. What the calls answer depends on the bytes alone: it is what splitting them at
the newlines gives, except that the carriage return of a last line that no newline ends is lost.
-/

namespace AgentDeck.Bounded

open OneShot (Fill consume Delivers newline)

abbrev carriageReturn : UInt8 := 13

/-! ## The reader -/

inductive CappedLineError
  | tooLong (limit lineBytes : ℕ)
  | io
  | invalidData
deriving DecidableEq

inductive Answer
  | cancelled
  | eof
  | line (text : String)
  | error (e : CappedLineError)
deriving DecidableEq

/-- A call of `read`: its answer, `buf` after it and what `buf` held at most, and the fills left. -/
structure Call where
  answer : Answer
  buf : List UInt8
  peak : ℕ
  left : List Fill

def stripCr (buf : List UInt8) : List UInt8 :=
  if buf.getLast? = some carriageReturn then buf.dropLast else buf

def fromUtf8 (buf : List UInt8) : Option String := String.fromUTF8? ⟨buf.toArray⟩

def finish (buf : List UInt8) : Answer :=
  match fromUtf8 (stripCr buf) with
  | some text => .line text
  | none => .error .invalidData

def atEnd (buf : List UInt8) : Answer := if buf = [] then .eof else finish buf

/-- The caller may drop the call while it waits: `interrupted`. -/
def read (max : ℕ) (buf : List UInt8) : List Fill → Call
  | [] => ⟨atEnd buf, [], buf.length, []⟩
  | .interrupted :: fills => ⟨.cancelled, buf, buf.length, fills⟩
  | .failed :: fills => ⟨.error .io, [], buf.length, fills⟩
  | .bytes available :: fills =>
    if available = [] then ⟨atEnd buf, [], buf.length, fills⟩
    else
      match Lines.position newline available with
      | some place =>
        if max < buf.length + place then
          ⟨.error (.tooLong max (buf.length + place)), [], buf.length, .bytes available :: fills⟩
        else
          ⟨finish (buf ++ available.take place), [], buf.length + place,
            consume (available.drop (place + 1)) fills⟩
      | none =>
        if max < buf.length + available.length then
          ⟨.error (.tooLong max (buf.length + available.length)), [], buf.length,
            .bytes available :: fills⟩
        else read max (buf ++ available) fills

/-! ## The answers of many calls -/

/-- An answer but for how long a refused line was known to be. -/
inductive Outcome
  | eof
  | line (text : String)
  | tooLong
  | io
  | invalidData
deriving DecidableEq

def CappedLineError.outcome : CappedLineError → Outcome
  | .tooLong _ _ => .tooLong
  | .io => .io
  | .invalidData => .invalidData

/-- What this many calls answer, up to the first error or the end. -/
def results (max : ℕ) : ℕ → List UInt8 → List Fill → List Outcome
  | 0, _, _ => []
  | n + 1, buf, fills =>
    match read max buf fills with
    | ⟨.cancelled, buf, _, left⟩ => results max n buf left
    | ⟨.line text, buf, _, left⟩ => .line text :: results max n buf left
    | ⟨.eof, _, _, _⟩ => [.eof]
    | ⟨.error e, _, _, _⟩ => [e.outcome]

/-- A line of these bytes, shown as `shown`, and what comes after it. -/
def outcomes (max : ℕ) (text shown : List UInt8) (later : List Outcome) : List Outcome :=
  if max < text.length then [.tooLong]
  else
    match fromUtf8 shown with
    | some line => .line line :: later
    | none => [.invalidData]

/-- The lines that a newline ends, and a last one shown as `last` shows it. -/
def splits (max : ℕ) (last : List UInt8 → List UInt8) :
    List (List UInt8) → List UInt8 → List Outcome
  | [], rest => if rest = [] then [.eof] else outcomes max rest (last rest) [.eof]
  | text :: texts, rest => outcomes max text (stripCr text) (splits max last texts rest)

/-- The bytes split at the newlines, as `Lines` splits them. -/
def splitLines (max : ℕ) (bytes : List UInt8) : List Outcome :=
  splits max id (Lines.parts newline bytes).1 (Lines.parts newline bytes).2

/-- Every line that a newline ends is accepted, and the last one, which none ends, is too and ends
in a carriage return. -/
def EndsInCr (max : ℕ) (bytes : List UInt8) : Prop :=
  (∀ text ∈ (Lines.parts newline bytes).1,
    text.length ≤ max ∧ (fromUtf8 (stripCr text)).isSome) ∧
  (Lines.parts newline bytes).2.getLast? = some carriageReturn ∧
  (Lines.parts newline bytes).2.length ≤ max ∧ (fromUtf8 (Lines.parts newline bytes).2).isSome

/-! ## UTF-8 and the carriage return -/

theorem fromUtf8_inj {one other : List UInt8} {text : String} (first : fromUtf8 one = some text)
    (second : fromUtf8 other = some text) : one = other := by
  simp only [fromUtf8, String.fromUTF8?] at first second
  split at first
  · split at second
    · have same := (Option.some.inj first).trans (Option.some.inj second).symm
      exact congrArg (fun s => s.toByteArray.data.toList) same
    · cases second
  · cases first

/-- A line is UTF-8 with a carriage return where it is without. -/
theorem isSome_of_stripCr {buf : List UInt8} (stripped : (fromUtf8 (stripCr buf)).isSome) :
    (fromUtf8 buf).isSome := by
  simp only [stripCr] at stripped
  split at stripped
  · rename_i last
    rcases List.getLast?_eq_some_iff.mp last with ⟨before, rfl⟩
    rw [List.dropLast_concat] at stripped
    simp only [fromUtf8, String.fromUTF8?] at stripped ⊢
    split at stripped
    · rename_i valid
      have pushed := valid.push (c := '\r') rfl
      have same : (⟨before.toArray⟩ : ByteArray).push '\r'.toUInt8 =
          ⟨(before ++ [carriageReturn]).toArray⟩ :=
        congrArg ByteArray.mk (List.push_toArray before carriageReturn)
      rw [dif_pos (same ▸ pushed)]
      rfl
    · cases stripped
  · exact stripped

variable {max : ℕ} {buf bytes first later : List UInt8} {fills : List Fill}

/-! ## What the calls answer -/

theorem splits_long {last : List UInt8 → List UInt8} (free : newline ∉ first)
    (long : max < first.length) :
    splits max last (Lines.parts newline (first ++ later)).1
      (Lines.parts newline (first ++ later)).2 = [.tooLong] := by
  rw [Lines.parts_prepend free]
  rcases Lines.parts newline later with ⟨_ | ⟨text, texts⟩, rest⟩
  · have nonempty : first ++ rest ≠ [] := by
      intro absent
      rw [(List.append_eq_nil_iff.mp absent).1] at long
      exact Nat.not_lt_zero max long
    simp only [splits, if_neg nonempty, outcomes, List.length_append]
    rw [if_pos (by omega)]
  · simp only [splits, outcomes, List.length_append]
    rw [if_pos (by omega)]

theorem results_finish {text : List UInt8} {peak n : ℕ} {left : List Fill}
    (is : read max buf fills = ⟨finish text, [], peak, left⟩) (fits : text.length ≤ max) :
    results max (n + 1) buf fills = outcomes max text (stripCr text) (results max n [] left) := by
  simp only [results, is, finish, outcomes, if_neg (Nat.not_lt.mpr fits)]
  cases fromUtf8 (stripCr text) with
  | none => rfl
  | some line => rfl

/-- Enough calls answer what the bytes hold, of which `buf` was taken before. -/
def Ends (max : ℕ) (buf : List UInt8) (fills : List Fill) (bytes : List UInt8) : Prop :=
  ∃ calls, ∀ n ≥ calls, results max n buf fills =
    splits max stripCr (Lines.parts newline (buf ++ bytes)).1 (Lines.parts newline (buf ++ bytes)).2

theorem ends_at_end (free : newline ∉ buf) (fits : buf.length ≤ max) : Ends max buf [] [] := by
  refine ⟨2, ?_⟩
  intro n enough
  rcases Nat.exists_eq_add_of_le' enough with ⟨more, rfl⟩
  rw [List.append_nil, Lines.parts_of_not_mem free]
  simp only [splits]
  split
  · rename_i absent
    rw [absent]
    rfl
  · rename_i nonempty
    have is : read max buf [] = ⟨finish buf, [], buf.length, []⟩ := by
      simp only [read, atEnd, if_neg nonempty]
    exact results_finish is fits

theorem Ends.interrupted (ends : Ends max buf fills bytes) :
    Ends max buf (.interrupted :: fills) bytes := by
  rcases ends with ⟨calls, ends⟩
  refine ⟨calls + 1, ?_⟩
  intro n enough
  cases n with
  | zero => exact absurd enough (Nat.not_succ_le_zero calls)
  | succ n => exact ends n (Nat.le_of_succ_le_succ enough)

/-- A call is over at the first newline of a fill, and takes a fill without one whole. -/
theorem ends_consume (ends : ∀ buf, newline ∉ buf → buf.length ≤ max → Ends max buf fills bytes)
    (available : List UInt8) {buf : List UInt8} (free : newline ∉ buf)
    (fits : buf.length ≤ max) : Ends max buf (consume available fills) (available ++ bytes) := by
  simp only [consume]
  split
  · rename_i absent
    rw [absent]
    exact ends buf free fits
  rename_i nonempty
  rcases Lines.position_cases newline available with
    ⟨missing, chunkFree⟩ | ⟨before, after, is, chunkFree, found⟩
  · have bothFree : newline ∉ buf ++ available := by
      simp only [List.mem_append, free, chunkFree, or_self, not_false_eq_true]
    by_cases long : max < buf.length + available.length
    · refine ⟨1, ?_⟩
      intro n enough
      rcases Nat.exists_eq_add_of_le' enough with ⟨more, rfl⟩
      rw [← List.append_assoc, splits_long bothFree (by rwa [List.length_append])]
      simp only [results, read, if_neg nonempty, missing, if_pos long]
      rfl
    · have goesOn : read max buf (.bytes available :: fills) =
          read max (buf ++ available) fills := by
        simp only [read, if_neg nonempty, missing, if_neg long]
      rcases ends (buf ++ available) bothFree (by rw [List.length_append]; omega) with
        ⟨calls, ends⟩
      refine ⟨calls + 1, ?_⟩
      intro n enough
      rw [← List.append_assoc, ← ends n (by omega)]
      cases n with
      | zero => rfl
      | succ n => simp only [results, goesOn]
  · have bothFree : newline ∉ buf ++ before := by
      simp only [List.mem_append, free, chunkFree, or_self, not_false_eq_true]
    have cut : buf ++ (available ++ bytes) = (buf ++ before) ++ newline :: (after ++ bytes) := by
      rw [is]
      simp only [List.append_assoc, List.cons_append]
    have split : Lines.parts newline (buf ++ (available ++ bytes)) =
        ((buf ++ before) :: (Lines.parts newline (after ++ bytes)).1,
          (Lines.parts newline (after ++ bytes)).2) := by
      rw [cut, Lines.parts_append_sep, Lines.parts_of_not_mem bothFree]
      rfl
    simp only [Ends, split, splits]
    by_cases long : max < buf.length + before.length
    · refine ⟨1, ?_⟩
      intro n enough
      rcases Nat.exists_eq_add_of_le' enough with ⟨more, rfl⟩
      simp only [outcomes, List.length_append, if_pos long, results, read, if_neg nonempty, found]
      rfl
    · have taken : read max buf (.bytes available :: fills) =
          ⟨finish (buf ++ before), [], buf.length + before.length, consume after fills⟩ := by
        simp only [read, if_neg nonempty, found, if_neg long]
        rw [is, List.take_left, ← List.drop_drop, List.drop_left]
        rfl
      rcases ends_consume ends after List.not_mem_nil (Nat.zero_le max) with ⟨calls, rest⟩
      refine ⟨calls + 1, ?_⟩
      intro n enough
      cases n with
      | zero => exact absurd enough (Nat.not_succ_le_zero calls)
      | succ n =>
        rw [results_finish taken (by rw [List.length_append]; omega),
          rest n (Nat.le_of_succ_le_succ enough), List.nil_append]
termination_by available.length

theorem ends_delivers (delivers : Delivers fills bytes) (free : newline ∉ buf)
    (fits : buf.length ≤ max) : Ends max buf fills bytes := by
  induction delivers generalizing buf with
  | done => exact ends_at_end free fits
  | again _ ih => exact (ih free fits).interrupted
  | @more fills bytes available nonempty _ ih =>
    have ends := ends_consume (fun buf free fits => @ih buf free fits) available free fits
    rwa [consume, if_neg nonempty] at ends

/-- A call leaves no more in `buf` than `max` bytes, and none when it was not dropped. -/
theorem read_buf (fits : buf.length ≤ max) :
    (read max buf fills).peak ≤ max ∧ (read max buf fills).buf.length ≤ max ∧
      ((read max buf fills).answer ≠ .cancelled → (read max buf fills).buf = []) := by
  fun_induction read max buf fills with
  | case1 | case3 | case4 | case5 | case7 => exact ⟨fits, Nat.zero_le max, fun _ => rfl⟩
  | case2 => exact ⟨fits, fits, fun other => absurd rfl other⟩
  | case6 buf available fills nonempty place found short =>
    exact ⟨Nat.not_lt.mp short, Nat.zero_le max, fun _ => rfl⟩
  | case8 buf available fills nonempty missing short ih =>
    exact ih (by rw [List.length_append]; omega)

theorem splits_eq_iff (texts : List (List UInt8)) (rest : List UInt8) :
    splits max stripCr texts rest = splits max id texts rest ↔
      ¬((∀ text ∈ texts, text.length ≤ max ∧ (fromUtf8 (stripCr text)).isSome) ∧
        rest.getLast? = some carriageReturn ∧ rest.length ≤ max ∧ (fromUtf8 rest).isSome) := by
  induction texts with
  | nil =>
    simp only [splits, id, List.not_mem_nil, IsEmpty.forall_iff, implies_true, true_and]
    by_cases last : rest.getLast? = some carriageReturn
    · have nonempty : rest ≠ [] := by
        intro absent
        rw [absent] at last
        cases last
      have apart : stripCr rest ≠ rest := by
        simp only [stripCr, if_pos last]
        intro same
        have shorter := congrArg List.length same
        have filled := List.length_pos_iff.mpr nonempty
        rw [List.length_dropLast] at shorter
        omega
      simp only [if_neg nonempty, outcomes, last, true_and]
      by_cases long : max < rest.length
      · simp only [if_pos long, true_iff]
        exact fun fits => absurd fits.1 (Nat.not_le.mpr long)
      · simp only [if_neg long, Nat.not_lt.mp long, true_and]
        have stripped := @isSome_of_stripCr rest
        cases whole : fromUtf8 rest with
        | none =>
          rw [whole] at stripped
          cases short : fromUtf8 (stripCr rest) with
          | none => simp only [Option.isSome_none, Bool.false_eq_true, not_false_eq_true]
          | some line => exact absurd (stripped (by rw [short]; rfl)) Bool.false_ne_true
        | some line =>
          simp only [Option.isSome_some, not_true_eq_false, iff_false]
          cases short : fromUtf8 (stripCr rest) with
          | none => simp only [List.cons.injEq, reduceCtorEq, false_and, not_false_eq_true]
          | some other =>
            intro same
            cases (List.cons.inj same).1
            exact apart (fromUtf8_inj short whole)
    · have same : stripCr rest = rest := if_neg last
      simp only [same, last, false_and, not_false_eq_true]
  | cons text texts ih =>
    simp only [splits, outcomes, List.forall_mem_cons]
    by_cases long : max < text.length
    · simp only [if_pos long, true_iff]
      exact fun fits => absurd fits.1.1.1 (Nat.not_le.mpr long)
    · simp only [if_neg long, Nat.not_lt.mp long, true_and]
      cases fromUtf8 (stripCr text) with
      | none => simp only [Option.isSome_none, Bool.false_eq_true, false_and, not_false_eq_true]
      | some line => simpa only [List.cons.injEq, true_and, Option.isSome_some] using ih

/-- The calls answer what splitting the bytes at the newlines gives, wherever the fills begin and
the calls are dropped, unless the last line is accepted, ends in a carriage return and is ended by
no newline; and `buf` holds at most `max` bytes, and none after a call that was not dropped. -/
theorem capped_lines_split (max : ℕ) (fills : List Fill) (bytes : List UInt8)
    (delivers : Delivers fills bytes) :
    ((∃ calls, ∀ n ≥ calls, results max n [] fills = splitLines max bytes) ∧
      ∀ buf left, buf.length ≤ max →
        (read max buf left).peak ≤ max ∧ (read max buf left).buf.length ≤ max ∧
          ((read max buf left).answer ≠ .cancelled → (read max buf left).buf = [])) ↔
    ¬EndsInCr max bytes := by
  have answers := @splits_eq_iff max (Lines.parts newline bytes).1
    (Lines.parts newline bytes).2
  rcases ends_delivers delivers List.not_mem_nil (Nat.zero_le max) with ⟨enough, ends⟩
  refine Iff.trans ?_ answers
  refine ⟨?_, ?_⟩
  · rintro ⟨⟨calls, same⟩, _⟩
    exact (ends _ (Nat.le_max_left enough calls)).symm.trans
      (same _ (Nat.le_max_right enough calls))
  · intro same
    exact ⟨⟨enough, fun n many => (ends n many).trans same⟩, fun buf left fits => read_buf fits⟩

theorem capped_lines_split_whole :
    ∃ calls, ∀ n ≥ calls, results 4 n []
      [.bytes [97, 98], .interrupted, .bytes [13, 10, 99], .interrupted] =
        [.line "ab", .line "c", .eof] := by
  refine ((capped_lines_split 4 [.bytes [97, 98], .interrupted, .bytes [13, 10, 99], .interrupted]
    [97, 98, 13, 10, 99] ?_).mpr ?_).1
  · exact .more (List.cons_ne_nil _ _) (.again (.more (List.cons_ne_nil _ _) (.again .done)))
  · rintro ⟨_, last, _⟩
    revert last
    decide

/-- A last line `ab` and a carriage return. -/
theorem last_return_lost :
    ¬∃ calls, ∀ n ≥ calls,
      results 4 n [] [.bytes [97, 98, 13]] = splitLines 4 [97, 98, 13] := by
  rintro ⟨calls, same⟩
  have read : results 4 (calls + 2) [] [.bytes [97, 98, 13]] = [.line "ab", .eof] := rfl
  have split : splitLines 4 [97, 98, 13] = [.line "ab\r", .eof] := rfl
  have both := same (calls + 2) (Nat.le_add_right calls 2)
  rw [read, split] at both
  revert both
  decide

end AgentDeck.Bounded
