import AgentDeck.Retained.State

/-!
# A run's inventory

`write_inventory_text` and `read_inventory` of `src/retained_store.rs`: a header and one line for
each own file, as one line of JSON each. What `serde_json` writes is spelled out here; what it reads
is a parameter, of which only this is used: it reads back what it wrote.
-/

namespace AgentDeck.Retained

open Split

/-! ## JSON as `serde_json` writes it -/

/-- A character of a JSON string: quotes, backslashes and controls are escaped. -/
def escape (c : Char) : Text :=
  if c = '"' then "\\\"".toList
  else if c = '\\' then "\\\\".toList
  else if c.toNat = 0x08 then "\\b".toList
  else if c.toNat = 0x09 then "\\t".toList
  else if c.toNat = 0x0A then "\\n".toList
  else if c.toNat = 0x0C then "\\f".toList
  else if c.toNat = 0x0D then "\\r".toList
  else if c.toNat < 0x20 then
    "\\u00".toList ++ [Nat.digitChar (c.toNat / 16), Nat.digitChar (c.toNat % 16)]
  else [c]

def quote (text : Text) : Text := '"' :: (text.flatMap escape ++ ['"'])

structure InventoryHeader where
  v : ℕ
  run : Text
  maxFiles : ℕ
  count : ℕ
  deriving DecidableEq

def InventoryHeader.json (header : InventoryHeader) : Text :=
  "\x7b\"v\":".toList ++ (showInt header.v ++ (",\"run\":".toList ++ (quote header.run ++
    (",\"max_files\":".toList ++ (showInt header.maxFiles ++ (",\"count\":".toList ++
      (showInt header.count ++ "\x7d".toList)))))))

structure InventoryLine where
  n : Text
  c : ℤ
  s : Text
  t : Option ℤ
  deriving DecidableEq

/-- The time is left out when there is none. -/
def InventoryLine.json (line : InventoryLine) : Text :=
  "\x7b\"n\":".toList ++ (quote line.n ++ (",\"c\":".toList ++ (showInt line.c ++
    (",\"s\":".toList ++ (quote line.s ++ ((match line.t with
      | some t => ",\"t\":".toList ++ showInt t
      | none => []) ++ "\x7d".toList))))))

/-! ## Writing -/

namespace OwnState

def word : OwnState → Text
  | pinned => "pinned".toList
  | acknowledged _ => "acked".toList
  | recovered _ => "recovered".toList
  | orphanUnlink => "orphan_unlink".toList

def time : OwnState → Option ℤ
  | acknowledged time | recovered time => some time
  | pinned | orphanUnlink => none

def fromWord (word : Text) (time : Option ℤ) : Option OwnState :=
  match time with
  | none =>
    if word = "pinned".toList then some pinned
    else if word = "orphan_unlink".toList then some orphanUnlink
    else none
  | some time =>
    if word = "acked".toList then some (acknowledged time)
    else if word = "recovered".toList then some (recovered time)
    else none

theorem fromWord_word (state : OwnState) : fromWord state.word state.time = some state := by
  cases state <;> rfl

end OwnState

structure InventoryEntry where
  name : Name
  createdAt : ℤ
  state : OwnState
  deriving DecidableEq

def InventoryEntry.line (entry : InventoryEntry) : InventoryLine :=
  ⟨entry.name, entry.createdAt, entry.state.word, entry.state.time⟩

def inventoryVersion : ℕ := 1

def inventoryLineMax : ℕ := 256

def writeInventoryText (run : Text) (maxFiles : ℕ) (entries : List InventoryEntry) : Text :=
  let header : InventoryHeader := ⟨inventoryVersion, run, maxFiles, min entries.length (2 ^ 32 - 1)⟩
  header.json ++ ('\n' :: entries.flatMap fun entry => entry.line.json ++ ['\n'])

def StoreState.entries (st : StoreState) : List InventoryEntry :=
  st.own.entries.map fun (name, file) => ⟨name, file.createdAt, file.state⟩

/-! ## Reading -/

inductive LineResult
  | line (line rest : Text)
  | ended (trailing : Bool)
  | tooLong
  deriving DecidableEq

/-- `BoundedLines::next_line`: a line is refused before it grows past `max` bytes. -/
def nextLine (max : ℕ) (text : Text) : LineResult :=
  let line := text.takeWhile fun c => decide (c ≠ '\n')
  if max < Text.len line then .tooLong
  else
    match text.dropWhile fun c => decide (c ≠ '\n') with
    | [] => .ended !line.isEmpty
    | _ :: rest => .line line rest

inductive InventoryError
  | invalid (why : String)
  deriving DecidableEq

section Read

variable (headerOf : Text → Option InventoryHeader) (lineOf : Text → Option InventoryLine)

def readEntry (seen : List Name) (text : Text) : Except InventoryError InventoryEntry :=
  match lineOf text with
  | none => .error (.invalid "a bad entry")
  | some line =>
    if parseOwnName line.n = none ∨ line.n ∈ seen then
      .error (.invalid "an invalid or repeated name")
    else if line.c < 0 ∨ line.t.any (fun t => decide (t < 0)) then
      .error (.invalid "a negative time")
    else
      match OwnState.fromWord line.s line.t with
      | none => .error (.invalid "an unknown state")
      | some state => .ok ⟨line.n, line.c, state⟩

/-- The lines an inventory's header announces. -/
def readEntries : ℕ → List Name → Text → Except InventoryError (List InventoryEntry × Text)
  | 0, _, text => .ok ([], text)
  | count + 1, seen, text =>
    match nextLine inventoryLineMax text with
    | .tooLong => .error (.invalid "a line over its bound")
    | .ended _ => .error (.invalid "fewer lines than its count")
    | .line line rest => do
        let entry ← readEntry lineOf seen line
        let (entries, text) ← readEntries count (entry.name :: seen) rest
        return (entry :: entries, text)

def readInventory (run text : Text) : Except InventoryError (ℕ × List InventoryEntry) :=
  match nextLine inventoryLineMax text with
  | .tooLong => .error (.invalid "a line over its bound")
  | .ended _ => .error (.invalid "no header")
  | .line first rest =>
    match headerOf first with
    | none => .error (.invalid "a bad header")
    | some header =>
      if header.v ≠ inventoryVersion then .error (.invalid "an unknown version")
      else if header.run ≠ run then .error (.invalid "another run's inventory")
      else if hardMaxFiles < header.maxFiles ∨ header.maxFiles < header.count then
        .error (.invalid "a count over its bound")
      else do
        let (entries, text) ← readEntries lineOf header.count [] rest
        match nextLine inventoryLineMax text with
        | .tooLong => .error (.invalid "a line over its bound")
        | .line _ _ | .ended true => .error (.invalid "more than its count")
        | .ended false => return (header.maxFiles, entries)

end Read

/-! ## What was written is read back -/

@[simp]
theorem len_append (left right : Text) :
    Text.len (left ++ right) = Text.len left + Text.len right := by
  simp only [Text.len, List.map_append, List.sum_append]

theorem newline_not_mem_escape (c : Char) : '\n' ∉ escape c := by
  simp only [escape]
  split_ifs with _ _ _ _ newline _ _ control
  · decide
  · decide
  · decide
  · decide
  · decide
  · decide
  · decide
  · have digits : ∀ n, n < 16 → Nat.digitChar n ≠ '\n' := by decide
    intro mem
    rcases List.mem_append.mp mem with mem | mem
    · exact absurd mem (by decide)
    · simp only [List.mem_cons, List.not_mem_nil, or_false] at mem
      rcases mem with same | same
      · exact digits _ (by omega) same.symm
      · exact digits _ (Nat.mod_lt _ (by decide)) same.symm
  · intro mem
    rw [List.mem_singleton] at mem
    subst mem
    exact newline rfl

theorem newline_not_mem_quote (text : Text) : '\n' ∉ quote text := by
  intro mem
  rcases List.mem_cons.mp mem with same | mem
  · cases same
  · rcases List.mem_append.mp mem with mem | mem
    · rcases List.mem_flatMap.mp mem with ⟨c, -, inside⟩
      exact newline_not_mem_escape c inside
    · exact absurd mem (by decide)

theorem newline_not_mem_showInt (n : ℤ) : '\n' ∉ showInt n := by
  have digits : ∀ m : ℕ, '\n' ∉ Nat.toDigits 10 m := by
    intro m mem
    cases Nat.isDigit_of_mem_toDigits (by decide) (by decide) mem
  cases n with
  | ofNat m => exact digits m
  | negSucc m =>
    intro mem
    rcases List.mem_cons.mp mem with same | mem
    · cases same
    · exact digits _ mem

theorem newline_not_mem_header (header : InventoryHeader) : '\n' ∉ header.json := by
  apply List.not_mem_append (by decide)
  apply List.not_mem_append (newline_not_mem_showInt _)
  apply List.not_mem_append (by decide)
  apply List.not_mem_append (newline_not_mem_quote _)
  apply List.not_mem_append (by decide)
  apply List.not_mem_append (newline_not_mem_showInt _)
  apply List.not_mem_append (by decide)
  exact List.not_mem_append (newline_not_mem_showInt _) (by decide)

theorem newline_not_mem_line (line : InventoryLine) : '\n' ∉ line.json := by
  apply List.not_mem_append (by decide)
  apply List.not_mem_append (newline_not_mem_quote _)
  apply List.not_mem_append (by decide)
  apply List.not_mem_append (newline_not_mem_showInt _)
  apply List.not_mem_append (by decide)
  apply List.not_mem_append (newline_not_mem_quote _)
  apply List.not_mem_append _ (by decide)
  cases line.t with
  | none => exact List.not_mem_nil
  | some t => exact List.not_mem_append (by decide) (newline_not_mem_showInt t)

/-- Text of plain characters, one byte each, none of them escaped. -/
def Plain (text : Text) : Prop := ∀ c ∈ text, c.utf8Size = 1 ∧ escape c = [c]

variable {text : Text}

theorem Plain.len (plain : Plain text) : Text.len text = text.length := by
  rw [Text.len, List.map_congr_left fun c mem => (plain c mem).1, List.map_const',
    List.sum_replicate_nat, mul_one]

theorem quote_plain (plain : Plain text) : quote text = '"' :: (text ++ ['"']) := by
  have same : text.flatMap escape = text := by
    induction text with
    | nil => rfl
    | cons c text ih =>
      rw [List.flatMap_cons, (plain c List.mem_cons_self).2,
        ih fun d mem => plain d (List.mem_cons_of_mem c mem), List.singleton_append]
  rw [quote, same]

theorem Plain.quote (plain : Plain text) : Text.len (quote text) = text.length + 2 := by
  have shape : Retained.quote text = ['"'] ++ (text ++ ['"']) := quote_plain plain
  rw [shape, len_append, len_append, plain.len]
  change 1 + (text.length + 1) = _
  omega

theorem Plain.append {left right : Text} (first : Plain left) (second : Plain right) :
    Plain (left ++ right) := by
  intro c mem
  rcases List.mem_append.mp mem with mem | mem
  · exact first c mem
  · exact second c mem

variable {c : Char}

theorem utf8Size_eq_one (small : c.toNat ≤ 127) : c.utf8Size = 1 := by
  have bound : c.val ≤ 127 := UInt32.le_iff_toNat_le.mpr small
  simp [Char.utf8Size, bound]

theorem escape_eq_self (quote : c ≠ '"') (backslash : c ≠ '\\') (visible : 0x20 ≤ c.toNat) :
    escape c = [c] := by
  unfold escape
  rw [if_neg quote, if_neg backslash, if_neg (by omega), if_neg (by omega), if_neg (by omega),
    if_neg (by omega), if_neg (by omega), if_neg (by omega)]

theorem plain_of_bounds (bounds : ∀ c ∈ text, c ≠ '"' ∧ c ≠ '\\' ∧ 0x20 ≤ c.toNat ∧ c.toNat ≤ 127) :
    Plain text := by
  intro c mem
  rcases bounds c mem with ⟨quote, backslash, least, most⟩
  exact ⟨utf8Size_eq_one most, escape_eq_self quote backslash least⟩

theorem isReportChar_bounds (holds : isReportChar c) :
    c ≠ '"' ∧ c ≠ '\\' ∧ 0x20 ≤ c.toNat ∧ c.toNat ≤ 127 := by
  have least : ∀ d : Char, d ≤ c → d.toNat ≤ c.toNat := fun d le => UInt32.le_iff_toNat_le.mp le
  have most : ∀ d : Char, c ≤ d → c.toNat ≤ d.toNat := fun d le => UInt32.le_iff_toNat_le.mp le
  refine ⟨?_, ?_, ?_⟩
  · rintro rfl
    cases holds
  · rintro rfl
    cases holds
  · simp only [isReportChar, Bool.or_eq_true, Bool.and_eq_true, decide_eq_true_eq] at holds
    rcases holds with (⟨first, last⟩ | ⟨first, last⟩) | same
    · exact ⟨(by decide : 0x20 ≤ '0'.toNat).trans (least '0' first),
        (most '9' last).trans (by decide)⟩
    · exact ⟨(by decide : 0x20 ≤ 'a'.toNat).trans (least 'a' first),
        (most 'z' last).trans (by decide)⟩
    · rw [same]
      decide

theorem plain_char (holds : isReportChar c) : c.utf8Size = 1 ∧ escape c = [c] := by
  rcases isReportChar_bounds holds with ⟨quote, backslash, least, most⟩
  exact ⟨utf8Size_eq_one most, escape_eq_self quote backslash least⟩

theorem plain_reportId {id : Text} (valid : validReportId id) : Plain id := by
  simp only [validReportId, Bool.and_eq_true, List.all_eq_true] at valid
  exact fun c mem => plain_char (valid.2 c mem)

theorem plain_of_all {word : Text} (all : word.all (fun c => decide (c ≠ '"' ∧ c ≠ '\\' ∧
    0x20 ≤ c.toNat ∧ c.toNat ≤ 127)) = true) : Plain word := by
  simp only [List.all_eq_true, decide_eq_true_eq] at all
  exact plain_of_bounds all

theorem plain_word (state : OwnState) : Plain state.word ∧ state.word.length ≤ 13 := by
  have acked : Plain "acked".toList ∧ "acked".toList.length ≤ 13 :=
    ⟨plain_of_all (by decide), by decide⟩
  have recovered : Plain "recovered".toList ∧ "recovered".toList.length ≤ 13 :=
    ⟨plain_of_all (by decide), by decide⟩
  cases state with
  | pinned => exact ⟨plain_of_all (by decide), by decide⟩
  | acknowledged time => exact acked
  | recovered time => exact recovered
  | orphanUnlink => exact ⟨plain_of_all (by decide), by decide⟩

theorem plain_ownName {id : Text} (valid : validReportId id) :
    Plain (ownName id) ∧ (ownName id).length ≤ 69 := by
  have inId := plain_reportId valid
  constructor
  · exact (plain_of_all (by decide)).append (inId.append (plain_of_all (by decide)))
  · have short : Text.len id ≤ 64 := by
      simp only [validReportId, Bool.and_eq_true, decide_eq_true_eq] at valid
      exact valid.1.2
    rw [inId.len] at short
    unfold ownName
    rw [List.length_append, List.length_append]
    change 2 + (id.length + 3) ≤ 69
    omega

/-- A time an `i64` holds, not before the epoch. -/
def IsWall (time : ℤ) : Prop := 0 ≤ time ∧ time < 2 ^ 63

theorem len_showInt {n : ℤ} (wall : IsWall n) : Text.len (showInt n) ≤ 19 := by
  rcases Int.eq_ofNat_of_zero_le wall.1 with ⟨m, rfl⟩
  have small : m < 10 ^ 19 := by
    have below := wall.2
    omega
  have plain : Plain (Nat.toDigits 10 m) := by
    intro c mem
    have digit := Nat.isDigit_of_mem_toDigits (by decide) (by decide) mem
    simp only [Char.isDigit, Bool.and_eq_true, decide_eq_true_eq] at digit
    have report : isReportChar c := by
      simp only [isReportChar, Bool.or_eq_true, Bool.and_eq_true, decide_eq_true_eq]
      exact Or.inl (Or.inl digit)
    exact plain_char report
  change Text.len (Nat.toDigits 10 m) ≤ 19
  rw [plain.len]
  exact (Nat.length_toDigits_le_iff (by decide) (by decide)).mpr small

/-- An entry as a run lists its own files. -/
structure Listable (entry : InventoryEntry) : Prop where
  named : ∃ id, validReportId id = true ∧ entry.name = ownName id
  created : IsWall entry.createdAt
  timed : ∀ time ∈ entry.state.time, IsWall time

theorem Listable.len_line {entry : InventoryEntry} (listable : Listable entry) :
    Text.len entry.line.json ≤ inventoryLineMax := by
  rcases listable.named with ⟨id, valid, named⟩
  have name : Text.len (quote entry.name) ≤ 71 := by
    have plain := plain_ownName valid
    rw [named, plain.1.quote]
    omega
  have created := len_showInt listable.created
  have word : Text.len (quote entry.state.word) ≤ 15 := by
    have plain := plain_word entry.state
    rw [plain.1.quote]
    omega
  have time : Text.len (match entry.state.time with
      | some t => ",\"t\":".toList ++ showInt t
      | none => []) ≤ 24 := by
    cases timed : entry.state.time with
    | none => exact Nat.zero_le _
    | some t =>
      have short := len_showInt (listable.timed t timed)
      rw [len_append]
      change 5 + _ ≤ 24
      omega
  unfold InventoryLine.json
  rw [len_append, len_append, len_append, len_append, len_append, len_append, len_append]
  change 5 + (Text.len (quote entry.name) + (5 + (Text.len (showInt entry.createdAt) + (5 +
    (Text.len (quote entry.state.word) + (Text.len (match entry.state.time with
      | some t => ",\"t\":".toList ++ showInt t
      | none => []) + 1)))))) ≤ 256
  omega

theorem plain_runId {run : Text} (valid : validRunId run) : Plain run ∧ run.length = 32 := by
  simp only [validRunId, Bool.and_eq_true, Bool.or_eq_true, decide_eq_true_eq,
    List.all_eq_true] at valid
  have plain : Plain run := by
    intro c mem
    apply plain_char
    simp only [isReportChar, Bool.or_eq_true, Bool.and_eq_true, decide_eq_true_eq]
    rcases valid.2 c mem with digit | ⟨first, last⟩
    · exact Or.inl (Or.inl digit)
    · exact Or.inl (Or.inr ⟨first, last.trans (by decide)⟩)
  exact ⟨plain, plain.len ▸ valid.1⟩

theorem len_header {run : Text} (valid : validRunId run) {maxFiles count : ℕ}
    (bounded : maxFiles ≤ hardMaxFiles) (few : count ≤ maxFiles) :
    Text.len (InventoryHeader.json ⟨inventoryVersion, run, maxFiles, count⟩) ≤
      inventoryLineMax := by
  have wall : ∀ n : ℕ, n ≤ hardMaxFiles → Text.len (showInt n) ≤ 19 := by
    intro n small
    apply len_showInt
    simp only [hardMaxFiles] at small
    constructor <;> omega
  have version := wall inventoryVersion (by decide)
  have most := wall maxFiles bounded
  have counted := wall count (few.trans bounded)
  have name : Text.len (quote run) = 34 := by
    have plain := plain_runId valid
    rw [plain.1.quote, plain.2]
  unfold InventoryHeader.json
  rw [len_append, len_append, len_append, len_append, len_append, len_append, len_append,
    len_append]
  change 5 + (Text.len (showInt inventoryVersion) + (7 + (Text.len (quote run) + (13 +
    (Text.len (showInt maxFiles) + (9 + (Text.len (showInt count) + 1))))))) ≤ 256
  omega

theorem nextLine_append {max : ℕ} {line : Text} (whole : '\n' ∉ line) (short : Text.len line ≤ max)
    (rest : Text) : nextLine max (line ++ '\n' :: rest) = .line line rest := by
  have inside : ∀ c ∈ line, decide (c ≠ '\n') = true := by
    intro c mem
    rw [decide_eq_true_eq]
    rintro rfl
    exact whole mem
  have stop : decide ('\n' ≠ '\n') = false := by decide
  have taken : (line ++ '\n' :: rest).takeWhile (fun c => decide (c ≠ '\n')) = line := by
    rw [List.takeWhile_append_of_pos inside]
    exact List.append_nil line
  have dropped : (line ++ '\n' :: rest).dropWhile (fun c => decide (c ≠ '\n')) = '\n' :: rest := by
    rw [List.dropWhile_append_of_pos inside]
    rfl
  simp only [nextLine, taken, dropped]
  rw [if_neg (by omega)]

section RoundTrip

variable {headerOf : Text → Option InventoryHeader} {lineOf : Text → Option InventoryLine}

section

variable (reads : ∀ line : InventoryLine, Plain line.n → Plain line.s →
    lineOf line.json = some line)

include reads

theorem readEntry_line {entry : InventoryEntry} (listable : Listable entry) {seen : List Name}
    (new : entry.name ∉ seen) : readEntry lineOf seen entry.line.json = .ok entry := by
  rcases listable.named with ⟨id, valid, named⟩
  have parsed : parseOwnName entry.name ≠ none := by
    rw [parseOwnName_eq_some.mpr ⟨named, valid⟩]
    exact Option.some_ne_none _
  have later : entry.state.time.any (fun t => decide (t < 0)) = false := by
    cases timed : entry.state.time with
    | none => rfl
    | some t =>
      have wall := listable.timed t timed
      simp only [Option.any_some, decide_eq_false_iff_not, not_lt]
      exact wall.1
  have created : ¬ entry.createdAt < 0 := not_lt.mpr listable.created.1
  have name : Plain entry.line.n := by
    change Plain entry.name
    rw [named]
    exact (plain_ownName valid).1
  have read := reads entry.line name (plain_word entry.state).1
  simp only [readEntry, read]
  simp only [InventoryEntry.line, parsed, new, or_self, ↓reduceIte, created,
    later, Bool.false_eq_true, OwnState.fromWord_word]

theorem readEntries_lines {entries : List InventoryEntry}
    (listable : ∀ entry ∈ entries, Listable entry)
    (distinct : (entries.map InventoryEntry.name).Nodup) (seen : List Name)
    (new : ∀ entry ∈ entries, entry.name ∉ seen) :
    readEntries lineOf entries.length seen
      (entries.flatMap fun entry => entry.line.json ++ ['\n']) = .ok (entries, []) := by
  induction entries generalizing seen with
  | nil => rfl
  | cons entry entries ih =>
    have first := listable entry List.mem_cons_self
    have text : (entry :: entries).flatMap (fun entry => entry.line.json ++ ['\n']) =
        entry.line.json ++ '\n' :: entries.flatMap fun entry => entry.line.json ++ ['\n'] := by
      rw [List.flatMap_cons, List.append_assoc, List.singleton_append]
    rw [List.map_cons, List.nodup_cons] at distinct
    have later : ∀ other ∈ entries, other.name ∉ entry.name :: seen := by
      intro other mem
      rw [List.mem_cons, not_or]
      refine ⟨?_, new other (List.mem_cons_of_mem entry mem)⟩
      intro same
      exact distinct.1 (List.mem_map.mpr ⟨other, mem, same⟩)
    have rest := ih (fun other mem => listable other (List.mem_cons_of_mem entry mem)) distinct.2
      (entry.name :: seen) later
    rw [text, List.length_cons, readEntries,
      nextLine_append (newline_not_mem_line _) first.len_line]
    simp only [readEntry_line reads first (new entry List.mem_cons_self), rest, bind, Except.bind,
      pure, Except.pure]

end

theorem readInventory_writeInventoryText
    (headers : ∀ header : InventoryHeader, Plain header.run → headerOf header.json = some header)
    (reads : ∀ line : InventoryLine, Plain line.n → Plain line.s → lineOf line.json = some line)
    {run : Text} (valid : validRunId run) {maxFiles : ℕ} {entries : List InventoryEntry}
    (bounded : maxFiles ≤ hardMaxFiles) (few : entries.length ≤ maxFiles)
    (listable : ∀ entry ∈ entries, Listable entry)
    (distinct : (entries.map InventoryEntry.name).Nodup) :
    readInventory headerOf lineOf run (writeInventoryText run maxFiles entries) =
      .ok (maxFiles, entries) := by
  have count : min entries.length (2 ^ 32 - 1) = entries.length := by
    simp only [hardMaxFiles] at bounded
    omega
  have fits : ¬ (hardMaxFiles < maxFiles ∨ maxFiles < entries.length) := by omega
  have lines := readEntries_lines reads listable distinct [] fun entry _ => List.not_mem_nil
  rw [readInventory, writeInventoryText, count,
    nextLine_append (newline_not_mem_header _) (len_header valid bounded few)]
  have read := headers ⟨inventoryVersion, run, maxFiles, entries.length⟩ (plain_runId valid).1
  simp only [read, ne_eq, fits, lines]
  rfl

end RoundTrip

/-! ## A reader

What is read of the texts above when nothing in them is escaped. -/

/-- The digits at the head of a text, and what follows them. -/
def takeDigits (text : Text) : ℤ × Text :=
  (Nat.ofDigitChars 10 (text.takeWhile isDigit) 0, text.dropWhile isDigit)

def takeInt (text : Text) : ℤ × Text :=
  match text with
  | '-' :: rest => (-(takeDigits rest).1, (takeDigits rest).2)
  | other => takeDigits other

def takeQuoted : Text → Option (Text × Text)
  | '"' :: rest =>
    some (rest.takeWhile fun c => decide (c ≠ '"'),
      (rest.dropWhile fun c => decide (c ≠ '"')).tail)
  | _ => none

def plainHeader (text : Text) : Option InventoryHeader := do
  let (v, rest) := takeInt (← stripPrefix "\x7b\"v\":".toList text)
  let (run, rest) ← takeQuoted (← stripPrefix ",\"run\":".toList rest)
  let (maxFiles, rest) := takeInt (← stripPrefix ",\"max_files\":".toList rest)
  let (count, rest) := takeInt (← stripPrefix ",\"count\":".toList rest)
  if rest = "\x7d".toList then some ⟨v.toNat, run, maxFiles.toNat, count.toNat⟩ else none

def plainLine (text : Text) : Option InventoryLine := do
  let (n, rest) ← takeQuoted (← stripPrefix "\x7b\"n\":".toList text)
  let (c, rest) := takeInt (← stripPrefix ",\"c\":".toList rest)
  let (s, rest) ← takeQuoted (← stripPrefix ",\"s\":".toList rest)
  match stripPrefix ",\"t\":".toList rest with
  | some rest =>
    let (t, rest) := takeInt rest
    if rest = "\x7d".toList then some ⟨n, c, s, some t⟩ else none
  | none => if rest = "\x7d".toList then some ⟨n, c, s, none⟩ else none

theorem isDigit_toDigits {n : ℕ} (mem : c ∈ Nat.toDigits 10 n) : isDigit c := by
  have digit := Nat.isDigit_of_mem_toDigits (by decide) (by decide) mem
  simp only [Char.isDigit, Bool.and_eq_true, decide_eq_true_eq] at digit
  simp only [isDigit, Bool.and_eq_true, decide_eq_true_eq]
  exact digit

theorem takeDigits_append (n : ℕ) (c : Char) (rest : Text) (stop : isDigit c = false) :
    takeDigits (Nat.toDigits 10 n ++ c :: rest) = ((n : ℤ), c :: rest) := by
  have digits : ∀ d ∈ Nat.toDigits 10 n, isDigit d := fun d mem => isDigit_toDigits mem
  simp only [takeDigits, List.takeWhile_append_of_pos digits, List.dropWhile_append_of_pos digits,
    List.takeWhile_cons, List.dropWhile_cons, stop, Bool.false_eq_true, ↓reduceIte,
    List.append_nil, Nat.ofDigitChars_toDigits (by decide : 1 < 10) (by decide : 10 ≤ 10)]

theorem takeInt_append (n : ℤ) (c : Char) (rest : Text) (stop : isDigit c = false) :
    takeInt (showInt n ++ c :: rest) = (n, c :: rest) := by
  cases n with
  | ofNat n =>
    have digits : takeInt (Nat.toDigits 10 n ++ c :: rest) =
        takeDigits (Nat.toDigits 10 n ++ c :: rest) := by
      cases shown : Nat.toDigits 10 n with
      | nil => exact absurd shown Nat.toDigits_ne_nil
      | cons first others =>
        have digit : isDigit first :=
          isDigit_toDigits (n := n) (shown ▸ List.mem_cons_self)
        have sign : first ≠ '-' := by
          rintro rfl
          cases digit
        simp only [takeInt]
        split
        · rename_i same
          cases same
          exact absurd rfl sign
        · rfl
    exact digits.trans (takeDigits_append n c rest stop)
  | negSucc n =>
    have digits := takeDigits_append (n + 1) c rest stop
    change (-(takeDigits (Nat.toDigits 10 (n + 1) ++ c :: rest)).1,
      (takeDigits (Nat.toDigits 10 (n + 1) ++ c :: rest)).2) = _
    rw [digits]
    rfl

theorem takeQuoted_append (plain : Plain text) (rest : Text) :
    takeQuoted (quote text ++ rest) = some (text, rest) := by
  have inside : ∀ c ∈ text, decide (c ≠ '"') = true := by
    intro c mem
    rw [decide_eq_true_eq]
    rintro rfl
    exact absurd (plain '"' mem).2 (by decide)
  have stop : decide ('"' ≠ '"') = false := by decide
  rw [quote_plain plain, List.cons_append, List.append_assoc, List.singleton_append, takeQuoted,
    List.takeWhile_append_of_pos inside, List.dropWhile_append_of_pos inside, List.takeWhile_cons,
    List.dropWhile_cons, stop]
  simp only [Bool.false_eq_true, ↓reduceIte, List.append_nil, List.tail_cons]

theorem stripPrefix_append (word rest : Text) : stripPrefix word (word ++ rest) = some rest :=
  stripPrefix_eq_some.mpr rfl

theorem takeInt_literal (n : ℤ) {word rest : Text} (stop : word.head?.any isDigit = false)
    (nonempty : word ≠ []) : takeInt (showInt n ++ (word ++ rest)) = (n, word ++ rest) := by
  cases word with
  | nil => exact absurd rfl nonempty
  | cons c word => exact takeInt_append n c (word ++ rest) stop

theorem plainHeader_json (header : InventoryHeader) (plain : Plain header.run) :
    plainHeader header.json = some header := by
  rcases header with ⟨v, run, maxFiles, count⟩
  have last : takeInt (showInt count ++ "\x7d".toList) = ((count : ℤ), "\x7d".toList) :=
    takeInt_append count '\x7d' [] (by decide)
  unfold InventoryHeader.json plainHeader
  simp only [bind, stripPrefix_append, Option.bind_some]
  rw [takeInt_literal v (by decide) (by decide)]
  simp only [stripPrefix_append, Option.bind_some, takeQuoted_append plain]
  rw [takeInt_literal maxFiles (by decide) (by decide)]
  simp only [stripPrefix_append, Option.bind_some, last, ↓reduceIte, Int.toNat_natCast]

theorem plainLine_json (line : InventoryLine) (name : Plain line.n) (word : Plain line.s) :
    plainLine line.json = some line := by
  rcases line with ⟨n, c, s, t⟩
  unfold InventoryLine.json plainLine
  simp only [bind, stripPrefix_append, Option.bind_some, takeQuoted_append name]
  rw [takeInt_literal c (by decide) (by decide)]
  simp only [stripPrefix_append, Option.bind_some, takeQuoted_append word]
  cases t with
  | none => rfl
  | some t =>
    have last : takeInt (showInt t ++ "\x7d".toList) = (t, "\x7d".toList) :=
      takeInt_append t '\x7d' [] (by decide)
    simp only [List.append_assoc, stripPrefix_append, last, ↓reduceIte]

end AgentDeck.Retained
