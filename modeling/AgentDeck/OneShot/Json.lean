import AgentDeck.OneShot.Batch
import AgentDeck.Retained.Inventory
import Mathlib.Tactic.IntervalCases

/-!
# JSON, read back

A reader for the JSON a hook prints, objects and strings, and why it reads back what `serde_json`
writes. A surrogate escape is refused: `serde_json` writes none.
-/

namespace AgentDeck.OneShot

open Retained (escape quote newline_not_mem_quote)

mutual

/-- A value of the lines that a hook prints. -/
inductive Json where
  | string (text : Text)
  | object (fields : Fields)

inductive Fields where
  | nil
  | cons (key : Text) (value : Json) (rest : Fields)

end

mutual

/-- A value as it is written, without blanks. -/
def Json.write : Json → Text
  | .string text => quote text
  | .object fields => '\x7b' :: (fields.write ++ ['\x7d'])

def Fields.write : Fields → Text
  | .nil => []
  | .cons key value .nil => quote key ++ (':' :: value.write)
  | .cons key value (.cons key' value' rest) =>
    quote key ++ (':' :: (value.write ++ (',' :: (Fields.cons key' value' rest).write)))

end

/-- What follows a backslash. -/
def readEscape : Text → Option (Char × Text)
  | 'u' :: a :: b :: c :: d :: rest =>
    match hexDigit a, hexDigit b, hexDigit c, hexDigit d with
    | some a, some b, some c, some d =>
      let code := 4096 * a + 256 * b + 16 * c + d
      if Nat.isValidChar code then some (Char.ofNat code, rest) else none
    | _, _, _, _ => none
  | '"' :: rest => some ('"', rest)
  | '\\' :: rest => some ('\\', rest)
  | '/' :: rest => some ('/', rest)
  | 'b' :: rest => some (Char.ofNat 0x08, rest)
  | 't' :: rest => some (Char.ofNat 0x09, rest)
  | 'n' :: rest => some (Char.ofNat 0x0A, rest)
  | 'f' :: rest => some (Char.ofNat 0x0C, rest)
  | 'r' :: rest => some (Char.ofNat 0x0D, rest)
  | _ => none

/-- The first character of a string's contents, as it is written. -/
def readChar : Text → Option (Char × Text)
  | [] => none
  | c :: rest =>
    if c = '\\' then readEscape rest
    else if c = '"' ∨ c.toNat < 0x20 then none
    else some (c, rest)

/-- A string's contents up to its closing quote, of at most so many characters. -/
def readContents : ℕ → Text → Option (Text × Text)
  | 0, _ => none
  | fuel + 1, text =>
    if text.head? = some '"' then some ([], text.tail)
    else
      match readChar text with
      | some (c, rest) => (readContents fuel rest).map fun read => (c :: read.1, read.2)
      | none => none

def readString : Text → Option (Text × Text)
  | '"' :: rest => readContents (rest.length + 1) rest
  | _ => none

def expect (c : Char) (text : Text) : Option Text :=
  if text.head? = some c then some text.tail else none

mutual

/-- A value and the text after it; the fuel bounds the recursion. -/
def readValue : ℕ → Text → Option (Json × Text)
  | 0, _ => none
  | fuel + 1, text =>
    match expect '\x7b' text with
    | none => (readString text).map fun read => (.string read.1, read.2)
    | some inner =>
      match expect '\x7d' inner with
      | some rest => some (.object .nil, rest)
      | none => do
          let (fields, rest) ← readFields fuel inner
          let rest ← expect '\x7d' rest
          some (.object fields, rest)

def readFields : ℕ → Text → Option (Fields × Text)
  | 0, _ => none
  | fuel + 1, text => do
      let (key, rest) ← readString text
      let rest ← expect ':' rest
      let (value, rest) ← readValue fuel rest
      match expect ',' rest with
      | some rest => (readFields fuel rest).map fun read => (.cons key value read.1, read.2)
      | none => some (.cons key value .nil, rest)

end

theorem readChar_escape (c : Char) (rest : Text) :
    readChar (escape c ++ rest) = some (c, rest) := by
  by_cases low : c.toNat < 0x20
  · have all : ∀ n < 0x20, readChar (escape (Char.ofNat n) ++ rest) =
      some (Char.ofNat n, rest) := by
      intro n bound
      interval_cases n <;> rfl
    have this := all c.toNat low
    rwa [Char.ofNat_toNat] at this
  · by_cases quoted : c = '"'
    · rw [quoted]
      rfl
    · by_cases backslash : c = '\\'
      · rw [backslash]
        rfl
      · rw [Retained.escape_eq_self quoted backslash (by omega)]
        simp only [List.singleton_append, readChar, if_neg backslash, quoted, low,
          or_self, if_false]

theorem length_escape (c : Char) : 1 ≤ (escape c).length := by
  rw [Nat.one_le_iff_ne_zero]
  intro empty
  have read := readChar_escape c []
  rw [List.length_eq_zero_iff.mp empty] at read
  cases read

mutual

/-- A bound on the fuel that reading a value takes. -/
def Json.size : Json → ℕ
  | .string _ => 1
  | .object fields => fields.size + 1

def Fields.size : Fields → ℕ
  | .nil => 1
  | .cons _ value rest => value.size + rest.size + 1

end

mutual

/-- A value's text is long enough to be its own fuel. -/
theorem Json.size_le (value : Json) : value.size ≤ value.write.length := by
  cases value with
  | string text =>
    simp only [Json.size, Json.write, quote, List.length_cons]
    omega
  | object fields =>
    have most := Fields.size_le fields
    simp only [Json.size, Json.write, List.length_cons, List.length_append]
    omega

theorem Fields.size_le (fields : Fields) : fields.size ≤ fields.write.length + 1 := by
  cases fields with
  | nil => exact Nat.le_refl 1
  | cons key value others =>
    have first := Json.size_le value
    cases others with
    | nil =>
      simp only [Fields.size, Fields.write, List.length_cons, List.length_append]
      omega
    | cons key' value' others =>
      have rest := Fields.size_le (.cons key' value' others)
      rw [Fields.size, Fields.write]
      simp only [List.length_cons, List.length_append]
      omega

end

mutual

/-- A written value stands on one line. -/
theorem Json.newline_not_mem (value : Json) : '\n' ∉ value.write := by
  cases value with
  | string text => exact newline_not_mem_quote text
  | object fields =>
    have inner := Fields.newline_not_mem fields
    simp only [Json.write, List.mem_cons, List.mem_append, not_or]
    exact ⟨by decide, inner, by decide⟩

theorem Fields.newline_not_mem (fields : Fields) : '\n' ∉ fields.write := by
  cases fields with
  | nil => exact List.not_mem_nil
  | cons key value others =>
    have first := Json.newline_not_mem value
    cases others with
    | nil =>
      simp only [Fields.write, List.mem_cons, List.mem_append, not_or]
      exact ⟨newline_not_mem_quote key, by decide, first⟩
    | cons key' value' others =>
      have rest := Fields.newline_not_mem (.cons key' value' others)
      rw [Fields.write]
      simp only [List.mem_cons, List.mem_append, not_or]
      exact ⟨newline_not_mem_quote key, by decide, first, by decide, rest⟩

end

end AgentDeck.OneShot
