import AgentDeck.Lib.SortedMap

/-!
# Text

Text is the list of its characters. The character classes are the ones `std` and
`src/untrusted_text.rs` test: controls, white space, bidirectional marks and characters that show
nothing.
-/

namespace AgentDeck

abbrev Text := List Char

instance : LawfulBEq Text := inferInstance

namespace Text

def len (text : Text) : ℕ := (text.map Char.utf8Size).sum

/-- The longest beginning of `text` within `max` bytes, cut at a char boundary. -/
def cutBytes : Text → ℕ → Text
  | [], _ => []
  | c :: rest, max => if c.utf8Size ≤ max then c :: cutBytes rest (max - c.utf8Size) else []

/-- `char::is_control`: the general category Cc. -/
def isControl (c : Char) : Bool :=
  decide (c.toNat < 0x20) || (decide (0x7F ≤ c.toNat) && decide (c.toNat ≤ 0x9F))

/-- `char::is_whitespace`: the property White_Space. -/
def isWhitespace (c : Char) : Bool :=
  (decide (0x09 ≤ c.toNat) && decide (c.toNat ≤ 0x0D)) || decide (c.toNat = 0x20) ||
    decide (c.toNat = 0x85) || decide (c.toNat = 0xA0) || decide (c.toNat = 0x1680) ||
    (decide (0x2000 ≤ c.toNat) && decide (c.toNat ≤ 0x200A)) || decide (c.toNat = 0x2028) ||
    decide (c.toNat = 0x2029) || decide (c.toNat = 0x202F) || decide (c.toNat = 0x205F) ||
    decide (c.toNat = 0x3000)

/-- `str::trim`. -/
def trim (text : Text) : Text :=
  ((text.dropWhile isWhitespace).reverse.dropWhile isWhitespace).reverse

/-- `str::trim_end`. -/
def trimEnd (text : Text) : Text := (text.reverse.dropWhile isWhitespace).reverse

/-- The bidirectional marks, embeddings, overrides and isolates. -/
def isBidiFormatChar (c : Char) : Bool :=
  (decide (0x202A ≤ c.toNat) && decide (c.toNat ≤ 0x202E)) ||
    (decide (0x2066 ≤ c.toNat) && decide (c.toNat ≤ 0x2069)) || decide (c.toNat = 0x200E) ||
    decide (c.toNat = 0x200F) || decide (c.toNat = 0x061C)

def isInvisibleFormatChar (c : Char) : Bool :=
  decide (c.toNat = 0xAD) || (decide (0x200B ≤ c.toNat) && decide (c.toNat ≤ 0x200D)) ||
    (decide (0x2060 ≤ c.toNat) && decide (c.toNat ≤ 0x2064)) ||
    (decide (0x206A ≤ c.toNat) && decide (c.toNat ≤ 0x206F)) || decide (c.toNat = 0xFEFF)

def stripControlAndBidi (text : Text) (keepNewlines : Bool) : Text :=
  text.filter fun c =>
    (keepNewlines && decide (c = '\n')) || !(isControl c || isBidiFormatChar c)

def labelLine (raw : Text) (maxChars : ℕ) : Text :=
  ((stripControlAndBidi raw false).filter fun c => !isInvisibleFormatChar c).take maxChars

theorem not_mem_literal {c : Char} {chars : List Char} (absent : chars.contains c = false) :
    c ∉ (String.ofList chars).toList := by
  rw [String.toList_ofList]
  intro mem
  rw [List.contains_iff_mem.mpr mem] at absent
  cases absent

end Text

end AgentDeck
