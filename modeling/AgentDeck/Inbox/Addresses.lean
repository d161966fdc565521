import AgentDeck.OneShot.Batch

/-!
# Address tokens

`encode_token` and `decode_token` of `src/inbox.rs`. A byte that is no letter, digit or `-` is
spelled as an escape; the decoder also reads escapes of bytes that need none, and the empty text.
-/

namespace AgentDeck.Inbox

open OneShot (Bytes utf8)

/-! ## UTF-8 -/

/-- `String::from_utf8`, where it succeeds. -/
def fromUtf8 (bytes : Bytes) : Option Text :=
  bytes.toByteArray.utf8Decode?.map Array.toList

theorem toByteArray_utf8 (text : Text) : (utf8 text).toByteArray = text.utf8Encode := rfl

theorem fromUtf8_utf8 (text : Text) : fromUtf8 (utf8 text) = some text := by
  rw [fromUtf8, toByteArray_utf8, List.utf8Decode?_utf8Encode]
  rfl

theorem utf8_of_fromUtf8 {bytes : Bytes} {text : Text} (reads : fromUtf8 bytes = some text) :
    bytes = utf8 text := by
  rcases Option.map_eq_some_iff.mp reads with ⟨chars, decoded, rfl⟩
  have valid := ByteArray.isSome_utf8Decode?_iff.mp (Option.isSome_of_eq_some decoded)
  rcases valid with ⟨whole, same⟩
  rw [same, List.utf8Decode?_utf8Encode] at decoded
  cases decoded
  have bytesEq : bytes.toByteArray = (utf8 whole).toByteArray := same
  exact List.toByteArray_inj.mp bytesEq

theorem utf8_injective {left right : Text} (same : utf8 left = utf8 right) : left = right := by
  have reads := fromUtf8_utf8 left
  rw [same, fromUtf8_utf8] at reads
  exact (Option.some.inj reads).symm

theorem utf8_append (left right : Text) : utf8 (left ++ right) = utf8 left ++ utf8 right :=
  List.flatMap_append

/-! ## Tokens -/

/-- `u8::is_ascii_alphanumeric`. -/
def isAsciiAlphanumeric (b : UInt8) : Bool :=
  (decide (0x30 ≤ b) && decide (b ≤ 0x39)) || (decide (0x41 ≤ b) && decide (b ≤ 0x5A)) ||
    (decide (0x61 ≤ b) && decide (b ≤ 0x7A))

def standsAsIs (b : UInt8) : Bool := isAsciiAlphanumeric b || decide (b = 0x2D)

/-- `{b:02x}`. -/
def byteHex (b : UInt8) : Text := [Nat.digitChar (b.toNat / 16), Nat.digitChar (b.toNat % 16)]

def encodeByte (b : UInt8) : Text :=
  if standsAsIs b then [Char.ofNat b.toNat] else '_' :: byteHex b

def encodeToken (raw : Text) : Text :=
  if raw.isEmpty then ['_'] else (utf8 raw).flatMap encodeByte

def isHexByte (b : UInt8) : Bool :=
  (decide (0x30 ≤ b) && decide (b ≤ 0x39)) || (decide (0x61 ≤ b) && decide (b ≤ 0x66))

def hexValue (b : UInt8) : ℕ := if b ≤ 0x39 then b.toNat - 0x30 else b.toNat - 0x61 + 10

def fromHex (high low : UInt8) : UInt8 := UInt8.ofNat (hexValue high * 16 + hexValue low)

/-- `str::is_char_boundary` where these bytes are the rest of the text. -/
def isCharBoundary : Bytes → Bool
  | [] => true
  | b :: _ => !(decide (0x80 ≤ b) && decide (b ≤ 0xBF))

def decodeBytes : Bytes → Option Bytes
  | [] => some []
  | b :: rest =>
    if b = 0x5F then
      match rest with
      | high :: low :: after =>
        -- `str::get` of the two bytes wants a char boundary at both ends.
        if isCharBoundary (high :: low :: after) && isCharBoundary after then
          if isHexByte high && isHexByte low then
            (decodeBytes after).map (fromHex high low :: ·)
          else none
        else none
      | _ => none
    else if standsAsIs b then (decodeBytes rest).map (b :: ·)
    else none

def decodeToken (token : Text) : Option Text :=
  if token = ['_'] then some [] else (decodeBytes (utf8 token)).bind fromUtf8

def isTokenChar (c : Char) : Bool := c.isAlphanum || decide (c = '-') || decide (c = '_')

/-! ## Spellings -/

inductive Piece where
  | asIs (b : UInt8) (may : standsAsIs b = true)
  | escape (b : UInt8)

namespace Piece

def byte : Piece → UInt8
  | asIs b _ => b
  | escape b => b

def text : Piece → Text
  | asIs b _ => [Char.ofNat b.toNat]
  | escape b => '_' :: byteHex b

/-- An escape of a byte that needs none. -/
def needless : Piece → Bool
  | asIs _ _ => false
  | escape b => standsAsIs b

end Piece

/-- The pieces spell `raw` as `token`. -/
def Spells (pieces : List Piece) (token raw : Text) : Prop :=
  token = pieces.flatMap Piece.text ∧ utf8 raw = pieces.map Piece.byte

/-- The text spells a string with an escape of a byte that needs none, or is empty. -/
def NeedlesslySpelled (token : Text) : Prop :=
  ∃ pieces raw, Spells pieces token raw ∧ (pieces = [] ∨ ∃ piece ∈ pieces, piece.needless = true)

/-! ## One byte -/

theorem forall_byte {P : UInt8 → Prop} (all : ∀ n : Fin 256, P (UInt8.ofFin n)) (b : UInt8) : P b :=
  all b.toFin

/-- The three character classes agree with each other on every byte. -/
theorem byte_checked : ∀ b : UInt8,
    (standsAsIs b = true → (Char.ofNat b.toNat).val ≤ 127 ∧
      (Char.ofNat b.toNat).val.toUInt8 = b ∧ b ≠ 0x5F ∧ isCharBoundary [b] = true) ∧
    (isHexByte b = true → hexValue b < 16 ∧ (Nat.digitChar (hexValue b)).val.toUInt8 = b ∧
      isCharBoundary [b] = true) ∧
    (encodeByte b).all isTokenChar = true :=
  forall_byte (by decide +kernel)

theorem utf8_ascii {c : Char} (ascii : c.val ≤ 127) (rest : Text) :
    utf8 (c :: rest) = c.val.toUInt8 :: utf8 rest := by
  have one : c.utf8Size = 1 := Char.utf8Size_eq_one_iff.mpr ascii
  rw [utf8, List.flatMap_cons, String.utf8EncodeChar_eq_singleton one]
  rfl

variable {b : UInt8}

theorem utf8_asIs (may : standsAsIs b) : utf8 [Char.ofNat b.toNat] = [b] := by
  rcases (byte_checked b).1 may with ⟨ascii, byte, _⟩
  rw [utf8_ascii ascii, byte]
  rfl

theorem digit_half {n : ℕ} (half : n < 16) : (Nat.digitChar n).val ≤ 127 ∧
    isHexByte (Nat.digitChar n).val.toUInt8 = true ∧
    hexValue (Nat.digitChar n).val.toUInt8 = n := by
  have all : ∀ n : Fin 16, (Nat.digitChar n).val ≤ 127 ∧
      isHexByte (Nat.digitChar n).val.toUInt8 = true ∧
      hexValue (Nat.digitChar n).val.toUInt8 = n := by decide
  exact all ⟨n, half⟩

theorem hexValue_half (isHex : isHexByte b) : hexValue b < 16 ∧
    (Nat.digitChar (hexValue b)).val.toUInt8 = b := by
  rcases (byte_checked b).2.1 isHex with ⟨half, digit, _⟩
  exact ⟨half, digit⟩

theorem utf8_escape (b : UInt8) : ∃ high low, utf8 (Piece.escape b).text = [0x5F, high, low] ∧
    isHexByte high = true ∧ isHexByte low = true ∧ fromHex high low = b := by
  have first : b.toNat / 16 < 16 := by
    have bound := b.toNat_lt
    omega
  rcases digit_half first with ⟨highAscii, highHex, highValue⟩
  rcases digit_half (Nat.mod_lt b.toNat (Nat.zero_lt_succ 15)) with ⟨lowAscii, lowHex, lowValue⟩
  refine ⟨_, _, ?_, highHex, lowHex, ?_⟩
  · rw [Piece.text, byteHex, utf8_ascii (by decide), utf8_ascii highAscii, utf8_ascii lowAscii]
    rfl
  · rw [fromHex, highValue, lowValue, Nat.div_add_mod' b.toNat 16, UInt8.ofNat_toNat]

theorem escape_fromHex {high low : UInt8} (isHigh : isHexByte high) (isLow : isHexByte low) :
    utf8 (Piece.escape (fromHex high low)).text = [0x5F, high, low] := by
  rcases hexValue_half isHigh with ⟨highHalf, highDigit⟩
  rcases hexValue_half isLow with ⟨lowHalf, lowDigit⟩
  have value : (fromHex high low).toNat = hexValue high * 16 + hexValue low := by
    rw [fromHex, UInt8.toNat_ofNat']
    omega
  have highPart : (fromHex high low).toNat / 16 = hexValue high := by omega
  have lowPart : (fromHex high low).toNat % 16 = hexValue low := by omega
  rw [Piece.text, byteHex, highPart, lowPart, utf8_ascii (by decide),
    utf8_ascii (digit_half highHalf).1, utf8_ascii (digit_half lowHalf).1, highDigit, lowDigit]
  rfl

theorem asIs_ne_underscore (may : standsAsIs b) : b ≠ 0x5F ∧ isCharBoundary [b] := by
  rcases (byte_checked b).1 may with ⟨_, _, other, boundary⟩
  exact ⟨other, boundary⟩

/-! ## Decoding -/

theorem isCharBoundary_spelled (pieces : List Piece) :
    isCharBoundary (utf8 (pieces.flatMap Piece.text)) := by
  cases pieces with
  | nil => rfl
  | cons piece rest =>
    rw [List.flatMap_cons, utf8_append]
    cases piece with
    | asIs b may =>
      rw [Piece.text, utf8_asIs may]
      exact (asIs_ne_underscore may).2
    | escape b =>
      rcases utf8_escape b with ⟨high, low, spelled, _⟩
      rfl

theorem hex_boundary (isHex : isHexByte b) : isCharBoundary [b] :=
  ((byte_checked b).2.1 isHex).2.2

theorem decodeBytes_asIs (may : standsAsIs b) (rest : Bytes) :
    decodeBytes (b :: rest) = (decodeBytes rest).map (b :: ·) := by
  conv_lhs => unfold decodeBytes
  simp only [if_neg (asIs_ne_underscore may).1, if_pos may]

theorem decodeBytes_escape {high low : UInt8} (isHigh : isHexByte high)
    (isLow : isHexByte low) {rest : Bytes} (boundary : isCharBoundary rest) :
    decodeBytes (0x5F :: high :: low :: rest) = (decodeBytes rest).map (fromHex high low :: ·) := by
  have first : isCharBoundary (high :: low :: rest) = true := hex_boundary isHigh
  rw [decodeBytes, first, boundary, isHigh, isLow]
  rfl

theorem decodeBytes_spelled (pieces : List Piece) :
    decodeBytes (utf8 (pieces.flatMap Piece.text)) = some (pieces.map Piece.byte) := by
  induction pieces with
  | nil => rfl
  | cons piece rest ih =>
    rw [List.flatMap_cons, utf8_append]
    cases piece with
    | asIs b may =>
      rw [Piece.text, utf8_asIs may, List.singleton_append, decodeBytes_asIs may, ih]
      rfl
    | escape b =>
      rcases utf8_escape b with ⟨high, low, spelled, isHigh, isLow, value⟩
      rw [spelled]
      refine (decodeBytes_escape isHigh isLow (isCharBoundary_spelled rest)).trans ?_
      rw [ih, value]
      rfl

theorem spelled_of_decodeBytes {bytes out : Bytes} (decoded : decodeBytes bytes = some out) :
    ∃ pieces : List Piece, bytes = utf8 (pieces.flatMap Piece.text) ∧
      out = pieces.map Piece.byte := by
  induction bytes using decodeBytes.induct generalizing out with
  | case1 =>
    cases decoded
    exact ⟨[], rfl, rfl⟩
  | case2 high low after _ hex ih =>
    rw [decodeBytes] at decoded
    rename_i boundary
    simp only [if_pos boundary, if_pos hex] at decoded
    rcases Option.map_eq_some_iff.mp decoded with ⟨rest, restDecoded, same⟩
    rcases ih restDecoded with ⟨pieces, spelled, bytes⟩
    rcases (Bool.and_eq_true _ _).mp hex with ⟨isHigh, isLow⟩
    refine ⟨.escape (fromHex high low) :: pieces, ?_, ?_⟩
    · rw [List.flatMap_cons, utf8_append, escape_fromHex isHigh isLow, ← spelled]
      rfl
    · rw [← same, bytes]
      rfl
  | case3 high low after boundary notHex =>
    rw [decodeBytes] at decoded
    simp only [if_pos boundary, if_neg notHex] at decoded
    cases decoded
  | case4 high low after cut =>
    rw [decodeBytes] at decoded
    simp only [if_neg cut] at decoded
    cases decoded
  | case5 rest short =>
    rw [decodeBytes] at decoded
    · cases decoded
    · exact short
  | case6 b rest other may ih =>
    rw [decodeBytes_asIs may] at decoded
    rcases Option.map_eq_some_iff.mp decoded with ⟨after, restDecoded, same⟩
    rcases ih restDecoded with ⟨pieces, spelled, bytes⟩
    refine ⟨.asIs b may :: pieces, ?_, ?_⟩
    · rw [List.flatMap_cons, utf8_append, Piece.text, utf8_asIs may, ← spelled]
      rfl
    · rw [← same, bytes]
      rfl
  | case7 b rest other mayNot =>
    conv_lhs at decoded => unfold decodeBytes
    simp only [if_neg other, if_neg mayNot] at decoded
    cases decoded

theorem decodeToken_eq_some_iff (token raw : Text) :
    decodeToken token = some raw ↔
      token = ['_'] ∧ raw = [] ∨ token ≠ ['_'] ∧ ∃ pieces, Spells pieces token raw := by
  unfold decodeToken
  by_cases underscore : token = ['_']
  · rw [if_pos underscore]
    constructor
    · intro read
      exact .inl ⟨underscore, (Option.some.inj read).symm⟩
    · rintro (⟨_, empty⟩ | ⟨other, _⟩)
      · rw [empty]
      · exact absurd underscore other
  · rw [if_neg underscore, Option.bind_eq_some_iff]
    constructor
    · rintro ⟨bytes, decoded, reads⟩
      rcases spelled_of_decodeBytes decoded with ⟨pieces, spelled, same⟩
      exact .inr ⟨underscore, pieces, utf8_injective spelled,
        (utf8_of_fromUtf8 reads).symm.trans same⟩
    · rintro (⟨is, _⟩ | ⟨_, pieces, spelled, same⟩)
      · exact absurd is underscore
      · refine ⟨pieces.map Piece.byte, ?_, ?_⟩
        · rw [spelled]
          exact decodeBytes_spelled pieces
        · rw [← same]
          exact fromUtf8_utf8 raw

/-! ## What the encoder spells -/

def Piece.of (b : UInt8) : Piece := if may : standsAsIs b = true then .asIs b may else .escape b

theorem Piece.of_asIs (may : standsAsIs b) : Piece.of b = .asIs b may :=
  dif_pos may

theorem Piece.of_escape (mayNot : ¬ standsAsIs b = true) : Piece.of b = .escape b :=
  dif_neg mayNot

theorem Piece.of_text (b : UInt8) : (Piece.of b).text = encodeByte b := by
  unfold encodeByte
  by_cases may : standsAsIs b = true
  · rw [if_pos may, Piece.of_asIs may]
    rfl
  · rw [if_neg may, Piece.of_escape may]
    rfl

theorem Piece.of_byte (b : UInt8) : (Piece.of b).byte = b := by
  by_cases may : standsAsIs b = true
  · rw [Piece.of_asIs may]
    rfl
  · rw [Piece.of_escape may]
    rfl

theorem Piece.eq_of {piece : Piece} (needed : piece.needless = false) :
    piece = Piece.of piece.byte := by
  cases piece with
  | asIs b may => exact (Piece.of_asIs may).symm
  | escape b => exact (Piece.of_escape (Bool.eq_false_iff.mp needed)).symm

theorem Piece.of_length (piece : Piece) :
    (Piece.of piece.byte).text.length + (if piece.needless = true then 2 else 0) =
      piece.text.length := by
  cases piece with
  | asIs b may =>
    have same : Piece.of (Piece.asIs b may).byte = .asIs b may := Piece.of_asIs may
    rw [same]
    rfl
  | escape b =>
    by_cases may : standsAsIs b = true
    · have same : Piece.of (Piece.escape b).byte = .asIs b may := Piece.of_asIs may
      have needless : (Piece.escape b).needless := may
      rw [same, if_pos needless]
      rfl
    · have same : Piece.of (Piece.escape b).byte = .escape b := Piece.of_escape may
      have needed : ¬ (Piece.escape b).needless = true := may
      rw [same, if_neg needed, Nat.add_zero]

variable {raw : Text}

theorem encodeToken_eq (nonempty : raw ≠ []) :
    encodeToken raw = ((utf8 raw).map Piece.of).flatMap Piece.text := by
  have shown : raw.isEmpty = false := List.isEmpty_eq_false_iff.mpr nonempty
  rw [encodeToken, shown, List.flatMap_map]
  simp only [Piece.of_text]
  rfl

theorem spells_encoded (raw : Text) :
    Spells ((utf8 raw).map Piece.of) (((utf8 raw).map Piece.of).flatMap Piece.text) raw := by
  refine ⟨rfl, ?_⟩
  rw [List.map_map]
  have same : Piece.byte ∘ Piece.of = id := funext Piece.of_byte
  rw [same, List.map_id]

theorem utf8_eq_nil : utf8 raw = [] ↔ raw = [] := by
  constructor
  · intro empty
    exact utf8_injective (empty.trans rfl)
  · rintro rfl
    rfl

theorem length_spelled (pieces : List Piece) :
    (((pieces.map Piece.byte).map Piece.of).flatMap Piece.text).length +
      2 * pieces.countP Piece.needless = (pieces.flatMap Piece.text).length := by
  induction pieces with
  | nil => rfl
  | cons piece rest ih =>
    have one := piece.of_length
    simp only [List.map_cons, List.flatMap_cons, List.length_append, List.countP_cons]
    split at one
    · rename_i needless
      rw [if_pos needless]
      omega
    · rename_i needed
      rw [if_neg needed]
      omega

variable {pieces : List Piece} {token : Text}

section

variable (spells : Spells pieces token raw)

include spells

theorem Spells.ne_underscore : token ≠ ['_'] := by
  intro underscore
  have decoded := decodeBytes_spelled pieces
  rw [← spells.1, underscore] at decoded
  have fails : decodeBytes (utf8 ['_']) = none := by decide
  cases decoded

theorem Spells.nil_iff : pieces = [] ↔ raw = [] := by
  rw [← utf8_eq_nil, spells.2, List.map_eq_nil_iff]

theorem Spells.ne_nil (nonempty : pieces ≠ []) : token ≠ [] := by
  intro empty
  have decoded := decodeBytes_spelled pieces
  rw [← spells.1, empty] at decoded
  have bytes : [] = pieces.map Piece.byte := Option.some.inj decoded
  exact nonempty (List.map_eq_nil_iff.mp bytes.symm)

omit spells in
theorem isTokenChar_encodeByte (b : UInt8) : ∀ c ∈ encodeByte b, isTokenChar c :=
  List.all_eq_true.mp (byte_checked b).2.2

omit spells in
theorem encodeToken_spells (nonempty : raw ≠ []) :
    Spells ((utf8 raw).map Piece.of) (encodeToken raw) raw := by
  rw [encodeToken_eq nonempty]
  exact spells_encoded raw

theorem Spells.encoded (nonempty : pieces ≠ [])
    (needed : ∀ piece ∈ pieces, piece.needless = false) : token = encodeToken raw := by
  have rawSome : raw ≠ [] := fun empty => nonempty (spells.nil_iff.mpr empty)
  have own : (pieces.map Piece.byte).map Piece.of = pieces := by
    rw [List.map_map]
    refine (List.map_congr_left fun piece mem => ?_).trans (List.map_id pieces)
    exact (Piece.eq_of (needed piece mem)).symm
  rw [encodeToken_eq rawSome, spells.2, own]
  exact spells.1

theorem Spells.not_encoded {piece : Piece} (mem : piece ∈ pieces) (needless : piece.needless) :
    token ≠ encodeToken raw := by
  intro same
  have nonempty : pieces ≠ [] := List.ne_nil_of_mem mem
  have rawSome : raw ≠ [] := fun empty => nonempty (spells.nil_iff.mpr empty)
  have lengths := length_spelled pieces
  have counted : 0 < pieces.countP Piece.needless := List.countP_pos_iff.mpr ⟨piece, mem, needless⟩
  have whole := encodeToken_eq rawSome
  rw [spells.2, ← same, spells.1] at whole
  rw [← whole] at lengths
  omega

end

/-! ## Exactness -/

theorem encodeToken_holds (raw : Text) :
    encodeToken raw ≠ [] ∧ (∀ c ∈ encodeToken raw, isTokenChar c = true) ∧
      decodeToken (encodeToken raw) = some raw := by
  by_cases empty : raw = []
  · rw [empty]
    have spelled : encodeToken [] = ['_'] := rfl
    refine ⟨List.cons_ne_nil _ _, ?_, rfl⟩
    intro c mem
    rw [List.mem_singleton.mp mem]
    rfl
  · have spells := encodeToken_spells empty
    refine ⟨?_, ?_, ?_⟩
    · apply spells.ne_nil
      intro absent
      exact empty (spells.nil_iff.mp absent)
    · intro c mem
      have shown : raw.isEmpty = false := List.isEmpty_eq_false_iff.mpr empty
      rw [encodeToken, shown] at mem
      rcases List.mem_flatMap.mp mem with ⟨b, _, inByte⟩
      exact isTokenChar_encodeByte b c inByte
    · exact (decodeToken_eq_some_iff _ raw).mpr (.inr ⟨spells.ne_underscore, _, spells⟩)

/-- The encoder's tokens are not empty, hold letters, digits, `-` and `_` alone and decode to what
they encode; a token is the encoder's for what it decodes to exactly where it is no needless
spelling. -/
theorem tokens_exact (raw token : List Char) :
    (encodeToken raw ≠ [] ∧ (∀ c ∈ encodeToken raw, isTokenChar c = true) ∧
      decodeToken (encodeToken raw) = some raw) ∧
    ((∀ other, decodeToken token = some other → token = encodeToken other) ↔
      ¬ NeedlesslySpelled token) := by
  refine ⟨encodeToken_holds raw, ?_⟩
  constructor
  · rintro isEncoded ⟨pieces, raw, spells, fault⟩
    have decoded := (decodeToken_eq_some_iff token raw).mpr
      (.inr ⟨spells.ne_underscore, pieces, spells⟩)
    have same := isEncoded raw decoded
    rcases fault with absent | ⟨piece, mem, needless⟩
    · rw [absent] at spells
      exact (encodeToken_holds raw).1 (same.symm.trans spells.1)
    · exact spells.not_encoded mem needless same
  · intro fine raw decoded
    rcases (decodeToken_eq_some_iff token raw).mp decoded with
      ⟨underscore, empty⟩ | ⟨_, pieces, spells⟩
    · rw [underscore, empty]
      rfl
    · apply spells.encoded
      · intro absent
        exact fine ⟨pieces, raw, spells, .inl absent⟩
      · intro piece mem
        apply Bool.eq_false_iff.mpr
        intro needless
        exact fine ⟨pieces, raw, spells, .inr ⟨piece, mem, needless⟩⟩

/-- The empty text and an escaped letter decode, though the encoder spells neither. -/
theorem needless_spellings_decode :
    ¬ ∀ token raw, decodeToken token = some raw → token = encodeToken raw := by
  intro all
  have escaped := all ['_', '6', '1'] ['a'] (by decide)
  have empty := all [] [] (by decide)
  revert empty escaped
  decide

end AgentDeck.Inbox
