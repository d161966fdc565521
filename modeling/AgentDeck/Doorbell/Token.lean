import AgentDeck.Doorbell.Latch

/-!
# Ring tokens, attempt numbers and the doorbell line

The token-led line one transaction types, and where its token and its attempt number come from.
Texts are lists of characters. The line is ASCII (`RingToken.line_ascii`), so where the source
counts its bytes and where it counts its characters the model counts characters.
-/

namespace AgentDeck.Doorbell

abbrev Text := List Char

def isAsciiLowercase (c : Char) : Bool := decide ('a'.toNat ≤ c.toNat ∧ c.toNat ≤ 'z'.toNat)

/-- Six letters, packed five bits each; every group is a letter's place in the alphabet. -/
structure RingToken where
  bits : ℕ
  spelled : ∀ i < 6, bits / 32 ^ i % 32 < 26
  deriving DecidableEq

def tokenAlphabet : Text := "abcdfgimoprtvwxz".toList

def ringSlots : ℕ := 64

def tokenDraws : ℕ := 32

namespace RingToken

def pack (text : Text) : ℕ :=
  text.foldl (fun packed c => packed * 32 + (c.toNat - 'a'.toNat)) 0

theorem pack_spelled {text : Text} (six : text.length = 6)
    (lower : text.all isAsciiLowercase) : ∀ i < 6, pack text / 32 ^ i % 32 < 26 := by
  match text, six with
  | [a, b, c, d, e, f], _ =>
    simp only [List.all_cons, isAsciiLowercase, Bool.and_eq_true, decide_eq_true_eq] at lower
    rcases lower with ⟨la, lb, lc, ld, le, lf, _⟩
    simp only [Char.reduceToNat] at la lb lc ld le lf
    intro i small
    simp only [pack, List.foldl_cons, List.foldl_nil, Char.reduceToNat]
    have cases : i = 0 ∨ i = 1 ∨ i = 2 ∨ i = 3 ∨ i = 4 ∨ i = 5 := by omega
    rcases cases with rfl | rfl | rfl | rfl | rfl | rfl <;> omega

def parse (text : Text) : Option RingToken :=
  if six : text.length = 6 then
    if lower : text.all isAsciiLowercase = true then some ⟨pack text, pack_spelled six lower⟩
    else none
  else none

def drawn (draw : UInt8) : Char := tokenAlphabet.getD (draw &&& 0x0f).toNat 'a'

theorem drawn_lower (draw : UInt8) : isAsciiLowercase (drawn draw) := by
  have bounded : (draw &&& 0x0f).toNat < 16 := by
    exact Nat.lt_of_le_of_lt Nat.and_le_right (by decide)
  have letters : ∀ i < 16, isAsciiLowercase (tokenAlphabet.getD i 'a') := by decide
  exact letters _ bounded

theorem parse_drawn (draw : ℕ → UInt8) :
    (parse ((List.range 6).map fun i => drawn (draw i))).isSome = true := by
  simp [parse, drawn_lower]

/-- Six letters of the alphabet, the `k`-th candidate of the draws. -/
def fromDraws (draw : ℕ → UInt8) (k : ℕ) : RingToken :=
  (parse ((List.range 6).map fun i => drawn (draw (6 * k + i)))).get (parse_drawn _)

def letters (token : RingToken) : Text :=
  [5, 4, 3, 2, 1, 0].map fun i => Char.ofNat ('a'.toNat + token.bits / 32 ^ i % 32)

end RingToken

structure MessageId where
  text : Text
  ascii : ∀ c ∈ text, c.toNat < 128

def linePrefix : Text := " dot-agent-deck: message ".toList

def lineSuffix : Text := " waiting, run: dot-agent-deck inbox fetch".toList

def doorbellLine (id : MessageId) : Text := linePrefix ++ id.text ++ lineSuffix

namespace RingToken

def line (token : RingToken) (id : MessageId) : Text :=
  '(' :: (token.letters ++ ')' :: doorbellLine id)

end RingToken

/-! ## Attempt numbers and the ring -/

def attemptReserved : UInt32 := 0xffffffff

structure AttemptCounter where
  next : UInt32

namespace AttemptCounter

def allocate (counter : AttemptCounter) : Option UInt32 × AttemptCounter :=
  if counter.next = attemptReserved then (none, counter)
  else (some counter.next, ⟨counter.next + 1⟩)

end AttemptCounter

/-- One entry: the attempt in the high 32 bits, the token below. -/
def ringEntry (attempt : UInt32) (token : RingToken) : ℕ := attempt.toNat * 2 ^ 32 + token.bits

structure AttemptRing where
  slots : List ℕ
  deriving DecidableEq

namespace AttemptRing

def default : AttemptRing := ⟨List.replicate ringSlots 0⟩

def record (ring : AttemptRing) (attempt : UInt32) (token : RingToken) : AttemptRing :=
  ⟨ring.slots.set (attempt.toNat % ringSlots) (ringEntry attempt token)⟩

def lookup (ring : AttemptRing) (token : RingToken) : Option ℕ :=
  ((ring.slots.filter fun entry => entry ≠ 0 ∧ entry % 2 ^ 32 = token.bits).map
    fun entry => entry / 2 ^ 32).max?

end AttemptRing

/-- The first candidate that is neither on the screen nor recent. -/
def pickToken (draw : ℕ → UInt8) (screen : Text) (ring : AttemptRing) : Option RingToken :=
  ((List.range tokenDraws).map (RingToken.fromDraws draw)).find? fun candidate =>
    !decide (candidate.letters <:+: screen) && (ring.lookup candidate).isNone

end AgentDeck.Doorbell
