import AgentDeck.Inbox.Framing

/-!
# Blocks

`render_marked` of `src/inbox_hub.rs` writes the block an agent sees, within a budget, and
`delivered` of `src/inbox_prompt.rs` reads from a prompt the attempts whose blocks it carries whole.
-/

namespace AgentDeck.Inbox

open Pattern

/-! ## Message ids -/

/-- `[a-z2-7]`. -/
def isDeckChar (c : Char) : Bool :=
  (decide ('a' ≤ c) && decide (c ≤ 'z')) || (decide ('2' ≤ c) && decide (c ≤ '7'))

/-- `[0-9a-f]`. -/
def isHexChar (c : Char) : Bool :=
  (decide ('0' ≤ c) && decide (c ≤ '9')) || (decide ('a' ≤ c) && decide (c ≤ 'f'))

def isValidDeckId (text : Text) : Bool := decide (Text.len text = 8) && text.all isDeckChar

def notDash (c : Char) : Bool := decide (c ≠ '-')

/-- `m-[a-z2-7]{8}-[0-9a-f]{16}`. -/
def isValidMessageId : Text → Bool
  | 'm' :: '-' :: rest =>
    match rest.dropWhile notDash with
    | [] => false
    | _ :: hex =>
      isValidDeckId (rest.takeWhile notDash) && decide (Text.len hex = 16) && hex.all isHexChar
  | _ => false

/-! ## Budgets -/

/-- A hand-over's size limit, in the unit the receiving agent counts. -/
inductive InboxBudget
  | chars (limit : ℕ)
  | bytes (limit : ℕ)
  | jsonBytes (limit : ℕ)

def jsonEscapedCharLen (c : Char) : ℕ :=
  if c = '"' ∨ c = '\\' ∨ c = '\n' ∨ c = '\r' ∨ c = '\t' ∨ c.toNat = 8 ∨ c.toNat = 12 then 2
  else if c.toNat < 0x20 then 6
  else c.utf8Size

/-- The longest beginning within `max` bytes of a JSON string. -/
def cutJson : Text → ℕ → Text
  | [], _ => []
  | c :: rest, max =>
    if jsonEscapedCharLen c ≤ max then c :: cutJson rest (max - jsonEscapedCharLen c) else []

namespace InboxBudget

def measure (budget : InboxBudget) (text : Text) : ℕ :=
  match budget with
  | chars _ => text.length
  | bytes _ => Text.len text
  | jsonBytes _ => (text.map jsonEscapedCharLen).sum

def limit : InboxBudget → ℕ
  | chars limit | bytes limit | jsonBytes limit => limit

/-- The longest beginning of `text` within `max` of the budget's unit. -/
def head (budget : InboxBudget) (text : Text) (max : ℕ) : Text :=
  match budget with
  | chars _ => text.take max
  | bytes _ => Text.cutBytes text max
  | jsonBytes _ => cutJson text max

end InboxBudget

def inlineHeadChars : ℕ := 2048

/-! ## Where a saved report is -/

def isInert (text : Text) : Bool :=
  !text.isEmpty && text.all fun c => !Text.isWhitespace c && !isFrameBreaking c

def fileName (path : Text) : Option Text :=
  ((path.splitOn '/').filter fun part => decide (part ≠ []) && decide
    (part ≠ ['.'])).getLast?.filter
    fun name => decide (name ≠ "..".toList)

/-- Where a saved report is, spelled out only when every character of it is inert. -/
def describeSavedReportLocation (path savedIn : Text) : Text :=
  if isInert path then path
  else
    match (fileName path).filter isInert with
    | some name => name ++ " in the .dot-agent-deck directory of ".toList ++ savedIn
    | none => "a file in the .dot-agent-deck directory of ".toList ++ savedIn

def spillSavedIn : Text := "the working directory the deck saved it under".toList

/-! ## Rendering -/

/-- A number as `format!` writes it. -/
def decimal (n : ℕ) : Text := Nat.toDigits 10 n

def repeatLine (originalId : Text) : Text :=
  "This may repeat dot-agent-deck message ".toList ++ originalId ++
    ", which may already have reached you. If you already started it, ".toList ++
    "continue that work instead of starting it again.".toList

def deliveryWord : Text := " delivery ".toList

def fromWord : Text := " from ".toList

def dot : Text := ".".toList

/-- How the opener names the attempt. -/
def deliveryText : Option (UInt32 × UInt32) → Text
  | none => []
  | some (a, e) => deliveryWord ++ decimal a.toNat ++ dot ++ decimal e.toNat

structure InboxDelivery where
  id : Text
  subject : Text
  sender : Text
  text : Text
  attempt : Option (UInt32 × UInt32)

section

variable (words : WordChars) (message : Message) (repeated : Bool)
  (delivery : Option (UInt32 × UInt32))

def openerRest : Text :=
  deliveryText delivery ++ fromWord ++
    kindSenderLabel message.kind message.sender message.bodyTrust ++ "]".toList

/-- The opener, then who sent it, and the repeat line of a marked repeat. -/
def blockHead : Text :=
  blockOpener ++ message.id.toList ++ openerRest message delivery ++ '\n' :: provenancePrefix ++
    senderProvenance message.sender message.bodyTrust ++ dot ++
    if repeated then '\n' :: repeatLine message.id.toList else []

/-- What the deck says about the body, ahead of it. -/
def prefaceText : Text :=
  match message.preface with
  | none => []
  | some text => Text.trimEnd (defuseMarkers words text) ++ ['\n']

def rawBody : Text :=
  match message.bodyTrust with
  | .untrusted => defuseMarkers words message.body
  | .trusted => message.body

def framed (text : Text) : Text :=
  match message.bodyTrust with
  | .untrusted => frameUntrustedReportForFile words text
  | .trusted => text

def assemble (body : Text) : Text :=
  blockHead message repeated delivery ++ '\n' :: (prefaceText words message ++ body ++
    (if body.getLast? = some '\n' then [] else ['\n']) ++ closer message.id.toList)

def cutTail (rest : ℕ) : Text :=
  match message.spillPath with
  | some path => "The full message is in ".toList ++
      describeSavedReportLocation path spillSavedIn ++ dot
  | none => "(".toList ++ decimal rest ++
      " more characters of this message did not fit.)".toList

def cut (kept : Text) : Text :=
  assemble words message repeated delivery
    (framed words message (kept ++ "\n…\n".toList) ++
      cutTail message ((rawBody words message).length - kept.length))

/-- Framing can lengthen a cut head: give the excess back until the block fits. -/
def fit (budget : InboxBudget) (room : ℕ) : Text :=
  let text := cut words message repeated delivery (budget.head (rawBody words message) room)
  if 0 < room ∧ budget.limit < budget.measure text then
    fit budget (room - (budget.measure text - budget.limit))
  else text
termination_by room
decreasing_by
  rename_i exceeds
  exact Nat.sub_lt exceeds.1 (Nat.sub_pos_of_lt exceeds.2)

/-- The block's text within a budget. -/
def blockText (budget : Option InboxBudget) : Text :=
  let whole := assemble words message repeated delivery
    (framed words message (rawBody words message))
  match budget with
  | none => whole
  | some budget =>
    if budget.limit < budget.measure whole then
      let structured := budget.measure (cut words message repeated delivery [])
      fit words message repeated delivery budget
        (min (budget.limit - structured) inlineHeadChars)
    else whole

def renderMarked (budget : Option InboxBudget) : InboxDelivery where
  id := message.id.toList
  subject := message.subject
  sender := kindSenderLabel message.kind message.sender message.bodyTrust
  text := blockText words message repeated delivery budget
  attempt := none

end

/-! ## Reading a prompt -/

def maxIds : ℕ := 16

structure InboxAttemptRef where
  id : Text
  a : UInt32
  e : UInt32
  deriving DecidableEq

/-- `\[dot-agent-deck message (m-[a-z2-7]{8}-[0-9a-f]{16})`. -/
def promptOpener : List (Piece Char) :=
  literal (blockOpener ++ "m-".toList) ++ exactly 8 isDeckChar ::
    (literal "-".toList ++ [exactly 16 isHexChar])

def isDigit (c : Char) : Bool := decide ('0' ≤ c) && decide (c ≤ '9')

/-- `\A delivery ([0-9]{1,10})\.([0-9]{1,10}) from `. -/
def promptDelivery : List (Piece Char) :=
  literal deliveryWord ++ .rep isDigit 1 (some 10) ::
    (literal dot ++ .rep isDigit 1 (some 10) :: literal fromWord)

/-- `parse::<u32>` of decimal digits. -/
def parseU32 (digits : Text) : Option UInt32 :=
  let n := Nat.ofDigitChars 10 digits 0
  if n < 2 ^ 32 then some (UInt32.ofNat n) else none

/-- The attempt an opener names after its id. -/
def attemptNamed (text : Text) : Option (UInt32 × UInt32) :=
  match matchAt promptDelivery none text with
  | none => none
  | some segments => do
      let a ← parseU32 (segments.getD 10 [])
      let e ← parseU32 (segments.getD 12 [])
      some (a, e)

/-- One pass of the loop of `delivered`: the attempt a block of `id` names is added once. -/
def withAttempt (found : List InboxAttemptRef) (id : Text) (named : Option (UInt32 × UInt32)) :
    List InboxAttemptRef :=
  match named with
  | none => found
  | some (a, e) =>
    if isValidMessageId id = true ∧ ⟨id, a, e⟩ ∉ found then found ++ [⟨id, a, e⟩] else found

/-- The loop of `delivered`; every pass takes a block off the text. -/
def deliveredFrom : ℕ → List InboxAttemptRef → Text → List InboxAttemptRef
  | 0, found, _ => found
  | fuel + 1, found, text =>
    if maxIds ≤ found.length then found
    else
      match search promptOpener none text with
      | none => found
      | some opened =>
        let id := opened.segments.flatten.drop blockOpener.length
        match search (literal (closer id)) none opened.rest with
        | none => found
        | some closed =>
          deliveredFrom fuel (withAttempt found id (attemptNamed opened.rest)) closed.rest

/-- The exact attempts whose blocks `prompt` carries whole, at its top level. -/
def delivered (prompt : Text) : List InboxAttemptRef := deliveredFrom prompt.length [] prompt

end AgentDeck.Inbox
