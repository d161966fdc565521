import AgentDeck.Inbox.Render

/-!
# A one-shot's batch

`OneShotBatch` of `src/inbox_oneshot.rs` writes its blocks to the agent through a counting writer,
asking the fence just before each block's first byte, and reports what became of every attempt.
-/

namespace AgentDeck.OneShot

open Inbox (InboxAttemptRef)

abbrev Bytes := List UInt8

/-- `str::as_bytes`. -/
def utf8 (text : Text) : Bytes := text.flatMap String.utf8EncodeChar

structure InboxAttemptCaps where
  handed : Text
  commit : Text

structure Block where
  at_ : InboxAttemptRef
  text : Text
  caps : Option InboxAttemptCaps

structure OneShotBatch where
  blocks : List Block

inductive Receiver where
  | waiter
  | hook
  deriving DecidableEq

inductive Output where
  | notHanded
  | possible
  | written
  deriving DecidableEq

/-- One piece of what a one-shot writes; `Open` and `Close` are `opens` and `closes`. -/
inductive Piece where
  | frame (bytes : Bytes)
  | block (i : ℕ) (bytes : Bytes)
  | joint (bytes : Bytes)
  | opens (bytes : Bytes)
  | closes (bytes : Bytes)

namespace OneShotBatch

def texts (batch : OneShotBatch) : List Text := batch.blocks.map Block.text

end OneShotBatch

/-- The pieces of the blocks from the `i`-th on, with `separator` before each but the first. -/
def blockPieces (separator : Bytes) : ℕ → List Bytes → List Piece
  | _, [] => []
  | 0, text :: rest => .block 0 text :: blockPieces separator 1 rest
  | i + 1, text :: rest =>
    .joint separator :: .block (i + 1) text :: blockPieces separator (i + 2) rest

namespace OneShotBatch

def plainPieces (batch : OneShotBatch) (head separator : Text) : List Piece :=
  (if head = [] then [] else [.frame (utf8 head)]) ++
    blockPieces (utf8 separator) 0 (batch.texts.map utf8)

end OneShotBatch

/-! ## The counting writer -/

/-- `std::io::Error`. -/
inductive WriteError where
  | writeZero
  | kind (code : ℕ)
  deriving DecidableEq

/-- What one call of `write` answers. `accepted` takes so many of the bytes it is given, all of them
where they are fewer. -/
inductive Answer where
  | accepted (bytes : ℕ)
  | interrupted
  | failed (error : WriteError)
  deriving DecidableEq

/-- `write_counted` of so many bytes, to a writer that gives these answers, and takes what it is
given once they are over: the bytes accepted, the error that stopped it, and the answers left. -/
def writeCounted : List Answer → ℕ → ℕ × Option WriteError × List Answer
  | answers, 0 => (0, none, answers)
  | [], len => (len, none, [])
  | .accepted 0 :: rest, _ => (0, some .writeZero, rest)
  | .accepted (n + 1) :: rest, len =>
    let took := min (n + 1) len
    let more := writeCounted rest (len - took)
    (took + more.1, more.2)
  | .interrupted :: rest, len => writeCounted rest len
  | .failed error :: rest, _ => (0, some error, rest)

/-! ## The hand-over -/

/-- What a byte belongs to: framing, what is written before a block, or the block. -/
inductive Part where
  | frame
  | lead (i : ℕ)
  | block (i : ℕ)
  deriving DecidableEq

/-- What happens outside: a block's fence is asked, or a byte is accepted. -/
inductive Event where
  | asked (i : ℕ) (passed : Bool)
  | byte (part : Part) (value : UInt8)
  deriving DecidableEq

structure Progress where
  len : ℕ
  accepted : ℕ
  fenced : Option Bool

/-- The variables of `hand_over`, the writer's answers to come, and the events so far. -/
structure Hand where
  progress : List Progress
  joint : Option Bytes
  opening : List Bytes
  passedAny : Bool
  error : Option WriteError
  answers : List Answer
  events : List Event

/-- The fence's answers: any function of how often it was asked, and of the attempt. -/
abbrev FenceAnswers := ℕ → InboxAttemptRef → Bool

def Event.asks : Event → Bool
  | .asked _ _ => true
  | .byte _ _ => false

namespace Hand

def write (h : Hand) (part : Part) (bytes : Bytes) : Hand :=
  let counted := writeCounted h.answers bytes.length
  { h with
    error := counted.2.1
    answers := counted.2.2
    events := h.events ++ (bytes.take counted.1).map (Event.byte part) }

/-- A block's bytes, which its progress counts. -/
def writeBlock (h : Hand) (i : ℕ) (bytes : Bytes) : Hand :=
  let accepted := (writeCounted h.answers bytes.length).1
  { h.write (.block i) bytes with
    progress := h.progress.modify i fun p => { p with accepted := p.accepted + accepted } }

/-- The writes of a lead, up to the first that fails. -/
def writeLead (h : Hand) (i : ℕ) : List Bytes → Hand
  | [] => h
  | bytes :: rest =>
    let written := h.write (.lead i) bytes
    if written.error.isSome then written else written.writeLead i rest

def fence (h : Hand) (answers : FenceAnswers) (i : ℕ) (ref : InboxAttemptRef) (p : Progress) :
    Bool × Hand :=
  match p.fenced with
  | some passed => (passed, h)
  | none =>
    let passed := answers (h.events.filter Event.asks).length ref
    (passed, { h with
      progress := h.progress.modify i fun p => { p with fenced := some passed }
      events := h.events ++ [.asked i passed] })

/-- What the first block written, or a later one, takes with it. -/
def lead (h : Hand) : List Bytes := if h.passedAny then h.joint.toList else h.opening

/-- A block's piece once its fence has passed it. -/
def passBlock (h : Hand) (i : ℕ) (bytes : Bytes) (first : Bool) : Hand :=
  if first then
    let written := { h with
      joint := none
      opening := if h.passedAny then h.opening else []
      passedAny := true }.writeLead i h.lead
    if written.error.isSome then written else written.writeBlock i bytes
  else h.writeBlock i bytes

def piece (h : Hand) (batch : OneShotBatch) (answers : FenceAnswers) : Piece → Hand
  | .frame bytes => h.write .frame bytes
  | .joint bytes => { h with joint := some bytes }
  | .opens bytes =>
    if h.passedAny then h.write .frame bytes else { h with opening := h.opening ++ [bytes] }
  | .closes bytes => if h.passedAny then h.write .frame bytes else h
  | .block i bytes =>
    match batch.blocks[i]?, h.progress[i]? with
    | some block, some p =>
      if bytes = [] then h
      else
        let fenced := h.fence answers i block.at_ p
        if fenced.1 then fenced.2.passBlock i bytes p.fenced.isNone
        else { fenced.2 with joint := none }
    | _, _ => h

def pieces (h : Hand) (batch : OneShotBatch) (answers : FenceAnswers) : List Piece → Hand
  | [] => h
  | piece :: rest =>
    let done := h.piece batch answers piece
    if done.error.isSome then done else done.pieces batch answers rest

end Hand

/-- The bytes of a block's pieces. -/
def pieceLen (i : ℕ) : Piece → ℕ
  | .block j bytes => if j = i then bytes.length else 0
  | _ => 0

variable (batch : OneShotBatch)

def Hand.new (pieces : List Piece) (answers : List Answer) : Hand where
  progress := (List.range batch.blocks.length).map fun i => ⟨(pieces.map (pieceLen i)).sum, 0, none⟩
  joint := none
  opening := []
  passedAny := false
  error := none
  answers := answers
  events := []

structure HandOver where
  outputs : List Output
  error : Option WriteError

def Progress.output (p : Progress) (error : Option WriteError) : Output :=
  if p.accepted = 0 then .notHanded
  else if p.accepted = p.len ∧ error = none then .written
  else .possible

def OneShotBatch.written (pieces : List Piece) (answers : List Answer) (fence : FenceAnswers) :
    Hand :=
  (Hand.new batch pieces answers).pieces batch fence pieces

def OneShotBatch.handOver (pieces : List Piece) (answers : List Answer) (flush : Option WriteError)
    (fence : FenceAnswers) : HandOver :=
  let done := batch.written pieces answers fence
  let error := if done.error.isNone then flush else done.error
  { outputs := done.progress.map fun p => p.output error
    error := error }

/-! ## The reports -/

inductive RecordStage where
  | handed
  | committed
  deriving DecidableEq

structure RecordKey where
  msg : Text
  a : UInt32
  e : UInt32
  stage : RecordStage
  deriving DecidableEq

def stageOf : Receiver → Output → Option RecordStage
  | _, .notHanded => none
  | .hook, .written => some .committed
  | _, .possible => some .handed
  | .waiter, .written => some .handed

def hexDigit (c : Char) : Option ℕ :=
  if '0' ≤ c ∧ c ≤ '9' then some (c.toNat - '0'.toNat)
  else if 'a' ≤ c ∧ c ≤ 'f' then some (c.toNat - 'a'.toNat + 10)
  else if 'A' ≤ c ∧ c ≤ 'F' then some (c.toNat - 'A'.toNat + 10)
  else none

/-- `u8::from_str_radix` of two characters, the first of which may be a plus sign. -/
def hexByte (first second : Char) : Option ℕ :=
  if first = '+' then hexDigit second
  else
    match hexDigit first, hexDigit second with
    | some high, some low => some (16 * high + low)
    | _, _ => none

def hexBytes : Text → Option (List ℕ)
  | [] => some []
  | [_] => none
  | first :: second :: rest =>
    match hexByte first second, hexBytes rest with
    | some byte, some bytes => some (byte :: bytes)
    | _, _ => none

abbrev Cap := List ℕ

def Cap.fromHex (text : Text) : Option Cap := if Text.len text = 32 then hexBytes text else none

/-- `GenerationSpool::publish`: the error of a record that could not be written. -/
abbrev GenerationSpool := RecordKey → Cap → Option Text

def RecordStage.cap (caps : InboxAttemptCaps) : RecordStage → Text
  | .handed => caps.handed
  | .committed => caps.commit

def Block.key (block : Block) (stage : RecordStage) : RecordKey :=
  ⟨block.at_.id, block.at_.a, block.at_.e, stage⟩

/-- What one block's publication came to: its record, where one was tried, and its error. -/
def publishBlock (spool : Option GenerationSpool) (block : Block) (stage : RecordStage) :
    Option (RecordKey × Cap) × Option Text :=
  match spool, (block.caps.map stage.cap).map Cap.fromHex with
  | _, none => (none, some "a hand-out came without its caps".toList)
  | _, some none => (none, some "a hand-out came with a malformed cap".toList)
  | none, some (some _) => (none, some "the receipt spool is not open".toList)
  | some spool, some (some cap) =>
    (some (block.key stage, cap),
      (spool (block.key stage) cap).map fun error =>
        "a receipt could not be published: ".toList ++ error)

def OneShotBatch.staged (outputs : List Output) (receiver : Receiver) :
    List (Block × RecordStage) :=
  (batch.blocks.zip outputs).filterMap fun entry =>
    (stageOf receiver entry.2).map fun stage => (entry.1, stage)

def OneShotBatch.publish (spool : Option GenerationSpool)
    (outputs : List Output) (receiver : Receiver) : List (RecordKey × Cap) × Option Text :=
  let published := (batch.staged outputs receiver).map fun entry =>
    publishBlock spool entry.1 entry.2
  (published.filterMap Prod.fst, published.findSome? Prod.snd)

structure Controls where
  handed : List InboxAttemptRef
  committed : List InboxAttemptRef
  notHanded : List InboxAttemptRef
  degraded : Option Text
  deriving DecidableEq

def Controls.push (controls : Controls) (ref : InboxAttemptRef) : Option RecordStage → Controls
  | none => { controls with notHanded := controls.notHanded ++ [ref] }
  | some .handed => { controls with handed := controls.handed ++ [ref] }
  | some .committed => { controls with committed := controls.committed ++ [ref] }

def OneShotBatch.controls (batch : OneShotBatch) (outputs : List Output) (receiver : Receiver)
    (degraded : Option Text) : Controls :=
  (batch.blocks.zip outputs).foldl
    (fun controls entry => controls.push entry.1.at_ (stageOf receiver entry.2))
    ⟨[], [], [], degraded⟩

end AgentDeck.OneShot
