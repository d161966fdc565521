import AgentDeck.OneShot.Emits
import AgentDeck.OneShot.Json

/-!
# Envelopes

`Envelope::parts` of `src/inbox_prompt.rs`: the JSON a hook prints for its framing and the blocks,
in parts, so that each block is a piece of its own. What its pieces come to is the line of one JSON
value.
-/

namespace AgentDeck.OneShot

open Retained (escape quote)

def blockSeparator : Text := "\n\n".toList

inductive Envelope where
  | context (hookEventName : Text)
  | block

structure HookOutputParts where
  head : Text
  separator : Text
  blocks : List Text
  tail : Text

def jsonEscaped (text : Text) : Text := (quote text).tail.dropLast

/-! The literal parts of the JSON. -/

def contextOpening : Text := "\x7b\"hookSpecificOutput\":\x7b\"additionalContext\":\"".toList

def contextEvent : Text := "\",\"hookEventName\":".toList

def contextClosing : Text := "\x7d\x7d\n".toList

def blockOpening : Text := "\x7b\"decision\":\"block\",\"reason\":\"".toList

def blockClosing : Text := "\"\x7d\n".toList

namespace Envelope

def head : Envelope → Text → Text
  | context _, framing => contextOpening ++ jsonEscaped framing
  | block, framing => blockOpening ++ jsonEscaped framing

def tail : Envelope → Text
  | context hookEventName => contextEvent ++ quote hookEventName ++ contextClosing
  | block => blockClosing

def parts (envelope : Envelope) (framing : Text) (blocks : List Text) : HookOutputParts where
  head := envelope.head framing
  separator := jsonEscaped blockSeparator
  blocks := blocks.map jsonEscaped
  tail := envelope.tail

end Envelope

def HookOutputParts.pieces (parts : HookOutputParts) : List Piece :=
  [.opens (utf8 parts.head), .opens (utf8 parts.separator)] ++
    blockPieces (utf8 parts.separator) 0 (parts.blocks.map utf8) ++ [.closes (utf8 parts.tail)]

/-! ## What an envelope tells -/

namespace Envelope

def value (text : Text) : Envelope → Json
  | context hookEventName =>
    .object (.cons "hookSpecificOutput".toList
      (.object (.cons "additionalContext".toList (.string text)
        (.cons "hookEventName".toList (.string hookEventName) .nil))) .nil)
  | block =>
    .object (.cons "decision".toList (.string "block".toList)
      (.cons "reason".toList (.string text) .nil))

/-- The framing and the blocks that passed, each with the separator before it. -/
def contents (framing : Text) (passed : List Text) : Text :=
  framing ++ passed.flatMap fun text => blockSeparator ++ text

/-- The line a hook prints for the blocks that passed, if any did. -/
def line (envelope : Envelope) (framing : Text) (passed : List Text) : Text :=
  if passed = [] then [] else (envelope.value (contents framing passed)).write ++ ['\n']

def layout (envelope : Envelope) (framing : Text) : Layout where
  base := []
  opening := utf8 (envelope.head framing) ++ utf8 (jsonEscaped blockSeparator)
  separator := utf8 (jsonEscaped blockSeparator)
  tail := utf8 envelope.tail

end Envelope

theorem jsonEscaped_eq (text : Text) : jsonEscaped text = text.flatMap escape := by
  simp only [jsonEscaped, quote, List.tail_cons, List.dropLast_concat]

theorem utf8_append (left right : Text) : utf8 (left ++ right) = utf8 left ++ utf8 right :=
  List.flatMap_append

def OneShotBatch.envelopePieces (batch : OneShotBatch) (envelope : Envelope) (framing : Text) :
    List Piece :=
  (envelope.parts framing batch.texts).pieces

/-- The blocks as an envelope carries them. -/
def OneShotBatch.escaped (batch : OneShotBatch) : List Bytes :=
  batch.texts.map fun text => utf8 (jsonEscaped text)

theorem jsonEscaped_ne_nil {text : Text} (filled : text ≠ []) : jsonEscaped text ≠ [] := by
  cases text with
  | nil => exact absurd rfl filled
  | cons c rest =>
    rw [jsonEscaped_eq]
    intro empty
    have first := length_escape c
    rw [(List.append_eq_nil_iff.mp empty).1] at first
    cases first

theorem OneShotBatch.escaped_filled {batch : OneShotBatch}
    (filled : ∀ block ∈ batch.blocks, block.text ≠ []) : ∀ text ∈ batch.escaped, text ≠ [] := by
  intro text mem
  simp only [escaped, texts, List.map_map, List.mem_map] at mem
  rcases mem with ⟨block, inside, is⟩
  rw [← is]
  exact utf8_ne_nil (jsonEscaped_ne_nil (filled block inside))

theorem envelope_emits {batch : OneShotBatch} (filled : ∀ block ∈ batch.blocks, block.text ≠ [])
    (envelope : Envelope) (framing : Text) (answers : List Answer) (fence : FenceAnswers) :
    Emits (Hand.new batch (batch.envelopePieces envelope framing) answers)
      (batch.written (batch.envelopePieces envelope framing) answers fence)
      ((envelope.layout framing).events (batch.passes fence) batch.escaped) := by
  have pieces : batch.envelopePieces envelope framing =
      .opens (utf8 (envelope.head framing)) :: .opens (utf8 (jsonEscaped blockSeparator)) ::
        (blockPieces (utf8 (jsonEscaped blockSeparator)) 0 batch.escaped ++
          [.closes (utf8 envelope.tail)]) := by
    simp only [OneShotBatch.envelopePieces, Envelope.parts, HookOutputParts.pieces, List.map_map]
    rfl
  have started := new_reached batch (envelope.layout framing)
    (batch.envelopePieces envelope framing) answers
    (show [utf8 (envelope.head framing), utf8 (jsonEscaped blockSeparator)].flatten = _ by
      simp [Envelope.layout])
  -- The two opening pieces are held, not written.
  have opened : batch.written (batch.envelopePieces envelope framing) answers fence =
      Hand.pieces { Hand.new batch (batch.envelopePieces envelope framing) answers with
        opening := [utf8 (envelope.head framing), utf8 (jsonEscaped blockSeparator)] } batch fence
        (blockPieces (utf8 (jsonEscaped blockSeparator)) 0 batch.escaped ++
          [Piece.closes (utf8 envelope.tail)]) := by
    rw [OneShotBatch.written]
    generalize begins : Hand.new batch (batch.envelopePieces envelope framing) answers = h
    rw [pieces, ← begins]
    rfl
  rw [opened]
  refine (blocks_emit fence [.closes (utf8 envelope.tail)] (fun any =>
    if any then (utf8 envelope.tail).map (Event.byte .frame) else []) started (fun _ => rfl)
    (show 0 + batch.escaped.length ≤ _ by simp [OneShotBatch.escaped, OneShotBatch.texts])
    (OneShotBatch.escaped_filled filled) ?_ : _)
  intro h any last _
  have closed : Emits h (h.piece batch fence (.closes (utf8 envelope.tail)))
      (if any then (utf8 envelope.tail).map (Event.byte .frame) else []) := by
    simp only [Hand.piece, last.any]
    cases any with
    | true => exact h.write_emits .frame (utf8 envelope.tail)
    | false => exact Emits.refl last.fine
  have all : Emits h (h.pieces batch fence [.closes (utf8 envelope.tail)]) (_ ++ []) :=
    pieces_emits closed fun fine => Emits.refl fine
  rw [List.append_nil] at all
  exact all

end AgentDeck.OneShot
