import AgentDeck.OneShot.Exact

/-!
# A hand-over, truthfully reported

What each block's progress counts are its bytes, so its outcome says what became of it, and the
receipts and the report follow the outcomes.
-/

namespace AgentDeck.OneShot

/-! ## Progress counts bytes -/

/-- Each block's progress has its length, and counts the bytes of it that were accepted. -/
structure Counted (lens : List ℕ) (h : Hand) : Prop where
  lens : h.progress.map Progress.len = lens
  accepted : ∀ i p, h.progress[i]? = some p → p.accepted = (bytesOf (.block i) h.events).length

namespace Counted

variable {lens : List ℕ} {h : Hand}

section

variable (counted : Counted lens h)

include counted

theorem of_same {h' : Hand} (progress : h'.progress = h.progress)
    (events : ∀ i, bytesOf (.block i) h'.events = bytesOf (.block i) h.events) :
    Counted lens h' where
  lens := progress ▸ counted.lens
  accepted i p is := by
    rw [progress] at is
    rw [events]
    exact counted.accepted i p is

theorem write (part : Part) (other : ∀ i, part ≠ .block i) (bytes : Bytes) :
    Counted lens (h.write part bytes) := by
  refine counted.of_same rfl fun i => ?_
  simp only [Hand.write]
  rw [bytesOf_append, bytesOf_other (other i), List.append_nil]

theorem writeLead (i : ℕ) (lead : List Bytes) : Counted lens (h.writeLead i lead) := by
  induction lead generalizing h with
  | nil => exact counted
  | cons bytes rest hypothesis =>
    have written := counted.write (.lead i) (fun _ => Part.noConfusion) bytes
    simp only [Hand.writeLead]
    split
    · exact written
    · exact hypothesis written

omit counted in
theorem map_modify_len (progress : List Progress) (i : ℕ) (f : Progress → Progress)
    (same : ∀ p, (f p).len = p.len) :
    (progress.modify i f).map Progress.len = progress.map Progress.len := by
  refine List.ext_getElem? fun j => ?_
  rw [List.getElem?_map, List.getElem?_map, List.getElem?_modify]
  cases progress[j]? with
  | none => rfl
  | some p =>
    simp only [Option.map_some, Option.map_eq_map]
    split
    · rw [same]
    · rfl

theorem writeBlock (i : ℕ) (bytes : Bytes) :
    Counted lens (h.writeBlock i bytes) where
  lens := by
    refine (map_modify_len h.progress i _ ?_).trans counted.lens
    exact fun _ => rfl
  accepted j p is := by
    simp only [Hand.writeBlock, Hand.write] at is ⊢
    rw [bytesOf_append]
    by_cases same : i = j
    · subst same
      rw [List.getElem?_modify_eq] at is
      cases old : h.progress[i]? with
      | none =>
        rw [old] at is
        cases is
      | some q =>
        rw [old] at is
        have most := (writeCounted_spec h.answers bytes.length).1
        rw [← Option.some.inj is, bytesOf_self, List.length_append, List.length_take,
          Nat.min_eq_left most, ← counted.accepted i q old]
    · rw [getElem?_modify_other _ _ _ _ same] at is
      rw [bytesOf_other fun is => same (Part.block.inj is), List.append_nil]
      exact counted.accepted j p is

theorem fence (answers : FenceAnswers) (i : ℕ) (ref : Inbox.InboxAttemptRef) (p : Progress) :
    Counted lens (h.fence answers i ref p).2 := by
  simp only [Hand.fence]
  split
  · exact counted
  · refine ⟨?_, ?_⟩
    · refine (map_modify_len h.progress i _ ?_).trans counted.lens
      exact fun _ => rfl
    · intro j q is
      have silent : ∀ passed, bytesOf (.block j) [Event.asked i passed] = [] := fun _ => rfl
      rw [bytesOf_append, silent, List.append_nil]
      simp only [List.getElem?_modify, Option.map_eq_map, Option.map_eq_some_iff] at is
      rcases is with ⟨old, was, is⟩
      rw [← counted.accepted j old was, ← is]
      split <;> rfl

theorem passBlock (i : ℕ) (bytes : Bytes) (first : Bool) :
    Counted lens (h.passBlock i bytes first) := by
  simp only [Hand.passBlock]
  split
  · have opened : Counted lens { h with
        joint := none
        opening := if h.passedAny then h.opening else []
        passedAny := true } := counted.of_same rfl fun _ => rfl
    have after : ∀ written : Hand, Counted lens written →
        Counted lens (if written.error.isSome then written else written.writeBlock i bytes) := by
      intro written counted
      split
      · exact counted
      · exact counted.writeBlock i bytes
    exact after _ (opened.writeLead i h.lead)
  · exact counted.writeBlock i bytes

end

theorem piece (counted : Counted lens h) (batch : OneShotBatch) (answers : FenceAnswers)
    (piece : Piece) : Counted lens (h.piece batch answers piece) := by
  have frames : ∀ bytes, Counted lens (h.write .frame bytes) := fun bytes =>
    counted.write .frame (fun _ => Part.noConfusion) bytes
  cases piece with
  | frame bytes => exact frames bytes
  | joint bytes => exact counted.of_same rfl fun _ => rfl
  | opens bytes =>
    simp only [Hand.piece]
    split
    · exact frames bytes
    · exact counted.of_same rfl fun _ => rfl
  | closes bytes =>
    simp only [Hand.piece]
    split
    · exact frames bytes
    · exact counted
  | block i bytes =>
    simp only [Hand.piece]
    split
    · split
      · exact counted
      · split
        · exact (counted.fence answers i _ _).passBlock i bytes _
        · exact (counted.fence answers i _ _).of_same rfl fun _ => rfl
    · exact counted

theorem pieces (counted : Counted lens h) (batch : OneShotBatch) (answers : FenceAnswers)
    (pieces : List Piece) : Counted lens (h.pieces batch answers pieces) := by
  induction pieces generalizing h with
  | nil => exact counted
  | cons piece rest hypothesis =>
    have done := counted.piece batch answers piece
    simp only [Hand.pieces]
    split
    · exact done
    · exact hypothesis done

end Counted

/-! ## The pieces a batch is handed over in -/

/-- The pieces of a batch, what they come to, and the blocks as they carry them. -/
inductive Made (batch : OneShotBatch) : List Piece → Layout → (Text → Bytes) → Prop where
  | plain (head separator : Text) :
      Made batch (batch.plainPieces head separator) (plainLayout head separator) utf8
  | envelope (envelope : Envelope) (framing : Text) :
      Made batch (batch.envelopePieces envelope framing) (envelope.layout framing)
        fun text => utf8 (jsonEscaped text)

theorem pieceLen_blockPieces (separator : Bytes) (i j : ℕ) (texts : List Bytes) :
    ((blockPieces separator i texts).map (pieceLen j)).sum =
      if i ≤ j then ((texts[j - i]?).map List.length).getD 0 else 0 := by
  induction texts generalizing i with
  | nil => simp [blockPieces]
  | cons text texts hypothesis =>
    have here : ((blockPieces separator i (text :: texts)).map (pieceLen j)).sum =
        (if i = j then text.length else 0) +
          ((blockPieces separator (i + 1) texts).map (pieceLen j)).sum := by
      cases i with
      | zero => rfl
      | succ i =>
        simp only [blockPieces, List.map_cons, List.sum_cons, pieceLen, Nat.zero_add]
    rw [here, hypothesis]
    by_cases same : i = j
    · subst same
      have past : ¬ i + 1 ≤ i := by omega
      rw [if_pos rfl, if_neg past, if_pos (le_refl i), Nat.sub_self]
      rfl
    · rw [if_neg same, Nat.zero_add]
      by_cases later : i ≤ j
      · have next : j - i = (j - (i + 1)) + 1 := by omega
        rw [if_pos (by omega : i + 1 ≤ j), if_pos later, next, List.getElem?_cons_succ]
      · have past : ¬ i + 1 ≤ j := by omega
        rw [if_neg past, if_neg later]

namespace Made

variable {batch : OneShotBatch} {pieces : List Piece} {layout : Layout} {shown : Text → Bytes}

variable (made : Made batch pieces layout shown)

include made

theorem emits (filled : ∀ block ∈ batch.blocks, block.text ≠ []) (answers : List Answer)
    (fence : FenceAnswers) : Emits (Hand.new batch pieces answers)
      (batch.written pieces answers fence)
      (layout.events (batch.passes fence) (batch.texts.map shown)) := by
  cases made with
  | plain head separator => exact plain_emits filled head separator answers fence
  | envelope envelope framing => exact envelope_emits filled envelope framing answers fence

theorem shown_filled (filled : ∀ block ∈ batch.blocks, block.text ≠ []) :
    ∀ text ∈ batch.texts.map shown, text ≠ [] := by
  cases made with
  | plain => exact OneShotBatch.bytes_filled filled
  | envelope => exact OneShotBatch.escaped_filled filled

theorem pieceLen_sum (i : ℕ) :
    (pieces.map (pieceLen i)).sum = (((batch.texts.map shown)[i]?).map List.length).getD 0 := by
  cases made with
  | plain head separator =>
    have blocks := pieceLen_blockPieces (utf8 separator) 0 i (batch.texts.map utf8)
    rw [OneShotBatch.plainPieces, List.map_append, List.sum_append, blocks]
    split
    · exact Nat.zero_add _
    · exact Nat.zero_add _
  | envelope envelope framing =>
    have blocks := pieceLen_blockPieces (utf8 (jsonEscaped blockSeparator)) 0 i
      (batch.texts.map fun text => utf8 (jsonEscaped text))
    simp only [OneShotBatch.envelopePieces, HookOutputParts.pieces, Envelope.parts, List.map_append,
      List.sum_append, List.map_map]
    rw [show batch.texts.map (utf8 ∘ jsonEscaped) =
      batch.texts.map fun text => utf8 (jsonEscaped text) from rfl, blocks]
    simp [pieceLen]

theorem counted (answers : List Answer) (fence : FenceAnswers) :
    Counted ((batch.texts.map shown).map List.length) (batch.written pieces answers fence) := by
  refine Counted.pieces ?_ batch fence pieces
  constructor
  · refine List.ext_getElem? fun i => ?_
    simp only [Hand.new, List.getElem?_map]
    have sum := made.pieceLen_sum i
    simp only [List.getElem?_map] at sum
    by_cases inside : i < batch.blocks.length
    · have text : batch.texts[i]? = some batch.blocks[i].text := by
        simp only [OneShotBatch.texts, List.getElem?_map, List.getElem?_eq_getElem inside,
          Option.map_some]
      rw [text] at sum ⊢
      rw [List.getElem?_range inside]
      simp only [Option.map_some, sum, Option.getD_some]
    · have absent : batch.texts[i]? = none := by
        simp only [OneShotBatch.texts, List.getElem?_map, Option.map_eq_none_iff,
          List.getElem?_eq_none_iff]
        omega
      rw [absent, List.getElem?_eq_none (by rw [List.length_range]; omega)]
      rfl
  · intro i p is
    simp only [Hand.new, List.getElem?_map, Option.map_eq_some_iff] at is
    rcases is with ⟨_, _, same⟩
    rw [← same]
    rfl

end Made

/-! ## What a hand-over comes to -/

/-- The blocks the fence passed, by its questions and answers. -/
def OneShotBatch.passedTexts (batch : OneShotBatch) (asks : List (ℕ × Bool)) : List Text :=
  asks.filterMap fun ask => if ask.2 then batch.texts[ask.1]? else none

theorem chosen_eq (passes : ℕ → Bool) (before rest : List Text) {count : ℕ}
    (most : count ≤ rest.length) :
    ((answered passes before.length count).filterMap fun ask =>
        if ask.2 then (before ++ rest)[ask.1]? else none) =
      chosen passes before.length (rest.take count) := by
  induction rest generalizing before count with
  | nil =>
    rw [Nat.le_zero.mp most]
    rfl
  | cons text rest hypothesis =>
    cases count with
    | zero => rfl
    | succ count =>
      have later := hypothesis (before ++ [text]) (by
        rw [List.length_cons] at most
        omega : count ≤ rest.length)
      rw [List.length_append, List.length_singleton, List.append_assoc, List.singleton_append]
        at later
      have here : (before ++ text :: rest)[before.length]? = some text := by
        rw [List.getElem?_append_right (le_refl _), Nat.sub_self]
        rfl
      rw [answered_succ, List.take_succ_cons, chosen, List.filterMap_cons]
      cases passed : passes before.length with
      | false =>
        exact later
      | true =>
        simp only [if_true, here]
        rw [later]

/-- A hand-over is exact, and its outcomes say what became of each block. `cutBy` is the write error
that stopped it, and `flush` what a flush answers. -/
structure HandedOver (batch : OneShotBatch) (shown : Text → Bytes) (output : List Text → Bytes)
    (events : List Event) (cutBy flush : Option WriteError) (done : HandOver) : Prop where
  error : done.error = none ↔ cutBy = none ∧ flush = none
  once : ((asks events).map Prod.fst).Nodup
  fenced : Fenced events
  refused : ∀ i, (i, false) ∈ asks events → ∀ part value, part.of = some i →
    .byte part value ∉ events
  precise : ∃ missing, output (batch.passedTexts (asks events)) = accepted events ++ missing ∧
    (missing = [] ↔ cutBy = none)
  begun : ∀ i text, batch.texts[i]? = some text → bytesOf (.block i) events <+: shown text
  size : done.outputs.length = batch.blocks.length
  notHanded : ∀ i, i < batch.blocks.length →
    (done.outputs[i]? = some .notHanded ↔ bytesOf (.block i) events = [])
  written : ∀ i text, batch.texts[i]? = some text →
    (done.outputs[i]? = some .written ↔ bytesOf (.block i) events = shown text ∧ done.error = none)

theorem asks_nodup (passes : ℕ → Bool) (count : ℕ) :
    ((answered passes 0 count).map Prod.fst).Nodup := by
  have range : (answered passes 0 count).map Prod.fst = List.range count := by
    simp only [answered, List.map_map, Nat.zero_add]
    exact List.map_id _
  rw [range]
  exact List.nodup_range

theorem mem_asks {events : List Event} {i : ℕ} {passed : Bool} :
    (i, passed) ∈ asks events ↔ .asked i passed ∈ events := by
  simp only [asks, List.mem_filterMap]
  constructor
  · intro mem
    rcases mem with ⟨event, inside, is⟩
    cases event with
    | byte part value => exact absurd is.symm (Option.some_ne_none _)
    | asked j answer =>
      rw [← (Prod.mk.inj (Option.some.inj is)).1, ← (Prod.mk.inj (Option.some.inj is)).2]
      exact inside
  · intro mem
    exact ⟨_, mem, rfl⟩

theorem refused_of_fenced {events : List Event} (once : ((asks events).map Prod.fst).Nodup)
    (fenced : Fenced events) {i : ℕ} (refused : (i, false) ∈ asks events) {part : Part}
    {value : UInt8} (owner : part.of = some i) : .byte part value ∉ events := by
  intro mem
  rcases List.append_of_mem mem with ⟨before, after, split⟩
  have passed : (i, true) ∈ asks events := by
    rw [mem_asks, split]
    exact List.mem_append_left _ (fenced before part value after split i owner)
  have same := List.inj_on_of_nodup_map once passed refused rfl
  exact Bool.noConfusion (Prod.mk.inj same).2

theorem output_spec {p : Progress} {bytes whole : Bytes} {error : Option WriteError}
    (accepted : p.accepted = bytes.length) (len : p.len = whole.length) (begun : bytes <+: whole)
    (filled : whole ≠ []) :
    (p.output error = .notHanded ↔ bytes = []) ∧
      (p.output error = .written ↔ bytes = whole ∧ error = none) := by
  simp only [Progress.output, accepted, len]
  cases bytes with
  | nil =>
    refine ⟨⟨fun _ => rfl, fun _ => rfl⟩, ?_⟩
    simp only [List.length_nil, if_true, reduceCtorEq, false_iff, not_and]
    exact fun is => absurd is.symm filled
  | cons value bytes =>
    simp only [List.length_cons, Nat.succ_ne_zero, if_false]
    split
    · rename_i both
      simp only [reduceCtorEq, true_iff]
      exact ⟨trivial, begun.eq_of_length both.1, both.2⟩
    · rename_i short
      simp only [reduceCtorEq, false_iff]
      refine ⟨trivial, fun is => short ⟨?_, is.2⟩⟩
      rw [← is.1]
      rfl

theorem Made.handedOver {batch : OneShotBatch} {pieces : List Piece} {layout : Layout}
    {shown : Text → Bytes} (made : Made batch pieces layout shown)
    (filled : ∀ block ∈ batch.blocks, block.text ≠ []) {output : List Text → Bytes}
    (outputs : ∀ passed, layout.output (passed.map shown) = output passed) (answers : List Answer)
    (flush : Option WriteError) (fence : FenceAnswers) :
    HandedOver batch shown output (batch.written pieces answers fence).events
      (batch.written pieces answers fence).error flush
      (batch.handOver pieces answers flush fence) := by
  have emits := made.emits filled answers fence
  have counted := made.counted answers fence
  have nonempty := made.shown_filled filled
  generalize whole : batch.written pieces answers fence = h at emits counted
  have events : h.events = layout.events (batch.passes fence) (batch.texts.map shown) ∧
        h.error = none ∨
      h.error ≠ none ∧ h.events ≠ layout.events (batch.passes fence) (batch.texts.map shown) ∧
        Cut h.events (layout.events (batch.passes fence) (batch.texts.map shown)) := by
    rcases emits with ⟨fine, is⟩ | ⟨failed, emitted, part, value, rest, is, target⟩
    · exact Or.inl ⟨is, fine⟩
    · rw [show h.events = emitted from is]
      refine Or.inr ⟨failed, ?_, Or.inr ⟨part, value, rest, target⟩⟩
      intro same
      have lengths := congrArg List.length target
      rw [← same, List.length_append, List.length_cons] at lengths
      omega
  have cut : Cut h.events (layout.events (batch.passes fence) (batch.texts.map shown)) := by
    rcases events with ⟨is, _⟩ | ⟨_, _, is⟩
    · exact Or.inl is
    · exact is
  have size : (batch.texts.map shown).length = batch.texts.length := List.length_map _
  have texts : ∀ count ≤ batch.texts.length,
      layout.output (chosen (batch.passes fence) 0 ((batch.texts.map shown).take count)) =
        output (batch.passedTexts (answered (batch.passes fence) 0 count)) := by
    intro count most
    rw [← List.map_take, chosen_map, outputs]
    exact congrArg output (chosen_eq (batch.passes fence) [] batch.texts most).symm
  -- What was asked, and what is missing of the output.
  have asked : ∃ count missing, count ≤ batch.texts.length ∧
      asks h.events = answered (batch.passes fence) 0 count ∧
      output (batch.passedTexts (asks h.events)) = accepted h.events ++ missing ∧
      (missing = [] ↔ h.error = none) := by
    rcases events with ⟨is, fine⟩ | ⟨failed, differs, cut⟩
    · refine ⟨batch.texts.length, [], le_refl _, ?_, ?_, by simp [fine]⟩
      · rw [is, asks_events, size]
      · rw [is, asks_events, size, ← texts _ (le_refl _), ← size, List.take_length, accepted_events,
          List.append_nil]
    · rcases cut.output nonempty with same | ⟨count, missing, most, present, asked, is⟩
      · exact absurd same differs
      · rw [size] at most
        exact ⟨count, missing, most, asked, by rw [asked, ← texts count most, is],
          ⟨fun empty => absurd empty present, fun fine => absurd fine failed⟩⟩
  rcases asked with ⟨count, missing, most, asked, printed, lacking⟩
  have once : ((asks h.events).map Prod.fst).Nodup := by
    rw [asked]
    exact asks_nodup _ count
  have fenced :=
    (fenced_events layout (batch.passes fence) (batch.texts.map shown)).initial cut.starts
  have begun : ∀ i text, batch.texts[i]? = some text →
    bytesOf (.block i) h.events <+: shown text := by
    intro i text is
    have part : bytesOf (.block i) h.events <+:
        bytesOf (.block i) (layout.events (batch.passes fence) (batch.texts.map shown)) :=
      cut.starts.filterMap _
    rw [bytesOf_events, List.getElem?_map, is] at part
    split at part
    · exact part
    · rw [List.prefix_nil.mp part]
      exact List.nil_prefix
  have progress : ∀ i text, batch.texts[i]? = some text → ∃ p, h.progress[i]? = some p ∧
      p.accepted = (bytesOf (.block i) h.events).length ∧ p.len = (shown text).length := by
    intro i text is
    have len := congrArg (fun list => list[i]?) counted.lens
    simp only [List.getElem?_map, is, Option.map_some, Option.map_eq_some_iff] at len
    rcases len with ⟨p, inside, len⟩
    exact ⟨p, inside, counted.accepted i p inside, len⟩
  have done : (batch.handOver pieces answers flush fence).outputs = h.progress.map fun p =>
      p.output (batch.handOver pieces answers flush fence).error := by
    simp only [OneShotBatch.handOver, whole]
  have visible : ∀ i text, batch.texts[i]? = some text → shown text ≠ [] := fun i text is =>
    nonempty _ (List.mem_map_of_mem (List.mem_of_getElem? is))
  have error : (batch.handOver pieces answers flush fence).error = none ↔ h.error = none ∧
    flush = none := by
    simp only [OneShotBatch.handOver, whole]
    cases h.error with
    | none => simp
    | some error => simp
  refine ⟨error, once, fenced, ?_, ⟨missing, printed, lacking⟩, begun, ?_, ?_, ?_⟩
  · intro i refused part value owner
    exact refused_of_fenced once fenced refused owner
  · have lens := congrArg List.length counted.lens
    simp only [List.length_map] at lens
    rw [done, List.length_map, lens, OneShotBatch.texts, List.length_map]
  · intro i inside
    have text : batch.texts[i]? = some batch.blocks[i].text := by
      simp only [OneShotBatch.texts, List.getElem?_map, List.getElem?_eq_getElem inside,
        Option.map_some]
    rcases progress i _ text with ⟨p, is, accepted, len⟩
    rw [done, List.getElem?_map, is, Option.map_some, Option.some.injEq]
    exact (output_spec accepted len (begun i _ text) (visible i _ text)).1
  · intro i text is
    rcases progress i text is with ⟨p, inside, accepted, len⟩
    rw [done, List.getElem?_map, inside, Option.map_some, Option.some.injEq]
    exact (output_spec accepted len (begun i text is) (visible i text is)).2

/-! ## What the layouts come to -/

def OneShotBatch.named (batch : OneShotBatch) (outputs : List Output) (receiver : Receiver)
    (stage : Option RecordStage) : List Inbox.InboxAttemptRef :=
  (batch.blocks.zip outputs).filterMap fun entry =>
    if stageOf receiver entry.2 = stage then some entry.1.at_ else none

/-- A writer that takes a byte at a time and fails within the second block. -/
def failing : List Answer := [.interrupted, .accepted 1, .accepted 1, .failed (.kind 32)]

end AgentDeck.OneShot
