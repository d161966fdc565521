import AgentDeck.OneShot.Batch

/-!
# What a hand-over emits

A hand-over emits a sequence of events that the fence's answers fix, and a write error cuts it at a
byte. `Layout` is what the pieces come to: the framing that is always written, what opens and what
closes an output with a block in it, and what joins two blocks.
-/

namespace AgentDeck.OneShot

theorem writeCounted_spec (answers : List Answer) (len : ℕ) :
    (writeCounted answers len).1 ≤ len ∧
      ((writeCounted answers len).2.1 = none ↔ (writeCounted answers len).1 = len) := by
  fun_induction writeCounted answers len with
  | case1 => exact ⟨le_refl _, by simp⟩
  | case2 len => exact ⟨le_refl _, by simp⟩
  | case3 rest len positive =>
    refine ⟨Nat.zero_le _, ?_⟩
    simp only [reduceCtorEq, false_iff]
    exact fun is => positive is.symm
  | case4 n rest len positive took more hypothesis =>
    rcases hypothesis with ⟨most, precise⟩
    dsimp only [more]
    rw [precise]
    omega
  | case5 rest len positive hypothesis => exact hypothesis
  | case6 error rest len positive =>
    refine ⟨Nat.zero_le _, ?_⟩
    simp only [reduceCtorEq, false_iff]
    exact fun is => positive is.symm

/-- From `h` to `h'` the target is emitted, up to the byte at which an error cut it. -/
def Emits (h h' : Hand) (target : List Event) : Prop :=
  (h'.error = none ∧ h'.events = h.events ++ target) ∨
    (h'.error ≠ none ∧ ∃ emitted part value rest,
      h'.events = h.events ++ emitted ∧ target = emitted ++ Event.byte part value :: rest)

namespace Emits

variable {h h₁ h₂ : Hand} {target more : List Event}

theorem refl (fine : h.error = none) : Emits h h [] := Or.inl ⟨fine, (List.append_nil _).symm⟩

theorem follow (first : Emits h h₁ target) (fine : h₁.error = none) (second : Emits h₁ h₂ more) :
    Emits h h₂ (target ++ more) := by
  rcases first with ⟨_, events⟩ | ⟨failed, _⟩
  · rcases second with ⟨fine₂, events₂⟩ | ⟨failed, emitted, part, value, rest, events₂, cut⟩
    · exact Or.inl ⟨fine₂, by rw [events₂, events, List.append_assoc]⟩
    · refine Or.inr ⟨failed, target ++ emitted, part, value, rest, ?_, ?_⟩
      · rw [events₂, events, List.append_assoc]
      · rw [cut, List.append_assoc]
  · exact absurd fine failed

theorem cut (first : Emits h h₁ target) (failed : h₁.error ≠ none) :
    Emits h h₁ (target ++ more) := by
  rcases first with ⟨fine, _⟩ | ⟨_, emitted, part, value, rest, events, cut⟩
  · exact absurd fine failed
  · refine Or.inr ⟨failed, emitted, part, value, rest ++ more, events, ?_⟩
    rw [cut, List.append_assoc, List.cons_append]

theorem of_events (emits : Emits h₁ h₂ target) (same : h.events = h₁.events) :
    Emits h h₂ target := by
  simpa only [Emits, same] using emits

end Emits

namespace Hand

theorem write_emits (h : Hand) (part : Part) (bytes : Bytes) :
    Emits h (h.write part bytes) (bytes.map (Event.byte part)) := by
  rcases writeCounted_spec h.answers bytes.length with ⟨most, precise⟩
  by_cases fine : (writeCounted h.answers bytes.length).2.1 = none
  · refine Or.inl ⟨fine, ?_⟩
    simp only [write]
    rw [precise.mp fine, List.take_length]
  · have short : (writeCounted h.answers bytes.length).1 < bytes.length :=
      lt_of_le_of_ne most fun is => fine (precise.mpr is)
    refine Or.inr ⟨fine, _, part, bytes[(writeCounted h.answers bytes.length).1],
      (bytes.drop ((writeCounted h.answers bytes.length).1 + 1)).map (Event.byte part), rfl, ?_⟩
    rw [← List.map_cons, ← List.map_append, List.cons_getElem_drop_succ, List.take_append_drop]

theorem writeBlock_emits (h : Hand) (i : ℕ) (bytes : Bytes) :
    Emits h (h.writeBlock i bytes) (bytes.map (Event.byte (.block i))) :=
  h.write_emits (.block i) bytes

theorem writeLead_emits {h : Hand} (fine : h.error = none) (i : ℕ) (lead : List Bytes) :
    Emits h (h.writeLead i lead) (lead.flatten.map (Event.byte (.lead i))) := by
  induction lead generalizing h with
  | nil => exact Emits.refl fine
  | cons bytes rest hypothesis =>
    have first := h.write_emits (.lead i) bytes
    simp only [writeLead, List.flatten_cons, List.map_append]
    split
    · rename_i failed
      exact first.cut (Option.isSome_iff_ne_none.mp failed)
    · rename_i fine₁
      have fine₁ := Option.not_isSome_iff_eq_none.mp fine₁
      exact first.follow fine₁ (hypothesis fine₁)

theorem writeLead_fields (h : Hand) (i : ℕ) (lead : List Bytes) :
    (h.writeLead i lead).progress = h.progress ∧ (h.writeLead i lead).joint = h.joint ∧
      (h.writeLead i lead).opening = h.opening ∧ (h.writeLead i lead).passedAny = h.passedAny := by
  induction lead generalizing h with
  | nil => exact ⟨rfl, rfl, rfl, rfl⟩
  | cons bytes rest hypothesis =>
    simp only [writeLead]
    split
    · exact ⟨rfl, rfl, rfl, rfl⟩
    · exact hypothesis (h.write (.lead i) bytes)

end Hand

/-! ## The events of a layout -/

structure Layout where
  base : Bytes
  opening : Bytes
  separator : Bytes
  tail : Bytes

namespace Layout

/-- What goes before a block that passes. -/
def lead (layout : Layout) (passedAny : Bool) : Bytes :=
  if passedAny then layout.separator else layout.opening

def blockEvents (layout : Layout) (passedAny : Bool) (i : ℕ) (text : Bytes) (passed : Bool) :
    List Event :=
  .asked i passed ::
    if passed then
      (layout.lead passedAny).map (Event.byte (.lead i)) ++ text.map (Event.byte (.block i))
    else []

def blocksEvents (layout : Layout) (passes : ℕ → Bool) : Bool → ℕ → List Bytes → List Event
  | _, _, [] => []
  | passedAny, i, text :: rest =>
    layout.blockEvents passedAny i text (passes i) ++
      layout.blocksEvents passes (passedAny || passes i) (i + 1) rest

def anyPasses (passes : ℕ → Bool) (i : ℕ) (texts : List Bytes) : Bool :=
  (List.range texts.length).any fun k => passes (i + k)

def events (layout : Layout) (passes : ℕ → Bool) (texts : List Bytes) : List Event :=
  layout.base.map (Event.byte .frame) ++ (layout.blocksEvents passes false 0 texts ++
    if anyPasses passes 0 texts then layout.tail.map (Event.byte .frame) else [])

end Layout

theorem anyPasses_cons (passes : ℕ → Bool) (i : ℕ) (text : Bytes) (rest : List Bytes) :
    Layout.anyPasses passes i (text :: rest) =
      (passes i || Layout.anyPasses passes (i + 1) rest) := by
  simp only [Layout.anyPasses, List.length_cons, List.range_succ_eq_map, List.any_cons,
    List.any_map]
  congr 2
  funext k
  simp only [Function.comp]
  congr 1
  omega

/-! ## The loop -/

/-- What the fence answers for block `i`, which is the `i`-th it is asked for. -/
def OneShotBatch.passes (batch : OneShotBatch) (answers : FenceAnswers) (i : ℕ) : Bool :=
  (batch.blocks[i]?.map fun block => answers i block.at_).getD false

structure Reached (batch : OneShotBatch) (layout : Layout) (h : Hand) (i : ℕ) (passedAny : Bool) :
    Prop where
  fine : h.error = none
  asked : (h.events.filter Event.asks).length = i
  fresh : ∀ j p, i ≤ j → h.progress[j]? = some p → p.fenced = none
  size : h.progress.length = batch.blocks.length
  any : h.passedAny = passedAny
  opening : passedAny = false → h.opening.flatten = layout.opening

section Loop

variable {batch : OneShotBatch} {layout : Layout} {answers : FenceAnswers} {h : Hand}

theorem pieces_emits {piece : Piece} {rest : List Piece} {target more : List Event}
    (first : Emits h (h.piece batch answers piece) target)
    (second : (h.piece batch answers piece).error = none →
      Emits (h.piece batch answers piece) ((h.piece batch answers piece).pieces batch answers rest)
        more) : Emits h (h.pieces batch answers (piece :: rest)) (target ++ more) := by
  simp only [Hand.pieces]
  split
  · rename_i failed
    exact first.cut (Option.isSome_iff_ne_none.mp failed)
  · rename_i fine
    have fine := Option.not_isSome_iff_eq_none.mp fine
    exact first.follow fine (second fine)

theorem asks_map_byte (part : Part) (bytes : Bytes) :
    (bytes.map (Event.byte part)).filter Event.asks = [] := by
  induction bytes with
  | nil => rfl
  | cons value bytes hypothesis => exact hypothesis

theorem getElem?_modify_other (progress : List Progress) (i j : ℕ) (f : Progress → Progress)
    (differ : i ≠ j) : (progress.modify i f)[j]? = progress[j]? := by
  rw [List.getElem?_modify]
  simp only [if_neg differ, id_map']

def Hand.asking (h : Hand) (i : ℕ) (passed : Bool) : Hand :=
  { h with
    progress := h.progress.modify i fun p => { p with fenced := some passed }
    events := h.events ++ [.asked i passed] }

variable {passedAny : Bool}

theorem asking_reached {i : ℕ} (reached : Reached batch layout h i passedAny) (passed : Bool) :
    Reached batch layout (h.asking i passed) (i + 1) passedAny where
  fine := reached.fine
  asked := by
    simp only [Hand.asking, List.filter_append, List.length_append, reached.asked]
    rfl
  fresh j p later is := by
    simp only [Hand.asking] at is
    rw [getElem?_modify_other _ _ _ _ (by omega)] at is
    exact reached.fresh j p (by omega) is
  size := by
    simp only [Hand.asking, List.length_modify]
    exact reached.size
  any := reached.any
  opening := reached.opening

theorem piece_block_eq {i : ℕ} (reached : Reached batch layout h i passedAny)
    (inside : i < batch.blocks.length) {text : Bytes} (filled : text ≠ []) :
    h.piece batch answers (.block i text) =
      if batch.passes answers i then (h.asking i true).passBlock i text true
      else { h.asking i false with joint := none } := by
  have inProgress : i < h.progress.length := reached.size.symm ▸ inside
  have fresh := reached.fresh i h.progress[i] (le_refl i) (List.getElem?_eq_getElem inProgress)
  have block := List.getElem?_eq_getElem inside
  have passes : batch.passes answers i = answers i batch.blocks[i].at_ := by
    simp only [OneShotBatch.passes, block, Option.map_some, Option.getD_some]
  simp only [Hand.piece, block, List.getElem?_eq_getElem inProgress, if_neg filled, Hand.fence,
    fresh, reached.asked, ← passes]
  cases batch.passes answers i <;> rfl

theorem lead_flatten {i : ℕ} (reached : Reached batch layout h i passedAny)
    (joint : passedAny = true → h.joint = some layout.separator) :
    h.lead.flatten = layout.lead passedAny := by
  simp only [Hand.lead, Layout.lead, reached.any]
  cases passedAny with
  | true => simp only [if_true, joint rfl, Option.toList_some, List.flatten_singleton]
  | false => exact reached.opening rfl

theorem piece_block (answers : FenceAnswers) {i : ℕ} (reached : Reached batch layout h i passedAny)
    (joint : passedAny = true → h.joint = some layout.separator) (inside : i < batch.blocks.length)
    {text : Bytes} (filled : text ≠ []) :
    Emits h (h.piece batch answers (.block i text))
        (layout.blockEvents passedAny i text (batch.passes answers i)) ∧
      ((h.piece batch answers (.block i text)).error = none →
        Reached batch layout (h.piece batch answers (.block i text)) (i + 1)
          (passedAny || batch.passes answers i)) := by
  rw [piece_block_eq reached inside filled]
  cases batch.passes answers i with
  | false =>
    have asked := asking_reached reached false
    refine ⟨Or.inl ⟨asked.fine, rfl⟩, fun _ => ?_⟩
    rw [Bool.or_false]
    exact ⟨asked.fine, asked.asked, asked.fresh, asked.size, asked.any, asked.opening⟩
  | true =>
    have asked := asking_reached reached true
    have lead := lead_flatten asked joint
    have ask : Emits h (h.asking i true) [.asked i true] := Or.inl ⟨asked.fine, rfl⟩
    simp only [Layout.blockEvents, if_true, Hand.passBlock, ← lead]
    -- The lead is written from a state that differs from the asking one in what it still holds.
    generalize opened : ({ h.asking i true with
      joint := none
      opening := if (h.asking i true).passedAny then (h.asking i true).opening else []
      passedAny := true } : Hand) = h₂
    have same : h₂.events = (h.asking i true).events ∧ h₂.error = none ∧
        h₂.progress = (h.asking i true).progress ∧ h₂.passedAny = true := by
      rw [← opened]
      exact ⟨rfl, asked.fine, rfl, rfl⟩
    rcases same with ⟨events, fine, progress, passed⟩
    have leads := (Hand.writeLead_emits fine i (h.asking i true).lead).of_events events.symm
    rcases h₂.writeLead_fields i (h.asking i true).lead with ⟨kept, _, _, still⟩
    split
    · rename_i failed
      have failed := Option.isSome_iff_ne_none.mp failed
      refine ⟨ask.follow asked.fine (leads.cut failed), fun fine => absurd fine failed⟩
    · rename_i unfailed
      have unfailed := Option.not_isSome_iff_eq_none.mp unfailed
      have all := leads.follow unfailed (Hand.writeBlock_emits _ i text)
      refine ⟨ask.follow asked.fine all, fun done => ?_⟩
      rcases all with ⟨_, written⟩ | ⟨broken, _⟩
      · refine ⟨done, ?_, ?_, ?_, ?_, ?_⟩
        · rw [written, List.filter_append, List.filter_append, asks_map_byte, asks_map_byte,
            List.append_nil, List.append_nil]
          exact asked.asked
        · intro j p later is
          simp only [Hand.writeBlock] at is
          rw [getElem?_modify_other _ _ _ _ (by omega), kept, progress] at is
          exact asked.fresh j p later is
        · simp only [Hand.writeBlock, List.length_modify, kept, progress]
          exact asked.size
        · rw [Bool.or_true]
          exact still.trans passed
        · intro impossible
          exact absurd impossible (by rw [Bool.or_true]; exact Bool.noConfusion)
      · exact absurd done broken

theorem blocks_emit (answers : FenceAnswers) {i : ℕ} {texts : List Bytes}
    (rest : List Piece) (more : Bool → List Event) (reached : Reached batch layout h i passedAny)
    (joint : i = 0 → passedAny = false) (inside : i + texts.length ≤ batch.blocks.length)
    (filled : ∀ text ∈ texts, text ≠ [])
    (onward : ∀ h' any, Reached batch layout h' (i + texts.length) any →
      any = (passedAny || Layout.anyPasses (batch.passes answers) i texts) →
      Emits h' (h'.pieces batch answers rest) (more any)) :
    Emits h (h.pieces batch answers (blockPieces layout.separator i texts ++ rest))
      (layout.blocksEvents (batch.passes answers) passedAny i texts ++
        more (passedAny || Layout.anyPasses (batch.passes answers) i texts)) := by
  induction texts generalizing h i passedAny with
  | nil =>
    have done := onward h passedAny reached (by simp [Layout.anyPasses])
    simpa [blockPieces, Layout.blocksEvents, Layout.anyPasses] using done
  | cons text texts hypothesis =>
    have here : i < batch.blocks.length := by
      rw [List.length_cons] at inside
      omega
    have after : ∀ h₁ : Hand, Reached batch layout h₁ i passedAny →
        (passedAny = true → h₁.joint = some layout.separator) →
        Emits h₁ (h₁.pieces batch answers
          (.block i text :: (blockPieces layout.separator (i + 1) texts ++ rest)))
          (layout.blocksEvents (batch.passes answers) passedAny i (text :: texts) ++
            more (passedAny || Layout.anyPasses (batch.passes answers) i (text :: texts))) := by
      intro h₁ reached₁ joint₁
      have block := piece_block answers reached₁ joint₁ here
        (filled text List.mem_cons_self)
      rw [Layout.blocksEvents, List.append_assoc, anyPasses_cons, ← Bool.or_assoc]
      refine pieces_emits block.1 fun fine => ?_
      refine hypothesis (block.2 fine) (fun is => absurd is (Nat.succ_ne_zero i)) ?_
        (fun text mem => filled text (List.mem_cons_of_mem _ mem)) ?_
      · rw [List.length_cons] at inside
        omega
      · intro h' any last is
        refine onward h' any ?_ ?_
        · rw [List.length_cons, ← Nat.add_assoc, Nat.add_right_comm]
          exact last
        · rw [is, anyPasses_cons, Bool.or_assoc]
    cases i with
    | zero =>
      refine after h reached fun any => ?_
      rw [joint rfl] at any
      exact Bool.noConfusion any
    | succ i =>
      have held : Reached batch layout { h with joint := some layout.separator }
        (i + 1) passedAny :=
        ⟨reached.fine, reached.asked, reached.fresh, reached.size, reached.any, reached.opening⟩
      have jointed : Emits h (h.piece batch answers (.joint layout.separator)) [] :=
        Or.inl ⟨reached.fine, (List.append_nil _).symm⟩
      have all := pieces_emits jointed fun _ => after _ held fun _ => rfl
      exact all

theorem new_reached (batch : OneShotBatch) (layout : Layout) (pieces : List Piece)
    (answers : List Answer) {opening : List Bytes} (holds : opening.flatten = layout.opening) :
    Reached batch layout { Hand.new batch pieces answers with opening := opening } 0 false where
  fine := rfl
  asked := rfl
  fresh j p _ is := by
    simp only [Hand.new, List.getElem?_map, Option.map_eq_some_iff] at is
    rcases is with ⟨_, _, same⟩
    rw [← same]
  size := by simp only [Hand.new, List.length_map, List.length_range]
  any := rfl
  opening _ := holds

end Loop

def OneShotBatch.bytes (batch : OneShotBatch) : List Bytes := batch.texts.map utf8

theorem utf8_ne_nil {text : Text} (filled : text ≠ []) : utf8 text ≠ [] := by
  cases text with
  | nil => exact absurd rfl filled
  | cons c rest =>
    simp only [utf8, List.flatMap_cons, ne_eq, List.append_eq_nil_iff, String.utf8EncodeChar_ne_nil,
      false_and, not_false_eq_true]

theorem OneShotBatch.bytes_filled {batch : OneShotBatch}
    (filled : ∀ block ∈ batch.blocks, block.text ≠ []) : ∀ text ∈ batch.bytes, text ≠ [] := by
  intro text mem
  simp only [bytes, texts, List.map_map, List.mem_map] at mem
  rcases mem with ⟨block, inside, is⟩
  rw [← is]
  exact utf8_ne_nil (filled block inside)

/-- A plain hand-over: the head first, nothing to open or close. -/
def plainLayout (head separator : Text) : Layout := ⟨utf8 head, [], utf8 separator, []⟩

theorem plain_emits {batch : OneShotBatch} (filled : ∀ block ∈ batch.blocks, block.text ≠ [])
    (head separator : Text) (answers : List Answer) (fence : FenceAnswers) :
    Emits (Hand.new batch (batch.plainPieces head separator) answers)
      (batch.written (batch.plainPieces head separator) answers fence)
      ((plainLayout head separator).events (batch.passes fence) batch.bytes) := by
  have started : Reached batch (plainLayout head separator)
      (Hand.new batch (batch.plainPieces head separator) answers) 0 false :=
    new_reached batch (plainLayout head separator) _ answers List.flatten_nil
  simp only [OneShotBatch.written]
  generalize Hand.new batch (batch.plainPieces head separator) answers = h at started ⊢
  have blocks : ∀ h : Hand, Reached batch (plainLayout head separator) h 0 false →
      Emits h (h.pieces batch fence (blockPieces (utf8 separator) 0 batch.bytes))
        ((plainLayout head separator).blocksEvents (batch.passes fence) false 0
          batch.bytes ++ []) := by
    intro h reached
    have all := blocks_emit fence [] (fun _ => []) reached (fun _ => rfl)
      (show 0 + batch.bytes.length ≤ _ by simp [OneShotBatch.bytes, OneShotBatch.texts])
      (OneShotBatch.bytes_filled filled) fun h' _ last _ => Emits.refl last.fine
    rw [List.append_nil] at all
    exact all
  have tail : (if Layout.anyPasses (batch.passes fence) 0 batch.bytes then
      (plainLayout head separator).tail.map (Event.byte .frame) else []) = [] := by
    split <;> rfl
  rw [Layout.events, tail]
  by_cases empty : head = []
  · simp only [OneShotBatch.plainPieces, if_pos empty]
    have base : (plainLayout head separator).base = [] := by rw [empty]; rfl
    rw [base]
    exact blocks h started
  · simp only [OneShotBatch.plainPieces, if_neg empty]
    refine pieces_emits (h.write_emits .frame (utf8 head)) fun fine => blocks _ ?_
    refine ⟨fine, ?_, started.fresh, started.size, started.any, started.opening⟩
    rcases h.write_emits .frame (utf8 head) with ⟨_, events⟩ | ⟨failed, _⟩
    · rw [show h.piece batch fence (.frame (utf8 head)) =
        h.write .frame (utf8 head) from rfl, events,
        List.filter_append, asks_map_byte, List.append_nil]
      exact started.asked
    · exact absurd fine failed

end AgentDeck.OneShot
