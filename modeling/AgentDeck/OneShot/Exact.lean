import AgentDeck.OneShot.Envelope

/-!
# An exact hand-over

What the events of a hand-over tell: the fence passes a block before any of its bytes, the bytes are
the output of the blocks that passed, or a beginning of it, and each block's outcome is what became
of its bytes.
-/

namespace AgentDeck.OneShot

def Part.of : Part → Option ℕ
  | .frame => none
  | .lead i | .block i => some i

/-- The bytes of one part among the events. -/
def bytesOf (part : Part) (events : List Event) : Bytes :=
  events.filterMap fun
    | .byte p value => if p = part then some value else none
    | .asked _ _ => none

/-- The bytes that the writer took, in order. -/
def accepted (events : List Event) : Bytes :=
  events.filterMap fun
    | .byte _ value => some value
    | .asked _ _ => none

/-- The blocks that the fence was asked about, with its answers. -/
def asks (events : List Event) : List (ℕ × Bool) :=
  events.filterMap fun
    | .asked i passed => some (i, passed)
    | .byte _ _ => none

section Events

variable {events more : List Event}

theorem accepted_append : accepted (events ++ more) = accepted events ++ accepted more :=
  List.filterMap_append

theorem asks_append : asks (events ++ more) = asks events ++ asks more := List.filterMap_append

variable (part : Part)

theorem bytesOf_append : bytesOf part (events ++ more) = bytesOf part events ++ bytesOf part more :=
  List.filterMap_append

theorem accepted_bytes (bytes : Bytes) : accepted (bytes.map (Event.byte part)) = bytes := by
  induction bytes with
  | nil => rfl
  | cons value bytes hypothesis => exact congrArg (value :: ·) hypothesis

theorem asks_bytes (bytes : Bytes) : asks (bytes.map (Event.byte part)) = [] := by
  induction bytes with
  | nil => rfl
  | cons value bytes hypothesis => exact hypothesis

theorem bytesOf_self (bytes : Bytes) : bytesOf part (bytes.map (Event.byte part)) = bytes := by
  induction bytes with
  | nil => rfl
  | cons value bytes hypothesis =>
    simp only [bytesOf, List.map_cons, List.filterMap_cons, if_true] at hypothesis ⊢
    rw [hypothesis]

theorem bytesOf_other {part other : Part} (differ : other ≠ part) (bytes : Bytes) :
    bytesOf part (bytes.map (Event.byte other)) = [] := by
  induction bytes with
  | nil => rfl
  | cons value bytes hypothesis =>
    simp only [bytesOf, List.map_cons, List.filterMap_cons, if_neg differ] at hypothesis ⊢
    exact hypothesis

end Events

/-! ## The output of the blocks that passed -/

namespace Layout

/-- The texts that pass, each after its lead. -/
def joined (layout : Layout) : Bool → List Bytes → Bytes
  | _, [] => []
  | passedAny, text :: rest => layout.lead passedAny ++ (text ++ layout.joined true rest)

/-- What the writer receives when nothing fails. -/
def output (layout : Layout) (passed : List Bytes) : Bytes :=
  layout.base ++ (layout.joined false passed ++ if passed = [] then [] else layout.tail)

end Layout

/-- Those of the texts, the first of them block `i`, that pass. -/
def chosen {α : Type} (passes : ℕ → Bool) : ℕ → List α → List α
  | _, [] => []
  | i, text :: rest =>
    if passes i then text :: chosen passes (i + 1) rest else chosen passes (i + 1) rest

theorem chosen_map {α β : Type} (passes : ℕ → Bool) (f : α → β) (i : ℕ) (texts : List α) :
    chosen passes i (texts.map f) = (chosen passes i texts).map f := by
  induction texts generalizing i with
  | nil => rfl
  | cons text texts hypothesis =>
    rw [List.map_cons, chosen, chosen, hypothesis]
    split <;> rfl

/-- The answers to the questions about `count` blocks from the `i`-th on. -/
def answered (passes : ℕ → Bool) (i count : ℕ) : List (ℕ × Bool) :=
  (List.range count).map fun k => (i + k, passes (i + k))

theorem answered_succ (passes : ℕ → Bool) (i count : ℕ) :
    answered passes i (count + 1) = (i, passes i) :: answered passes (i + 1) count := by
  simp only [answered, List.range_succ_eq_map, List.map_cons, List.map_map]
  congr 1
  refine List.map_congr_left fun k _ => ?_
  simp only [Function.comp, Nat.add_assoc, Nat.add_comm 1 k]

/-- The events are all of `target`, or end just before one of its bytes. -/
def Cut (events target : List Event) : Prop :=
  events = target ∨ ∃ part value rest, target = events ++ Event.byte part value :: rest

variable {events : List Event}

theorem Cut.starts {target : List Event} (cut : Cut events target) : events <+: target := by
  rcases cut with same | ⟨part, value, rest, same⟩
  · exact same ▸ List.prefix_refl _
  · exact ⟨_, same.symm⟩

variable {rest : List Event}

theorem Cut.split_bytes {part : Part} {bytes : Bytes}
    (cut : Cut events (bytes.map (Event.byte part) ++ rest)) :
    (∃ first last, bytes = first ++ last ∧ last ≠ [] ∧ events = first.map (Event.byte part)) ∨
      ∃ others, events = bytes.map (Event.byte part) ++ others ∧ Cut others rest := by
  induction bytes generalizing events with
  | nil => exact Or.inr ⟨events, rfl, cut⟩
  | cons value bytes hypothesis =>
    cases events with
    | nil => exact Or.inl ⟨[], value :: bytes, rfl, List.cons_ne_nil _ _, rfl⟩
    | cons event events =>
      have here : event = .byte part value ∧
          Cut events (bytes.map (Event.byte part) ++ rest) := by
        rcases cut with same | ⟨part', value', others, same⟩
        · rcases List.cons.inj same with ⟨head, tail⟩
          exact ⟨head, Or.inl tail⟩
        · rcases List.cons.inj same with ⟨head, tail⟩
          exact ⟨head.symm, Or.inr ⟨part', value', others, tail⟩⟩
      rcases here with ⟨head, tail⟩
      rcases hypothesis tail with ⟨first, last, whole, nonempty, is⟩ | ⟨others, is, cut⟩
      · refine Or.inl ⟨value :: first, last, ?_, nonempty, ?_⟩
        · rw [whole, List.cons_append]
        · rw [head, is, List.map_cons]
      · refine Or.inr ⟨others, ?_, cut⟩
        rw [head, is, List.map_cons, List.cons_append]

theorem Cut.cons {i : ℕ} {passed : Bool} (cut : Cut events (.asked i passed :: rest)) :
    ∃ others, events = .asked i passed :: others ∧ Cut others rest := by
  rcases cut with same | ⟨part, value, after, same⟩
  · exact ⟨rest, same, Or.inl rfl⟩
  · cases events with
    | nil => exact Event.noConfusion (List.cons.inj same).1
    | cons event events =>
      rcases List.cons.inj same with ⟨head, tail⟩
      exact ⟨events, by rw [head], Or.inr ⟨part, value, after, tail⟩⟩

/-- A run cut within the blocks: it asked about some of them in order, and what it wrote lacks an
end. -/
def Short (layout : Layout) (passes : ℕ → Bool) (passedAny : Bool) (i : ℕ) (texts : List Bytes)
    (events : List Event) : Prop :=
  ∃ count missing, count ≤ texts.length ∧ 0 < count ∧ missing ≠ [] ∧
    asks events = answered passes i count ∧
    layout.joined passedAny (chosen passes i (texts.take count)) = accepted events ++ missing ∧
    chosen passes i (texts.take count) ≠ []

variable {layout : Layout} {passes : ℕ → Bool} {passedAny : Bool} {texts : List Bytes}

theorem short_here {i : ℕ} {text : Bytes} (passed : passes i) (missing : Bytes)
    (cut : missing ≠ []) (absent : asks events = [])
    (whole : layout.lead passedAny ++ text = accepted events ++ missing) :
    Short layout passes passedAny i (text :: texts) (.asked i true :: events) := by
  have one : chosen passes i ((text :: texts).take 1) = [text] := by
    simp only [List.take_succ_cons, List.take_zero, chosen, passed, if_true]
  refine ⟨1, missing, by simp, Nat.one_pos, cut, ?_, ?_, ?_⟩
  · have ask : asks (.asked i true :: events) = (i, true) :: asks events := rfl
    rw [ask, absent, ← passed]
    rfl
  · rw [one]
    simp only [Layout.joined, List.append_nil]
    exact whole
  · rw [one]
    exact List.cons_ne_nil _ _

theorem short_later {i : ℕ} (text : Bytes) (before : List Event) (silent : asks before = [])
    (lead : accepted before = if passes i then layout.lead passedAny ++ text else [])
    (short : Short layout passes (passedAny || passes i) (i + 1) texts events) :
    Short layout passes passedAny i (text :: texts)
      (.asked i (passes i) :: (before ++ events)) := by
  rcases short with ⟨count, missing, most, positive, cut, asked, whole, nonempty⟩
  refine ⟨count + 1, missing, by simp only [List.length_cons]; omega, Nat.succ_pos _,
    cut, ?_, ?_, ?_⟩
  · have ask : asks (.asked i (passes i) :: (before ++ events)) =
        (i, passes i) :: asks (before ++ events) := rfl
    rw [ask, asks_append, silent, List.nil_append, asked, answered_succ]
  · have ask : accepted (.asked i (passes i) :: (before ++ events)) =
      accepted (before ++ events) := rfl
    rw [ask, accepted_append, lead, List.take_succ_cons, chosen]
    cases passed : passes i with
    | true =>
      rw [passed, Bool.or_true] at whole
      simp only [if_true, Layout.joined]
      rw [whole, List.append_assoc, List.append_assoc]
    | false =>
      rw [passed, Bool.or_false] at whole
      exact whole
  · rw [List.take_succ_cons, chosen]
    split
    · exact List.cons_ne_nil _ _
    · exact nonempty

/-- A run that is cut is cut within the blocks, or after them. -/
theorem Cut.blocks {i : ℕ} (filled : ∀ text ∈ texts, text ≠ [])
    (cut : Cut events (layout.blocksEvents passes passedAny i texts ++ rest)) :
    Short layout passes passedAny i texts events ∨
      ∃ others, events = layout.blocksEvents passes passedAny i texts ++ others ∧
        Cut others rest := by
  induction texts generalizing i passedAny events with
  | nil => exact Or.inr ⟨events, rfl, cut⟩
  | cons text texts hypothesis =>
    have later := fun text mem => filled text (List.mem_cons_of_mem _ mem)
    simp only [Layout.blocksEvents, Layout.blockEvents, List.cons_append] at cut ⊢
    rcases cut.cons with ⟨events₀, is₀, cut₀⟩
    rw [is₀]
    clear is₀ cut
    cases passed : passes i with
    | false =>
      simp only [passed, Bool.false_eq_true, if_false, List.nil_append] at cut₀ ⊢
      rcases hypothesis later cut₀ with short | ⟨others, is, cut⟩
      · have all := short_later text [] rfl (by simp [passed, accepted])
          (passed.symm ▸ short : Short layout passes (passedAny || passes i) (i + 1) texts events₀)
        rw [passed] at all
        exact Or.inl all
      · exact Or.inr ⟨others, by rw [is], cut⟩
    | true =>
      simp only [passed, if_true, List.append_assoc] at cut₀ ⊢
      rcases cut₀.split_bytes with ⟨first, last, whole, nonempty, is⟩ | ⟨events₁, is, cut₁⟩
      · refine Or.inl (short_here passed (last ++ text) ?_ ?_ ?_)
        · exact fun empty => nonempty (List.append_eq_nil_iff.mp empty).1
        · rw [is, asks_bytes]
        · rw [is, accepted_bytes, whole, List.append_assoc]
      · rcases cut₁.split_bytes with ⟨first, last, whole, nonempty, is₁⟩ | ⟨events₂, is₁, cut₂⟩
        · refine Or.inl (short_here passed last nonempty ?_ ?_)
          · rw [is, is₁, asks_append, asks_bytes, asks_bytes]
            rfl
          · rw [is, is₁, accepted_append, accepted_bytes, accepted_bytes, whole, List.append_assoc]
        · rcases hypothesis later cut₂ with short | ⟨others, is₂, cut⟩
          · have all := short_later text
              ((layout.lead passedAny).map (Event.byte (.lead i)) ++
                text.map (Event.byte (.block i)))
              (by rw [asks_append, asks_bytes, asks_bytes]; rfl)
              (by rw [accepted_append, accepted_bytes, accepted_bytes, passed, if_pos rfl])
              (passed.symm ▸ short :
                Short layout passes (passedAny || passes i) (i + 1) texts events₂)
            rw [passed, List.append_assoc] at all
            refine Or.inl ?_
            rw [is, is₁]
            exact all
          · exact Or.inr ⟨others, by rw [is, is₁, is₂], cut⟩

section Whole

variable (layout : Layout) (passes : ℕ → Bool)

theorem asks_blocksEvents (passedAny : Bool) (i : ℕ) (texts : List Bytes) :
    asks (layout.blocksEvents passes passedAny i texts) = answered passes i texts.length := by
  induction texts generalizing passedAny i with
  | nil => rfl
  | cons text texts hypothesis =>
    have block : asks (layout.blockEvents passedAny i text (passes i)) = [(i, passes i)] := by
      cases passed : passes i with
      | false => rfl
      | true =>
        have bytes : asks (layout.blockEvents passedAny i text true) = (i, true) ::
            asks ((layout.lead passedAny).map (Event.byte (.lead i)) ++
              text.map (Event.byte (.block i))) := rfl
        rw [bytes, asks_append, asks_bytes, asks_bytes]
        rfl
    rw [Layout.blocksEvents, asks_append, block, hypothesis, List.length_cons, answered_succ]
    rfl

theorem accepted_blocksEvents (passedAny : Bool) (i : ℕ) (texts : List Bytes) :
    accepted (layout.blocksEvents passes passedAny i texts) =
      layout.joined passedAny (chosen passes i texts) := by
  induction texts generalizing passedAny i with
  | nil => rfl
  | cons text texts hypothesis =>
    rw [Layout.blocksEvents, accepted_append, hypothesis, chosen]
    cases passed : passes i with
    | false =>
      rw [Bool.or_false]
      rfl
    | true =>
      have bytes : accepted (layout.blockEvents passedAny i text true) =
          accepted ((layout.lead passedAny).map (Event.byte (.lead i)) ++
            text.map (Event.byte (.block i))) := rfl
      rw [bytes, accepted_append, accepted_bytes, accepted_bytes, Bool.or_true, if_pos rfl,
        Layout.joined, List.append_assoc]

theorem anyPasses_iff (i : ℕ) (texts : List Bytes) :
    Layout.anyPasses passes i texts = true ↔ chosen passes i texts ≠ [] := by
  induction texts generalizing i with
  | nil => simp [Layout.anyPasses, chosen]
  | cons text texts hypothesis =>
    rw [anyPasses_cons, chosen, Bool.or_eq_true, hypothesis]
    cases passes i <;> simp

theorem asks_events (texts : List Bytes) :
    asks (layout.events passes texts) = answered passes 0 texts.length := by
  rw [Layout.events, asks_append, asks_bytes, asks_append, asks_blocksEvents, List.nil_append]
  split
  · rw [asks_bytes, List.append_nil]
  · exact List.append_nil _

theorem accepted_events (texts : List Bytes) :
    accepted (layout.events passes texts) = layout.output (chosen passes 0 texts) := by
  rw [Layout.events, accepted_append, accepted_bytes, accepted_append, accepted_blocksEvents,
    Layout.output]
  cases any : Layout.anyPasses passes 0 texts with
  | true =>
    rw [if_pos rfl, if_neg ((anyPasses_iff passes 0 texts).mp any), accepted_bytes]
  | false =>
    have absent : chosen passes 0 texts = [] := by
      by_contra nonempty
      rw [(anyPasses_iff passes 0 texts).mpr nonempty] at any
      exact Bool.noConfusion any
    rw [if_pos absent]
    rfl

end Whole

/-- Whatever is cut, what was accepted is a beginning of the output of the blocks that passed, and
something is missing. -/
theorem Cut.output (filled : ∀ text ∈ texts, text ≠ [])
    (cut : Cut events (layout.events passes texts)) :
    events = layout.events passes texts ∨
      ∃ count missing, count ≤ texts.length ∧ missing ≠ [] ∧
        asks events = answered passes 0 count ∧
        layout.output (chosen passes 0 (texts.take count)) = accepted events ++ missing := by
  rcases cut.split_bytes with ⟨first, last, whole, nonempty, is⟩ | ⟨events₁, is, cut₁⟩
  · refine Or.inr ⟨0, last, Nat.zero_le _, nonempty, ?_, ?_⟩
    · rw [is, asks_bytes]
      rfl
    · rw [is, accepted_bytes]
      simp only [List.take_zero, chosen, Layout.output, Layout.joined, if_true, List.append_nil]
      exact whole
  · rcases cut₁.blocks filled with ⟨count, missing, most, _, nonempty, asked, whole, present⟩ |
      ⟨events₂, is₁, cut₂⟩
    · refine Or.inr ⟨count, missing ++ layout.tail, most, ?_, ?_, ?_⟩
      · exact fun empty => nonempty (List.append_eq_nil_iff.mp empty).1
      · rw [is, asks_append, asks_bytes, asked]
        rfl
      · rw [is, accepted_append, accepted_bytes, Layout.output, if_neg present, whole]
        simp only [List.append_assoc]
    · cases any : Layout.anyPasses passes 0 texts with
      | false =>
        rw [any] at cut₂
        have absent : events₂ = [] := List.prefix_nil.mp cut₂.starts
        rw [Layout.events, any, if_neg Bool.false_ne_true]
        exact Or.inl (by rw [is, is₁, absent])
      | true =>
        rw [any, ← List.append_nil (layout.tail.map _)] at cut₂
        rcases cut₂.split_bytes with ⟨first, last, whole, nonempty, is₂⟩ | ⟨others, is₂, cut₃⟩
        · refine Or.inr ⟨texts.length, last, le_refl _, nonempty, ?_, ?_⟩
          · rw [is, is₁, is₂, asks_append, asks_append, asks_bytes, asks_bytes, asks_blocksEvents,
              List.nil_append, List.append_nil]
          · rw [is, is₁, is₂, List.take_length, accepted_append, accepted_append, accepted_bytes,
              accepted_bytes, accepted_blocksEvents, Layout.output,
              if_neg ((anyPasses_iff passes 0 texts).mp any), whole]
            simp only [List.append_assoc]
        · have absent : others = [] := List.prefix_nil.mp cut₃.starts
          rw [Layout.events, any, if_pos rfl]
          exact Or.inl (by rw [is, is₁, is₂, absent, List.append_nil])

/-! ## Whose bytes, and when -/

def Fenced (events : List Event) : Prop :=
  ∀ before part value after, events = before ++ Event.byte part value :: after →
    ∀ i, part.of = some i → .asked i true ∈ before

theorem Fenced.initial {target : List Event} (fenced : Fenced target)
    (starts : events <+: target) : Fenced events := by
  intro before part value after is i owner
  rcases starts with ⟨rest, whole⟩
  refine fenced before part value (after ++ rest) ?_ i owner
  rw [← whole, is, List.append_assoc, List.cons_append]

theorem Fenced.append {more : List Event} (fenced : Fenced events)
    (others : ∀ before part value after, more = before ++ Event.byte part value :: after →
      ∀ i, part.of = some i → .asked i true ∈ events ++ before) : Fenced (events ++ more) := by
  intro before part value after is i owner
  rcases List.append_eq_append_iff.mp is with ⟨middle, whole, rest⟩ | ⟨middle, whole, rest⟩
  · rw [whole]
    exact others middle part value after rest i owner
  · cases middle with
    | nil =>
      rw [List.append_nil] at whole
      rw [← whole, ← List.append_nil events]
      exact others [] part value after rest.symm i owner
    | cons event middle =>
      rcases List.cons.inj rest with ⟨head, tail⟩
      rw [← head] at whole
      exact fenced before part value middle whole i owner

theorem part_of_mem {p part : Part} {value : UInt8} {bytes : Bytes}
    (mem : Event.byte part value ∈ bytes.map (Event.byte p)) : part = p := by
  rcases List.mem_map.mp mem with ⟨_, _, is⟩
  exact ((Event.byte.inj is).1).symm

theorem mem_of_split {before after : List Event} {event : Event}
    (is : events = before ++ event :: after) : event ∈ events := by
  rw [is]
  exact List.mem_append_right _ List.mem_cons_self

theorem fenced_blockEvents (layout : Layout) (passedAny : Bool) (i : ℕ) (text : Bytes)
    (passed : Bool) : Fenced (layout.blockEvents passedAny i text passed) := by
  intro before part value after is j owner
  cases before with
  | nil => exact Event.noConfusion (List.cons.inj is).1
  | cons event before =>
    rcases List.cons.inj is with ⟨head, tail⟩
    have mem := mem_of_split tail
    cases passed with
    | false => exact absurd mem List.not_mem_nil
    | true =>
      rw [← head]
      rcases List.mem_append.mp mem with lead | text
      · rw [part_of_mem lead] at owner
        rw [← Option.some.inj owner]
        exact List.mem_cons_self
      · rw [part_of_mem text] at owner
        rw [← Option.some.inj owner]
        exact List.mem_cons_self

theorem fenced_blocksEvents (layout : Layout) (passes : ℕ → Bool) (passedAny : Bool) (i : ℕ)
    (texts : List Bytes) : Fenced (layout.blocksEvents passes passedAny i texts) := by
  induction texts generalizing passedAny i with
  | nil =>
    intro before part value after is
    exact absurd is.symm (List.append_ne_nil_of_right_ne_nil _ (List.cons_ne_nil _ _))
  | cons text texts hypothesis =>
    refine (fenced_blockEvents layout passedAny i text (passes i)).append ?_
    intro before part value after is j owner
    exact List.mem_append_right _ (hypothesis _ _ before part value after is j owner)

theorem fenced_events (layout : Layout) (passes : ℕ → Bool) (texts : List Bytes) :
    Fenced (layout.events passes texts) := by
  have frames : ∀ (bytes : Bytes) (events before after : List Event) (part : Part) (value : UInt8),
      bytes.map (Event.byte .frame) = before ++ Event.byte part value :: after →
        ∀ i, part.of = some i →
        Event.asked i true ∈ events := by
    intro bytes events before after part value is i owner
    rw [part_of_mem (mem_of_split is)] at owner
    cases owner
  have base : Fenced (layout.base.map (Event.byte .frame)) :=
    fun before part value after is => frames _ _ _ _ _ _ is
  refine base.append fun before part value after is i owner => List.mem_append_right _ ?_
  have blocks : Fenced (layout.blocksEvents passes false 0 texts ++
      if Layout.anyPasses passes 0 texts then layout.tail.map (Event.byte .frame) else []) := by
    refine (fenced_blocksEvents layout passes false 0 texts).append ?_
    intro before part value after is
    split at is
    · exact frames _ _ _ _ _ _ is
    · exact absurd is.symm (List.append_ne_nil_of_right_ne_nil _ (List.cons_ne_nil _ _))
  exact blocks before part value after is i owner

theorem bytesOf_blockEvents (layout : Layout) (passedAny : Bool) (i j : ℕ) (text : Bytes)
    (passed : Bool) : bytesOf (.block j) (layout.blockEvents passedAny i text passed) =
      if i = j ∧ passed = true then text else [] := by
  have ask : bytesOf (.block j) (layout.blockEvents passedAny i text passed) =
      bytesOf (.block j) (if passed then
        (layout.lead passedAny).map (Event.byte (.lead i)) ++ text.map (Event.byte (.block i))
        else []) := rfl
  rw [ask]
  cases passed with
  | false =>
    rw [if_neg Bool.false_ne_true, if_neg fun is => Bool.false_ne_true is.2]
    rfl
  | true =>
    rw [if_pos rfl, bytesOf_append, bytesOf_other Part.noConfusion, List.nil_append]
    by_cases same : i = j
    · rw [same, bytesOf_self, if_pos ⟨rfl, rfl⟩]
    · rw [bytesOf_other fun is => same (Part.block.inj is), if_neg fun is => same is.1]

theorem bytesOf_blocksEvents (layout : Layout) (passes : ℕ → Bool) (passedAny : Bool) (i j : ℕ)
    (texts : List Bytes) : bytesOf (.block j) (layout.blocksEvents passes passedAny i texts) =
      if i ≤ j ∧ passes j = true then (texts[j - i]?).getD [] else [] := by
  induction texts generalizing passedAny i with
  | nil => split <;> rfl
  | cons text texts hypothesis =>
    rw [Layout.blocksEvents, bytesOf_append, bytesOf_blockEvents, hypothesis]
    by_cases same : i = j
    · subst same
      have past : ¬ (i + 1 ≤ i ∧ passes i = true) := fun is => absurd is.1 (by omega)
      rw [if_neg past, List.append_nil, Nat.sub_self]
      by_cases passed : passes i = true
      · rw [if_pos ⟨rfl, passed⟩, if_pos ⟨le_refl i, passed⟩]
        rfl
      · rw [if_neg fun is => passed is.2, if_neg fun is => passed is.2]
    · rw [if_neg fun is => same is.1, List.nil_append]
      by_cases later : i ≤ j
      · have next : j - i = (j - (i + 1)) + 1 := by omega
        rw [next, List.getElem?_cons_succ]
        by_cases passed : passes j = true
        · rw [if_pos ⟨by omega, passed⟩, if_pos ⟨later, passed⟩]
        · rw [if_neg fun is => passed is.2, if_neg fun is => passed is.2]
      · have past : ¬ (i + 1 ≤ j ∧ passes j = true) := fun is => later (by omega)
        rw [if_neg past, if_neg fun is => later is.1]

theorem bytesOf_events (layout : Layout) (passes : ℕ → Bool) (i : ℕ) (texts : List Bytes) :
    bytesOf (.block i) (layout.events passes texts) =
      if passes i = true then (texts[i]?).getD [] else [] := by
  rw [Layout.events, bytesOf_append, bytesOf_other Part.noConfusion, List.nil_append,
    bytesOf_append,
    bytesOf_blocksEvents]
  have tail : bytesOf (.block i) (if Layout.anyPasses passes 0 texts then
      layout.tail.map (Event.byte .frame) else []) = [] := by
    split
    · exact bytesOf_other Part.noConfusion _
    · rfl
  simp only [tail, List.append_nil, Nat.zero_le, true_and, Nat.sub_zero]

end AgentDeck.OneShot
