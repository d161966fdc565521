import AgentDeck.Inbox.Render

/-!
# What a rendered block holds

Between its opener and its closer a rendered block holds no closer of its own id, whatever the
body, the preface, the labels and the budget: untrusted text cannot spell one, the labels hold no
bracket, and every place where the deck joins texts is a new line, which no closer spans.
-/

namespace AgentDeck.Inbox

open Pattern

/-! ## Ids -/

variable {text : Text}

theorem len_eq_length (ascii : ∀ c ∈ text, c.utf8Size = 1) : Text.len text = text.length := by
  induction text with
  | nil => rfl
  | cons c text ih =>
    simp only [List.mem_cons, forall_eq_or_imp] at ascii
    have later := ih ascii.2
    simp only [Text.len] at later
    simp only [Text.len, List.map_cons, List.sum_cons, List.length_cons]
    omega

variable {c : Char}

theorem utf8Size_of_le (below : c ≤ 'z') : c.utf8Size = 1 := by
  have last : 'z'.val ≤ 127 := by decide
  have bound : c.val ≤ 127 := UInt32.le_trans (Char.le_def.mp below) last
  simp [Char.utf8Size, bound]

theorem isDeckChar_le (holds : isDeckChar c) : c ≤ 'z' ∧ '2' ≤ c := by
  simp only [isDeckChar, Bool.or_eq_true, Bool.and_eq_true, decide_eq_true_eq] at holds
  rcases holds with ⟨least, most⟩ | ⟨least, most⟩
  · exact ⟨most, le_trans (by decide) least⟩
  · exact ⟨le_trans most (by decide), least⟩

theorem isHexChar_le (holds : isHexChar c) : c ≤ 'z' ∧ '0' ≤ c := by
  simp only [isHexChar, Bool.or_eq_true, Bool.and_eq_true, decide_eq_true_eq] at holds
  rcases holds with ⟨least, most⟩ | ⟨least, most⟩
  · exact ⟨le_trans most (by decide), least⟩
  · exact ⟨le_trans most (by decide), le_trans (by decide) least⟩

/-- The parts of a valid message id. -/
structure IdParts (id deck hex : Text) : Prop where
  eq : id = "m-".toList ++ (deck ++ ("-".toList ++ hex))
  deckLength : deck.length = 8
  deckChars : ∀ c ∈ deck, isDeckChar c = true
  hexLength : hex.length = 16
  hexChars : ∀ c ∈ hex, isHexChar c = true

theorem isDeckChar_notDash (holds : isDeckChar c) : notDash c := by
  have least := (isDeckChar_le holds).2
  simp only [notDash, decide_eq_true_eq]
  rintro rfl
  exact absurd least (by decide)

theorem len_deck (chars : ∀ c ∈ text, isDeckChar c) : Text.len text = text.length :=
  len_eq_length fun c mem => utf8Size_of_le (isDeckChar_le (chars c mem)).1

theorem len_hex (chars : ∀ c ∈ text, isHexChar c) : Text.len text = text.length :=
  len_eq_length fun c mem => utf8Size_of_le (isHexChar_le (chars c mem)).1

theorem isValidMessageId_iff (id : Text) :
    isValidMessageId id = true ↔ ∃ deck hex, IdParts id deck hex := by
  constructor
  · intro valid
    simp only [isValidMessageId] at valid
    split at valid
    · rename_i rest
      split at valid
      · cases valid
      · rename_i dash hex dropped
        simp only [isValidDeckId, Bool.and_eq_true, decide_eq_true_eq, List.all_eq_true] at valid
        rcases valid with ⟨⟨⟨deckLen, deckChars⟩, hexLen⟩, hexChars⟩
        have isDash : dash = '-' := by
          have stops := List.head?_dropWhile_not notDash rest
          simp only [dropped, notDash, decide_eq_false_iff_not, not_not] at stops
          exact stops
        have whole : rest.takeWhile notDash ++ '-' :: hex = rest := by
          rw [← isDash, ← dropped, List.takeWhile_append_dropWhile]
        refine ⟨rest.takeWhile notDash, hex, ?_, ?_, deckChars, ?_, hexChars⟩
        · exact congrArg ("m-".toList ++ ·) whole.symm
        · rw [← deckLen, len_deck deckChars]
        · rw [← hexLen, len_hex hexChars]
    · cases valid
  · rintro ⟨deck, hex, eq, deckLength, deckChars, hexLength, hexChars⟩
    have before : ∀ c ∈ deck, notDash c := fun c mem => isDeckChar_notDash (deckChars c mem)
    have dropped : (deck ++ '-' :: hex).dropWhile notDash = '-' :: hex := by
      rw [List.dropWhile_append_of_pos before]
      rfl
    have taken : (deck ++ '-' :: hex).takeWhile notDash = deck := by
      rw [List.takeWhile_append_of_pos before]
      simp [notDash]
    have shape : id = 'm' :: '-' :: (deck ++ '-' :: hex) := eq
    rw [shape]
    simp only [isValidMessageId, dropped, taken, isValidDeckId, len_deck deckChars,
      len_hex hexChars, deckLength, hexLength, decide_true, Bool.true_and, Bool.and_eq_true,
      List.all_eq_true, and_true]
    exact ⟨deckChars, hexChars⟩

variable {id : Text}

theorem not_mem_id (valid : isValidMessageId id) (literal : c ≠ 'm' ∧ c ≠ '-')
    (deck : isDeckChar c = false) (hex : isHexChar c = false) : c ∉ id := by
  rcases (isValidMessageId_iff id).mp valid with ⟨deckPart, hexPart, parts⟩
  have shape : id = 'm' :: '-' :: (deckPart ++ '-' :: hexPart) := parts.eq
  rw [shape]
  simp only [List.mem_cons, List.mem_append, literal.1, literal.2, false_or]
  rintro (inDeck | inHex)
  · rw [parts.deckChars c inDeck] at deck
    cases deck
  · rw [parts.hexChars c inHex] at hex
    cases hex

/-! ## Closers -/

theorem bracket_once (valid : isValidMessageId id) : '[' ∉ closerWords ++ id ++ "]".toList := by
  have inId := not_mem_id valid (c := '[') (by decide) (by decide) (by decide)
  simp only [List.mem_append, not_or]
  exact ⟨⟨Text.not_mem_literal (by decide), inId⟩, Text.not_mem_literal (by decide)⟩

/-- A closer stands on one line. -/
theorem newline_not_mem_closer (valid : isValidMessageId id) : '\n' ∉ closer id := by
  have inId := not_mem_id valid (c := '\n') (by decide) (by decide) (by decide)
  simp only [closer, List.mem_append, not_or]
  exact ⟨⟨Text.not_mem_literal (by decide), inId⟩, Text.not_mem_literal (by decide)⟩

/-- The text does not contain the closer of the message `id`. -/
def Clear (id text : Text) : Prop := ¬ closer id <:+: text

namespace Clear

variable {id text : Text}

theorem of_part {larger : Text} (clear : Clear id larger) (part : text <:+: larger) :
    Clear id text :=
  fun occurs => clear (occurs.trans part)

theorem of_bracket (absent : '[' ∉ text) : Clear id text := by
  intro occurs
  exact absent (occurs.subset List.mem_cons_self)

theorem of_blockCloser (absent : ¬ blockCloser <:+: text) : Clear id text := by
  intro occurs
  apply absent
  refine List.IsInfix.trans ?_ occurs
  rw [closer, List.append_assoc]
  exact (List.prefix_append _ _).isInfix

/-- Two texts without the closer, joined by a newline, do not contain it: it has no newline of its
own. -/
theorem join (valid : isValidMessageId id) {left right : Text} (first : Clear id left)
    (second : Clear id right) : Clear id (left ++ '\n' :: right) := by
  intro occurs
  rcases infix_or_of_not_mem (newline_not_mem_closer valid) occurs with inLeft | inRight
  · exact first inLeft
  · exact second inRight

theorem nil : Clear id [] := of_bracket (by simp)

end Clear

/-! ## What stands between an opener and its closer -/

theorem bracket_not_mem_cleanLabel (raw : Text) : '[' ∉ cleanLabel raw := by
  intro mem
  have kept := List.mem_of_mem_take mem
  simp at kept

/-- A label between fixed texts has no bracket. -/
theorem bracket_not_mem_around {before after : Text} (raw : Text) (first : '[' ∉ before)
    (last : '[' ∉ after) : '[' ∉ before ++ cleanLabel raw ++ after := by
  apply List.not_mem_append _ last
  exact List.not_mem_append first (bracket_not_mem_cleanLabel raw)

theorem bracket_not_mem_role (role : Option Text) {other after : Text} (default : '[' ∉ other)
    (last : '[' ∉ after) : '[' ∉ (role.map cleanLabel).getD other ++ after := by
  apply List.not_mem_append _ last
  cases role with
  | none => exact default
  | some raw => exact bracket_not_mem_cleanLabel raw

theorem bracket_not_mem_deckLabel (reason : Text) : '[' ∉ deckLabel reason := by
  simp only [deckLabel]
  split_ifs
  · exact Text.not_mem_literal (by decide)
  · exact Text.not_mem_literal (by decide)
  · exact Text.not_mem_literal (by decide)
  · exact Text.not_mem_literal (by decide)
  · simp only [otherDeckLabel]
    split
    · exact bracket_not_mem_around _ (Text.not_mem_literal (by decide))
        (Text.not_mem_literal (by decide))
    · split
      · exact bracket_not_mem_around _ (Text.not_mem_literal (by decide))
          (Text.not_mem_literal (by decide))
      · exact bracket_not_mem_around _ (Text.not_mem_literal (by decide))
          (Text.not_mem_literal (by decide))

theorem bracket_not_mem_untrustedLabel (role : Option Text) : '[' ∉ untrustedLabel role := by
  simp only [untrustedLabel]
  split_ifs
  · exact List.not_mem_append (Text.not_mem_literal (by decide)) (Text.not_mem_literal (by decide))
  · exact bracket_not_mem_role role (Text.not_mem_literal (by decide))
      (Text.not_mem_literal (by decide))

/-- No sender, trusted or not, brings a bracket into the head of a block. -/
theorem bracket_not_mem_senderLabel (sender : Sender) (trust : BodyTrust) :
    '[' ∉ senderLabel sender trust := by
  cases sender with
  | deck reason => exact bracket_not_mem_deckLabel reason
  | agent paneId agentId role orchestration =>
    cases trust with
    | trusted =>
      exact Text.not_mem_literal (by decide)
    | untrusted => exact bracket_not_mem_untrustedLabel role

theorem bracket_not_mem_kindSenderLabel (kind : MessageKind) (sender : Sender) (trust : BodyTrust) :
    '[' ∉ kindSenderLabel kind sender trust := by
  cases kind with
  | direct => exact bracket_not_mem_senderLabel sender trust
  | publish topic =>
    cases sender with
    | deck reason => exact bracket_not_mem_deckLabel reason
    | agent paneId agentId role orchestration =>
      cases trust with
      | trusted =>
        exact bracket_not_mem_senderLabel (.agent paneId agentId role orchestration) .trusted
      | untrusted =>
        exact bracket_not_mem_role role (Text.not_mem_literal (by decide))
          (Text.not_mem_literal (by decide))
  | offer pool claimTtl => exact bracket_not_mem_senderLabel sender trust

theorem bracket_not_mem_deckProvenance (reason : Text) : '[' ∉ deckProvenance reason := by
  simp only [deckProvenance]
  split_ifs
  · exact Text.not_mem_literal (by decide)
  · exact Text.not_mem_literal (by decide)
  · exact Text.not_mem_literal (by decide)
  · exact List.not_mem_append (bracket_not_mem_deckLabel reason) (Text.not_mem_literal (by decide))

theorem bracket_not_mem_senderProvenance (sender : Sender) (trust : BodyTrust) :
    '[' ∉ senderProvenance sender trust := by
  cases sender with
  | deck reason => exact bracket_not_mem_deckProvenance reason
  | agent paneId agentId role orchestration =>
    cases trust with
    | trusted =>
      exact Text.not_mem_literal (by decide)
    | untrusted =>
      exact Text.not_mem_literal (by decide)

theorem bracket_not_mem_decimal (n : ℕ) : '[' ∉ decimal n := by
  intro mem
  cases Nat.isDigit_of_mem_toDigits (by decide) (by decide) mem

theorem bracket_not_mem_deliveryText (delivery : Option (UInt32 × UInt32)) :
    '[' ∉ deliveryText delivery := by
  rcases delivery with _ | ⟨a, e⟩
  · exact List.not_mem_nil
  · apply List.not_mem_append _ (bracket_not_mem_decimal _)
    apply List.not_mem_append _ (Text.not_mem_literal (by decide))
    exact List.not_mem_append (Text.not_mem_literal (by decide)) (bracket_not_mem_decimal _)

/-- The rest of an opener's line, its receiver's delivery numbers included. -/
theorem bracket_not_mem_openerRest (message : Message) (delivery : Option (UInt32 × UInt32)) :
    '[' ∉ openerRest message delivery := by
  apply List.not_mem_append _ (Text.not_mem_literal (by decide))
  apply List.not_mem_append _ (bracket_not_mem_kindSenderLabel _ _ _)
  exact List.not_mem_append (bracket_not_mem_deliveryText delivery)
    (Text.not_mem_literal (by decide))

theorem bracket_not_mem_repeatLine (valid : isValidMessageId id) : '[' ∉ repeatLine id := by
  have inId := not_mem_id valid (c := '[') (by decide) (by decide) (by decide)
  apply List.not_mem_append _ (Text.not_mem_literal (by decide))
  apply List.not_mem_append _ (Text.not_mem_literal (by decide))
  exact List.not_mem_append (Text.not_mem_literal (by decide)) inId

theorem bracket_not_mem_inert (inert : isInert text) : '[' ∉ text := by
  intro mem
  simp only [isInert, Bool.and_eq_true, List.all_eq_true] at inert
  have safe := inert.2 '[' mem
  revert safe
  decide

theorem bracket_not_mem_location (path : Text) :
    '[' ∉ describeSavedReportLocation path spillSavedIn := by
  simp only [describeSavedReportLocation]
  split
  · rename_i inert
    exact bracket_not_mem_inert inert
  · split
    · rename_i name found
      have inert := (Option.filter_eq_some_iff.mp found).2
      apply List.not_mem_append _ (Text.not_mem_literal (by decide))
      exact List.not_mem_append (bracket_not_mem_inert inert) (Text.not_mem_literal (by decide))
    · exact List.not_mem_append (Text.not_mem_literal (by decide))
        (Text.not_mem_literal (by decide))

theorem bracket_not_mem_cutTail (message : Message) (rest : ℕ) : '[' ∉ cutTail message rest := by
  rw [cutTail]
  split
  · apply List.not_mem_append _ (Text.not_mem_literal (by decide))
    exact List.not_mem_append (Text.not_mem_literal (by decide)) (bracket_not_mem_location _)
  · apply List.not_mem_append _ (Text.not_mem_literal (by decide))
    exact List.not_mem_append (Text.not_mem_literal (by decide)) (bracket_not_mem_decimal _)

/-- A defused text contains no opener or closer at all. -/
theorem defuse_clear (words : WordChars) (id text : Text) : Clear id (defuseMarkers words text) :=
  Clear.of_blockCloser (neutralise_no_closer words _)

theorem prefaceText_clear (words : WordChars) (message : Message) {rest : Text}
    (valid : isValidMessageId id) (clear : Clear id rest) :
    Clear id (prefaceText words message ++ rest) := by
  rw [prefaceText]
  split
  · exact clear
  · rename_i text _
    have trimmed : Text.trimEnd (defuseMarkers words text) <:+: defuseMarkers words text := by
      have kept : (defuseMarkers words text).reverse.dropWhile Text.isWhitespace <:+ _ :=
        List.dropWhile_suffix Text.isWhitespace
      have turned := List.reverse_prefix.mpr kept
      rw [List.reverse_reverse] at turned
      exact turned.isInfix
    rw [List.append_assoc]
    exact ((defuse_clear words id text).of_part trimmed).join valid clear

/-- A body ended by a newline of its own or by one that is added. -/
theorem ended_clear {body rest : Text} (valid : isValidMessageId id) (clear : Clear id body)
    (later : Clear id rest) (empty : Prop) [Decidable empty] (isNil : empty → body = []) :
    Clear id (body ++ (if empty ∨ body.getLast? = some '\n' then [] else ['\n']) ++ rest) := by
  split
  · rename_i ends
    rw [List.append_nil]
    rcases ends with none | last
    · rw [isNil none]
      exact later
    · have whole := List.dropLast_append_getLast? _ last
      rw [← whole, List.append_assoc]
      exact (clear.of_part ⟨[], ['\n'], by simpa using whole⟩).join valid later
  · rw [List.append_assoc]
    exact clear.join valid later

theorem frame_clear (words : WordChars) (summary : Text) {rest : Text}
    (valid : isValidMessageId id) (clear : Clear id rest) :
    Clear id (frameUntrustedReportForFile words summary ++ rest) := by
  have body : Clear id (replaceAll frameNamePattern underscored (defuseMarkers words summary)) := by
    apply Clear.of_blockCloser
    exact not_infix_replaceAll inert_underscored (neutralise_no_closer words _)
  have opens : Clear id reportFrameOpen := by
    intro occurs
    have space : ' ' ∈ closer id :=
      List.mem_append_left _ (List.mem_append_left _ (by decide))
    exact absurd (occurs.subset space) (by decide)
  have closes : Clear id (reportFrameClose ++ '\n' :: rest) :=
    Clear.join valid (Clear.of_bracket (by decide)) clear
  have inside := ended_clear valid body closes _ fun isNil => isNil
  simp only [frameUntrustedReportForFile, List.append_assoc, List.cons_append] at inside ⊢
  exact opens.join valid inside

/-! ## The block -/

theorem cutBytes_prefix (text : Text) (max : ℕ) : Text.cutBytes text max <+: text := by
  induction text generalizing max with
  | nil => simp [Text.cutBytes]
  | cons c text ih =>
    simp only [Text.cutBytes]
    split
    · exact List.cons_prefix_cons.mpr ⟨rfl, ih _⟩
    · exact List.nil_prefix

theorem cutJson_prefix (text : Text) (max : ℕ) : cutJson text max <+: text := by
  induction text generalizing max with
  | nil => simp [cutJson]
  | cons c text ih =>
    simp only [cutJson]
    split
    · exact List.cons_prefix_cons.mpr ⟨rfl, ih _⟩
    · exact List.nil_prefix

theorem head_prefix (budget : InboxBudget) (text : Text) (max : ℕ) :
    budget.head text max <+: text := by
  cases budget with
  | chars limit => exact List.take_prefix max text
  | bytes limit => exact cutBytes_prefix text max
  | jsonBytes limit => exact cutJson_prefix text max

section

variable (words : WordChars) (message : Message) (repeated : Bool)
  (delivery : Option (UInt32 × UInt32))

/-- What stands between a block's opener line and its closer. -/
def between (body : Text) : Text :=
  provenancePrefix ++ senderProvenance message.sender message.bodyTrust ++ dot ++
    (if repeated then '\n' :: repeatLine message.id.toList else []) ++
    '\n' :: (prefaceText words message ++
      (body ++ if body.getLast? = some '\n' then [] else ['\n']))

theorem assemble_eq (body : Text) :
    assemble words message repeated delivery body = blockOpener ++ message.id.toList ++
      (openerRest message delivery ++ '\n' :: between words message repeated body ++
        closer message.id.toList) := by
  simp only [assemble, blockHead, between, List.append_assoc, List.cons_append]

/-- The closer that ends a block is the first one after its opener. -/
theorem between_clear (valid : isValidMessageId message.id.toList) {body : Text}
    (clear : Clear message.id.toList body) :
    Clear message.id.toList
      (openerRest message delivery ++ '\n' :: between words message repeated body) := by
  have line := ended_clear valid clear Clear.nil False (fun never => never.elim)
  simp only [false_or, List.append_nil] at line
  have rest := prefaceText_clear words message valid line
  have sentBy : Clear message.id.toList (provenancePrefix ++
      senderProvenance message.sender message.bodyTrust ++ dot) := by
    apply Clear.of_bracket
    apply List.not_mem_append _ (Text.not_mem_literal (by decide))
    exact List.not_mem_append (Text.not_mem_literal (by decide))
      (bracket_not_mem_senderProvenance _ _)
  apply Clear.join valid (Clear.of_bracket (bracket_not_mem_openerRest message delivery))
  rw [between]
  cases repeated with
  | false =>
    rw [if_neg (by decide), List.append_nil]
    exact sentBy.join valid rest
  | true =>
    rw [if_pos rfl, List.append_assoc, List.cons_append]
    apply sentBy.join valid
    exact Clear.join valid (Clear.of_bracket (bracket_not_mem_repeatLine valid)) rest

/-- What of a body a block shows: all of it, or a prefix with a tail that says so. -/
inductive Shows : Text → Prop
  | whole : Shows (framed words message (rawBody words message))
  | cut (kept : Text) (rest : ℕ) (head : kept <+: rawBody words message) :
      Shows (framed words message (kept ++ "\n…\n".toList) ++ cutTail message rest)

theorem exists_fit (budget : InboxBudget) (room : ℕ) :
    ∃ kept, kept <+: rawBody words message ∧
      fit words message repeated delivery budget room =
        cut words message repeated delivery kept := by
  induction room using Nat.strong_induction_on with
  | h room ih =>
    rw [fit]
    split
    · rename_i exceeds
      exact ih _ (Nat.sub_lt exceeds.1 (Nat.sub_pos_of_lt exceeds.2))
    · exact ⟨_, head_prefix budget _ room, rfl⟩

/-- Whatever the budget, a block is its head and its closer around a shown body. -/
theorem exists_shows (budget : Option InboxBudget) :
    ∃ body, Shows words message body ∧ blockText words message repeated delivery budget =
      assemble words message repeated delivery body := by
  rw [blockText.eq_def]
  split
  · exact ⟨_, .whole, rfl⟩
  · dsimp only
    split
    · rcases exists_fit words message repeated delivery _ _ with ⟨kept, head, fits⟩
      rw [fits]
      exact ⟨_, .cut kept _ head, rfl⟩
    · exact ⟨_, .whole, rfl⟩

theorem shows_clear (valid : isValidMessageId message.id.toList)
    (trusted : message.bodyTrust = .trusted → Clear message.id.toList message.body) {body : Text}
    (shows' : Shows words message body) : Clear message.id.toList body := by
  cases trust : message.bodyTrust with
  | untrusted =>
    cases shows' with
    | whole =>
      simp only [framed, trust]
      have whole := frame_clear words (rawBody words message) valid Clear.nil
      rwa [List.append_nil] at whole
    | cut kept rest head =>
      simp only [framed, trust]
      exact frame_clear words _ valid (Clear.of_bracket (bracket_not_mem_cutTail message rest))
  | trusted =>
    have clear := trusted trust
    cases shows' with
    | whole =>
      simp only [framed, rawBody, trust]
      exact clear
    | cut kept rest head =>
      simp only [framed, trust]
      simp only [rawBody, trust] at head
      have tail : Clear message.id.toList ("…".toList ++ '\n' :: cutTail message rest) :=
        Clear.join valid (Clear.of_bracket (by decide))
          (Clear.of_bracket (bracket_not_mem_cutTail message rest))
      rw [List.append_assoc]
      exact (clear.of_part head.isInfix).join valid tail

end

/-- A rendered block is its opener, a text that does not contain its closer, and its closer. -/
theorem exists_block (words : WordChars) (message : Message) (repeated : Bool)
    (delivery : Option (UInt32 × UInt32)) (budget : Option InboxBudget)
    (valid : isValidMessageId message.id.toList)
    (trusted : message.bodyTrust = .trusted → Clear message.id.toList message.body) :
    ∃ inner, (renderMarked words message repeated delivery budget).text =
        blockOpener ++ message.id.toList ++ (openerRest message delivery ++ inner ++
          closer message.id.toList) ∧
      Clear message.id.toList (openerRest message delivery ++ inner) := by
  rcases exists_shows words message repeated delivery budget with ⟨body, shows', eq⟩
  refine ⟨'\n' :: between words message repeated body, ?_, ?_⟩
  · exact eq.trans (assemble_eq words message repeated delivery body)
  · exact between_clear words message repeated delivery valid
      (shows_clear words message valid trusted shows')

end AgentDeck.Inbox
