import AgentDeck.Inbox.Effects

/-!
# Bounding the history

`trim_history` drops ended messages in two passes, one per holder and one for the deck. Messages
are listed oldest first, so a pass that drops the oldest ones leaves a suffix of what it counts:
of each holder's ended messages in the first pass, of all of them in the second. The counters of
the second pass are what is left to look at, so they never fall below zero.
-/

namespace AgentDeck.Inbox

variable {inbox : Inbox}

/-- The messages of one holder that ended, oldest first. -/
def endedOf (of : Option String) (messages : List Message) : List Message :=
  messages.filter fun msg => msg.state.isTerminal && decide (holder msg = of)

/-- The messages that have not ended, oldest first. -/
def lives (messages : List Message) : List Message :=
  messages.filter fun msg => !msg.state.isTerminal

def bodyBytes (messages : List Message) : ℕ := (messages.map fun msg => Text.len msg.body).sum

def Within (maxCount maxBytes : ℕ) (history : List Message) : Prop :=
  history.length ≤ maxCount ∧ bodyBytes history ≤ maxBytes

variable (maxCount maxBytes : ℕ) (messages : List Message)

theorem endedFor_eq (of : Option String) : endedFor messages of = (endedOf of messages).length :=
  List.countP_eq_length_filter

/-- `after` is `before` without the oldest ended messages over the bounds. -/
structure Trimmed (limits : InboxLimits) (before after : List Message) : Prop where
  order : after.Sublist before
  live : lives after = lives before
  oldest : ∃ between dropped,
    (∀ of, endedOf of between =
      (endedOf of before).drop (endedFor before of - limits.historyPerPane)) ∧
    ended after = (ended between).drop dropped ∧
    (∀ fewer, fewer < dropped →
      ¬ Within limits.maxHistoryMessages limits.maxHistoryBytes ((ended between).drop fewer))

/-! ## Each holder's history -/

theorem dropExcess_endedOf (excess : Option String → ℕ) (messages : List Message)
    (of : Option String) :
    endedOf of (dropExcess excess messages) = (endedOf of messages).drop (excess of) := by
  induction messages generalizing excess with
  | nil => simp [dropExcess, endedOf]
  | cons msg rest ih =>
    simp only [dropExcess]
    by_cases same : holder msg = of
    · subst same
      by_cases counted : msg.state.isTerminal = true
      · by_cases beyond : 0 < excess (holder msg)
        · simp only [counted, beyond, and_self, ↓reduceIte, ih, Function.update_self]
          have one : excess (holder msg) = (excess (holder msg) - 1) + 1 := by omega
          simp only [endedOf, List.filter_cons, counted, decide_true, Bool.and_self, ↓reduceIte]
          rw [one, List.drop_succ_cons, Nat.add_sub_cancel]
        · have absent : excess (holder msg) = 0 := by omega
          have kept := ih excess
          simp only [endedOf] at kept
          simp only [absent, Nat.lt_irrefl, and_false, ↓reduceIte, endedOf, List.filter_cons,
            kept, List.drop_zero]
      · have kept := ih excess
        simp only [endedOf] at kept
        simp only [counted, Bool.false_eq_true, false_and, ↓reduceIte, endedOf, List.filter_cons,
          Bool.false_and, kept]
    · have skip (later : List Message) : endedOf of (msg :: later) = endedOf of later := by
        simp only [endedOf, List.filter_cons, same, decide_false, Bool.and_false,
          Bool.false_eq_true, ↓reduceIte]
      rw [skip]
      split
      · rw [ih, Function.update_of_ne (Ne.symm same)]
      · rw [skip, ih]

theorem trimHolders_endedOf (limit : ℕ) (messages : List Message) (of : Option String) :
    endedOf of (trimHolders limit messages) =
      (endedOf of messages).drop (endedFor messages of - limit) := by
  simp only [trimHolders]
  split
  · exact dropExcess_endedOf _ messages of
  · rename_i absent
    simp only [List.any_eq_true, Bool.and_eq_true, decide_eq_true_eq, not_exists, not_and,
      Nat.not_lt] at absent
    have within : endedFor messages of ≤ limit := by
      rcases Nat.eq_zero_or_pos (endedFor messages of) with zero | some
      · omega
      · rcases List.countP_pos_iff.mp some with ⟨msg, mem, counted⟩
        simp only [Bool.and_eq_true, decide_eq_true_eq] at counted
        rw [← counted.2]
        exact absent msg mem counted.1
    rw [Nat.sub_eq_zero_of_le within, List.drop_zero]

/-! ## The deck's history -/

theorem dropOldest_within {maxCount maxBytes count bytes : ℕ} (fits : count ≤ maxCount)
    (small : bytes ≤ maxBytes) (messages : List Message) :
    dropOldest maxCount maxBytes count bytes messages = messages := by
  induction messages with
  | nil => rfl
  | cons msg rest ih =>
    have keeps : msg.state.isTerminal = false ∨ count ≤ maxCount ∧ bytes ≤ maxBytes :=
      Or.inr ⟨fits, small⟩
    simp only [dropOldest, keeps, ↓reduceIte, ih]

theorem dropOldest_ended :
    ∃ dropped,
      ended (dropOldest maxCount maxBytes (ended messages).length (bodyBytes (ended messages))
        messages) = (ended messages).drop dropped ∧
      Within maxCount maxBytes ((ended messages).drop dropped) ∧
      ∀ fewer, fewer < dropped → ¬ Within maxCount maxBytes ((ended messages).drop fewer) := by
  induction messages with
  | nil => exact ⟨0, rfl, ⟨Nat.zero_le _, Nat.zero_le _⟩, by omega⟩
  | cons msg rest ih =>
    by_cases within : Within maxCount maxBytes (ended (msg :: rest))
    · refine ⟨0, ?_, within, by omega⟩
      rw [dropOldest_within within.1 within.2, List.drop_zero]
    · rcases counted : msg.state.isTerminal with _ | _
      · have skip (later : List Message) : ended (msg :: later) = ended later := by
          simp only [ended, List.filter_cons, counted, Bool.false_eq_true, ↓reduceIte]
        simp only [dropOldest, counted, true_or, ↓reduceIte, skip]
        exact ih
      · have count (later : List Message) : ended (msg :: later) = msg :: ended later := by
          simp only [ended, List.filter_cons, counted, ↓reduceIte]
        rcases ih with ⟨dropped, same, small, least⟩
        have beyond : ¬ ((ended (msg :: rest)).length ≤ maxCount ∧
            bodyBytes (ended (msg :: rest)) ≤ maxBytes) := within
        have length : (msg :: ended rest).length - 1 = (ended rest).length := by simp
        have bytes : bodyBytes (msg :: ended rest) - Text.len msg.body =
            bodyBytes (ended rest) := by simp [bodyBytes]
        rw [count] at beyond within ⊢
        refine ⟨dropped + 1, ?_, small, ?_⟩
        · simp only [dropOldest, counted, Bool.true_eq_false, beyond, or_self, ↓reduceIte,
            length, bytes, List.drop_succ_cons, same]
        · intro fewer less
          cases fewer with
          | zero => exact within
          | succ fewer => exact least fewer (by omega)

theorem trimDeck_ended :
    ∃ dropped, ended (trimDeck maxCount maxBytes messages) = (ended messages).drop dropped ∧
      Within maxCount maxBytes ((ended messages).drop dropped) ∧
      ∀ fewer, fewer < dropped → ¬ Within maxCount maxBytes ((ended messages).drop fewer) := by
  simp only [trimDeck]
  split
  · rename_i within
    exact ⟨0, rfl, within, by omega⟩
  · exact dropOldest_ended maxCount maxBytes messages

/-! ## Both passes -/

theorem dropExcess_sublist (excess : Option String → ℕ) (messages : List Message) :
    (dropExcess excess messages).Sublist messages := by
  induction messages generalizing excess with
  | nil => exact List.Sublist.slnil
  | cons msg rest ih =>
    simp only [dropExcess]
    split
    · exact (ih _).cons msg
    · exact (ih _).cons_cons msg

theorem dropOldest_sublist (count bytes : ℕ) (messages : List Message) :
    (dropOldest maxCount maxBytes count bytes messages).Sublist messages := by
  induction messages generalizing count bytes with
  | nil => exact List.Sublist.slnil
  | cons msg rest ih =>
    simp only [dropOldest]
    split
    · exact (ih _ _).cons_cons msg
    · exact (ih _ _).cons msg

theorem trimHolders_sublist (limit : ℕ) (messages : List Message) :
    (trimHolders limit messages).Sublist messages := by
  simp only [trimHolders]
  split
  · exact dropExcess_sublist _ messages
  · exact List.Sublist.refl messages

theorem trimDeck_sublist : (trimDeck maxCount maxBytes messages).Sublist messages := by
  simp only [trimDeck]
  split
  · exact List.Sublist.refl messages
  · exact dropOldest_sublist _ _ _ _ messages

theorem Kept.lives {before after : List Message} (kept : Kept before after) :
    Inbox.lives after = Inbox.lives before := by
  induction kept with
  | nil => rfl
  | drop past _ ih | empty past _ ih =>
    simpa only [Inbox.lives, List.filter_cons, past, Bool.not_true,
      Bool.false_eq_true, ↓reduceIte] using ih
  | keep msg _ ih =>
    simp only [Inbox.lives] at ih
    simp only [Inbox.lives, List.filter_cons, ih]

theorem trimHistory_trimmed (inbox : Inbox) (now : Instant) :
    Trimmed inbox.limits (inbox.messages.map (dropBody now inbox.limits.historyBodyTtl))
      (inbox.trimHistory now).messages := by
  let bodies := inbox.messages.map (dropBody now inbox.limits.historyBodyTtl)
  let holders := trimHolders inbox.limits.historyPerPane bodies
  rcases trimDeck_ended inbox.limits.maxHistoryMessages inbox.limits.maxHistoryBytes holders with
    ⟨dropped, same, _, least⟩
  constructor
  · exact (trimDeck_sublist _ _ holders).trans (trimHolders_sublist _ bodies)
  · exact ((Kept.trimHolders _ bodies).trans (Kept.trimDeck _ _ holders)).lives
  · exact ⟨holders, dropped, trimHolders_endedOf _ bodies, same, least⟩

/-! ## The bounds -/

structure Bounded (limits : InboxLimits) (messages : List Message) : Prop where
  holders : ∀ of, endedFor messages of ≤ limits.historyPerPane
  deck : Within limits.maxHistoryMessages limits.maxHistoryBytes (ended messages)

theorem endedOf_eq (of : Option String) (messages : List Message) :
    endedOf of messages = (ended messages).filter fun msg => decide (holder msg = of) := by
  simp only [endedOf, ended, List.filter_filter, Bool.and_comm]

theorem Bounded.of_ended {limits : InboxLimits} {before after : List Message}
    (bounded : Bounded limits before) (same : ended after = ended before) :
    Bounded limits after := by
  constructor
  · intro of
    have fits := bounded.holders of
    rw [endedFor_eq, endedOf_eq] at fits ⊢
    rw [same]
    exact fits
  · rw [same]
    exact bounded.deck

theorem trimHistory_bounded (inbox : Inbox) (now : Instant) :
    Bounded inbox.limits (inbox.trimHistory now).messages := by
  let bodies := inbox.messages.map (dropBody now inbox.limits.historyBodyTtl)
  let holders := trimHolders inbox.limits.historyPerPane bodies
  rcases trimDeck_ended inbox.limits.maxHistoryMessages inbox.limits.maxHistoryBytes holders with
    ⟨dropped, same, within, _⟩
  have shorter := trimDeck_sublist inbox.limits.maxHistoryMessages
    inbox.limits.maxHistoryBytes holders
  constructor
  · intro of
    calc endedFor (inbox.trimHistory now).messages of
        ≤ endedFor holders of := shorter.countP_le
      _ = ((endedOf of bodies).drop (endedFor bodies of - inbox.limits.historyPerPane)).length := by
        rw [endedFor_eq, trimHolders_endedOf]
      _ ≤ inbox.limits.historyPerPane := by
        rw [List.length_drop, ← endedFor_eq]
        omega
  · change Within _ _ (ended (trimDeck _ _ holders))
    rw [same]
    exact within

theorem Bounded.filter {limits : InboxLimits} {messages : List Message}
    (bounded : Bounded limits messages) (keep : Message → Bool) :
    Bounded limits (messages.filter keep) := by
  have shorter := List.filter_sublist (p := keep) (l := messages)
  constructor
  · intro of
    exact Nat.le_trans shorter.countP_le (bounded.holders of)
  · have fewer : (ended (messages.filter keep)).Sublist (ended messages) := shorter.filter _
    constructor
    · exact Nat.le_trans fewer.length_le bounded.deck.1
    · exact Nat.le_trans (List.Sublist.sum_le_sum (fewer.map _) (fun _ _ => Nat.zero_le _))
        bounded.deck.2

theorem Act.bounded {clock : Option Instant} {later : Inbox} (act : Act clock inbox later)
    (bounded : Bounded inbox.limits inbox.messages) : Bounded inbox.limits later.messages := by
  cases act with
  | quiet effects same => exact bounded.of_ended same
  | trim effects now =>
    rw [← effects.calls.limits_eq]
    exact trimHistory_bounded _ now

end AgentDeck.Inbox
