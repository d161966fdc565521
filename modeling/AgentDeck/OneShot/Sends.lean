import AgentDeck.Lib.Lines
import AgentDeck.Lib.Runs
import Mathlib.Data.List.Basic

/-!
# Lines a one-shot gives up on

`Connection::send` writes a line in as many pieces as the socket takes, and gives it up when its
time is over or a write fails. What was taken of it stays on the wire, and the next line starts with
the newline that ends it. The deck reads the lines of the wire with `read_frame`. The invariant is
on the wire taken apart into lines: each line is one that was sent, or the start of one that was
given up, and what no newline ends yet is the start of the last one given up.
-/

namespace AgentDeck.OneShot

abbrev newline : UInt8 := 10

/-! ## What the deck reads -/

inductive Fill
  | bytes (available : List UInt8)
  | interrupted
  | failed

inductive Frame
  | line (text : List UInt8)
  | eof
  | unterminated
  | tooLong
  | failed

/-- `consume`: what is left of a buffer comes again. -/
def consume (left : List UInt8) (fills : List Fill) : List Fill :=
  if left = [] then fills else .bytes left :: fills

def readFrame (max : ℕ) (line : List UInt8) : List Fill → Frame × List Fill
  | [] => (if line = [] then .eof else .unterminated, [])
  | .interrupted :: fills => readFrame max line fills
  | .failed :: fills => (.failed, fills)
  | .bytes available :: fills =>
    if available = [] then (if line = [] then .eof else .unterminated, fills)
    else
      match Lines.position newline available with
      | some ref =>
        if max < line.length + ref then (.tooLong, .bytes available :: fills)
        else (.line (line ++ available.take ref), consume (available.drop (ref + 1)) fills)
      | none =>
        if max < line.length + available.length then (.tooLong, .bytes available :: fills)
        else readFrame max (line ++ available) fills

/-- The fills deliver these bytes, and the connection ends without an error. -/
inductive Delivers : List Fill → List UInt8 → Prop
  | done : Delivers [] []
  | again {fills bytes} : Delivers fills bytes → Delivers (.interrupted :: fills) bytes
  | more {fills bytes available} : available ≠ [] → Delivers fills bytes →
    Delivers (.bytes available :: fills) (available ++ bytes)

/-- Frame after frame is a line, and then there is none. -/
inductive Reads (max : ℕ) : List Fill → List (List UInt8) → Prop
  | done {fills : List Fill} :
    (readFrame max [] fills).1 = .eof ∨ (readFrame max [] fills).1 = .unterminated →
    Reads max fills []
  | line {fills rest text texts} : readFrame max [] fills = (.line text, rest) →
    Reads max rest texts → Reads max fills (text :: texts)

theorem delivers_consume {left bytes : List UInt8} {fills : List Fill}
    (delivers : Delivers fills bytes) : Delivers (consume left fills) (left ++ bytes) := by
  simp only [consume]
  split
  · rename_i absent
    rw [absent]
    exact delivers
  · rename_i nonempty
    exact .more nonempty delivers

variable {max : ℕ} {line bytes : List UInt8} {fills : List Fill}

/-- A frame is the first line of what the fills deliver, or there is no line left. -/
theorem readFrame_delivers (delivers : Delivers fills bytes)
    (fits : (line ++ (Lines.parts newline bytes).1.headD (Lines.parts newline bytes).2).length ≤
      max) :
    match Lines.parts newline bytes with
    | ([], _) => (readFrame max line fills).1 = .eof ∨ (readFrame max line fills).1 = .unterminated
    | (text :: texts, rest) => ∃ fills' later, readFrame max line fills =
        (.line (line ++ text), fills') ∧ Delivers fills' later ∧
        Lines.parts newline later = (texts, rest) := by
  induction delivers generalizing line with
  | done =>
    simp only [Lines.parts, readFrame]
    split
    · exact .inl rfl
    · exact .inr rfl
  | again _ ih =>
    exact ih fits
  | @more fills bytes available nonempty delivers ih =>
    simp only [readFrame, if_neg nonempty]
    rcases Lines.position_cases newline available with
      ⟨missing, free⟩ | ⟨before, after, rfl, free, found⟩
    · have ih := @ih (line ++ available)
      rw [Lines.parts_prepend free] at fits ⊢
      simp only [missing]
      generalize Lines.parts newline bytes = parts at fits ih ⊢
      rcases parts with ⟨_ | ⟨text, texts⟩, rest⟩
      · simp only [List.headD_nil, List.length_append] at fits ih ⊢
        rw [if_neg (by omega)]
        exact ih (by omega)
      · simp only [List.headD_cons, List.length_append] at fits ih ⊢
        rw [if_neg (by omega), ← List.append_assoc]
        exact ih (by omega)
    · simp only [found]
      rw [List.append_assoc, List.cons_append, Lines.parts_append_sep,
        Lines.parts_of_not_mem free] at fits ⊢
      simp only [List.nil_append, List.headD_cons, List.length_append] at fits ⊢
      have left : (before ++ newline :: after).drop (before.length + 1) = after := by
        rw [← List.drop_drop, List.drop_left]
        rfl
      rw [if_neg (by omega), List.take_left, left]
      exact ⟨_, _, rfl, delivers_consume delivers, rfl⟩

/-- The frames the deck reads are the lines that the wire ends. -/
theorem reads_lines (delivers : Delivers fills bytes)
    (fits : ∀ text ∈ (Lines.parts newline bytes).1, text.length ≤ max)
    (restFits : (Lines.parts newline bytes).2.length ≤ max) :
    Reads max fills (Lines.parts newline bytes).1 := by
  generalize is : Lines.parts newline bytes = parts at fits restFits
  rcases parts with ⟨texts, rest⟩
  induction texts generalizing fills bytes with
  | nil =>
    have first := @readFrame_delivers max [] bytes fills delivers (by rw [is]; exact restFits)
    rw [is] at first
    exact .done first
  | cons text texts ih =>
    have short := fits text List.mem_cons_self
    have first := @readFrame_delivers max [] bytes fills delivers (by rw [is]; exact short)
    rw [is] at first
    rcases first with ⟨fills', later, reads, delivers, is⟩
    refine .line reads (ih delivers is ?_ restFits)
    exact fun other mem => fits other (List.mem_cons_of_mem text mem)

/-! ## What the one-shot sends -/

inductive WriteAnswer
  | expired
  | wrote (count : ℕ)
  | again
  | failed

/-- Whether all was written, and what was not. A call whose answers are over is out of time. -/
def writeOut : List UInt8 → List WriteAnswer → Bool × List UInt8
  | [], _ => (true, [])
  | rest, .again :: answers => writeOut rest answers
  | rest, .wrote (count + 1) :: answers => writeOut (rest.drop (count + 1)) answers
  | rest, _ => (false, rest)

/-- The flag of a `Connection`, and what its socket has taken. -/
structure Sender where
  cut : Bool
  wire : List UInt8

namespace Sender

def framed (s : Sender) (line : List UInt8) : List UInt8 :=
  (if s.cut then [newline] else []) ++ (line ++ [newline])

def send (s : Sender) (line : List UInt8) (answers : List WriteAnswer) : Bool × Sender :=
  let framed := s.framed line
  let (sent, rest) := writeOut framed answers
  (sent, {
    cut := if sent then false else if rest.length < framed.length then true else s.cut
    wire := s.wire ++ framed.take (framed.length - rest.length) })

end Sender

structure Call where
  line : List UInt8
  answers : List WriteAnswer
  free : newline ∉ line

/-- The sender, and the lines it has sent and given up. -/
structure Sends where
  sender : Sender
  sent : List (List UInt8)
  givenUp : List (List UInt8)

namespace Sends

def start : Sends := ⟨⟨false, []⟩, [], []⟩

def step (s : Sends) (call : Call) : Sends :=
  match s.sender.send call.line call.answers with
  | (true, sender) => ⟨sender, s.sent ++ [call.line], s.givenUp⟩
  | (false, sender) => ⟨sender, s.sent, s.givenUp ++ [call.line]⟩

/-- The call is given up when the socket has taken all but the last newline. -/
def StopsAtNewline (s : Sends) (call : Call) : Prop :=
  (writeOut (s.sender.framed call.line) call.answers).2 = [newline]

end Sends

/-- A line on the wire: what it is of, and whether that was sent. -/
structure Shown where
  line : List UInt8
  text : List UInt8
  sent : Bool

/-- The lines that were sent are whole, each once and in order; the others are strict prefixes of
lines that were given up. -/
structure Accounts (pieces : List Shown) (texts sent givenUp : List (List UInt8)) : Prop where
  texts : pieces.map Shown.text = texts
  sent : (pieces.filter Shown.sent).map Shown.line = sent
  whole : ∀ piece ∈ pieces, piece.sent = true → piece.text = piece.line
  start : ∀ piece ∈ pieces, piece.sent = false →
    piece.line ∈ givenUp ∧ piece.text <+: piece.line ∧ piece.text ≠ piece.line

def Faithful (texts sent givenUp : List (List UInt8)) : Prop :=
  ∃ pieces, Accounts pieces texts sent givenUp

section

variable {texts sent givenUp : List (List UInt8)} {text : List UInt8}

variable (faithful : Faithful texts sent givenUp)

include faithful

theorem Faithful.mono (line : List UInt8) : Faithful texts sent (givenUp ++ [line]) := by
  rcases faithful with ⟨pieces, accounts⟩
  refine ⟨pieces, accounts.texts, accounts.sent, accounts.whole, ?_⟩
  intro piece mem unsent
  rcases accounts.start piece mem unsent with ⟨known, rest⟩
  exact ⟨List.mem_append_left _ known, rest⟩

theorem Faithful.addSent (line : List UInt8) :
    Faithful (texts ++ [line]) (sent ++ [line]) givenUp := by
  rcases faithful with ⟨pieces, accounts⟩
  refine ⟨pieces ++ [⟨line, line, true⟩], ?_, ?_, ?_, ?_⟩
  · rw [List.map_append, accounts.texts]
    rfl
  · rw [List.filter_append, List.map_append, accounts.sent]
    rfl
  · intro piece mem is
    rcases List.mem_append.mp mem with old | new
    · exact accounts.whole piece old is
    · rw [List.mem_singleton.mp new]
  · intro piece mem is
    rcases List.mem_append.mp mem with old | new
    · exact accounts.start piece old is
    · rw [List.mem_singleton.mp new] at is
      cases is

theorem Faithful.addStart (known : line ∈ givenUp) (starts : text <+: line) (strict : text ≠ line) :
    Faithful (texts ++ [text]) sent givenUp := by
  rcases faithful with ⟨pieces, accounts⟩
  refine ⟨pieces ++ [⟨line, text, false⟩], ?_, ?_, ?_, ?_⟩
  · rw [List.map_append, accounts.texts]
    rfl
  · rw [List.filter_append, List.map_append, accounts.sent]
    exact List.append_nil _
  · intro piece mem is
    rcases List.mem_append.mp mem with old | new
    · exact accounts.whole piece old is
    · rw [List.mem_singleton.mp new] at is
      cases is
  · intro piece mem is
    rcases List.mem_append.mp mem with old | new
    · exact accounts.start piece old is
    · rw [List.mem_singleton.mp new]
      exact ⟨known, starts, strict⟩

end

/-! ## One call after another -/

theorem writeOut_spec (framed : List UInt8) (answers : List WriteAnswer) :
    ∃ taken, framed = taken ++ (writeOut framed answers).2 ∧
      (writeOut framed answers).1 = decide ((writeOut framed answers).2 = []) := by
  induction answers generalizing framed with
  | nil =>
    cases framed with
    | nil => exact ⟨[], rfl, rfl⟩
    | cons a framed => exact ⟨[], rfl, rfl⟩
  | cons answer answers ih =>
    cases framed with
    | nil => exact ⟨[], rfl, rfl⟩
    | cons a framed =>
      rcases answer with _ | (_ | count) | _ | _
      · exact ⟨[], rfl, rfl⟩
      · exact ⟨[], rfl, rfl⟩
      · rcases ih ((a :: framed).drop (count + 1)) with ⟨taken, split, all⟩
        refine ⟨(a :: framed).take (count + 1) ++ taken, ?_, all⟩
        simp only [writeOut]
        rw [List.append_assoc, ← split, List.take_append_drop]
      · exact ih (a :: framed)
      · exact ⟨[], rfl, rfl⟩

/-- What a line adds to a wire that no line is open on. -/
theorem line_taken {sent givenUp : List (List UInt8)} {wire taken rest : List UInt8}
    (shown : Faithful (Lines.parts newline wire).1 sent givenUp)
    (clear : (Lines.parts newline wire).2 = []) (free : newline ∉ line)
    (split : line ++ [newline] = taken ++ rest) (early : rest ≠ [newline]) :
    rest = [] ∧ Faithful (Lines.parts newline (wire ++ taken)).1 (sent ++ [line]) givenUp ∧
        (Lines.parts newline (wire ++ taken)).2 = [] ∨
      rest ≠ [] ∧ Faithful (Lines.parts newline (wire ++ taken)).1 sent (givenUp ++ [line]) ∧
        (Lines.parts newline (wire ++ taken)).2 = taken ∧ taken <+: line ∧ taken ≠ line := by
  rcases List.eq_nil_or_concat rest with rfl | ⟨more, last, rfl⟩
  · rw [List.append_nil] at split
    rw [← split, ← List.append_assoc, Lines.parts_append_sep, Lines.parts_append free, clear]
    exact .inl ⟨rfl, shown.addSent line, rfl⟩
  · simp only [List.concat_eq_append] at split early ⊢
    rw [← List.append_assoc] at split
    rcases List.append_inj' split rfl with ⟨rfl, same⟩
    have moreSome : more ≠ [] := by
      rintro rfl
      rw [← List.singleton_inj.mp same] at early
      exact early rfl
    have takenFree : newline ∉ taken := fun mem => free (List.mem_append_left _ mem)
    rw [Lines.parts_append takenFree, clear]
    refine .inr ⟨List.concat_ne_nil last more, shown.mono _, rfl, List.prefix_append _ _, ?_⟩
    exact fun same => moreSome (List.self_eq_append_right.mp same)

namespace Sends

/-- What no newline ends yet is the start of a line given up, if the flag is set. -/
structure Kept (s : Sends) : Prop where
  shown : Faithful (Lines.parts newline s.sender.wire).1 s.sent s.givenUp
  clear : s.sender.cut = false → (Lines.parts newline s.sender.wire).2 = []
  opened : s.sender.cut = true → ∃ line ∈ s.givenUp,
    (Lines.parts newline s.sender.wire).2 <+: line ∧ (Lines.parts newline s.sender.wire).2 ≠ line

theorem kept_start : Kept start :=
  ⟨⟨[], rfl, rfl, fun _ mem => absurd mem List.not_mem_nil,
    fun _ mem => absurd mem List.not_mem_nil⟩, fun _ => rfl,
    fun set => absurd set Bool.false_ne_true⟩

/-- What a call does: the socket takes the start of the framed line, and `rest` is not taken. -/
theorem step_eq (s : Sends) (call : Call) : ∃ taken rest,
    s.sender.framed call.line = taken ++ rest ∧ (s.StopsAtNewline call ↔ rest = [newline]) ∧
    s.step call =
      if rest = [] then ⟨⟨false, s.sender.wire ++ taken⟩, s.sent ++ [call.line], s.givenUp⟩
      else ⟨⟨if taken = [] then s.sender.cut else true, s.sender.wire ++ taken⟩, s.sent,
        s.givenUp ++ [call.line]⟩ := by
  rcases writeOut_spec (s.sender.framed call.line) call.answers with ⟨taken, split, all⟩
  refine ⟨taken, _, split, Iff.rfl, ?_⟩
  simp only [step, Sender.send]
  generalize writeOut (s.sender.framed call.line) call.answers = result at split all
  rcases result with ⟨sent, rest⟩
  simp only at split all
  have took : (s.sender.framed call.line).take
      ((s.sender.framed call.line).length - rest.length) = taken := by
    rw [split, List.length_append, Nat.add_sub_cancel, List.take_left]
  rw [took, all]
  by_cases whole : rest = []
  · simp only [whole, decide_true, if_true]
  · have fewer : rest.length < (s.sender.framed call.line).length ↔ taken ≠ [] := by
      rw [split, List.length_append, ← List.length_pos_iff]
      omega
    simp only [whole, decide_false, if_false, Bool.false_eq_true, fewer, ite_not]

theorem Kept.step {s : Sends} {call : Call} (kept : Kept s) (early : ¬s.StopsAtNewline call) :
    Kept (s.step call) := by
  rcases step_eq s call with ⟨taken, rest, split, stops, is⟩
  rw [stops] at early
  rw [is]
  cases flag : s.sender.cut with
  | false =>
    simp only [Sender.framed, flag] at split
    rcases line_taken kept.shown (kept.clear flag) call.free split early with
      ⟨whole, shown, clear⟩ | ⟨nonempty, shown, opened, starts⟩
    · rw [if_pos whole]
      exact ⟨shown, fun _ => clear, fun set => absurd set Bool.false_ne_true⟩
    · rw [if_neg nonempty]
      refine ⟨shown, ?_, ?_⟩
      · intro unset
        split at unset
        · rename_i absent
          exact opened.trans absent
        · cases unset
      · intro _
        rw [opened]
        exact ⟨call.line, List.mem_append_right _ List.mem_cons_self, starts⟩
  | true =>
    rcases kept.opened flag with ⟨old, known, starts, strict⟩
    simp only [Sender.framed, flag, if_true, List.singleton_append] at split
    cases taken with
    | nil =>
      rw [List.nil_append] at split
      rw [← split, List.append_nil]
      refine ⟨kept.shown.mono _, fun unset => absurd unset (by simp), fun _ => ?_⟩
      exact ⟨old, List.mem_append_left _ known, starts, strict⟩
    | cons first taken =>
      rw [List.cons_append, List.cons.injEq] at split
      rcases split with ⟨rfl, split⟩
      have ended : Lines.parts newline (s.sender.wire ++ [newline]) =
          ((Lines.parts newline s.sender.wire).1 ++ [(Lines.parts newline s.sender.wire).2], []) :=
        Lines.parts_append_sep
      have shown :
          Faithful (Lines.parts newline (s.sender.wire ++ [newline])).1 s.sent s.givenUp := by
        rw [ended]
        exact kept.shown.addStart known starts strict
      rcases line_taken shown (congrArg Prod.snd ended) call.free split early with
        ⟨whole, shown, clear⟩ | ⟨nonempty, shown, opened, starts⟩
      · rw [if_pos whole, List.append_cons]
        exact ⟨shown, fun _ => clear, fun set => absurd set Bool.false_ne_true⟩
      · rw [if_neg nonempty, List.append_cons]
        refine ⟨shown, fun unset => absurd unset.symm Bool.false_ne_true, fun _ => ?_⟩
        rw [opened]
        exact ⟨call.line, List.mem_append_right _ List.mem_cons_self, starts⟩

/-- Every line the sender knows is short enough for the deck. -/
def Short (max : ℕ) (s : Sends) : Prop :=
  ∀ line, line ∈ s.sent ∨ line ∈ s.givenUp → line.length ≤ max

theorem Short.step {s : Sends} {call : Call} (short : Short max s) (fits : call.line.length ≤ max) :
    Short max (s.step call) := by
  rcases step_eq s call with ⟨taken, rest, _, _, is⟩
  rw [is]
  intro line mem
  split at mem
  · rcases mem with mem | mem
    · rcases List.mem_append.mp mem with old | new
      · exact short line (.inl old)
      · exact List.mem_singleton.mp new ▸ fits
    · exact short line (.inr mem)
  · rcases mem with mem | mem
    · exact short line (.inl mem)
    · rcases List.mem_append.mp mem with old | new
      · exact short line (.inr old)
      · exact List.mem_singleton.mp new ▸ fits

theorem Kept.fits {s : Sends} (kept : Kept s) (short : Short max s) :
    (∀ text ∈ (Lines.parts newline s.sender.wire).1, text.length ≤ max) ∧
      (Lines.parts newline s.sender.wire).2.length ≤ max := by
  refine ⟨?_, ?_⟩
  · rcases kept.shown with ⟨pieces, accounts⟩
    rw [← accounts.texts]
    rintro text mem
    rcases List.mem_map.mp mem with ⟨piece, present, rfl⟩
    cases is : piece.sent with
    | true =>
      rw [accounts.whole piece present is]
      apply short _ (.inl ?_)
      rw [← accounts.sent]
      exact List.mem_map_of_mem (List.mem_filter.mpr ⟨present, is⟩)
    | false =>
      rcases accounts.start piece present is with ⟨known, starts, _⟩
      exact Nat.le_trans starts.length_le (short _ (.inr known))
  · cases flag : s.sender.cut with
    | false =>
      rw [kept.clear flag]
      exact Nat.zero_le max
    | true =>
      rcases kept.opened flag with ⟨line, known, starts, _⟩
      exact Nat.le_trans starts.length_le (short _ (.inr known))

end Sends

open Sends

/-- When no call is given up with all but its last newline taken, the deck reads the lines that
were sent, whole and in order, and besides them only strict prefixes of lines given up. -/
theorem given_up_lines_stay_cut (max : ℕ) (calls : List Call) (fills : List Fill) {s : Sends}
    (reached : s = calls.foldl Sends.step Sends.start)
    (early : Runs.Along Sends.step
      (fun s call => ¬s.StopsAtNewline call ∧ call.line.length ≤ max) Sends.start calls)
    (delivers : Delivers fills s.sender.wire) :
    ∃ texts, Reads max fills texts ∧ Faithful texts s.sent s.givenUp := by
  have kept : Kept s ∧ Short max s := by
    rw [reached]
    apply Runs.run_keeps (fun s => Kept s ∧ Short max s) ?_ early
    · refine ⟨kept_start, ?_⟩
      rintro line (mem | mem)
      · exact absurd mem List.not_mem_nil
      · exact absurd mem List.not_mem_nil
    · rintro s call ⟨early, fits⟩ ⟨kept, short⟩
      exact ⟨kept.step early, short.step fits⟩
  rcases kept.1.fits kept.2 with ⟨fits, restFits⟩
  exact ⟨_, reads_lines delivers fits restFits, kept.1.shown⟩

/-- The first line is cut after one byte, and the second one ends it. -/
def cutCalls : List Call :=
  [⟨[97, 98], [.wrote 1, .again, .expired], by decide⟩, ⟨[99, 100], [.wrote 4], by decide⟩]

theorem given_up_lines_stay_cut_early :
    ∃ texts, Reads 64 [.bytes [97, 10, 99], .interrupted, .bytes [100, 10]] texts ∧
      Faithful texts [[99, 100]] [[97, 98]] := by
  refine given_up_lines_stay_cut 64 cutCalls [.bytes [97, 10, 99], .interrupted, .bytes [100, 10]]
    (s := ⟨⟨false, [97, 10, 99, 100, 10]⟩, [[99, 100]], [[97, 98]]⟩) rfl ?_ ?_
  · refine ⟨⟨?_, by decide⟩, ⟨?_, by decide⟩, trivial⟩
    · exact List.cons_ne_nil _ _ ∘ fun is => (List.cons.inj is).2
    · exact (List.cons_ne_nil _ _).symm
  · exact .more (List.cons_ne_nil _ _) (.again (.more (List.cons_ne_nil _ _) .done))

/-- All of the first line but its newline is taken, and the second one's ends it. -/
def wholeCalls : List Call :=
  [⟨[97, 98], [.wrote 2, .failed], by decide⟩, ⟨[99, 100], [.wrote 5], by decide⟩]

theorem given_up_line_read_whole :
    Reads 64 [.bytes (wholeCalls.foldl Sends.step Sends.start).sender.wire]
        [[97, 98], [99, 100]] ∧
      ¬Faithful [[97, 98], [99, 100]] (wholeCalls.foldl Sends.step Sends.start).sent
        (wholeCalls.foldl Sends.step Sends.start).givenUp := by
  refine ⟨.line rfl (.line rfl (.done (.inl rfl))), ?_⟩
  rintro ⟨pieces, accounts⟩
  have texts := accounts.texts
  have sent := accounts.sent
  cases pieces with
  | nil => exact absurd texts (List.cons_ne_nil _ _).symm
  | cons piece pieces =>
    have text := (List.cons.inj texts).1
    cases is : piece.sent with
    | true =>
      rw [List.filter_cons_of_pos is] at sent
      have line : piece.line = [99, 100] := (List.cons.inj sent).1
      have whole := accounts.whole piece List.mem_cons_self is
      rw [text, line] at whole
      exact absurd whole (by decide)
    | false =>
      rcases accounts.start piece List.mem_cons_self is with ⟨known, _, strict⟩
      exact strict (text.trans (List.mem_singleton.mp known).symm)

end AgentDeck.OneShot
